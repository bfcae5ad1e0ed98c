import SglangOmni.Coordinator.Step

/-! Which admission owns what.  `Holds s r a` says that a table of the coordinator holds an object
of admission `a` under the request ID `r`.  `Effect P` describes a segment that touches objects of
the admissions in `P` only and adds nothing to the tables, and every segment but a submission is one:
a caller touches the objects of its own admission, the completion loop those under the request IDs
it works on. -/

namespace Coordinator

open Lib

variable {ρ : Type}

/-- A table holds an object of admission `a` under `r`. -/
inductive Holds (s : State) (r : RequestId) (a : Admission) : Prop
  | request (h : s.requests.get? r = some a)
  | future (h : s.completionFutures.get? r = some a)
  | queue (h : s.streamQueues.get? r = some a)
  | backlog (b : StreamBacklog) (h : s.streamBacklogs.get? r = some b) (ho : b.owner = a)

theorem Holds.of_tables {s s' : State} {r : RequestId} {a : Admission} (h : Holds s' r a)
    (hr : s'.requests = s.requests) (hc : s'.completionFutures = s.completionFutures)
    (hs : s'.streamQueues = s.streamQueues) (hb : s'.streamBacklogs = s.streamBacklogs) :
    Holds s r a := by
  cases h with
  | request h => exact .request (hr ▸ h)
  | future h => exact .future (hc ▸ h)
  | queue h => exact .queue (hs ▸ h)
  | backlog b h ho => exact .backlog b (hb ▸ h) ho

def Agree (s : State) : Prop := ∀ r a b, Holds s r a → Holds s r b → a = b

/-- The objects of admission `m`, and their places in the tables, are in `s'` as they are in `s`. -/
structure Untouched (m : Admission) (s s' : State) : Prop where
  requests : ∀ r, s.requests.get? r = some m → s'.requests.get? r = some m
  info : s'.infos m = s.infos m
  completionFutures : ∀ r, s.completionFutures.get? r = some m → s'.completionFutures.get? r = some m
  future : s'.futures m = s.futures m
  streamQueues : ∀ r, s.streamQueues.get? r = some m → s'.streamQueues.get? r = some m
  queue : s'.queues m = s.queues m
  backlogs : ∀ r b, s.streamBacklogs.get? r = some b → b.owner = m → s'.streamBacklogs.get? r = some b

/-- A stream with a backlog has a queue and a completion future of the same admission. -/
def BacklogsOwned (s : State) : Prop :=
  ∀ r b, s.streamBacklogs.get? r = some b →
    s.streamQueues.get? r = some b.owner ∧ s.completionFutures.get? r = some b.owner

/-- `s'` follows from `s` by touching the objects of admissions in `P` only, and without a new entry
in a table, and no backlog loses its queue or its future. -/
structure Effect (P : Admission → Prop) (s s' : State) : Prop where
  untouched : ∀ m, ¬P m → Untouched m s s'
  holds : ∀ r m, Holds s' r m → Holds s r m
  backlogs : BacklogsOwned s → BacklogsOwned s'
  requests : ∀ r m, s'.requests.get? r = some m → s.requests.get? r = some m
  streamQueues : ∀ r m, s'.streamQueues.get? r = some m → s.streamQueues.get? r = some m
  nextAdmission : s'.nextAdmission = s.nextAdmission
  requestId : ∀ m, s'.requestId m = s.requestId m
  terminalStages : ∀ m, (s'.infos m).terminalStages = (s.infos m).terminalStages

theorem Untouched.refl (m : Admission) (s : State) : Untouched m s s :=
  ⟨fun _ h => h, rfl, fun _ h => h, rfl, fun _ h => h, rfl, fun _ _ h _ => h⟩

theorem Untouched.trans {m : Admission} {s s' s'' : State} (h : Untouched m s s')
    (h' : Untouched m s' s'') : Untouched m s s'' :=
  ⟨fun r hr => h'.requests r (h.requests r hr), h'.info.trans h.info,
    fun r hr => h'.completionFutures r (h.completionFutures r hr), h'.future.trans h.future,
    fun r hr => h'.streamQueues r (h.streamQueues r hr), h'.queue.trans h.queue,
    fun r b hr ho => h'.backlogs r b (h.backlogs r b hr ho) ho⟩

section Effects

variable {P : Admission → Prop} {s s' s'' : State}

theorem Effect.refl (P : Admission → Prop) (s : State) : Effect P s s :=
  ⟨fun m _ => Untouched.refl m s, fun _ _ h => h, fun h => h, fun _ _ h => h, fun _ _ h => h, rfl,
    fun _ => rfl, fun _ => rfl⟩

theorem Effect.trans (h : Effect P s s') (h' : Effect P s' s'') : Effect P s s'' :=
  ⟨fun m hm => (h.untouched m hm).trans (h'.untouched m hm),
    fun r m hm => h.holds r m (h'.holds r m hm), fun hb => h'.backlogs (h.backlogs hb),
    fun r m hm => h.requests r m (h'.requests r m hm),
    fun r m hm => h.streamQueues r m (h'.streamQueues r m hm),
    h'.nextAdmission.trans h.nextAdmission,
    fun m => (h'.requestId m).trans (h.requestId m),
    fun m => (h'.terminalStages m).trans (h.terminalStages m)⟩

theorem Effect.agree (h : Effect P s s') (hag : Agree s) : Agree s' :=
  fun r a b ha hb => hag r a b (h.holds r a ha) (h.holds r b hb)

def State.objects (s : State) :=
  (s.requests, s.infos, s.completionFutures, s.futures, s.streamQueues, s.queues, s.streamBacklogs,
    s.nextAdmission)

theorem Effect.frame (h : s'.objects = s.objects) : Effect P s s' := by
  simp only [State.objects, Prod.mk.injEq] at h
  obtain ⟨hr, hi, hc, hf, hs, hq, hb, hn⟩ := h
  refine ⟨fun m _ => ?_, fun _ _ h => h.of_tables hr hc hs hb, fun h r b hget => ?_,
    fun _ _ h => hr ▸ h, fun _ _ h => hs ▸ h, hn, fun m => ?_, fun m => by rw [hi]⟩
  · exact ⟨fun r h => hr ▸ h, by rw [hi], fun r h => hc ▸ h, by rw [hf], fun r h => hs ▸ h,
      by rw [hq], fun r b h _ => hb ▸ h⟩
  · rw [hs, hc]
    exact h r b (hb ▸ hget)
  · rw [State.requestId, State.requestId, hi]

theorem update_other {α : Type} {f : Admission → α} {a m : Admission} {v : α} (ha : P a)
    (hm : ¬P m) : Function.update f a v m = f m :=
  Function.update_of_ne (by rintro rfl; exact hm ha) v f

theorem effect_setInfo {a : Admission} {change : RequestInfo → RequestInfo} (ha : P a)
    (hid : ∀ info, (change info).requestId = info.requestId)
    (hterm : ∀ info, (change info).terminalStages = info.terminalStages) :
    Effect P s (s.setInfo a change) where
  untouched m hm := ⟨fun _ h => h, update_other ha hm, fun _ h => h, rfl, fun _ h => h, rfl,
    fun _ _ h _ => h⟩
  holds _ _ h := h.of_tables rfl rfl rfl rfl
  backlogs h := h
  requests _ _ h := h
  streamQueues _ _ h := h
  nextAdmission := rfl
  requestId m := by
    by_cases h : m = a
    · subst h; simp [State.requestId, State.setInfo, hid]
    · simp [State.requestId, State.setInfo, h]
  terminalStages m := by
    by_cases h : m = a
    · subst h; simp [State.setInfo, hterm]
    · simp [State.setInfo, h]

theorem effect_settle {a : Admission} {state : FutureState} (ha : P a) :
    Effect P s (s.settle a state) where
  untouched _ hm := ⟨fun _ h => h, rfl, fun _ h => h, update_other ha hm, fun _ h => h, rfl,
    fun _ _ h _ => h⟩
  holds _ _ h := h.of_tables rfl rfl rfl rfl
  backlogs h := h
  requests _ _ h := h
  streamQueues _ _ h := h
  nextAdmission := rfl
  requestId _ := rfl
  terminalStages _ := rfl

theorem effect_setQueue {q : Admission} (msgs : List QueueMessage) (hq : P q) :
    Effect P s { s with queues := Function.update s.queues q msgs } where
  untouched _ hm := ⟨fun _ h => h, rfl, fun _ h => h, rfl, fun _ h => h, update_other hq hm,
    fun _ _ h _ => h⟩
  holds _ _ h := h.of_tables rfl rfl rfl rfl
  backlogs h := h
  requests _ _ h := h
  streamQueues _ _ h := h
  nextAdmission := rfl
  requestId _ := rfl
  terminalStages _ := rfl

theorem effect_push {q : Admission} {msg : QueueMessage} (hq : P q) : Effect P s (s.push q msg) :=
  effect_setQueue _ hq

theorem effect_eraseRequest {r : RequestId} (hr : ∀ m, Holds s r m → P m) :
    Effect P s { s with requests := s.requests.erase r } where
  untouched m hm := by
    refine ⟨fun r' h => ?_, rfl, fun _ h => h, rfl, fun _ h => h, rfl, fun _ _ h _ => h⟩
    have hne : r' ≠ r := fun he => hm (hr m (.request (he ▸ h)))
    simpa [Dict.get?_erase, hne] using h
  holds r' m h := by
    cases h with
    | request h => exact .request (Dict.get?_erase_some h).2
    | future h => exact .future h
    | queue h => exact .queue h
    | backlog b h ho => exact .backlog b h ho
  backlogs h := h
  requests _ _ h := (Dict.get?_erase_some h).2
  streamQueues _ _ h := h
  nextAdmission := rfl
  requestId _ := rfl
  terminalStages _ := rfl

theorem effect_popFuture {r : RequestId} (hr : ∀ m, Holds s r m → P m)
    (hnone : s.streamBacklogs.get? r = none) : Effect P s (s.popFuture r) where
  untouched m hm := by
    refine ⟨fun _ h => h, rfl, fun r' h => ?_, rfl, fun _ h => h, rfl, fun _ _ h _ => h⟩
    have hne : r' ≠ r := fun he => hm (hr m (.future (he ▸ h)))
    simpa [State.popFuture, Dict.get?_erase, hne] using h
  holds r' m h := by
    cases h with
    | request h => exact .request h
    | future h => exact .future (Dict.get?_erase_some h).2
    | queue h => exact .queue h
    | backlog b h ho => exact .backlog b h ho
  backlogs h r' b hget := by
    have hne : r' ≠ r := by
      rintro rfl
      exact absurd (hnone.symm.trans hget) (by simp)
    refine ⟨(h r' b hget).1, ?_⟩
    simpa [State.popFuture, Dict.get?_erase, hne] using (h r' b hget).2
  requests _ _ h := h
  streamQueues _ _ h := h
  nextAdmission := rfl
  requestId _ := rfl
  terminalStages _ := rfl

theorem effect_popBacklog {r : RequestId} {b : StreamBacklog} (hr : ∀ m, Holds s r m → P m) :
    Effect P s (s.popBacklog r b) where
  untouched m hm := by
    refine ⟨fun _ h => h, rfl, fun _ h => h, rfl, fun _ h => h, rfl, fun r' b h ho => ?_⟩
    have hne : r' ≠ r := fun he => hm (hr m (.backlog b (he ▸ h) ho))
    simpa [State.popBacklog, Dict.get?_erase, hne] using h
  holds r' m h := by
    cases h with
    | request h => exact .request h
    | future h => exact .future h
    | queue h => exact .queue h
    | backlog b h ho => exact .backlog b (Dict.get?_erase_some h).2 ho
  backlogs h r' b hget := h r' b (Dict.get?_erase_some hget).2
  requests _ _ h := h
  streamQueues _ _ h := h
  nextAdmission := rfl
  requestId _ := rfl
  terminalStages _ := rfl

theorem effect_setBacklog {r : RequestId} {b b' : StreamBacklog} (hb : s.streamBacklogs.get? r = some b)
    (ho : b'.owner = b.owner) (hr : ∀ m, Holds s r m → P m) :
    Effect P s { s with streamBacklogs := s.streamBacklogs.set r b' } where
  untouched m hm := by
    refine ⟨fun _ h => h, rfl, fun _ h => h, rfl, fun _ h => h, rfl, fun r' c h hc => ?_⟩
    have hne : r' ≠ r := fun he => hm (hr m (.backlog c (he ▸ h) hc))
    simpa [Dict.get?_set, hne] using h
  holds r' m h := by
    cases h with
    | request h => exact .request h
    | future h => exact .future h
    | queue h => exact .queue h
    | backlog c h hc =>
      by_cases he : r' = r
      · subst he
        rw [Dict.get?_set_self, Option.some.injEq] at h
        exact .backlog b hb (by rw [← ho, h, hc])
      · rw [Dict.get?_set, if_neg he] at h
        exact .backlog c h hc
  backlogs h r' c hget := by
    by_cases he : r' = r
    · subst he
      rw [Dict.get?_set_self, Option.some.injEq] at hget
      rw [← hget, ho]
      exact h r' b hb
    · rw [Dict.get?_set, if_neg he] at hget
      exact h r' c hget
  requests _ _ h := h
  streamQueues _ _ h := h
  nextAdmission := rfl
  requestId _ := rfl
  terminalStages _ := rfl

theorem effect_countBytes {r : RequestId} {b b' : StreamBacklog} {size : Int}
    (hb : s.streamBacklogs.get? r = some b) (ho : b'.owner = b.owner)
    (hr : ∀ m, Holds s r m → P m) : Effect P s (s.countBytes r b' size) :=
  (effect_setBacklog hb ho hr).trans (.frame rfl)

theorem effect_dropOwned {r : RequestId} (hr : ∀ m, Holds s r m → P m) :
    Effect P s (s.dropOwned r) where
  untouched m hm := by
    have hne : ∀ r', Holds s r' m → r' ≠ r := by
      rintro r' h rfl
      exact hm (hr m h)
    refine ⟨fun _ h => h, rfl, fun r' h => ?_, rfl, fun r' h => ?_, rfl, fun r' b h ho => ?_⟩
    · simpa [State.dropOwned, Dict.get?_erase, hne r' (.future h)] using h
    · simpa [State.dropOwned, Dict.get?_erase, hne r' (.queue h)] using h
    · simpa [State.dropOwned, Dict.get?_erase, hne r' (.backlog b h ho)] using h
  holds r' m h := by
    cases h with
    | request h => exact .request h
    | future h => exact .future (Dict.get?_erase_some h).2
    | queue h => exact .queue (Dict.get?_erase_some h).2
    | backlog b h ho => exact .backlog b (Dict.get?_erase_some h).2 ho
  backlogs h r' b hget := by
    obtain ⟨hne, hget⟩ := Dict.get?_erase_some hget
    simpa [State.dropOwned, Dict.get?_erase, hne] using h r' b hget
  requests _ _ h := h
  streamQueues _ _ h := (Dict.get?_erase_some h).2
  nextAdmission := rfl
  requestId _ := rfl
  terminalStages _ := rfl

theorem effect_rejectCompletionFuture {r : RequestId} (failure : Failure)
    (hr : ∀ m, Holds s r m → P m) : Effect P s (rejectCompletionFuture s r failure) := by
  unfold rejectCompletionFuture
  split
  · exact .refl P s
  · next a ha =>
    have hP := hr a (.future ha)
    split
    · exact .refl P s
    · split
      · exact effect_settle hP
      · exact effect_settle hP

theorem effect_resolveFuture {r : RequestId} (value : Outcome) (hr : ∀ m, Holds s r m → P m) :
    Effect P s (resolveFuture s r value) := by
  unfold resolveFuture
  split
  · exact .refl P s
  · next a ha =>
    split
    · exact effect_settle (hr a (.future ha))
    · exact .refl P s

theorem effect_pushAt {r : RequestId} (msg : QueueMessage) (hr : ∀ m, Holds s r m → P m) :
    Effect P s (match s.streamQueues.get? r with
      | some q => s.push q msg
      | none => s) := by
  split
  · next q hq => exact effect_push (hr q (.queue hq))
  · exact .refl P s

theorem effect_abort (r : RequestId) : Effect P s (abort s r).1 := by
  unfold abort
  split
  · exact .refl P s
  · split
    · exact .refl P s
    · split
      · exact .refl P s
      · exact .frame rfl

theorem effect_endAborted {r : RequestId} (hr : ∀ m, Holds s r m → P m) :
    Effect P s (endAborted s r) := by
  unfold endAborted
  split
  · exact .refl P s
  · next a ha =>
    have h1 : Effect P s (s.setInfo a fun info => { info with state := .aborted }) :=
      effect_setInfo (hr a (.request ha)) (fun _ => rfl) (fun _ => rfl)
    have h2 := h1.trans (effect_rejectCompletionFuture
      (.cancelled ("Request " ++ r ++ " aborted")) fun m hm => hr m (h1.holds _ m hm))
    have h3 := h2.trans (effect_pushAt (.complete (coordinatorFailure r "aborted"))
      fun m hm => hr m (h2.holds _ m hm))
    have h4 := h3.trans (effect_eraseRequest (r := r) fun m hm => hr m (h3.holds _ m hm))
    exact h4.trans (.frame rfl)

theorem effect_runAbort {t : TaskId} (hr : ∀ m, Holds s (s.tasks t).requestId m → P m) :
    Effect P s (runAbort s t) :=
  (effect_endAborted hr).trans (.frame rfl)

/-! ### The completion loop -/

theorem effect_failBroadcast {msg : CompleteMessage} {a : Admission}
    {rest : List (RequestId × Admission)} (ha : P a) : Effect P s (failBroadcast s msg a rest) := by
  have hinfo : Effect P s (s.setInfo a fun info =>
      { info with state := .failed, error := msg.error }) :=
    effect_setInfo ha (fun _ => rfl) (fun _ => rfl)
  exact hinfo.trans (.frame rfl)

theorem effect_failStreams {cfg : Config ρ} {rest : List (RequestId × Admission)}
    (hrest : ∀ e ∈ rest, P e.2 ∧ ∀ m, Holds s e.1 m → P m) : Effect P s (failStreams cfg s rest) := by
  induction rest generalizing s with
  | nil => exact .frame rfl
  | cons e rest ih =>
    obtain ⟨r, q⟩ := e
    obtain ⟨hq, hr⟩ := hrest (r, q) (by simp)
    have hpush : Effect P s (s.push q (.complete (coordinatorFailure r queueFullMessage))) :=
      effect_push hq
    have hnext := hpush.trans (ih fun e he =>
      ⟨(hrest e (by simp [he])).1, fun m hm => (hrest e (by simp [he])).2 m (hpush.holds _ m hm)⟩)
    simp only [failStreams]
    split
    · exact hnext
    · next a ha =>
      split
      · exact hnext
      · exact effect_failBroadcast (hr a (.request ha))

theorem effect_evict (cap : Option Nat) (fuel : Nat) {streams : List (RequestId × Admission)}
    (hP : ∀ r m, Holds s r m → P m) (hstreams : ∀ e ∈ streams, P e.2) :
    match evict cap fuel s streams with
    | .error (_, s') => Effect P s s'
    | .ok (s', streams') => Effect P s s' ∧ ∀ e ∈ streams', P e.2 := by
  induction fuel generalizing s streams with
  | zero => exact ⟨.refl P s, hstreams⟩
  | succ fuel ih =>
    cases cap with
    | none => exact ⟨.refl P s, hstreams⟩
    | some limit =>
      by_cases hfit : s.streamBacklogBytes ≤ limit
      · simp only [evict, if_pos hfit]
        exact ⟨.refl P s, hstreams⟩
      simp only [evict, if_neg hfit]
      cases hmin : idlest s.streamBacklogs with
      | none => exact .refl P s
      | some e =>
        obtain ⟨r, backlog⟩ := e
        dsimp only
        have h1 := effect_popBacklog (b := backlog) (hP r)
        by_cases hfuture : s.completionFutures.get? r = none
        · rw [if_pos hfuture]
          exact h1
        rw [if_neg hfuture]
        have h2 := h1.trans (effect_popFuture (fun m hm => hP r m (h1.holds r m hm))
          (Dict.get?_erase_self _ r))
        cases hqueue : s.streamQueues.get? r with
        | none => exact h2
        | some q =>
          have hq : P q := hP r q (.queue hqueue)
          have h3 := h2.trans (effect_setQueue [] hq)
          have hmore : ∀ e ∈ streams ++ [(r, q)], P e.2 := by
            intro e he
            rcases List.mem_append.mp he with he | he
            · exact hstreams e he
            · rw [List.mem_singleton.mp he]
              exact hq
          have hih := ih (s := ((s.popBacklog r backlog).popFuture r).clearQueue q)
            (fun r' m hm => hP r' m (h3.holds r' m hm)) hmore
          dsimp only
          split at hih
          · exact h3.trans hih
          · exact ⟨h3.trans hih.1, hih.2⟩

theorem effect_enqueue {r : RequestId} {backlog : StreamBacklog} {q : Admission} {msg : QueueMessage}
    {now : Nat} (hb : s.streamBacklogs.get? r = some backlog) (hq : P q)
    (hr : ∀ m, Holds s r m → P m) : Effect P s (s.enqueue r backlog q msg now) := by
  have hcount : Effect P s (s.countBytes r (backlog.grow msg now) (streamMessagePayloadBytes msg)) :=
    effect_countBytes hb rfl hr
  exact hcount.trans (effect_push hq)

/-- What `queue_stream_message` does up to the first broadcast it suspends in. -/
inductive QueueMove (cfg : Config ρ) (s : State) (r : RequestId) (msg : QueueMessage) (now : Nat) :
    State → Prop
  | missingBacklog (hb : s.streamBacklogs.get? r = none) :
      QueueMove cfg s r msg now { s with loop := .crashed .missingBacklog }
  | missingQueue (backlog : StreamBacklog) (hb : s.streamBacklogs.get? r = some backlog)
      (hq : s.streamQueues.get? r = none) :
      QueueMove cfg s r msg now
        { s.countBytes r (backlog.grow msg now) (streamMessagePayloadBytes msg) with
          loop := .crashed .missingQueue }
  | raised (backlog : StreamBacklog) (q : Admission) (error : LoopError) (s' : State)
      (hb : s.streamBacklogs.get? r = some backlog) (hq : s.streamQueues.get? r = some q)
      (he : evict cfg.maxTotalBacklogBytes ((s.enqueue r backlog q msg now).streamBacklogs.size + 1)
        (s.enqueue r backlog q msg now) [] = .error (error, s')) :
      QueueMove cfg s r msg now { s' with loop := .crashed error }
  | queued (backlog : StreamBacklog) (q : Admission) (s' : State)
      (streams : List (RequestId × Admission)) (hb : s.streamBacklogs.get? r = some backlog)
      (hq : s.streamQueues.get? r = some q)
      (he : evict cfg.maxTotalBacklogBytes ((s.enqueue r backlog q msg now).streamBacklogs.size + 1)
        (s.enqueue r backlog q msg now) [] = .ok (s', streams)) :
      QueueMove cfg s r msg now (failStreams cfg s' streams)

theorem queueStreamMessage_move (cfg : Config ρ) (s : State) (r : RequestId) (msg : QueueMessage)
    (now : Nat) : QueueMove cfg s r msg now (queueStreamMessage cfg s r msg now) := by
  unfold queueStreamMessage
  split
  · next hb => exact .missingBacklog hb
  · next backlog hb =>
    split
    · next hq => exact .missingQueue backlog hb hq
    · next q hq =>
      dsimp only
      split
      · next heq => exact .raised backlog q _ _ hb hq heq
      · next heq => exact .queued backlog q _ _ hb hq heq

theorem effect_queueStreamMessage (cfg : Config ρ) (r : RequestId) (msg : QueueMessage) (now : Nat)
    (hP : ∀ r m, Holds s r m → P m) : Effect P s (queueStreamMessage cfg s r msg now) := by
  have hmove := queueStreamMessage_move cfg s r msg now
  generalize queueStreamMessage cfg s r msg now = s' at hmove ⊢
  have hqueued {backlog : StreamBacklog} {q : Admission}
      (hb : s.streamBacklogs.get? r = some backlog) (hq : s.streamQueues.get? r = some q) :
      Effect P s (s.enqueue r backlog q msg now) := effect_enqueue hb (hP r q (.queue hq)) (hP r)
  have hevict {backlog : StreamBacklog} {q : Admission}
      (hb : s.streamBacklogs.get? r = some backlog) (hq : s.streamQueues.get? r = some q) :=
    effect_evict cfg.maxTotalBacklogBytes
      ((s.enqueue r backlog q msg now).streamBacklogs.size + 1)
      (fun r' m hm => hP r' m ((hqueued hb hq).holds r' m hm)) (List.forall_mem_nil _)
  cases hmove with
  | missingBacklog hb => exact .frame rfl
  | missingQueue backlog hb hq =>
    have hcount : Effect P s (s.countBytes r (backlog.grow msg now)
      (streamMessagePayloadBytes msg)) := effect_countBytes hb rfl (hP r)
    exact hcount.trans (.frame rfl)
  | raised backlog q error s1 hb hq he =>
    have h1 := hevict hb hq
    rw [he] at h1
    exact ((hqueued hb hq).trans h1).trans (.frame rfl)
  | queued backlog q s1 streams hb hq he =>
    have h1 := hevict hb hq
    rw [he] at h1
    have h2 := (hqueued hb hq).trans h1.1
    exact h2.trans (effect_failStreams fun e hmem =>
      ⟨h1.2 e hmem, fun m hm => hP e.1 m (h2.holds e.1 m hm)⟩)

theorem effect_completeRequest {r : RequestId} {a : Admission} (value : Outcome) (ha : P a)
    (hr : ∀ m, Holds s r m → P m) : Effect P s (completeRequest s r a value) := by
  have h1 : Effect P s (s.setInfo a fun info =>
      { info with state := .completed, result := some value }) :=
    effect_setInfo ha (fun _ => rfl) (fun _ => rfl)
  have h2 := h1.trans (effect_resolveFuture value
    fun m hm => hr m (h1.holds r m hm))
  exact h2.trans (effect_eraseRequest fun m hm => hr m (h2.holds r m hm))

theorem effect_collectPartial {msg : CompleteMessage} {a : Admission} (expected : Finset StageName)
    (ha : P a) (hr : ∀ m, Holds s msg.requestId m → P m) :
    Effect P s (collectPartial s msg a expected) := by
  unfold collectPartial
  dsimp only
  split
  · have hpop : Effect P s { s with partialResults := s.partialResults.erase msg.requestId } := .frame rfl
    exact hpop.trans (effect_completeRequest _ ha fun m hm => hr m (hpop.holds _ m hm))
  · exact .frame rfl

theorem effect_deliverCompletion {cfg : Config ρ} {msg : CompleteMessage} {now : Nat}
    (hP : ∀ r m, Holds s r m → P m) : Effect P s (deliverCompletion cfg s msg now) := by
  unfold deliverCompletion
  split
  · exact effect_queueStreamMessage cfg _ _ now hP
  · exact .refl P s

theorem effect_handleActive {cfg : Config ρ} {msg : CompleteMessage} {a : Admission} {now : Nat}
    (ha : P a) (hP : ∀ r m, Holds s r m → P m) : Effect P s (handleActive cfg s msg a now) := by
  unfold handleActive
  dsimp only
  split
  · split
    · have habort := effect_abort (P := P) (s := s) msg.requestId
      split
      · next heq => rw [heq] at habort; exact habort.trans (.frame rfl)
      · next heq => rw [heq] at habort; exact habort
    · exact effect_failBroadcast ha
  · split
    · exact .refl P s
    · split
      · have h := effect_completeRequest (.single msg.result) ha (hP msg.requestId)
        exact h.trans (effect_deliverCompletion fun r m hm => hP r m (h.holds r m hm))
      · have h := effect_collectPartial
          (expectedTerminalStages cfg s msg.requestId) ha (hP msg.requestId)
        exact h.trans (effect_deliverCompletion fun r m hm => hP r m (h.holds r m hm))

theorem effect_handleCompletion (cfg : Config ρ) (msg : CompleteMessage) (now : Nat)
    (hP : ∀ r m, Holds s r m → P m) : Effect P s (handleCompletion cfg s msg now) := by
  unfold handleCompletion
  split
  · exact .refl P s
  · next a ha =>
    split
    · exact .refl P s
    · exact effect_handleActive (hP _ a (.request ha)) hP

theorem effect_handleStream {cfg : Config ρ} {msg : StreamMessage} {now : Nat}
    (hP : ∀ r m, Holds s r m → P m) : Effect P s (handleStream cfg s msg now) := by
  unfold handleStream
  split
  · exact effect_queueStreamMessage cfg _ _ now hP
  · exact .refl P s

theorem effect_failRequest {msg : CompleteMessage} (sent : Bool)
    (hr : ∀ m, Holds s msg.requestId m → P m) : Effect P s (failRequest s msg sent) := by
  unfold failRequest
  dsimp only
  have h1 : Effect P s (if sent = true then
      { s with requests := s.requests.erase msg.requestId } else s) := by
    split
    · exact effect_eraseRequest hr
    · exact .refl P s
  generalize (if sent = true then
    { s with requests := s.requests.erase msg.requestId } else s) = s1 at h1 ⊢
  have h2 : Effect P s { s1 with partialResults := s1.partialResults.erase msg.requestId } :=
    h1.trans (.frame rfl)
  have h3 := h2.trans (effect_rejectCompletionFuture
    (failureFromMessage msg.error) fun m hm => hr m (h2.holds _ m hm))
  exact h3.trans (effect_pushAt _ fun m hm => hr m (h3.holds _ m hm))

theorem effect_broadcastReturned {cfg : Config ρ} {msg : CompleteMessage}
    {rest : List (RequestId × Admission)} {sent : Bool} (hr : ∀ m, Holds s msg.requestId m → P m)
    (hrest : ∀ e ∈ rest, P e.2 ∧ ∀ m, Holds s e.1 m → P m) :
    Effect P s (broadcastReturned cfg s msg rest sent) := by
  have h1 := effect_failRequest sent hr
  exact h1.trans (effect_failStreams fun e he =>
    ⟨(hrest e he).1, fun m hm => (hrest e he).2 m (h1.holds _ m hm)⟩)

/-! ### Shutdown -/

theorem effect_failPendingRequest {message : String} {e : RequestId × Admission} (he : P e.2)
    (hP : ∀ r m, Holds s r m → P m) : Effect P s (failPendingRequest message s e) := by
  have h1 : Effect P s (s.setInfo e.2 fun info =>
      { info with state := .failed, error := some message }) :=
    effect_setInfo he (fun _ => rfl) (fun _ => rfl)
  have h2 := h1.trans (effect_rejectCompletionFuture (r := e.1) (.runtime message)
    fun m hm => hP _ m (h1.holds _ m hm))
  exact h2.trans (effect_pushAt _ fun m hm => hP _ m (h2.holds _ m hm))

theorem effect_failPendingRequests {message : String} (hP : ∀ r m, Holds s r m → P m) :
    Effect P s (failPendingRequests s message) := by
  have hfold : ∀ (entries : List (RequestId × Admission)) (s1 : State), Effect P s s1 →
      (∀ e ∈ entries, P e.2) → Effect P s (entries.foldl (failPendingRequest message) s1) := by
    intro entries
    induction entries with
    | nil => exact fun _ h _ => h
    | cons e rest ih =>
      intro s1 h hent
      refine ih _ (h.trans (effect_failPendingRequest (hent e (by simp)) fun r m hm => ?_))
        fun e' he' => hent e' (by simp [he'])
      exact hP r m (h.holds r m hm)
  have h1 : Effect P s (s.requests.entries.foldl (failPendingRequest message)
      { s with fatalError := some message }) := by
    refine hfold _ _ (.frame rfl) fun e he => ?_
    exact hP e.1 e.2 (.request ((Dict.mem_entries_iff _ _ _).mp he))
  refine h1.trans ⟨fun m hm => ?_, fun r m h => ?_, fun h => h, fun _ _ h => ?_,
    fun _ _ h => h, rfl, fun _ => rfl, fun _ => rfl⟩
  · exact ⟨fun r h => absurd (hP r m (h1.holds r m (.request h))) hm, rfl, fun _ h => h, rfl,
      fun _ h => h, rfl, fun _ _ h _ => h⟩
  · cases h with
    | request h => exact absurd h (by simp [failPendingRequests])
    | future h => exact .future h
    | queue h => exact .queue h
    | backlog b h ho => exact .backlog b h ho
  · exact absurd h (by simp [failPendingRequests])

end Effects

end Coordinator
