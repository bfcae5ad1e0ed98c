import SglangOmni.Coordinator.Consistent

/-! The backlog of the stream readers.  `backlog_accounting` says that the running total, the backlogs
and the queues agree, that the total stays under the cap and that the completion loop never fails on a
missing stream, in every run in which no submission brings a failed request whose stream was dropped
over the cap back to RUNNING; `revived_stream_stops_loop` is a run that does. -/

namespace Coordinator

open Lib

variable {ρ : Type}

/-- The stream of `r` was dropped over the cap: its queue is there and its backlog is not. -/
def Evicted (s : State) (r : RequestId) : Prop :=
  (∃ q, s.streamQueues.get? r = some q) ∧ s.streamBacklogs.get? r = none

/-- An evicted stream whose request has an entry is FAILED, or about to be as one of `rest`. -/
def EvictedFailed (s : State) (rest : List RequestId) : Prop :=
  ∀ r a, s.requests.get? r = some a → Evicted s r → (s.infos a).state = .failed ∨ r ∈ rest

/-- The streams that a suspended `queue_stream_message` still has to fail. -/
def pendingStreams : Loop → List RequestId
  | .broadcasting _ _ rest => rest.map Prod.fst
  | _ => []

/-- The message that a suspended `handle_completion` handles is a failure. -/
def HandlesFailure : Loop → Prop
  | .broadcasting msg _ _ | .awaitingAbort _ msg _ => msg.success = false
  | _ => True

/-- When the send of a submission returns, its request is not a FAILED one with an evicted stream. -/
def staysFailed (s : State) : Action ρ → Prop
  | .sendReturned a => ∀ b, s.requests.get? (s.requestId a) = some b →
      (s.infos b).state = .failed → ¬Evicted s (s.requestId a)
  | _ => True

structure Books (cfg : Config ρ) (s : State) : Prop where
  accounted : Accounted s
  capped : ∀ limit, cfg.maxTotalBacklogBytes = some limit → s.streamBacklogBytes ≤ limit
  evicted : s.loop = .stopped ∨ EvictedFailed s (pendingStreams s.loop)
  alive : ∀ error, s.loop ≠ .crashed error
  failure : HandlesFailure s.loop

/-! ### Bytes -/

theorem queuedBytes_append (msgs : List QueueMessage) (msg : QueueMessage) :
    queuedBytes (msgs ++ [msg]) =
      queuedBytes msgs + if msg.isFailure then 0 else streamMessagePayloadBytes msg := by
  cases h : msg.isFailure <;> simp [queuedBytes, h]

theorem queuedBytes_cons (msg : QueueMessage) (msgs : List QueueMessage) :
    queuedBytes (msg :: msgs) =
      (if msg.isFailure then 0 else streamMessagePayloadBytes msg) + queuedBytes msgs := by
  cases h : msg.isFailure <;> simp [queuedBytes, h]

/-- `s'` has the backlogs of `s`, and its queues hold as many bytes. -/
structure SameBytes (s s' : State) : Prop where
  backlogs : s'.streamBacklogs = s.streamBacklogs
  bytes : s'.streamBacklogBytes = s.streamBacklogBytes
  queued : ∀ a, queuedBytes (s'.queues a) = queuedBytes (s.queues a)

section SameBytes

variable {s s' s'' : State}

theorem SameBytes.frame (h : s'.books = s.books) : SameBytes s s' := by
  simp only [State.books, Prod.mk.injEq] at h
  obtain ⟨hb, hn, hq⟩ := h
  exact ⟨hb, hn, fun a => by rw [hq]⟩

theorem SameBytes.refl (s : State) : SameBytes s s := .frame rfl

theorem SameBytes.trans (h : SameBytes s s') (h' : SameBytes s' s'') : SameBytes s s'' :=
  ⟨h'.backlogs.trans h.backlogs, h'.bytes.trans h.bytes,
    fun a => (h'.queued a).trans (h.queued a)⟩

theorem Accounted.of_sameBytes (h : Accounted s) (hs : SameBytes s s') : Accounted s' where
  total := by rw [hs.bytes, hs.backlogs, h.total]
  queued r b hb := by
    rw [hs.queued]
    exact h.queued r b (hs.backlogs ▸ hb)

theorem sameBytes_push {q : Admission} {msg : QueueMessage} (h : msg.isFailure = true) :
    SameBytes s (s.push q msg) := by
  refine ⟨rfl, rfl, fun a => ?_⟩
  by_cases ha : a = q
  · subst ha
    simp [State.push, queuedBytes_append, h]
  · simp [State.push, ha]

theorem sameBytes_pushAt {r : RequestId} {msg : QueueMessage} (h : msg.isFailure = true) :
    SameBytes s (match s.streamQueues.get? r with
      | some q => s.push q msg
      | none => s) := by
  split
  · exact sameBytes_push h
  · exact .refl s

theorem sameBytes_rejectCompletionFuture (s : State) (r : RequestId) (failure : Failure) :
    SameBytes s (rejectCompletionFuture s r failure) := by
  unfold rejectCompletionFuture
  split
  · exact .refl s
  · split
    · exact .refl s
    · split
      · exact .frame rfl
      · exact .frame rfl

theorem sameBytes_completeRequest (s : State) (r : RequestId) (a : Admission) (value : Outcome) :
    SameBytes s (completeRequest s r a value) := by
  unfold completeRequest resolveFuture
  dsimp only
  split
  · exact .frame rfl
  · split
    · exact .frame rfl
    · exact .frame rfl

theorem sameBytes_collectPartial (s : State) (msg : CompleteMessage) (a : Admission)
    (expected : Finset StageName) : SameBytes s (collectPartial s msg a expected) := by
  unfold collectPartial
  dsimp only
  split
  · have hpop : SameBytes s { s with partialResults := s.partialResults.erase msg.requestId } := .frame rfl
    exact hpop.trans (sameBytes_completeRequest _ _ _ _)
  · exact .frame rfl

theorem sameBytes_endAborted (s : State) (r : RequestId) : SameBytes s (endAborted s r) := by
  unfold endAborted
  split
  · exact .refl s
  · next a _ =>
    have hinfo : SameBytes s (s.setInfo a fun info => { info with state := .aborted }) := .frame rfl
    exact ((hinfo.trans (sameBytes_rejectCompletionFuture _ r _)).trans
      (sameBytes_pushAt rfl)).trans (.frame rfl)

theorem sameBytes_failStreams (cfg : Config ρ) (s : State) (rest : List (RequestId × Admission)) :
    SameBytes s (failStreams cfg s rest) := by
  induction rest generalizing s with
  | nil => exact .frame rfl
  | cons e rest ih =>
    have hnext : SameBytes s (failStreams cfg
        (s.push e.2 (.complete (coordinatorFailure e.1 queueFullMessage))) rest) :=
      (sameBytes_push rfl).trans (ih _)
    simp only [failStreams]
    split
    · exact hnext
    · split
      · exact hnext
      · exact .frame rfl

theorem sameBytes_failRequest (s : State) {msg : CompleteMessage} (sent : Bool)
    (h : msg.success = false) : SameBytes s (failRequest s msg sent) := by
  unfold failRequest
  dsimp only
  have h1 : SameBytes s (if sent = true then
      { s with requests := s.requests.erase msg.requestId } else s) := by
    split
    · exact .frame rfl
    · exact .refl s
  generalize (if sent = true then
    { s with requests := s.requests.erase msg.requestId } else s) = s1 at h1 ⊢
  have h2 : SameBytes s { s1 with partialResults := s1.partialResults.erase msg.requestId } :=
    h1.trans (.frame rfl)
  exact (h2.trans (sameBytes_rejectCompletionFuture _ _ _)).trans
    (sameBytes_pushAt (by simp [QueueMessage.isFailure, h]))

theorem sameBytes_failPendingRequests (s : State) (message : String) :
    SameBytes s (failPendingRequests s message) := by
  have hround (s : State) (e : RequestId × Admission) :
      SameBytes s (failPendingRequest message s e) := by
    have hinfo : SameBytes s (s.setInfo e.2 fun info =>
      { info with state := .failed, error := some message }) := .frame rfl
    exact (hinfo.trans (sameBytes_rejectCompletionFuture _ e.1 _)).trans (sameBytes_pushAt rfl)
  have hfold (entries : List (RequestId × Admission)) (s : State) :
      SameBytes s (entries.foldl (failPendingRequest message) s) := by
    induction entries generalizing s with
    | nil => exact .refl s
    | cons e rest ih => exact (hround s e).trans (ih _)
  have hfatal : SameBytes s { s with fatalError := some message } := .frame rfl
  exact (hfatal.trans (hfold s.requests.entries _)).trans (.frame rfl)

end SameBytes

/-! ### Evicted streams -/

section Evicted

variable {s s' : State} {cfg : Config ρ} {rest : List RequestId}

theorem EvictedFailed.of_effect {P : Admission → Prop} {R : RequestId → Prop}
    (h : EvictedFailed s rest) (he : Effect P s s') (hP : ∀ r m, ¬R r → Holds s r m → ¬P m)
    (hR : ∀ r a, R r → s'.requests.get? r = some a → Evicted s' r →
      (s'.infos a).state = .failed ∨ r ∈ rest) : EvictedFailed s' rest := by
  intro r a hreq hev
  by_cases hr : R r
  · exact hR r a hr hreq hev
  obtain ⟨⟨q, hq⟩, hnone⟩ := hev
  have hreq' := he.requests r a hreq
  rw [(he.untouched a (hP r a hr (.request hreq'))).info]
  refine h r a hreq' ⟨⟨q, he.streamQueues r q hq⟩, ?_⟩
  rw [Option.eq_none_iff_forall_ne_some]
  intro b hb
  have hkept := (he.untouched b.owner (hP r b.owner hr (.backlog b hb rfl))).backlogs r b hb rfl
  simp [hnone] at hkept

theorem Owned.not_holds {r r' : RequestId} {m : Admission} (ho : Owned s) (hne : ¬r' = r)
    (hm : Holds s r' m) : ¬Holds s r m := fun h =>
  hne ((ho.requestId r' m hm).symm.trans (ho.requestId r m h))

theorem EvictedFailed.of_erased {r : RequestId} (h : EvictedFailed s rest) (ho : Owned s)
    (he : Effect (Holds s r) s s') (hr : s'.requests.get? r = none) : EvictedFailed s' rest := by
  refine h.of_effect (R := (· = r)) he (fun r' m hne hm => ho.not_holds hne hm) ?_
  rintro r' a rfl hreq _
  simp [hr] at hreq

theorem EvictedFailed.of_infos (h : EvictedFailed s rest)
    (hr : ∀ r a, s'.requests.get? r = some a → s.requests.get? r = some a)
    (hi : ∀ a, (s.infos a).state = .failed → (s'.infos a).state = .failed)
    (hev : ∀ r, Evicted s' r → Evicted s r) : EvictedFailed s' rest := by
  intro r a hreq hevicted
  exact (h r a (hr r a hreq) (hev r hevicted)).imp_left (hi a)

theorem EvictedFailed.mono {rest' : List RequestId} (h : EvictedFailed s rest)
    (hsub : ∀ r a, s.requests.get? r = some a → r ∈ rest → (s.infos a).state = .failed ∨ r ∈ rest') :
    EvictedFailed s rest' := by
  intro r a hreq hev
  rcases h r a hreq hev with hf | hmem
  · exact .inl hf
  · exact hsub r a hreq hmem

theorem EvictedFailed.failBroadcast {msg : CompleteMessage} {a : Admission}
    {streams : List (RequestId × Admission)} (h : EvictedFailed s rest) :
    EvictedFailed (failBroadcast s msg a streams) rest := by
  refine h.of_infos (fun _ _ h => h) (fun b hb => ?_) fun _ h => h
  by_cases hba : b = a
  · subst hba
    simp [Coordinator.failBroadcast, State.setInfo]
  · simpa [Coordinator.failBroadcast, State.setInfo, hba] using hb

theorem evictedFailed_failStreams {streams : List (RequestId × Admission)}
    (h : EvictedFailed s (streams.map Prod.fst)) :
    EvictedFailed (failStreams cfg s streams) (pendingStreams (failStreams cfg s streams).loop) := by
  induction streams generalizing s with
  | nil => exact h
  | cons e streams ih =>
    have hnext (hhead : ∀ a, s.requests.get? e.1 = some a → (s.infos a).state = .failed) :=
      ih (s := s.push e.2 (.complete (coordinatorFailure e.1 queueFullMessage)))
        (h.mono fun r a hreq hmem => by
          rcases List.mem_cons.mp hmem with rfl | hmem
          · exact .inl (hhead a hreq)
          · exact .inr hmem)
    simp only [failStreams]
    split
    · next hnone => exact hnext fun a ha => by simp [hnone] at ha
    · next a ha =>
      split
      · next hfailed => exact hnext fun b hb => Option.some.inj (ha.symm.trans hb) ▸ hfailed
      · have hmarked : EvictedFailed (failBroadcast s
            { coordinatorFailure e.1 queueFullMessage with
              fromStage := cfg.logicalName "coordinator" } a streams)
            ((e :: streams).map Prod.fst) := h.failBroadcast
        refine hmarked.mono ?_
        intro r b hreq hmem
        rcases List.mem_cons.mp hmem with rfl | hmem
        · have hba : a = b := Option.some.inj (ha.symm.trans hreq)
          exact .inl (by simp [Coordinator.failBroadcast, State.setInfo, hba])
        · exact .inr hmem

end Evicted

/-! ### The eviction loop -/

section Evict

variable {s : State}

theorem exists_idlest {backlogs : Dict RequestId StreamBacklog}
    (h : 0 < backlogs.total StreamBacklog.undeliveredBytes) : ∃ e, idlest backlogs = some e := by
  obtain ⟨e, he, hpos⟩ := Dict.exists_pos_of_total_pos h
  rw [← Option.ne_none_iff_exists']
  intro hnone
  rw [idlest, List.argmin_eq_none, List.filter_eq_nil_iff] at hnone
  exact hnone e he (by simpa using hpos)

def State.evictStream (s : State) (r : RequestId) (b : StreamBacklog) (q : Admission) : State :=
  ((s.popBacklog r b).popFuture r).clearQueue q

theorem owned_evictStream {r : RequestId} {b : StreamBacklog} {q : Admission} (ho : Owned s) :
    Owned (s.evictStream r b q) := by
  have h1 := effect_popBacklog (P := fun _ => True) (s := s) (r := r) (b := b) fun _ _ => trivial
  have h2 := h1.trans (effect_popFuture (fun _ _ => trivial) (Dict.get?_erase_self _ r))
  exact (h2.trans (effect_setQueue (q := q) [] trivial)).owned ho

theorem accounted_evictStream {r : RequestId} {b : StreamBacklog} (ho : Owned s) (h : Accounted s)
    (hb : s.streamBacklogs.get? r = some b) : Accounted (s.evictStream r b b.owner) where
  total := by
    have herase := Dict.total_erase StreamBacklog.undeliveredBytes s.streamBacklogs r
    rw [hb] at herase
    simp only [State.evictStream, State.clearQueue, State.popFuture, State.popBacklog]
    rw [herase, h.total]
    rfl
  queued r' b' hb' := by
    obtain ⟨hne, hget⟩ := Dict.get?_erase_some hb'
    have howner : b'.owner ≠ b.owner := by
      intro he
      have h1 := ho.requestId r b.owner (.backlog b hb rfl)
      have h2 := ho.requestId r' b'.owner (.backlog b' hget rfl)
      exact hne (h2.symm.trans (he ▸ h1))
    simpa [State.evictStream, State.clearQueue, State.popFuture, State.popBacklog, howner] using
      h.queued r' b' hget

theorem evictedFailed_evictStream {r : RequestId} {b : StreamBacklog} {q : Admission}
    {rest : List RequestId} (h : EvictedFailed s rest) :
    EvictedFailed (s.evictStream r b q) (rest ++ [r]) := by
  intro r' a hreq ⟨hq, hnone⟩
  by_cases hr : r' = r
  · exact .inr (by simp [hr])
  · have hnone' : s.streamBacklogs.get? r' = none := by
      simpa [State.evictStream, State.clearQueue, State.popFuture, State.popBacklog,
        Dict.get?_erase, hr] using hnone
    rcases h r' a hreq ⟨hq, hnone'⟩ with hf | hmem
    · exact .inl hf
    · exact .inr (by simp [hmem])

theorem evict_spec (cap : Option Nat) {fuel : Nat} {streams : List (RequestId × Admission)}
    (ho : Owned s) (h : Accounted s) (hE : EvictedFailed s (streams.map Prod.fst))
    (hfuel : s.streamBacklogs.size < fuel) :
    ∃ s' streams', evict cap fuel s streams = .ok (s', streams') ∧ Accounted s' ∧
      EvictedFailed s' (streams'.map Prod.fst) ∧
      ∀ limit, cap = some limit → s'.streamBacklogBytes ≤ limit := by
  induction fuel generalizing s streams with
  | zero => omega
  | succ fuel ih =>
    cases cap with
    | none => exact ⟨s, streams, rfl, h, hE, fun _ hc => by cases hc⟩
    | some limit =>
      by_cases hfit : s.streamBacklogBytes ≤ limit
      · refine ⟨s, streams, by simp only [evict, if_pos hfit], h, hE, ?_⟩
        rintro l ⟨⟩
        exact hfit
      · have hpos : 0 < s.streamBacklogs.total StreamBacklog.undeliveredBytes := by
          rw [← h.total]
          omega
        obtain ⟨⟨r, b⟩, hmin⟩ := exists_idlest hpos
        have hb : s.streamBacklogs.get? r = some b := (get?_of_idlest hmin).1
        obtain ⟨hqueue, hfuture⟩ := ho.backlogs r b hb
        have hsize : (s.evictStream r b b.owner).streamBacklogs.size < fuel := by
          have hlt := Dict.size_erase_lt hb
          simp only [State.evictStream, State.clearQueue, State.popFuture, State.popBacklog]
          omega
        have hmore : EvictedFailed (s.evictStream r b b.owner)
            ((streams ++ [(r, b.owner)]).map Prod.fst) := by
          simpa using evictedFailed_evictStream (b := b) (q := b.owner) hE
        have hround := ih (owned_evictStream ho) (accounted_evictStream ho h hb) hmore hsize
        simpa only [evict, if_neg hfit, hmin, hfuture, reduceCtorEq, if_false, hqueue,
          State.evictStream] using hround

end Evict

/-! ### One step -/

section Step

variable {s s' : State} {cfg : Config ρ} {a : Admission}

theorem books_init (cfg : Config ρ) : Books cfg .init where
  accounted := ⟨rfl, fun r b h => by simp [State.init] at h⟩
  capped limit _ := Int.natCast_nonneg limit
  evicted := .inr fun r a h => by simp [State.init] at h
  alive _ := by simp [State.init]
  failure := trivial

theorem Books.of_sameBytes (h : Books cfg s) (hs : SameBytes s s') (hl : s'.loop = s.loop)
    (he : ∀ rest, EvictedFailed s rest → EvictedFailed s' rest) : Books cfg s' where
  accounted := h.accounted.of_sameBytes hs
  capped limit hc := by
    rw [hs.bytes]
    exact h.capped limit hc
  evicted := by
    rw [hl]
    exact h.evicted.imp_right (he _)
  alive := hl ▸ h.alive
  failure := hl ▸ h.failure

theorem EvictedFailed.of_leaveStep {rest : List RequestId} (h : EvictedFailed s rest)
    (hl : LeaveStep a s s') : EvictedFailed s' rest := by
  refine h.of_infos hl.effect.requests (fun b hb => by rw [hl.infos]; exact hb) ?_
  rintro r ⟨⟨q, hq⟩, hnone⟩
  exact ⟨⟨q, hl.effect.streamQueues r q hq⟩, hl.backlog r q hq hnone⟩

theorem Books.of_leaveStep (h : Books cfg s) (hl : LeaveStep a s s') : Books cfg s' where
  accounted := (hl.accounted h.accounted).1
  capped limit hc := (hl.accounted h.accounted).2.trans (h.capped limit hc)
  evicted := by
    rw [hl.loop]
    exact h.evicted.imp_right fun he => he.of_leaveStep hl
  alive := hl.loop ▸ h.alive
  failure := hl.loop ▸ h.failure

theorem Books.evicted_of_loop (h : Books cfg s) (hloop : s.loop ≠ .stopped)
    (hpending : pendingStreams s.loop = []) : EvictedFailed s [] := by
  rcases h.evicted with hstop | he
  · exact absurd hstop hloop
  · exact hpending ▸ he

theorem Books.setYields (h : Books cfg s) (yields : Admission → List QueueMessage) :
    Books cfg { s with yields } :=
  h.of_sameBytes (.frame rfl) rfl fun _ he => he

theorem books_sendReturned {kind : CallerKind} (hc : Consistent s) (h : Books cfg s)
    (hcaller : s.callers a = .submitting kind)
    (hallowed : ∀ b, s.requests.get? (s.requestId a) = some b → (s.infos b).state = .failed →
      ¬Evicted s (s.requestId a)) : Books cfg (sendReturned cfg s a kind) := by
  have hrun : Books cfg (match s.requests.get? (s.requestId a) with
      | some b => s.setInfo b fun info => { info with state := .running }
      | none => s) := by
    split
    · next b hb =>
      refine h.of_sameBytes (.frame rfl) rfl fun rest he => ?_
      refine he.of_effect (P := (· = b)) (R := (· = s.requestId a))
        (effect_setInfo rfl (fun _ => rfl) fun _ => rfl) ?_ ?_
      · rintro r m hne hm rfl
        exact hc.owned.not_holds hne hm (.request hb)
      · rintro r c rfl hreq hev
        have hcb : c = b := Option.some.inj (hreq.symm.trans hb)
        rcases he _ b hb hev with hfailed | hmem
        · exact absurd hev (hallowed b hb hfailed)
        · exact .inr hmem
    · exact h
  unfold sendReturned
  dsimp only
  cases kind with
  | plain => exact hrun.of_leaveStep leaveStep_setCaller
  | stream => exact hrun.of_leaveStep leaveStep_setCaller

theorem Books.setQueue (hc : Consistent s) (h : Books cfg s) {msg : QueueMessage}
    {rest : List QueueMessage} (hq : s.queues a = msg :: rest)
    (hmsg : msg.isFailure = true ∨ s.streamBacklogs.get? (s.requestId a) = none) :
    Books cfg { s with queues := Function.update s.queues a rest } where
  accounted := by
    refine ⟨h.accounted.total, fun r b hb => ?_⟩
    have hcount := h.accounted.queued r b hb
    by_cases ha : b.owner = a
    · rcases hmsg with hfailure | hnone
      · rw [ha, hq, queuedBytes_cons, if_pos hfailure] at hcount
        simpa [ha] using hcount
      · have hid : s.requestId a = r := ha ▸ hc.owned.requestId r b.owner (.backlog b hb rfl)
        rw [hid, hb] at hnone
        cases hnone
    · simpa [ha] using hcount
  capped := h.capped
  evicted := h.evicted
  alive := h.alive
  failure := h.failure

theorem books_takeCounted (now : Nat) (hc : Consistent s) (h : Books cfg s) {msg : QueueMessage}
    {rest : List QueueMessage} {backlog : StreamBacklog}
    (hreads : s.streamQueues.get? (s.requestId a) = some a) (hq : s.queues a = msg :: rest)
    (hmsg : msg.isFailure = false)
    (hb : s.streamBacklogs.get? (s.requestId a) = some backlog) :
    Books cfg ({ s with queues := Function.update s.queues a rest }.countBytes (s.requestId a)
      (backlog.shrink msg now) (-streamMessagePayloadBytes msg)) where
  accounted := by
    have howner : backlog.owner = a := hc.owned.agree _ _ _ (.backlog backlog hb rfl) (.queue hreads)
    constructor
    · have hset := Dict.total_set StreamBacklog.undeliveredBytes s.streamBacklogs (s.requestId a)
        (backlog.shrink msg now)
      rw [hb] at hset
      simp only [State.countBytes]
      rw [hset, h.accounted.total]
      simp only [Option.elim, StreamBacklog.shrink]
      omega
    · intro r b hget
      simp only [State.countBytes, Dict.get?_set] at hget ⊢
      split at hget
      · next hr =>
        rw [← Option.some.inj hget]
        have hcount := h.accounted.queued _ backlog hb
        rw [howner, hq, queuedBytes_cons, hmsg] at hcount
        simp only [StreamBacklog.shrink, howner, Function.update_self]
        simp only [Bool.false_eq_true, if_false] at hcount
        omega
      · next hr =>
        have hne : b.owner ≠ a := by
          intro he
          exact hr (he ▸ hc.owned.requestId r b.owner (.backlog b hget rfl)).symm
        rw [Function.update_of_ne hne]
        exact h.accounted.queued r b hget
  capped limit hl := by
    have hle := h.capped limit hl
    simp only [State.countBytes]
    omega
  evicted := by
    refine h.evicted.imp_right fun he => he.of_infos (fun _ _ h => h) (fun _ h => h) ?_
    rintro r ⟨hq, hnone⟩
    refine ⟨hq, ?_⟩
    simp only [State.countBytes, Dict.get?_set] at hnone
    split at hnone
    · cases hnone
    · exact hnone
  alive := h.alive
  failure := h.failure

theorem books_takeMessage {expected completed : Finset StageName} {msg : QueueMessage}
    {rest : List QueueMessage} {now : Nat} (hc : Consistent s) (h : Books cfg s)
    (hcaller : s.callers a = .reading expected completed) (hq : s.queues a = msg :: rest) :
    Books cfg (takeMessage s a expected completed msg rest now) := by
  have hag : Agree { s with queues := Function.update s.queues a rest } :=
    (effect_setQueue (P := fun _ => True) rest trivial).agree hc.owned.agree
  unfold takeMessage
  dsimp only
  split
  · next hfailure => exact (h.setQueue hc hq (.inl hfailure)).of_leaveStep (leaveStep_leaveStream hag)
  · next hfailure =>
    split
    · next hnone => exact (h.setQueue hc hq (.inr hnone)).of_leaveStep (leaveStep_leaveStream hag)
    · next backlog hb =>
      have hcounted := books_takeCounted now hc h (hc.callers.reads a (by rw [hcaller]; rfl))
        hq (by simpa using hfailure) hb
      exact (hcounted.setYields _).of_leaveStep leaveStep_setCaller

theorem CallerMove.books {action : Action ρ} (hm : CallerMove cfg s a action s')
    (hc : Consistent s) (h : Books cfg s) (hallowed : staysFailed s action) : Books cfg s' := by
  have hag := hc.owned.agree
  cases hm with
  | sendReturned kind hcaller => exact books_sendReturned hc h hcaller hallowed
  | sendFailed kind hcaller =>
    exact h.of_leaveStep (leaveStep_sendFailed hag (hc.holds_of_submitting hcaller))
  | release _ kind hcaller => exact h.of_leaveStep (leaveStep_releaseSubmission hag)
  | take expected completed msg rest now hcaller hq => exact books_takeMessage hc h hcaller hq
  | resume expected completed msg hcaller =>
    cases msg with
    | complete msg =>
      simp only [resumeStream]
      split
      · exact h.of_leaveStep (leaveStep_leaveStream hag)
      · exact h.of_leaveStep leaveStep_setCaller
    | stream msg => exact h.of_leaveStep leaveStep_setCaller
  | close hcaller => exact h.of_leaveStep (leaveStep_leaveStream hag)
  | finishRelease kind hcaller => exact h.of_leaveStep (leaveStep_finishRelease hag)
  | finishLeave returned hcaller => exact h.of_leaveStep (leaveStep_finishLeave hag)

theorem Books.trackRequest (hc : Consistent s) (h : Books cfg s) {sub : Submission ρ}
    {terminal : Finset StageName} (hfree : requestIdIsReserved s sub.requestId = false) :
    Books cfg (trackRequest s sub terminal) := by
  have hnew := not_holds_of_not_reserved hc.owned.backlogs hfree
  obtain ⟨_, _, _, hloop, _, _, hbytes⟩ := trackRequest_frame s sub terminal
  have hnone : s.streamBacklogs.get? sub.requestId = none :=
    Option.eq_none_iff_forall_ne_some.mpr fun b hb => hnew b.owner (.backlog b hb rfl)
  constructor
  · constructor
    · rw [hbytes, h.accounted.total]
      unfold Coordinator.trackRequest
      cases sub.kind with
      | plain => rfl
      | stream =>
        have hset := Dict.total_set StreamBacklog.undeliveredBytes s.streamBacklogs sub.requestId
          ⟨s.nextAdmission, 0, sub.now⟩
        rw [hnone] at hset
        dsimp only
        rw [hset]
        simp
    · intro r b hb
      rw [trackRequest_streamBacklogs] at hb
      split at hb
      · next hr =>
        rw [← Option.some.inj hb]
        unfold Coordinator.trackRequest
        rw [hr.2]
        simp [queuedBytes]
      · have hne : b.owner ≠ s.nextAdmission := (hc.owned.bound r b.owner (.backlog b hb rfl)).ne
        have hqueue : (Coordinator.trackRequest s sub terminal).queues b.owner = s.queues b.owner := by
          unfold Coordinator.trackRequest
          cases sub.kind with
          | plain => rfl
          | stream => exact Function.update_of_ne hne _ _
        rw [hqueue]
        exact h.accounted.queued r b hb
  · intro limit hl
    rw [hbytes]
    exact h.capped limit hl
  · rw [hloop]
    refine h.evicted.imp_right fun he => ?_
    rintro r a hreq ⟨⟨q, hq⟩, hback⟩
    rw [trackRequest_requests, Dict.get?_set] at hreq
    rw [trackRequest_streamQueues] at hq
    rw [trackRequest_streamBacklogs] at hback
    split at hreq
    · next hr =>
      split at hq
      · next hk =>
        rw [if_pos hk] at hback
        cases hback
      · exact absurd (.queue (hr ▸ hq)) (hnew q)
    · next hr =>
      rw [if_neg fun hk => hr hk.1] at hq hback
      rw [trackRequest_infos, Function.update_of_ne (hc.owned.bound r a (.request hreq)).ne]
      exact he r a hreq ⟨⟨q, hq⟩, hback⟩
  · rw [hloop]
    exact h.alive
  · rw [hloop]
    exact h.failure

theorem endAborted_requests (s : State) (r : RequestId) : (endAborted s r).requests.get? r = none := by
  unfold endAborted
  split
  · assumption
  · exact Dict.get?_erase_self _ r

theorem Books.endAborted (hc : Consistent s) (h : Books cfg s) (r : RequestId) :
    Books cfg (endAborted s r) :=
  h.of_sameBytes (sameBytes_endAborted s r) (endAborted_loop s r) fun _ he =>
    he.of_erased hc.owned (effect_endAborted fun _ hm => hm) (endAborted_requests s r)

/-! ### The completion loop -/

theorem books_failStreams {streams : List (RequestId × Admission)} (hacc : Accounted s)
    (hcap : ∀ limit, cfg.maxTotalBacklogBytes = some limit → s.streamBacklogBytes ≤ limit)
    (he : EvictedFailed s (streams.map Prod.fst)) : Books cfg (failStreams cfg s streams) := by
  have hbytes := sameBytes_failStreams cfg s streams
  refine ⟨hacc.of_sameBytes hbytes, fun limit hl => ?_, .inr (evictedFailed_failStreams he), ?_, ?_⟩
  · rw [hbytes.bytes]
    exact hcap limit hl
  · intro error
    rcases failStreams_loop cfg s streams with h | ⟨r, q, rest, msg, a, _, _, _, h⟩
    · simp [h]
    · simp [h]
  · rcases failStreams_loop cfg s streams with h | ⟨r, q, rest, msg, a, _, _, hfailure, h⟩
    · rw [h]
      trivial
    · rw [h]
      exact hfailure

theorem accounted_enqueue {r : RequestId} {backlog : StreamBacklog} {msg : QueueMessage} {now : Nat}
    (ho : Owned s) (h : Accounted s) (hb : s.streamBacklogs.get? r = some backlog)
    (hmsg : msg.isFailure = false) : Accounted (s.enqueue r backlog backlog.owner msg now) where
  total := by
    have hset := Dict.total_set StreamBacklog.undeliveredBytes s.streamBacklogs r
      (backlog.grow msg now)
    rw [hb] at hset
    simp only [State.enqueue, State.push, State.countBytes]
    rw [hset, h.total]
    simp only [Option.elim, StreamBacklog.grow]
    omega
  queued r' b hget := by
    simp only [State.enqueue, State.push, State.countBytes, Dict.get?_set] at hget ⊢
    split at hget
    · rw [← Option.some.inj hget]
      simp only [StreamBacklog.grow, Function.update_self, queuedBytes_append, hmsg]
      rw [h.queued r backlog hb]
      simp
    · next hr =>
      have hne : b.owner ≠ backlog.owner := by
        intro heq
        have h1 := ho.requestId r backlog.owner (.backlog backlog hb rfl)
        have h2 := ho.requestId r' b.owner (.backlog b hget rfl)
        exact hr (h2.symm.trans (heq ▸ h1))
      rw [Function.update_of_ne hne]
      exact h.queued r' b hget

theorem books_queueStreamMessage {r : RequestId} {msg : QueueMessage} {now : Nat}
    {backlog : StreamBacklog} (ho : Owned s) (hacc : Accounted s) (he : EvictedFailed s [])
    (hb : s.streamBacklogs.get? r = some backlog) (hmsg : msg.isFailure = false) :
    Books cfg (queueStreamMessage cfg s r msg now) := by
  have hqueue := (ho.backlogs r backlog hb).1
  have howned : Owned (s.enqueue r backlog backlog.owner msg now) :=
    (effect_enqueue (P := fun _ => True) hb trivial fun _ _ => trivial).owned ho
  have hevicted : EvictedFailed (s.enqueue r backlog backlog.owner msg now) [] := by
    refine he.of_infos (fun _ _ h => h) (fun _ h => h) ?_
    rintro r' ⟨hq, hnone⟩
    refine ⟨hq, ?_⟩
    simp only [State.enqueue, State.push, State.countBytes, Dict.get?_set] at hnone
    split at hnone
    · cases hnone
    · exact hnone
  have hevictedNone : EvictedFailed (s.enqueue r backlog backlog.owner msg now)
      (([] : List (RequestId × Admission)).map Prod.fst) := hevicted
  obtain ⟨s', streams, hok, hacc', he', hcap⟩ := evict_spec cfg.maxTotalBacklogBytes
    howned (accounted_enqueue ho hacc hb hmsg) hevictedNone (Nat.lt_succ_self _)
  simp only [queueStreamMessage, hb, hqueue, hok]
  exact books_failStreams hacc' hcap he'

theorem books_deliverCompletion {msg : CompleteMessage} {now : Nat} (ho : Owned s)
    (h : Books cfg s) (hidle : s.loop = .idle) (hmsg : msg.success = true)
    (hback : s.streamBacklogs.get? msg.requestId = none →
      s.streamQueues.get? msg.requestId = none) :
    Books cfg (deliverCompletion cfg s msg now) := by
  unfold deliverCompletion
  split
  · next hcontains =>
    obtain ⟨q, hq⟩ := (Dict.contains_iff _ _).mp hcontains
    cases hb : s.streamBacklogs.get? msg.requestId with
    | none =>
      rw [hback hb] at hq
      cases hq
    | some backlog =>
      have he := h.evicted_of_loop (by simp [hidle]) (by rw [hidle]; rfl)
      exact books_queueStreamMessage ho h.accounted he hb (by simp [QueueMessage.isFailure, hmsg])
  · exact h

theorem Books.completeRequest (hc : Consistent s) (h : Books cfg s) {r : RequestId} {value : Outcome}
    (ha : s.requests.get? r = some a) : Books cfg (completeRequest s r a value) :=
  h.of_sameBytes (sameBytes_completeRequest s r a value) (completeRequest_loop s r a value)
    fun _ he => he.of_erased hc.owned (effect_completeRequest value (.request ha) fun _ hm => hm)
      (Dict.get?_erase_self _ r)

theorem Books.setPartialResults (h : Books cfg s)
    (partialResults : Dict RequestId (Dict StageName Payload)) :
    Books cfg { s with partialResults } :=
  h.of_sameBytes (.frame rfl) rfl fun _ he => he

theorem Books.collectPartial (hc : Consistent s) (h : Books cfg s) {msg : CompleteMessage}
    {expected : Finset StageName} (ha : s.requests.get? msg.requestId = some a) :
    Books cfg (collectPartial s msg a expected) := by
  unfold Coordinator.collectPartial
  dsimp only
  split
  · have hpop : Consistent { s with partialResults := s.partialResults.erase msg.requestId } :=
      hc.of_sameTasks (P := fun _ => True) (.frame rfl) (.frame rfl)
    exact (h.setPartialResults _).completeRequest hpop ha
  · exact h.setPartialResults _

theorem Books.not_evicted (h : Books cfg s) (hidle : s.loop = .idle) {r : RequestId}
    (ha : s.requests.get? r = some a) (hactive : (s.infos a).state ≠ .failed) : ¬Evicted s r := by
  intro hev
  rcases h.evicted_of_loop (by simp [hidle]) (by rw [hidle]; rfl) r a ha hev with hfailed | hmem
  · exact hactive hfailed
  · cases hmem

theorem books_deliver (msg : CompleteMessage) {now : Nat} (hc : Consistent s) (h : Books cfg s)
    (hidle : s.loop = .idle) (ha : s.requests.get? msg.requestId = some a)
    (hactive : (s.infos a).state ≠ .failed) (hsuccess : msg.success = true)
    (hs' : (∃ value, s' = completeRequest s msg.requestId a value) ∨
      ∃ expected, s' = collectPartial s msg a expected) :
    Books cfg (deliverCompletion cfg s' msg now) := by
  have hnot := h.not_evicted hidle ha hactive
  have hdeliver (he : Effect (fun _ => True) s s') (hsame : SameTasks s s') (hbytes : SameBytes s s')
      (hloop : s'.loop = s.loop) (hbooks : Books cfg s') :
      Books cfg (deliverCompletion cfg s' msg now) := by
    refine books_deliverCompletion (he.owned hc.owned) hbooks (hloop.trans hidle) hsuccess ?_
    rw [hbytes.backlogs, hsame.streamQueues]
    intro hnone
    by_contra hq
    exact hnot ⟨Option.ne_none_iff_exists'.mp hq, hnone⟩
  rcases hs' with ⟨value, rfl⟩ | ⟨expected, rfl⟩
  · exact hdeliver (effect_completeRequest value trivial fun _ _ => trivial)
      (sameTasks_completeRequest _ _ _ _) (sameBytes_completeRequest _ _ _ _)
      (completeRequest_loop _ _ _ _) (h.completeRequest hc ha)
  · exact hdeliver (effect_collectPartial expected trivial fun _ _ => trivial)
      (sameTasks_collectPartial _ _ _ _) (sameBytes_collectPartial _ _ _ _)
      (collectPartial_loop _ _ _ _) (h.collectPartial hc ha)

theorem books_failBroadcast {msg : CompleteMessage} (h : Books cfg s)
    (hloop : s.loop = .idle ∨ ∃ t m b, s.loop = .awaitingAbort t m b) (hfailure : msg.success = false) :
    Books cfg (failBroadcast s msg a []) where
  accounted := h.accounted.of_sameBytes (.frame rfl)
  capped := h.capped
  evicted := by
    refine .inr (EvictedFailed.failBroadcast (h.evicted_of_loop ?_ ?_))
    · rcases hloop with hidle | ⟨t, m, b, hwait⟩
      · simp [hidle]
      · simp [hwait]
    · rcases hloop with hidle | ⟨t, m, b, hwait⟩
      · rw [hidle]
        rfl
      · rw [hwait]
        rfl
  alive _ := by simp [failBroadcast]
  failure := hfailure

theorem books_handleCompletion {msg : CompleteMessage} {now : Nat} (hc : Consistent s)
    (h : Books cfg s) (hidle : s.loop = .idle) : Books cfg (handleCompletion cfg s msg now) := by
  have hmove := handleCompletion_move cfg s msg now
  generalize handleCompletion cfg s msg now = s' at hmove ⊢
  cases hmove with
  | ignore => exact h
  | abort t b ha hfailure ht =>
    have habort := h.of_leaveStep (leaveStep_abort 0 msg.requestId)
    have hloop : (abort s msg.requestId).1.loop = .idle :=
      (leaveStep_abort 0 msg.requestId).loop.trans hidle
    have he := habort.evicted_of_loop (by simp [hloop]) (by rw [hloop]; rfl)
    exact ⟨habort.accounted.of_sameBytes (.frame rfl), habort.capped, .inr he, fun _ => by simp, hfailure⟩
  | fail b ha hfailure => exact books_failBroadcast h (.inl hidle) hfailure
  | deliver b s1 ha hactive hsuccess hs1 =>
    exact books_deliver { msg with fromStage := cfg.logicalName msg.fromStage } hc h hidle ha
      hactive hsuccess hs1

theorem books_handleStream {msg : StreamMessage} {now : Nat} (hc : Consistent s) (h : Books cfg s)
    (hidle : s.loop = .idle) : Books cfg (handleStream cfg s msg now) := by
  unfold handleStream
  split
  · next hcontains =>
    obtain ⟨backlog, hb⟩ := (Dict.contains_iff _ _).mp hcontains
    have he := h.evicted_of_loop (by simp [hidle]) (by rw [hidle]; rfl)
    exact books_queueStreamMessage hc.owned h.accounted he hb rfl
  · exact h

theorem rejectCompletionFuture_infos (s : State) (r : RequestId) (failure : Failure) :
    (rejectCompletionFuture s r failure).infos = s.infos := by
  unfold rejectCompletionFuture
  split
  · rfl
  · split
    · rfl
    · split <;> rfl

theorem failRequest_infos (s : State) (msg : CompleteMessage) (sent : Bool) :
    (failRequest s msg sent).infos = s.infos := by
  unfold failRequest
  dsimp only
  split
  · exact (rejectCompletionFuture_infos _ _ _).trans (by cases sent <;> rfl)
  · exact (rejectCompletionFuture_infos _ _ _).trans (by cases sent <;> rfl)

theorem books_broadcastReturned {msg : CompleteMessage} {rest : List (RequestId × Admission)}
    {sent : Bool} (h : Books cfg s) (hloop : s.loop = .broadcasting msg a rest) :
    Books cfg (broadcastReturned cfg s msg rest sent) := by
  have hfailure : msg.success = false := by
    have hf := h.failure
    rw [hloop] at hf
    exact hf
  have hbytes := sameBytes_failRequest s sent hfailure
  have heffect := effect_failRequest (P := fun _ => True) (s := s) sent
    fun m (_ : Holds s msg.requestId m) => trivial
  refine books_failStreams (h.accounted.of_sameBytes hbytes) (fun limit hl => ?_) ?_
  · rw [hbytes.bytes]
    exact h.capped limit hl
  · rcases h.evicted with hstop | he
    · simp [hloop] at hstop
    · rw [hloop] at he
      refine EvictedFailed.of_infos he heffect.requests (fun b hb => ?_) ?_
      · rw [failRequest_infos]
        exact hb
      · rintro r ⟨⟨q, hq⟩, hnone⟩
        exact ⟨⟨q, heffect.streamQueues r q hq⟩, hbytes.backlogs ▸ hnone⟩

theorem books_step {action : Action ρ} (hc : Consistent s) (h : Books cfg s)
    (hallowed : staysFailed s action) (hs : step cfg s action = some s') : Books cfg s' := by
  cases hcaller : action.caller with
  | some a => exact (callerMove_of_step hcaller hs).books hc h hallowed
  | none =>
    cases action <;> simp only [Action.caller, reduceCtorEq] at hcaller
    all_goals simp only [step, Option.some.injEq] at hs
    case submit sub =>
      split at hs
      · next heq =>
        obtain ⟨hfree, terminal, rfl⟩ := submitRequest_ok heq
        exact Option.some.inj hs ▸ h.trackRequest hc hfree
      · exact Option.some.inj hs ▸ h
    case abort r => exact hs ▸ h.of_leaveStep (leaveStep_abort 0 r)
    case abortSent t =>
      split at hs
      · exact Option.some.inj hs ▸ (h.endAborted hc _).of_sameBytes (.frame rfl) rfl fun _ he => he
      · cases hs
    case abortFailed t =>
      split at hs
      · exact Option.some.inj hs ▸ h.of_sameBytes (.frame rfl) rfl fun _ he => he
      · cases hs
    case abortTaskDone t =>
      split at hs
      · cases hs
      · rw [← Option.some.inj hs]
        unfold onAbortTaskDone
        dsimp only
        split
        · exact h.of_sameBytes (.frame rfl) rfl fun _ he => he
        · exact h
    case completion msg now =>
      split at hs
      · next hidle =>
        have hbegan : Books cfg { s with loopBegan := s.nextAdmission } :=
          h.of_sameBytes (.frame rfl) rfl fun _ he => he
        exact Option.some.inj hs ▸ books_handleCompletion (hc.setBegan _) hbegan hidle
      · cases hs
    case streamChunk msg now =>
      split at hs
      · next hidle =>
        have hbegan : Books cfg { s with loopBegan := s.nextAdmission } :=
          h.of_sameBytes (.frame rfl) rfl fun _ he => he
        exact Option.some.inj hs ▸ books_handleStream (hc.setBegan _) hbegan hidle
      · cases hs
    case loopAbortDone =>
      split at hs
      · next t msg a hloop =>
        split at hs
        · cases hs
        · rw [← Option.some.inj hs]
          have he := h.evicted_of_loop (by simp [hloop]) (by rw [hloop]; rfl)
          exact ⟨h.accounted.of_sameBytes (.frame rfl), h.capped, .inr he, fun _ => by simp, trivial⟩
        · have hfailure := h.failure
          rw [hloop] at hfailure
          exact Option.some.inj hs ▸ books_failBroadcast h (.inr ⟨t, msg, a, hloop⟩) hfailure
      · cases hs
    case broadcastReturned sent =>
      split at hs
      · next hloop => exact Option.some.inj hs ▸ books_broadcastReturned h hloop
      · cases hs
    case cancelLoop =>
      rw [← hs]
      exact ⟨h.accounted.of_sameBytes (.frame rfl), h.capped, .inl rfl, fun _ => by simp, trivial⟩
    case failPendingRequests message =>
      refine hs ▸ h.of_sameBytes (sameBytes_failPendingRequests s message)
        (failPendingRequests_loop s message) fun rest _ r a hreq => ?_
      simp [Coordinator.failPendingRequests] at hreq

theorem books_of_reaches (h : (machine cfg).Reaches staysFailed s) : Books cfg s := by
  have hinit : Consistent .init ∧ Books cfg .init := ⟨consistent_init, books_init cfg⟩
  exact (h.invariant (P := fun s => Consistent s ∧ Books cfg s) hinit
    fun s action s' hs hallowed hstep =>
      ⟨consistent_step hs.1 hstep, books_step hs.1 hs.2 hallowed hstep⟩).2

end Step

/-- In every run in which no send returns to a FAILED request with an evicted stream: the running total
is the sum of the backlogs, each backlog has its queue and its completion future and counts the bytes
that its queue holds, the total is under the cap, and the completion loop has not ended on a missing
key or on a `min` over no stream. -/
theorem backlog_accounting {cfg : Config ρ} {s : State}
    (hrun : (machine cfg).Reaches staysFailed s) :
    s.streamBacklogBytes = s.streamBacklogs.total StreamBacklog.undeliveredBytes ∧
    (∀ r b, s.streamBacklogs.get? r = some b →
      (∃ q, s.streamQueues.get? r = some q ∧ b.undeliveredBytes = queuedBytes (s.queues q)) ∧
      0 ≤ b.undeliveredBytes ∧ s.completionFutures.contains r = true) ∧
    (∀ limit, cfg.maxTotalBacklogBytes = some limit → s.streamBacklogBytes ≤ limit) ∧
    ∀ error, s.loop ≠ .crashed error := by
  have hc := consistent_of_reaches hrun
  have h := books_of_reaches hrun
  refine ⟨h.accounted.total, fun r b hb => ?_, h.capped, h.alive⟩
  obtain ⟨hqueue, hfuture⟩ := hc.owned.backlogs r b hb
  exact ⟨⟨b.owner, hqueue, h.accounted.queued r b hb⟩, h.accounted.nonneg hb,
    (Dict.contains_iff _ _).mpr ⟨_, hfuture⟩⟩

/-! ### Runs -/

def cappedConfig : Config Unit where
  terminalStages := {"out"}
  terminalStagesResolver := none
  logicalName := id
  stages := ["entry"]
  maxInFlight := none
  maxTotalBacklogBytes := some 1

def cappedSubmission : Submission Unit :=
  { requestId := "r", kind := .stream, request := (), entry := "entry", now := 0 }

def audioChunk (size : Nat) : Action Unit :=
  .streamChunk { requestId := "r", fromStage := "out",
                 chunk := .dict [("audio", .bytes (List.replicate size 0))] } 0

def finalCompletion : Action Unit :=
  .completion { requestId := "r", fromStage := "out", success := true } 0

def keepsFailed (s : State) : Action ρ → Bool
  | .sendReturned a => s.streamBacklogs.contains (s.requestId a)
  | _ => true

theorem staysFailed_of_keepsFailed (s : State) (action : Action ρ) (h : keepsFailed s action = true) :
    staysFailed s action := by
  cases action with
  | sendReturned a =>
    intro b _ _ hev
    obtain ⟨backlog, hb⟩ := (Dict.contains_iff _ _).mp h
    rw [hev.2] at hb
    cases hb
  | _ => trivial

/-- A chunk at the cap: its byte is counted and the loop goes on. -/
theorem chunk_at_cap_is_counted : ∃ s,
    (machine cappedConfig).execWhere keepsFailed .init
      [.submit cappedSubmission, .sendReturned 0, audioChunk 1] = some s ∧
    s.streamBacklogBytes = 1 ∧
    s.streamBacklogBytes = s.streamBacklogs.total StreamBacklog.undeliveredBytes ∧
    ∀ error, s.loop ≠ .crashed error := by
  have hobs : ((machine cappedConfig).execWhere keepsFailed .init
      [.submit cappedSubmission, .sendReturned 0, audioChunk 1]).map
      (fun s => s.streamBacklogBytes) = some 1 := by decide +kernel
  obtain ⟨s, hs, hbytes⟩ := Option.map_eq_some_iff.mp hobs
  have hacc := backlog_accounting (Machine.path_of_execWhere staysFailed_of_keepsFailed hs)
  exact ⟨s, hs, hbytes, hacc.1, hacc.2.2.2⟩

/-- The stream is dropped over the cap while the send to the entry stage is suspended, the broadcast
of its abort raises, so the request stays owned as FAILED, and the send returns. -/
def revivedRun : List (Action Unit) :=
  [.submit cappedSubmission, audioChunk 2, .broadcastReturned false, .sendReturned 0]

/-- The request is RUNNING again, and its completion ends the completion loop with a `KeyError` on its
backlog. -/
theorem revived_stream_stops_loop : ∃ s s',
    (machine cappedConfig).exec .init revivedRun = some s ∧ s.requests.get? "r" = some 0 ∧
    (s.infos 0).state = .running ∧ step cappedConfig s finalCompletion = some s' ∧
    s'.loop = .crashed .missingBacklog := by
  have hobs : ((machine cappedConfig).exec .init revivedRun).map (fun s =>
      (s.requests.get? "r", (s.infos 0).state,
        (step cappedConfig s finalCompletion).map State.loop)) =
      some (some 0, .running, some (.crashed .missingBacklog)) := rfl
  obtain ⟨s, hs, hobs⟩ := Option.map_eq_some_iff.mp hobs
  simp only [Prod.mk.injEq, Option.map_eq_some_iff] at hobs
  obtain ⟨hreq, hstate, s', hs', hloop⟩ := hobs
  exact ⟨s, s', hs, hreq, hstate, hs', hloop⟩

/-! ### Admissions -/

/-- In every run the tables hold at most one admission of a request ID, a running abort task is registered and
never began before an admission that its ID now has, and a caller that waits can still be woken. -/
theorem tables_agree {allowed : State → Action ρ → Prop} (h : (machine cfg).Reaches allowed s) :
    (∀ r a b, Holds s r a → Holds s r b → a = b ∧ s.requestId a = r) ∧
    (∀ t, (s.tasks t).status = .running → s.abortTasks.get? (s.tasks t).requestId = some t) ∧
    (∀ r t a, s.abortTasks.get? r = some t → Holds s r a → a < (s.tasks t).began) ∧
    ∀ a, ((s.callers a).waits = true → s.completionFutures.get? (s.requestId a) = some a) ∧
      ((s.callers a).reads = true → s.streamQueues.get? (s.requestId a) = some a) := by
  obtain ⟨howned, htasks, hcallers⟩ := consistent_of_reaches h
  refine ⟨fun r a b ha hb => ⟨howned.agree r a b ha hb, howned.requestId r a ha⟩, htasks.running,
    fun r t a ht ha => (htasks.registered r t ht).2.2 a ha, fun a => ⟨fun hwaits => ?_, hcallers.reads a⟩⟩
  exact (hcallers.waits a hwaits).1

theorem tables_agree_stream : ∃ s,
    (machine cappedConfig).exec .init [.submit cappedSubmission, .sendReturned 0] = some s ∧
    Holds s "r" 0 ∧ ∀ b, Holds s "r" b → 0 = b := by
  have hobs : ((machine cappedConfig).exec .init [.submit cappedSubmission, .sendReturned 0]).map
      (fun s => s.requests.get? "r") = some (some 0) := by decide +kernel
  obtain ⟨s, hs, hholds⟩ := Option.map_eq_some_iff.mp hobs
  have hagree := tables_agree (Machine.path_of_exec hs)
  exact ⟨s, hs, .request hholds, fun b hb => (hagree.1 "r" 0 b (.request hholds) hb).1⟩

end Coordinator
