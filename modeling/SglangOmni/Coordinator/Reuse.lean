import SglangOmni.Coordinator.Consistent

/-! Reuse of a request ID.  An ID is free again once the tables let go of it, while coroutines that
began for an earlier request may still be suspended.  `later_admission_untouched` says that they leave
the later admission alone in every run in which no ID is admitted again while the completion loop is
still failing the earlier request; `broadcast_fails_later_admission` is a run that admits one. -/

namespace Coordinator

open Lib

variable {ρ : Type}

/-- The request IDs that the completion loop will look up again when it wakes: the one it broadcasts
an abort for with those of the streams it still has to fail, or the one whose abort failed. -/
def owed (s : State) : List RequestId :=
  match s.loop with
  | .broadcasting msg _ rest => msg.requestId :: rest.map Prod.fst
  | .awaitingAbort t msg _ => if (s.tasks t).status = .failed then [msg.requestId] else []
  | _ => []

/-- No submission is accepted for a request ID that the completion loop is still failing. -/
def noReuse (cfg : Config ρ) (s : State) : Action ρ → Prop
  | .submit sub => sub.requestId ∈ owed s → ∀ s', submitRequest cfg s sub ≠ .ok s'
  | _ => True

/-- The action runs a segment of `handle_completion`, `run_abort`, `release_submission` or a stream
reader that began when the admissions were those below `n`. -/
inductive Invocation (s : State) : Action ρ → Nat → Prop
  | completion (msg : CompleteMessage) (now : Nat) : Invocation s (.completion msg now) s.nextAdmission
  | loopAbortDone : Invocation s .loopAbortDone s.loopBegan
  | broadcastReturned (sent : Bool) : Invocation s (.broadcastReturned sent) s.loopBegan
  | abortSent (t : TaskId) : Invocation s (.abortSent t) (s.tasks t).began
  | caller (action : Action ρ) (a : Admission) (h : action.caller = some a) :
      Invocation s action (a + 1)

/-- What a suspended completion loop will touch was admitted before it took its event. -/
def LoopOwned (s : State) : Prop :=
  s.loopBegan ≤ s.nextAdmission ∧
  match s.loop with
  | .broadcasting msg _ rest =>
    (∀ m, Holds s msg.requestId m → m < s.loopBegan) ∧
    ∀ e ∈ rest, e.2 < s.loopBegan ∧ ∀ m, Holds s e.1 m → m < s.loopBegan
  | .awaitingAbort t msg a =>
    a < s.loopBegan ∧ t < s.nextTask ∧ (s.tasks t).requestId = msg.requestId ∧
    ((s.tasks t).status ≠ .succeeded → ∀ m, Holds s msg.requestId m → m < s.loopBegan)
  | _ => True

section Loop

variable {s s' : State} {cfg : Config ρ} {P : Admission → Prop}

theorem LoopOwned.of_effect (h : LoopOwned s) (he : Effect P s s') (hl : s'.loop = s.loop)
    (hb : s'.loopBegan = s.loopBegan) (hn : s.nextTask ≤ s'.nextTask)
    (ht : ∀ t, t < s.nextTask → (s'.tasks t).requestId = (s.tasks t).requestId ∧
      ((s'.tasks t).status ≠ .succeeded → (s.tasks t).status ≠ .succeeded)) : LoopOwned s' := by
  obtain ⟨hbegan, h⟩ := h
  refine ⟨by rw [hb, he.nextAdmission]; exact hbegan, ?_⟩
  rw [hl, hb]
  cases hloop : s.loop with
  | idle => trivial
  | crashed error => trivial
  | stopped => trivial
  | broadcasting msg a rest =>
    rw [hloop] at h
    exact ⟨fun m hm => h.1 m (he.holds _ m hm), fun e hmem =>
      ⟨(h.2 e hmem).1, fun m hm => (h.2 e hmem).2 m (he.holds _ m hm)⟩⟩
  | awaitingAbort t msg a =>
    rw [hloop] at h
    obtain ⟨ha, hlt, hid, hheld⟩ := h
    obtain ⟨hid', hstatus⟩ := ht t hlt
    exact ⟨ha, hlt.trans_le hn, hid'.trans hid,
      fun hne m hm => hheld (hstatus hne) m (he.holds _ m hm)⟩

theorem loopOwned_failStreams {rest : List (RequestId × Admission)}
    (hbegan : s.loopBegan ≤ s.nextAdmission)
    (hrest : ∀ e ∈ rest, e.2 < s.loopBegan ∧ ∀ m, Holds s e.1 m → m < s.loopBegan) :
    LoopOwned (failStreams cfg s rest) := by
  have he : Effect (· < s.loopBegan) s (failStreams cfg s rest) := effect_failStreams hrest
  have hb := (sameTasks_failStreams cfg s rest).loopBegan
  refine ⟨by rw [hb, he.nextAdmission]; exact hbegan, ?_⟩
  rcases failStreams_loop cfg s rest with h | ⟨r, q, rest', msg, a, hsuf, hid, _, h⟩
  · rw [h]
    trivial
  · rw [h, hb]
    have hlater : ∀ e ∈ (r, q) :: rest', e.2 < s.loopBegan ∧
        ∀ m, Holds (failStreams cfg s rest) e.1 m → m < s.loopBegan := fun e hmem =>
      ⟨(hrest e (hsuf.subset hmem)).1, fun m hm => (hrest e (hsuf.subset hmem)).2 m (he.holds _ m hm)⟩
    exact ⟨by rw [hid]; exact (hlater (r, q) (by simp)).2, fun e hmem => hlater e (by simp [hmem])⟩

theorem loopOwned_queueStreamMessage {r : RequestId} {msg : QueueMessage} {now : Nat}
    (ho : Owned s) (hbegan : s.loopBegan = s.nextAdmission) :
    LoopOwned (queueStreamMessage cfg s r msg now) := by
  have hbound : ∀ r m, Holds s r m → m < s.loopBegan := hbegan ▸ ho.bound
  have heffect := effect_queueStreamMessage cfg r msg now hbound
  have hsame := sameTasks_queueStreamMessage cfg s r msg now
  have hle : (queueStreamMessage cfg s r msg now).loopBegan ≤
      (queueStreamMessage cfg s r msg now).nextAdmission := by
    rw [hsame.loopBegan, heffect.nextAdmission]
    exact hbegan.le
  have hmove := queueStreamMessage_move cfg s r msg now
  generalize queueStreamMessage cfg s r msg now = s' at hle hmove ⊢
  cases hmove with
  | missingBacklog hb => exact ⟨hle, trivial⟩
  | missingQueue backlog hb hq => exact ⟨hle, trivial⟩
  | raised backlog q error s1 hb hq he => exact ⟨hle, trivial⟩
  | queued backlog q s1 streams hb hq he =>
    have hqueued : Effect (· < s.loopBegan) s (s.enqueue r backlog q msg now) :=
      effect_enqueue hb (hbound r q (.queue hq)) (hbound r)
    have hevict := effect_evict cfg.maxTotalBacklogBytes
      ((s.enqueue r backlog q msg now).streamBacklogs.size + 1)
      (fun r' m hm => hbound r' m (hqueued.holds r' m hm)) (List.forall_mem_nil _)
    have hevictSame := sameTasks_evict cfg.maxTotalBacklogBytes
      ((s.enqueue r backlog q msg now).streamBacklogs.size + 1) (s.enqueue r backlog q msg now) []
    rw [he] at hevict hevictSame
    have h1 := hqueued.trans hevict.1
    have hb1 : s1.loopBegan = s.loopBegan := ((sameTasks_enqueue hb).trans hevictSame).loopBegan
    refine loopOwned_failStreams (by rw [hb1, h1.nextAdmission]; exact hbegan.le) fun e hmem => ?_
    rw [hb1]
    exact ⟨hevict.2 e hmem, fun m hm => hbound e.1 m (h1.holds _ m hm)⟩

theorem loopOwned_deliverCompletion {msg : CompleteMessage} {now : Nat} (ho : Owned s)
    (hbegan : s.loopBegan = s.nextAdmission) (hloop : s.loop = .idle) :
    LoopOwned (deliverCompletion cfg s msg now) := by
  unfold deliverCompletion
  split
  · exact loopOwned_queueStreamMessage ho hbegan
  · exact ⟨hbegan.le, by rw [hloop]; trivial⟩

theorem loopOwned_handleCompletion {msg : CompleteMessage} {now : Nat} (h : Consistent s)
    (hbegan : s.loopBegan = s.nextAdmission) (hloop : s.loop = .idle) :
    LoopOwned (handleCompletion cfg s msg now) := by
  have hbound : ∀ r m, Holds s r m → m < s.loopBegan := hbegan ▸ h.owned.bound
  have hmove := handleCompletion_move cfg s msg now
  generalize handleCompletion cfg s msg now = s' at hmove ⊢
  cases hmove with
  | ignore => exact ⟨hbegan.le, by rw [hloop]; trivial⟩
  | abort t a ha _ ht =>
    have habort := leaveStep_abort (s := s) a msg.requestId
    have htasks := habort.tasksOwned h.owned h.tasks
    obtain ⟨hid, hlt, _⟩ := htasks.registered _ t (abort_some ht)
    refine ⟨?_, ?_, hlt, hid, fun _ m hm => ?_⟩
    · exact (habort.loopBegan.trans (hbegan.trans habort.effect.nextAdmission.symm)).le
    · exact (hbound _ a (.request ha)).trans_eq habort.loopBegan.symm
    · exact (hbound _ m (habort.effect.holds _ m (hm.of_tables rfl rfl rfl rfl))).trans_eq
        habort.loopBegan.symm
  | fail a ha _ =>
    refine ⟨hbegan.le, fun m hm => ?_, fun e hmem => by cases hmem⟩
    exact hbound _ m (hm.of_tables rfl rfl rfl rfl)
  | deliver a s1 ha hactive hsuccess hs1 =>
    rcases hs1 with ⟨value, rfl⟩ | ⟨expected, rfl⟩
    · have he := effect_completeRequest (P := fun _ => True) (s := s) (r := msg.requestId) (a := a) value
        trivial fun _ _ => trivial
      have hs := sameTasks_completeRequest s msg.requestId a value
      exact loopOwned_deliverCompletion (he.owned h.owned)
        (hs.loopBegan.trans (hbegan.trans he.nextAdmission.symm))
        ((completeRequest_loop _ _ _ _).trans hloop)
    · have he : Effect (fun _ => True) s (collectPartial s
          { msg with fromStage := cfg.logicalName msg.fromStage } a expected) :=
        effect_collectPartial expected trivial fun _ _ => trivial
      have hs := sameTasks_collectPartial s
        { msg with fromStage := cfg.logicalName msg.fromStage } a expected
      exact loopOwned_deliverCompletion (he.owned h.owned)
        (hs.loopBegan.trans (hbegan.trans he.nextAdmission.symm))
        ((collectPartial_loop _ _ _ _).trans hloop)

theorem effect_of_loopOwned {msg : CompleteMessage} {a : Admission}
    {rest : List (RequestId × Admission)} {sent : Bool} (h : LoopOwned s)
    (hloop : s.loop = .broadcasting msg a rest) :
    Effect (· < s.loopBegan) s (broadcastReturned cfg s msg rest sent) := by
  obtain ⟨_, h⟩ := h
  rw [hloop] at h
  exact effect_broadcastReturned h.1 h.2

theorem loopOwned_broadcastReturned {msg : CompleteMessage} {a : Admission}
    {rest : List (RequestId × Admission)} {sent : Bool} (h : LoopOwned s)
    (hloop : s.loop = .broadcasting msg a rest) :
    LoopOwned (broadcastReturned cfg s msg rest sent) := by
  obtain ⟨hbegan, h⟩ := h
  rw [hloop] at h
  have he := effect_failRequest sent h.1
  have hs := sameTasks_failRequest s msg sent
  refine loopOwned_failStreams (by rw [hs.loopBegan, he.nextAdmission]; exact hbegan) fun e hmem => ?_
  rw [hs.loopBegan]
  exact ⟨(h.2 e hmem).1, fun m hm => (h.2 e hmem).2 m (he.holds _ m hm)⟩

theorem loopOwned_trackRequest {sub : Submission ρ} {terminal : Finset StageName} (hc : Consistent s)
    (h : LoopOwned s) (hfree : requestIdIsReserved s sub.requestId = false)
    (howed : sub.requestId ∉ owed s) : LoopOwned (trackRequest s sub terminal) := by
  have hnew := not_holds_of_not_reserved hc.owned.backlogs hfree
  have hnotask : s.abortTasks.get? sub.requestId = none := by
    simp only [requestIdIsReserved, Bool.or_eq_false_iff, Dict.contains_eq_false] at hfree
    exact hfree.2
  obtain ⟨htasks, _, hnext, hloop, hb, _⟩ := trackRequest_frame s sub terminal
  obtain ⟨hbegan, h⟩ := h
  have hold {r : RequestId} (hne : sub.requestId ≠ r) (hr : ∀ m, Holds s r m → m < s.loopBegan) :
      ∀ m, Holds (trackRequest s sub terminal) r m → m < s.loopBegan := by
    intro m hm
    rcases holds_trackRequest hnew hm with ⟨rfl, _⟩ | ⟨_, hm⟩
    · exact absurd rfl hne
    · exact hr m hm
  refine ⟨by rw [hb, trackRequest_nextAdmission]; omega, ?_⟩
  rw [hloop, hb, htasks, hnext]
  unfold owed at howed
  cases hl : s.loop with
  | idle => trivial
  | crashed error => trivial
  | stopped => trivial
  | broadcasting msg a rest =>
    rw [hl] at h howed
    simp only [List.mem_cons, List.mem_map, not_or, not_exists, not_and] at howed
    exact ⟨hold howed.1 h.1, fun e hmem => ⟨(h.2 e hmem).1,
      hold (fun he => howed.2 e hmem he.symm) (h.2 e hmem).2⟩⟩
  | awaitingAbort t msg a =>
    rw [hl] at h howed
    obtain ⟨ha, hlt, hid, hheld⟩ := h
    refine ⟨ha, hlt, hid, fun hstatus => hold (fun he => ?_) (hheld hstatus)⟩
    cases hst : (s.tasks t).status with
    | running =>
      have hreg := hc.tasks.running t hst
      rw [hid, ← he, hnotask] at hreg
      cases hreg
    | succeeded => exact hstatus hst
    | failed => simp [hst, he] at howed

theorem LoopOwned.of_callerStep {a : Admission} (h : LoopOwned s) (hc : CallerStep a s s') :
    LoopOwned s' :=
  h.of_effect hc.effect hc.loop hc.loopBegan hc.nextTask fun t ht => by simp [hc.tasks t ht]

theorem LoopOwned.of_sameTasks (h : LoopOwned s) (he : Effect P s s') (hs : SameTasks s s')
    (hl : s'.loop = s.loop) : LoopOwned s' :=
  h.of_effect he hl hs.loopBegan hs.nextTask.ge fun t _ => by simp [hs.tasks]

theorem LoopOwned.endTask {t : TaskId} {status : AbortStatus} (h : LoopOwned s)
    (ht : (s.tasks t).status ≠ .succeeded) : LoopOwned (s.endTask t status) := by
  refine h.of_effect (P := fun _ => True) (.frame rfl) rfl rfl le_rfl fun u _ => ?_
  by_cases hu : u = t
  · subst hu
    exact ⟨by simp [State.endTask], fun _ => ht⟩
  · simp [State.endTask, hu]

theorem LoopOwned.onAbortTaskDone (h : LoopOwned s) (t : TaskId) :
    LoopOwned (onAbortTaskDone s t) := by
  unfold Coordinator.onAbortTaskDone
  dsimp only
  split
  · exact h.of_effect (P := fun _ => True) (.frame rfl) rfl rfl le_rfl fun u _ => by simp
  · exact h

theorem loopOwned_step {action : Action ρ} (hc : Consistent s) (h : LoopOwned s)
    (hallowed : noReuse cfg s action) (hs : step cfg s action = some s') : LoopOwned s' := by
  cases hcaller : action.caller with
  | some a => exact h.of_callerStep ((callerMove_of_step hcaller hs).callerStep hc)
  | none =>
    cases action <;> simp only [Action.caller, reduceCtorEq] at hcaller
    all_goals simp only [step, Option.some.injEq] at hs
    case submit sub =>
      split at hs
      · next heq =>
        obtain ⟨hfree, terminal, rfl⟩ := submitRequest_ok heq
        exact Option.some.inj hs ▸
          loopOwned_trackRequest hc h hfree fun howed => hallowed howed _ heq
      · exact Option.some.inj hs ▸ h
    case abort r => exact hs ▸ h.of_callerStep (leaveStep_abort 0 r).toCallerStep
    case abortSent t =>
      split at hs
      · next hrun =>
        have hended := h.of_sameTasks (P := fun _ => True)
          (effect_endAborted (r := (s.tasks t).requestId) fun _ _ => trivial)
          (sameTasks_endAborted s _) (endAborted_loop s _)
        refine Option.some.inj hs ▸ hended.endTask ?_
        rw [(sameTasks_endAborted s _).tasks, hrun]
        simp
      · cases hs
    case abortFailed t =>
      split at hs
      · next hrun => exact Option.some.inj hs ▸ h.endTask (by simp [hrun])
      · cases hs
    case abortTaskDone t =>
      split at hs
      · cases hs
      · exact Option.some.inj hs ▸ h.onAbortTaskDone t
    case completion msg now =>
      split at hs
      · next hidle =>
        exact Option.some.inj hs ▸ loopOwned_handleCompletion (hc.setBegan _) rfl hidle
      · cases hs
    case streamChunk msg now =>
      split at hs
      · next hidle =>
        rw [← Option.some.inj hs]
        unfold handleStream
        split
        · exact loopOwned_queueStreamMessage (hc.setBegan s.nextAdmission).owned rfl
        · exact ⟨le_rfl, by simp [hidle]⟩
      · cases hs
    case loopAbortDone =>
      split at hs
      · next t msg a hloop =>
        obtain ⟨hbegan, h⟩ := h
        rw [hloop] at h
        split at hs
        · cases hs
        · rw [← Option.some.inj hs]
          exact ⟨hbegan, trivial⟩
        · next hstatus =>
          rw [← Option.some.inj hs]
          refine ⟨hbegan, fun m hm => ?_, fun e hmem => by cases hmem⟩
          exact h.2.2.2 (by simp [hstatus]) m (hm.of_tables rfl rfl rfl rfl)
      · cases hs
    case broadcastReturned sent =>
      split at hs
      · next hloop => exact Option.some.inj hs ▸ loopOwned_broadcastReturned h hloop
      · cases hs
    case cancelLoop =>
      rw [← hs]
      exact ⟨h.1, trivial⟩
    case failPendingRequests message =>
      exact hs ▸ h.of_sameTasks (P := fun _ => True)
        (effect_failPendingRequests fun _ _ _ => trivial) (sameTasks_failPendingRequests s message)
        (failPendingRequests_loop s message)

theorem loopOwned_of_reaches (h : (machine cfg).Reaches (noReuse cfg) s) : LoopOwned s := by
  have hinit : Consistent .init ∧ LoopOwned .init := ⟨consistent_init, le_rfl, trivial⟩
  have hboth := h.invariant (P := fun s => Consistent s ∧ LoopOwned s) hinit
    fun s action s' hs hallowed hstep =>
      ⟨consistent_step hs.1 hstep, loopOwned_step hs.1 hs.2 hallowed hstep⟩
  exact hboth.2

end Loop

/-- In every run in which no request ID is admitted again while the completion loop is still failing
it, an invocation of `handle_completion`, `run_abort`, `release_submission` or a stream reader leaves
the objects of every admission made after it began as they are. -/
theorem later_admission_untouched {cfg : Config ρ} {s s' : State} {action : Action ρ} {n : Nat}
    {m : Admission} (hrun : (machine cfg).Reaches (noReuse cfg) s) (hinv : Invocation s action n)
    (hstep : step cfg s action = some s') (hm : n ≤ m) : Untouched m s s' := by
  have hc := consistent_of_reaches hrun
  have hl := loopOwned_of_reaches hrun
  cases hinv with
  | completion msg now =>
    simp only [step] at hstep
    split at hstep
    · have he : Effect (· < s.nextAdmission) { s with loopBegan := s.nextAdmission }
          (handleCompletion cfg { s with loopBegan := s.nextAdmission } msg now) :=
        effect_handleCompletion cfg msg now fun r m hm => hc.owned.bound r m (hm.of_tables rfl rfl rfl rfl)
      have hbegan : Effect (· < s.nextAdmission) s { s with loopBegan := s.nextAdmission } := .frame rfl
      exact Option.some.inj hstep ▸ (hbegan.trans he).untouched m hm.not_gt
    · cases hstep
  | loopAbortDone =>
    simp only [step] at hstep
    split at hstep
    · next t msg a hloop =>
      split at hstep
      · cases hstep
      · have he : Effect (fun _ => False) s { s with loop := .idle } := .frame rfl
        exact Option.some.inj hstep ▸ he.untouched m not_false
      · have ha := hl.2
        rw [hloop] at ha
        exact Option.some.inj hstep ▸
          (effect_failBroadcast (P := (· < s.loopBegan)) ha.1).untouched m hm.not_gt
    · cases hstep
  | broadcastReturned sent =>
    simp only [step] at hstep
    split at hstep
    · next hloop => exact Option.some.inj hstep ▸ (effect_of_loopOwned hl hloop).untouched m hm.not_gt
    · cases hstep
  | abortSent t =>
    simp only [step] at hstep
    split at hstep
    · next hrunning =>
      obtain ⟨_, _, hbegan⟩ := hc.tasks.registered _ t (hc.tasks.running t hrunning)
      exact Option.some.inj hstep ▸
        (effect_runAbort (P := (· < (s.tasks t).began)) hbegan).untouched m hm.not_gt
    · cases hstep
  | caller action a hcaller =>
    exact ((callerMove_of_step hcaller hstep).callerStep hc).effect.untouched m (Nat.lt_of_succ_le hm).ne'

/-! ### Runs -/

def reuseConfig : Config Unit where
  terminalStages := {"out"}
  terminalStagesResolver := none
  logicalName := id
  stages := ["entry"]
  maxInFlight := none
  maxTotalBacklogBytes := none

def reuseSubmission (kind : CallerKind) : Submission Unit :=
  { requestId := "r", kind, request := (), entry := "entry", now := 0 }

def avoidsReuse (s : State) : Action ρ → Bool
  | .submit sub => !(owed s).contains sub.requestId
  | _ => true

theorem noReuse_of_avoidsReuse (cfg : Config ρ) (s : State) (action : Action ρ)
    (h : avoidsReuse s action = true) : noReuse cfg s action := by
  cases action with
  | submit sub =>
    intro howed
    simp [avoidsReuse, howed] at h
  | _ => trivial

/-- A request dropped by an admin action: the loop awaits its abort, which succeeds and is released,
and the ID is admitted again before the loop wakes. -/
def droppedRun : List (Action Unit) :=
  [.submit (reuseSubmission .plain), .sendReturned 0,
    .completion { requestId := "r", fromStage := "out", success := false,
                  error := some adminDroppedMessage } 0,
    .abortSent 0, .abortTaskDone 0, .futureDone 0, .submit (reuseSubmission .plain)]

/-- The loop wakes in `handle_completion` for the first admission and leaves the second alone. -/
theorem dropped_leaves_later_admission : ∃ s s',
    (machine reuseConfig).execWhere avoidsReuse .init droppedRun = some s ∧
    s.requests.get? "r" = some 1 ∧ step reuseConfig s .loopAbortDone = some s' ∧
    Untouched 1 s s' := by
  have hobs : ((machine reuseConfig).execWhere avoidsReuse .init droppedRun).map
      (fun s => (s.requests.get? "r", s.loopBegan, (step reuseConfig s .loopAbortDone).isSome)) =
      some (some 1, 1, true) := by decide +kernel
  obtain ⟨s, hs, hobs⟩ := Option.map_eq_some_iff.mp hobs
  simp only [Prod.mk.injEq] at hobs
  obtain ⟨s', hs'⟩ := Option.isSome_iff_exists.mp hobs.2.2
  refine ⟨s, s', hs, hobs.1, hs', ?_⟩
  exact later_admission_untouched
    (Machine.path_of_execWhere (noReuse_of_avoidsReuse reuseConfig) hs) .loopAbortDone hs'
    hobs.2.1.le

/-- A stream fails, its reader leaves while the loop broadcasts the abort, and the ID is admitted
again. -/
def reusedRun : List (Action Unit) :=
  [.submit (reuseSubmission .stream), .sendReturned 0,
    .completion { requestId := "r", fromStage := "out", success := false, error := some "failed" } 0,
    .closeStream 0, .abortSent 0, .abortTaskDone 0, .finishLeave 0,
    .submit (reuseSubmission .stream)]

/-- The broadcast for the first admission returns, and `handle_completion` removes the second one,
cancels its future and puts the failure on its stream queue. -/
theorem broadcast_fails_later_admission : ∃ s s',
    (machine reuseConfig).exec .init reusedRun = some s ∧
    Invocation s (.broadcastReturned true : Action Unit) 1 ∧
    step reuseConfig s (.broadcastReturned true) = some s' ∧
    s.requests.get? "r" = some 1 ∧ s'.requests.get? "r" = none ∧
    s.futures 1 = .pending ∧ s'.futures 1 = .cancelled ∧
    s.queues 1 = [] ∧ (s'.queues 1).length = 1 ∧ ¬Untouched 1 s s' := by
  have hobs : ((machine reuseConfig).exec .init reusedRun).map
      (fun s => (s.loopBegan, s.requests.get? "r", s.futures 1, s.queues 1,
        (step reuseConfig s (.broadcastReturned true)).map fun s' =>
          (s'.requests.get? "r", s'.futures 1, (s'.queues 1).length))) =
      some (1, some 1, .pending, [], some (none, .cancelled, 1)) := rfl
  obtain ⟨s, hs, hobs⟩ := Option.map_eq_some_iff.mp hobs
  simp only [Prod.mk.injEq, Option.map_eq_some_iff] at hobs
  obtain ⟨hbegan, hreq, hfut, hqueue, s', hs', hreq', hfut', hqueue'⟩ := hobs
  refine ⟨s, s', hs, hbegan ▸ .broadcastReturned true, hs', hreq, hreq', hfut, hfut', hqueue,
    hqueue', fun hun => ?_⟩
  have hkept := hun.requests "r" hreq
  rw [hreq'] at hkept
  cases hkept

end Coordinator
