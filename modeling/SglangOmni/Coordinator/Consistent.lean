import SglangOmni.Coordinator.Invariant

/-! Every step of the coordinator keeps the invariant `Consistent`, so it holds in every state that
a run reaches.  `CallerMove` lists what the caller of an admission can do next. -/

namespace Coordinator

open Lib

variable {ρ : Type}

section Step

variable {P : Admission → Prop} {s s' : State} {cfg : Config ρ} {a : Admission}

theorem Caller.Gone.waits {returned : Bool} {caller : Caller} (h : caller.Gone returned) :
    caller.waits = false := by
  rcases h with rfl | rfl | ⟨kind, rfl, _⟩ <;> rfl

theorem Caller.Gone.reads {returned : Bool} {caller : Caller} (h : caller.Gone returned) :
    caller.reads = false := by
  rcases h with rfl | rfl | ⟨kind, rfl, _⟩ <;> rfl

theorem not_holds_of_not_reserved {r : RequestId} (hb : BacklogsOwned s)
    (h : requestIdIsReserved s r = false) : ∀ m, ¬Holds s r m := by
  simp only [requestIdIsReserved, Bool.or_eq_false_iff, Dict.contains_eq_false] at h
  obtain ⟨⟨⟨hreq, hfut⟩, hqueue⟩, _⟩ := h
  intro m hm
  cases hm with
  | request h => simp [hreq] at h
  | future h => simp [hfut] at h
  | queue h => simp [hqueue] at h
  | backlog b h _ =>
    have hown := (hb r b h).1
    simp [hqueue] at hown

section Admit

variable (s : State) (sub : Submission ρ) (terminal : Finset StageName)

theorem trackRequest_requests :
    (trackRequest s sub terminal).requests = s.requests.set sub.requestId s.nextAdmission := by
  unfold trackRequest
  cases sub.kind <;> rfl

theorem trackRequest_completionFutures : (trackRequest s sub terminal).completionFutures =
    s.completionFutures.set sub.requestId s.nextAdmission := by
  unfold trackRequest
  cases sub.kind <;> rfl

theorem trackRequest_streamQueues (r : RequestId) : (trackRequest s sub terminal).streamQueues.get? r =
    if r = sub.requestId ∧ sub.kind = .stream then some s.nextAdmission
    else s.streamQueues.get? r := by
  unfold trackRequest
  cases sub.kind <;> simp [Dict.get?_set]

theorem trackRequest_streamBacklogs (r : RequestId) : (trackRequest s sub terminal).streamBacklogs.get? r =
    if r = sub.requestId ∧ sub.kind = .stream then some ⟨s.nextAdmission, 0, sub.now⟩
    else s.streamBacklogs.get? r := by
  unfold trackRequest
  cases sub.kind <;> simp [Dict.get?_set]

theorem trackRequest_infos : (trackRequest s sub terminal).infos = Function.update s.infos s.nextAdmission
    ⟨sub.requestId, .pending, terminal, !sub.shouldBypassAdmission, none, none⟩ := by
  unfold trackRequest
  cases sub.kind <;> rfl

theorem trackRequest_callers : (trackRequest s sub terminal).callers =
    Function.update s.callers s.nextAdmission (.submitting sub.kind) := by
  unfold trackRequest
  cases sub.kind <;> rfl

theorem trackRequest_nextAdmission : (trackRequest s sub terminal).nextAdmission = s.nextAdmission + 1 := by
  unfold trackRequest
  cases sub.kind <;> rfl

theorem trackRequest_requestId (m : Admission) : (trackRequest s sub terminal).requestId m =
    if m = s.nextAdmission then sub.requestId else s.requestId m := by
  unfold State.requestId
  rw [trackRequest_infos]
  by_cases h : m = s.nextAdmission
  · simp [h]
  · simp [h]

theorem trackRequest_frame : (trackRequest s sub terminal).tasks = s.tasks ∧
    (trackRequest s sub terminal).abortTasks = s.abortTasks ∧
    (trackRequest s sub terminal).nextTask = s.nextTask ∧ (trackRequest s sub terminal).loop = s.loop ∧
    (trackRequest s sub terminal).loopBegan = s.loopBegan ∧ (trackRequest s sub terminal).yields = s.yields ∧
    (trackRequest s sub terminal).streamBacklogBytes = s.streamBacklogBytes := by
  unfold trackRequest
  cases sub.kind <;> exact ⟨rfl, rfl, rfl, rfl, rfl, rfl, rfl⟩

end Admit

theorem holds_trackRequest {sub : Submission ρ} {terminal : Finset StageName} {r : RequestId}
    {m : Admission} (hnew : ∀ m, ¬Holds s sub.requestId m) (h : Holds (trackRequest s sub terminal) r m) :
    r = sub.requestId ∧ m = s.nextAdmission ∨ r ≠ sub.requestId ∧ Holds s r m := by
  by_cases hr : r = sub.requestId
  · subst hr
    refine .inl ⟨rfl, ?_⟩
    cases h with
    | request h => simpa [trackRequest_requests, eq_comm] using h
    | future h => simpa [trackRequest_completionFutures, eq_comm] using h
    | queue h =>
      rw [trackRequest_streamQueues] at h
      split at h
      · exact (Option.some.inj h).symm
      · exact absurd (.queue h) (hnew m)
    | backlog b h ho =>
      rw [trackRequest_streamBacklogs] at h
      split at h
      · rw [← ho, ← Option.some.inj h]
      · exact absurd (.backlog b h ho) (hnew m)
  · refine .inr ⟨hr, ?_⟩
    cases h with
    | request h => exact .request (by simpa [trackRequest_requests, Dict.get?_set, hr] using h)
    | future h => exact .future (by simpa [trackRequest_completionFutures, Dict.get?_set, hr] using h)
    | queue h => exact .queue (by simpa [trackRequest_streamQueues, hr] using h)
    | backlog b h ho => exact .backlog b (by simpa [trackRequest_streamBacklogs, hr] using h) ho

section AdmitInvariant

variable {sub : Submission ρ} {terminal : Finset StageName} (hnew : ∀ m, ¬Holds s sub.requestId m)
include hnew

theorem Owned.trackRequest (h : Owned s) : Owned (trackRequest s sub terminal) := by
  constructor
  · intro r a b ha hb
    rcases holds_trackRequest hnew ha with ⟨rfl, rfl⟩ | ⟨hr, ha⟩
    · rcases holds_trackRequest hnew hb with ⟨_, rfl⟩ | ⟨hr, _⟩
      · rfl
      · exact absurd rfl hr
    · rcases holds_trackRequest hnew hb with ⟨he, _⟩ | ⟨_, hb⟩
      · exact absurd he hr
      · exact h.agree r a b ha hb
  · intro r a ha
    rw [trackRequest_nextAdmission]
    rcases holds_trackRequest hnew ha with ⟨_, rfl⟩ | ⟨_, ha⟩
    · exact Nat.lt_succ_self _
    · exact (h.bound r a ha).trans (Nat.lt_succ_self _)
  · intro r a ha
    rcases holds_trackRequest hnew ha with ⟨rfl, rfl⟩ | ⟨_, ha⟩
    · rw [trackRequest_requestId, if_pos rfl]
    · rw [trackRequest_requestId, if_neg (h.bound r a ha).ne]
      exact h.requestId r a ha
  · intro r b hb
    rw [trackRequest_streamBacklogs] at hb
    rw [trackRequest_streamQueues, trackRequest_completionFutures]
    split at hb
    · next he =>
      rw [if_pos he, he.1, ← Option.some.inj hb]
      simp
    · next he =>
      obtain ⟨hq, hf⟩ := h.backlogs r b hb
      have hne : r ≠ sub.requestId := by
        rintro rfl
        exact hnew _ (.queue hq)
      rw [if_neg he, Dict.get?_set, if_neg hne]
      exact ⟨hq, hf⟩

theorem TasksOwned.trackRequest (h : TasksOwned s) (hnotask : s.abortTasks.get? sub.requestId = none) :
    TasksOwned (trackRequest s sub terminal) := by
  obtain ⟨htasks, habort, hnext, _⟩ := trackRequest_frame s sub terminal
  constructor
  · rw [htasks, habort]
    exact h.running
  · intro r t ht
    rw [habort] at ht
    rw [htasks, hnext]
    obtain ⟨h1, h2, h3⟩ := h.registered r t ht
    refine ⟨h1, h2, fun a ha => ?_⟩
    rcases holds_trackRequest hnew ha with ⟨rfl, _⟩ | ⟨_, ha⟩
    · simp [hnotask] at ht
    · exact h3 a ha

theorem CallersOwned.trackRequest (h : CallersOwned s) : CallersOwned (trackRequest s sub terminal) := by
  constructor
  · intro a ha
    rw [trackRequest_requestId, trackRequest_streamQueues, trackRequest_completionFutures]
    rw [trackRequest_callers] at ha
    by_cases he : a = s.nextAdmission
    · subst he
      rw [Function.update_self] at ha
      rw [if_pos rfl, Dict.get?_set_self]
      refine ⟨rfl, ?_⟩
      cases hk : sub.kind with
      | plain =>
        rw [if_neg (by simp), Option.eq_none_iff_forall_ne_some]
        exact fun m hm => hnew m (.queue hm)
      | stream => simp [hk, Caller.waits] at ha
    · rw [Function.update_of_ne he] at ha
      obtain ⟨hf, hq⟩ := h.waits a ha
      have hne : s.requestId a ≠ sub.requestId := fun hid => hnew a (hid ▸ .future hf)
      rw [if_neg he, Dict.get?_set, if_neg hne, if_neg (fun hc => hne hc.1)]
      exact ⟨hf, hq⟩
  · intro a ha
    rw [trackRequest_requestId, trackRequest_streamQueues]
    rw [trackRequest_callers] at ha
    by_cases he : a = s.nextAdmission
    · subst he
      rw [Function.update_self] at ha
      cases hk : sub.kind with
      | plain => simp [hk, Caller.reads] at ha
      | stream => simp
    · rw [Function.update_of_ne he] at ha
      have hq := h.reads a ha
      have hne : s.requestId a ≠ sub.requestId := fun hid => hnew a (hid ▸ .queue hq)
      rw [if_neg he, if_neg (fun hc => hne hc.1)]
      exact hq

end AdmitInvariant

theorem Consistent.trackRequest (h : Consistent s) {sub : Submission ρ} {terminal : Finset StageName}
    (hfree : requestIdIsReserved s sub.requestId = false) :
    Consistent (trackRequest s sub terminal) := by
  have hnew := not_holds_of_not_reserved h.owned.backlogs hfree
  simp only [requestIdIsReserved, Bool.or_eq_false_iff, Dict.contains_eq_false] at hfree
  exact ⟨h.owned.trackRequest hnew, h.tasks.trackRequest hnew hfree.2, h.callers.trackRequest hnew⟩

theorem submitRequest_ok {sub : Submission ρ} (h : submitRequest cfg s sub = .ok s') :
    requestIdIsReserved s sub.requestId = false ∧ ∃ terminal, s' = Coordinator.trackRequest s sub terminal := by
  unfold submitRequest at h
  split at h
  · cases h
  · split at h
    · cases h
    · next hfree =>
      refine ⟨by simpa using hfree, ?_⟩
      split at h
      · cases h
      · split at h
        · cases h
        · split at h
          · exact ⟨_, (Except.ok.inj h).symm⟩
          · split at h
            · cases h
            · exact ⟨_, (Except.ok.inj h).symm⟩

theorem Consistent.of_sameTasks (h : Consistent s) (he : Effect P s s') (hs : SameTasks s s') :
    Consistent s' where
  owned := he.owned h.owned
  tasks := h.tasks.of_effect he hs.tasks hs.abortTasks hs.nextTask
  callers := by
    constructor
    · intro a ha
      rw [hs.callers] at ha
      obtain ⟨hf, hq⟩ := h.callers.waits a ha
      have hnone : s.streamBacklogs.get? (s.requestId a) = none := by
        rw [Option.eq_none_iff_forall_ne_some]
        intro b hb
        have hown := (h.owned.backlogs _ b hb).1
        simp [hq] at hown
      rw [he.requestId, hs.streamQueues, (hs.futures _ hnone).2]
      exact ⟨hf, hq⟩
    · intro a ha
      rw [hs.callers] at ha
      rw [he.requestId, hs.streamQueues]
      exact h.callers.reads a ha

theorem Consistent.of_callerStep (h : Consistent s) (hc : CallerStep a s s')
    (hw : (s'.callers a).waits = true → (s.callers a).waits = true ∧
      s'.completionFutures = s.completionFutures ∧ s'.streamQueues = s.streamQueues)
    (hr : (s'.callers a).reads = true → (s.callers a).reads = true ∧
      s'.streamQueues = s.streamQueues) : Consistent s' where
  owned := hc.effect.owned h.owned
  tasks := hc.tasksOwned h.owned h.tasks
  callers := by
    constructor
    · intro b hb
      rw [hc.effect.requestId]
      by_cases hba : b = a
      · subst hba
        obtain ⟨hw', hf, hq⟩ := hw hb
        rw [hf, hq]
        exact h.callers.waits b hw'
      · rw [hc.callers b hba] at hb
        obtain ⟨hf, hq⟩ := h.callers.waits b hb
        refine ⟨(hc.effect.untouched b hba).completionFutures _ hf, ?_⟩
        rw [Option.eq_none_iff_forall_ne_some]
        intro m hm
        simp [hc.effect.streamQueues _ m hm] at hq
    · intro b hb
      rw [hc.effect.requestId]
      by_cases hba : b = a
      · subst hba
        obtain ⟨hr', hq⟩ := hr hb
        rw [hq]
        exact h.callers.reads b hr'
      · rw [hc.callers b hba] at hb
        exact (hc.effect.untouched b hba).streamQueues _ (h.callers.reads b hb)

theorem Consistent.of_gone (h : Consistent s) (hc : CallerStep a s s') {returned : Bool}
    (hg : (s'.callers a).Gone returned) : Consistent s' :=
  h.of_callerStep hc (fun hw => by simp [hg.waits] at hw) (fun hr => by simp [hg.reads] at hr)

theorem Consistent.holds_of_submitting (h : Consistent s) {kind : CallerKind}
    (hc : s.callers a = .submitting kind) : Holds s (s.requestId a) a := by
  cases kind with
  | plain => exact .future (h.callers.waits a (by rw [hc]; rfl)).1
  | stream => exact .queue (h.callers.reads a (by rw [hc]; rfl))

def Action.caller : Action ρ → Option Admission
  | .sendReturned a | .sendFailed a | .sendCancelled a | .futureDone a | .stopWaiting a
  | .takeMessage a _ | .resumeStream a | .closeStream a | .finishRelease a | .finishLeave a => some a
  | _ => none

inductive CallerMove (cfg : Config ρ) (s : State) (a : Admission) : Action ρ → State → Prop
  | sendReturned (kind : CallerKind) (h : s.callers a = .submitting kind) :
      CallerMove cfg s a (.sendReturned a) (sendReturned cfg s a kind)
  | sendFailed (kind : CallerKind) (h : s.callers a = .submitting kind) :
      CallerMove cfg s a (.sendFailed a) (sendFailed s a kind)
  | release (action : Action ρ) (kind : CallerKind)
      (h : s.callers a = .submitting kind ∨ s.callers a = .awaiting) :
      CallerMove cfg s a action (releaseSubmission s a kind)
  | take (expected completed : Finset StageName) (msg : QueueMessage) (rest : List QueueMessage)
      (now : Nat) (h : s.callers a = .reading expected completed) (hq : s.queues a = msg :: rest) :
      CallerMove cfg s a (.takeMessage a now) (takeMessage s a expected completed msg rest now)
  | resume (expected completed : Finset StageName) (msg : QueueMessage)
      (h : s.callers a = .yielded expected completed msg) :
      CallerMove cfg s a (.resumeStream a) (resumeStream cfg s a expected completed msg)
  | close (h : (s.callers a).reads = true) :
      CallerMove cfg s a (.closeStream a) (leaveStream s a false)
  | finishRelease (kind : CallerKind) (h : s.callers a = .releasing kind) :
      CallerMove cfg s a (.finishRelease a) (finishRelease s a kind)
  | finishLeave (returned : Bool) (h : s.callers a = .leaving returned) :
      CallerMove cfg s a (.finishLeave a) (finishLeave s a returned)

theorem callerMove_of_step {action : Action ρ} (hc : action.caller = some a)
    (hs : step cfg s action = some s') : CallerMove cfg s a action s' := by
  cases action <;> simp only [Action.caller, Option.some.injEq, reduceCtorEq] at hc
  all_goals
    subst hc
    simp only [step] at hs
  case sendReturned b =>
    split at hs
    · next kind h => exact Option.some.inj hs ▸ .sendReturned kind h
    · cases hs
  case sendFailed b =>
    split at hs
    · next kind h => exact Option.some.inj hs ▸ .sendFailed kind h
    · cases hs
  case sendCancelled b =>
    split at hs
    · next kind h => exact Option.some.inj hs ▸ .release _ kind (.inl h)
    · cases hs
  case futureDone b =>
    split at hs
    · next h =>
      split at hs
      · cases hs
      · exact Option.some.inj hs ▸ .release _ .plain (.inr h)
    · cases hs
  case stopWaiting b =>
    split at hs
    · next h => exact Option.some.inj hs ▸ .release _ .plain (.inr h)
    · cases hs
  case takeMessage b now =>
    split at hs
    · next expected completed msg rest h hq =>
      exact Option.some.inj hs ▸ .take expected completed msg rest now h hq
    · cases hs
  case resumeStream b =>
    split at hs
    · next expected completed msg h => exact Option.some.inj hs ▸ .resume expected completed msg h
    · cases hs
  case closeStream b =>
    split at hs
    · next h => exact Option.some.inj hs ▸ .close (by rw [h]; rfl)
    · next h => exact Option.some.inj hs ▸ .close (by rw [h]; rfl)
    · cases hs
  case finishRelease b =>
    split at hs
    · next kind h => exact Option.some.inj hs ▸ .finishRelease kind h
    · cases hs
  case finishLeave b =>
    split at hs
    · next returned h => exact Option.some.inj hs ▸ .finishLeave returned h
    · cases hs

theorem CallerMove.callerStep {action : Action ρ} (hm : CallerMove cfg s a action s')
    (h : Consistent s) : CallerStep a s s' := by
  have hag := h.owned.agree
  cases hm with
  | sendReturned kind hc => exact callerStep_sendReturned cfg kind hag (h.holds_of_submitting hc)
  | sendFailed kind hc => exact (leaveStep_sendFailed hag (h.holds_of_submitting hc)).toCallerStep
  | release _ kind hc => exact (leaveStep_releaseSubmission hag).toCallerStep
  | take expected completed msg rest now hc hq =>
    exact callerStep_takeMessage expected completed msg rest now hag (.queue (h.callers.reads a (by rw [hc]; rfl)))
  | resume expected completed msg hc => exact callerStep_resumeStream hag
  | close hc => exact (leaveStep_leaveStream hag).toCallerStep
  | finishRelease kind hc => exact (leaveStep_finishRelease hag).toCallerStep
  | finishLeave returned hc => exact (leaveStep_finishLeave hag).toCallerStep

theorem consistent_sendReturned (h : Consistent s) {kind : CallerKind}
    (hc : s.callers a = .submitting kind) : Consistent (sendReturned cfg s a kind) := by
  have hstep := callerStep_sendReturned cfg kind h.owned.agree (h.holds_of_submitting hc)
  have htables : (sendReturned cfg s a kind).completionFutures = s.completionFutures ∧
      (sendReturned cfg s a kind).streamQueues = s.streamQueues := by
    unfold sendReturned
    dsimp only
    cases kind <;> cases s.requests.get? (s.requestId a) <;> exact ⟨rfl, rfl⟩
  refine h.of_callerStep hstep (fun hw => ⟨?_, htables⟩) (fun hr => ⟨?_, htables.2⟩)
  · cases kind with
    | plain => rw [hc]; rfl
    | stream => simp [sendReturned, Caller.waits] at hw
  · cases kind with
    | plain => simp [sendReturned, Caller.reads] at hr
    | stream => rw [hc]; rfl

theorem consistent_takeMessage (h : Consistent s) {expected completed : Finset StageName}
    {msg : QueueMessage} {rest : List QueueMessage} {now : Nat}
    (hc : s.callers a = .reading expected completed) :
    Consistent (takeMessage s a expected completed msg rest now) := by
  have hreads : (s.callers a).reads = true := by rw [hc]; rfl
  have hstep := callerStep_takeMessage expected completed msg rest now h.owned.agree
    (.queue (h.callers.reads a hreads))
  unfold takeMessage at hstep ⊢
  dsimp only at hstep ⊢
  split at hstep
  · next hf => exact if_pos hf ▸ h.of_gone hstep (gone_leaveStream _ a false)
  · next hf =>
    rw [if_neg hf]
    split at hstep
    · exact h.of_gone hstep (gone_leaveStream _ a false)
    · refine h.of_callerStep hstep (fun hw => ?_) (fun _ => ⟨hreads, rfl⟩)
      simp [Caller.waits] at hw

theorem consistent_resumeStream (h : Consistent s) {expected completed : Finset StageName}
    {msg : QueueMessage} (hc : s.callers a = .yielded expected completed msg) :
    Consistent (resumeStream cfg s a expected completed msg) := by
  have hreads : (s.callers a).reads = true := by rw [hc]; rfl
  have hread (e c : Finset StageName) : Consistent (s.setCaller a (.reading e c)) := by
    refine h.of_callerStep callerStep_setCaller (fun hw => ?_) (fun _ => ⟨hreads, rfl⟩)
    simp [Caller.waits] at hw
  cases msg with
  | complete msg =>
    simp only [resumeStream]
    split
    · exact h.of_gone (leaveStep_leaveStream h.owned.agree).toCallerStep (gone_leaveStream s a true)
    · exact hread _ _
  | stream msg => exact hread _ _

theorem CallerMove.consistent {action : Action ρ} (hm : CallerMove cfg s a action s')
    (h : Consistent s) : Consistent s' := by
  have hstep := hm.callerStep h
  cases hm with
  | sendReturned kind hc => exact consistent_sendReturned h hc
  | sendFailed kind hc => exact h.of_gone hstep (gone_releaseSubmission _ a kind)
  | release _ kind hc => exact h.of_gone hstep (gone_releaseSubmission s a kind)
  | take expected completed msg rest now hc hq => exact consistent_takeMessage h hc
  | resume expected completed msg hc => exact consistent_resumeStream h hc
  | close hc => exact h.of_gone hstep (gone_leaveStream s a false)
  | finishRelease kind hc => exact h.of_gone hstep (gone_finishRelease s a kind)
  | finishLeave returned hc => exact h.of_gone hstep (gone_finishLeave s a returned)

theorem Consistent.abort (h : Consistent s) (r : RequestId) : Consistent (abort s r).1 := by
  rcases abort_cases s r with ⟨t, _, he⟩ | he | ⟨hnone, he⟩
  · rw [he]
    exact h
  · rw [he]
    exact h
  · rw [he]
    exact ⟨h.owned.of_objects rfl, h.tasks.addAbortTask h.owned hnone,
      h.callers.waits, h.callers.reads⟩

theorem Consistent.endTask (h : Consistent s) {t : TaskId} {status : AbortStatus}
    (hstatus : status ≠ .running) : Consistent (s.endTask t status) :=
  ⟨h.owned.of_objects rfl, h.tasks.endTask hstatus, h.callers.waits,
    h.callers.reads⟩

theorem Consistent.onAbortTaskDone (h : Consistent s) {t : TaskId}
    (ht : (s.tasks t).status ≠ .running) : Consistent (onAbortTaskDone s t) := by
  have htasks := h.tasks.onAbortTaskDone ht
  by_cases hreg : s.abortTasks.get? (s.tasks t).requestId = some t
  · simp only [Coordinator.onAbortTaskDone, if_pos hreg] at htasks ⊢
    exact ⟨h.owned.of_objects rfl, htasks, h.callers.waits,
      h.callers.reads⟩
  · simpa only [Coordinator.onAbortTaskDone, if_neg hreg] using h

theorem Consistent.setLoop (h : Consistent s) (loop : Loop) : Consistent { s with loop } :=
  h.of_sameTasks (P := fun _ => True) (.frame rfl) (.frame rfl)

theorem Consistent.setBegan (h : Consistent s) (n : Nat) : Consistent { s with loopBegan := n } :=
  have heffect : Effect (fun _ => True) s { s with loopBegan := n } := .frame rfl
  ⟨heffect.owned h.owned, h.tasks.of_effect heffect rfl rfl rfl, h.callers.waits, h.callers.reads⟩

theorem Consistent.handleCompletion (h : Consistent s) (msg : CompleteMessage) (now : Nat) :
    Consistent (handleCompletion cfg s msg now) := by
  have heffect := effect_handleCompletion (P := fun _ => True) (s := s) cfg msg now
    fun _ _ _ => trivial
  have hmove := handleCompletion_move cfg s msg now
  generalize Coordinator.handleCompletion cfg s msg now = s' at heffect hmove ⊢
  cases hmove with
  | ignore => exact h
  | abort t a ha _ ht => exact (h.abort _).setLoop _
  | fail a ha _ => exact h.of_sameTasks heffect (.frame rfl)
  | deliver a s1 ha hactive hsuccess hs1 => exact h.of_sameTasks heffect (sameTasks_deliver cfg _ now hs1)

theorem consistent_init : Consistent .init where
  owned := by
    have hnone : ∀ r a, ¬Holds .init r a := by
      intro r a h
      cases h with
      | request h => simp [State.init] at h
      | future h => simp [State.init] at h
      | queue h => simp [State.init] at h
      | backlog b h _ => simp [State.init] at h
    refine ⟨fun r a _ h => absurd h (hnone r a), fun r a h => absurd h (hnone r a),
      fun r a h => absurd h (hnone r a), fun r b h => ?_⟩
    simp [State.init] at h
  tasks := by
    constructor
    · intro t h
      simp [State.init] at h
    · intro r t h
      simp [State.init] at h
  callers := by
    constructor
    · intro a h
      simp [State.init, Caller.waits] at h
    · intro a h
      simp [State.init, Caller.reads] at h

theorem consistent_step {action : Action ρ} (h : Consistent s) (hs : step cfg s action = some s') :
    Consistent s' := by
  have hany : ∀ r m, Holds s r m → True := fun _ _ _ => trivial
  cases hc : action.caller with
  | some a => exact (callerMove_of_step hc hs).consistent h
  | none =>
    cases action <;> simp only [Action.caller, reduceCtorEq] at hc
    all_goals simp only [step, Option.some.injEq] at hs
    case submit sub =>
      split at hs
      · next heq =>
        obtain ⟨hfree, terminal, rfl⟩ := submitRequest_ok heq
        exact Option.some.inj hs ▸ h.trackRequest hfree
      · exact Option.some.inj hs ▸ h
    case abort r => exact hs ▸ h.abort r
    case abortSent t =>
      split at hs
      · have hended := h.of_sameTasks (effect_endAborted (r := (s.tasks t).requestId) (hany _))
          (sameTasks_endAborted s _)
        exact Option.some.inj hs ▸ hended.endTask (by simp)
      · cases hs
    case abortFailed t =>
      split at hs
      · exact Option.some.inj hs ▸ h.endTask (by simp)
      · cases hs
    case abortTaskDone t =>
      split at hs
      · cases hs
      · next ht => exact Option.some.inj hs ▸ h.onAbortTaskDone ht
    case completion msg now =>
      split at hs
      · exact Option.some.inj hs ▸ (h.setBegan s.nextAdmission).handleCompletion msg now
      · cases hs
    case streamChunk msg now =>
      split at hs
      · exact Option.some.inj hs ▸ (h.setBegan s.nextAdmission).of_sameTasks
          (effect_handleStream (P := fun _ => True) fun _ _ _ => trivial)
          (sameTasks_handleStream cfg _ msg now)
      · cases hs
    case loopAbortDone =>
      split at hs
      · split at hs
        · cases hs
        · exact Option.some.inj hs ▸ h.setLoop .idle
        · exact Option.some.inj hs ▸ h.of_sameTasks
            (effect_failBroadcast (P := fun _ => True) trivial) (.frame rfl)
      · cases hs
    case broadcastReturned sent =>
      split at hs
      · next msg a rest _ =>
        exact Option.some.inj hs ▸ h.of_sameTasks
          (effect_broadcastReturned (P := fun _ => True) (hany _) fun e _ => ⟨trivial, hany e.1⟩)
          (sameTasks_broadcastReturned cfg s msg rest sent)
      · cases hs
    case cancelLoop => exact hs ▸ h.setLoop .stopped
    case failPendingRequests message =>
      exact hs ▸ h.of_sameTasks (effect_failPendingRequests (P := fun _ => True) hany)
        (sameTasks_failPendingRequests s message)

theorem consistent_of_reaches {allowed : State → Action ρ → Prop}
    (h : (machine cfg).Reaches allowed s) : Consistent s :=
  h.invariant consistent_init fun _ _ _ hs _ he => consistent_step hs he

end Step

end Coordinator
