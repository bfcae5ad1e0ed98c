import SglangOmni.Coordinator.Ownership

/-! The invariant of the coordinator: a request ID belongs to one admission at a time, an abort task
keeps its request ID reserved until its done callback, and a caller that still waits for its request
keeps the ID reserved.  `CallerStep` says what a segment of a caller leaves alone, `SameTasks` what a
segment of the completion loop does. -/

namespace Coordinator

open Lib

variable {ρ : Type}

/-! ### The invariant -/

/-- What the tables hold of a request belongs to one admission, made for its request ID. -/
structure Owned (s : State) : Prop where
  agree : Agree s
  bound : ∀ r a, Holds s r a → a < s.nextAdmission
  requestId : ∀ r a, Holds s r a → s.requestId a = r
  backlogs : BacklogsOwned s

/-- A running abort task is registered, and a registered one began after the admission that its
request ID belongs to. -/
structure TasksOwned (s : State) : Prop where
  running : ∀ t, (s.tasks t).status = .running → s.abortTasks.get? (s.tasks t).requestId = some t
  registered : ∀ r t, s.abortTasks.get? r = some t →
    (s.tasks t).requestId = r ∧ t < s.nextTask ∧ ∀ a, Holds s r a → a < (s.tasks t).began

def Caller.waits : Caller → Bool
  | .submitting .plain | .awaiting => true
  | _ => false

def Caller.reads : Caller → Bool
  | .submitting .stream | .reading .. | .yielded .. => true
  | _ => false

/-- A caller that waits for its request has its completion future or its stream queue in the
tables. -/
structure CallersOwned (s : State) : Prop where
  waits : ∀ a, (s.callers a).waits = true →
    s.completionFutures.get? (s.requestId a) = some a ∧ s.streamQueues.get? (s.requestId a) = none
  reads : ∀ a, (s.callers a).reads = true → s.streamQueues.get? (s.requestId a) = some a

structure Consistent (s : State) : Prop where
  owned : Owned s
  tasks : TasksOwned s
  callers : CallersOwned s

section Invariant

variable {P : Admission → Prop} {s s' s'' : State}

theorem Effect.owned (h : Effect P s s') (ho : Owned s) : Owned s' where
  agree := h.agree ho.agree
  bound r a ha := by
    rw [h.nextAdmission]
    exact ho.bound r a (h.holds r a ha)
  requestId r a ha := by
    rw [h.requestId]
    exact ho.requestId r a (h.holds r a ha)
  backlogs := h.backlogs ho.backlogs

theorem Owned.of_objects (h : Owned s) (ho : s'.objects = s.objects) : Owned s' :=
  (Effect.frame (P := fun _ => True) ho).owned h

theorem TasksOwned.of_effect (h : Effect P s s') (ht : s'.tasks = s.tasks)
    (hab : s'.abortTasks = s.abortTasks) (hn : s'.nextTask = s.nextTask) (hs : TasksOwned s) :
    TasksOwned s' := by
  constructor
  · rw [ht, hab]
    exact hs.running
  · intro r t hr
    rw [hab] at hr
    rw [ht, hn]
    obtain ⟨hid, hlt, hbegan⟩ := hs.registered r t hr
    exact ⟨hid, hlt, fun a ha => hbegan a (h.holds r a ha)⟩

def State.addAbortTask (s : State) (r : RequestId) : State :=
  { s with
    abortTasks := s.abortTasks.set r s.nextTask
    tasks := Function.update s.tasks s.nextTask ⟨r, .running, s.nextAdmission⟩
    nextTask := s.nextTask + 1 }

theorem abort_cases (s : State) (r : RequestId) :
    (∃ t, s.abortTasks.get? r = some t ∧ abort s r = (s, some t)) ∨ abort s r = (s, none) ∨
    s.abortTasks.get? r = none ∧ abort s r = (s.addAbortTask r, some s.nextTask) := by
  unfold abort
  split
  · next t ht => exact .inl ⟨t, ht, rfl⟩
  · next hnone =>
    split
    · exact .inr (.inl rfl)
    · split
      · exact .inr (.inl rfl)
      · exact .inr (.inr ⟨hnone, rfl⟩)

theorem TasksOwned.addAbortTask (ho : Owned s) (hs : TasksOwned s) {r : RequestId}
    (hnone : s.abortTasks.get? r = none) : TasksOwned (s.addAbortTask r) := by
  constructor
  · intro t ht
    by_cases he : t = s.nextTask
    · simp [State.addAbortTask, he]
    · have htask : (s.addAbortTask r).tasks t = s.tasks t := Function.update_of_ne he _ _
      rw [htask] at ht ⊢
      have hreg := hs.running t ht
      have hne : (s.tasks t).requestId ≠ r := by
        intro h
        rw [h, hnone] at hreg
        cases hreg
      simpa [State.addAbortTask, Dict.get?_set, hne] using hreg
  · intro r' t ht
    by_cases he : r' = r
    · subst he
      simp only [State.addAbortTask, Dict.get?_set_self, Option.some.injEq] at ht
      subst ht
      refine ⟨by simp [State.addAbortTask], by simp [State.addAbortTask], fun a ha => ?_⟩
      simpa [State.addAbortTask] using ho.bound r' a (ha.of_tables rfl rfl rfl rfl)
    · simp only [State.addAbortTask, Dict.get?_set, if_neg he] at ht
      obtain ⟨hid, hlt, hbegan⟩ := hs.registered r' t ht
      have htask : (s.addAbortTask r).tasks t = s.tasks t := Function.update_of_ne hlt.ne _ _
      rw [htask]
      exact ⟨hid, hlt.trans (Nat.lt_succ_self _),
        fun a ha => hbegan a (ha.of_tables rfl rfl rfl rfl)⟩

theorem TasksOwned.endTask (hs : TasksOwned s) {t : TaskId} {status : AbortStatus}
    (hstatus : status ≠ .running) : TasksOwned (s.endTask t status) := by
  have hid (u : TaskId) : ((s.endTask t status).tasks u).requestId = (s.tasks u).requestId := by
    by_cases h : u = t
    · simp [State.endTask, h]
    · simp [State.endTask, h]
  have hbegan (u : TaskId) : ((s.endTask t status).tasks u).began = (s.tasks u).began := by
    by_cases h : u = t
    · simp [State.endTask, h]
    · simp [State.endTask, h]
  constructor
  · intro u hu
    have hne : u ≠ t := by
      rintro rfl
      exact hstatus (by simpa [State.endTask] using hu)
    rw [hid]
    exact hs.running u (by simpa [State.endTask, hne] using hu)
  · intro r u hu
    obtain ⟨h1, h2, h3⟩ := hs.registered r u hu
    exact ⟨(hid u).trans h1, h2, fun a ha =>
      (h3 a (ha.of_tables rfl rfl rfl rfl)).trans_eq (hbegan u).symm⟩

theorem TasksOwned.onAbortTaskDone (hs : TasksOwned s) {t : TaskId}
    (ht : (s.tasks t).status ≠ .running) : TasksOwned (onAbortTaskDone s t) := by
  unfold Coordinator.onAbortTaskDone
  dsimp only
  split
  · next hreg =>
    constructor
    · intro u hu
      have hur := hs.running u hu
      have hne : (s.tasks u).requestId ≠ (s.tasks t).requestId := by
        intro h
        rw [h, hreg, Option.some.injEq] at hur
        subst hur
        exact ht hu
      simpa [Dict.get?_erase, hne] using hur
    · intro r u hu
      obtain ⟨h1, h2, h3⟩ := hs.registered r u (Dict.get?_erase_some hu).2
      exact ⟨h1, h2, fun a ha => h3 a (ha.of_tables rfl rfl rfl rfl)⟩
  · exact hs

end Invariant

/-! ### Backlog accounting -/

/-- The payload bytes of the messages in a queue that a reader will count off. -/
def queuedBytes (msgs : List QueueMessage) : Nat :=
  ((msgs.filter fun msg => !msg.isFailure).map streamMessagePayloadBytes).sum

/-- The running total is the sum over the backlogs, and each backlog is what its queue holds. -/
structure Accounted (s : State) : Prop where
  total : s.streamBacklogBytes = s.streamBacklogs.total StreamBacklog.undeliveredBytes
  queued : ∀ r b, s.streamBacklogs.get? r = some b →
    b.undeliveredBytes = queuedBytes (s.queues b.owner)

section Accounted

variable {s : State}

theorem Accounted.nonneg (h : Accounted s) {r : RequestId} {b : StreamBacklog}
    (hb : s.streamBacklogs.get? r = some b) : 0 ≤ b.undeliveredBytes := by
  rw [h.queued r b hb]
  exact Int.natCast_nonneg _

theorem Accounted.dropOwned (h : Accounted s) (r : RequestId) : Accounted (s.dropOwned r) where
  total := by
    rw [State.dropOwned, Dict.total_erase, h.total]
  queued r' b hb := h.queued r' b (Dict.get?_erase_some hb).2

theorem Accounted.dropOwned_le (h : Accounted s) (r : RequestId) :
    (s.dropOwned r).streamBacklogBytes ≤ s.streamBacklogBytes := by
  have hnonneg : 0 ≤ (s.streamBacklogs.get? r).elim 0 StreamBacklog.undeliveredBytes := by
    cases hb : s.streamBacklogs.get? r with
    | none => exact le_rfl
    | some b => exact h.nonneg hb
  simp only [State.dropOwned]
  omega

end Accounted

/-! ### Callers -/

/-- `s'` follows from `s` by a segment of the caller of `a`. -/
structure CallerStep (a : Admission) (s s' : State) : Prop where
  effect : Effect (· = a) s s'
  callers : ∀ b, b ≠ a → s'.callers b = s.callers b
  yields : ∀ b, b ≠ a → s'.yields b = s.yields b
  tasks : ∀ t, t < s.nextTask → s'.tasks t = s.tasks t
  nextTask : s.nextTask ≤ s'.nextTask
  tasksOwned : Owned s → TasksOwned s → TasksOwned s'
  loop : s'.loop = s.loop
  loopBegan : s'.loopBegan = s.loopBegan

section CallerStep

variable {s s' s'' : State} {a : Admission}

theorem CallerStep.trans (h : CallerStep a s s') (h' : CallerStep a s' s'') :
    CallerStep a s s'' where
  effect := h.effect.trans h'.effect
  callers b hb := (h'.callers b hb).trans (h.callers b hb)
  yields b hb := (h'.yields b hb).trans (h.yields b hb)
  tasks t ht := (h'.tasks t (ht.trans_le h.nextTask)).trans (h.tasks t ht)
  nextTask := h.nextTask.trans h'.nextTask
  tasksOwned ho ht := h'.tasksOwned (h.effect.owned ho) (h.tasksOwned ho ht)
  loop := h'.loop.trans h.loop
  loopBegan := h'.loopBegan.trans h.loopBegan

def State.scheduler (s : State) := (s.tasks, s.abortTasks, s.nextTask, s.loop, s.loopBegan)

theorem CallerStep.of_effect (he : Effect (· = a) s s')
    (hc : ∀ b, b ≠ a → s'.callers b = s.callers b) (hy : ∀ b, b ≠ a → s'.yields b = s.yields b)
    (h : s'.scheduler = s.scheduler) : CallerStep a s s' := by
  simp only [State.scheduler, Prod.mk.injEq] at h
  obtain ⟨ht, hab, hn, hl, hb⟩ := h
  exact ⟨he, hc, hy, fun _ _ => by rw [ht], hn.ge, fun _ => TasksOwned.of_effect he ht hab hn, hl, hb⟩

theorem CallerStep.refl (a : Admission) (s : State) : CallerStep a s s :=
  .of_effect (.refl _ s) (fun _ _ => rfl) (fun _ _ => rfl) rfl

theorem CallerStep.agree (h : CallerStep a s s') (hag : Agree s) : Agree s' := h.effect.agree hag

/-- A segment of a caller that leaves the records, the yielded messages and the books as they are. -/
structure LeaveStep (a : Admission) (s s' : State) : Prop extends CallerStep a s s' where
  infos : s'.infos = s.infos
  allYields : s'.yields = s.yields
  backlog : ∀ r q, s'.streamQueues.get? r = some q → s'.streamBacklogs.get? r = none →
    s.streamBacklogs.get? r = none
  accounted : Accounted s → Accounted s' ∧ s'.streamBacklogBytes ≤ s.streamBacklogBytes

theorem LeaveStep.trans (h : LeaveStep a s s') (h' : LeaveStep a s' s'') : LeaveStep a s s'' where
  toCallerStep := h.toCallerStep.trans h'.toCallerStep
  infos := h'.infos.trans h.infos
  allYields := h'.allYields.trans h.allYields
  backlog r q hq hb := by
    refine h.backlog r q (h'.effect.streamQueues r q hq) (h'.backlog r q hq hb)
  accounted hs := by
    obtain ⟨h1, hle1⟩ := h.accounted hs
    obtain ⟨h2, hle2⟩ := h'.accounted h1
    exact ⟨h2, hle2.trans hle1⟩

def State.books (s : State) := (s.streamBacklogs, s.streamBacklogBytes, s.queues)

theorem LeaveStep.of_callerStep (hc : CallerStep a s s')
    (h : (s'.infos, s'.yields, s'.books) = (s.infos, s.yields, s.books)) : LeaveStep a s s' := by
  simp only [State.books, Prod.mk.injEq] at h
  obtain ⟨hi, hy, hb, hn, hq⟩ := h
  refine ⟨hc, hi, hy, fun r q _ hnone => hb ▸ hnone, fun hs => ⟨⟨?_, ?_⟩, hn.le⟩⟩
  · rw [hn, hb]
    exact hs.total
  · rw [hb, hq]
    exact hs.queued

theorem LeaveStep.refl (a : Admission) (s : State) : LeaveStep a s s :=
  .of_callerStep (.refl a s) rfl

theorem callerStep_setCaller {caller : Caller} : CallerStep a s (s.setCaller a caller) :=
  .of_effect (.frame rfl) (fun _ hb => Function.update_of_ne hb _ _) (fun _ _ => rfl) rfl

theorem leaveStep_setCaller {caller : Caller} : LeaveStep a s (s.setCaller a caller) :=
  .of_callerStep callerStep_setCaller rfl

theorem leaveStep_dropOwned {r : RequestId} (hr : ∀ m, Holds s r m → m = a) :
    LeaveStep a s (s.dropOwned r) where
  toCallerStep := .of_effect (effect_dropOwned hr) (fun _ _ => rfl) (fun _ _ => rfl) rfl
  infos := rfl
  allYields := rfl
  backlog r' q hq hb := by
    obtain ⟨hne, _⟩ := Dict.get?_erase_some hq
    simpa [State.dropOwned, Dict.get?_erase, hne] using hb
  accounted hs := ⟨hs.dropOwned r, hs.dropOwned_le r⟩

theorem leaveStep_abort (a : Admission) (r : RequestId) : LeaveStep a s (abort s r).1 := by
  rcases abort_cases s r with ⟨t, _, h⟩ | h | ⟨hnone, h⟩
  · rw [h]
    exact .refl a s
  · rw [h]
    exact .refl a s
  · rw [h]
    refine .of_callerStep ⟨.frame rfl, fun _ _ => rfl, fun _ _ => rfl, fun t ht => ?_, Nat.le_succ _,
      fun ho hs => hs.addAbortTask ho hnone, rfl, rfl⟩ rfl
    exact Function.update_of_ne ht.ne _ _

theorem leaveStep_finishLeave {returned : Bool} (hag : Agree s) :
    LeaveStep a s (finishLeave s a returned) := by
  unfold finishLeave
  dsimp only
  refine LeaveStep.trans ?_ leaveStep_setCaller
  split
  · next h => exact leaveStep_dropOwned fun m hm => hag _ m a hm (.queue h)
  · exact .refl a s

theorem leaveStep_leaveStream {returned : Bool} (hag : Agree s) :
    LeaveStep a s (leaveStream s a returned) := by
  unfold leaveStream
  dsimp only
  split
  · split
    · have habort := leaveStep_abort (s := s) a (s.requestId a)
      split
      · next s' t heq =>
        rw [heq] at habort
        exact habort.trans leaveStep_setCaller
      · next s' heq =>
        rw [heq] at habort
        exact habort.trans (leaveStep_finishLeave (habort.agree hag))
    · exact leaveStep_finishLeave hag
  · exact leaveStep_setCaller

theorem leaveStep_afterRelease {kind : CallerKind} (hag : Agree s) :
    LeaveStep a s (afterRelease s a kind) := by
  cases kind with
  | plain => exact leaveStep_setCaller
  | stream => exact leaveStep_leaveStream hag

theorem leaveStep_finishRelease {kind : CallerKind} (hag : Agree s) :
    LeaveStep a s (finishRelease s a kind) := by
  unfold finishRelease
  dsimp only
  split
  · next h =>
    have hdrop := leaveStep_dropOwned fun m hm => hag _ m a hm (.future h)
    exact hdrop.trans (leaveStep_afterRelease (hdrop.agree hag))
  · exact leaveStep_afterRelease hag

theorem leaveStep_releaseSubmission {kind : CallerKind} (hag : Agree s) :
    LeaveStep a s (releaseSubmission s a kind) := by
  unfold releaseSubmission
  dsimp only
  split
  · have hcancel : LeaveStep a s (if s.futures a = .pending then s.settle a .cancelled else s) := by
      split
      · exact .of_callerStep
          (.of_effect (effect_settle rfl) (fun _ _ => rfl) (fun _ _ => rfl) rfl) rfl
      · exact .refl a s
    generalize (if s.futures a = .pending then s.settle a .cancelled else s) = s1 at hcancel ⊢
    have habort := hcancel.trans (leaveStep_abort a (s.requestId a))
    split
    · next s2 t heq =>
      rw [heq] at habort
      exact habort.trans leaveStep_setCaller
    · next s2 heq =>
      rw [heq] at habort
      exact habort.trans (leaveStep_finishRelease (habort.agree hag))
  · exact leaveStep_afterRelease hag

theorem leaveStep_sendFailed {kind : CallerKind} (hag : Agree s)
    (ha : Holds s (s.requestId a) a) : LeaveStep a s (sendFailed s a kind) := by
  have herase : LeaveStep a s { s with requests := s.requests.erase (s.requestId a) } :=
    .of_callerStep (.of_effect (effect_eraseRequest fun m hm => hag _ m a hm ha) (fun _ _ => rfl)
      (fun _ _ => rfl) rfl) rfl
  exact herase.trans (leaveStep_releaseSubmission (herase.agree hag))

theorem callerStep_sendReturned (cfg : Config ρ) (kind : CallerKind) (hag : Agree s)
    (ha : Holds s (s.requestId a) a) : CallerStep a s (sendReturned cfg s a kind) := by
  unfold sendReturned
  dsimp only
  cases hb : s.requests.get? (s.requestId a) with
  | some b =>
    have hrun : CallerStep a s (s.setInfo b fun info => { info with state := .running }) :=
      .of_effect (effect_setInfo (hag _ b a (.request hb) ha) (fun _ => rfl) (fun _ => rfl))
        (fun _ _ => rfl) (fun _ _ => rfl) rfl
    cases kind with
    | plain => exact hrun.trans callerStep_setCaller
    | stream => exact hrun.trans callerStep_setCaller
  | none =>
    cases kind with
    | plain => exact callerStep_setCaller
    | stream => exact callerStep_setCaller

theorem callerStep_takeMessage (expected completed : Finset StageName) (msg : QueueMessage)
    (rest : List QueueMessage) (now : Nat) (hag : Agree s) (ha : Holds s (s.requestId a) a) :
    CallerStep a s (takeMessage s a expected completed msg rest now) := by
  unfold takeMessage
  dsimp only
  have hq : CallerStep a s { s with queues := Function.update s.queues a rest } :=
    .of_effect (effect_setQueue rest rfl) (fun _ _ => rfl) (fun _ _ => rfl) rfl
  split
  · exact hq.trans (leaveStep_leaveStream (hq.agree hag)).toCallerStep
  · split
    · exact hq.trans (leaveStep_leaveStream (hq.agree hag)).toCallerStep
    · next backlog hb =>
      have hcount : Effect (· = a) { s with queues := Function.update s.queues a rest }
          ({ s with queues := Function.update s.queues a rest }.countBytes (s.requestId a)
            (backlog.shrink msg now) (-streamMessagePayloadBytes msg)) :=
        effect_countBytes hb rfl fun m hm => hag _ m a (hq.effect.holds _ m hm) ha
      refine (hq.trans (.of_effect hcount (fun _ _ => rfl) (fun _ _ => rfl) rfl)).trans (CallerStep.trans ?_ callerStep_setCaller)
      exact .of_effect (.frame rfl) (fun _ _ => rfl) (fun b hb => Function.update_of_ne hb _ _) rfl

theorem callerStep_resumeStream {cfg : Config ρ} {expected completed : Finset StageName}
    {msg : QueueMessage} (hag : Agree s) :
    CallerStep a s (resumeStream cfg s a expected completed msg) := by
  cases msg with
  | complete msg =>
    simp only [resumeStream]
    split
    · exact (leaveStep_leaveStream hag).toCallerStep
    · exact callerStep_setCaller
  | stream msg => exact callerStep_setCaller

/-! ### Where a caller goes -/

/-- The caller no longer waits for its request; `returned` when a stream ended by completing. -/
def Caller.Gone (returned : Bool) (caller : Caller) : Prop :=
  caller = .ended returned ∨ caller = .leaving returned ∨
    ∃ kind, caller = .releasing kind ∧ returned = false

@[simp] theorem setCaller_callers (s : State) (a : Admission) (caller : Caller) :
    (s.setCaller a caller).callers a = caller := by
  simp [State.setCaller]

theorem gone_finishLeave (s : State) (a : Admission) (returned : Bool) :
    ((finishLeave s a returned).callers a).Gone returned :=
  .inl (setCaller_callers _ a _)

theorem gone_leaveStream (s : State) (a : Admission) (returned : Bool) :
    ((leaveStream s a returned).callers a).Gone returned := by
  unfold leaveStream
  dsimp only
  split
  · split
    · split
      · exact .inr (.inl (setCaller_callers _ a _))
      · exact gone_finishLeave _ a returned
    · exact gone_finishLeave _ a returned
  · exact .inl (setCaller_callers _ a _)

theorem gone_afterRelease (s : State) (a : Admission) (kind : CallerKind) :
    ((afterRelease s a kind).callers a).Gone false := by
  cases kind with
  | plain => exact .inl (setCaller_callers _ a _)
  | stream => exact gone_leaveStream s a false

theorem gone_finishRelease (s : State) (a : Admission) (kind : CallerKind) :
    ((finishRelease s a kind).callers a).Gone false :=
  gone_afterRelease _ a kind

theorem gone_releaseSubmission (s : State) (a : Admission) (kind : CallerKind) :
    ((releaseSubmission s a kind).callers a).Gone false := by
  unfold releaseSubmission
  dsimp only
  split
  · split
    · exact .inr (.inr ⟨kind, setCaller_callers _ a _, rfl⟩)
    · exact gone_finishRelease _ a kind
  · exact gone_afterRelease s a kind

end CallerStep

/-! ### The completion loop -/

/-- `s'` has the abort tasks, the callers, the yielded messages and the stream queues of `s`, in the
same event of the completion loop, and a request without a backlog keeps its completion future. -/
structure SameTasks (s s' : State) : Prop where
  tasks : s'.tasks = s.tasks
  abortTasks : s'.abortTasks = s.abortTasks
  nextTask : s'.nextTask = s.nextTask
  callers : s'.callers = s.callers
  yields : s'.yields = s.yields
  loopBegan : s'.loopBegan = s.loopBegan
  streamQueues : s'.streamQueues = s.streamQueues
  futures : ∀ r, s.streamBacklogs.get? r = none →
    s'.streamBacklogs.get? r = none ∧ s'.completionFutures.get? r = s.completionFutures.get? r

section SameTasks

variable {s s' s'' : State}

def State.suspended (s : State) :=
  (s.tasks, s.abortTasks, s.nextTask, s.callers, s.yields, s.loopBegan, s.streamQueues)

theorem SameTasks.of_futures (h : s'.suspended = s.suspended)
    (hf : ∀ r, s.streamBacklogs.get? r = none → s'.streamBacklogs.get? r = none ∧
      s'.completionFutures.get? r = s.completionFutures.get? r) : SameTasks s s' := by
  simp only [State.suspended, Prod.mk.injEq] at h
  obtain ⟨ht, ha, hn, hc, hy, hl, hq⟩ := h
  exact ⟨ht, ha, hn, hc, hy, hl, hq, hf⟩

theorem SameTasks.frame
    (h : (s'.suspended, s'.completionFutures, s'.streamBacklogs) =
      (s.suspended, s.completionFutures, s.streamBacklogs)) : SameTasks s s' := by
  simp only [Prod.mk.injEq] at h
  obtain ⟨hs, hf, hb⟩ := h
  exact .of_futures hs fun r hr => ⟨hb ▸ hr, by rw [hf]⟩

theorem SameTasks.refl (s : State) : SameTasks s s := .frame rfl

theorem SameTasks.trans (h : SameTasks s s') (h' : SameTasks s' s'') : SameTasks s s'' where
  tasks := h'.tasks.trans h.tasks
  abortTasks := h'.abortTasks.trans h.abortTasks
  nextTask := h'.nextTask.trans h.nextTask
  callers := h'.callers.trans h.callers
  yields := h'.yields.trans h.yields
  loopBegan := h'.loopBegan.trans h.loopBegan
  streamQueues := h'.streamQueues.trans h.streamQueues
  futures r hr := by
    obtain ⟨hb, hf⟩ := h.futures r hr
    obtain ⟨hb', hf'⟩ := h'.futures r hb
    exact ⟨hb', hf'.trans hf⟩

theorem SameTasks.of_backlog {r : RequestId} {b : StreamBacklog}
    (hr : s.streamBacklogs.get? r = some b) (h : s'.suspended = s.suspended)
    (hb : ∀ r', r' ≠ r → s'.streamBacklogs.get? r' = s.streamBacklogs.get? r')
    (hf : ∀ r', r' ≠ r → s'.completionFutures.get? r' = s.completionFutures.get? r') :
    SameTasks s s' := by
  refine .of_futures h fun r' hnone => ?_
  have hne : r' ≠ r := by
    rintro rfl
    rw [hr] at hnone
    cases hnone
  exact ⟨(hb r' hne).trans hnone, hf r' hne⟩

theorem sameTasks_rejectCompletionFuture (s : State) (r : RequestId) (failure : Failure) :
    SameTasks s (rejectCompletionFuture s r failure) := by
  unfold rejectCompletionFuture
  split
  · exact .refl s
  · split
    · exact .refl s
    · split <;> exact .frame rfl

theorem sameTasks_resolveFuture (s : State) (r : RequestId) (value : Outcome) :
    SameTasks s (resolveFuture s r value) := by
  unfold resolveFuture
  split
  · exact .refl s
  · split
    · exact .frame rfl
    · exact .refl s

theorem sameTasks_pushAt (s : State) (r : RequestId) (msg : QueueMessage) :
    SameTasks s (match s.streamQueues.get? r with
      | some q => s.push q msg
      | none => s) := by
  split
  · exact .frame rfl
  · exact .refl s

theorem sameTasks_failStreams (cfg : Config ρ) (s : State) (rest : List (RequestId × Admission)) :
    SameTasks s (failStreams cfg s rest) := by
  induction rest generalizing s with
  | nil => exact .frame rfl
  | cons e rest ih =>
    have hnext (msg : QueueMessage) : SameTasks s (failStreams cfg (s.push e.2 msg) rest) :=
      .trans (.frame rfl : SameTasks s (s.push e.2 msg)) (ih _)
    simp only [failStreams]
    split
    · exact hnext _
    · split
      · exact hnext _
      · exact .frame rfl

theorem get?_of_idlest {backlogs : Dict RequestId StreamBacklog} {e : RequestId × StreamBacklog}
    (h : idlest backlogs = some e) :
    backlogs.get? e.1 = some e.2 ∧ 0 < e.2.undeliveredBytes := by
  have hmem := List.argmin_mem (Option.mem_def.mpr h)
  rw [List.mem_filter, decide_eq_true_eq] at hmem
  exact ⟨(Dict.mem_entries_iff _ _ _).mp hmem.1, hmem.2⟩

theorem sameTasks_popBacklog {r : RequestId} {b : StreamBacklog}
    (h : s.streamBacklogs.get? r = some b) : SameTasks s (s.popBacklog r b) :=
  .of_backlog h rfl (fun r' hne => by simp [State.popBacklog, Dict.get?_erase, hne]) fun _ _ => rfl

theorem sameTasks_popStream {r : RequestId} {b : StreamBacklog}
    (h : s.streamBacklogs.get? r = some b) : SameTasks s ((s.popBacklog r b).popFuture r) :=
  .of_backlog h rfl (fun r' hne => by simp [State.popFuture, State.popBacklog, Dict.get?_erase, hne])
    fun r' hne => by simp [State.popFuture, State.popBacklog, Dict.get?_erase, hne]

theorem sameTasks_evict (cap : Option Nat) (fuel : Nat) (s : State)
    (streams : List (RequestId × Admission)) :
    match evict cap fuel s streams with
    | .error (_, s') => SameTasks s s'
    | .ok (s', _) => SameTasks s s' := by
  induction fuel generalizing s streams with
  | zero => exact .refl s
  | succ fuel ih =>
    cases cap with
    | none => exact .refl s
    | some limit =>
      by_cases hfit : s.streamBacklogBytes ≤ limit
      · simp only [evict, if_pos hfit]
        exact .refl s
      simp only [evict, if_neg hfit]
      cases hmin : idlest s.streamBacklogs with
      | none => exact .refl s
      | some e =>
        have hget := (get?_of_idlest hmin).1
        by_cases hfuture : s.completionFutures.get? e.1 = none
        · simp only [if_pos hfuture]
          exact sameTasks_popBacklog hget
        simp only [if_neg hfuture]
        cases s.streamQueues.get? e.1 with
        | none => exact sameTasks_popStream hget
        | some q =>
          have hround : SameTasks s (((s.popBacklog e.1 e.2).popFuture e.1).clearQueue q) :=
            (sameTasks_popStream hget).trans (.frame rfl)
          have hih := ih (((s.popBacklog e.1 e.2).popFuture e.1).clearQueue q)
            (streams ++ [(e.1, q)])
          dsimp only
          split at hih
          · exact hround.trans hih
          · exact hround.trans hih

theorem sameTasks_countBytes {r : RequestId} {b b' : StreamBacklog} {size : Int}
    (h : s.streamBacklogs.get? r = some b) : SameTasks s (s.countBytes r b' size) :=
  .of_backlog h rfl (fun r' hne => by simp [State.countBytes, Dict.get?_set, hne]) fun _ _ => rfl

theorem sameTasks_enqueue {r : RequestId} {backlog : StreamBacklog} {q : Admission}
    {msg : QueueMessage} {now : Nat} (hb : s.streamBacklogs.get? r = some backlog) :
    SameTasks s (s.enqueue r backlog q msg now) := by
  have hcount : SameTasks s (s.countBytes r (backlog.grow msg now)
    (streamMessagePayloadBytes msg)) := sameTasks_countBytes hb
  exact hcount.trans (.frame rfl)

theorem sameTasks_queueStreamMessage (cfg : Config ρ) (s : State) (r : RequestId)
    (msg : QueueMessage) (now : Nat) : SameTasks s (queueStreamMessage cfg s r msg now) := by
  have hmove := queueStreamMessage_move cfg s r msg now
  generalize queueStreamMessage cfg s r msg now = s' at hmove ⊢
  cases hmove with
  | missingBacklog hb => exact .frame rfl
  | missingQueue backlog hb hq =>
    have hcount : SameTasks s (s.countBytes r (backlog.grow msg now)
      (streamMessagePayloadBytes msg)) := sameTasks_countBytes hb
    exact hcount.trans (.frame rfl)
  | raised backlog q error s1 hb hq he =>
    have hevict := sameTasks_evict cfg.maxTotalBacklogBytes
      ((s.enqueue r backlog q msg now).streamBacklogs.size + 1) (s.enqueue r backlog q msg now) []
    rw [he] at hevict
    exact ((sameTasks_enqueue hb).trans hevict).trans (.frame rfl)
  | queued backlog q s1 streams hb hq he =>
    have hevict := sameTasks_evict cfg.maxTotalBacklogBytes
      ((s.enqueue r backlog q msg now).streamBacklogs.size + 1) (s.enqueue r backlog q msg now) []
    rw [he] at hevict
    exact ((sameTasks_enqueue hb).trans hevict).trans (sameTasks_failStreams cfg _ _)

theorem sameTasks_completeRequest (s : State) (r : RequestId) (a : Admission) (value : Outcome) :
    SameTasks s (completeRequest s r a value) := by
  have hinfo : SameTasks s (s.setInfo a fun info =>
    { info with state := .completed, result := some value }) := .frame rfl
  exact (hinfo.trans (sameTasks_resolveFuture _ r value)).trans (.frame rfl)

theorem sameTasks_collectPartial (s : State) (msg : CompleteMessage) (a : Admission)
    (expected : Finset StageName) : SameTasks s (collectPartial s msg a expected) := by
  unfold collectPartial
  dsimp only
  split
  · have hpop : SameTasks s { s with partialResults := s.partialResults.erase msg.requestId } :=
      .frame rfl
    exact hpop.trans (sameTasks_completeRequest _ _ _ _)
  · exact .frame rfl

theorem sameTasks_deliverCompletion (cfg : Config ρ) (s : State) (msg : CompleteMessage)
    (now : Nat) : SameTasks s (deliverCompletion cfg s msg now) := by
  unfold deliverCompletion
  split
  · exact sameTasks_queueStreamMessage cfg s _ _ now
  · exact .refl s

theorem sameTasks_handleStream (cfg : Config ρ) (s : State) (msg : StreamMessage) (now : Nat) :
    SameTasks s (handleStream cfg s msg now) := by
  unfold handleStream
  split
  · exact sameTasks_queueStreamMessage cfg s _ _ now
  · exact .refl s

theorem sameTasks_failRequest (s : State) (msg : CompleteMessage) (sent : Bool) :
    SameTasks s (failRequest s msg sent) := by
  unfold failRequest
  dsimp only
  have h1 : SameTasks s (if sent = true then
      { s with requests := s.requests.erase msg.requestId } else s) := by
    split
    · exact .frame rfl
    · exact .refl s
  generalize (if sent = true then
    { s with requests := s.requests.erase msg.requestId } else s) = s1 at h1 ⊢
  have h2 : SameTasks s { s1 with partialResults := s1.partialResults.erase msg.requestId } :=
    h1.trans (.frame rfl)
  exact (h2.trans (sameTasks_rejectCompletionFuture _ _ _)).trans (sameTasks_pushAt _ _ _)

theorem sameTasks_broadcastReturned (cfg : Config ρ) (s : State) (msg : CompleteMessage)
    (rest : List (RequestId × Admission)) (sent : Bool) :
    SameTasks s (broadcastReturned cfg s msg rest sent) :=
  (sameTasks_failRequest s msg sent).trans (sameTasks_failStreams cfg _ rest)

theorem sameTasks_failPendingRequests (s : State) (message : String) :
    SameTasks s (failPendingRequests s message) := by
  have hround (s : State) (e : RequestId × Admission) :
      SameTasks s (failPendingRequest message s e) := by
    have hinfo : SameTasks s (s.setInfo e.2 fun info =>
      { info with state := .failed, error := some message }) := .frame rfl
    exact (hinfo.trans (sameTasks_rejectCompletionFuture _ e.1 _)).trans (sameTasks_pushAt _ e.1 _)
  have hfold (entries : List (RequestId × Admission)) (s : State) :
      SameTasks s (entries.foldl (failPendingRequest message) s) := by
    induction entries generalizing s with
    | nil => exact .refl s
    | cons e rest ih => exact (hround s e).trans (ih _)
  have hfatal : SameTasks s { s with fatalError := some message } := .frame rfl
  exact (hfatal.trans (hfold s.requests.entries _)).trans (.frame rfl)

theorem sameTasks_endAborted (s : State) (r : RequestId) : SameTasks s (endAborted s r) := by
  unfold endAborted
  split
  · exact .refl s
  · next a _ =>
    have hinfo : SameTasks s (s.setInfo a fun info => { info with state := .aborted }) := .frame rfl
    exact ((hinfo.trans (sameTasks_rejectCompletionFuture _ r _)).trans
      (sameTasks_pushAt _ r _)).trans (.frame rfl)

theorem abort_some {r : RequestId} {t : TaskId} (h : (abort s r).2 = some t) :
    (abort s r).1.abortTasks.get? r = some t := by
  rcases abort_cases s r with ⟨u, hu, he⟩ | he | ⟨_, he⟩
  · rw [he] at h ⊢
    exact hu.trans h
  · rw [he] at h
    cases h
  · rw [he] at h ⊢
    simpa [State.addAbortTask] using h

/-- What `handle_completion` does up to its first await. -/
inductive CompletionMove (cfg : Config ρ) (s : State) (msg : CompleteMessage) (now : Nat) :
    State → Prop
  | ignore : CompletionMove cfg s msg now s
  | abort (t : TaskId) (a : Admission) (ha : s.requests.get? msg.requestId = some a)
      (hfailure : msg.success = false) (ht : (abort s msg.requestId).2 = some t) :
      CompletionMove cfg s msg now { (abort s msg.requestId).1 with
        loop := .awaitingAbort t { msg with fromStage := cfg.logicalName msg.fromStage } a }
  | fail (a : Admission) (ha : s.requests.get? msg.requestId = some a)
      (hfailure : msg.success = false) :
      CompletionMove cfg s msg now
        (failBroadcast s { msg with fromStage := cfg.logicalName msg.fromStage } a [])
  | deliver (a : Admission) (s' : State) (ha : s.requests.get? msg.requestId = some a)
      (hactive : (s.infos a).state ≠ .failed) (hsuccess : msg.success = true)
      (hs' : (∃ value, s' = completeRequest s msg.requestId a value) ∨
        ∃ expected, s' = collectPartial s
          { msg with fromStage := cfg.logicalName msg.fromStage } a expected) :
      CompletionMove cfg s msg now
        (deliverCompletion cfg s' { msg with fromStage := cfg.logicalName msg.fromStage } now)

theorem handleCompletion_move (cfg : Config ρ) (s : State) (msg : CompleteMessage) (now : Nat) :
    CompletionMove cfg s msg now (handleCompletion cfg s msg now) := by
  unfold handleCompletion
  split
  · exact .ignore
  · next a ha =>
    split
    · exact .ignore
    · next hactive =>
      unfold handleActive
      dsimp only
      split
      · next hfailure =>
        have hfailure : msg.success = false := by simpa using hfailure
        split
        · cases habort : (abort s msg.requestId).2 with
          | none =>
            rcases abort_cases s msg.requestId with ⟨t, _, he⟩ | he | ⟨_, he⟩
            · simp [he] at habort
            · rw [he]
              exact .ignore
            · simp [he] at habort
          | some t =>
            rw [← Prod.eta (abort s msg.requestId), habort]
            exact .abort t a ha hfailure habort
        · exact .fail a ha hfailure
      · next hsuccess =>
        have hsuccess : msg.success = true := by simpa using hsuccess
        split
        · exact .ignore
        · split
          · exact .deliver a _ ha hactive hsuccess (.inl ⟨_, rfl⟩)
          · exact .deliver a _ ha hactive hsuccess (.inr ⟨_, rfl⟩)

theorem sameTasks_deliver (cfg : Config ρ) (msg : CompleteMessage) {a : Admission} (now : Nat)
    (hs' : (∃ value, s' = completeRequest s msg.requestId a value) ∨
      ∃ expected, s' = collectPartial s msg a expected) :
    SameTasks s (deliverCompletion cfg s' msg now) := by
  rcases hs' with ⟨value, rfl⟩ | ⟨expected, rfl⟩
  · exact (sameTasks_completeRequest _ _ _ _).trans (sameTasks_deliverCompletion cfg _ _ now)
  · exact (sameTasks_collectPartial _ _ _ _).trans (sameTasks_deliverCompletion cfg _ _ now)

/-! ### Where the loop is -/

theorem failStreams_loop (cfg : Config ρ) (s : State) (rest : List (RequestId × Admission)) :
    (failStreams cfg s rest).loop = .idle ∨ ∃ r q rest' msg a, (r, q) :: rest' <:+ rest ∧
      msg.requestId = r ∧ msg.success = false ∧
      (failStreams cfg s rest).loop = .broadcasting msg a rest' := by
  induction rest generalizing s with
  | nil => exact .inl rfl
  | cons e rest ih =>
    have hnext (msg : QueueMessage) :
        (failStreams cfg (s.push e.2 msg) rest).loop = .idle ∨
        ∃ r q rest' m a, (r, q) :: rest' <:+ e :: rest ∧ m.requestId = r ∧ m.success = false ∧
          (failStreams cfg (s.push e.2 msg) rest).loop = .broadcasting m a rest' := by
      rcases ih (s.push e.2 msg) with h | ⟨r, q, rest', m, a, hsuf, hid, hfail, h⟩
      · exact .inl h
      · exact .inr ⟨r, q, rest', m, a, hsuf.trans (List.suffix_cons e rest), hid, hfail, h⟩
    simp only [failStreams]
    split
    · exact hnext _
    · next a ha =>
      split
      · exact hnext _
      · exact .inr ⟨e.1, e.2, rest, _, a, List.suffix_refl _, rfl, rfl, rfl⟩

theorem resolveFuture_loop (s : State) (r : RequestId) (value : Outcome) :
    (resolveFuture s r value).loop = s.loop := by
  unfold resolveFuture
  split
  · rfl
  · split <;> rfl

theorem completeRequest_loop (s : State) (r : RequestId) (a : Admission) (value : Outcome) :
    (completeRequest s r a value).loop = s.loop :=
  resolveFuture_loop _ r value

theorem collectPartial_loop (s : State) (msg : CompleteMessage) (a : Admission)
    (expected : Finset StageName) : (collectPartial s msg a expected).loop = s.loop := by
  unfold collectPartial
  dsimp only
  split
  · exact completeRequest_loop _ _ a _
  · rfl

theorem rejectCompletionFuture_loop (s : State) (r : RequestId) (failure : Failure) :
    (rejectCompletionFuture s r failure).loop = s.loop := by
  unfold rejectCompletionFuture
  split
  · rfl
  · split
    · rfl
    · split <;> rfl

theorem pushAt_loop (s : State) (r : RequestId) (msg : QueueMessage) :
    (match s.streamQueues.get? r with
      | some q => s.push q msg
      | none => s).loop = s.loop := by
  split <;> rfl

theorem endAborted_loop (s : State) (r : RequestId) : (endAborted s r).loop = s.loop := by
  unfold endAborted
  split
  · rfl
  · exact (pushAt_loop _ r _).trans (rejectCompletionFuture_loop _ r _)

theorem failPendingRequests_loop (s : State) (message : String) :
    (failPendingRequests s message).loop = s.loop := by
  have hfold (entries : List (RequestId × Admission)) (s : State) :
      (entries.foldl (failPendingRequest message) s).loop = s.loop := by
    induction entries generalizing s with
    | nil => rfl
    | cons e rest ih =>
      exact (ih _).trans ((pushAt_loop _ e.1 _).trans (rejectCompletionFuture_loop _ e.1 _))
  exact hfold _ _

end SameTasks

end Coordinator
