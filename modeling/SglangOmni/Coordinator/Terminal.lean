import SglangOmni.Coordinator.Consistent

/-! The terminal stages a stream reader waits for.  `stream` reads them from the requests table after
its submission returned, so it waits for the set resolved at admission in every run in which the entry
is still there then, or the resolved set is the static one; `reader_waits_for_unused_stage` is a run in
which it is neither. -/

namespace Coordinator

open Lib

variable {ρ : Type}

/-- The logical stages that the successful completions among `msgs` are from. -/
def completedStages (cfg : Config ρ) (msgs : List QueueMessage) : Finset StageName :=
  (msgs.filterMap fun
    | .complete msg => if msg.success then some (cfg.logicalName msg.fromStage) else none
    | .stream _ => none).toFinset

/-- A completion and one from each stage of `terminal` are among `msgs`. -/
def Finished (cfg : Config ρ) (terminal : Finset StageName) (msgs : List QueueMessage) : Prop :=
  (completedStages cfg msgs).Nonempty ∧ terminal ⊆ completedStages cfg msgs

/-- When the send of a stream's submission returns, the request has its entry or uses every terminal
stage. -/
def entryKept (cfg : Config ρ) (s : State) : Action ρ → Prop
  | .sendReturned a => s.callers a = .submitting .stream →
      s.requests.get? (s.requestId a) = some a ∨ (s.infos a).terminalStages = cfg.terminalStages
  | _ => True

/-- The reader of a request resolved to `terminal` that has yielded `yields` waits for `terminal`,
and returns when it is finished and not before. -/
def ReaderOk (cfg : Config ρ) (terminal : Finset StageName) (yields : List QueueMessage) :
    Caller → Prop
  | .submitting .stream => yields = []
  | .reading expected completed =>
    expected = terminal ∧ completed = completedStages cfg yields ∧ ¬Finished cfg terminal yields
  | .yielded expected completed msg =>
    expected = terminal ∧ msg.isFailure = false ∧ ∃ earlier, yields = earlier ++ [msg] ∧
      completed = completedStages cfg earlier ∧ ¬Finished cfg terminal earlier
  | .leaving true | .ended true => Finished cfg terminal yields
  | _ => True

/-- Every reader is right, and an admission to come has no caller and has yielded nothing. -/
structure ReadersOk (cfg : Config ρ) (s : State) : Prop where
  readers : ∀ a, ReaderOk cfg (s.infos a).terminalStages (s.yields a) (s.callers a)
  fresh : ∀ a, s.nextAdmission ≤ a → s.callers a = .ended false ∧ s.yields a = []

section Readers

variable {cfg : Config ρ} {s s' : State} {a : Admission} {terminal : Finset StageName}

theorem completedStages_complete (cfg : Config ρ) (earlier : List QueueMessage) (msg : CompleteMessage)
    (h : (QueueMessage.complete msg).isFailure = false) :
    completedStages cfg (earlier ++ [.complete msg]) =
      insert (cfg.logicalName msg.fromStage) (completedStages cfg earlier) := by
  have hsuccess : msg.success = true := by simpa [QueueMessage.isFailure] using h
  rw [completedStages, List.filterMap_append, List.toFinset_append, Finset.insert_eq,
    Finset.union_comm]
  simp [hsuccess, completedStages]

theorem completedStages_stream (cfg : Config ρ) (earlier : List QueueMessage) (msg : StreamMessage) :
    completedStages cfg (earlier ++ [.stream msg]) = completedStages cfg earlier := by
  simp [completedStages]

theorem not_finished_nil : ¬Finished cfg terminal [] := by
  rintro ⟨h, _⟩
  simp [completedStages] at h

theorem ReaderOk.of_gone {yields : List QueueMessage} {caller : Caller}
    (h : caller.Gone false) : ReaderOk cfg terminal yields caller := by
  rcases h with rfl | rfl | ⟨kind, rfl, _⟩ <;> trivial

theorem ReaderOk.of_returned {yields : List QueueMessage} {caller : Caller}
    (h : caller.Gone true) (hf : Finished cfg terminal yields) :
    ReaderOk cfg terminal yields caller := by
  rcases h with rfl | rfl | ⟨kind, _, h⟩
  · exact hf
  · exact hf
  · cases h

theorem abort_callers (s : State) (r : RequestId) :
    (abort s r).1.callers = s.callers ∧ (abort s r).1.yields = s.yields := by
  rcases abort_cases s r with ⟨t, _, h⟩ | h | ⟨_, h⟩
  · rw [h]
    exact ⟨rfl, rfl⟩
  · rw [h]
    exact ⟨rfl, rfl⟩
  · rw [h]
    exact ⟨rfl, rfl⟩

theorem ReadersOk.of_callerStep (h : ReadersOk cfg s) (hc : CallerStep a s s')
    (ha : a < s.nextAdmission)
    (hown : ReaderOk cfg (s.infos a).terminalStages (s'.yields a) (s'.callers a)) :
    ReadersOk cfg s' where
  readers b := by
    rw [hc.effect.terminalStages]
    by_cases hb : b = a
    · exact hb ▸ hown
    · rw [hc.callers b hb, hc.yields b hb]
      exact h.readers b
  fresh b hb := by
    rw [hc.effect.nextAdmission] at hb
    rw [hc.callers b (ha.trans_le hb).ne', hc.yields b (ha.trans_le hb).ne']
    exact h.fresh b hb

theorem ReadersOk.of_frame {P : Admission → Prop} (h : ReadersOk cfg s) (he : Effect P s s')
    (hc : s'.callers = s.callers) (hy : s'.yields = s.yields) : ReadersOk cfg s' where
  readers b := by
    rw [he.terminalStages, hc, hy]
    exact h.readers b
  fresh b hb := by
    rw [he.nextAdmission] at hb
    rw [hc, hy]
    exact h.fresh b hb

theorem ReadersOk.trackRequest (h : ReadersOk cfg s) (sub : Submission ρ) (terminal : Finset StageName) :
    ReadersOk cfg (trackRequest s sub terminal) := by
  obtain ⟨_, _, _, _, _, hy, _⟩ := trackRequest_frame s sub terminal
  constructor
  · intro b
    rw [hy, trackRequest_callers, trackRequest_infos]
    by_cases hb : b = s.nextAdmission
    · subst hb
      simp only [Function.update_self, (h.fresh _ le_rfl).2]
      cases sub.kind <;> trivial
    · simp only [Function.update_of_ne hb]
      exact h.readers b
  · intro b hb
    rw [trackRequest_nextAdmission] at hb
    rw [hy, trackRequest_callers, Function.update_of_ne (Nat.lt_of_succ_le hb).ne']
    exact h.fresh b (Nat.le_of_succ_le hb)

theorem readerOk_sendReturned {kind : CallerKind} (hc : Consistent s) (h : ReadersOk cfg s)
    (hcaller : s.callers a = .submitting kind)
    (hallowed : kind = .stream → s.requests.get? (s.requestId a) = some a ∨
      (s.infos a).terminalStages = cfg.terminalStages) :
    ReaderOk cfg (s.infos a).terminalStages ((sendReturned cfg s a kind).yields a)
      ((sendReturned cfg s a kind).callers a) := by
  cases kind with
  | plain => simp [sendReturned, ReaderOk]
  | stream =>
    have hyields : s.yields a = [] := by
      have hreader := h.readers a
      rw [hcaller] at hreader
      exact hreader
    have hholds : Holds s (s.requestId a) a := hc.holds_of_submitting hcaller
    unfold sendReturned
    cases hreq : s.requests.get? (s.requestId a) with
    | none =>
      have hstatic : (s.infos a).terminalStages = cfg.terminalStages := by
        simpa [hreq] using hallowed rfl
      simp [ReaderOk, expectedTerminalStages, hreq, hstatic, State.setCaller, hyields,
        completedStages, not_finished_nil]
    | some b =>
      obtain rfl : b = a := hc.owned.agree _ b a (.request hreq) hholds
      simp [ReaderOk, expectedTerminalStages, hreq, State.setCaller, State.setInfo, hyields,
        completedStages, not_finished_nil]

theorem readerOk_takeMessage {expected completed : Finset StageName} {msg : QueueMessage}
    {rest : List QueueMessage} {now : Nat}
    (h : ReaderOk cfg terminal (s.yields a) (.reading expected completed)) :
    ReaderOk cfg terminal ((takeMessage s a expected completed msg rest now).yields a)
      ((takeMessage s a expected completed msg rest now).callers a) := by
  unfold takeMessage
  dsimp only
  split
  · exact .of_gone (gone_leaveStream _ a false)
  · next hfailure =>
    split
    · exact .of_gone (gone_leaveStream _ a false)
    · obtain ⟨hexpected, hcompleted, hnot⟩ := h
      rw [setCaller_callers]
      exact ⟨hexpected, by simpa using hfailure, s.yields a, by simp [State.setCaller, State.countBytes],
        hcompleted, hnot⟩

theorem readerOk_resumeStream {expected completed : Finset StageName} {msg : QueueMessage}
    (hag : Agree s) (h : ReaderOk cfg terminal (s.yields a) (.yielded expected completed msg)) :
    ReaderOk cfg terminal ((resumeStream cfg s a expected completed msg).yields a)
      ((resumeStream cfg s a expected completed msg).callers a) := by
  obtain ⟨rfl, hsuccess, earlier, hyields, rfl, hnot⟩ := h
  cases msg with
  | complete msg =>
    have hnow := completedStages_complete cfg earlier msg hsuccess
    rw [← hyields] at hnow
    simp only [resumeStream]
    split
    · next hdone =>
      refine .of_returned (gone_leaveStream s a true) ?_
      rw [(leaveStep_leaveStream hag).allYields]
      refine ⟨hnow ▸ Finset.insert_nonempty _ _, ?_⟩
      rcases hdone with rfl | hdone
      · exact Finset.empty_subset _
      · exact hnow ▸ hdone
    · next hwait =>
      rw [setCaller_callers]
      exact ⟨rfl, hnow.symm, fun hf => hwait (.inr (hnow ▸ hf.2))⟩
  | stream msg =>
    have hnow := completedStages_stream cfg earlier msg
    rw [← hyields] at hnow
    simp only [resumeStream, setCaller_callers]
    refine ⟨rfl, hnow.symm, fun hf => hnot ?_⟩
    unfold Finished at hf ⊢
    exact hnow ▸ hf

theorem CallerMove.readerOk {action : Action ρ} (hm : CallerMove cfg s a action s')
    (hc : Consistent s) (h : ReadersOk cfg s) (hallowed : entryKept cfg s action) :
    ReaderOk cfg (s.infos a).terminalStages (s'.yields a) (s'.callers a) := by
  have hreader := h.readers a
  cases hm with
  | sendReturned kind hcaller =>
    exact readerOk_sendReturned hc h hcaller fun hk => hallowed (by rw [hcaller, hk])
  | sendFailed kind hcaller => exact .of_gone (gone_releaseSubmission _ a kind)
  | release _ kind hcaller => exact .of_gone (gone_releaseSubmission s a kind)
  | take expected completed msg rest now hcaller hq =>
    rw [hcaller] at hreader
    exact readerOk_takeMessage hreader
  | resume expected completed msg hcaller =>
    rw [hcaller] at hreader
    exact readerOk_resumeStream hc.owned.agree hreader
  | close hcaller => exact .of_gone (gone_leaveStream s a false)
  | finishRelease kind hcaller => exact .of_gone (gone_finishRelease s a kind)
  | finishLeave returned hcaller =>
    rw [hcaller] at hreader
    cases returned with
    | false => exact .of_gone (gone_finishLeave s a false)
    | true =>
      refine .of_returned (gone_finishLeave s a true) ?_
      rw [(leaveStep_finishLeave hc.owned.agree).allYields]
      exact hreader

theorem CallerMove.admitted {action : Action ρ} (hm : CallerMove cfg s a action s')
    (h : ReadersOk cfg s) : a < s.nextAdmission := by
  by_contra hlt
  have hended := (h.fresh a (Nat.le_of_not_lt hlt)).1
  cases hm with
  | sendReturned kind hcaller => simp [hended] at hcaller
  | sendFailed kind hcaller => simp [hended] at hcaller
  | release _ kind hcaller => simp [hended] at hcaller
  | take expected completed msg rest now hcaller hq => simp [hended] at hcaller
  | resume expected completed msg hcaller => simp [hended] at hcaller
  | close hcaller => simp [hended, Caller.reads] at hcaller
  | finishRelease kind hcaller => simp [hended] at hcaller
  | finishLeave returned hcaller => simp [hended] at hcaller

theorem readersOk_init (cfg : Config ρ) : ReadersOk cfg .init :=
  ⟨fun _ => trivial, fun _ _ => ⟨rfl, rfl⟩⟩

theorem handleCompletion_callers (cfg : Config ρ) (s : State) (msg : CompleteMessage) (now : Nat) :
    (handleCompletion cfg s msg now).callers = s.callers ∧
    (handleCompletion cfg s msg now).yields = s.yields := by
  have hmove := handleCompletion_move cfg s msg now
  generalize handleCompletion cfg s msg now = s' at hmove ⊢
  cases hmove with
  | ignore => exact ⟨rfl, rfl⟩
  | abort t a ha _ ht => exact abort_callers s msg.requestId
  | fail a ha _ => exact ⟨rfl, rfl⟩
  | deliver a s1 ha hactive hsuccess hs1 =>
    have hsame := sameTasks_deliver cfg { msg with fromStage := cfg.logicalName msg.fromStage } now hs1
    exact ⟨hsame.callers, hsame.yields⟩

theorem callers_of_step {action : Action ρ} (hcaller : action.caller = none)
    (hsubmit : ∀ sub, action ≠ .submit sub) (hs : step cfg s action = some s') :
    Effect (fun _ => True) s s' ∧ s'.callers = s.callers ∧ s'.yields = s.yields := by
  cases action <;> simp only [Action.caller, reduceCtorEq] at hcaller
  all_goals simp only [step, Option.some.injEq] at hs
  case submit sub => exact absurd rfl (hsubmit sub)
  case abort r => exact hs ▸ ⟨effect_abort r, abort_callers s r⟩
  case abortSent t =>
    split at hs
    · have hsame := sameTasks_endAborted s (s.tasks t).requestId
      exact Option.some.inj hs ▸ ⟨effect_runAbort fun _ _ => trivial, hsame.callers, hsame.yields⟩
    · cases hs
  case abortFailed t =>
    split at hs
    · exact Option.some.inj hs ▸ ⟨.frame rfl, rfl, rfl⟩
    · cases hs
  case abortTaskDone t =>
    split at hs
    · cases hs
    · rw [← Option.some.inj hs]
      unfold onAbortTaskDone
      dsimp only
      split
      · exact ⟨.frame rfl, rfl, rfl⟩
      · exact ⟨.refl _ s, rfl, rfl⟩
  case completion msg now =>
    split at hs
    · have hbegan : Effect (fun _ => True) s { s with loopBegan := s.nextAdmission } := .frame rfl
      exact Option.some.inj hs ▸ ⟨hbegan.trans (effect_handleCompletion cfg msg now fun _ _ _ => trivial),
        handleCompletion_callers cfg _ msg now⟩
    · cases hs
  case streamChunk msg now =>
    split at hs
    · have hbegan : Effect (fun _ => True) s { s with loopBegan := s.nextAdmission } := .frame rfl
      have hsame := sameTasks_handleStream cfg { s with loopBegan := s.nextAdmission } msg now
      exact Option.some.inj hs ▸ ⟨hbegan.trans (effect_handleStream fun _ _ _ => trivial),
        hsame.callers, hsame.yields⟩
    · cases hs
  case loopAbortDone =>
    split at hs
    · split at hs
      · cases hs
      · exact Option.some.inj hs ▸ ⟨.frame rfl, rfl, rfl⟩
      · exact Option.some.inj hs ▸ ⟨effect_failBroadcast trivial, rfl, rfl⟩
    · cases hs
  case broadcastReturned sent =>
    split at hs
    · next msg a rest _ =>
      have hsame := sameTasks_broadcastReturned cfg s msg rest sent
      exact Option.some.inj hs ▸ ⟨effect_broadcastReturned (fun _ _ => trivial)
        fun _ _ => ⟨trivial, fun _ _ => trivial⟩, hsame.callers, hsame.yields⟩
    · cases hs
  case cancelLoop => exact hs ▸ ⟨.frame rfl, rfl, rfl⟩
  case failPendingRequests message =>
    have hsame := sameTasks_failPendingRequests s message
    exact hs ▸ ⟨effect_failPendingRequests fun _ _ _ => trivial, hsame.callers, hsame.yields⟩

theorem readersOk_step {action : Action ρ} (hc : Consistent s) (h : ReadersOk cfg s)
    (hallowed : entryKept cfg s action) (hs : step cfg s action = some s') : ReadersOk cfg s' := by
  cases hcaller : action.caller with
  | some a =>
    have hm := callerMove_of_step hcaller hs
    exact h.of_callerStep (hm.callerStep hc) (hm.admitted h) (hm.readerOk hc h hallowed)
  | none =>
    by_cases hsubmit : ∀ sub, action ≠ .submit sub
    · obtain ⟨he, hcallers, hyields⟩ := callers_of_step hcaller hsubmit hs
      exact h.of_frame he hcallers hyields
    · push Not at hsubmit
      obtain ⟨sub, rfl⟩ := hsubmit
      simp only [step] at hs
      split at hs
      · next heq =>
        obtain ⟨_, terminal, rfl⟩ := submitRequest_ok heq
        exact Option.some.inj hs ▸ h.trackRequest sub terminal
      · exact Option.some.inj hs ▸ h

theorem terminalStages_step {action : Action ρ} (hc : Consistent s) (ha : a < s.nextAdmission)
    (hs : step cfg s action = some s') :
    (s'.infos a).terminalStages = (s.infos a).terminalStages ∧ a < s'.nextAdmission := by
  cases hcaller : action.caller with
  | some b =>
    have he := ((callerMove_of_step hcaller hs).callerStep hc).effect
    exact ⟨he.terminalStages a, he.nextAdmission ▸ ha⟩
  | none =>
    by_cases hsubmit : ∀ sub, action ≠ .submit sub
    · have he := (callers_of_step hcaller hsubmit hs).1
      exact ⟨he.terminalStages a, he.nextAdmission ▸ ha⟩
    · push Not at hsubmit
      obtain ⟨sub, rfl⟩ := hsubmit
      simp only [step] at hs
      split at hs
      · next heq =>
        obtain ⟨_, terminal, rfl⟩ := submitRequest_ok heq
        rw [← Option.some.inj hs, trackRequest_infos, trackRequest_nextAdmission, Function.update_of_ne ha.ne]
        exact ⟨rfl, ha.trans (Nat.lt_succ_self _)⟩
      · exact Option.some.inj hs ▸ ⟨rfl, ha⟩

theorem submitRequest_resolved {sub : Submission ρ} (hnone : sub.terminalStages = none)
    (hresolved : resolveTerminalStages cfg sub.request = .ok terminal)
    (h : submitRequest cfg s sub = .ok s') : s' = trackRequest s sub terminal := by
  unfold submitRequest at h
  rw [hnone, hresolved] at h
  split at h
  · cases h
  · split at h
    · cases h
    · split at h
      · cases h
      · split at h
        · cases h
        · exact (Except.ok.inj h).symm

end Readers

/-- A stream that was submitted and resolved to `terminal` waits for `terminal` in every state that
follows: while it waits for a message it is not finished, and it returns when it is. -/
theorem reader_waits_for_resolved_stages {cfg : Config ρ} {s₀ s₁ s : State} {sub : Submission ρ}
    {terminal : Finset StageName} (hbefore : (machine cfg).Reaches (entryKept cfg) s₀)
    (hnone : sub.terminalStages = none)
    (hresolved : resolveTerminalStages cfg sub.request = .ok terminal)
    (hsubmit : submitRequest cfg s₀ sub = .ok s₁) (hrun : (machine cfg).Path (entryKept cfg) s₁ s) :
    (∀ expected completed, s.callers s₀.nextAdmission = .reading expected completed →
      expected = terminal ∧ ¬Finished cfg terminal (s.yields s₀.nextAdmission)) ∧
    (∀ expected completed msg, s.callers s₀.nextAdmission = .yielded expected completed msg →
      expected = terminal) ∧
    (s.callers s₀.nextAdmission = .leaving true ∨ s.callers s₀.nextAdmission = .ended true →
      Finished cfg terminal (s.yields s₀.nextAdmission)) := by
  have hstep : step cfg s₀ (.submit sub) = some s₁ := by simp [step, hsubmit]
  have hafter : (machine cfg).Reaches (entryKept cfg) s :=
    Machine.Path.trans (Machine.Path.tail (a := .submit sub) hbefore trivial hstep) hrun
  have hinit : Consistent .init ∧ ReadersOk cfg .init := ⟨consistent_init, readersOk_init cfg⟩
  have hreaders := (hafter.invariant (P := fun s => Consistent s ∧ ReadersOk cfg s) hinit
    fun s action s' hs hallowed hstep =>
      ⟨consistent_step hs.1 hstep, readersOk_step hs.1 hs.2 hallowed hstep⟩).2
  have hfixed := hrun.invariant (P := fun s => Consistent s ∧
      (s.infos s₀.nextAdmission).terminalStages = terminal ∧ s₀.nextAdmission < s.nextAdmission)
    (by
      have htracked := submitRequest_resolved hnone hresolved hsubmit
      refine ⟨consistent_step (consistent_of_reaches hbefore) hstep, ?_, ?_⟩
      · simp [htracked, trackRequest_infos]
      · simp [htracked, trackRequest_nextAdmission])
    fun s action s' hs _ hstep => by
      obtain ⟨hkeep, hlt⟩ := terminalStages_step hs.1 hs.2.2 hstep
      exact ⟨consistent_step hs.1 hstep, hkeep.trans hs.2.1, hlt⟩
  have hreader := hreaders.readers s₀.nextAdmission
  rw [hfixed.2.1] at hreader
  refine ⟨fun expected completed hcaller => ?_, fun expected completed msg hcaller => ?_,
    fun hcaller => ?_⟩
  · rw [hcaller] at hreader
    exact ⟨hreader.1, hreader.2.2⟩
  · rw [hcaller] at hreader
    exact hreader.1
  · rcases hcaller with hcaller | hcaller
    · rw [hcaller] at hreader
      exact hreader
    · rw [hcaller] at hreader
      exact hreader

/-! ### Runs -/

def subsetConfig : Config Unit where
  terminalStages := {"audio", "text"}
  terminalStagesResolver := some fun _ => .names [some "audio"]
  logicalName := id
  stages := ["entry"]
  maxInFlight := none
  maxTotalBacklogBytes := none

def subsetSubmission : Submission Unit :=
  { requestId := "r", kind := .stream, request := (), entry := "entry", now := 0 }

def audioCompletion : Action Unit :=
  .completion { requestId := "r", fromStage := "audio", success := true } 0

def Caller.waitsFor : Caller → Option (Finset StageName × Finset StageName)
  | .reading expected completed => some (expected, completed)
  | _ => none

def Caller.hasReturned : Caller → Bool
  | .ended returned => returned
  | _ => false

/-- `entryKept` as a check, for a coordinator whose requests never use every stage. -/
def keepsEntry (s : State) : Action ρ → Bool
  | .sendReturned a => s.requests.get? (s.requestId a) = some a
  | _ => true

theorem entryKept_of_keepsEntry (cfg : Config ρ) (s : State) (action : Action ρ)
    (h : keepsEntry s action = true) : entryKept cfg s action := by
  cases action with
  | sendReturned a => exact fun _ => .inl (by simpa [keepsEntry] using h)
  | _ => trivial

/-- The send returns before the completion is handled: the reader yields it and returns. -/
theorem reader_returns_after_resolved_stage : ∃ s₁ s,
    submitRequest subsetConfig .init subsetSubmission = .ok s₁ ∧
    (machine subsetConfig).execWhere keepsEntry s₁
      [.sendReturned 0, audioCompletion, .takeMessage 0 0, .resumeStream 0] = some s ∧
    s.callers 0 = .ended true ∧ Finished subsetConfig {"audio"} (s.yields 0) := by
  have hobs : (submitRequest subsetConfig .init subsetSubmission).toOption.bind (fun s₁ =>
      ((machine subsetConfig).execWhere keepsEntry s₁
        [.sendReturned 0, audioCompletion, .takeMessage 0 0, .resumeStream 0]).map
        fun s => (s.callers 0).hasReturned) = some true := by decide +kernel
  obtain ⟨s₁, hs₁, hobs⟩ := Option.bind_eq_some_iff.mp hobs
  obtain ⟨s, hs, hreturned⟩ := Option.map_eq_some_iff.mp hobs
  have hsubmit : submitRequest subsetConfig .init subsetSubmission = .ok s₁ := by
    cases hc : submitRequest subsetConfig .init subsetSubmission with
    | error e => simp [hc, Except.toOption] at hs₁
    | ok s => simpa [hc, Except.toOption] using hs₁
  have hended : s.callers 0 = .ended true := by
    cases hcaller : s.callers 0 with
    | ended returned => simpa [hcaller, Caller.hasReturned] using hreturned
    | _ => simp [hcaller, Caller.hasReturned] at hreturned
  refine ⟨s₁, s, hsubmit, hs, hended, ?_⟩
  have hresolved : resolveTerminalStages subsetConfig () = .ok {"audio"} := rfl
  exact (reader_waits_for_resolved_stages (Machine.Path.refl State.init) rfl hresolved hsubmit
    (Machine.path_of_execWhere (entryKept_of_keepsEntry subsetConfig) hs)).2.2
    (.inr hended)

/-- The completion is handled while the send is suspended, and the entry of the request is gone when
the reader asks for its terminal stages: after the one completion it waits for a stage that the
request does not use. -/
theorem reader_waits_for_unused_stage : ∃ s,
    (machine subsetConfig).exec .init [.submit subsetSubmission, audioCompletion, .sendReturned 0,
      .takeMessage 0 0, .resumeStream 0] = some s ∧
    (s.infos 0).terminalStages = {"audio"} ∧
    s.callers 0 = .reading {"audio", "text"} {"audio"} ∧
    Finished subsetConfig {"audio"} (s.yields 0) := by
  have hobs : ((machine subsetConfig).exec .init [.submit subsetSubmission, audioCompletion,
      .sendReturned 0, .takeMessage 0 0, .resumeStream 0]).map (fun s =>
        ((s.infos 0).terminalStages, (s.callers 0).waitsFor,
          completedStages subsetConfig (s.yields 0))) =
      some ({"audio"}, some ({"audio", "text"}, {"audio"}), {"audio"}) := by decide +kernel
  obtain ⟨s, hs, hobs⟩ := Option.map_eq_some_iff.mp hobs
  simp only [Prod.mk.injEq] at hobs
  obtain ⟨hterminal, hwaits, hcompleted⟩ := hobs
  refine ⟨s, hs, hterminal, ?_, ?_⟩
  · cases hcaller : s.callers 0 with
    | reading expected completed =>
      rw [hcaller] at hwaits
      simp only [Caller.waitsFor, Option.some.injEq, Prod.mk.injEq] at hwaits
      rw [hwaits.1, hwaits.2]
    | _ => simp [hcaller, Caller.waitsFor] at hwaits
  · rw [Finished, hcompleted]
    exact ⟨Finset.singleton_nonempty _, subset_rfl⟩

end Coordinator
