import SglangOmni.Realtime.Samples

/-! The commits of an open session.  They are counted beside the pending audio, and the pump calls
`adapter.commit` only where nothing is pending and no unit is open: a commit keeps its place in the
audio as long as nothing is appended before the pump has called it. -/

namespace Realtime

open Lib

variable {cfg : Config} {s s' : State}

def withoutClear (_ : State) : Action → Prop
  | .clearStarts => False
  | _ => True

/-- No clear; audio is appended where no commit waits, and the input ends where no commit waits behind
audio. -/
def commitsSettled (s : State) : Action → Prop
  | .clearStarts => False
  | .append _ _ _ _ => s.pendingCommits = 0
  | .endInput _ => s.pendingCommits = 0 ∨ (s.pendingPcm = [] ∧ s.openUnitSamples = 0)
  | _ => True

/-- Each commit is called once, with the samples handed over that were accepted before it; the pump has
work while a commit waits, and none waits when it has returned. -/
structure CommitsKept (s : State) : Prop where
  handed : Covers MediaUnit.startSample MediaUnit.realSamples 0 s.handed s.handedSamples
  calls : s.commitCalls <+: s.commits
  once : s.commitCalls.length + s.pendingCommits = s.commits.length
  waits : s.pump = .waiting → 0 < s.pendingCommits → s.inputReady = true
  returns : s.pump = .returned → s.pendingCommits = 0

/-! ### The samples handed over -/

def TakenHanded (s : State) : Prop := s.taken = s.handed.map Taken.unit

theorem TakenHanded.cut (h : TakenHanded s) : TakenHanded (s.noted.cutNextUnit cfg) := by
  obtain ⟨index, samples, start, receipt, heq⟩ := cutNextUnit_eq cfg s.noted
  rw [heq]
  have hhanded := handed_unit s (s.nextUnit cfg)
  show s.taken ++ [Taken.unit (s.nextUnit cfg)] =
    ((s.taken ++ [Taken.unit (s.nextUnit cfg)]).filterMap Taken.unit?).map Taken.unit
  rw [hhanded, List.map_append]
  exact congrArg (· ++ _) h

theorem TakenHanded.processed (h : TakenHanded s) {unit : MediaUnit} {receipt : Option MediaUnit}
    {consumed : Nat} : TakenHanded (s.processed unit receipt consumed) := by
  rcases processed_cases s unit receipt consumed with ⟨-, heq⟩ | ⟨-, -, heq⟩ | ⟨-, heq⟩
  · rw [heq]
    exact h
  · rw [heq]
    exact h
  · rw [heq]
    exact h

theorem covers_map_unit {first last : Nat} {l : List MediaUnit} :
    Covers Taken.start Taken.count first (l.map Taken.unit) last ↔
      Covers MediaUnit.startSample MediaUnit.realSamples first l last := by
  induction l generalizing first with
  | nil => exact Iff.rfl
  | cons u rest ih => exact and_congr Iff.rfl ih

theorem TakenHanded.covers (h : TakenHanded s) (hsamples : SamplesKept cfg s) :
    Covers MediaUnit.startSample MediaUnit.realSamples 0 s.handed
      (s.acceptedSamples - s.pendingSamples) := by
  have hcovers := hsamples.covers
  rw [h] at hcovers
  exact covers_map_unit.mp hcovers

theorem TakenHanded.handedSamples (h : TakenHanded s) (hsamples : SamplesKept cfg s) :
    s.handedSamples = s.acceptedSamples - s.pendingSamples := by
  rw [(h.covers hsamples).sum, Nat.zero_add]
  rfl

/-! ### The commits that wait -/

/-- The commits that wait were accepted after all of the audio; those that wait at the end of the input
have no audio before them, and the unit that ends the input has none behind it. -/
structure CommitsInOrder (s : State) : Prop where
  commits : s.commits = s.commitCalls ++ List.replicate s.pendingCommits s.acceptedSamples
  ended : s.isInputEnded = true → s.pendingCommits = 0 ∨
    (s.pendingPcm = [] ∧ s.openUnitSamples = 0)
  last : ∀ u ∈ s.handed, u.eos = true → s.pendingCommits = 0
  waits : s.pump = .waiting → 0 < s.pendingCommits → s.inputReady = true
  taken : TakenHanded s
  clearing : s.clearing = none

theorem CommitsInOrder.accept (h : CommitsInOrder s) {pcm : List UInt8}
    (hnone : s.pendingCommits = 0) : CommitsInOrder (s.accept pcm) := by
  have hcommits := h.commits
  refine ⟨?_, fun _ => .inl hnone, h.last, fun _ _ => rfl, h.taken, h.clearing⟩
  show s.commits = s.commitCalls ++ List.replicate s.pendingCommits _
  rw [hnone] at hcommits ⊢
  exact hcommits

theorem CommitsInOrder.commit (h : CommitsInOrder s) (hsamples : SamplesKept cfg s)
    (hended : s.isInputEnded = false) :
    CommitsInOrder { s with
      pendingCommits := s.pendingCommits + 1
      inputReady := true
      commits := s.commits ++ [s.acceptedSamples] } := by
  have hnot : s.isInputEnded ≠ true := Bool.eq_false_iff.mp hended
  have heos := (hsamples.ended.once fun hd => by
    obtain ⟨r, hr⟩ := Option.isSome_iff_exists.mp hd
    exact (hsamples.drained r hr).1).ended
  refine ⟨?_, fun he => absurd he hnot, fun u hu he => absurd (heos u hu he) hnot, fun _ _ => rfl,
    h.taken, h.clearing⟩
  show s.commits ++ [s.acceptedSamples] =
    s.commitCalls ++ List.replicate (s.pendingCommits + 1) s.acceptedSamples
  rw [h.commits, List.append_assoc, List.replicate_succ']

theorem CommitsInOrder.call (h : CommitsInOrder s) (hsamples : SamplesKept cfg s)
    (hpending : s.pendingPcm = []) (hcommits : 0 < s.pendingCommits) (hwhole : s.openUnitSamples = 0) :
    CommitsInOrder s.noted.callCommit := by
  have hnone : s.pendingSamples = 0 := by
    rw [State.pendingSamples, hpending]
    exact Nat.zero_div _
  have hhanded : s.handedSamples = s.acceptedSamples := by
    rw [h.taken.handedSamples hsamples, hnone, Nat.sub_zero]
  obtain ⟨n, hn⟩ := Nat.exists_eq_add_of_lt hcommits
  have hsucc : s.pendingCommits = n + 1 := by omega
  refine ⟨?_, fun _ => .inr ⟨hpending, hwhole⟩, fun u hu he => ?_, fun hw => (by cases hw), h.taken,
    h.clearing⟩
  · show s.commits = (s.commitCalls ++ [s.handedSamples]) ++
      List.replicate (s.pendingCommits - 1) s.acceptedSamples
    rw [h.commits, hhanded, hsucc, Nat.add_sub_cancel, List.append_assoc, List.replicate_succ]
    rfl
  · have hzero := h.last u hu he
    show s.pendingCommits - 1 = 0
    omega

theorem CommitsInOrder.cut (h : CommitsInOrder s)
    (hcommit : s.pendingPcm = [] → s.openUnitSamples = 0 → s.pendingCommits = 0) :
    CommitsInOrder (s.noted.cutNextUnit cfg) := by
  obtain ⟨index, samples, start, receipt, heq⟩ := cutNextUnit_eq cfg s.noted
  have htaken : TakenHanded (s.noted.cutNextUnit cfg) := h.taken.cut
  have hended : s.isInputEnded = true → s.pendingCommits = 0 := by
    intro he
    rcases h.ended he with hnone | ⟨hpending, hwhole⟩
    · exact hnone
    · exact hcommit hpending hwhole
  rw [heq] at htaken ⊢
  refine ⟨h.commits, fun he => .inl (hended he), fun u hu he => ?_, fun hw => (by cases hw), htaken,
    h.clearing⟩
  have hu : u ∈ (s.taken ++ [Taken.unit (s.nextUnit cfg)]).filterMap Taken.unit? := hu
  rw [handed_unit] at hu
  rcases List.mem_append.mp hu with hu | hu
  · exact h.last u hu he
  · rw [List.mem_singleton.mp hu] at he
    simp only [State.nextUnit, Bool.and_eq_true] at he
    exact hended he.1

theorem CommitsInOrder.processed (h : CommitsInOrder s) {unit : MediaUnit}
    {receipt : Option MediaUnit} {consumed : Nat} :
    CommitsInOrder (s.processed unit receipt consumed) := by
  have htaken : TakenHanded (s.processed unit receipt consumed) := h.taken.processed
  rcases processed_cases s unit receipt consumed with ⟨-, heq⟩ | ⟨-, -, heq⟩ | ⟨-, heq⟩
  · rw [heq] at htaken ⊢
    exact ⟨h.commits, h.ended, h.last, fun _ _ => rfl, htaken, h.clearing⟩
  · rw [heq] at htaken ⊢
    exact ⟨h.commits, h.ended, h.last, fun hw => (by cases hw), htaken, h.clearing⟩
  · rw [heq] at htaken ⊢
    exact ⟨h.commits, h.ended, h.last, fun hw => (by cases hw), htaken, h.clearing⟩

theorem CommitsInOrder.move {a : Action} (h : CommitsInOrder s) (hsamples : SamplesKept cfg s)
    (ha : commitsSettled s a) (hmove : Move cfg s a s') : CommitsInOrder s' := by
  cases hmove with
  | append => exact h.accept ha
  | image => exact ⟨h.commits, h.ended, h.last, h.waits, h.taken, h.clearing⟩
  | clearStarts => exact ha.elim
  | clears hclearing => cases h.clearing.symm.trans hclearing
  | commit _ hended => exact h.commit hsamples hended
  | ends => exact ⟨h.commits, fun _ => ha, h.last, fun _ _ => rfl, h.taken, h.clearing⟩
  | idles hpump hidle =>
    simp only [State.pumpIdles, Bool.and_eq_true, decide_eq_true_eq] at hidle
    refine ⟨h.commits, h.ended, h.last, fun _ hpos => ?_, h.taken, h.clearing⟩
    exact absurd hidle.1.2 (Nat.pos_iff_ne_zero.mp hpos)
  | callsCommit _ _ hpending hcommits hwhole => exact h.call hsamples hpending hcommits hwhole
  | cuts _ _ _ hcommit => exact h.cut hcommit
  | processed => exact h.processed
  | commitReturns => exact ⟨h.commits, h.ended, h.last, fun _ _ => rfl, h.taken, h.clearing⟩
  | close => exact ⟨h.commits, h.ended, h.last, h.waits, h.taken, h.clearing⟩

theorem commitsInOrder_of_reaches (h : (runtime cfg).Reaches commitsSettled s)
    (hopen : s.isOpen = true) : SamplesKept cfg s ∧ CommitsInOrder s := by
  refine h.invariant (P := fun s => s.isOpen = true → SamplesKept cfg s ∧ CommitsInOrder s)
    ?_ ?_ hopen
  · intro hinit
    refine ⟨samplesKept_of_reaches (Machine.Path.refl _) hinit, rfl, fun he => ?_, fun u hu => ?_,
      fun _ hpos => ?_, rfl, rfl⟩
    · cases he
    · cases hu
    · cases hpos
  · intro s a s' hs ha hstep hopen'
    obtain ⟨hopen, hmove⟩ := step_move hstep hopen'
    obtain ⟨hsamples, hcommits⟩ := hs hopen
    exact ⟨hsamples.move hmove, hcommits.move hsamples ha hmove⟩

/-- In every run without a clear in which audio is appended only where no commit waits and the input
ends only where no commit waits behind audio, every commit of an open session is called once and keeps
its place in the audio. -/
theorem commits_kept (h : (runtime cfg).Reaches commitsSettled s) (hopen : s.isOpen = true) :
    CommitsKept s := by
  obtain ⟨hsamples, hcommits⟩ := commitsInOrder_of_reaches h hopen
  refine ⟨?_, ⟨_, hcommits.commits.symm⟩, ?_, hcommits.waits, fun hret => ?_⟩
  · rw [hcommits.taken.handedSamples hsamples]
    exact hcommits.taken.covers hsamples
  · rw [hcommits.commits, List.length_append, List.length_replicate]
  · cases hsamples.ended with
    | waiting hp => cases hp.symm.trans hret
    | committing hp => cases hp.symm.trans hret
    | processing hp => cases hp.symm.trans hret
    | returned _ hh _ heos =>
      refine hcommits.last _ ?_ heos
      rw [hh]
      exact List.mem_append_right _ (List.mem_singleton.mpr rfl)

def commitsSettledCheck (s : State) : Action → Bool
  | .clearStarts => false
  | .append _ _ _ _ => s.pendingCommits = 0
  | .endInput _ => s.pendingCommits = 0 || (s.pendingPcm.isEmpty && s.openUnitSamples = 0)
  | _ => true

theorem commitsSettled_of_check (s : State) (a : Action) (h : commitsSettledCheck s a = true) :
    commitsSettled s a := by
  cases a with
  | append =>
    simpa [commitsSettledCheck, commitsSettled] using h
  | clearStarts => cases h
  | endInput =>
    simpa [commitsSettledCheck, commitsSettled, List.isEmpty_iff] using h
  | _ => trivial

def twoTurnsRun : List Action :=
  [.append [1, 0] 0 none true, .commit, .pumpTurn, .processReturns 1 true true, .pumpTurn,
    .commitReturns, .append [2, 0] 1 none true, .commit, .pumpTurn, .processReturns 1 true true,
    .endInput true, .pumpTurn, .commitReturns, .pumpTurn, .processReturns 0 true true]

theorem commits_kept_two_turns : ∃ s, (runtime turnBased).Reaches commitsSettled s ∧
    s.isOpen = true ∧ (s.commits, s.commitCalls, s.drained.isSome) = ([1, 2], [1, 2], true) ∧
    CommitsKept s := by
  have hrun : ((runtime turnBased).execWhere commitsSettledCheck {} twoTurnsRun).map (fun s =>
      (s.isOpen, s.commits, s.commitCalls, s.drained.isSome)) =
      some (true, [1, 2], [1, 2], true) := by
    decide +kernel
  obtain ⟨s, hs, hobs⟩ := Option.map_eq_some_iff.mp hrun
  obtain ⟨hopen, hobs⟩ := Prod.mk.inj hobs
  have hreach : (runtime turnBased).Reaches commitsSettled s :=
    Machine.path_of_execWhere commitsSettled_of_check hs
  exact ⟨s, hreach, hopen, hobs, commits_kept hreach hopen⟩

def withoutClearCheck (_ : State) : Action → Bool
  | .clearStarts => false
  | _ => true

theorem withoutClear_of_check (s : State) (a : Action) (h : withoutClearCheck s a = true) :
    withoutClear s a := by
  cases a with
  | clearStarts => cases h
  | _ => trivial

/-- The audio of the next turn is appended before the pump gets to the commit. -/
def overtakenCommitRun : List Action :=
  [.append [1, 0] 0 none true, .commit, .append [2, 0] 1 none true, .pumpTurn,
    .processReturns 2 true true, .pumpTurn]

def lostCommitRun : List Action :=
  [.append [1, 0] 0 none true, .commit, .endInput true, .pumpTurn, .processReturns 1 true true]

/-- A commit is called after the audio that was appended behind it, and one before the end of the input
is not called at all. -/
theorem commits_lose_place : ∃ s t,
    (runtime turnBased).Reaches withoutClear s ∧ s.isOpen = true ∧
      (s.commits, s.commitCalls) = ([1], [2]) ∧ ¬ CommitsKept s ∧
    (runtime turnBased).Reaches withoutClear t ∧ t.isOpen = true ∧
      (t.commits, t.commitCalls, t.drained.isSome, t.pump matches .returned) =
        ([1], [], true, true) ∧ ¬ CommitsKept t := by
  have hrun : ((runtime turnBased).execWhere withoutClearCheck {} overtakenCommitRun).map (fun s =>
      (s.isOpen, s.commits, s.commitCalls)) = some (true, [1], [2]) := by
    decide +kernel
  have hrun' : ((runtime turnBased).execWhere withoutClearCheck {} lostCommitRun).map (fun s =>
      ((s.isOpen, s.pendingCommits), s.commits, s.commitCalls, s.drained.isSome,
        s.pump matches .returned)) = some ((true, 1), [1], [], true, true) := by
    decide +kernel
  obtain ⟨s, hs, hobs⟩ := Option.map_eq_some_iff.mp hrun
  obtain ⟨t, ht, hobs'⟩ := Option.map_eq_some_iff.mp hrun'
  obtain ⟨hopen, hobs⟩ := Prod.mk.inj hobs
  obtain ⟨hstate, hobs'⟩ := Prod.mk.inj hobs'
  obtain ⟨hopen', hpending⟩ := Prod.mk.inj hstate
  refine ⟨s, t, Machine.path_of_execWhere withoutClear_of_check hs, hopen, hobs, fun hkept => ?_,
    Machine.path_of_execWhere withoutClear_of_check ht, hopen', hobs', fun hkept => ?_⟩
  · obtain ⟨hcommits, hcalls⟩ := Prod.mk.inj hobs
    have hfront := hkept.calls
    rw [hcommits, hcalls] at hfront
    exact absurd hfront (by decide)
  · have hnone : t.pendingCommits = 0 := by
      refine hkept.returns ?_
      obtain ⟨-, hobs'⟩ := Prod.mk.inj hobs'
      obtain ⟨-, hobs'⟩ := Prod.mk.inj hobs'
      obtain ⟨-, hreturned⟩ := Prod.mk.inj hobs'
      revert hreturned
      cases t.pump with
      | returned => exact fun _ => rfl
      | _ => exact fun hf => by cases hf
    rw [hpending] at hnone
    cases hnone

end Realtime
