import SglangOmni.Realtime.Runtime

/-! What a step does to a session that is open after it: `step_move`. -/

namespace Realtime

open Lib

variable {cfg : Config} {s s' : State}

def State.accept (s : State) (pcm : List UInt8) : State :=
  { s with
    pendingPcm := s.pendingPcm ++ pcm
    acceptedSamples := s.acceptedSamples + pcm.length / bytesPerSample
    nextAppendSequence := s.nextAppendSequence + 1
    stream := s.stream ++ pcm
    inputReady := true }

def State.acceptImage (s : State) (unitIndex : Nat) (frame : Frame) : State :=
  { s with
    pendingFrames := Function.update s.pendingFrames unitIndex
      (s.pendingFrames unitIndex ++ [frame])
    acceptedImages := s.acceptedImages ++ [(unitIndex, frame)] }

def State.cleared (s : State) (clearedSamples : Nat) : State :=
  { (s.dropPending.endOpenUnit true).1 with
    discardedSamples := s.discardedSamples + clearedSamples }

def State.processed (s : State) (unit : MediaUnit) (receipt : Option MediaUnit) (consumed : Nat) :
    State :=
  { s with
    isUnitInFlight := false
    consumedSamples := s.consumedSamples + consumed
    discardedSamples := s.discardedSamples + (unit.realSamples - consumed)
    completed := s.completed ++ (s.dueReceipt receipt).toList
    clearedUnitReceipt := none }.afterUnit unit true

def State.noted (s : State) : State := { s with inputReady := false }

inductive Move (cfg : Config) (s : State) : Action → State → Prop
  | append {pcm : List UInt8} {sequence : Nat} {tStartMs : Option ℚ} {fits : Bool}
    (hlock : s.clearing = none) (hended : s.isInputEnded = false) (hne : pcm ≠ [])
    (heven : pcm.length % bytesPerSample = 0)
    (hroom : ((s.acceptedSamples : Int) - s.consumedSamples - s.discardedSamples) * bytesPerSample +
      pcm.length ≤ cfg.maxInputBytes) :
    Move cfg s (.append pcm sequence tStartMs fits) (s.accept pcm)
  | image {image : List UInt8} {tMs : ℚ} {fits : Bool} {unitIndex : Nat}
    (hlock : s.clearing = none) (hoffset : 0 ≤ s.unitOffset cfg tMs)
    (hat : unitIndex = s.nextUnitIndex + (s.unitOffset cfg tMs).toNat)
    (hroom : (s.pendingFrames unitIndex).length < cfg.maxFramesPerUnit) :
    Move cfg s (.appendImage image tMs fits)
      (s.acceptImage unitIndex { tMs := tMs, image := image, number := s.acceptedImages.length })
  | clearStarts (hlock : s.clearing = none) :
    Move cfg s .clearStarts { s with clearing := some s.pendingSamples }
  | clears {receiptFits fits : Bool} {clearedSamples : Nat}
    (hclearing : s.clearing = some clearedSamples) :
    Move cfg s (.clearEnds receiptFits fits) (s.cleared clearedSamples)
  | commit (hlock : s.clearing = none) (hended : s.isInputEnded = false) :
    Move cfg s .commit { s with
      pendingCommits := s.pendingCommits + 1
      inputReady := true
      commits := s.commits ++ [s.acceptedSamples] }
  | ends {fits : Bool} (hlock : s.clearing = none) (hended : s.isInputEnded = false) :
    Move cfg s (.endInput fits) { s with isInputEnded := true, inputReady := true }
  | idles (hpump : s.pump = .waiting) (hidle : s.pumpIdles cfg = true) :
    Move cfg s .pumpTurn s.noted
  | callsCommit (hlock : s.clearing = none) (hpump : s.pump = .waiting) (hpending : s.pendingPcm = [])
    (hcommits : 0 < s.pendingCommits) (hwhole : s.openUnitSamples = 0) :
    Move cfg s .pumpTurn s.noted.callCommit
  | cuts (hlock : s.clearing = none) (hpump : s.pump = .waiting) (hidle : s.pumpIdles cfg = false)
    (hcommit : s.pendingPcm = [] → s.openUnitSamples = 0 → s.pendingCommits = 0) :
    Move cfg s .pumpTurn (s.noted.cutNextUnit cfg)
  | processed {consumed : Nat} {receiptFits fits : Bool} {unit : MediaUnit}
    {receipt : Option MediaUnit} (hpump : s.pump = .processing unit receipt)
    (hle : consumed ≤ unit.realSamples) :
    Move cfg s (.processReturns consumed receiptFits fits) (s.processed unit receipt consumed)
  | commitReturns (hpump : s.pump = .committing) :
    Move cfg s .commitReturns { s with
      isUnitInFlight := false, inputReady := true, pump := .waiting }
  | close : Move cfg s .close { s with hasCloseTask := true }

theorem takesCommands_iff : s.takesCommands = true ↔ s.clearing = none ∧ s.phase = .isOpen := by
  simp [State.takesCommands]

theorem isOpen_iff : s.isOpen = true ↔ s.phase = .isOpen ∧ s.hasFailed = false := by
  simp [State.isOpen]

@[simp] theorem not_isOpen_fail (s : State) : s.fail.isOpen = false := by
  simp [State.isOpen, State.fail]

theorem fits_of_isOpen {fits : Bool} {t u : State} (h : (if fits then t else u.fail).isOpen = true) :
    fits = true := by
  cases fits with
  | true => rfl
  | false =>
    rw [if_neg Bool.false_ne_true, not_isOpen_fail] at h
    cases h

theorem append_move {pcm : List UInt8} {sequence : Nat} {tStartMs : Option ℚ} {fits : Bool}
    (hs : s.append cfg pcm sequence tStartMs fits = some s') (hopen : s'.isOpen = true) :
    s.isOpen = true ∧ Move cfg s (.append pcm sequence tStartMs fits) s' := by
  unfold State.append at hs
  simp only at hs
  split at hs
  · cases hs
  · next hok =>
    rw [not_or, not_not, Bool.not_eq_true] at hok
    obtain ⟨htakes, hrefuses⟩ := hok
    obtain ⟨hlock, -⟩ := takesCommands_iff.mp htakes
    simp only [State.refusesAppend, Bool.or_eq_false_iff, decide_eq_false_iff_not, not_not, not_lt]
      at hrefuses
    obtain ⟨⟨⟨⟨⟨hended, -⟩, hne⟩, heven⟩, -⟩, hroom⟩ := hrefuses
    cases hs
    obtain rfl := fits_of_isOpen hopen
    rw [if_pos rfl] at hopen ⊢
    exact ⟨hopen, .append hlock hended (by simpa using hne) heven hroom⟩

theorem appendImage_move {image : List UInt8} {tMs : ℚ} {fits : Bool}
    (hs : s.appendImage cfg image tMs fits = some s') (hopen : s'.isOpen = true) :
    s.isOpen = true ∧ Move cfg s (.appendImage image tMs fits) s' := by
  unfold State.appendImage at hs
  simp only at hs
  split at hs
  · cases hs
  · next hok =>
    rw [not_or, not_not, not_not] at hok
    obtain ⟨htakes, haccepts⟩ := hok
    obtain ⟨hlock, -⟩ := takesCommands_iff.mp htakes
    simp only [State.acceptsImage, Bool.and_eq_true, decide_eq_true_eq] at haccepts
    obtain ⟨⟨⟨-, hoffset⟩, hroom⟩, -⟩ := haccepts
    cases hs
    obtain rfl := fits_of_isOpen hopen
    rw [if_pos rfl] at hopen ⊢
    exact ⟨hopen, .image hlock hoffset rfl hroom⟩

theorem endOpenUnit_true {fits : Bool} {t : State} (h : s.endOpenUnit fits = (t, true)) :
    t = (s.endOpenUnit true).1 := by
  cases fits with
  | true => rw [h]
  | false =>
    unfold State.endOpenUnit at h ⊢
    split at h
    · next hnone =>
      rw [if_pos hnone]
      exact (Prod.mk.inj h).1.symm
    · next hsome =>
      rw [if_neg hsome]
      simp only at h ⊢
      split at h
      · next hflight =>
        rw [if_pos hflight]
        exact (Prod.mk.inj h).1.symm
      · split at h
        · next hfits => cases hfits
        · cases (Prod.mk.inj h).2

@[simp] theorem isOpen_dropPending (s : State) : s.dropPending.isOpen = s.isOpen := rfl

@[simp] theorem isOpen_endOpenUnit (s : State) (fits : Bool) :
    (s.endOpenUnit fits).1.isOpen = s.isOpen := by
  unfold State.endOpenUnit
  split
  · rfl
  · simp only
    split
    · rfl
    · split <;> rfl

theorem clearEnds_move {receiptFits fits : Bool} (hs : s.clearEnds receiptFits fits = some s')
    (hopen : s'.isOpen = true) :
    s.isOpen = true ∧ Move cfg s (.clearEnds receiptFits fits) s' := by
  unfold State.clearEnds at hs
  split at hs
  · cases hs
  · next clearedSamples hclearing =>
    split at hs
    · cases hs
      rw [not_isOpen_fail] at hopen
      cases hopen
    · next t ht =>
      simp only at hs
      have hdiscarded : t.discardedSamples = s.discardedSamples := by
        rw [endOpenUnit_true ht]
        unfold State.endOpenUnit
        split
        · rfl
        · simp only
          split <;> rfl
      have hsame : t = (s.dropPending.endOpenUnit true).1 := endOpenUnit_true ht
      cases hs
      obtain rfl := fits_of_isOpen hopen
      rw [if_pos rfl] at hopen ⊢
      refine ⟨?_, ?_⟩
      · have hopen' : t.isOpen = true := hopen
        rw [hsame, isOpen_endOpenUnit, isOpen_dropPending] at hopen'
        exact hopen'
      · have hmove : Move cfg s (.clearEnds receiptFits true) (s.cleared clearedSamples) :=
          .clears hclearing
        rw [State.cleared, ← hsame, ← hdiscarded] at hmove
        exact hmove

theorem commit_move (hs : s.commit cfg = some s') (hopen : s'.isOpen = true) :
    s.isOpen = true ∧ Move cfg s .commit s' := by
  unfold State.commit at hs
  split at hs
  · cases hs
  · next hok =>
    rw [not_or, not_or, not_not] at hok
    obtain ⟨htakes, -, hended⟩ := hok
    cases hs
    exact ⟨hopen, .commit (takesCommands_iff.mp htakes).1 (Bool.eq_false_iff.mpr hended)⟩

theorem endInput_move {fits : Bool} (hs : s.endInput cfg fits = some s') (hopen : s'.isOpen = true) :
    s.isOpen = true ∧ Move cfg s (.endInput fits) s' := by
  unfold State.endInput at hs
  simp only at hs
  split at hs
  · cases hs
  · next hok =>
    rw [not_or, not_or, not_not] at hok
    obtain ⟨htakes, hended, -⟩ := hok
    cases hs
    obtain rfl := fits_of_isOpen hopen
    rw [if_pos rfl] at hopen ⊢
    exact ⟨hopen, .ends (takesCommands_iff.mp htakes).1 (Bool.eq_false_iff.mpr hended)⟩

theorem isOpen_cutNextUnit (cfg : Config) (s : State) : (s.cutNextUnit cfg).isOpen = s.isOpen := by
  unfold State.cutNextUnit
  simp only
  split <;> rfl

theorem pumpTurn_move (hs : s.pumpTurn cfg = some s') (hopen : s'.isOpen = true) :
    s.isOpen = true ∧ Move cfg s .pumpTurn s' := by
  unfold State.pumpTurn at hs
  split at hs
  · next hpump =>
    split at hs
    · cases hs
    · next hok =>
      have hlock : s.clearing = none := Option.not_isSome_iff_eq_none.mp (not_or.mp hok).2
      cases hs
      have hidles : s.noted.pumpIdles cfg = s.pumpIdles cfg := rfl
      change (if s.noted.phase ≠ .isOpen then { s.noted with pump := .returned }
        else if s.noted.pumpIdles cfg then s.noted
        else if s.noted.pendingPcm.isEmpty && 0 < s.noted.pendingCommits &&
          s.noted.openUnitSamples = 0 then s.noted.callCommit
        else s.noted.cutNextUnit cfg : State).isOpen = true at hopen
      show s.isOpen = true ∧ Move cfg s .pumpTurn
        (if s.noted.phase ≠ .isOpen then { s.noted with pump := .returned }
        else if s.noted.pumpIdles cfg then s.noted
        else if s.noted.pendingPcm.isEmpty && 0 < s.noted.pendingCommits &&
          s.noted.openUnitSamples = 0 then s.noted.callCommit
        else s.noted.cutNextUnit cfg : State)
      split at hopen
      · next hphase => exact absurd (isOpen_iff.mp hopen).1 hphase
      · next hphase =>
        rw [if_neg hphase]
        split at hopen
        · next hidle =>
          rw [if_pos hidle]
          exact ⟨hopen, .idles hpump hidle⟩
        · next hidle =>
          rw [if_neg hidle]
          split at hopen
          · next hcommit =>
            rw [if_pos hcommit]
            simp only [Bool.and_eq_true, List.isEmpty_iff, decide_eq_true_eq] at hcommit
            exact ⟨hopen, .callsCommit hlock hpump hcommit.1.1 hcommit.1.2 hcommit.2⟩
          · next hcommit =>
            rw [if_neg hcommit]
            rw [isOpen_cutNextUnit] at hopen
            refine ⟨hopen, .cuts hlock hpump (Bool.eq_false_iff.mpr hidle) fun hpending hwhole => ?_⟩
            by_contra hne
            refine hcommit ?_
            simp only [Bool.and_eq_true, List.isEmpty_iff, decide_eq_true_eq]
            exact ⟨⟨hpending, Nat.pos_of_ne_zero hne⟩, hwhole⟩
  · cases hs

theorem isOpen_afterUnit {t : State} {unit : MediaUnit} {fits : Bool}
    (h : (t.afterUnit unit fits).isOpen = true) :
    t.isOpen = true ∧ t.afterUnit unit fits = t.afterUnit unit true := by
  unfold State.afterUnit at h ⊢
  split at h
  · next heos =>
    rw [if_pos heos, if_pos heos]
    exact ⟨h, rfl⟩
  · next heos =>
    rw [if_neg heos, if_neg heos]
    split at h
    · next hclose =>
      rw [if_pos hclose, if_pos hclose]
      exact ⟨h, rfl⟩
    · next hclose =>
      rw [if_neg hclose, if_neg hclose]
      split at h
      · cases (isOpen_iff.mp h).2
      · next hfits =>
        rw [if_neg hfits, if_neg (by decide)]
        exact ⟨h, rfl⟩

theorem processReturns_move {consumed : Nat} {receiptFits fits : Bool}
    (hs : s.processReturns consumed receiptFits fits = some s') (hopen : s'.isOpen = true) :
    s.isOpen = true ∧ Move cfg s (.processReturns consumed receiptFits fits) s' := by
  unfold State.processReturns at hs
  split at hs
  · next unit receipt hpump =>
    split at hs
    · cases hs
    · next hle =>
      simp only [Option.some.injEq] at hs
      subst hs
      split at hopen
      · cases (isOpen_iff.mp hopen).2
      · next hroom =>
        rw [if_neg hroom]
        split at hopen
        · cases (isOpen_iff.mp hopen).2
        · next hfits =>
          rw [if_neg hfits]
          obtain ⟨hopen', hsame⟩ := isOpen_afterUnit hopen
          rw [hsame]
          exact ⟨hopen', .processed hpump (Nat.not_lt.mp hle)⟩
  · cases hs

theorem step_move {a : Action} (hs : s.step cfg a = some s') (hopen : s'.isOpen = true) :
    s.isOpen = true ∧ Move cfg s a s' := by
  cases a with
  | append pcm sequence tStartMs fits => exact append_move hs hopen
  | appendImage image tMs fits => exact appendImage_move hs hopen
  | clearStarts =>
    simp only [State.step, State.clearStarts] at hs
    split at hs
    · next htakes =>
      cases hs
      exact ⟨hopen, .clearStarts (takesCommands_iff.mp htakes).1⟩
    · cases hs
  | clearEnds receiptFits fits => exact clearEnds_move hs hopen
  | clearRaises =>
    simp only [State.step] at hs
    split at hs
    · cases hs
      cases (isOpen_iff.mp hopen).2
    · cases hs
  | commit => exact commit_move hs hopen
  | endInput fits => exact endInput_move hs hopen
  | pumpTurn => exact pumpTurn_move hs hopen
  | processReturns consumed receiptFits fits => exact processReturns_move hs hopen
  | commitReturns =>
    simp only [State.step, State.commitReturns] at hs
    split at hs
    · next hpump =>
      cases hs
      exact ⟨hopen, .commitReturns hpump⟩
    · cases hs
  | adapterRaises =>
    simp only [State.step, State.adapterRaises] at hs
    split at hs
    · cases hs
      cases (isOpen_iff.mp hopen).2
    · cases hs
      cases (isOpen_iff.mp hopen).2
    · cases hs
  | fail =>
    cases hs
    cases (isOpen_iff.mp hopen).2
  | close =>
    cases hs
    exact ⟨hopen, .close⟩
  | expire =>
    simp only [State.step, State.expire] at hs
    split at hs
    · cases hs
      cases (isOpen_iff.mp hopen).2
    · cases hs
  | closeRuns =>
    simp only [State.step, State.closeRuns] at hs
    split at hs
    · cases hs
    · cases hs
      cases (isOpen_iff.mp hopen).1
  | pumpCancelled =>
    simp only [State.step, State.pumpCancelled] at hs
    split at hs
    · next hrunning =>
      cases hs
      cases hrunning.2.symm.trans (isOpen_iff.mp hopen).1
    · cases hs

end Realtime
