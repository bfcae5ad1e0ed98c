import SglangOmni.Realtime.Samples

/-! The pieces of units.  A session that forwards partial units hands a unit over in pieces; every piece
has the index of the unit under way, and a unit of which nothing was handed over has no piece. -/

namespace Realtime

open Lib

variable {cfg : Config} {s s' : State}

/-- The pieces that were handed over belong to the units up to the one under way, which is short of a
native unit. -/
structure PiecesKept (cfg : Config) (s : State) : Prop where
  bounded : ∀ u ∈ s.handed, u.index ≤ s.nextUnitIndex
  fresh : s.openUnitSamples = 0 → ∀ u ∈ s.handed, u.index ≠ s.nextUnitIndex
  short : s.openUnitSamples * bytesPerSample < cfg.nativeUnitBytes

theorem nativeUnitBytes_pos (cfg : Config) : 0 < cfg.nativeUnitBytes := by
  have hpos := Nat.mul_pos cfg.rate_pos cfg.unit_pos
  have hwhole := cfg.whole_samples
  simp only [Config.nativeUnitBytes, Config.nativeUnitSamples, bytesPerSample]
  omega

theorem PiecesKept.frame (h : PiecesKept cfg s) (hhanded : s'.handed = s.handed)
    (hnext : s'.nextUnitIndex = s.nextUnitIndex)
    (hsamples : s'.openUnitSamples = s.openUnitSamples) : PiecesKept cfg s' := by
  constructor
  · rw [hhanded, hnext]
    exact h.bounded
  · rw [hsamples, hhanded, hnext]
    exact h.fresh
  · rw [hsamples]
    exact h.short

theorem PiecesKept.close (hbounded : ∀ u ∈ s'.handed, u.index < s'.nextUnitIndex)
    (hsamples : s'.openUnitSamples = 0) : PiecesKept cfg s' := by
  refine ⟨fun u hu => (hbounded u hu).le, fun _ u hu => (hbounded u hu).ne, ?_⟩
  rw [hsamples, Nat.zero_mul]
  exact nativeUnitBytes_pos cfg

/-! ### Cuts -/

theorem handed_cut (cfg : Config) (s : State) :
    (s.noted.cutNextUnit cfg).handed = s.handed ++ [s.nextUnit cfg] := by
  obtain ⟨index, samples, start, receipt, heq⟩ := cutNextUnit_eq cfg s.noted
  rw [heq]
  exact handed_unit s _

theorem cutNextUnit_ends (hends : s.endsUnit cfg = true) :
    s.noted.cutNextUnit cfg = { s.noted with
      pendingPcm := s.pendingPcm.drop (s.unitPcmBytes cfg)
      paddingSamples := s.paddingSamples + s.paddingBytes cfg / bytesPerSample
      pendingFrames := Function.update s.pendingFrames s.nextUnitIndex []
      taken := s.taken ++ [Taken.unit (s.nextUnit cfg)]
      isUnitInFlight := true
      nextUnitIndex := s.nextUnitIndex + 1
      openUnitSamples := 0
      pump := .processing (s.nextUnit cfg) (some (s.nextReceipt cfg)) } :=
  if_pos hends

theorem cutNextUnit_open (hends : s.endsUnit cfg ≠ true) :
    s.noted.cutNextUnit cfg = { s.noted with
      pendingPcm := s.pendingPcm.drop (s.unitPcmBytes cfg)
      paddingSamples := s.paddingSamples + s.paddingBytes cfg / bytesPerSample
      pendingFrames := Function.update s.pendingFrames s.nextUnitIndex []
      taken := s.taken ++ [Taken.unit (s.nextUnit cfg)]
      isUnitInFlight := true
      openUnitStartSample := s.unitStartSample
      openUnitSamples := s.unitSamples cfg
      pump := .processing (s.nextUnit cfg) none } :=
  if_neg hends

theorem PiecesKept.unitSamples_open (h : PiecesKept cfg s) (hsamples : SamplesKept cfg s)
    (hidle : s.pumpIdles cfg = false) (hends : s.endsUnit cfg ≠ true) :
    s.unitSamples cfg ≠ 0 ∧ s.unitSamples cfg * bytesPerSample < cfg.nativeUnitBytes := by
  have hshort := h.short
  have heven := unitPcmBytes_even cfg hsamples.whole
  have hwhole := hsamples.whole
  have hreal : (s.nextUnit cfg).realSamples = s.unitPcmBytes cfg / bytesPerSample := rfl
  have heos : (s.nextUnit cfg).eos =
    (s.isInputEnded && (s.pendingPcm.drop (s.unitPcmBytes cfg)).isEmpty) := rfl
  replace hends := Bool.eq_false_iff.mpr hends
  simp only [State.endsUnit, Bool.or_eq_false_iff, Bool.not_eq_false', decide_eq_false_iff_not,
    Bool.and_eq_false_imp, decide_eq_true_eq, State.unitSamples, hreal, heos] at hends
  obtain ⟨⟨⟨hnotFull, hfull⟩, hnotEos⟩, hnotCommit⟩ := hends
  have hpending : s.pendingPcm ≠ [] := by
    intro hnil
    have hempty : (s.pendingPcm.drop (s.unitPcmBytes cfg)).isEmpty = true := by
      rw [hnil, List.drop_nil]
      rfl
    have hnotEnded : s.isInputEnded = false := by
      by_contra he
      cases hempty.symm.trans (hnotEos (Bool.not_eq_false _ ▸ he))
    have hnotCommits : s.pendingCommits = 0 := by
      by_contra hne
      cases hempty.symm.trans (hnotCommit (Nat.pos_of_ne_zero hne))
    simp [State.pumpIdles, hnotEnded, hnotCommits, hnotFull, hnil] at hidle
  have hlength : 0 < s.pendingPcm.length := List.length_pos_iff.mpr hpending
  simp only [State.unitSamples, hreal]
  simp only [State.unitPcmBytes, Config.nativeUnitBytes, bytesPerSample] at *
  omega

theorem PiecesKept.cut (h : PiecesKept cfg s) (hsamples : SamplesKept cfg s)
    (hidle : s.pumpIdles cfg = false) : PiecesKept cfg (s.noted.cutNextUnit cfg) := by
  have hhanded := handed_cut cfg s
  have hbounded : ∀ u ∈ s.handed ++ [s.nextUnit cfg], u.index ≤ s.nextUnitIndex := by
    intro u hu
    rcases List.mem_append.mp hu with hu | hu
    · exact h.bounded u hu
    · rw [List.mem_singleton.mp hu]
      exact Nat.le_refl _
  by_cases hends : s.endsUnit cfg = true
  · rw [cutNextUnit_ends hends] at hhanded ⊢
    refine .close (fun u hu => ?_) rfl
    rw [hhanded] at hu
    exact Nat.lt_succ_of_le (hbounded u hu)
  · obtain ⟨hpos, hshort⟩ := h.unitSamples_open hsamples hidle hends
    rw [cutNextUnit_open hends] at hhanded ⊢
    refine ⟨?_, fun hzero => absurd hzero hpos, hshort⟩
    rw [hhanded]
    exact hbounded

/-! ### Clears and whole runs -/

theorem handed_after_clear (s : State) (clearedSamples : Nat) :
    (s.cleared clearedSamples).handed = s.handed := by
  obtain ⟨index, samples, receipt, completed, heq⟩ := cleared_eq s clearedSamples
  rw [heq]
  exact handed_cleared s _ _

theorem cleared_unit (s : State) (clearedSamples : Nat) :
    (s.openUnitSamples = 0 ∧ (s.cleared clearedSamples).nextUnitIndex = s.nextUnitIndex ∧
      (s.cleared clearedSamples).openUnitSamples = 0) ∨
    (s.openUnitSamples ≠ 0 ∧ (s.cleared clearedSamples).nextUnitIndex = s.nextUnitIndex + 1 ∧
      (s.cleared clearedSamples).openUnitSamples = 0) := by
  unfold State.cleared State.endOpenUnit
  split
  · next hwhole => exact .inl ⟨hwhole, rfl, hwhole⟩
  · next hopen =>
    refine .inr ⟨hopen, ?_⟩
    simp only
    split
    · exact ⟨rfl, rfl⟩
    · exact ⟨rfl, rfl⟩

theorem PiecesKept.cleared (h : PiecesKept cfg s) (clearedSamples : Nat) :
    PiecesKept cfg (s.cleared clearedSamples) := by
  have hhanded := handed_after_clear s clearedSamples
  rcases cleared_unit s clearedSamples with ⟨hwhole, hnext, hsamples⟩ | ⟨-, hnext, hsamples⟩
  · exact h.frame hhanded hnext (hsamples.trans hwhole.symm)
  · refine .close (fun u hu => ?_) hsamples
    rw [hhanded] at hu
    rw [hnext]
    exact Nat.lt_succ_of_le (h.bounded u hu)

theorem PiecesKept.move {a : Action} (h : PiecesKept cfg s) (hsamples : SamplesKept cfg s)
    (hmove : Move cfg s a s') : PiecesKept cfg s' := by
  cases hmove with
  | clears => exact h.cleared _
  | cuts _ _ hidle => exact h.cut hsamples hidle
  | @processed consumed _ _ unit receipt =>
    rcases processed_cases s unit receipt consumed with ⟨-, heq⟩ | ⟨-, -, heq⟩ | ⟨-, heq⟩
    · rw [heq]
      exact h.frame rfl rfl rfl
    · rw [heq]
      exact h.frame rfl rfl rfl
    · rw [heq]
      exact h.frame rfl rfl rfl
  | _ => exact h.frame rfl rfl rfl

theorem piecesKept_init (cfg : Config) : PiecesKept cfg {} := by
  refine .close (fun u hu => ?_) rfl
  cases hu

end Realtime
