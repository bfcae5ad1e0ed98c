import SglangOmni.Realtime.Pieces

/-! The images of an open session.  An accepted image waits in the bucket of its unit, and every piece of
the unit takes what the bucket holds.  The limit of frames per unit is checked against the bucket alone:
it holds for the unit as long as no image is accepted for a unit under way that has its frames already. -/

namespace Realtime

open Lib

variable {cfg : Config} {s s' : State} {k : Nat} {f : Frame}

def State.unitImages (s : State) (k : Nat) : List Frame :=
  (s.handed.filter fun u => u.index = k).flatMap MediaUnit.images

/-- An image for the unit under way is accepted only while the images of its pieces and of its bucket are
fewer than the limit. -/
def framesFit (cfg : Config) (s : State) : Action → Prop
  | .appendImage _ tMs _ => s.openUnitSamples ≠ 0 → s.unitOffset cfg tMs = 0 →
      (s.unitImages s.nextUnitIndex).length + (s.pendingFrames s.nextUnitIndex).length <
        cfg.maxFramesPerUnit
  | _ => True

/-- The images of a unit are accepted images that named it, each once and no more than the limit; those
of a unit that is over were handed over, or dropped by a clear. -/
structure ImagesHanded (cfg : Config) (s : State) : Prop where
  named : ∀ k, ∀ f ∈ s.unitImages k, s.acceptedImages[f.number]? = some (k, f)
  once : ∀ k, ((s.unitImages k).map Frame.number).Nodup
  limit : ∀ k, (s.unitImages k).length ≤ cfg.maxFramesPerUnit
  all : ∀ k f, (k, f) ∈ s.acceptedImages → k < s.nextUnitIndex →
    f ∈ s.unitImages k ∨ (k, f) ∈ s.droppedImages

structure ImagesKept (s : State) : Prop where
  named : ∀ k, ∀ f ∈ s.unitImages k ++ s.pendingFrames k, s.acceptedImages[f.number]? = some (k, f)
  once : ∀ k, ((s.unitImages k ++ s.pendingFrames k).map Frame.number).Nodup
  ahead : ∀ k, ∀ f ∈ s.pendingFrames k, s.nextUnitIndex ≤ k
  all : ∀ k f, (k, f) ∈ s.acceptedImages →
    f ∈ s.unitImages k ++ s.pendingFrames k ∨ (k, f) ∈ s.droppedImages

def LimitKept (cfg : Config) (s : State) : Prop :=
  ∀ k, (s.unitImages k ++ s.pendingFrames k).length ≤ cfg.maxFramesPerUnit

theorem unitImages_congr (htaken : s'.taken = s.taken) (k : Nat) : s'.unitImages k = s.unitImages k := by
  rw [State.unitImages, State.handed, htaken, State.unitImages, State.handed]

/-! ### Accepted images -/

theorem ImagesKept.acceptImage (h : ImagesKept s) {unitIndex : Nat}
    (hindex : s.nextUnitIndex ≤ unitIndex) (hnumber : f.number = s.acceptedImages.length) :
    ImagesKept (s.acceptImage unitIndex f) := by
  have hold : ∀ k, ∀ g ∈ s.unitImages k ++ s.pendingFrames k, g.number < s.acceptedImages.length :=
    fun k g hg => (List.getElem?_eq_some_iff.mp (h.named k g hg)).1
  have hbucket : ∀ k, s.unitImages k ++ (s.acceptImage unitIndex f).pendingFrames k =
      (s.unitImages k ++ s.pendingFrames k) ++ if k = unitIndex then [f] else [] := by
    intro k
    show s.unitImages k ++ Function.update s.pendingFrames unitIndex _ k = _
    by_cases hk : k = unitIndex
    · subst hk
      rw [Function.update_self, if_pos rfl, List.append_assoc]
    · rw [Function.update_of_ne hk, if_neg hk, List.append_nil]
  have hnew : ∀ {k : Nat} {g : Frame}, g ∈ (if k = unitIndex then [f] else []) →
      k = unitIndex ∧ g = f := by
    intro k g hg
    split at hg
    · next hk => exact ⟨hk, List.mem_singleton.mp hg⟩
    · cases hg
  refine ⟨fun k g hg => ?_, fun k => ?_, fun k g hg => ?_, fun k g hg => ?_⟩
  · change g ∈ s.unitImages k ++ (s.acceptImage unitIndex f).pendingFrames k at hg
    show (s.acceptedImages ++ [(unitIndex, f)])[g.number]? = some (k, g)
    rw [hbucket] at hg
    rcases List.mem_append.mp hg with hg | hg
    · rw [List.getElem?_append_left (hold k g hg)]
      exact h.named k g hg
    · obtain ⟨rfl, rfl⟩ := hnew hg
      rw [hnumber, List.getElem?_concat_length]
  · show ((s.unitImages k ++ (s.acceptImage unitIndex f).pendingFrames k).map Frame.number).Nodup
    rw [hbucket, List.map_append]
    refine List.nodup_append.mpr ⟨h.once k, ?_, fun n hn m hm heq => ?_⟩
    · split
      · exact List.pairwise_singleton _ _
      · exact List.nodup_nil
    · obtain ⟨g, hg, rfl⟩ := List.mem_map.mp hn
      obtain ⟨g', hg', rfl⟩ := List.mem_map.mp hm
      obtain ⟨-, rfl⟩ := hnew hg'
      have hlt := hold k g hg
      omega
  · change g ∈ Function.update s.pendingFrames unitIndex _ k at hg
    by_cases hk : k = unitIndex
    · rw [hk]
      exact hindex
    · rw [Function.update_of_ne hk] at hg
      exact h.ahead k g hg
  · show g ∈ s.unitImages k ++ (s.acceptImage unitIndex f).pendingFrames k ∨ (k, g) ∈ s.droppedImages
    rw [hbucket]
    have hg : (k, g) ∈ s.acceptedImages ++ [(unitIndex, f)] := hg
    rcases List.mem_append.mp hg with hg | hg
    · exact (h.all k g hg).imp_left (List.mem_append_left _)
    · obtain ⟨rfl, rfl⟩ := Prod.mk.inj (List.mem_singleton.mp hg)
      rw [if_pos rfl]
      exact .inl (List.mem_append_right _ (List.mem_singleton.mpr rfl))

theorem LimitKept.acceptImage (h : LimitKept cfg s) {unitIndex : Nat}
    (hroom : (s.unitImages unitIndex ++ s.pendingFrames unitIndex).length < cfg.maxFramesPerUnit) :
    LimitKept cfg (s.acceptImage unitIndex f) := by
  intro k
  show (s.unitImages k ++ Function.update s.pendingFrames unitIndex _ k).length ≤ _
  by_cases hk : k = unitIndex
  · subst hk
    rw [Function.update_self, ← List.append_assoc, List.length_append]
    exact hroom
  · rw [Function.update_of_ne hk]
    exact h k

theorem PiecesKept.unitImages_nil (h : PiecesKept cfg s) (hindex : s.nextUnitIndex ≤ k)
    (hfresh : s.openUnitSamples = 0 ∨ k ≠ s.nextUnitIndex) : s.unitImages k = [] := by
  have hnone : s.handed.filter (fun u => u.index = k) = [] := by
    refine List.filter_eq_nil_iff.mpr fun u hu he => ?_
    have hle := h.bounded u hu
    have hk := of_decide_eq_true he
    rcases hfresh with hwhole | hne
    · have hne := h.fresh hwhole u hu
      omega
    · omega
  rw [State.unitImages, hnone]
  rfl

/-! ### Cuts -/

theorem unitImages_cut (cfg : Config) (s : State) (k : Nat) :
    (s.noted.cutNextUnit cfg).unitImages k =
      s.unitImages k ++ if k = s.nextUnitIndex then (s.nextUnit cfg).images else [] := by
  have hindex : (s.nextUnit cfg).index = s.nextUnitIndex := rfl
  rw [State.unitImages, handed_cut, List.filter_append, List.flatMap_append, List.filter_singleton,
    hindex]
  by_cases hk : s.nextUnitIndex = k
  · rw [decide_eq_true hk, cond_true, if_pos hk.symm]
    exact congrArg (s.unitImages k ++ ·) (List.append_nil _)
  · rw [decide_eq_false hk, cond_false, if_neg (Ne.symm hk)]
    rfl

theorem images_cut (cfg : Config) (s : State) (k : Nat) :
    ((s.noted.cutNextUnit cfg).unitImages k ++ (s.noted.cutNextUnit cfg).pendingFrames k).Perm
      (s.unitImages k ++ s.pendingFrames k) := by
  have hframes : (s.noted.cutNextUnit cfg).pendingFrames =
      Function.update s.pendingFrames s.nextUnitIndex [] := by
    obtain ⟨index, samples, start, receipt, heq⟩ := cutNextUnit_eq cfg s.noted
    rw [heq]
    rfl
  rw [unitImages_cut, hframes]
  by_cases hk : k = s.nextUnitIndex
  · subst hk
    rw [if_pos rfl, Function.update_self, List.append_nil]
    exact (List.mergeSort_perm _ _).append_left _
  · rw [if_neg hk, Function.update_of_ne hk, List.append_nil]

theorem ImagesKept.cut (h : ImagesKept s) : ImagesKept (s.noted.cutNextUnit cfg) := by
  obtain ⟨index, samples, start, receipt, heq⟩ := cutNextUnit_eq cfg s.noted
  have haccepted : (s.noted.cutNextUnit cfg).acceptedImages = s.acceptedImages := by
    rw [heq]
    rfl
  have hdropped : (s.noted.cutNextUnit cfg).droppedImages = s.droppedImages := by
    rw [heq]
    rfl
  have hnext : (s.noted.cutNextUnit cfg).nextUnitIndex ≤ s.nextUnitIndex + 1 := by
    by_cases hends : s.endsUnit cfg = true
    · rw [cutNextUnit_ends hends]
    · rw [cutNextUnit_open hends]
      exact Nat.le_succ _
  refine ⟨fun k f hf => ?_, fun k => ?_, fun k f hf => ?_, fun k f hf => ?_⟩
  · rw [haccepted]
    exact h.named k f ((images_cut cfg s k).mem_iff.mp hf)
  · exact ((images_cut cfg s k).map Frame.number).nodup_iff.mpr (h.once k)
  · rw [heq] at hf
    change f ∈ Function.update s.pendingFrames s.nextUnitIndex [] k at hf
    by_cases hk : k = s.nextUnitIndex
    · rw [hk, Function.update_self] at hf
      cases hf
    · rw [Function.update_of_ne hk] at hf
      have hle := h.ahead k f hf
      omega
  · rw [haccepted] at hf
    rw [hdropped]
    exact (h.all k f hf).imp_left (images_cut cfg s k).mem_iff.mpr

theorem LimitKept.cut (h : LimitKept cfg s) : LimitKept cfg (s.noted.cutNextUnit cfg) := by
  intro k
  rw [(images_cut cfg s k).length_eq]
  exact h k

/-! ### Clears -/

theorem ImagesKept.cleared (h : ImagesKept s) (clearedSamples : Nat) :
    ImagesKept (s.cleared clearedSamples) := by
  obtain ⟨index, samples, receipt, completed, heq⟩ := cleared_eq s clearedSamples
  have hunit : ∀ k, (s.cleared clearedSamples).unitImages k = s.unitImages k := by
    intro k
    rw [State.unitImages, handed_after_clear, State.unitImages]
  have himages : ∀ k, (s.cleared clearedSamples).unitImages k ++
      (s.cleared clearedSamples).pendingFrames k = s.unitImages k := by
    intro k
    rw [hunit, heq]
    exact List.append_nil _
  refine ⟨fun k f hf => ?_, fun k => ?_, fun k f hf => ?_, fun k f hf => ?_⟩
  · rw [himages] at hf
    rw [heq]
    exact h.named k f (List.mem_append_left _ hf)
  · rw [himages]
    exact (h.once k).sublist ((List.sublist_append_left _ _).map _)
  · rw [heq] at hf
    cases hf
  · have hf : (k, f) ∈ s.acceptedImages := by
      rw [heq] at hf
      exact hf
    rw [himages, heq]
    show f ∈ s.unitImages k ∨ (k, f) ∈ s.droppedImages ++ s.waitingImages
    rcases h.all k f hf with himage | hdropped
    · rcases List.mem_append.mp himage with himage | hwaiting
      · exact .inl himage
      · refine .inr (List.mem_append_right _ (List.mem_filter.mpr ⟨hf, ?_⟩))
        exact List.any_eq_true.mpr ⟨f, hwaiting, decide_eq_true rfl⟩
    · exact .inr (List.mem_append_left _ hdropped)

theorem LimitKept.cleared (h : LimitKept cfg s) (clearedSamples : Nat) :
    LimitKept cfg (s.cleared clearedSamples) := by
  intro k
  obtain ⟨index, samples, receipt, completed, heq⟩ := cleared_eq s clearedSamples
  rw [State.unitImages, handed_after_clear, heq]
  refine Nat.le_trans ?_ (h k)
  rw [List.length_append, List.length_append]
  exact Nat.le_add_right _ _

/-! ### Whole runs -/

theorem ImagesKept.frame (h : ImagesKept s) (htaken : s'.taken = s.taken)
    (hframes : s'.pendingFrames = s.pendingFrames) (hnext : s'.nextUnitIndex = s.nextUnitIndex)
    (haccepted : s'.acceptedImages = s.acceptedImages)
    (hdropped : s'.droppedImages = s.droppedImages) : ImagesKept s' := by
  have hunit : s'.unitImages = s.unitImages := funext (unitImages_congr htaken)
  constructor
  · rw [hunit, hframes, haccepted]
    exact h.named
  · rw [hunit, hframes]
    exact h.once
  · rw [hframes, hnext]
    exact h.ahead
  · rw [hunit, hframes, haccepted, hdropped]
    exact h.all

theorem LimitKept.frame (h : LimitKept cfg s) (htaken : s'.taken = s.taken)
    (hframes : s'.pendingFrames = s.pendingFrames) : LimitKept cfg s' := by
  intro k
  rw [unitImages_congr htaken, hframes]
  exact h k

theorem ImagesKept.move {a : Action} (h : ImagesKept s) (hmove : Move cfg s a s') :
    ImagesKept s' := by
  cases hmove with
  | image _ _ hat =>
    refine h.acceptImage ?_ rfl
    rw [hat]
    exact Nat.le_add_right _ _
  | clears => exact h.cleared _
  | cuts => exact h.cut
  | @processed consumed _ _ unit receipt =>
    rcases processed_cases s unit receipt consumed with ⟨-, heq⟩ | ⟨-, -, heq⟩ | ⟨-, heq⟩
    · rw [heq]
      exact h.frame rfl rfl rfl rfl rfl
    · rw [heq]
      exact h.frame rfl rfl rfl rfl rfl
    · rw [heq]
      exact h.frame rfl rfl rfl rfl rfl
  | _ => exact h.frame rfl rfl rfl rfl rfl

theorem LimitKept.move {a : Action} (h : LimitKept cfg s) (hpieces : PiecesKept cfg s)
    (ha : framesFit cfg s a) (hmove : Move cfg s a s') : LimitKept cfg s' := by
  cases hmove with
  | @image image tMs fits unitIndex _ hoffset hat hroom =>
    refine h.acceptImage ?_
    have hindex : s.nextUnitIndex ≤ unitIndex := by
      rw [hat]
      exact Nat.le_add_right _ _
    by_cases hwhole : s.openUnitSamples = 0
    · rw [hpieces.unitImages_nil hindex (.inl hwhole)]
      exact hroom
    · by_cases hnext : unitIndex = s.nextUnitIndex
      · rw [hnext, List.length_append]
        exact ha hwhole (by omega)
      · rw [hpieces.unitImages_nil hindex (.inr hnext)]
        exact hroom
  | clears => exact h.cleared _
  | cuts => exact h.cut
  | @processed consumed _ _ unit receipt =>
    rcases processed_cases s unit receipt consumed with ⟨-, heq⟩ | ⟨-, -, heq⟩ | ⟨-, heq⟩
    · rw [heq]
      exact h.frame rfl rfl
    · rw [heq]
      exact h.frame rfl rfl
    · rw [heq]
      exact h.frame rfl rfl
  | _ => exact h.frame rfl rfl

theorem imagesKept_of_reaches (h : (runtime cfg).Reaches (framesFit cfg) s) (hopen : s.isOpen = true) :
    ImagesKept s ∧ LimitKept cfg s := by
  refine (h.invariant (P := fun s => s.isOpen = true →
    (SamplesKept cfg s ∧ PiecesKept cfg s) ∧ ImagesKept s ∧ LimitKept cfg s) ?_ ?_ hopen).2
  · intro hinit
    refine ⟨⟨samplesKept_of_reaches (Machine.Path.refl _) hinit, piecesKept_init cfg⟩,
      ⟨fun k f hf => ?_, fun k => List.nodup_nil, fun k f hf => ?_, fun k f hf => ?_⟩,
      fun k => Nat.zero_le _⟩
    · cases hf
    · cases hf
    · cases hf
  · intro s a s' hs ha hstep hopen'
    obtain ⟨hopen, hmove⟩ := step_move hstep hopen'
    obtain ⟨⟨hsamples, hpieces⟩, himages, hlimit⟩ := hs hopen
    exact ⟨⟨hsamples.move hmove, hpieces.move hsamples hmove⟩, himages.move hmove,
      hlimit.move hpieces ha hmove⟩

/-- In every run in which an image for the unit under way is accepted only while the images of its pieces
and of its bucket are fewer than the limit, the images of each unit are accepted images that named it,
each once and within the limit, and none of a unit that is over is missing. -/
theorem images_handed (h : (runtime cfg).Reaches (framesFit cfg) s) (hopen : s.isOpen = true) :
    ImagesHanded cfg s := by
  obtain ⟨himages, hlimit⟩ := imagesKept_of_reaches h hopen
  refine ⟨fun k f hf => himages.named k f (List.mem_append_left _ hf), fun k => ?_, fun k => ?_,
    fun k f hf hover => ?_⟩
  · exact (himages.once k).sublist ((List.sublist_append_left _ _).map _)
  · have hle := hlimit k
    rw [List.length_append] at hle
    exact (Nat.le_add_right _ _).trans hle
  · rcases himages.all k f hf with himage | hdropped
    · rcases List.mem_append.mp himage with himage | hwaiting
      · exact .inl himage
      · exact absurd (himages.ahead k f hwaiting) (Nat.not_le.mpr hover)
    · exact .inr hdropped

def framesFitCheck (cfg : Config) (s : State) : Action → Bool
  | .appendImage _ tMs _ => s.openUnitSamples = 0 || s.unitOffset cfg tMs ≠ 0 ||
      (s.unitImages s.nextUnitIndex).length + (s.pendingFrames s.nextUnitIndex).length <
        cfg.maxFramesPerUnit
  | _ => true

theorem framesFit_of_check (cfg : Config) (s : State) (a : Action)
    (h : framesFitCheck cfg s a = true) : framesFit cfg s a := by
  cases a with
  | appendImage image tMs fits =>
    intro hopen hoffset
    simp only [framesFitCheck, Bool.or_eq_true, decide_eq_true_eq] at h
    rcases h with (hwhole | hne) | hlt
    · exact absurd hwhole hopen
    · exact absurd hoffset hne
    · exact hlt
  | _ => trivial

/-- Two units, each with one image, the second with a piece before its image. -/
def imageRun : List Action :=
  [.append [1, 0, 2, 0] 0 none true, .appendImage [0xff, 0xd8] 0 true, .pumpTurn,
    .processReturns 2 true true, .append [3, 0, 4, 0, 5, 0] 1 none true, .pumpTurn,
    .processReturns 2 true true, .pumpTurn, .processReturns 1 true true,
    .appendImage [0xff, 0xd8] 5 true, .append [6, 0] 2 none true, .pumpTurn]

theorem images_handed_two_units : ∃ s, (runtime turnBased).Reaches (framesFit turnBased) s ∧
    s.isOpen = true ∧ s.acceptedImages.map Prod.fst = [0, 1] ∧
    (s.unitImages 0).length = 1 ∧ (s.unitImages 1).length = 1 ∧ ImagesHanded turnBased s := by
  have hrun : ((runtime turnBased).execWhere (framesFitCheck turnBased) {} imageRun).map (fun s =>
      (s.isOpen, s.acceptedImages.map Prod.fst, (s.unitImages 0).length, (s.unitImages 1).length)) =
      some (true, [0, 1], 1, 1) := by
    decide +kernel
  obtain ⟨s, hs, hobs⟩ := Option.map_eq_some_iff.mp hrun
  obtain ⟨hopen, hobs⟩ := Prod.mk.inj hobs
  obtain ⟨haccepted, hobs⟩ := Prod.mk.inj hobs
  obtain ⟨hfirst, hsecond⟩ := Prod.mk.inj hobs
  have hreach : (runtime turnBased).Reaches (framesFit turnBased) s :=
    Machine.path_of_execWhere (framesFit_of_check turnBased) hs
  exact ⟨s, hreach, hopen, haccepted, hfirst, hsecond, images_handed hreach hopen⟩

def secondImageRun : List Action :=
  [.append [1, 0] 0 none true, .appendImage [0xff, 0xd8] 0 true, .pumpTurn,
    .processReturns 1 true true, .append [2, 0] 1 none true, .appendImage [0xff, 0xd8] 1 true,
    .pumpTurn]

/-- A session with one frame per unit hands two frames over for one unit. -/
theorem images_exceed_limit : ∃ s, (runtime turnBased).Reaches Machine.anyAction s ∧
    s.isOpen = true ∧ turnBased.maxFramesPerUnit = 1 ∧ (s.unitImages 0).length = 2 ∧
    ¬ ImagesHanded turnBased s := by
  have hrun : ((runtime turnBased).exec {} secondImageRun).map (fun s =>
      (s.isOpen, (s.unitImages 0).length)) = some (true, 2) := by
    decide +kernel
  obtain ⟨s, hs, hobs⟩ := Option.map_eq_some_iff.mp hrun
  obtain ⟨hopen, htwo⟩ := Prod.mk.inj hobs
  refine ⟨s, Machine.path_of_exec hs, hopen, rfl, htwo, fun hhanded => ?_⟩
  have hle := hhanded.limit 0
  rw [htwo] at hle
  exact absurd hle (by decide)

end Realtime
