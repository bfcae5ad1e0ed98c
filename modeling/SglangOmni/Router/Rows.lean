import Mathlib.Data.List.Perm.Subperm
import SglangOmni.Lib.Except
import SglangOmni.Lib.Lists
import SglangOmni.Router.Validate

/-! Rows that the router takes for equal: on validated rows `semanticallyEq` is equality up to the order
of the listed values, which no requirement can tell apart. -/

namespace Router

open Lib

/-! ### What an accepted worker list guarantees -/

@[simp]
theorem refuse_eq_ok {failed : Bool} {field reason : String} {u : Unit} :
    refuse failed field reason = .ok u ↔ failed = false := by
  cases failed <;> simp [refuse]

theorem nodup_of_hasDuplicates {α : Type} [DecidableEq α] {values : List α}
    (h : hasDuplicates values = false) : values.Nodup := by
  have hlen : values.dedup.length = values.length := by simpa [hasDuplicates] using h
  have heq : values.dedup = values := (List.dedup_sublist values).eq_of_length hlen
  exact heq ▸ List.nodup_dedup values

theorem validateModels_nodup {values : List String} {u : Unit}
    (h : validateModels values = .ok u) : values.Nodup := by
  simp only [validateModels, bind_eq_ok, refuse_eq_ok] at h
  obtain ⟨-, -, h⟩ := h
  exact nodup_of_hasDuplicates h

theorem validateSet_nodup {α : Type} [DecidableEq α] {values : List α} {field : String}
    {allowEmpty : Bool} {u : Unit} (h : validateSet values field allowEmpty = .ok u) :
    values.Nodup := by
  simp only [validateSet, bind_eq_ok, refuse_eq_ok] at h
  obtain ⟨-, -, h⟩ := h
  exact nodup_of_hasDuplicates h

def ServiceProfile.Distinct : ServiceProfile → Prop
  | .generationHttp modelIds forms placements inputs outputs formats modes =>
      modelIds.Nodup ∧ forms.Nodup ∧ placements.Nodup ∧ inputs.Nodup ∧ outputs.Nodup
        ∧ formats.Nodup ∧ modes.Nodup
  | .speechHttp modelIds formats modes tasks references _
  | .speechWebsocket modelIds formats modes tasks references _ =>
      modelIds.Nodup ∧ formats.Nodup ∧ modes.Nodup ∧ tasks.Nodup ∧ references.Nodup
  | .speechBatch modelIds formats tasks references _ _ =>
      modelIds.Nodup ∧ formats.Nodup ∧ tasks.Nodup ∧ references.Nodup
  | .transcriptionHttp modelIds _ formats modes => modelIds.Nodup ∧ formats.Nodup ∧ modes.Nodup
  | .realtimeWebsocket => True

theorem validateSpeechRow_nodup {modelIds : List String} {formats : List SpeechResponseFormat}
    {modes : List StreamMode} {tasks : List SpeechTask} {references : List ReferenceForm} {u : Unit}
    (h : validateSpeechRow modelIds formats modes tasks references = .ok u) :
    modelIds.Nodup ∧ formats.Nodup ∧ modes.Nodup ∧ tasks.Nodup ∧ references.Nodup := by
  simp only [validateSpeechRow, bind_eq_ok] at h
  obtain ⟨_, hmodels, _, hformats, _, hmodes, _, htasks, _, hreferences, -⟩ := h
  exact ⟨validateModels_nodup hmodels, validateSet_nodup hformats, validateSet_nodup hmodes,
    validateSet_nodup htasks, validateSet_nodup hreferences⟩

theorem ServiceProfile.validate_distinct {profile : ServiceProfile} {u : Unit}
    (h : profile.validate = .ok u) : profile.Distinct := by
  cases profile with
  | generationHttp =>
    simp only [ServiceProfile.validate, bind_eq_ok] at h
    obtain ⟨_, hmodels, _, hforms, _, hplacements, _, hinputs, _, houtputs, _, hformats, _,
      hmodes, -⟩ := h
    exact ⟨validateModels_nodup hmodels, validateSet_nodup hforms, validateSet_nodup hplacements,
      validateSet_nodup hinputs, validateSet_nodup houtputs, validateSet_nodup hformats,
      validateSet_nodup hmodes⟩
  | speechHttp => exact validateSpeechRow_nodup h
  | speechBatch =>
    simp only [ServiceProfile.validate, bind_eq_ok] at h
    obtain ⟨_, hmodels, _, hformats, _, htasks, _, hreferences, -⟩ := h
    exact ⟨validateModels_nodup hmodels, validateSet_nodup hformats, validateSet_nodup htasks,
      validateSet_nodup hreferences⟩
  | transcriptionHttp =>
    simp only [ServiceProfile.validate, bind_eq_ok] at h
    obtain ⟨_, hmodels, _, hformats, _, hmodes, -⟩ := h
    exact ⟨validateModels_nodup hmodels, validateSet_nodup hformats, validateSet_nodup hmodes⟩
  | speechWebsocket => exact validateSpeechRow_nodup h
  | realtimeWebsocket => trivial

/-- The rows of an accepted worker: free of duplicates, and no later row equal to an earlier one. -/
structure DistinctRows (rows : List ServiceProfile) : Prop where
  distinct : ∀ row ∈ rows, row.Distinct
  different : rows.Pairwise fun earlier row => row.semanticallyEq earlier = false

theorem validateRows_distinct {earlier rows : List ServiceProfile} {u : Unit}
    (h : validateRows earlier rows = .ok u) (he : DistinctRows earlier) :
    DistinctRows (earlier ++ rows) := by
  induction rows generalizing earlier with
  | nil => simpa using he
  | cons row rows ih =>
    simp only [validateRows, bind_eq_ok, refuse_eq_ok] at h
    obtain ⟨_, hrow, -, hnew, hrest⟩ := h
    have hnext : DistinctRows (earlier ++ [row]) := by
      refine ⟨?_, ?_⟩
      · intro r hr
        rcases List.mem_append.mp hr with hr | hr
        · exact he.distinct r hr
        · exact List.mem_singleton.mp hr ▸ ServiceProfile.validate_distinct hrow
      · refine List.pairwise_append.mpr ⟨he.different, List.pairwise_singleton _ _, ?_⟩
        intro a ha b hb
        rw [List.mem_singleton.mp hb]
        simpa using List.any_eq_false.mp hnew a ha
    simpa using ih hrest hnext

structure AcceptedWorker (worker : WorkerConfig) : Prop where
  rows : DistinctRows worker.serviceProfiles
  capacity : ∀ row ∈ worker.serviceProfiles,
    worker.capacity.forService row.serviceClass ≠ some none

theorem validateWorker_accepted {parse : String → Option Url} {ids targets : List String}
    {worker : WorkerConfig} {target : String}
    (h : validateWorker parse ids targets worker = .ok target) : AcceptedWorker worker := by
  simp only [validateWorker, bind_eq_ok, refuse_eq_ok] at h
  obtain ⟨_, -, _, -, _, -, _, -, _, -, _, -, _, -, _, -, _, -, _, -, _, -, _, hrows, _, hcap, -⟩ := h
  refine ⟨?_, ?_⟩
  · simpa using validateRows_distinct hrows ⟨by simp, List.Pairwise.nil⟩
  · intro row hrow hnone
    simpa [hnone] using List.any_eq_false.mp hcap row hrow

theorem validateEach_accepted {parse : String → Option Url} {ids targets : List String}
    {workers : List WorkerConfig} {u : Unit} (h : validateEach parse ids targets workers = .ok u) :
    ∀ worker ∈ workers, AcceptedWorker worker := by
  induction workers generalizing ids targets with
  | nil => simp
  | cons worker rest ih =>
    simp only [validateEach, bind_eq_ok] at h
    obtain ⟨target, hworker, hrest⟩ := h
    intro w hw
    rcases List.mem_cons.mp hw with rfl | hw
    · exact validateWorker_accepted hworker
    · exact ih hrest w hw

theorem accepted_of_validateWorkers {parse : String → Option Url} {workers : List WorkerConfig}
    {u : Unit} (h : validateWorkers parse workers = .ok u) :
    ∀ worker ∈ workers, AcceptedWorker worker := by
  simp only [validateWorkers, bind_eq_ok, refuse_eq_ok] at h
  obtain ⟨-, -, h⟩ := h
  exact validateEach_accepted h

/-! ### Equal rows -/

inductive SameRow : ServiceProfile → ServiceProfile → Prop where
  | generationHttp {am bm af bf ap bp ai bi ao bo ac bc aModes bModes} :
      am.Perm bm → af.Perm bf → ap.Perm bp → ai.Perm bi → ao.Perm bo → ac.Perm bc →
      aModes.Perm bModes →
      SameRow (.generationHttp am af ap ai ao ac aModes) (.generationHttp bm bf bp bi bo bc bModes)
  | speechHttp {am bm af bf aModes bModes aTasks bTasks ar br policy} :
      am.Perm bm → af.Perm bf → aModes.Perm bModes → aTasks.Perm bTasks → ar.Perm br →
      SameRow (.speechHttp am af aModes aTasks ar policy) (.speechHttp bm bf bModes bTasks br policy)
  | speechBatch {am bm af bf aTasks bTasks ar br policy maxBatchSize} :
      am.Perm bm → af.Perm bf → aTasks.Perm bTasks → ar.Perm br →
      SameRow (.speechBatch am af aTasks ar policy maxBatchSize)
        (.speechBatch bm bf bTasks br policy maxBatchSize)
  | transcriptionHttp {am bm task af bf aModes bModes} :
      am.Perm bm → af.Perm bf → aModes.Perm bModes →
      SameRow (.transcriptionHttp am task af aModes) (.transcriptionHttp bm task bf bModes)
  | speechWebsocket {am bm af bf aModes bModes aTasks bTasks ar br policy} :
      am.Perm bm → af.Perm bf → aModes.Perm bModes → aTasks.Perm bTasks → ar.Perm br →
      SameRow (.speechWebsocket am af aModes aTasks ar policy)
        (.speechWebsocket bm bf bModes bTasks br policy)
  | realtimeWebsocket : SameRow .realtimeWebsocket .realtimeWebsocket

theorem setEq_iff_perm {α : Type} [BEq α] [LawfulBEq α] {left right : List α} (h : left.Nodup) :
    setEq left right = true ↔ left.Perm right := by
  simp only [setEq, Bool.and_eq_true, beq_iff_eq, List.all_eq_true, List.contains_iff_mem]
  constructor
  · rintro ⟨hlen, hsub⟩
    exact (List.subperm_of_subset h hsub).perm_of_length_le (Nat.le_of_eq hlen.symm)
  · intro hperm
    exact ⟨hperm.length_eq, fun x hx => hperm.mem_iff.mp hx⟩

theorem ServiceProfile.semanticallyEq_iff {profile other : ServiceProfile}
    (h : profile.Distinct) : profile.semanticallyEq other = true ↔ SameRow profile other := by
  constructor
  · intro heq
    cases profile with
    | generationHttp =>
      obtain ⟨h₁, h₂, h₃, h₄, h₅, h₆, h₇⟩ := h
      cases other <;> simp only [ServiceProfile.semanticallyEq, Bool.and_eq_true, setEq_iff_perm,
        Bool.false_eq_true, h₁, h₂, h₃, h₄, h₅, h₆, h₇] at heq
      obtain ⟨⟨⟨⟨⟨⟨p₁, p₂⟩, p₃⟩, p₄⟩, p₅⟩, p₆⟩, p₇⟩ := heq
      exact .generationHttp p₁ p₂ p₃ p₄ p₅ p₆ p₇
    | speechHttp =>
      obtain ⟨h₁, h₂, h₃, h₄, h₅⟩ := h
      cases other <;> simp only [ServiceProfile.semanticallyEq, Bool.and_eq_true, setEq_iff_perm,
        Bool.false_eq_true, beq_iff_eq, h₁, h₂, h₃, h₄, h₅] at heq
      obtain ⟨⟨⟨⟨⟨rfl, p₁⟩, p₂⟩, p₃⟩, p₄⟩, p₅⟩ := heq
      exact .speechHttp p₁ p₂ p₃ p₄ p₅
    | speechBatch =>
      obtain ⟨h₁, h₂, h₃, h₄⟩ := h
      cases other <;> simp only [ServiceProfile.semanticallyEq, Bool.and_eq_true, setEq_iff_perm,
        Bool.false_eq_true, beq_iff_eq, h₁, h₂, h₃, h₄] at heq
      obtain ⟨⟨⟨⟨⟨rfl, rfl⟩, p₁⟩, p₂⟩, p₃⟩, p₄⟩ := heq
      exact .speechBatch p₁ p₂ p₃ p₄
    | transcriptionHttp =>
      obtain ⟨h₁, h₂, h₃⟩ := h
      cases other <;> simp only [ServiceProfile.semanticallyEq, Bool.and_eq_true, setEq_iff_perm,
        Bool.false_eq_true, beq_iff_eq, h₁, h₂, h₃] at heq
      obtain ⟨⟨⟨rfl, p₁⟩, p₂⟩, p₃⟩ := heq
      exact .transcriptionHttp p₁ p₂ p₃
    | speechWebsocket =>
      obtain ⟨h₁, h₂, h₃, h₄, h₅⟩ := h
      cases other <;> simp only [ServiceProfile.semanticallyEq, Bool.and_eq_true, setEq_iff_perm,
        Bool.false_eq_true, beq_iff_eq, h₁, h₂, h₃, h₄, h₅] at heq
      obtain ⟨⟨⟨⟨⟨rfl, p₁⟩, p₂⟩, p₃⟩, p₄⟩, p₅⟩ := heq
      exact .speechWebsocket p₁ p₂ p₃ p₄ p₅
    | realtimeWebsocket =>
      cases other <;> first | exact .realtimeWebsocket | cases heq
  · intro hsame
    cases hsame with
    | generationHttp =>
      obtain ⟨h₁, h₂, h₃, h₄, h₅, h₆, h₇⟩ := h
      simp [ServiceProfile.semanticallyEq, setEq_iff_perm, *]
    | speechHttp | speechWebsocket =>
      obtain ⟨h₁, h₂, h₃, h₄, h₅⟩ := h
      simp [ServiceProfile.semanticallyEq, setEq_iff_perm, *]
    | speechBatch =>
      obtain ⟨h₁, h₂, h₃, h₄⟩ := h
      simp [ServiceProfile.semanticallyEq, setEq_iff_perm, *]
    | transcriptionHttp =>
      obtain ⟨h₁, h₂, h₃⟩ := h
      simp [ServiceProfile.semanticallyEq, setEq_iff_perm, *]
    | realtimeWebsocket => rfl

namespace SameRow

variable {a b c : ServiceProfile}

theorem refl (a : ServiceProfile) : SameRow a a := by
  cases a <;> constructor <;> exact List.Perm.refl _

theorem symm (h : SameRow a b) : SameRow b a := by
  cases h with
  | generationHttp h₁ h₂ h₃ h₄ h₅ h₆ h₇ =>
    exact .generationHttp h₁.symm h₂.symm h₃.symm h₄.symm h₅.symm h₆.symm h₇.symm
  | speechHttp h₁ h₂ h₃ h₄ h₅ => exact .speechHttp h₁.symm h₂.symm h₃.symm h₄.symm h₅.symm
  | speechBatch h₁ h₂ h₃ h₄ => exact .speechBatch h₁.symm h₂.symm h₃.symm h₄.symm
  | transcriptionHttp h₁ h₂ h₃ => exact .transcriptionHttp h₁.symm h₂.symm h₃.symm
  | speechWebsocket h₁ h₂ h₃ h₄ h₅ =>
    exact .speechWebsocket h₁.symm h₂.symm h₃.symm h₄.symm h₅.symm
  | realtimeWebsocket => exact .realtimeWebsocket

theorem trans (h : SameRow a b) (h' : SameRow b c) : SameRow a c := by
  cases h with
  | generationHttp h₁ h₂ h₃ h₄ h₅ h₆ h₇ =>
    cases h' with
    | generationHttp k₁ k₂ k₃ k₄ k₅ k₆ k₇ =>
      exact .generationHttp (h₁.trans k₁) (h₂.trans k₂) (h₃.trans k₃) (h₄.trans k₄) (h₅.trans k₅)
        (h₆.trans k₆) (h₇.trans k₇)
  | speechHttp h₁ h₂ h₃ h₄ h₅ =>
    cases h' with
    | speechHttp k₁ k₂ k₃ k₄ k₅ =>
      exact .speechHttp (h₁.trans k₁) (h₂.trans k₂) (h₃.trans k₃) (h₄.trans k₄) (h₅.trans k₅)
  | speechBatch h₁ h₂ h₃ h₄ =>
    cases h' with
    | speechBatch k₁ k₂ k₃ k₄ =>
      exact .speechBatch (h₁.trans k₁) (h₂.trans k₂) (h₃.trans k₃) (h₄.trans k₄)
  | transcriptionHttp h₁ h₂ h₃ =>
    cases h' with
    | transcriptionHttp k₁ k₂ k₃ =>
      exact .transcriptionHttp (h₁.trans k₁) (h₂.trans k₂) (h₃.trans k₃)
  | speechWebsocket h₁ h₂ h₃ h₄ h₅ =>
    cases h' with
    | speechWebsocket k₁ k₂ k₃ k₄ k₅ =>
      exact .speechWebsocket (h₁.trans k₁) (h₂.trans k₂) (h₃.trans k₃) (h₄.trans k₄) (h₅.trans k₅)
  | realtimeWebsocket => exact h'

theorem serviceClass_eq (h : SameRow a b) : a.serviceClass = b.serviceClass := by
  cases h <;> rfl

theorem voiceNamePolicy_eq (h : SameRow a b) : a.voiceNamePolicy = b.voiceNamePolicy := by
  cases h <;> rfl

end SameRow

/-! ### No requirement tells equal rows apart -/

theorem contains_congr {α : Type} [BEq α] [LawfulBEq α] {left right : List α}
    (h : left.Perm right) (x : α) : left.contains x = right.contains x := by
  rw [Bool.eq_iff_iff, List.contains_iff_mem, List.contains_iff_mem]
  exact h.mem_iff

theorem all_contains_congr {α : Type} [BEq α] [LawfulBEq α] {left right : List α}
    (h : left.Perm right) (x : Option α) : x.all left.contains = x.all right.contains := by
  cases x with
  | none => rfl
  | some x => exact contains_congr h x

theorem containsAll_congr {α : Type} [BEq α] [LawfulBEq α] {left right : List α}
    (h : left.Perm right) : containsAll left = containsAll right := by
  funext required
  simp only [containsAll, funext (contains_congr h)]

theorem matchesSpeechReferences_congr {left right : List ReferenceForm} (h : left.Perm right) :
    matchesSpeechReferences left = matchesSpeechReferences right := by
  funext required namedVoice policy
  simp only [matchesSpeechReferences, containsAll_congr h, contains_congr h]

theorem ModelSelection.matchesProfileModels_congr {left right : List String}
    (h : left.Perm right) (model : ModelSelection) :
    model.matchesProfileModels left = model.matchesProfileModels right := by
  funext workerDefault
  cases model <;>
    simp only [ModelSelection.matchesProfileModels, contains_congr h, all_contains_congr h]

theorem ModelSelection.matchesTranslation_congr {left right : List String}
    (h : left.Perm right) (model : ModelSelection) :
    model.matchesTranslation left = model.matchesTranslation right := by
  funext workerDefault
  cases model <;>
    simp only [ModelSelection.matchesTranslation, contains_congr h, funext (contains_congr h)]

theorem SameRow.matches_eq {a b : ServiceProfile} (h : SameRow a b)
    (requirement : ProfileRequirement) (workerDefault : Option String) :
    a.matches requirement workerDefault = b.matches requirement workerDefault := by
  cases h with
  | generationHttp h₁ h₂ h₃ h₄ h₅ h₆ h₇ =>
    cases requirement <;> simp only [ServiceProfile.matches,
      ModelSelection.matchesProfileModels_congr h₁, containsAll_congr h₂, containsAll_congr h₃,
      containsAll_congr h₄, containsAll_congr h₅, all_contains_congr h₆, contains_congr h₇]
  | speechHttp h₁ h₂ h₃ h₄ h₅ | speechWebsocket h₁ h₂ h₃ h₄ h₅ =>
    cases requirement <;> simp only [ServiceProfile.matches,
      ModelSelection.matchesProfileModels_congr h₁, contains_congr h₂, all_contains_congr h₂,
      contains_congr h₃, all_contains_congr h₄, matchesSpeechReferences_congr h₅]
  | speechBatch h₁ h₂ h₃ h₄ =>
    cases requirement <;> simp only [ServiceProfile.matches,
      ModelSelection.matchesProfileModels_congr h₁, containsAll_congr h₂, containsAll_congr h₃,
      matchesSpeechReferences_congr h₄]
  | transcriptionHttp h₁ h₂ h₃ =>
    cases requirement <;> simp only [ServiceProfile.matches,
      ModelSelection.matchesProfileModels_congr h₁, ModelSelection.matchesTranslation_congr h₁,
      contains_congr h₂, contains_congr h₃]
  | realtimeWebsocket => rfl

theorem ServiceProfile.serviceClass_of_matches {profile : ServiceProfile}
    {requirement : ProfileRequirement} {workerDefault : Option String}
    (h : profile.matches requirement workerDefault = true) :
    profile.serviceClass = requirement.serviceClass := by
  cases profile <;> cases requirement <;> first | rfl | cases h

end Router
