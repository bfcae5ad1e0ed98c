import SglangOmni.Config.Pipeline
import SglangOmni.Lib.Except

/-! What holds of a configuration that passed its own validation. -/

namespace Config

open Lib

@[simp]
theorem refuse_eq_ok {failed : Bool} {error : ValueError} {u : Unit} :
    refuse failed error = .ok u ↔ failed = false := by
  cases failed <;> simp [refuse]

def Plain (digits : Digits) (name : String) : Prop :=
  ∃ logical, parseReplicaInstanceName digits name = some (logical, none)

theorem plain_of_refuseReplicaSuffix {digits : Digits} {name : String} {error : ValueError} {u : Unit}
    (h : refuseReplicaSuffix digits name error = .ok u) : Plain digits name := by
  unfold refuseReplicaSuffix at h
  split at h
  · cases h
  · next logical replicaId hparse =>
    cases replicaId with
    | none => exact ⟨logical, hparse⟩
    | some replicaId => exact absurd (refuse_eq_ok.mp h) (by simp)

/-- What the wiring checks say of a stage among `names`. -/
structure Wired (names : List String) (stage : StageConfig) : Prop where
  terminal_iff : stage.terminal = true ↔ stage.next = none
  targets_mem : ∀ next, stage.next = some next → ∀ target ∈ next.targets, target ∈ names

theorem wired_of_validateWiring {names : List String} {stage : StageConfig} {u : Unit}
    (h : validateWiring names stage = .ok u) : Wired names stage := by
  simp only [validateWiring, bind_eq_ok, refuse_eq_ok] at h
  obtain ⟨_, -, _, hterminal, _, -, _, -, _, -, _, hnext, -⟩ := h
  unfold validateNext at hnext
  constructor
  · cases hn : stage.next <;> cases ht : stage.terminal <;> simp_all
  · intro next hsome target htarget
    rw [hsome] at hnext
    simp only [refuse_eq_ok, Bool.not_eq_false', List.isEmpty_iff, List.filter_eq_nil_iff] at hnext
    have hmem := hnext target htarget
    simpa using hmem

/-- What the checks of `validate_processes` say of the members of one process. -/
structure Members (digits : Digits) (processName : String) (stages : List StageConfig) : Prop where
  plain : Plain digits processName
  alone : ∀ stage ∈ stages, 1 < stage.tpSize → stages = [stage]

theorem members_of_validateMembers {digits : Digits} {processName : String}
    {stages : List StageConfig} {u : Unit} (h : validateMembers digits processName stages = .ok u) :
    Members digits processName stages := by
  simp only [validateMembers, bind_eq_ok, refuse_eq_ok] at h
  obtain ⟨_, hplain, _, -, halone⟩ := h
  refine ⟨plain_of_refuseReplicaSuffix hplain, fun stage hstage htp => ?_⟩
  have hmem : stage.name ∈ (stages.filter (1 < ·.tpSize)).map (·.name) :=
    List.mem_map_of_mem (List.mem_filter.mpr ⟨hstage, by simpa using htp⟩)
  obtain ⟨name, rest, htpStages⟩ := List.exists_cons_of_ne_nil (List.ne_nil_of_mem hmem)
  rw [htpStages, validateTpStages, refuse_eq_ok] at halone
  have hlength : stages.length ≤ 1 := by simpa using halone
  cases stages with
  | nil => cases hstage
  | cons first rest =>
    obtain rfl : rest = [] := List.length_eq_zero_iff.mp (by rw [List.length_cons] at hlength; omega)
    rw [List.mem_singleton.mp hstage]

structure Accepted (digits : Digits) (config : PipelineConfig) : Prop where
  names_nodup : (config.stages.map (·.name)).Nodup
  entry_mem : config.resolvedEntryStage ∈ config.stages.map (·.name)
  wired : ∀ stage ∈ config.stages, Wired (config.stages.map (·.name)) stage
  plain : ∀ stage ∈ config.stages, Plain digits stage.name
  grouped : ∃ members, groupStagesByProcess config.stages = .ok members ∧
    (∀ name stages, members.get? name = some stages → Members digits name stages) ∧
    ∀ name ∈ config.processes.keys, name ∈ members.keys

theorem accepted_of_validate {digits : Digits} {config : PipelineConfig}
    (h : config.validate digits = .ok ()) : Accepted digits config := by
  simp only [PipelineConfig.validate, validateGeneral, validateProcesses, bind_eq_ok, forM_eq_ok] at h
  obtain ⟨_, ⟨_, -, _, -, _, -, _, -, _, hnodup, _, -, _, hentry, _, hwired, _, hplain, -⟩, _,
    ⟨members, hmembers, _, hvalid, hknown⟩, -⟩ := h
  constructor
  · simpa using hnodup
  · simpa using hentry
  · exact fun stage hstage => wired_of_validateWiring (hwired stage hstage)
  · exact fun stage hstage => plain_of_refuseReplicaSuffix (hplain stage hstage)
  · refine ⟨members, hmembers, fun name stages hget => ?_, fun name hname => ?_⟩
    · exact members_of_validateMembers (hvalid (name, stages) ((members.mem_entries_iff _ _).mpr hget))
    · rw [refuse_eq_ok] at hknown
      simp only [Bool.not_eq_false', List.isEmpty_iff, List.filter_eq_nil_iff] at hknown
      simpa using hknown name hname

end Config
