import SglangOmni.Config.Grouping

/-! The expansion of replicated processes: which instances each stage has, and that their names are
distinct and lead back to the stage. -/

namespace Config

open Lib

section Planned

variable {digits : Digits} {config : PipelineConfig} {plan : LogicalProcessPlan}

theorem Planned.mem_stageNames_iff (h : Planned config plan) (ha : Accepted digits config)
    {process : LogicalProcess} (hprocess : process ∈ plan.processes) {stage : StageConfig}
    (hstage : stage ∈ config.stages) :
    stage.name ∈ process.stageNames ↔ processOrName stage = process.name := by
  rw [h.stageNames_eq process hprocess]
  exact mem_group_iff ha.names_nodup hstage process.name

theorem Planned.exists_stage (h : Planned config plan) {process : LogicalProcess}
    (hprocess : process ∈ plan.processes) {stageName : String}
    (hname : stageName ∈ process.stageNames) :
    ∃ stage ∈ config.stages, stage.name = stageName ∧ processOrName stage = process.name := by
  rw [h.stageNames_eq process hprocess] at hname
  obtain ⟨stage, hmem, hname⟩ := List.mem_map.mp hname
  obtain ⟨hstage, hprocess'⟩ := List.mem_filter.mp hmem
  exact ⟨stage, hstage, hname, by simpa using hprocess'⟩

theorem Planned.name_eq_of_common (h : Planned config plan) (ha : Accepted digits config)
    {process process' : LogicalProcess} (hprocess : process ∈ plan.processes)
    (hprocess' : process' ∈ plan.processes) {stageName : String}
    (hname : stageName ∈ process.stageNames) (hname' : stageName ∈ process'.stageNames) :
    process.name = process'.name := by
  obtain ⟨stage, hstage, rfl, heq⟩ := h.exists_stage hprocess hname
  rw [← heq]
  exact (h.mem_stageNames_iff ha hprocess' hstage).mp hname'

theorem Planned.nodup_flatMap (h : Planned config plan) (ha : Accepted digits config) :
    (plan.processes.flatMap (·.stageNames)).Nodup :=
  nodup_flatMap_groups ha.names_nodup h.names_nodup h.stageNames_eq

theorem Planned.processOf_eq (h : Planned config plan) (ha : Accepted digits config)
    {process : LogicalProcess} (hprocess : process ∈ plan.processes) {stage : StageConfig}
    (hstage : stage ∈ config.stages) (hname : process.name = processOrName stage) :
    plan.processOf stage.name = some process := by
  have hnodup : ((plan.processes.flatMap fun process =>
      process.stageNames.map (·, process.name)).map Prod.fst).Nodup := by
    rw [map_fst_flatMap plan.processes _ fun process _ => process.name]
    exact h.nodup_flatMap ha
  have hget : plan.stageToProcess.get? stage.name = some process.name := by
    rw [h.stageToProcess_eq, get?_ofItems hnodup]
    have hmem := (h.mem_stageNames_iff ha hprocess hstage).mpr hname.symm
    exact List.mem_flatMap.mpr ⟨process, hprocess, List.mem_map_of_mem hmem⟩
  rw [LogicalProcessPlan.processOf, hget, Option.bind_some]
  cases hfind : plan.processes.find? (·.name = process.name) with
  | none =>
    have hnot := List.find?_eq_none.mp hfind process hprocess
    simp at hnot
  | some found =>
    have hfound := List.mem_of_find?_eq_some hfind
    have heq : found.name = process.name := by simpa using List.find?_some hfind
    rw [List.inj_on_of_nodup_map h.names_nodup hfound hprocess heq]

/-! ### The instances of a stage -/

def recorded (process : LogicalProcess) (stage : StageConfig) : Option (List StageConfig) :=
  if process.isReplicated then
    some ((List.range process.numReplicas).map (replicaStage process stage))
  else
    process.replicaDevices.map fun replicaDevices =>
      [{ stage with gpu := replicaStageGpu stage replicaDevices.head? }]

def instancesOf (process : LogicalProcess) (stage : StageConfig) : List StageConfig :=
  (recorded process stage).getD [stage]

def instanceNames (process : LogicalProcess) (stageName : String) : List String :=
  if process.isReplicated then
    (List.range process.numReplicas).map (replicaInstanceName stageName)
  else [stageName]

theorem map_name_instancesOf (process : LogicalProcess) (stage : StageConfig) :
    (instancesOf process stage).map (·.name) = instanceNames process stage.name := by
  rw [instancesOf, recorded, instanceNames]
  split
  · rw [Option.getD_some, List.map_map]
    rfl
  · cases process.replicaDevices <;> rfl

theorem length_instanceNames {process : LogicalProcess} (h : 0 < process.numReplicas)
    (stageName : String) : (instanceNames process stageName).length = process.numReplicas := by
  rw [instanceNames]
  split
  · rw [List.length_map, List.length_range]
  · next hnot =>
    rw [LogicalProcess.isReplicated, decide_eq_true_eq] at hnot
    rw [List.length_singleton]
    omega

theorem nodup_instanceNames (process : LogicalProcess) (stageName : String) :
    (instanceNames process stageName).Nodup := by
  rw [instanceNames]
  split
  · exact List.nodup_range.map fun i j hij => (replicaInstanceName_inj hij).2
  · exact List.nodup_singleton _

theorem Planned.replicaNames_get? (h : Planned config plan) (ha : Accepted digits config)
    {process : LogicalProcess} (hprocess : process ∈ plan.processes) {stageName : String}
    (hname : stageName ∈ process.stageNames) :
    (replicaNames plan).get? stageName =
      if process.isReplicated then some (instanceNames process stageName) else none := by
  have hkeys : ((plan.processes.filter (·.isReplicated)).flatMap fun process =>
      process.stageNames.map fun stageName =>
        (stageName, (List.range process.numReplicas).map (replicaInstanceName stageName))).map
          Prod.fst = (plan.processes.filter (·.isReplicated)).flatMap (·.stageNames) :=
    map_fst_flatMap _ _ _
  have hsub : ((plan.processes.filter (·.isReplicated)).flatMap (·.stageNames)).Sublist
      (plan.processes.flatMap (·.stageNames)) :=
    List.Sublist.flatMap List.filter_sublist _
  have hnodup := hsub.nodup (h.nodup_flatMap ha)
  rw [← hkeys] at hnodup
  split
  · next hreplicated =>
    rw [replicaNames, get?_ofItems hnodup, instanceNames, if_pos hreplicated]
    exact List.mem_flatMap.mpr ⟨process, List.mem_filter.mpr ⟨hprocess, hreplicated⟩,
      List.mem_map_of_mem hname⟩
  · next hnot =>
    apply get?_ofItems_none hnodup
    rw [hkeys]
    intro hmem
    obtain ⟨process', hprocess', hname'⟩ := List.mem_flatMap.mp hmem
    obtain ⟨hmem', hreplicated⟩ := List.mem_filter.mp hprocess'
    have heq := List.inj_on_of_nodup_map h.names_nodup hprocess hmem'
      (h.name_eq_of_common ha hprocess hmem' hname hname')
    exact hnot (heq ▸ hreplicated)

theorem Planned.logicalName_eq (h : Planned config plan) (ha : Accepted digits config)
    {process : LogicalProcess} (hprocess : process ∈ plan.processes) {stage : StageConfig}
    (hstage : stage ∈ config.stages) (hname : process.name = processOrName stage) {name : String}
    (hinstance : name ∈ instanceNames process stage.name) :
    ReplicaTopology.logicalName ⟨replicaNames plan⟩ digits name = some stage.name := by
  have hmem := (h.mem_stageNames_iff ha hprocess hstage).mpr hname.symm
  have hget := h.replicaNames_get? ha hprocess hmem
  by_cases hreplicated : process.isReplicated = true
  · rw [if_pos hreplicated] at hget
    have hcontains : (instanceNames process stage.name).contains name = true :=
      List.contains_iff_mem.mpr hinstance
    rw [instanceNames, if_pos hreplicated] at hinstance
    obtain ⟨replicaId, -, rfl⟩ := List.mem_map.mp hinstance
    simp only [ReplicaTopology.logicalName, parse_replicaInstanceName, Option.map_some, hget,
      hcontains, if_true]
  · rw [instanceNames, if_neg hreplicated, List.mem_singleton] at hinstance
    obtain ⟨logical, hparse⟩ := ha.plain stage hstage
    rw [hinstance]
    simp only [ReplicaTopology.logicalName, hparse, Option.map_some]

end Planned

end Config
