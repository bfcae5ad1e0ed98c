import Mathlib.Data.List.Flatten
import SglangOmni.Config.Processes

/-! The logical processes of a plan: each stage belongs to the one process that it names. -/

namespace Config

open Lib

theorem get?_ofItems {ν : Type} {items : List (String × ν)} (h : (items.map Prod.fst).Nodup)
    (name : String) (value : ν) :
    (ofItems items).get? name = some value ↔ (name, value) ∈ items := by
  have hfold := Dict.get?_foldl_set items ∅ name h
  have hentries := Dict.mem_entries_iff ⟨items, h⟩ name value
  rw [ofItems, hfold, Dict.get?_empty, Option.or_none]
  exact hentries.symm

theorem get?_ofItems_none {ν : Type} {items : List (String × ν)} (h : (items.map Prod.fst).Nodup)
    {name : String} (hnot : name ∉ items.map Prod.fst) : (ofItems items).get? name = none := by
  rw [Option.eq_none_iff_forall_ne_some]
  intro value hvalue
  exact hnot (List.mem_map_of_mem (f := Prod.fst) ((get?_ofItems h name value).mp hvalue))

theorem stageProcessName_eq {stage : StageConfig} {name : String}
    (h : stageProcessName stage = .ok name) : name = processOrName stage := by
  unfold stageProcessName at h
  unfold processOrName at h ⊢
  split at h
  · exact (Except.ok.inj h).symm
  · split at h
    · next process hprocess =>
      split at h
      · cases h
      · next hempty =>
        simp only [hempty, Bool.false_eq_true, if_false]
        exact (Except.ok.inj h).symm
    · cases h

def Grouped (stages : List StageConfig) (members : Dict String (List StageConfig)) : Prop :=
  ∀ name, members.get? name =
    if stages.filter (processOrName · = name) = [] then none
    else some (stages.filter (processOrName · = name))

theorem grouped_of_groupStages {stages : List StageConfig} {members : Dict String (List StageConfig)}
    (h : groupStagesByProcess stages = .ok members) : Grouped stages members := by
  have hfold : ∀ (rest done : List StageConfig) (d : Dict String (List StageConfig)),
      Grouped done d →
      rest.foldlM (fun members stage => do
        let name ← stageProcessName stage
        return members.set name ((members.get? name).getD [] ++ [stage])) d = .ok members →
      Grouped (done ++ rest) members := by
    intro rest
    induction rest with
    | nil =>
      intro done d hd hok
      cases hok
      rw [List.append_nil]
      exact hd
    | cons stage rest ih =>
      intro done d hd hok
      rw [List.foldlM_cons, bind_eq_ok] at hok
      obtain ⟨d', hstep, hok⟩ := hok
      obtain ⟨name, hname, hset⟩ := bind_eq_ok.mp hstep
      cases hset
      rw [List.append_cons]
      refine ih (done ++ [stage]) _ (fun key => ?_) hok
      obtain rfl := stageProcessName_eq hname
      rw [Dict.get?_set, List.filter_append]
      by_cases hkey : key = processOrName stage
      · subst hkey
        have hone : [stage].filter (processOrName · = processOrName stage) = [stage] := by simp
        rw [if_pos rfl, hone, if_neg (by simp), hd]
        split
        · next hnil =>
          rw [hnil]
          rfl
        · rfl
      · have hnone : [stage].filter (processOrName · = key) = [] := by
          simp [Ne.symm hkey]
        rw [if_neg hkey, hnone, List.append_nil]
        exact hd key
  exact hfold stages [] ∅ (fun _ => rfl) h

theorem mem_group_iff {stages : List StageConfig} (hstages : (stages.map (·.name)).Nodup)
    {stage : StageConfig} (hstage : stage ∈ stages) (name : String) :
    stage.name ∈ (stages.filter (processOrName · = name)).map (·.name) ↔
      processOrName stage = name := by
  rw [List.mem_map]
  constructor
  · rintro ⟨other, hother, hname⟩
    obtain ⟨hmem, hprocess⟩ := List.mem_filter.mp hother
    obtain rfl := List.inj_on_of_nodup_map hstages hmem hstage hname
    simpa using hprocess
  · exact fun heq => ⟨stage, List.mem_filter.mpr ⟨hstage, by simpa using heq⟩, rfl⟩

theorem nodup_flatMap_groups {γ : Type} {groups : List γ} {nameOf : γ → String}
    {stageNames : γ → List String} {stages : List StageConfig}
    (hstages : (stages.map (·.name)).Nodup) (hnames : (groups.map nameOf).Nodup)
    (hmembers : ∀ group ∈ groups,
      stageNames group = (stages.filter (processOrName · = nameOf group)).map (·.name)) :
    (groups.flatMap stageNames).Nodup := by
  rw [List.nodup_flatMap]
  constructor
  · intro group hgroup
    rw [hmembers group hgroup]
    exact (List.filter_sublist.map _).nodup hstages
  · have hpairwise : groups.Pairwise fun group other => nameOf group ≠ nameOf other :=
      List.pairwise_map.mp hnames
    refine hpairwise.imp_of_mem fun hgroup hother hne => ?_
    refine List.disjoint_left.mpr fun name hname hname' => hne ?_
    rw [hmembers _ hgroup] at hname
    rw [hmembers _ hother] at hname'
    obtain ⟨stage, hstage, rfl⟩ := List.mem_map.mp hname
    obtain ⟨hstage, hprocess⟩ := List.mem_filter.mp hstage
    rw [mem_group_iff hstages hstage] at hname'
    rw [← hname']
    simpa using Eq.symm (of_decide_eq_true hprocess)

theorem map_fst_flatMap {γ ν : Type} (groups : List γ) (stageNames : γ → List String)
    (value : γ → String → ν) :
    (groups.flatMap fun group => (stageNames group).map fun name =>
      (name, value group name)).map Prod.fst = groups.flatMap stageNames := by
  rw [List.map_flatMap]
  congr 1
  funext group
  rw [List.map_map]
  exact List.map_id' _

structure Planned (config : PipelineConfig) (plan : LogicalProcessPlan) : Prop where
  names_nodup : (plan.processes.map (·.name)).Nodup
  stageNames_eq : ∀ process ∈ plan.processes,
    process.stageNames =
      (config.stages.filter (processOrName · = process.name)).map (·.name)
  covers : ∀ stage ∈ config.stages, ∃ process ∈ plan.processes, process.name = processOrName stage
  numReplicas_eq : ∀ process ∈ plan.processes,
    process.numReplicas = ((config.processes.get? process.name).getD {}).numReplicas
  stageToProcess_eq : plan.stageToProcess = ofItems (plan.processes.flatMap fun process =>
    process.stageNames.map (·, process.name))

theorem buildLogicalProcess_ok {name : String} {stages : List StageConfig}
    {processCfg : Option ProcessConfig} {process : LogicalProcess}
    (h : buildLogicalProcess name stages processCfg = .ok process) :
    process.name = name ∧ process.stageNames = stages.map (·.name) ∧
      process.numReplicas = (processCfg.getD {}).numReplicas := by
  simp only [buildLogicalProcess, bind_eq_ok] at h
  obtain ⟨_, -, devices, -, h⟩ := h
  cases h
  exact ⟨rfl, rfl, rfl⟩

theorem planned_of_compile {config : PipelineConfig} {plan : LogicalProcessPlan}
    {stages : List StageConfig} (h : compileLogicalProcesses config = .ok (plan, stages)) :
    stages = config.stages ∧ Planned config plan := by
  simp only [compileLogicalProcesses, bind_eq_ok] at h
  obtain ⟨members, hmembers, processes, hprocesses, _, -, h⟩ := h
  have hgrouped := grouped_of_groupStages (mapError_eq_ok.mp hmembers)
  have hbuilt := mapM_eq_ok hprocesses
  cases h
  have hnames : processes.map (·.name) = members.keys := by
    have heq : ∀ {entries : List (String × List StageConfig)} {processes : List LogicalProcess},
        List.Forall₂ (fun entry process => buildLogicalProcess entry.1 entry.2
          (config.processes.get? entry.1) = .ok process) entries processes →
        processes.map (·.name) = entries.map Prod.fst := by
      intro entries processes hall
      induction hall with
      | nil => rfl
      | cons hprocess _ ih => rw [List.map_cons, List.map_cons, ih, (buildLogicalProcess_ok hprocess).1]
    exact heq hbuilt
  have hprocess : ∀ process ∈ processes, ∃ entry ∈ members.entries,
      buildLogicalProcess entry.1 entry.2 (config.processes.get? entry.1) = .ok process := by
    exact fun process hmem => exists_of_mem_mapM hprocesses hmem
  refine ⟨rfl, ?_, ?_, ?_, ?_, rfl⟩
  · rw [hnames]
    exact members.nodup
  · intro process hmem
    obtain ⟨⟨name, group⟩, hentry, hok⟩ := hprocess process hmem
    obtain ⟨hname, hstageNames, -⟩ := buildLogicalProcess_ok hok
    have hget := (members.mem_entries_iff name group).mp hentry
    rw [hgrouped name] at hget
    split at hget
    · cases hget
    · rw [hstageNames, hname, Option.some.inj hget]
  · intro stage hstage
    have hmem : processOrName stage ∈ processes.map (·.name) := by
      rw [hnames, Dict.mem_keys_iff, hgrouped]
      refine ⟨_, if_neg fun hnil => ?_⟩
      exact List.filter_eq_nil_iff.mp hnil stage hstage (by simp)
    obtain ⟨process, hprocess, hname⟩ := List.mem_map.mp hmem
    exact ⟨process, hprocess, hname⟩
  · intro process hmem
    obtain ⟨⟨name, group⟩, hentry, hok⟩ := hprocess process hmem
    obtain ⟨hname, -, hreplicas⟩ := buildLogicalProcess_ok hok
    rw [hname]
    exact hreplicas

end Config
