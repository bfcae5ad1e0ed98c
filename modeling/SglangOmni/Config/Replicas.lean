import SglangOmni.Config.Expansion

/-! What `expand_replica_stages` returns, the bindings of every sequence of admissions, and the names of
the processes of the operating system. -/

namespace Config

open Lib

/-! ### The loops of the expansion -/

def extend (value : Option (List StageConfig)) (more : List StageConfig) :
    Option (List StageConfig) :=
  if more = [] then value else some (value.getD [] ++ more)

theorem extend_cons (value : Option (List StageConfig)) (stage : StageConfig)
    (more : List StageConfig) :
    extend (some (value.getD [] ++ [stage])) more = extend value (stage :: more) := by
  unfold extend
  split
  · next hnil => simp [hnil]
  · simp

theorem filter_eq_singleton {names : List String} (hnodup : names.Nodup) {name : String}
    (hmem : name ∈ names) : names.filter (fun other => decide (other = name)) = [name] := by
  induction names with
  | nil => cases hmem
  | cons first names ih =>
    obtain ⟨hnot, hnodup⟩ := List.nodup_cons.mp hnodup
    rcases List.mem_cons.mp hmem with rfl | hmem
    · rw [List.filter_cons_of_pos (by simp), List.filter_eq_nil_iff.mpr]
      intro other hother
      simp only [decide_eq_true_eq]
      exact fun heq => hnot (heq ▸ hother)
    · rw [List.filter_cons_of_neg, ih hnodup hmem]
      simp only [decide_eq_true_eq]
      exact fun heq => hnot (heq ▸ hmem)

section Loops

variable {stages : List StageConfig} {stageByName : Dict String StageConfig}
  {expanded : Dict String (List StageConfig)} {process : LogicalProcess}

variable (expanded process) in
theorem foldlM_appendStage (hby : ∀ stage ∈ stages, stageByName.get? stage.name = some stage)
    (pairs : List (Nat × String))
    (hpairs : ∀ pair ∈ pairs, ∃ stage ∈ stages, stage.name = pair.2) :
    ∃ expanded', pairs.foldlM (fun expanded (replicaId, stageName) => do
        let stage ← lookup (stageByName.get? stageName) stageName
        return appendStage expanded stageName (replicaStage process stage replicaId)) expanded =
          (.ok expanded' : Except PlanError _) ∧
      ∀ stage ∈ stages, expanded'.get? stage.name = extend (expanded.get? stage.name)
        ((pairs.filter (·.2 = stage.name)).map fun pair => replicaStage process stage pair.1) := by
  induction pairs generalizing expanded with
  | nil => exact ⟨expanded, rfl, fun stage _ => rfl⟩
  | cons pair pairs ih =>
    obtain ⟨replicaId, stageName⟩ := pair
    obtain ⟨stage, hstage, rfl⟩ := hpairs _ List.mem_cons_self
    obtain ⟨expanded', hok, hget⟩ := ih (appendStage expanded stage.name
      (replicaStage process stage replicaId)) fun pair hpair =>
        hpairs pair (List.mem_cons_of_mem _ hpair)
    refine ⟨expanded', ?_, fun other hother => ?_⟩
    · rw [List.foldlM_cons]
      simp only [hby stage hstage, lookup]
      exact hok
    · rw [hget other hother, appendStage, Dict.get?_set]
      by_cases heq : other.name = stage.name
      · rw [if_pos heq, List.filter_cons_of_pos (by simpa using heq.symm), List.map_cons, heq]
        have hsame : other = stage := by
          have := hby other hother
          rw [heq, hby stage hstage] at this
          exact (Option.some.inj this).symm
        subst hsame
        exact extend_cons _ _ _
      · rw [if_neg heq, List.filter_cons_of_neg (by simpa using Ne.symm heq)]

variable (expanded) in
theorem foldlM_set (hby : ∀ stage ∈ stages, stageByName.get? stage.name = some stage)
    (place : StageConfig → StageConfig) (names : List String) (hnames : names.Nodup)
    (hin : ∀ name ∈ names, ∃ stage ∈ stages, stage.name = name) :
    ∃ expanded', names.foldlM (fun expanded stageName => do
        let stage ← lookup (stageByName.get? stageName) stageName
        return expanded.set stageName [place stage]) expanded = (.ok expanded' : Except PlanError _) ∧
      ∀ stage ∈ stages, expanded'.get? stage.name =
        if stage.name ∈ names then some [place stage] else expanded.get? stage.name := by
  induction names generalizing expanded with
  | nil => exact ⟨expanded, rfl, fun stage _ => rfl⟩
  | cons name names ih =>
    obtain ⟨hnot, hnodup⟩ := List.nodup_cons.mp hnames
    obtain ⟨stage, hstage, rfl⟩ := hin _ List.mem_cons_self
    obtain ⟨expanded', hok, hget⟩ := ih (expanded.set stage.name [place stage]) hnodup
      fun name hname => hin name (List.mem_cons_of_mem _ hname)
    refine ⟨expanded', ?_, fun other hother => ?_⟩
    · rw [List.foldlM_cons]
      simp only [hby stage hstage, lookup]
      exact hok
    · rw [hget other hother, Dict.get?_set]
      by_cases heq : other.name = stage.name
      · have hsame : other = stage := by
          have := hby other hother
          rw [heq, hby stage hstage] at this
          exact (Option.some.inj this).symm
        subst hsame
        rw [if_neg hnot, if_pos rfl, if_pos List.mem_cons_self]
      · rw [if_neg heq]
        simp [heq]

theorem expandProcess_spec (hby : ∀ stage ∈ stages, stageByName.get? stage.name = some stage)
    (hnodup : process.stageNames.Nodup)
    (hin : ∀ name ∈ process.stageNames, ∃ stage ∈ stages, stage.name = name)
    (hnone : ∀ name ∈ process.stageNames, expanded.get? name = none) :
    ∃ expanded', expandProcess stageByName expanded process = .ok expanded' ∧
      ∀ stage ∈ stages, expanded'.get? stage.name =
        if stage.name ∈ process.stageNames then recorded process stage
        else expanded.get? stage.name := by
  unfold expandProcess
  by_cases hreplicated : process.isReplicated = true
  · rw [hreplicated, Bool.not_true, if_neg Bool.false_ne_true]
    obtain ⟨expanded', hok, hget⟩ := foldlM_appendStage expanded process hby
      ((List.range process.numReplicas).flatMap fun replicaId =>
        process.stageNames.map (replicaId, ·)) (by
          intro pair hpair
          obtain ⟨replicaId, -, hpair⟩ := List.mem_flatMap.mp hpair
          obtain ⟨name, hname, rfl⟩ := List.mem_map.mp hpair
          exact hin name hname)
    refine ⟨expanded', hok, fun stage hstage => ?_⟩
    have hpos : 0 < process.numReplicas := by
      have : 1 < process.numReplicas := by simpa [LogicalProcess.isReplicated] using hreplicated
      omega
    rw [hget stage hstage, List.filter_flatMap, recorded, if_pos hreplicated]
    by_cases hmem : stage.name ∈ process.stageNames
    · have hone (replicaId : Nat) : (process.stageNames.map (replicaId, ·)).filter
          (·.2 = stage.name) = [(replicaId, stage.name)] := by
        rw [List.filter_map]
        exact congrArg (List.map (replicaId, ·)) (filter_eq_singleton hnodup hmem)
      simp only [hone, if_pos hmem]
      have hne : List.range process.numReplicas ≠ [] := by
        intro hnil
        rw [List.range_eq_nil] at hnil
        omega
      rw [hnone _ hmem, ← List.map_eq_flatMap, List.map_map, extend, if_neg (by simpa using hne)]
      rfl
    · have hno (replicaId : Nat) : (process.stageNames.map (replicaId, ·)).filter
          (·.2 = stage.name) = [] := by
        rw [List.filter_eq_nil_iff]
        intro pair hpair
        obtain ⟨name, hname, rfl⟩ := List.mem_map.mp hpair
        simp only [decide_eq_true_eq]
        exact fun heq => hmem (heq ▸ hname)
      simp only [hno, if_neg hmem]
      simp [extend]
  · rw [Bool.eq_false_iff.mpr hreplicated, Bool.not_false, if_pos rfl]
    cases hdevices : process.replicaDevices with
    | none =>
      refine ⟨expanded, rfl, fun stage hstage => ?_⟩
      split
      · next hmem =>
        rw [hnone _ hmem, recorded, if_neg hreplicated, hdevices]
        rfl
      · rfl
    | some replicaDevices =>
      obtain ⟨expanded', hok, hget⟩ := foldlM_set expanded hby
        (fun stage => { stage with gpu := replicaStageGpu stage replicaDevices.head? })
        process.stageNames hnodup hin
      refine ⟨expanded', hok, fun stage hstage => ?_⟩
      rw [hget stage hstage, recorded, if_neg hreplicated, hdevices]
      rfl

variable (expanded) in
theorem foldlM_expandProcess (hby : ∀ stage ∈ stages, stageByName.get? stage.name = some stage)
    (processes : List LogicalProcess) (hnodup : (processes.flatMap (·.stageNames)).Nodup)
    (hin : ∀ process ∈ processes, ∀ name ∈ process.stageNames, ∃ stage ∈ stages, stage.name = name)
    (hnone : ∀ process ∈ processes, ∀ name ∈ process.stageNames, expanded.get? name = none) :
    ∃ expanded', processes.foldlM (expandProcess stageByName) expanded = .ok expanded' ∧
      ∀ stage ∈ stages,
        (∀ process ∈ processes, stage.name ∈ process.stageNames →
          expanded'.get? stage.name = recorded process stage) ∧
        ((∀ process ∈ processes, stage.name ∉ process.stageNames) →
          expanded'.get? stage.name = expanded.get? stage.name) := by
  induction processes generalizing expanded with
  | nil => exact ⟨expanded, rfl, fun stage _ => ⟨nofun, fun _ => rfl⟩⟩
  | cons process processes ih =>
    rw [List.flatMap_cons, List.nodup_append] at hnodup
    obtain ⟨hfirst, hrest, hdisjoint⟩ := hnodup
    obtain ⟨expanded₁, hok₁, hget₁⟩ := expandProcess_spec hby hfirst (hin process List.mem_cons_self)
      (hnone process List.mem_cons_self)
    have hapart : ∀ other ∈ processes, ∀ name ∈ other.stageNames, name ∉ process.stageNames :=
      fun other hother name hname hmem =>
        hdisjoint name hmem name (List.mem_flatMap.mpr ⟨other, hother, hname⟩) rfl
    obtain ⟨expanded', hok', hget'⟩ := ih expanded₁ hrest
      (fun other hother => hin other (List.mem_cons_of_mem _ hother)) (by
        intro other hother name hname
        obtain ⟨stage, hstage, rfl⟩ := hin other (List.mem_cons_of_mem _ hother) name hname
        rw [hget₁ stage hstage, if_neg (hapart other hother _ hname)]
        exact hnone other (List.mem_cons_of_mem _ hother) _ hname)
    refine ⟨expanded', ?_, fun stage hstage => ⟨fun other hother hmem => ?_, fun hnot => ?_⟩⟩
    · rw [List.foldlM_cons, hok₁]
      exact hok'
    · rcases List.mem_cons.mp hother with rfl | hother
      · have hlater : ∀ later ∈ processes, stage.name ∉ later.stageNames :=
          fun later hlater hname => hapart later hlater _ hname hmem
        rw [(hget' stage hstage).2 hlater, hget₁ stage hstage, if_pos hmem]
      · exact (hget' stage hstage).1 other hother hmem
    · rw [(hget' stage hstage).2 fun later hlater => hnot later (List.mem_cons_of_mem _ hlater),
        hget₁ stage hstage, if_neg (hnot process List.mem_cons_self)]

end Loops

section Expanded

variable {digits : Digits} {config : PipelineConfig} {plan : LogicalProcessPlan}
  {expanded : List StageConfig} {topology : ReplicaTopology}

structure Expanded (config : PipelineConfig) (plan : LogicalProcessPlan)
    (copies : StageConfig → List StageConfig) (expanded : List StageConfig)
    (topology : ReplicaTopology) : Prop where
  expanded_eq : expanded = config.stages.flatMap copies
  topology_eq : topology = ⟨replicaNames plan⟩
  copies_eq : ∀ stage ∈ config.stages, ∀ process ∈ plan.processes,
    process.name = processOrName stage → copies stage = instancesOf process stage

theorem Planned.expands (h : Planned config plan) (ha : Accepted digits config)
    (hok : expandReplicaStages config.stages plan = .ok (expanded, topology)) :
    ∃ copies, Expanded config plan copies expanded topology := by
  have hnodup : ((config.stages.map fun stage => (stage.name, stage)).map Prod.fst).Nodup := by
    rw [List.map_map]
    exact ha.names_nodup
  have hby : ∀ stage ∈ config.stages,
      (ofItems (config.stages.map fun stage => (stage.name, stage))).get? stage.name = some stage :=
    fun stage hstage => (get?_ofItems hnodup _ _).mpr (List.mem_map_of_mem hstage)
  obtain ⟨expandedByStage, hfold, hget⟩ := foldlM_expandProcess ∅ hby plan.processes
    (h.nodup_flatMap ha)
    (fun process hprocess name hname => by
      obtain ⟨stage, hstage, heq, -⟩ := h.exists_stage hprocess hname
      exact ⟨stage, hstage, heq⟩)
    fun _ _ _ _ => rfl
  simp only [expandReplicaStages, bind_eq_ok, hfold] at hok
  obtain ⟨_, -, _, hsame, hok⟩ := hok
  cases hsame
  cases hok
  refine ⟨fun stage => (expandedByStage.get? stage.name).getD [stage], rfl, rfl, ?_⟩
  intro stage hstage process hprocess hname
  have hmem := (h.mem_stageNames_iff ha hprocess hstage).mpr hname.symm
  show (expandedByStage.get? stage.name).getD [stage] = instancesOf process stage
  rw [(hget stage hstage).1 process hprocess hmem, instancesOf]

variable {copies : StageConfig → List StageConfig}

theorem Expanded.map_name (he : Expanded config plan copies expanded topology)
    {stage : StageConfig} (hstage : stage ∈ config.stages) {process : LogicalProcess}
    (hprocess : process ∈ plan.processes) (hname : process.name = processOrName stage) :
    (copies stage).map (·.name) = instanceNames process stage.name := by
  rw [he.copies_eq stage hstage process hprocess hname, map_name_instancesOf]

theorem Expanded.logicalName_eq (he : Expanded config plan copies expanded topology)
    (h : Planned config plan) (ha : Accepted digits config) {stage : StageConfig}
    (hstage : stage ∈ config.stages) {name : String} (hname : name ∈ (copies stage).map (·.name)) :
    topology.logicalName digits name = some stage.name := by
  obtain ⟨process, hprocess, hof⟩ := h.covers stage hstage
  rw [he.map_name hstage hprocess hof] at hname
  rw [he.topology_eq]
  exact h.logicalName_eq ha hprocess hstage hof hname

theorem Expanded.nodup (he : Expanded config plan copies expanded topology)
    (h : Planned config plan) (ha : Accepted digits config) :
    (expanded.map (·.name)).Nodup := by
  rw [he.expanded_eq, List.map_flatMap, List.nodup_flatMap]
  constructor
  · intro stage hstage
    obtain ⟨process, hprocess, hof⟩ := h.covers stage hstage
    rw [he.map_name hstage hprocess hof]
    exact nodup_instanceNames _ _
  · have hnames : config.stages.Pairwise fun stage other => stage.name ≠ other.name :=
      List.pairwise_map.mp ha.names_nodup
    refine hnames.imp_of_mem fun hstage hother hne => ?_
    refine List.disjoint_left.mpr fun name hname hname' => hne ?_
    have heq := he.logicalName_eq h ha hstage hname
    rw [he.logicalName_eq h ha hother hname'] at heq
    exact (Option.some.inj heq).symm

theorem Expanded.mem_of_instanceNames (he : Expanded config plan copies expanded topology)
    {stage : StageConfig} (hstage : stage ∈ config.stages) {process : LogicalProcess}
    (hprocess : process ∈ plan.processes) (hof : process.name = processOrName stage) {name : String}
    (hname : name ∈ instanceNames process stage.name) : name ∈ expanded.map (·.name) := by
  rw [he.expanded_eq, List.map_flatMap]
  exact List.mem_flatMap.mpr ⟨stage, hstage, by rw [he.map_name hstage hprocess hof]; exact hname⟩

end Expanded

/-! ### Bindings -/

theorem get?_foldl_bind (names : List String) (index : Nat) (bindings : Dict String Nat)
    (name : String) :
    (names.foldl (fun bindings stageName => bindings.set stageName index) bindings).get? name =
      if name ∈ names then some index else bindings.get? name := by
  induction names generalizing bindings with
  | nil => rfl
  | cons first names ih =>
    rw [List.foldl_cons, ih, Dict.get?_set]
    by_cases hmem : name ∈ names
    · rw [if_pos hmem, if_pos (List.mem_cons_of_mem _ hmem)]
    · by_cases heq : name = first
      · rw [if_neg hmem, if_pos heq, if_pos (heq ▸ List.mem_cons_self)]
      · rw [if_neg hmem, if_neg heq, if_neg (by simp [hmem, heq])]

section Bindings

variable {σ : Type} {policy : BindingPolicy σ} {requestId : String}

theorem bindProcesses_spec (processes : List LogicalProcess) (bindings : Dict String Nat) (state : σ)
    (hnodup : (processes.flatMap (·.stageNames)).Nodup) {bindings' : Dict String Nat}
    (h : (bindProcesses policy requestId processes bindings state).1 = .ok bindings') :
    (∀ process ∈ processes, process.isReplicated = true → ∃ index < process.numReplicas,
      ∀ name ∈ process.stageNames, bindings'.get? name = some index) ∧
    ∀ name, (∀ process ∈ processes, name ∉ process.stageNames) →
      bindings'.get? name = bindings.get? name := by
  induction processes generalizing bindings state with
  | nil =>
    cases h
    exact ⟨nofun, fun _ _ => rfl⟩
  | cons process processes ih =>
    rw [List.flatMap_cons, List.nodup_append] at hnodup
    obtain ⟨hfirst, hrest, hdisjoint⟩ := hnodup
    have hapart : ∀ name ∈ process.stageNames, ∀ other ∈ processes, name ∉ other.stageNames :=
      fun name hname other hother hmem =>
        hdisjoint name hname name (List.mem_flatMap.mpr ⟨other, hother, hmem⟩) rfl
    rw [bindProcesses] at h
    split at h
    · next hnot =>
      obtain ⟨hindex, hother⟩ := ih bindings state hrest h
      refine ⟨fun other hother hreplicated => ?_, fun name hname => ?_⟩
      · rcases List.mem_cons.mp hother with rfl | hother
        · rw [hreplicated] at hnot
          cases hnot
        · exact hindex other hother hreplicated
      · exact hother name fun other hmem => hname other (List.mem_cons_of_mem _ hmem)
    · simp only at h
      split at h
      · next hrange =>
        obtain ⟨hindex, hother⟩ := ih _ _ hrest h
        refine ⟨fun other hother' hreplicated => ?_, fun name hname => ?_⟩
        · rcases List.mem_cons.mp hother' with rfl | hmem
          · refine ⟨(policy.bind state other.name other.numReplicas requestId).1.toNat,
              (Int.toNat_lt hrange.1).mpr hrange.2, fun name hname => ?_⟩
            rw [hother name (hapart name hname), get?_foldl_bind, if_pos hname]
          · exact hindex other hmem hreplicated
        · rw [hother name fun other hmem => hname other (List.mem_cons_of_mem _ hmem),
            get?_foldl_bind, if_neg (hname process List.mem_cons_self)]
      · cases h

variable (requestId) in
theorem bindProcesses_roundRobin (processes : List LogicalProcess) (bindings : Dict String Nat)
    (counters : Dict String Nat) :
    ∃ bindings', (bindProcesses roundRobin requestId processes bindings counters).1 =
      .ok bindings' := by
  induction processes generalizing bindings counters with
  | nil => exact ⟨bindings, rfl⟩
  | cons process processes ih =>
    rw [bindProcesses]
    split
    · exact ih bindings counters
    · next hreplicated =>
      have hpos : 1 < process.numReplicas := by simpa [LogicalProcess.isReplicated] using hreplicated
      have hlt := Nat.mod_lt ((counters.get? process.name).getD 0) (Nat.lt_of_succ_lt hpos)
      have hrange : 0 ≤ (roundRobin.bind counters process.name process.numReplicas requestId).1 ∧
          (roundRobin.bind counters process.name process.numReplicas requestId).1 <
            process.numReplicas := ⟨Int.natCast_nonneg _, Int.ofNat_lt.mpr hlt⟩
      simp only
      rw [if_pos hrange]
      exact ih _ _

def Bound (plan : LogicalProcessPlan) (topology : ReplicaTopology) (expanded : List StageConfig)
    (bindings : Option (Dict String Nat)) : Prop :=
  ∀ process ∈ plan.processes, ∃ index < process.numReplicas, ∀ stageName ∈ process.stageNames,
    (process.isReplicated = true → bindings.bind (·.get? stageName) = some index) ∧
    ∃ name, topology.resolve stageName index = some name ∧
      resolveTargetInstance topology bindings stageName = some name ∧
      name ∈ expanded.map (·.name)

end Bindings

section Admissions

variable {digits : Digits} {config : PipelineConfig} {plan : LogicalProcessPlan}
  {expanded : List StageConfig} {topology : ReplicaTopology}
  {copies : StageConfig → List StageConfig}

theorem Expanded.resolve_single (he : Expanded config plan copies expanded topology)
    (h : Planned config plan) (ha : Accepted digits config) {process : LogicalProcess}
    (hprocess : process ∈ plan.processes) (hsingle : ¬ process.isReplicated = true)
    {stageName : String} (hname : stageName ∈ process.stageNames)
    (bindings : Option (Dict String Nat)) :
    topology.resolve stageName 0 = some stageName ∧
      resolveTargetInstance topology bindings stageName = some stageName ∧
      stageName ∈ expanded.map (·.name) := by
  have hget := h.replicaNames_get? ha hprocess hname
  rw [if_neg hsingle] at hget
  obtain ⟨stage, hstage, rfl, hof⟩ := h.exists_stage hprocess hname
  refine ⟨?_, ?_, ?_⟩
  · simp only [ReplicaTopology.resolve, he.topology_eq, hget, if_true]
  · have hnot : topology.isReplicated stage.name = false := by
      rw [he.topology_eq, ReplicaTopology.isReplicated, Dict.contains_eq_false]
      exact hget
    simp only [resolveTargetInstance, hnot, Bool.not_false, if_true]
  · apply he.mem_of_instanceNames hstage hprocess hof.symm
    rw [instanceNames, if_neg hsingle]
    exact List.mem_singleton_self _

theorem Expanded.resolve_replica (he : Expanded config plan copies expanded topology)
    (h : Planned config plan) (ha : Accepted digits config) {process : LogicalProcess}
    (hprocess : process ∈ plan.processes) (hreplicated : process.isReplicated = true)
    {stageName : String} (hname : stageName ∈ process.stageNames) {bindings : Dict String Nat}
    {index : Nat} (hlt : index < process.numReplicas) (hbound : bindings.get? stageName = some index) :
    topology.resolve stageName index = some (replicaInstanceName stageName index) ∧
      resolveTargetInstance topology (some bindings) stageName =
        some (replicaInstanceName stageName index) ∧
      replicaInstanceName stageName index ∈ expanded.map (·.name) := by
  have hget := h.replicaNames_get? ha hprocess hname
  rw [if_pos hreplicated] at hget
  obtain ⟨stage, hstage, rfl, hof⟩ := h.exists_stage hprocess hname
  have hresolve : topology.resolve stage.name index = some (replicaInstanceName stage.name index) := by
    simp only [ReplicaTopology.resolve, he.topology_eq, hget, instanceNames, if_pos hreplicated]
    rw [List.getElem?_map, List.getElem?_range hlt]
    rfl
  refine ⟨hresolve, ?_, ?_⟩
  · have hcontains : topology.isReplicated stage.name = true := by
      rw [he.topology_eq, ReplicaTopology.isReplicated, Dict.contains_iff]
      exact ⟨_, hget⟩
    simp only [resolveTargetInstance, hcontains, Bool.not_true, Bool.false_eq_true, if_false,
      Option.bind_some, hbound]
    exact hresolve
  · apply he.mem_of_instanceNames hstage hprocess hof.symm
    rw [instanceNames, if_pos hreplicated]
    exact List.mem_map_of_mem (List.mem_range.mpr hlt)

theorem Expanded.bound (he : Expanded config plan copies expanded topology)
    (h : Planned config plan) (ha : Accepted digits config) {σ : Type} {policy : BindingPolicy σ}
    {requestId : String} {state : σ} {bindings : Option (Dict String Nat)}
    (hok : (assignReplicaBindings policy requestId plan state).1 = .ok bindings) :
    Bound plan topology expanded bindings := by
  intro process hprocess
  by_cases hreplicated : process.isReplicated = true
  · have hhas : plan.hasReplicas = true := List.any_eq_true.mpr ⟨process, hprocess, hreplicated⟩
    rw [assignReplicaBindings, hhas, Bool.not_true, if_neg Bool.false_ne_true] at hok
    simp only at hok
    cases hbind : (bindProcesses policy requestId plan.processes ∅ state).1 with
    | error error =>
      rw [hbind] at hok
      cases hok
    | ok bindings' =>
      rw [hbind] at hok
      obtain rfl : some bindings' = bindings := Except.ok.inj hok
      obtain ⟨index, hlt, hindex⟩ :=
        (bindProcesses_spec plan.processes ∅ state (h.nodup_flatMap ha) hbind).1 process hprocess
          hreplicated
      refine ⟨index, hlt, fun stageName hname =>
        ⟨fun _ => hindex stageName hname, replicaInstanceName stageName index, ?_⟩⟩
      exact he.resolve_replica h ha hprocess hreplicated hname hlt (hindex stageName hname)
  · have hpos : 0 < process.numReplicas := by
      rw [h.numReplicas_eq process hprocess]
      exact ProcessConfig.replicas_pos _
    refine ⟨0, hpos, fun stageName hname => ⟨fun hyes => absurd hyes hreplicated, stageName, ?_⟩⟩
    exact he.resolve_single h ha hprocess hreplicated hname bindings

theorem Expanded.bound_all (he : Expanded config plan copies expanded topology)
    (h : Planned config plan) (ha : Accepted digits config) {σ : Type} {policy : BindingPolicy σ}
    (requestIds : List String) (state : σ) {bindings : Option (Dict String Nat)}
    (hmem : .ok bindings ∈ admitAll policy plan state requestIds) :
    Bound plan topology expanded bindings := by
  induction requestIds generalizing state with
  | nil => cases hmem
  | cons requestId requestIds ih =>
    rw [admitAll] at hmem
    rcases List.mem_cons.mp hmem with hhead | hrest
    · exact he.bound h ha hhead.symm
    · exact ih _ hrest

theorem admitAll_roundRobin (plan : LogicalProcessPlan) (requestIds : List String)
    (counters : Dict String Nat) :
    ∀ result ∈ admitAll roundRobin plan counters requestIds, ∃ bindings, result = .ok bindings := by
  induction requestIds generalizing counters with
  | nil => exact nofun
  | cons requestId requestIds ih =>
    intro result hmem
    rcases List.mem_cons.mp hmem with hhead | hrest
    · rw [hhead]
      show ∃ bindings, (assignReplicaBindings roundRobin requestId plan counters).1 = .ok bindings
      unfold assignReplicaBindings
      split
      · exact ⟨none, rfl⟩
      · obtain ⟨bindings, hbind⟩ :=
          bindProcesses_roundRobin requestId plan.processes ∅ counters
        exact ⟨some bindings, by simp only [hbind]; rfl⟩
    · exact ih _ result hrest

end Admissions

/-! ### Processes of the operating system -/

section Processes

variable {gpuIds : StageConfig → List (Option Nat)}
  {validateColocation : ProcessTopologyPlan → Except PlanError Unit} {stages : List StageConfig}
  {plan : ProcessTopologyPlan}

theorem groups_of_buildProcessGroups {groups : List ProcessGroupPlacement}
    (h : buildProcessGroups gpuIds stages = .ok groups) :
    (groups.map (·.name)).Nodup ∧
    (∀ group ∈ groups, group.stageNames ≠ [] ∧
      group.stageNames = ((stages.filter (·.tpSize = 1)).filter
        (processOrName · = group.name)).map (·.name)) := by
  simp only [buildProcessGroups, bind_eq_ok] at h
  obtain ⟨components, hcomponents, hgroups⟩ := h
  have hgrouped := grouped_of_groupStages (mapError_eq_ok.mp hcomponents)
  have hone {entry : String × List StageConfig} {group : ProcessGroupPlacement}
      (hok : (do
        let gpuId ← resolveGroupGpuId gpuIds entry.1 entry.2
        return ({ name := entry.1, stageNames := entry.2.map (·.name), gpuId } :
          ProcessGroupPlacement)) = Except.ok group) :
      group.name = entry.1 ∧ group.stageNames = entry.2.map (·.name) := by
    obtain ⟨gpuId, -, hok⟩ := bind_eq_ok.mp hok
    cases hok
    exact ⟨rfl, rfl⟩
  constructor
  · have hnames : ∀ {entries : List (String × List StageConfig)} {groups : List ProcessGroupPlacement},
        List.Forall₂ (fun entry group => (do
          let gpuId ← resolveGroupGpuId gpuIds entry.1 entry.2
          return ({ name := entry.1, stageNames := entry.2.map (·.name), gpuId } :
            ProcessGroupPlacement)) = Except.ok group) entries groups →
        groups.map (·.name) = entries.map Prod.fst := by
      intro entries groups hall
      induction hall with
      | nil => rfl
      | cons hok _ ih => rw [List.map_cons, List.map_cons, ih, (hone hok).1]
    rw [hnames (mapM_eq_ok hgroups)]
    exact components.nodup
  · intro group hmem
    obtain ⟨⟨name, component⟩, hentry, hok⟩ := exists_of_mem_mapM hgroups hmem
    obtain ⟨hname, hstageNames⟩ := hone hok
    have hget := (components.mem_entries_iff name component).mp hentry
    rw [hgrouped name] at hget
    split at hget
    · cases hget
    · next hne =>
      obtain rfl := Option.some.inj hget
      rw [hstageNames, hname]
      refine ⟨fun hnil => hne ?_, rfl⟩
      exact List.map_eq_nil_iff.mp hnil

theorem refusePlan_eq_ok {failed : Bool} {error : PlanError} {u : Unit} :
    refusePlan failed error = .ok u ↔ failed = false := by
  cases failed <;> simp [refusePlan]

/-- A computation that raises nothing but `ValueError`. -/
def RaisesValueError {α : Type} (x : Except PlanError α) : Prop :=
  ∀ error, x = .error error → error.isValueError = true

namespace RaisesValueError

variable {α β : Type}

theorem ok (a : α) : RaisesValueError (.ok a) := nofun

theorem bind {x : Except PlanError α} {f : α → Except PlanError β} (hx : RaisesValueError x)
    (hf : ∀ a, RaisesValueError (f a)) : RaisesValueError (x >>= f) := by
  cases x with
  | error error =>
    intro error' h
    cases h
    exact hx error rfl
  | ok a => exact hf a

theorem refuse {failed : Bool} {error : PlanError} (h : error.isValueError = true) :
    RaisesValueError (refusePlan failed error) := by
  intro error' herror
  cases failed with
  | false => cases herror
  | true =>
    cases herror
    exact h

theorem mapError {ε : Type} {x : Except ε α} {f : ε → PlanError}
    (h : ∀ error, (f error).isValueError = true) : RaisesValueError (x.mapError f) := by
  intro error' herror
  cases x with
  | error error =>
    cases herror
    exact h error
  | ok a => cases herror

theorem mapM {l : List α} {f : α → Except PlanError β} (h : ∀ a, RaisesValueError (f a)) :
    RaisesValueError (l.mapM f) := by
  induction l with
  | nil => exact ok []
  | cons a l ih =>
    rw [List.mapM_cons]
    exact (h a).bind fun b => ih.bind fun rest => ok _

end RaisesValueError

theorem buildProcessTopologyPlan_raises
    (h : ∀ plan, RaisesValueError (validateColocation plan)) :
    RaisesValueError (buildProcessTopologyPlan gpuIds validateColocation stages) := by
  unfold buildProcessTopologyPlan
  refine RaisesValueError.bind ?_ fun groups => RaisesValueError.bind ?_ fun _ =>
    (h _).bind fun _ => .ok _
  · refine RaisesValueError.bind (.mapError fun _ => rfl) fun components => .mapM fun entry => ?_
    refine RaisesValueError.bind ?_ fun gpuId => .ok _
    unfold resolveGroupGpuId
    refine RaisesValueError.bind (.refuse rfl) fun _ => ?_
    split
    · split <;> exact .ok _
    · exact RaisesValueError.bind (.refuse rfl) fun _ => .ok _
  · exact RaisesValueError.bind (.refuse rfl) fun _ => .refuse rfl

def ProcessTopologyPlan.processNames (plan : ProcessTopologyPlan) : List String :=
  plan.groups.map (·.name) ++ plan.tpStageToProcesses.entries.flatMap (·.2)

theorem processNames_nodup (hstages : (stages.map (·.name)).Nodup)
    (h : buildProcessTopologyPlan gpuIds validateColocation stages = .ok plan) :
    plan.processNames.Nodup := by
  simp only [buildProcessTopologyPlan, validateProcessNameUniqueness, bind_eq_ok,
    refusePlan_eq_ok] at h
  obtain ⟨groups, hgroups, _, ⟨_, hduplicates, hcollisions⟩, _, -, h⟩ := h
  cases h
  obtain ⟨hnames, hgroup⟩ := groups_of_buildProcessGroups hgroups
  simp only [Bool.not_eq_false', List.isEmpty_iff, List.filter_eq_nil_iff, decide_eq_true_eq]
    at hduplicates hcollisions
  rw [ProcessTopologyPlan.processNames, List.nodup_append]
  refine ⟨hnames, ?_, ?_⟩
  · rw [List.nodup_iff_count_le_one]
    intro name
    by_cases hmem : name ∈ (buildTpProcessNames stages).entries.flatMap (·.2)
    · exact Nat.le_of_not_lt (hduplicates name hmem)
    · exact (List.count_eq_zero_of_not_mem hmem).trans_le (Nat.zero_le 1)
  · rintro name hname tpName htpName rfl
    obtain ⟨group, hmem, rfl⟩ := List.mem_map.mp hname
    obtain ⟨hne, -⟩ := hgroup group hmem
    obtain ⟨stageName, hstageName⟩ := List.exists_mem_of_ne_nil _ hne
    refine hcollisions group.name (List.mem_map.mpr ⟨(stageName, group.name), ?_, rfl⟩) htpName
    have hkeys : ((groups.flatMap fun group => group.stageNames.map (·, group.name)).map
        Prod.fst).Nodup := by
      rw [map_fst_flatMap groups _ fun group _ => group.name]
      exact nodup_flatMap_groups ((List.filter_sublist.map _).nodup hstages) hnames
        fun group hgroup' => (hgroup group hgroup').2
    rw [Dict.mem_entries_iff, get?_ofItems hkeys]
    exact List.mem_flatMap.mpr ⟨group, hmem, List.mem_map_of_mem hstageName⟩

end Processes

/-- The replicas of an accepted configuration: distinct instance names, each stage as often as its
process has replicas and in the order of the configuration, instances that lead back to their stages,
bindings to one replica of each process at every admission, names that are parsed back, and distinct
names of the processes of the operating system, or a refusal with `ValueError`. -/
theorem replicas_consistent (digits : Digits) (config : PipelineConfig)
    (h : config.validate digits = .ok ()) (plan : LogicalProcessPlan) (stages : List StageConfig)
    (hplan : compileLogicalProcesses config = .ok (plan, stages)) (expanded : List StageConfig)
    (topology : ReplicaTopology) (hexpand : expandReplicaStages stages plan = .ok (expanded, topology)) :
    (expanded.map (·.name)).Nodup ∧
    (∃ copies : StageConfig → List StageConfig, expanded = config.stages.flatMap copies ∧
      ∀ stage ∈ config.stages, ∃ process, plan.processOf stage.name = some process ∧
        process.numReplicas = ((config.processes.get? process.name).getD {}).numReplicas ∧
        (copies stage).length = process.numReplicas ∧
        ∀ copy ∈ copies stage, topology.logicalName digits copy.name = some stage.name) ∧
    (∀ (σ : Type) (policy : BindingPolicy σ) (state : σ) (requestIds : List String)
      (bindings : Option (Dict String Nat)), .ok bindings ∈ admitAll policy plan state requestIds →
        Bound plan topology expanded bindings) ∧
    (∀ (requestIds : List String), ∀ result ∈ admitAll roundRobin plan ∅ requestIds,
      ∃ bindings, result = .ok bindings) ∧
    (∀ (name : String) (replicaId : Nat),
      parseReplicaInstanceName digits (replicaInstanceName name replicaId) =
        some (name, some replicaId)) ∧
    ∀ (gpuIds : StageConfig → List (Option Nat))
      (validateColocation : ProcessTopologyPlan → Except PlanError Unit),
      (∀ processPlan, RaisesValueError (validateColocation processPlan)) →
      match buildProcessTopologyPlan gpuIds validateColocation expanded with
      | .ok processPlan => processPlan.processNames.Nodup
      | .error error => error.isValueError = true := by
  have ha := accepted_of_validate h
  obtain ⟨rfl, hp⟩ := planned_of_compile hplan
  obtain ⟨copies, he⟩ := hp.expands ha hexpand
  have hnodup := he.nodup hp ha
  refine ⟨hnodup, ⟨copies, he.expanded_eq, fun stage hstage => ?_⟩, ?_, ?_, ?_, ?_⟩
  · obtain ⟨process, hprocess, hof⟩ := hp.covers stage hstage
    have hreplicas := hp.numReplicas_eq process hprocess
    refine ⟨process, hp.processOf_eq ha hprocess hstage hof, hreplicas, ?_, fun copy hcopy => ?_⟩
    · have hpos : 0 < process.numReplicas := by
        rw [hreplicas]
        exact ProcessConfig.replicas_pos _
      rw [← length_instanceNames hpos stage.name, ← he.map_name hstage hprocess hof, List.length_map]
    · exact he.logicalName_eq hp ha hstage (List.mem_map_of_mem hcopy)
  · exact fun σ policy state requestIds bindings hmem => he.bound_all hp ha requestIds state hmem
  · exact fun requestIds => admitAll_roundRobin plan requestIds ∅
  · exact parse_replicaInstanceName digits
  · intro gpuIds validateColocation hraises
    cases hbuild : buildProcessTopologyPlan gpuIds validateColocation expanded with
    | ok processPlan => exact processNames_nodup hnodup hbuild
    | error error => exact buildProcessTopologyPlan_raises hraises error hbuild

def replicatedConfig : PipelineConfig where
  modelPath := "model"
  stages := [
    { name := "encode", factoryPath := "factory", next := some (.stage "decode"), gpu := some (.id 0)
      tp_pos := Nat.one_pos, process := some "front", process_ne := by decide },
    { name := "decode", factoryPath := "factory", terminal := true, gpu := some (.ids [1, 2])
      tpSize := 2, tp_pos := Nat.two_pos }]
  processes := ofItems [("decode",
    { numReplicas := 2, replicaDevices := some [1, 2, 3, 4], replicas_pos := Nat.two_pos
      devices_ne := by decide })]

theorem replicas_consistent_replicated :
    ∃ plan stages expanded topology,
      compileLogicalProcesses replicatedConfig = .ok (plan, stages) ∧
      expandReplicaStages stages plan = .ok (expanded, topology) ∧ (expanded.map (·.name)).Nodup := by
  have hok : (compileLogicalProcesses replicatedConfig >>= fun (plan, stages) =>
      expandReplicaStages stages plan).isOk = true := by decide +kernel
  obtain ⟨⟨expanded, topology⟩, hok⟩ := exists_of_isOk hok
  obtain ⟨⟨plan, stages⟩, hplan, hexpand⟩ := bind_eq_ok.mp hok
  exact ⟨plan, stages, expanded, topology, hplan, hexpand,
    (replicas_consistent asciiDigits replicatedConfig (by decide +kernel) plan stages hplan expanded
      topology hexpand).1⟩

end Config
