import SglangOmni.Config.Accepted

/-! The process topology of a pipeline: its logical processes, the instances of a replicated process,
the bindings of a request to them, and the names of the processes of the operating system. -/

namespace Config

open Lib

/-- What the planning raises: a `ValueError`, or the `KeyError` of an unknown name. -/
inductive PlanError
  | invalid (error : ValueError)
  | nativeRuntimeReplicated (process : String)
  | replicaDevicesRequired (process : String)
  | replicaDevicesWithoutGpu (process : String)
  | replicaDevicesCount (process : String) (given expected : Nat)
  | replicaDevicesRepeated (process : String) (replicaId : Nat)
  | crossProcessEdges (edges : List (String × String))
  | replicatedRoutes (stage : String)
  | unknownName (name : String)
  | bindingOutOfRange (process : String) (index : Int)
  | nativeChildrenShareProcess (process : String)
  | severalGpus (process : String)
  | duplicateTpProcesses (names : List String)
  | tpProcessCollisions (names : List String)
  deriving DecidableEq

def PlanError.isValueError : PlanError → Bool
  | .unknownName _ => false
  | _ => true

def refusePlan (failed : Bool) (error : PlanError) : Except PlanError Unit :=
  if failed then .error error else .ok ()

def lookup {ν : Type} (value : Option ν) (name : String) : Except PlanError ν :=
  match value with
  | some value => .ok value
  | none => .error (.unknownName name)

def ofItems {ν : Type} (items : List (String × ν)) : Dict String ν :=
  items.foldl (fun d item => d.set item.1 item.2) ∅

/-! ### Logical processes -/

/-- `replicaDevices` has the devices of each replica. -/
structure LogicalProcess where
  name : String
  stageNames : List String
  tpSize : Nat
  numReplicas : Nat
  replicaDevices : Option (List (List Nat))

def LogicalProcess.isReplicated (process : LogicalProcess) : Bool := 1 < process.numReplicas

structure LogicalProcessPlan where
  processes : List LogicalProcess
  stageToProcess : Dict String String

/-- `process_of`; `none` where a name is unknown. -/
def LogicalProcessPlan.processOf (plan : LogicalProcessPlan) (stageName : String) :
    Option LogicalProcess :=
  (plan.stageToProcess.get? stageName).bind fun processName =>
    plan.processes.find? (·.name = processName)

def LogicalProcessPlan.hasReplicas (plan : LogicalProcessPlan) : Bool :=
  plan.processes.any (·.isReplicated)

def devicesOf (deviceIds : List Nat) (tpSize index : Nat) : List Nat :=
  (deviceIds.drop (index * tpSize)).take tpSize

def resolveReplicaDevices (processName : String) (stages : List StageConfig) (policy : ProcessConfig)
    (tpSize : Nat) : Except PlanError (Option (List (List Nat))) :=
  let hasGpuStage := stages.any (·.gpu.isSome)
  match policy.replicaDevices with
  | none =>
    if 1 < policy.numReplicas && hasGpuStage then .error (.replicaDevicesRequired processName)
    else .ok none
  | some deviceIds => do
    refusePlan (!hasGpuStage) (.replicaDevicesWithoutGpu processName)
    refusePlan (deviceIds.length != policy.numReplicas * tpSize)
      (.replicaDevicesCount processName deviceIds.length (policy.numReplicas * tpSize))
    let replicaDevices := (List.range policy.numReplicas).map (devicesOf deviceIds tpSize)
    match replicaDevices.findIdx? (fun devices => !decide devices.Nodup) with
    | some replicaId => .error (.replicaDevicesRepeated processName replicaId)
    | none => .ok (some replicaDevices)

def buildLogicalProcess (name : String) (stages : List StageConfig)
    (processCfg : Option ProcessConfig) : Except PlanError LogicalProcess := do
  let policy := processCfg.getD {}
  refusePlan (1 < policy.numReplicas && stages.any (·.runtimeGpuIds.isSome))
    (.nativeRuntimeReplicated name)
  let tpSize := (stages.map (·.tpSize)).foldl max 0
  let replicaDevices ← resolveReplicaDevices name stages policy tpSize
  return {
    name
    stageNames := stages.map (·.name)
    tpSize
    numReplicas := policy.numReplicas
    replicaDevices }

def pipelineEdges (stages : List StageConfig) : List (String × String) :=
  stages.flatMap fun stage =>
    (((stage.next.map (·.targets)).getD [] ++ stage.streamTo).map (stage.name, ·)) ++
      stage.waitFor.map (·, stage.name)

def crossProcessEdges (stages : List StageConfig) (plan : LogicalProcessPlan) :
    List (String × String) :=
  (pipelineEdges stages).filter fun (source, destination) =>
    plan.stageToProcess.get? source != plan.stageToProcess.get? destination

def compileLogicalProcesses (config : PipelineConfig) :
    Except PlanError (LogicalProcessPlan × List StageConfig) := do
  let members ← (groupStagesByProcess config.stages).mapError .invalid
  let processes ← members.entries.mapM fun (name, stages) =>
    buildLogicalProcess name stages (config.processes.get? name)
  let plan : LogicalProcessPlan := {
    processes
    stageToProcess := ofItems (processes.flatMap fun process =>
      process.stageNames.map (·, process.name)) }
  let edges := crossProcessEdges config.stages plan
  refusePlan (config.processLocalEdges.any (· ∈ edges))
    (.crossProcessEdges (config.processLocalEdges.filter (· ∈ edges)))
  return (plan, config.stages)

/-! ### Replicas -/

structure ReplicaTopology where
  replicas : Dict String (List String)

namespace ReplicaTopology

variable (topology : ReplicaTopology)

def isReplicated (logicalName : String) : Bool := topology.replicas.contains logicalName

/-- `resolve`; an index out of range raises. -/
def resolve (logicalName : String) (replicaId : Nat) : Option String :=
  match topology.replicas.get? logicalName with
  | none => if replicaId = 0 then some logicalName else none
  | some instances => instances[replicaId]?

/-- `logical_name`; `none` where the name cannot be parsed. -/
def logicalName (digits : Digits) (name : String) : Option String :=
  (parseReplicaInstanceName digits name).map fun (logical, replicaId) =>
    match replicaId with
    | none => name
    | some _ =>
      match topology.replicas.get? logical with
      | none => name
      | some instances => if instances.contains name then logical else name

end ReplicaTopology

def replicaStageGpu (stage : StageConfig) (devices : Option (List Nat)) : Option Gpu :=
  match devices, stage.gpu with
  | none, gpu => gpu
  | some _, none => none
  | some devices, some _ =>
    if stage.tpSize = 1 then devices.head?.map .id else some (.ids devices)

theorem replicaInstanceName_ne_empty (name : String) (replicaId : Nat) :
    some (replicaInstanceName name replicaId) ≠ some "" := by
  intro h
  have hlist := congrArg String.toList (Option.some.inj h)
  rw [replicaInstanceName, String.toList_append, String.toList_append] at hlist
  simp [replicaSeparator] at hlist

def replicaStage (process : LogicalProcess) (stage : StageConfig) (replicaId : Nat) : StageConfig :=
  { stage with
    name := replicaInstanceName stage.name replicaId
    gpu := replicaStageGpu stage ((process.replicaDevices.bind (·[replicaId]?)))
    process := some (replicaInstanceName process.name replicaId)
    process_ne := replicaInstanceName_ne_empty process.name replicaId }

def replicaNames (plan : LogicalProcessPlan) : Dict String (List String) :=
  ofItems ((plan.processes.filter (·.isReplicated)).flatMap fun process =>
    process.stageNames.map fun stageName =>
      (stageName, (List.range process.numReplicas).map (replicaInstanceName stageName)))

/-- `expanded_by_stage.setdefault(stage_name, []).append(stage)`. -/
def appendStage (expanded : Dict String (List StageConfig)) (stageName : String)
    (stage : StageConfig) : Dict String (List StageConfig) :=
  expanded.set stageName ((expanded.get? stageName).getD [] ++ [stage])

/-- The turn of `expand_replica_stages` for one process. -/
def expandProcess (stageByName : Dict String StageConfig)
    (expanded : Dict String (List StageConfig)) (process : LogicalProcess) :
    Except PlanError (Dict String (List StageConfig)) :=
  if !process.isReplicated then
    match process.replicaDevices with
    | none => .ok expanded
    | some replicaDevices =>
      process.stageNames.foldlM (fun expanded stageName => do
        let stage ← lookup (stageByName.get? stageName) stageName
        return expanded.set stageName
          [{ stage with gpu := replicaStageGpu stage replicaDevices.head? }]) expanded
  else
    ((List.range process.numReplicas).flatMap fun replicaId =>
        process.stageNames.map (replicaId, ·)).foldlM (fun expanded (replicaId, stageName) => do
      let stage ← lookup (stageByName.get? stageName) stageName
      return appendStage expanded stageName (replicaStage process stage replicaId)) expanded

def expandReplicaStages (stages : List StageConfig) (plan : LogicalProcessPlan) :
    Except PlanError (List StageConfig × ReplicaTopology) := do
  let replicas := replicaNames plan
  let stageByName := ofItems (stages.map fun stage => (stage.name, stage))
  replicas.keys.forM fun stageName => do
    let stage ← lookup (stageByName.get? stageName) stageName
    refusePlan (!stage.httpRoutes.isEmpty) (.replicatedRoutes stageName)
  let expandedByStage ← plan.processes.foldlM (expandProcess stageByName) ∅
  let expanded := stages.flatMap fun stage => (expandedByStage.get? stage.name).getD [stage]
  return (expanded, ⟨replicas⟩)

/-! ### Bindings -/

/-- A policy that selects a replica at each admission, with its state. -/
structure BindingPolicy (σ : Type) where
  bind : σ → String → Nat → String → Int × σ

/-- `RoundRobinBindingPolicy`: a counter for each process. -/
def roundRobin : BindingPolicy (Dict String Nat) where
  bind counters processName numReplicas _ :=
    let index := (counters.get? processName).getD 0
    (((index % numReplicas : Nat) : Int), counters.set processName (index + 1))

section Bindings

variable {σ : Type} (policy : BindingPolicy σ) (requestId : String)

/-- The loop of `assign_replica_bindings` over the replicated processes. -/
def bindProcesses : List LogicalProcess → Dict String Nat → σ →
    Except PlanError (Dict String Nat) × σ
  | [], bindings, state => (.ok bindings, state)
  | process :: rest, bindings, state =>
    if !process.isReplicated then bindProcesses rest bindings state
    else
      let (index, state) := policy.bind state process.name process.numReplicas requestId
      if 0 ≤ index ∧ index < process.numReplicas then
        bindProcesses rest
          (process.stageNames.foldl (fun bindings stageName => bindings.set stageName index.toNat)
            bindings) state
      else (.error (.bindingOutOfRange process.name index), state)

def assignReplicaBindings (plan : LogicalProcessPlan) (state : σ) :
    Except PlanError (Option (Dict String Nat)) × σ :=
  if !plan.hasReplicas then (.ok none, state)
  else
    let (bindings, state) := bindProcesses policy requestId plan.processes ∅ state
    (bindings.map some, state)

end Bindings

def admitAll {σ : Type} (policy : BindingPolicy σ) (plan : LogicalProcessPlan) :
    σ → List String → List (Except PlanError (Option (Dict String Nat)))
  | _, [] => []
  | state, requestId :: rest =>
    let (bindings, state) := assignReplicaBindings policy requestId plan state
    bindings :: admitAll policy plan state rest

/-- `resolve_target_instance`: the instance of a logical stage that a request is bound to. -/
def resolveTargetInstance (topology : ReplicaTopology) (bindings : Option (Dict String Nat))
    (target : String) : Option String :=
  if !topology.isReplicated target then some target
  else (bindings.bind (·.get? target)).bind (topology.resolve target)

/-! ### Processes of the operating system -/

structure ProcessGroupPlacement where
  name : String
  stageNames : List String
  gpuId : Option Nat

structure ProcessTopologyPlan where
  groups : List ProcessGroupPlacement
  stageToProcess : Dict String String
  tpStageToProcesses : Dict String (List String)

def tpProcessName (stage : StageConfig) (tpRank : Nat) : String :=
  processOrName stage ++ "_tp" ++ toString tpRank

def buildTpProcessNames (stages : List StageConfig) : Dict String (List String) :=
  ofItems ((stages.filter (1 < ·.tpSize)).map fun stage =>
    (stage.name, (List.range stage.tpSize).map (tpProcessName stage)))

section Groups

-- the GPU ids of the ranks of a stage, as the placement plan resolves them
variable (gpuIds : StageConfig → List (Option Nat))

def resolveGroupGpuId (groupName : String) (stages : List StageConfig) :
    Except PlanError (Option Nat) := do
  let children := stages.any (·.allowChildProcesses)
  refusePlan (children && stages.length != 1) (.nativeChildrenShareProcess groupName)
  match stages.find? fun stage => children && stage.runtimeGpuIds.isSome with
  | some stage =>
    match stage.gpu with
    | some (.id gpu) => .ok (some gpu)
    | _ => .ok none
  | none =>
    let ids := (stages.flatMap gpuIds).reduceOption.dedup
    refusePlan (1 < ids.length) (.severalGpus groupName)
    .ok ids.head?

def buildProcessGroups (stages : List StageConfig) :
    Except PlanError (List ProcessGroupPlacement) := do
  let components ← (groupStagesByProcess (stages.filter (·.tpSize = 1))).mapError .invalid
  components.entries.mapM fun (groupName, component) => do
    let gpuId ← resolveGroupGpuId gpuIds groupName component
    return { name := groupName, stageNames := component.map (·.name), gpuId }

def validateProcessNameUniqueness (plan : ProcessTopologyPlan) : Except PlanError Unit := do
  let nonTpProcesses := plan.stageToProcess.entries.map (·.2)
  let tpProcesses := plan.tpStageToProcesses.entries.flatMap (·.2)
  let duplicates := tpProcesses.filter fun name => 1 < tpProcesses.count name
  refusePlan (!duplicates.isEmpty) (.duplicateTpProcesses duplicates)
  let collisions := nonTpProcesses.filter (· ∈ tpProcesses)
  refusePlan (!collisions.isEmpty) (.tpProcessCollisions collisions)

/-- `validateColocation` stands for `validate_gpu_process_colocation`, which only checks the plan. -/
def buildProcessTopologyPlan (validateColocation : ProcessTopologyPlan → Except PlanError Unit)
    (stages : List StageConfig) : Except PlanError ProcessTopologyPlan := do
  let groups ← buildProcessGroups gpuIds stages
  let plan : ProcessTopologyPlan := {
    groups
    stageToProcess := ofItems (groups.flatMap fun group => group.stageNames.map (·, group.name))
    tpStageToProcesses := buildTpProcessNames stages }
  validateProcessNameUniqueness plan
  validateColocation plan
  return plan

end Groups

end Config
