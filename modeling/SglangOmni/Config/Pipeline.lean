import Mathlib.Data.Rat.Defs
import SglangOmni.Config.Names
import SglangOmni.Lib.Dict

/-! The configuration of a pipeline and its own validation, `validate_general` and
`validate_processes`. -/

namespace Config

open Lib

inductive Next
  | stage (name : String)
  | stages (names : List String)
  deriving DecidableEq

def Next.targets : Next → List String
  | .stage name => [name]
  | .stages names => names

inductive Gpu
  | id (gpu : Nat)
  | ids (gpus : List Nat)
  deriving DecidableEq

/-- A stage as its own validation leaves it: the process is stripped and not empty. -/
structure StageConfig where
  name : String
  factoryPath : String
  factoryKeys : List String := []
  next : Option Next := none
  terminal : Bool := false
  routeFn : Option String := none
  gpu : Option Gpu := none
  tpSize : Nat := 1
  process : Option String := none
  allowChildProcesses : Bool := false
  runtimeGpuIds : Option (List Nat) := none
  waitFor : List String := []
  waitForFn : Option String := none
  mergeFn : Option String := none
  streamTo : List String := []
  streamDoneToFn : Option String := none
  projectPayload : List String := []
  httpRoutes : List String := []
  tp_pos : 0 < tpSize := by decide
  process_ne : process ≠ some "" := by decide

structure ProcessConfig where
  numReplicas : Nat := 1
  replicaDevices : Option (List Nat) := none
  replicas_pos : 0 < numReplicas := by decide
  devices_ne : replicaDevices ≠ some [] := by decide

structure ServiceConfig where
  name : String
  port : Nat

/-- The clip lengths are in seconds; `processLocalEdges` and the last two fields belong to the class of
the configuration. -/
structure PipelineConfig where
  modelPath : String
  stages : List StageConfig
  entryStage : Option String := none
  processes : Dict String ProcessConfig := ∅
  services : List ServiceConfig := []
  maxAudioClipS : Rat := 30
  processLocalEdges : List (String × String) := []
  maxNativeClipS : Option Rat := none
  minTailS : Rat := 1 / 2

inductive ValueError
  | modelPathRequired
  | servicesNotDistinct
  | reservedFactoryKwargs (stage : String) (keys : List String)
  | noStages
  | stageNamesNotUnique
  | routesOverlap (owner stage : String)
  | entryNotDefined (entry : String)
  | missingFactory (stage : String)
  | nextOrTerminal (stage : String)
  | routeFnOnTerminal (stage : String)
  | streamDoneWithoutStreamTo (stage : String)
  | waitForWithoutMerge (stage : String)
  | unknownWaitFor (stage : String) (unknown : List String)
  | waitForFnWithoutWaitFor (stage : String)
  | unknownNext (stage : String) (unknown : List String)
  | unknownStreamTo (stage target : String)
  | unknownProjectPayload (stage target : String)
  | invalidInt (name : String)
  | reservedStageName (stage : String)
  | missingProcess (stages : List String)
  | processNotDeclared (stage : String)
  | reservedProcessName (process : String)
  | severalTpStages (process : String) (stages : List String)
  | sharedTpProcess (process stage : String) (others : List String)
  | unknownProcesses (names : List String)
  | clipOverNativeLimit
  | clipUnderMinTail
  deriving DecidableEq

def refuse (failed : Bool) (error : ValueError) : Except ValueError Unit :=
  if failed then .error error else .ok ()

def missing (value : Option String) : Bool := value.all String.isEmpty

def placementOwnedFactoryKwargs : List String :=
  ["gpu_id", "total_gpu_memory_fraction", "process_total_gpu_memory_fraction"]

def processOrName (stage : StageConfig) : String :=
  match stage.process with
  | some process => if process.isEmpty then stage.name else process
  | none => stage.name

def stageProcessName (stage : StageConfig) : Except ValueError String :=
  if 1 < stage.tpSize then .ok (processOrName stage)
  else
    match stage.process with
    | some process =>
      if process.isEmpty then .error (.processNotDeclared stage.name) else .ok process
    | none => .error (.processNotDeclared stage.name)

namespace PipelineConfig

variable (config : PipelineConfig)

def resolvedEntryStage : String :=
  match config.entryStage with
  | some entry => entry
  | none => (config.stages.head?.map (·.name)).getD ""

/-- `stage_named`; `none` where it raises `KeyError`. -/
def stageNamed (stageName : String) : Option StageConfig :=
  config.stages.find? (·.name = stageName)

end PipelineConfig

def routesOverlap (path other : String) : Bool :=
  (other ++ "/").toList.isPrefixOf (path ++ "/").toList ||
    (path ++ "/").toList.isPrefixOf (other ++ "/").toList

/-- The loop over the declared routes, each with the stage that declares it. -/
def claimRoutes : List (String × String) → List (String × String) → Except ValueError Unit
  | _, [] => .ok ()
  | claimed, (stage, path) :: rest => do
    match claimed.find? fun (owner, other) => owner != stage && routesOverlap path other with
    | some (owner, _) => .error (.routesOverlap owner stage)
    | none => claimRoutes (claimed ++ [(stage, path)]) rest

def validateWaitFor (names : List String) (stage : StageConfig) : Except ValueError Unit :=
  if stage.waitFor.isEmpty then
    refuse stage.waitForFn.isSome (.waitForFnWithoutWaitFor stage.name)
  else do
    refuse (missing stage.mergeFn) (.waitForWithoutMerge stage.name)
    let unknown := stage.waitFor.filter (· ∉ names)
    refuse (!unknown.isEmpty) (.unknownWaitFor stage.name unknown)

def validateNext (names : List String) (stage : StageConfig) : Except ValueError Unit :=
  match stage.next with
  | none => .ok ()
  | some next =>
    let unknown := next.targets.filter (· ∉ names)
    refuse (!unknown.isEmpty) (.unknownNext stage.name unknown)

/-- The checks of `validate_general` on the wiring of one stage. -/
def validateWiring (names : List String) (stage : StageConfig) : Except ValueError Unit := do
  refuse stage.factoryPath.isEmpty (.missingFactory stage.name)
  refuse (stage.next.isSome == stage.terminal) (.nextOrTerminal stage.name)
  refuse (stage.terminal && stage.routeFn.isSome) (.routeFnOnTerminal stage.name)
  refuse (stage.streamDoneToFn.isSome && stage.streamTo.isEmpty)
    (.streamDoneWithoutStreamTo stage.name)
  validateWaitFor names stage
  validateNext names stage
  stage.streamTo.forM fun target =>
    refuse (target ∉ names) (.unknownStreamTo stage.name target)
  stage.projectPayload.forM fun target =>
    refuse (target ∉ names) (.unknownProjectPayload stage.name target)

def refuseReplicaSuffix (digits : Digits) (name : String) (error : ValueError) :
    Except ValueError Unit :=
  match parseReplicaInstanceName digits name with
  | none => .error (.invalidInt name)
  | some (_, replicaId) => refuse replicaId.isSome error

def validateGeneral (digits : Digits) (config : PipelineConfig) : Except ValueError Unit := do
  refuse config.modelPath.isEmpty .modelPathRequired
  refuse (!decide ((config.services.map (·.name)).Nodup ∧ (config.services.map (·.port)).Nodup))
    .servicesNotDistinct
  config.stages.forM fun stage =>
    let reserved := stage.factoryKeys.filter (· ∈ placementOwnedFactoryKwargs)
    refuse (!reserved.isEmpty) (.reservedFactoryKwargs stage.name reserved)
  let names := config.stages.map (·.name)
  refuse names.isEmpty .noStages
  refuse (!decide names.Nodup) .stageNamesNotUnique
  claimRoutes [] (config.stages.flatMap fun stage => stage.httpRoutes.map (stage.name, ·))
  refuse (config.resolvedEntryStage ∉ names) (.entryNotDefined config.resolvedEntryStage)
  config.stages.forM (validateWiring names)
  config.stages.forM fun stage =>
    refuseReplicaSuffix digits stage.name (.reservedStageName stage.name)
  let missingProcess := config.stages.filter fun stage =>
    stage.tpSize == 1 && missing stage.process
  refuse (!missingProcess.isEmpty) (.missingProcess (missingProcess.map (·.name)))

/-- `members.setdefault(name, []).append(stage)` for each stage, under the name of its process. -/
def groupStagesByProcess (stages : List StageConfig) :
    Except ValueError (Dict String (List StageConfig)) :=
  stages.foldlM (fun members stage => do
    let name ← stageProcessName stage
    return members.set name ((members.get? name).getD [] ++ [stage])) ∅

def validateTpStages (processName : String) (stages : List StageConfig) :
    List String → Except ValueError Unit
  | [] => .ok ()
  | stage :: tpStages =>
    let others := (stages.map (·.name)).filter (· ∉ stage :: tpStages)
    refuse (1 < stages.length) (.sharedTpProcess processName stage others)

/-- The checks of `validate_processes` on the members of one process. -/
def validateMembers (digits : Digits) (processName : String) (stages : List StageConfig) :
    Except ValueError Unit := do
  refuseReplicaSuffix digits processName (.reservedProcessName processName)
  let tpStages := (stages.filter (1 < ·.tpSize)).map (·.name)
  refuse (1 < tpStages.length) (.severalTpStages processName tpStages)
  validateTpStages processName stages tpStages

def validateProcesses (digits : Digits) (config : PipelineConfig) : Except ValueError Unit := do
  let members ← groupStagesByProcess config.stages
  members.entries.forM fun (processName, stages) => validateMembers digits processName stages
  let unknown := config.processes.keys.filter (· ∉ members.keys)
  refuse (!unknown.isEmpty) (.unknownProcesses unknown)

/-- `PipelineConfig.model_post_init`. -/
def PipelineConfig.validate (digits : Digits) (config : PipelineConfig) : Except ValueError Unit := do
  validateGeneral digits config
  validateProcesses digits config
  refuse (config.maxNativeClipS.any (· < config.maxAudioClipS)) .clipOverNativeLimit
  refuse (config.maxAudioClipS < config.minTailS) .clipUnderMinTail

end Config
