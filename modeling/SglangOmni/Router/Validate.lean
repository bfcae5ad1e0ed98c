import SglangOmni.Router.Profile

/-! The startup checks of a worker list, and what an accepted list guarantees of its rows. -/

namespace Router

def maxWorkers : Nat := 256
def maxProfilesPerWorker : Nat := 64
def maxSetItems : Nat := 64
def maxIdBytes : Nat := 128
def maxModelIdBytes : Nat := 256
def maxBaseUrlBytes : Nat := 2048
def maxHealthPathBytes : Nat := 128

/-- One check: `Err(ConfigError::invalid(field, reason))` when `failed`. -/
def refuse (failed : Bool) (field reason : String) : Except ConfigError Unit :=
  if failed then .error ⟨field, reason⟩ else .ok ()

/-- `char::is_control`: the Unicode category Cc. -/
def isControl (c : Char) : Bool :=
  c.toNat < 0x20 || (0x7f ≤ c.toNat && c.toNat ≤ 0x9f)

def validModelId (value : String) : Bool :=
  !value.isEmpty && value.utf8ByteSize ≤ maxModelIdBytes && !value.toList.any isControl

/-- The bytes of a character outside ASCII are no identifier bytes, so the check by characters is
the check by bytes. -/
def validateIdentifier (value field : String) : Except ConfigError Unit :=
  refuse (value.isEmpty || maxIdBytes < value.utf8ByteSize
      || !value.toList.all fun c => c.isAlphanum || c == '-' || c == '_' || c == '.')
    field "must be 1 to 128 ASCII identifier bytes"

/-- `unique.len() != values.len()` of the source's hash set. -/
def hasDuplicates {α : Type} [DecidableEq α] (values : List α) : Bool :=
  values.dedup.length != values.length

def validateModels (values : List String) : Except ConfigError Unit := do
  refuse (values.isEmpty || maxSetItems < values.length || values.any (!validModelId ·))
    "workers.service_profiles.model_ids" "must contain 1 to 64 unique model IDs"
  refuse (hasDuplicates values)
    "workers.service_profiles.model_ids" "must not contain duplicates"

def validateSet {α : Type} [DecidableEq α] (values : List α) (field : String)
    (allowEmpty : Bool) : Except ConfigError Unit := do
  refuse (maxSetItems < values.length || (!allowEmpty && values.isEmpty))
    field "has an invalid item count"
  refuse (hasDuplicates values) field "must not contain duplicates"

def validateSpeechRow (modelIds : List String) (formats : List SpeechResponseFormat)
    (modes : List StreamMode) (tasks : List SpeechTask) (references : List ReferenceForm) :
    Except ConfigError Unit := do
  validateModels modelIds
  validateSet formats "workers.service_profiles.response_formats" false
  validateSet modes "workers.service_profiles.stream_modes" false
  validateSet tasks "workers.service_profiles.tasks" false
  validateSet references "workers.service_profiles.reference_forms" false
  refuse (modes.contains .streaming && (formats.length != 1 || formats.head? != some .pcm))
    "workers.service_profiles.response_formats" "a streaming speech row may contain only pcm"

def ServiceProfile.validate : ServiceProfile → Except ConfigError Unit
  | .generationHttp modelIds forms placements inputs outputs formats modes => do
      validateModels modelIds
      validateSet forms "workers.service_profiles.message_content_forms" false
      validateSet placements "workers.service_profiles.media_placements" true
      validateSet inputs "workers.service_profiles.input_modalities" false
      validateSet outputs "workers.service_profiles.output_modalities" false
      validateSet formats "workers.service_profiles.chat_audio_formats" true
      validateSet modes "workers.service_profiles.stream_modes" false
      refuse (outputs.contains .audio != !formats.isEmpty)
        "workers.service_profiles.chat_audio_formats"
        "must be nonempty exactly when audio output is supported"
  | .speechHttp modelIds formats modes tasks references _ =>
      validateSpeechRow modelIds formats modes tasks references
  | .speechBatch modelIds formats tasks references _ maxBatchSize => do
      validateModels modelIds
      validateSet formats "workers.service_profiles.response_formats" false
      validateSet tasks "workers.service_profiles.tasks" false
      validateSet references "workers.service_profiles.reference_forms" false
      refuse (maxBatchSize == 0) "workers.service_profiles.max_batch_size" "must be positive"
  | .transcriptionHttp modelIds _ formats modes => do
      validateModels modelIds
      validateSet formats "workers.service_profiles.response_formats" false
      validateSet modes "workers.service_profiles.stream_modes" false
      refuse (formats.contains .sse != modes.contains .streaming)
        "workers.service_profiles.response_formats" "sse support must match streaming support"
  | .speechWebsocket modelIds formats modes tasks references _ =>
      validateSpeechRow modelIds formats modes tasks references
  | .realtimeWebsocket => .ok ()

/-- What the source reads of a parsed `reqwest::Url`. -/
structure Url where
  text : String
  scheme : String
  username : String := ""
  password : Option String := none
  query : Option String := none
  fragment : Option String := none
  path : String := "/"
  port : Option Nat := none
  host : Option String
  portOrKnownDefault : Option Nat
deriving DecidableEq, Repr

/-- `ResolvedTarget::from_parts`, over the `Url::parse` of the `reqwest` package. -/
def resolvedTarget (parse : String → Option Url) (worker : WorkerConfig) : Option Url := do
  let baseUrl ← parse worker.baseUrl
  if (baseUrl.scheme != "http" && baseUrl.scheme != "https") || !baseUrl.username.isEmpty
      || baseUrl.password.isSome || baseUrl.query.isSome || baseUrl.fragment.isSome
      || baseUrl.path != "/" || baseUrl.port == some 0 then
    none
  else
    let host ← baseUrl.host
    if host.toList.getLast? == some '.' then none
    else
      let _ ← baseUrl.portOrKnownDefault
      some baseUrl

/-- The origin that has to be unique: `target.base_url().as_str()`. -/
def originOf (parse : String → Option Url) (worker : WorkerConfig) : Except ConfigError String :=
  match resolvedTarget parse worker with
  | some url => .ok url.text
  | none => .error ⟨"workers.base_url", "must be a canonical HTTP or HTTPS origin"⟩

/-- The configured session capacity a websocket row needs; other rows need none. -/
def WorkerCapacityConfig.forService (capacity : WorkerCapacityConfig) :
    ServiceClass → Option (Option UInt32)
  | .speechWebsocket => some capacity.speechWebsocket
  | .realtimeWebsocket => some capacity.realtimeWebsocket
  | _ => none

/-- Whether the default model check of row `advertised` accepts `profile` as one of its kind. -/
def sameServiceAndTask (advertised profile : ServiceProfile) : Bool :=
  profile.serviceClass == advertised.serviceClass
    && match advertised, profile with
      | .transcriptionHttp _ task _ _, .transcriptionHttp _ task' _ _ => task == task'
      | .transcriptionHttp .., _ | _, .transcriptionHttp .. => false
      | _, _ => true

def validateRows : List ServiceProfile → List ServiceProfile → Except ConfigError Unit
  | _, [] => .ok ()
  | earlier, profile :: rest => do
      profile.validate
      refuse (earlier.any profile.semanticallyEq)
        "workers.service_profiles" "contains a duplicate correlated row"
      validateRows (earlier ++ [profile]) rest

def validateDefault (worker : WorkerConfig) : Except ConfigError Unit :=
  match worker.defaultModelId with
  | none => .ok ()
  | some default =>
      refuse (worker.serviceProfiles.any fun advertised =>
          !worker.serviceProfiles.any fun profile =>
            sameServiceAndTask advertised profile && profile.containsModel default)
        "workers.default_model_id"
        "must belong to every advertised model-executing service and task"

/-- One pass of the loop of `validate_workers`: the worker's target origin, or the first check that
fails. -/
def validateWorker (parse : String → Option Url) (ids targets : List String)
    (worker : WorkerConfig) : Except ConfigError String := do
  validateIdentifier worker.workerId "workers.worker_id"
  refuse (ids.contains worker.workerId) "workers.worker_id" "must be unique"
  validateIdentifier worker.trustDomain "workers.trust_domain"
  refuse (worker.defaultModelId.any (!validModelId ·))
    "workers.default_model_id" "must be 1 to 256 bytes"
  refuse (worker.baseUrl.isEmpty || maxBaseUrlBytes < worker.baseUrl.utf8ByteSize)
    "workers.base_url" "must contain between 1 and 2048 bytes"
  refuse (worker.healthPath.isEmpty || maxHealthPathBytes < worker.healthPath.utf8ByteSize
      || worker.healthPath.toList.head? != some '/' || worker.healthPath.toList.contains '?'
      || worker.healthPath.toList.contains '#')
    "workers.health_path" "must be an absolute path without query or fragment"
  let target ← originOf parse worker
  refuse (targets.contains target) "workers.base_url" "worker origins must be unique"
  refuse (worker.capacity.speechWebsocket.any fun limit => limit == 0 || 65535 < limit)
    "workers.capacity.speech_websocket" "must be between 1 and 65535"
  refuse (worker.capacity.realtimeWebsocket.any fun limit => limit == 0 || 65535 < limit)
    "workers.capacity.realtime_websocket" "must be between 1 and 65535"
  refuse (worker.serviceProfiles.isEmpty || maxProfilesPerWorker < worker.serviceProfiles.length)
    "workers.service_profiles" "must contain between 1 and 64 rows"
  validateRows [] worker.serviceProfiles
  refuse (worker.serviceProfiles.any fun profile =>
      worker.capacity.forService profile.serviceClass == some none)
    "workers.capacity" "must configure capacity for every WebSocket service profile"
  validateDefault worker
  return target

def validateEach (parse : String → Option Url) : List String → List String → List WorkerConfig →
    Except ConfigError Unit
  | _, _, [] => .ok ()
  | ids, targets, worker :: rest => do
      let target ← validateWorker parse ids targets worker
      validateEach parse (worker.workerId :: ids) (target :: targets) rest

def validateWorkers (parse : String → Option Url) (workers : List WorkerConfig) :
    Except ConfigError Unit := do
  refuse (workers.isEmpty || maxWorkers < workers.length)
    "workers" "must contain between 1 and 256 workers"
  validateEach parse [] [] workers

end Router
