import Mathlib.Data.List.Dedup
import Mathlib.Data.List.Nodup

/-! The router's worker profiles: the rows a worker advertises, what a request requires of one row,
and the checks a worker list passes at startup. -/

namespace Router

inductive ServiceClass where
  | generationHttp
  | speechHttp
  | speechBatch
  | transcriptionHttp
  | speechWebsocket
  | realtimeWebsocket
deriving DecidableEq, Repr

inductive CapacityClass where
  | generationHttp
  | speechHttp
  | speechBatch
  | transcriptionHttp
  | speechWebsocket
  | realtimeWebsocket
deriving DecidableEq, Repr

def ServiceClass.capacity : ServiceClass → CapacityClass
  | .generationHttp => .generationHttp
  | .speechHttp => .speechHttp
  | .speechBatch => .speechBatch
  | .transcriptionHttp => .transcriptionHttp
  | .speechWebsocket => .speechWebsocket
  | .realtimeWebsocket => .realtimeWebsocket

inductive MessageContentForm where
  | string
  | typedParts
deriving DecidableEq, Repr

inductive MediaPlacement where
  | topLevel
  | typedParts
deriving DecidableEq, Repr

inductive ChatAudioFormat where
  | wav
  | mp3
  | flac
  | pcm
  | aac
  | opus
deriving DecidableEq, Repr

inductive InputModality where
  | text
  | image
  | audio
  | video
deriving DecidableEq, Repr

inductive OutputModality where
  | text
  | audio
deriving DecidableEq, Repr

inductive StreamMode where
  | nonStreaming
  | streaming
deriving DecidableEq, Repr

inductive SpeechResponseFormat where
  | mp3
  | opus
  | aac
  | flac
  | wav
  | pcm
deriving DecidableEq, Repr

inductive SpeechTask where
  | textToSpeech
  | voiceClone
  | voiceDesign
deriving DecidableEq, Repr

inductive ReferenceForm where
  | none
  | direct
  | list
  | vqCodes
deriving DecidableEq, Repr

inductive VoiceNamePolicy where
  | preset
  | uploaded
deriving DecidableEq, Repr

inductive SpeechToTextTask where
  | transcribe
  | translate
deriving DecidableEq, Repr

inductive TranscriptionResponseFormat where
  | json
  | text
  | verboseJson
  | srt
  | vtt
  | sse
deriving DecidableEq, Repr

inductive ServiceProfile where
  | generationHttp (modelIds : List String) (messageContentForms : List MessageContentForm)
      (mediaPlacements : List MediaPlacement) (inputModalities : List InputModality)
      (outputModalities : List OutputModality) (chatAudioFormats : List ChatAudioFormat)
      (streamModes : List StreamMode)
  | speechHttp (modelIds : List String) (responseFormats : List SpeechResponseFormat)
      (streamModes : List StreamMode) (tasks : List SpeechTask)
      (referenceForms : List ReferenceForm) (voiceNamePolicy : VoiceNamePolicy)
  | speechBatch (modelIds : List String) (responseFormats : List SpeechResponseFormat)
      (tasks : List SpeechTask) (referenceForms : List ReferenceForm)
      (voiceNamePolicy : VoiceNamePolicy) (maxBatchSize : UInt16)
  | transcriptionHttp (modelIds : List String) (task : SpeechToTextTask)
      (responseFormats : List TranscriptionResponseFormat) (streamModes : List StreamMode)
  | speechWebsocket (modelIds : List String) (responseFormats : List SpeechResponseFormat)
      (streamModes : List StreamMode) (tasks : List SpeechTask)
      (referenceForms : List ReferenceForm) (voiceNamePolicy : VoiceNamePolicy)
  | realtimeWebsocket
deriving DecidableEq, Repr

/-- Whether the caller selected a model or relied on a worker default. -/
inductive ModelSelection where
  | explicit (modelId : String)
  | workerDefault (expectedModelId : String)
  | unresolvedDefault
deriving DecidableEq, Repr

inductive ProfileRequirement where
  | generationHttp (model : ModelSelection) (messageContentForms : List MessageContentForm)
      (mediaPlacements : List MediaPlacement) (inputModalities : List InputModality)
      (outputModalities : List OutputModality) (audioFormat : Option ChatAudioFormat)
      (streamMode : StreamMode)
  | speechHttp (model : ModelSelection) (responseFormat : SpeechResponseFormat)
      (streamMode : StreamMode) (task : Option SpeechTask) (referenceForms : List ReferenceForm)
      (namedVoice : Bool)
  | speechBatch (models : List ModelSelection) (responseFormats : List SpeechResponseFormat)
      (tasks : List SpeechTask) (referenceForms : List ReferenceForm) (namedVoice : Bool)
      (batchSize : UInt16)
  | transcriptionHttp (model : ModelSelection) (task : SpeechToTextTask)
      (responseFormat : TranscriptionResponseFormat) (streamMode : StreamMode)
  | speechWebsocket (model : ModelSelection) (responseFormat : Option SpeechResponseFormat)
      (streamMode : StreamMode) (task : Option SpeechTask) (referenceForms : List ReferenceForm)
      (namedVoice : Bool)
  | realtimeWebsocket (model : Option String)
deriving DecidableEq, Repr

structure RouteRequirement where
  profile : ProfileRequirement
  trustDomain : String
deriving DecidableEq, Repr

structure WorkerCapacityConfig where
  speechWebsocket : Option UInt32 := none
  realtimeWebsocket : Option UInt32 := none
deriving DecidableEq, Repr

structure WorkerConfig where
  workerId : String
  baseUrl : String
  trustDomain : String
  defaultModelId : Option String
  healthPath : String := "/health"
  capacity : WorkerCapacityConfig := {}
  serviceProfiles : List ServiceProfile
deriving DecidableEq, Repr

/-- `ConfigError::InvalidField`. -/
structure ConfigError where
  field : String
  reason : String
deriving DecidableEq, Repr

namespace ModelSelection

def matchesProfileModels (model : ModelSelection) (modelIds : List String)
    (workerDefault : Option String) : Bool :=
  match model with
  | .explicit modelId => modelIds.contains modelId
  | .workerDefault expected => workerDefault == some expected && modelIds.contains expected
  | .unresolvedDefault => workerDefault.all modelIds.contains

def matchesTranslation (model : ModelSelection) (modelIds : List String)
    (workerDefault : Option String) : Bool :=
  match model with
  | .explicit modelId | .workerDefault modelId =>
      workerDefault == some modelId && modelIds.contains modelId
  | .unresolvedDefault => workerDefault.any modelIds.contains

def requiresResolution : ModelSelection → Bool
  | .unresolvedDefault => true
  | _ => false

end ModelSelection

namespace ProfileRequirement

def serviceClass : ProfileRequirement → ServiceClass
  | .generationHttp .. => .generationHttp
  | .speechHttp .. => .speechHttp
  | .speechBatch .. => .speechBatch
  | .transcriptionHttp .. => .transcriptionHttp
  | .speechWebsocket .. => .speechWebsocket
  | .realtimeWebsocket .. => .realtimeWebsocket

def requiresDefaultResolution : ProfileRequirement → Bool
  | .generationHttp model _ _ _ _ _ _ | .speechHttp model _ _ _ _ _
  | .transcriptionHttp model _ _ _ | .speechWebsocket model _ _ _ _ _ => model.requiresResolution
  | .speechBatch models _ _ _ _ _ => models.any ModelSelection.requiresResolution
  | .realtimeWebsocket _ => false

def hasNamedVoice : ProfileRequirement → Bool
  | .speechHttp _ _ _ _ _ namedVoice | .speechBatch _ _ _ _ namedVoice _
  | .speechWebsocket _ _ _ _ _ namedVoice => namedVoice
  | .generationHttp .. | .transcriptionHttp .. | .realtimeWebsocket .. => false

def speechToTextTask : ProfileRequirement → Option SpeechToTextTask
  | .transcriptionHttp _ task _ _ => some task
  | _ => none

end ProfileRequirement

def RouteRequirement.capacityClass (requirement : RouteRequirement) : CapacityClass :=
  requirement.profile.serviceClass.capacity

def setEq {α : Type} [BEq α] (left right : List α) : Bool :=
  left.length == right.length && left.all right.contains

def containsAll {α : Type} [BEq α] (available required : List α) : Bool :=
  required.all available.contains

def matchesSpeechReferences (available required : List ReferenceForm) (namedVoice : Bool)
    (policy : VoiceNamePolicy) : Bool :=
  containsAll available required
    && (!namedVoice || policy == .uploaded || available.contains .none)

def ServiceProfile.semanticallyEq : ServiceProfile → ServiceProfile → Bool
  | .generationHttp am af ap ai ao ac aModes, .generationHttp bm bf bp bi bo bc bs =>
      setEq am bm && setEq af bf && setEq ap bp && setEq ai bi && setEq ao bo && setEq ac bc
        && setEq aModes bs
  | .speechHttp am af aModes aTasks ar av, .speechHttp bm bf bs bt br bv =>
      av == bv && setEq am bm && setEq af bf && setEq aModes bs && setEq aTasks bt && setEq ar br
  | .speechBatch am af aTasks ar av ab, .speechBatch bm bf bt br bv bb =>
      av == bv && ab == bb && setEq am bm && setEq af bf && setEq aTasks bt && setEq ar br
  | .transcriptionHttp am aTasks af aModes, .transcriptionHttp bm bt bf bs =>
      aTasks == bt && setEq am bm && setEq af bf && setEq aModes bs
  | .speechWebsocket am af aModes aTasks ar av, .speechWebsocket bm bf bs bt br bv =>
      av == bv && setEq am bm && setEq af bf && setEq aModes bs && setEq aTasks bt && setEq ar br
  | .realtimeWebsocket, .realtimeWebsocket => true
  | _, _ => false

def ServiceProfile.matches (profile : ServiceProfile) (requirement : ProfileRequirement)
    (workerDefault : Option String) : Bool :=
  match profile, requirement with
  | .generationHttp modelIds forms placements inputs outputs formats modes,
    .generationHttp model forms' placements' inputs' outputs' format mode =>
      model.matchesProfileModels modelIds workerDefault
        && containsAll forms forms'
        && containsAll placements placements'
        && containsAll inputs inputs'
        && containsAll outputs outputs'
        && format.all formats.contains
        && modes.contains mode
  | .speechHttp modelIds formats modes tasks references policy,
    .speechHttp model format mode task references' namedVoice =>
      model.matchesProfileModels modelIds workerDefault
        && formats.contains format
        && modes.contains mode
        && task.all tasks.contains
        && matchesSpeechReferences references references' namedVoice policy
  | .speechBatch modelIds formats tasks references policy maxBatchSize,
    .speechBatch models formats' tasks' references' namedVoice batchSize =>
      models.all (·.matchesProfileModels modelIds workerDefault)
        && decide (batchSize ≤ maxBatchSize)
        && containsAll formats formats'
        && containsAll tasks tasks'
        && matchesSpeechReferences references references' namedVoice policy
  | .transcriptionHttp modelIds task formats modes,
    .transcriptionHttp model task' format mode =>
      (if task' == .translate then model.matchesTranslation modelIds workerDefault
        else model.matchesProfileModels modelIds workerDefault)
        && task == task'
        && formats.contains format
        && modes.contains mode
  | .speechWebsocket modelIds formats modes tasks references policy,
    .speechWebsocket model format mode task references' namedVoice =>
      model.matchesProfileModels modelIds workerDefault
        && format.all formats.contains
        && modes.contains mode
        && task.all tasks.contains
        && matchesSpeechReferences references references' namedVoice policy
  | .realtimeWebsocket, .realtimeWebsocket model => model.all (workerDefault == some ·)
  | _, _ => false

namespace ServiceProfile

def modelIds : ServiceProfile → Option (List String)
  | .generationHttp ids _ _ _ _ _ _ | .speechHttp ids _ _ _ _ _ | .speechBatch ids _ _ _ _ _
  | .transcriptionHttp ids _ _ _ | .speechWebsocket ids _ _ _ _ _ => some ids
  | .realtimeWebsocket => none

def containsModel (profile : ServiceProfile) (model : String) : Bool :=
  profile.modelIds.all (·.contains model)

def serviceClass : ServiceProfile → ServiceClass
  | .generationHttp .. => .generationHttp
  | .speechHttp .. => .speechHttp
  | .speechBatch .. => .speechBatch
  | .transcriptionHttp .. => .transcriptionHttp
  | .speechWebsocket .. => .speechWebsocket
  | .realtimeWebsocket => .realtimeWebsocket

def voiceNamePolicy : ServiceProfile → Option VoiceNamePolicy
  | .speechHttp _ _ _ _ _ policy | .speechBatch _ _ _ _ policy _
  | .speechWebsocket _ _ _ _ _ policy => some policy
  | .generationHttp .. | .transcriptionHttp .. | .realtimeWebsocket => none

end ServiceProfile

end Router
