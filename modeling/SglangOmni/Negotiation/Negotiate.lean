import Mathlib.Data.List.Sort
import SglangOmni.Lib.Machine
import SglangOmni.Negotiation.Schema

/-! `SessionNegotiation`: a patch is merged into the configuration, checked, and enriched with what the
deployment grants. -/

namespace Negotiation

open Lib

structure ProtocolError where
  code : String
  message : String
  param : Option String := none
  deriving DecidableEq

inductive SessionState
  | created
  | opened
  | closing
  | closed
  deriving DecidableEq

inductive Interaction
  | native
  | turnBased
  deriving DecidableEq

inductive TailPolicy
  | flush
  | pad
  | reject
  deriving DecidableEq

def TailPolicy.text : TailPolicy → String
  | .flush => "flush"
  | .pad => "pad"
  | .reject => "reject"

inductive PartialStyle
  | appendOnly
  | revising
  deriving DecidableEq

/-- `Capabilities`, with what `__post_init__` checks. -/
structure Capabilities where
  interaction : Interaction := .native
  inputSampleRateHz : Int := 16000
  outputSampleRateHz : Int := 16000
  outputModalities : List String := ["text"]
  maxGrantedModalities : Nat := 1
  turnControl : List (Option String) := [none]
  nativeUnitMs : Int := 20
  tailPolicy : TailPolicy := .flush
  partialStyle : PartialStyle := .appendOnly
  inputModalities : List String := ["audio"]
  maxImageBytes : Int := 512 * 1024
  samplingParameters : List String := []
  supportsReferenceAudio : Bool := false
  voices : List String := []
  supportsInstructionUpdates : Bool := false
  supportsSamplingUpdates : Bool := false
  supportsTruncate : Bool := false
  supportsCancel : Bool := false
  supportsClientCommit : Bool := false
  imageFramesPerUnit : List Int := [1]
  defaultMaxSliceNums : Nat := 1
  positive : 0 < inputSampleRateHz ∧ 0 < outputSampleRateHz ∧ 0 < nativeUnitMs
  whole : inputSampleRateHz * nativeUnitMs % 1000 = 0
  images : 0 < maxImageBytes ∧ ∀ frames ∈ imageFramesPerUnit, 0 < frames
  slices : 1 ≤ defaultMaxSliceNums ∧ defaultMaxSliceNums ≤ imageFramesPerUnit.length
  modalities : outputModalities ≠ [] ∧ ∀ modality ∈ outputModalities, modality ∈ ["text", "audio"]
  grants : 1 ≤ maxGrantedModalities ∧ turnControl ≠ []

structure RuntimeLimits where
  maxInputBytes : Nat := 1920000
  maxOutputBytes : Nat := 32 * 1024 * 1024
  maxHistoryChars : Nat := 64 * 1024
  cleanupTimeoutS : ℚ := 30
  sessionUpdateTimeoutS : ℚ
  idleTimeoutS : ℚ

structure Rejection where
  field : String
  requested : Value
  reason : String
  granted : Option (List String)

/-- `ImageFormat`.  `maxFramesPerUnit` is `none` where the slice count has no entry in
`image_frames_per_unit`. -/
structure ImageFormat where
  types : List String
  maxBytes : Int
  maxFramesPerUnit : Option Int
  maxSliceNums : Nat

/-- `GrantedCapabilities`, without what every deployment has alike. -/
structure GrantedCapabilities where
  interaction : Interaction
  nativeFullDuplex : Bool
  turnControl : List (Option String)
  clientCommit : Bool
  inputModalities : List String
  outputModalities : List String
  inputImageFormat : Option ImageFormat
  inputAudioRate : Int
  outputAudioRate : Int
  nativeUnitMs : Int
  firstUnitMs : Int
  tailPolicy : TailPolicy
  supportsTruncate : Bool
  supportsCancel : Bool
  partialStyle : PartialStyle
  samplingParameters : List String
  supportsReferenceAudio : Bool
  supportsInstructionUpdates : Bool
  supportsSamplingUpdates : Bool
  voices : Option (List String)
  limits : RuntimeLimits
  rejections : List Rejection

structure SessionNegotiation where
  model : String
  capabilities : Capabilities
  limits : RuntimeLimits

/-- `dict(type="audio/pcm", rate=rate)`. -/
def pcmFormat (rate : Int) : Value := .dict [("type", .str "audio/pcm"), ("rate", .int rate)]

/-- `admission_config.get("audio", {}).get("input", {}).pop("turn_detection", None)`. -/
def popTurnDetection (config : Entries) : Entries :=
  match get? config "audio" with
  | some (.dict audio) =>
    match get? audio "input" with
    | some (.dict input) =>
      set config "audio" (.dict (set audio "input" (.dict (pop input "turn_detection"))))
    | _ => config
  | _ => config

/-- The sampling goes, and `sglang` with it where nothing else is there: a session opened without
`sglang` compares equal to one that has only sampling there. -/
def popSampling (config : Entries) : Entries :=
  let extension := pop (getDict config "sglang") "sampling"
  if extension.isEmpty then pop config "sglang" else set config "sglang" (.dict extension)

/-- `admission_fields`: the fields that are fixed once the session is open. -/
def admissionFields (config : Entries) (capabilities : Capabilities) : Entries :=
  let config := popTurnDetection (pop config "output_modalities")
  let config := if capabilities.supportsInstructionUpdates then pop config "instructions" else config
  if capabilities.supportsSamplingUpdates then popSampling config else config

def Value.str? : Value → Option String
  | .str s => some s
  | _ => none

def stringItems : Option Value → Option (List String)
  | some (.list items) => some (items.filterMap Value.str?)
  | _ => none

namespace SessionNegotiation

variable (n : SessionNegotiation)

/-- The check of one direction in `validate_audio`. -/
def validateFormat (audio : Entries) (direction : String) (sampleRateHz : Int) :
    Except ProtocolError Unit :=
  match get? (getDict audio direction) "format" with
  | none => .ok ()
  | some .null => .ok ()
  | some audioFormat =>
    if audioFormat.eqv (pcmFormat sampleRateHz) then .ok ()
    else
      .error {
        code := "invalid_request"
        message := "unsupported PCM format or sample rate"
        param := some s!"session.audio.{direction}.format" }

/-- The check of `turn_detection` in `validate_audio`. -/
def validateTurnDetection (audio : Entries) : Except ProtocolError Unit :=
  match get? (getDict audio "input") "turn_detection" with
  | none => .ok ()
  | some .null => .ok ()
  | some turnDetection =>
    let detection := match turnDetection with | .dict entries => entries | _ => []
    if ¬ n.capabilities.turnControl.any fun control => control.any (· ≠ "") then
      .error { code := "not_applicable", message := "VAD is only available for turn-based sessions" }
    else if ¬ n.capabilities.turnControl.any fun control =>
        control.any fun text => (Value.str text).eqv
          ((get? detection "type").getD (.str "server_vad")) then
      .error {
        code := "not_applicable"
        message := "turn detection type is unavailable"
        param := some "session.audio.input.turn_detection.type" }
    else .ok ()

def validateAudio (candidate : Entries) : Except ProtocolError Unit := do
  let audio := getDict candidate "audio"
  validateFormat audio "input" n.capabilities.inputSampleRateHz
  validateFormat audio "output" n.capabilities.outputSampleRateHz
  n.validateTurnDetection audio

/-- The check of a reference recording in `validate_extension`. -/
def validateReference (extension : Entries) (field : String) : Except ProtocolError Unit :=
  if (get? extension field).isSome && !n.capabilities.supportsReferenceAudio then
    .error {
      code := "not_applicable"
      message := "reference audio is unavailable"
      param := some s!"session.sglang.{field}" }
  else .ok ()

/-- The check of the slice count in `validate_extension`. -/
def validateSlices (extension : Entries) : Except ProtocolError Unit :=
  match get? extension "max_slice_nums" with
  | none => .ok ()
  | some slices =>
    if ¬ n.capabilities.inputModalities.contains "image" then
      .error {
        code := "not_applicable"
        message := "image input is unavailable"
        param := some "session.sglang.max_slice_nums" }
    else if slices.number?.any fun q => (n.capabilities.imageFramesPerUnit.length : ℚ) < q then
      .error {
        code := "invalid_request"
        message := "slice count exceeds deployment limit"
        param := some "session.sglang.max_slice_nums" }
    else .ok ()

def validateExtension (candidate : Entries) : Except ProtocolError Unit := do
  let extension := getDict candidate "sglang"
  let unsupportedSampling := ((getDict extension "sampling").map Prod.fst).filter fun name =>
    !n.capabilities.samplingParameters.contains name
  if ¬ unsupportedSampling.isEmpty then
    throw {
      code := "not_applicable"
      message := "unsupported sampling parameters: " ++ ", ".intercalate
        (unsupportedSampling.mergeSort fun a b => a ≤ b)
      param := some "session.sglang.sampling" }
  if (get? extension "voice").any fun voice =>
      !n.capabilities.voices.any fun text => voice.eqv (.str text) then
    throw {
      code := "not_applicable"
      message := "voice is unavailable"
      param := some "session.sglang.voice" }
  n.validateReference extension "reference_audio"
  n.validateReference extension "tts_reference_audio"
  n.validateSlices extension
  let nativeUnitMs := (get? (getDict extension "timebase") "native_unit_ms").getD
    (.int n.capabilities.nativeUnitMs)
  let tailPolicy := Value.str n.capabilities.tailPolicy.text
  if !((get? extension "tail_policy").getD tailPolicy).eqv tailPolicy then
    throw { code := "invalid_request", message := "tail policy is unavailable" }
  else if !nativeUnitMs.eqv (.int n.capabilities.nativeUnitMs) then
    throw { code := "invalid_request", message := "native cadence is fixed" }

def imageFormat (sliceCount : Int) : Option ImageFormat :=
  if n.capabilities.inputModalities.contains "image" then
    some {
      types := ["image/jpeg", "image/png"]
      maxBytes := n.capabilities.maxImageBytes
      maxFramesPerUnit := n.capabilities.imageFramesPerUnit[(sliceCount - 1).toNat]?
      maxSliceNums := n.capabilities.imageFramesPerUnit.length }
  else none

def rejections (candidate : Entries) (requestedModalities grantedModalities : List String) :
    List Rejection :=
  let microturn :=
    match get? (getDict (getDict candidate "sglang") "timebase") "microturn_ms" with
    | none => []
    | some .null => []
    | some requested => [{
        field := "sglang.timebase.microturn_ms"
        requested := requested
        reason := "external chunks are variable length; no fixed external cadence"
        granted := none }]
  let modalities :=
    if grantedModalities ≠ requestedModalities then [{
      field := "output_modalities"
      requested := .list (requestedModalities.map .str)
      reason := "deployment modalities"
      granted := some grantedModalities }]
    else []
  microturn ++ modalities

/-- The audio formats that `grant` gives to a candidate without them. -/
def grantAudio (audio : Entries) : Entries :=
  let audio := set audio "input" (.dict
    (setDefault (getDict audio "input") "format" (pcmFormat n.capabilities.inputSampleRateHz)))
  set audio "output" (.dict
    (setDefault (getDict audio "output") "format" (pcmFormat n.capabilities.outputSampleRateHz)))

def grantConfig (candidate : Entries) (grantedModalities : List String) : Entries :=
  let candidate := set candidate "audio" (.dict (n.grantAudio (getDict candidate "audio")))
  let candidate := set candidate "model" (.str n.model)
  let candidate := set candidate "type" (.str "realtime")
  set candidate "output_modalities" (.list (grantedModalities.map .str))

def grant (candidate : Entries) (requestedModalities grantedModalities : List String) :
    Entries × GrantedCapabilities :=
  let caps := n.capabilities
  let sliceCount := match get? (getDict candidate "sglang") "max_slice_nums" with
    | some (.int slices) => slices
    | _ => caps.defaultMaxSliceNums
  let granted : GrantedCapabilities := {
    interaction := caps.interaction
    nativeFullDuplex := caps.interaction = .native
    turnControl := caps.turnControl
    clientCommit := caps.supportsClientCommit
    inputModalities := caps.inputModalities
    outputModalities := grantedModalities
    inputImageFormat := n.imageFormat sliceCount
    inputAudioRate := caps.inputSampleRateHz
    outputAudioRate := caps.outputSampleRateHz
    nativeUnitMs := caps.nativeUnitMs
    firstUnitMs := caps.nativeUnitMs
    tailPolicy := caps.tailPolicy
    supportsTruncate := caps.supportsTruncate
    supportsCancel := caps.supportsCancel
    partialStyle := caps.partialStyle
    samplingParameters := caps.samplingParameters
    supportsReferenceAudio := caps.supportsReferenceAudio
    supportsInstructionUpdates := caps.supportsInstructionUpdates
    supportsSamplingUpdates := caps.supportsSamplingUpdates
    voices := if caps.voices.isEmpty then none else some caps.voices
    limits := n.limits
    rejections := rejections candidate requestedModalities grantedModalities }
  (n.grantConfig candidate grantedModalities, granted)

def isTooLong : Option Value → Bool
  | some (.str instructions) => n.limits.maxHistoryChars < instructions.length
  | _ => false

/-- The checks of `negotiate` before `validate_audio`. -/
def validateFixed (state : SessionState) (current candidate : Entries) : Except ProtocolError Unit :=
  if state = .opened ∧ ¬ (Value.dict (admissionFields candidate n.capabilities)).eqv
      (.dict (admissionFields current n.capabilities)) then
    .error { code := "invalid_state", message := "session field is frozen" }
  else if n.isTooLong (get? candidate "instructions") then
    .error {
      code := "invalid_request"
      message := "instructions exceed context or have invalid type" }
  else if ¬ ((get? candidate "model").getD (.str n.model)).eqv (.str n.model) then
    .error { code := "invalid_request", message := "model differs from deployment" }
  else if ¬ ((get? candidate "type").getD (.str "realtime")).eqv (.str "realtime") then
    .error { code := "invalid_request", message := "session type is unavailable" }
  else .ok ()

def requestedModalities (candidate : Entries) : List String :=
  (stringItems (get? candidate "output_modalities")).getD n.capabilities.outputModalities

def grantedModalities (requested : List String) : List String :=
  (requested.filter n.capabilities.outputModalities.contains).take n.capabilities.maxGrantedModalities

/-- `negotiate` on a valid candidate. -/
def negotiateCandidate (current : Entries) (state : SessionState) (candidate : Entries) :
    Except ProtocolError (Entries × GrantedCapabilities) := do
  n.validateFixed state current candidate
  n.validateAudio candidate
  let requested := n.requestedModalities candidate
  let granted := n.grantedModalities requested
  if granted.isEmpty then
    throw { code := "invalid_request", message := "no supported output combination" }
  n.validateExtension candidate
  return n.grant candidate requested granted

/-- The configuration that is validated: a patch that is no dictionary is taken as it is. -/
def merged (current : Entries) : Value → Value
  | .dict patch => .dict (mergeConfig current patch)
  | patch => patch

def negotiate (referenceError : Value → Option (List String)) (current : Entries)
    (state : SessionState) (patch : Value) : Except ProtocolError (Entries × GrantedCapabilities) :=
  let session := merged current patch
  match (Schema.record sessionFields).errorAt referenceError session, session with
  | none, .dict candidate => n.negotiateCandidate current state candidate
  | location, _ =>
    .error {
      code := "invalid_request"
      message := "invalid session configuration"
      param := some (".".intercalate ("session" :: location.getD [])) }

end SessionNegotiation

end Negotiation
