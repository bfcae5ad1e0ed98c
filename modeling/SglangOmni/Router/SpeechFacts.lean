import Mathlib.Algebra.Order.Ring.Rat
import SglangOmni.Router.Multipart
import SglangOmni.Router.Profile

/-! `speech_facts.rs`: the routing fields of a speech request, read from its JSON object. -/

namespace Router

open Multipart (Text trim eqIgnoreAsciiCase)

/-- A JSON value as serde_json shows it to a visitor. The deserializer fails on an `unreadable` value, such
as a number out of range, unless it is ignored. -/
inductive Json where
  | null
  | bool (value : Bool)
  | signed (value : ℤ)
  | unsigned (value : ℕ)
  | float (value : ℚ)
  | string (value : String)
  | array (values : List Json)
  | object (entries : List (String × Json))
  | unreadable

inductive ScalarFact where
  | string (value : String)
  | bool (value : Bool)
  | signed (value : ℤ)
  | unsigned (value : ℕ)
  | float (value : ℚ)
  | null
  | other
  deriving DecidableEq

/-- The deserialization of `ScalarFactSeed`. -/
def scalarFactSeed : Json → Except HttpFault ScalarFact
  | .null => .ok .null
  | .bool value => .ok (.bool value)
  | .signed value => .ok (.signed value)
  | .unsigned value => .ok (.unsigned value)
  | .float value => .ok (.float value)
  | .string value => .ok (.string value)
  | .array _ | .object _ => .ok .other
  | .unreadable => .error .malformedRequest

namespace ScalarFact

def intoString : ScalarFact → Option String
  | .string value => some value
  | _ => none

def intoNullableString : ScalarFact → Option String × Bool
  | .string value => (some value, true)
  | .null => (none, true)
  | _ => (none, false)

def intoStringPresence : ScalarFact → Bool × Bool
  | .string _ => (true, true)
  | .null => (false, true)
  | _ => (false, false)

def trueFacts : List Text := ["1", "on", "t", "true", "y", "yes"].map String.toList
def falseFacts : List Text := ["0", "off", "f", "false", "n", "no"].map String.toList

def parseBoolFact (value : String) : Option Bool :=
  if trueFacts.any (eqIgnoreAsciiCase value.toList) then some true
  else if falseFacts.any (eqIgnoreAsciiCase value.toList) then some false
  else none

def intoBool : ScalarFact → Option Bool
  | .bool value => some value
  | .signed value => if value = 0 then some false else if value = 1 then some true else none
  | .unsigned value => if value = 0 then some false else if value = 1 then some true else none
  | .float value => if value = 0 then some false else if value = 1 then some true else none
  | .string value => parseBoolFact value
  | .null | .other => none

def isString : ScalarFact → Bool
  | .string _ => true
  | _ => false

end ScalarFact

structure ReferenceFlags where
  list : Bool := false
  vqCodes : Bool := false
  deriving DecidableEq

def referenceEntry (vqCodes : Bool) (entry : String × Json) : Bool :=
  if entry.1 = "vq_codes" then
    match entry.2 with
    | .null => false
    | _ => true
  else vqCodes

/-- The deserialization of `ReferenceFactSeed`. -/
def referenceFactSeed : Json → Except HttpFault (Option ReferenceFlags)
  | .object entries => .ok (some { list := true, vqCodes := entries.foldl referenceEntry false })
  | .unreadable => .error .malformedRequest
  | _ => .ok none

inductive ReferencesFact where
  | value (flags : Option ReferenceFlags)
  | invalid
  deriving DecidableEq

namespace ReferencesFact

def intoValue : ReferencesFact → Option ReferenceFlags
  | .value flags => flags
  | .invalid => none

def intoParts : ReferencesFact → Option ReferenceFlags × Bool
  | .value flags => (flags, true)
  | .invalid => (none, false)

end ReferencesFact

def referencesElement (s : ReferenceFlags × Bool) (element : Json) :
    Except HttpFault (ReferenceFlags × Bool) := do
  match ← referenceFactSeed element with
  | some entry => return ({ list := true, vqCodes := s.1.vqCodes || entry.vqCodes }, s.2)
  | none => return (s.1, false)

/-- The deserialization of `ReferencesFactSeed`. -/
def referencesFactSeed : Json → Except HttpFault ReferencesFact
  | .array values => do
    let (flags, valid) ← values.foldlM referencesElement ({}, true)
    return if valid then .value (some flags) else .invalid
  | .null => .ok (.value none)
  | .unreadable => .error .malformedRequest
  | _ => .ok .invalid

structure SpeechFields where
  model : Option (Option String) := none
  responseFormat : Option (Option String) := none
  stream : Option (Option Bool) := none
  streamFormat : Option (Option String) := none
  task : Option (Option String) := none
  voice : Option (Option String) := none
  voicePresent : Bool := false
  refAudio : Option Bool := none
  references : Option (Option ReferenceFlags) := none
  deriving DecidableEq

def readField (key : String) (value : Json) (fields : SpeechFields) :
    Except HttpFault (Option SpeechFields) := do
  if key = "model" then
    return some { fields with model := some (← scalarFactSeed value).intoString }
  else if key = "response_format" then
    return some { fields with responseFormat := some (← scalarFactSeed value).intoString }
  else if key = "task_type" then
    return some { fields with task := some (← scalarFactSeed value).intoString }
  else if key = "voice" then
    return some { fields with voice := some (← scalarFactSeed value).intoString, voicePresent := true }
  else if key = "speaker" then
    let speaker := (← scalarFactSeed value).intoString
    return some (if fields.voicePresent then fields else { fields with voice := some speaker })
  else if key = "ref_audio" then
    return some { fields with refAudio := some (← scalarFactSeed value).isString }
  else if key = "references" then
    return some { fields with references := some (← referencesFactSeed value).intoValue }
  else return none

def readStream (value : Json) (fields : SpeechFields) : Except HttpFault SpeechFields := do
  return { fields with stream := some (← scalarFactSeed value).intoBool }

/-! ### Batch items -/

inductive BatchField where
  | model
  | format
  | task
  | voice
  | refAudio
  | references
  deriving DecidableEq

/-- The bits of `invalid_fields` by the fields they stand for. -/
structure BatchSpeechFields where
  fields : SpeechFields := {}
  invalidFields : BatchField → Bool := fun _ => false

namespace BatchSpeechFields

def routingFieldsValid (item : BatchSpeechFields) : Bool :=
  [BatchField.model, BatchField.format, BatchField.task, BatchField.voice, BatchField.refAudio,
    BatchField.references].all fun field => !item.invalidFields field

def record (item : BatchSpeechFields) (field : BatchField) (valid : Bool) : BatchSpeechFields :=
  { item with invalidFields := fun other => if other = field then !valid else item.invalidFields other }

end BatchSpeechFields

/-- One routing field of an item; any other key is left to the caller. -/
def readBatchField (key : String) (value : Json) (item : BatchSpeechFields) :
    Except HttpFault (Option BatchSpeechFields) := do
  if key = "model" then
    let (model, valid) := (← scalarFactSeed value).intoNullableString
    return some ({ item with fields := { item.fields with model := some model } }.record .model valid)
  else if key = "response_format" then
    let (format, valid) := (← scalarFactSeed value).intoNullableString
    return some ({ item with fields := { item.fields with responseFormat := some format } }.record .format valid)
  else if key = "task_type" then
    let (task, valid) := (← scalarFactSeed value).intoNullableString
    return some ({ item with fields := { item.fields with task := some task } }.record .task valid)
  else if key = "voice" then
    let (voice, valid) := (← scalarFactSeed value).intoNullableString
    return some ({ item with fields := { item.fields with voice := some voice, voicePresent := true } }.record
      .voice valid)
  else if key = "speaker" then
    let (voice, valid) := (← scalarFactSeed value).intoNullableString
    return some (if item.fields.voicePresent then item
      else { item with fields := { item.fields with voice := some voice } }.record .voice valid)
  else if key = "ref_audio" then
    let (present, valid) := (← scalarFactSeed value).intoStringPresence
    return some ({ item with fields := { item.fields with refAudio := some present } }.record .refAudio valid)
  else if key = "references" then
    let (references, valid) := (← referencesFactSeed value).intoParts
    return some ({ item with fields := { item.fields with references := some references } }.record
      .references valid)
  else return none

/-! ### Facts -/

def responseFormat (value : String) : Option SpeechResponseFormat :=
  let normalized := (trim value.toList).map Char.toLower
  if normalized = "mp3".toList then some .mp3
  else if normalized = "opus".toList then some .opus
  else if normalized = "aac".toList then some .aac
  else if normalized = "flac".toList then some .flac
  else if normalized = "wav".toList then some .wav
  else if normalized = "pcm".toList then some .pcm
  else none

def task (value : String) : Option SpeechTask :=
  let normalized := ((trim value.toList).filter fun c => c ≠ '_' ∧ c ≠ '-').map Char.toLower
  if normalized = "base".toList then some .voiceClone
  else if normalized = "customvoice".toList then some .textToSpeech
  else if normalized = "voicedesign".toList then some .voiceDesign
  else none

def collectReferenceForms (hasRefAudio : Bool) (references : Option ReferenceFlags) : List ReferenceForm :=
  let flags := references.getD {}
  let result := (if hasRefAudio then [ReferenceForm.direct] else []) ++
    (if flags.list then [ReferenceForm.list] else []) ++
      (if flags.vqCodes then [ReferenceForm.vqCodes] else [])
  if result = [] then [ReferenceForm.none] else result

def referenceForms (fields : SpeechFields) : List ReferenceForm :=
  collectReferenceForms (fields.refAudio = some true) fields.references.join

def effectiveReferenceForms (defaults item : SpeechFields) : List ReferenceForm :=
  let hasRefAudio := ((item.refAudio.filter fun present => present).or
    (defaults.refAudio.filter fun present => present)).isSome
  collectReferenceForms hasRefAudio (item.references.join.or defaults.references.join)

def isNamed (voice : Option String) : Bool :=
  voice.any fun value => value ≠ "" && !eqIgnoreAsciiCase value.toList "default".toList

def namedVoice (fields : SpeechFields) (references : List ReferenceForm) : Bool :=
  references = [ReferenceForm.none] && isNamed fields.voice.join

end Router
