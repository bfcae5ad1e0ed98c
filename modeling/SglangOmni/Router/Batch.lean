import SglangOmni.Lib.Except
import SglangOmni.Router.SpeechFacts

/-! `http_media/classify.rs`: what a speech batch requires of a worker, merged from its defaults and its
items. The reading of the body's bytes is serde_json's and stands as `fromSlice`. -/

namespace Router

structure Classified where
  requirement : RouteRequirement
  credits : UInt32

def modelSelection (model : Option String) (routeAssertion : Option String) :
    Except HttpFault ModelSelection :=
  match model.filter fun value => value ≠ "", routeAssertion with
  | some model, some asserted => if model ≠ asserted then .error .malformedRequest else .ok (.explicit model)
  | some model, none => .ok (.explicit model)
  | none, some asserted => .ok (.workerDefault asserted)
  | none, none => .ok .unresolvedDefault

def mergeStream (body route : Option Bool) : Except HttpFault Bool :=
  let effective := body.getD false
  if route.any fun asserted => asserted != effective then .error .malformedRequest else .ok effective

def insertOnce {α : Type} [DecidableEq α] (values : List α) (value : α) : List α :=
  if value ∈ values then values else values ++ [value]

/-! ### The body -/

def u16Max : ℕ := 65535

def batchEntry (item : BatchSpeechFields) (entry : String × Json) : Except HttpFault BatchSpeechFields := do
  return (← readBatchField entry.1 entry.2 item).getD item

/-- The deserialization of `ItemSeed`. -/
def itemSeed : Json → Except HttpFault (Option BatchSpeechFields)
  | .object entries => return some (← entries.foldlM batchEntry {})
  | .unreadable => .error .malformedRequest
  | _ => .ok none

inductive ItemsFact where
  | valid (items : List BatchSpeechFields)
  | invalid

def itemsElement (s : List BatchSpeechFields × Bool) (element : Json) :
    Except HttpFault (List BatchSpeechFields × Bool) := do
  match ← itemSeed element with
  | some item => return if s.1.length < u16Max then (s.1 ++ [item], s.2) else (s.1, false)
  | none => return (s.1, false)

/-- The deserialization of `ItemsSeed`. -/
def itemsSeed : Json → Except HttpFault ItemsFact
  | .array values => do
    let (items, valid) ← values.foldlM itemsElement ([], true)
    return if valid then .valid items else .invalid
  | .unreadable => .error .malformedRequest
  | _ => .ok .invalid

structure Root where
  fields : SpeechFields := {}
  items : Option ItemsFact := none

def rootEntry (s : Root) (entry : String × Json) : Except HttpFault Root := do
  if entry.1 = "stream" then return { s with fields := ← readStream entry.2 s.fields }
  else if entry.1 = "stream_format" then
    let format := (← scalarFactSeed entry.2).intoString
    return { s with fields := { s.fields with streamFormat := some format } }
  else if entry.1 = "items" then return { s with items := some (← itemsSeed entry.2) }
  else return { s with fields := (← readField entry.1 entry.2 s.fields).getD s.fields }

/-- The deserialization of `RootSeed` in its batch mode. -/
def rootSeed : Json → Except HttpFault (SpeechFields × List BatchSpeechFields)
  | .object entries => do
    let s ← entries.foldlM rootEntry {}
    match s.items with
    | some (.valid items) => return (s.fields, items)
    | some .invalid | none => .error .malformedRequest
  | _ => .error .malformedRequest

def parseBatch (fromSlice : Bytes → Option Json) (bytes : Bytes) :
    Except HttpFault (SpeechFields × List BatchSpeechFields) :=
  match fromSlice bytes with
  | some json => rootSeed json
  | none => .error .malformedRequest

/-! ### The requirement -/

/-- The order that `ModelSelection` derives. -/
def ModelSelection.le : ModelSelection → ModelSelection → Bool
  | .explicit a, .explicit b => decide (a ≤ b)
  | .explicit _, _ => true
  | .workerDefault _, .explicit _ => false
  | .workerDefault a, .workerDefault b => decide (a ≤ b)
  | .workerDefault _, .unresolvedDefault => true
  | .unresolvedDefault, .unresolvedDefault => true
  | .unresolvedDefault, _ => false

/-- `Vec::dedup` -/
def dedup {α : Type} [DecidableEq α] : List α → List α
  | a :: b :: rest => if a = b then dedup (b :: rest) else a :: dedup (b :: rest)
  | rest => rest

structure BatchUnion where
  models : List ModelSelection := []
  defaultModel : Option String
  defaultModelAdded : Bool := false
  formats : List SpeechResponseFormat
  tasks : List SpeechTask := []
  references : List ReferenceForm := []
  namedVoice : Bool

structure BatchDefaults where
  fields : SpeechFields
  format : SpeechResponseFormat
  task : Option SpeechTask

def addModel (routeModel : Option String) (s : BatchUnion) (model : Option String) :
    Except HttpFault BatchUnion :=
  match model with
  | some model => do return { s with models := s.models ++ [← modelSelection (some model) routeModel] }
  | none =>
    if s.defaultModelAdded then .ok s
    else do
      let selection ← modelSelection s.defaultModel routeModel
      return { s with models := s.models ++ [selection], defaultModel := none, defaultModelAdded := true }

def addFormat (defaults : BatchDefaults) (s : BatchUnion) (format : Option String) : BatchUnion :=
  match format with
  | some value => { s with formats := (responseFormat value).elim s.formats (insertOnce s.formats) }
  | none => { s with formats := insertOnce s.formats defaults.format }

def addTask (defaults : BatchDefaults) (s : BatchUnion) (value : Option String) : BatchUnion :=
  match value with
  | some value => { s with tasks := (task value).elim s.tasks (insertOnce s.tasks) }
  | none => { s with tasks := defaults.task.elim s.tasks (insertOnce s.tasks) }

def addReferences (defaults : BatchDefaults) (s : BatchUnion) (item : SpeechFields) : BatchUnion :=
  let effective := effectiveReferenceForms defaults.fields item
  let explicitReference := effective ≠ [ReferenceForm.none]
  let voice := item.voice.join.or defaults.fields.voice.join
  if ¬explicitReference ∧ isNamed voice then { s with namedVoice := true }
  else { s with references := effective.foldl insertOnce s.references }

def addItem (routeModel : Option String) (defaults : BatchDefaults) (s : BatchUnion)
    (item : BatchSpeechFields) : Except HttpFault BatchUnion :=
  if item.routingFieldsValid = false then .ok s
  else do
    let s ← addModel routeModel s item.fields.model.join
    let s := addFormat defaults s item.fields.responseFormat.join
    let s := addTask defaults s item.fields.task.join
    return addReferences defaults s item.fields

def batchDefaults (fields : SpeechFields) : Except HttpFault BatchDefaults :=
  match responseFormat (fields.responseFormat.join.getD "wav") with
  | none => .error .malformedRequest
  | some format =>
    match fields.task.join with
    | none => .ok { fields, format, task := none }
    | some value =>
      match task value with
      | none => .error .malformedRequest
      | some task => .ok { fields, format, task := some task }

def batchWithHints (fromSlice : Bytes → Option Json) (bytes : Bytes) (routeModel : Option String)
    (routeStream : Option Bool) (trust : String) : Except HttpFault Classified := do
  let (fields, items) ← parseBatch fromSlice bytes
  if ← mergeStream fields.stream.join routeStream then .error .malformedRequest
  else if items = [] ∨ u16Max < items.length then .error .malformedRequest
  else do
    let defaults ← batchDefaults fields
    let s ← items.foldlM (addItem routeModel defaults)
      { defaultModel := fields.model.join
        formats := [defaults.format]
        namedVoice := namedVoice fields (referenceForms fields) }
    let models := dedup (s.models.mergeSort ModelSelection.le)
    let batchSize := UInt16.ofNat items.length
    return { requirement :=
               { profile := .speechBatch models s.formats s.tasks s.references s.namedVoice batchSize
                 trustDomain := trust }
             credits := batchSize.toUInt32 }

end Router
