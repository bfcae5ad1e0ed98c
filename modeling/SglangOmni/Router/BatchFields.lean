import Mathlib.Data.List.Induction
import SglangOmni.Router.Batch

/-! The fields read from a JSON object depend on the last entry of each key alone. -/

namespace Router

open Lib

variable {key : String} {entries entries' : List (String × Json)} {value : Json}

/-! ### The last entry of a key -/

def lastField (key : String) (entries : List (String × Json)) : Option Json :=
  ((entries.filter fun entry => entry.1 = key).getLast?).map Prod.snd

theorem lastField_append (key : String) (entries rest : List (String × Json)) :
    lastField key (entries ++ rest) = (lastField key rest).or (lastField key entries) := by
  unfold lastField
  rw [List.filter_append, List.getLast?_append]
  cases (rest.filter fun entry => entry.1 = key).getLast? <;> rfl

theorem lastField_concat (key : String) (entries : List (String × Json)) (entry : String × Json) :
    lastField key (entries ++ [entry]) = if entry.1 = key then some entry.2 else lastField key entries := by
  rw [lastField_append]
  by_cases hkey : entry.1 = key
  · simp [lastField, hkey]
  · simp [lastField, hkey]

def Reordered (entries entries' : List (String × Json)) : Prop :=
  ∀ key : String, entries.filter (fun entry => entry.1 = key) = entries'.filter fun entry => entry.1 = key

theorem Reordered.lastField (h : Reordered entries entries') (key : String) :
    lastField key entries = lastField key entries' := by
  unfold Router.lastField
  rw [h key]

theorem Reordered.mem_iff (h : Reordered entries entries') (entry : String × Json) :
    entry ∈ entries ↔ entry ∈ entries' := by
  have hmem : ∀ l : List (String × Json), entry ∈ l ↔ entry ∈ l.filter fun other => other.1 = entry.1 := by
    intro l
    simp
  rw [hmem entries, hmem entries', h entry.1]

theorem Reordered.all_eq (h : Reordered entries entries') (p : String × Json → Bool) :
    entries.all p = entries'.all p := by
  rw [Bool.eq_iff_iff, List.all_eq_true, List.all_eq_true]
  exact ⟨fun hall entry hmem => hall entry ((h.mem_iff entry).mpr hmem),
    fun hall entry hmem => hall entry ((h.mem_iff entry).mp hmem)⟩

/-! ### Values -/

/-- What a readable value is to `scalarFactSeed`. -/
def scalarFact (value : Json) : ScalarFact := (scalarFactSeed value).toOption.getD .other

def referencesFact (value : Json) : ReferencesFact := (referencesFactSeed value).toOption.getD .invalid

def Json.isReadable : Json → Bool
  | .unreadable => false
  | _ => true

theorem scalarFactSeed_eq (value : Json) :
    scalarFactSeed value = if value.isReadable then .ok (scalarFact value) else .error .malformedRequest := by
  cases value <;> rfl

def referenceFact (value : Json) : Option ReferenceFlags := (referenceFactSeed value).toOption.join

theorem referenceFactSeed_eq (value : Json) :
    referenceFactSeed value =
      if value.isReadable then .ok (referenceFact value) else .error .malformedRequest := by
  cases value <;> rfl

def addReference (s : ReferenceFlags × Bool) (value : Json) : ReferenceFlags × Bool :=
  match referenceFact value with
  | some entry => ({ list := true, vqCodes := s.1.vqCodes || entry.vqCodes }, s.2)
  | none => (s.1, false)

theorem referencesElement_eq (s : ReferenceFlags × Bool) (value : Json) :
    referencesElement s value =
      if value.isReadable then .ok (addReference s value) else .error .malformedRequest := by
  unfold referencesElement addReference
  rw [referenceFactSeed_eq]
  cases value.isReadable with
  | false => rfl
  | true =>
    show (match referenceFact value with
      | some entry => Except.ok _
      | none => Except.ok _) = _
    cases referenceFact value <;> rfl

def Json.isReadableList : Json → Bool
  | .array values => values.all Json.isReadable
  | value => value.isReadable

theorem referencesFactSeed_array (values : List Json) :
    referencesFactSeed (.array values) =
      if values.all Json.isReadable then
        .ok (if (values.foldl addReference ({}, true)).2 then
          .value (some (values.foldl addReference ({}, true)).1) else .invalid)
      else .error .malformedRequest := by
  show (values.foldlM referencesElement ({}, true) >>= _) = _
  rw [foldlM_ite referencesElement_eq]
  cases values.all Json.isReadable <;> rfl

theorem referencesFactSeed_eq (value : Json) :
    referencesFactSeed value =
      if value.isReadableList then .ok (referencesFact value) else .error .malformedRequest := by
  cases value with
  | array values =>
    show _ = if values.all Json.isReadable then _ else _
    rw [referencesFact, referencesFactSeed_array]
    cases values.all Json.isReadable <;> rfl
  | _ => rfl

/-! ### Items -/

def readableField (entry : String × Json) : Bool :=
  if entry.1 ∈ ["model", "response_format", "task_type", "voice", "speaker", "ref_audio"] then
    entry.2.isReadable
  else if entry.1 = "references" then entry.2.isReadableList
  else true

def nullable (value : Json) : Option String × Bool := (scalarFact value).intoNullableString

def voiceField (entries : List (String × Json)) : Option Json :=
  (lastField "voice" entries).or (lastField "speaker" entries)

def itemFields (entries : List (String × Json)) : BatchSpeechFields where
  fields :=
    { model := (lastField "model" entries).map fun value => (nullable value).1
      responseFormat := (lastField "response_format" entries).map fun value => (nullable value).1
      task := (lastField "task_type" entries).map fun value => (nullable value).1
      voice := (voiceField entries).map fun value => (nullable value).1
      voicePresent := (lastField "voice" entries).isSome
      refAudio := (lastField "ref_audio" entries).map fun value => (scalarFact value).intoStringPresence.1
      references := (lastField "references" entries).map fun value => (referencesFact value).intoParts.1 }
  invalidFields
    | .model => (lastField "model" entries).any fun value => !(nullable value).2
    | .format => (lastField "response_format" entries).any fun value => !(nullable value).2
    | .task => (lastField "task_type" entries).any fun value => !(nullable value).2
    | .voice => (voiceField entries).any fun value => !(nullable value).2
    | .refAudio => (lastField "ref_audio" entries).any fun value => !(scalarFact value).intoStringPresence.2
    | .references => (lastField "references" entries).any fun value => !(referencesFact value).intoParts.2

def updateItem (item : BatchSpeechFields) (entry : String × Json) : BatchSpeechFields :=
  let (key, value) := entry
  if key = "model" then
    { item with fields := { item.fields with model := some (nullable value).1 } }.record .model (nullable value).2
  else if key = "response_format" then
    { item with fields := { item.fields with responseFormat := some (nullable value).1 } }.record
      .format (nullable value).2
  else if key = "task_type" then
    { item with fields := { item.fields with task := some (nullable value).1 } }.record .task (nullable value).2
  else if key = "voice" then
    { item with fields := { item.fields with voice := some (nullable value).1, voicePresent := true } }.record
      .voice (nullable value).2
  else if key = "speaker" then
    if item.fields.voicePresent then item
    else { item with fields := { item.fields with voice := some (nullable value).1 } }.record
      .voice (nullable value).2
  else if key = "ref_audio" then
    { item with fields := { item.fields with refAudio := some (scalarFact value).intoStringPresence.1 } }.record
      .refAudio (scalarFact value).intoStringPresence.2
  else if key = "references" then
    { item with fields := { item.fields with references := some (referencesFact value).intoParts.1 } }.record
      .references (referencesFact value).intoParts.2
  else item

theorem batchEntry_eq (item : BatchSpeechFields) (entry : String × Json) :
    batchEntry item entry =
      if readableField entry then .ok (updateItem item entry) else .error .malformedRequest := by
  obtain ⟨key, value⟩ := entry
  by_cases hscalar : key ∈ ["model", "response_format", "task_type", "voice", "speaker", "ref_audio"]
  · have hread : readableField (key, value) = value.isReadable := if_pos hscalar
    rw [hread]
    unfold batchEntry readBatchField
    simp only [List.mem_cons, List.not_mem_nil, or_false] at hscalar
    rcases hscalar with rfl | rfl | rfl | rfl | rfl | rfl
    all_goals
      simp only [scalarFactSeed_eq]
      cases value.isReadable <;> rfl
  · by_cases hreferences : key = "references"
    · have hread : readableField (key, value) = value.isReadableList := by
        rw [readableField, if_neg hscalar, if_pos hreferences]
      rw [hread]
      subst hreferences
      unfold batchEntry readBatchField
      simp only [referencesFactSeed_eq]
      cases value.isReadableList <;> rfl
    · have hread : readableField (key, value) = true := by
        rw [readableField, if_neg hscalar, if_neg hreferences]
      simp only [List.mem_cons, List.not_mem_nil, or_false, not_or] at hscalar
      obtain ⟨hmodel, hformat, htask, hvoice, hspeaker, hrefAudio⟩ := hscalar
      rw [hread]
      simp [batchEntry, readBatchField, updateItem, hmodel, hformat, htask, hvoice, hspeaker, hrefAudio,
        hreferences]
      rfl

theorem voiceField_concat (entries : List (String × Json)) (entry : String × Json) :
    voiceField (entries ++ [entry]) =
      if entry.1 = "voice" then some entry.2
      else if entry.1 = "speaker" then (lastField "voice" entries).or (some entry.2)
      else voiceField entries := by
  unfold voiceField
  rw [lastField_concat, lastField_concat]
  by_cases hvoice : entry.1 = "voice"
  · simp [hvoice]
  · by_cases hspeaker : entry.1 = "speaker"
    · simp [hspeaker]
    · simp [hvoice, hspeaker]

theorem updateItem_itemFields (entries : List (String × Json)) (entry : String × Json) :
    updateItem (itemFields entries) entry = itemFields (entries ++ [entry]) := by
  obtain ⟨key, value⟩ := entry
  by_cases hrouting : key ∈ ["model", "response_format", "task_type", "voice", "ref_audio", "references"]
  · simp only [List.mem_cons, List.not_mem_nil, or_false] at hrouting
    rcases hrouting with rfl | rfl | rfl | rfl | rfl | rfl
    all_goals
      simp only [itemFields, lastField_concat, voiceField_concat, String.reduceEq, if_true, if_false]
      refine congrArg (BatchSpeechFields.mk _) (funext fun field => ?_)
      cases field <;> rfl
  · simp only [List.mem_cons, List.not_mem_nil, or_false, not_or] at hrouting
    obtain ⟨hmodel, hformat, htask, hvoice, hrefAudio, hreferences⟩ := hrouting
    by_cases hspeaker : key = "speaker"
    · subst hspeaker
      cases hlast : lastField "voice" entries with
      | some voice =>
        simp [updateItem, itemFields, lastField_concat, voiceField, hlast]
      | none =>
        simp only [updateItem, itemFields, lastField_concat, voiceField_concat, hlast, String.reduceEq,
          if_true, if_false]
        refine congrArg (BatchSpeechFields.mk _) (funext fun field => ?_)
        cases field <;> rfl
    · simp [updateItem, itemFields, lastField_concat, voiceField_concat, hmodel, hformat, htask, hvoice,
        hspeaker, hrefAudio, hreferences]

theorem foldl_updateItem (entries : List (String × Json)) :
    entries.foldl updateItem {} = itemFields entries := by
  induction entries using List.reverseRecOn with
  | nil =>
    refine congrArg (BatchSpeechFields.mk _) (funext fun field => ?_)
    cases field <;> rfl
  | append_singleton entries entry ih =>
    rw [List.foldl_append, ih]
    exact updateItem_itemFields entries entry

/-! ### The list of items -/

def readableItem : Json → Bool
  | .object entries => entries.all readableField
  | value => value.isReadable

def itemFact : Json → Option BatchSpeechFields
  | .object entries => some (itemFields entries)
  | _ => none

theorem itemSeed_eq (value : Json) :
    itemSeed value = if readableItem value then .ok (itemFact value) else .error .malformedRequest := by
  cases value with
  | object entries =>
    show (entries.foldlM batchEntry {} >>= fun item => .ok (some item)) = if entries.all readableField then _ else _
    rw [foldlM_ite batchEntry_eq, foldl_updateItem]
    cases entries.all readableField <;> rfl
  | _ => rfl

def addItemFact (s : List BatchSpeechFields × Bool) (value : Json) : List BatchSpeechFields × Bool :=
  match itemFact value with
  | some item => if s.1.length < u16Max then (s.1 ++ [item], s.2) else (s.1, false)
  | none => (s.1, false)

theorem itemsElement_eq (s : List BatchSpeechFields × Bool) (value : Json) :
    itemsElement s value =
      if readableItem value then .ok (addItemFact s value) else .error .malformedRequest := by
  unfold itemsElement addItemFact
  rw [itemSeed_eq]
  cases readableItem value with
  | false => rfl
  | true =>
    show (match itemFact value with
      | some item => Except.ok _
      | none => Except.ok _) = _
    cases itemFact value <;> rfl

structure AllItems (values : List Json) : Prop where
  objects : ∀ value ∈ values, (itemFact value).isSome = true
  few : values.length ≤ u16Max

instance (values : List Json) : Decidable (AllItems values) :=
  decidable_of_iff ((∀ value ∈ values, (itemFact value).isSome = true) ∧ values.length ≤ u16Max)
    ⟨fun ⟨h, h'⟩ => ⟨h, h'⟩, fun ⟨h, h'⟩ => ⟨h, h'⟩⟩

theorem length_filterMap {values : List Json} (h : ∀ value ∈ values, (itemFact value).isSome = true) :
    (values.filterMap itemFact).length = values.length := by
  induction values with
  | nil => rfl
  | cons value values ih =>
    obtain ⟨item, hitem⟩ := Option.isSome_iff_exists.mp (h value List.mem_cons_self)
    rw [List.filterMap_cons_some hitem, List.length_cons, List.length_cons,
      ih fun v hv => h v (List.mem_cons_of_mem _ hv)]

theorem foldl_addItemFact (values : List Json) :
    (values.foldl addItemFact ([], true)).1 = (values.filterMap itemFact).take u16Max ∧
      ((values.foldl addItemFact ([], true)).2 = true ↔ AllItems values) := by
  induction values using List.reverseRecOn with
  | nil => exact ⟨rfl, fun _ => ⟨by simp, by simp⟩, fun _ => rfl⟩
  | append_singleton values value ih =>
    obtain ⟨hitems, hvalid⟩ := ih
    rw [List.foldl_append, List.foldl_cons, List.foldl_nil, List.filterMap_append]
    generalize values.foldl addItemFact ([], true) = s at hitems hvalid
    obtain ⟨items, valid⟩ := s
    dsimp only at hitems hvalid
    subst hitems
    have hlength : AllItems (values ++ [value]) → values.length + 1 ≤ u16Max := fun h => by
      simpa using h.few
    have hbefore : AllItems (values ++ [value]) → AllItems values := fun h =>
      ⟨fun v hv => h.objects v (List.mem_append_left _ hv), by have := hlength h; omega⟩
    unfold addItemFact
    cases hfact : itemFact value with
    | none =>
      refine ⟨by simp [hfact], fun h => (by cases h), fun h => ?_⟩
      have hsome := h.objects value (List.mem_append_right _ List.mem_cons_self)
      rw [hfact] at hsome
      cases hsome
    | some item =>
      dsimp only
      by_cases hroom : (values.filterMap itemFact).length < u16Max
      · rw [if_pos (by simp [hroom])]
        refine ⟨?_, ?_⟩
        · rw [List.take_of_length_le (by omega), List.take_of_length_le (by simp [hfact]; omega)]
          simp [hfact]
        · refine ⟨fun h => ?_, fun h => hvalid.mpr (hbefore h)⟩
          have hall := hvalid.mp h
          rw [length_filterMap hall.objects] at hroom
          refine ⟨fun v hv => ?_, by rw [List.length_append]; exact hroom⟩
          rcases List.mem_append.mp hv with hv | hv
          · exact hall.objects v hv
          · rw [List.mem_singleton.mp hv, hfact]
            rfl
      · rw [if_neg (by simp; omega)]
        refine ⟨?_, fun h => (by cases h), fun h => ?_⟩
        · rw [List.take_append_of_le_length (by omega)]
        · have hfull := length_filterMap (hbefore h).objects
          have := hlength h
          omega

theorem itemsSeed_array (values : List Json) :
    itemsSeed (.array values) = if values.all readableItem then
        .ok (if AllItems values then .valid (values.filterMap itemFact) else .invalid)
      else .error .malformedRequest := by
  show (values.foldlM itemsElement ([], true) >>= _) = _
  rw [foldlM_ite itemsElement_eq]
  cases values.all readableItem with
  | false => rfl
  | true =>
    obtain ⟨hitems, hvalid⟩ := foldl_addItemFact values
    show Except.ok (if (values.foldl addItemFact ([], true)).2 = true then
      ItemsFact.valid (values.foldl addItemFact ([], true)).1 else .invalid) = Except.ok _
    by_cases hall : AllItems values
    · have hfew := hall.few
      rw [if_pos (hvalid.mpr hall), if_pos hall, hitems, List.take_of_length_le]
      rw [length_filterMap hall.objects]
      exact hfew
    · rw [if_neg fun h => hall (hvalid.mp h), if_neg hall]

/-! ### The root -/

def itemsFact (value : Json) : ItemsFact := (itemsSeed value).toOption.getD .invalid

theorem isOk_eq {α : Type} {x : Except HttpFault α} {fact : α} {readable : Bool}
    (h : x = if readable then .ok fact else .error .malformedRequest) : x.isOk = readable := by
  subst h
  cases readable <;> rfl

theorem itemsSeed_eq (value : Json) :
    itemsSeed value =
      if (itemsSeed value).isOk then .ok (itemsFact value) else .error .malformedRequest := by
  cases value with
  | array values =>
    rw [isOk_eq (itemsSeed_array values), itemsFact, itemsSeed_array]
    cases values.all readableItem <;> rfl
  | _ => rfl

def readableRoot (entry : String × Json) : Bool :=
  if entry.1 = "stream" ∨ entry.1 = "stream_format" then entry.2.isReadable
  else if entry.1 = "items" then (itemsSeed entry.2).isOk
  else readableField entry

def text (value : Json) : Option String := (scalarFact value).intoString

def rootFields (entries : List (String × Json)) : SpeechFields where
  model := (lastField "model" entries).map text
  responseFormat := (lastField "response_format" entries).map text
  stream := (lastField "stream" entries).map fun value => (scalarFact value).intoBool
  streamFormat := (lastField "stream_format" entries).map text
  task := (lastField "task_type" entries).map text
  voice := (voiceField entries).map text
  voicePresent := (lastField "voice" entries).isSome
  refAudio := (lastField "ref_audio" entries).map fun value => (scalarFact value).isString
  references := (lastField "references" entries).map fun value => (referencesFact value).intoValue

def rootOf (entries : List (String × Json)) : Root where
  fields := rootFields entries
  items := (lastField "items" entries).map itemsFact

def updateRoot (s : Root) (entry : String × Json) : Root :=
  let (key, value) := entry
  if key = "stream" then { s with fields := { s.fields with stream := some (scalarFact value).intoBool } }
  else if key = "stream_format" then { s with fields := { s.fields with streamFormat := some (text value) } }
  else if key = "items" then { s with items := some (itemsFact value) }
  else if key = "model" then { s with fields := { s.fields with model := some (text value) } }
  else if key = "response_format" then
    { s with fields := { s.fields with responseFormat := some (text value) } }
  else if key = "task_type" then { s with fields := { s.fields with task := some (text value) } }
  else if key = "voice" then
    { s with fields := { s.fields with voice := some (text value), voicePresent := true } }
  else if key = "speaker" then
    if s.fields.voicePresent then s else { s with fields := { s.fields with voice := some (text value) } }
  else if key = "ref_audio" then
    { s with fields := { s.fields with refAudio := some (scalarFact value).isString } }
  else if key = "references" then
    { s with fields := { s.fields with references := some (referencesFact value).intoValue } }
  else s

theorem rootEntry_eq (s : Root) (entry : String × Json) :
    rootEntry s entry =
      if readableRoot entry then .ok (updateRoot s entry) else .error .malformedRequest := by
  obtain ⟨key, value⟩ := entry
  by_cases hscalar : key ∈ ["stream", "stream_format", "model", "response_format", "task_type", "voice",
    "ref_audio"]
  · simp only [List.mem_cons, List.not_mem_nil, or_false] at hscalar
    rcases hscalar with rfl | rfl | rfl | rfl | rfl | rfl | rfl
    all_goals
      show _ = if value.isReadable then _ else _
      unfold rootEntry
      simp only [readStream, readField, scalarFactSeed_eq, String.reduceEq, if_true, if_false]
      cases value.isReadable <;> rfl
  · simp only [List.mem_cons, List.not_mem_nil, or_false, not_or] at hscalar
    obtain ⟨hstream, hstreamFormat, hmodel, hformat, htask, hvoice, hrefAudio⟩ := hscalar
    by_cases hlist : key ∈ ["speaker", "references", "items"]
    · simp only [List.mem_cons, List.not_mem_nil, or_false] at hlist
      rcases hlist with rfl | rfl | rfl
      · show _ = if value.isReadable then _ else _
        unfold rootEntry updateRoot
        simp only [readField, scalarFactSeed_eq, String.reduceEq, if_true, if_false]
        cases value.isReadable with
        | false => rfl
        | true => cases hpresent : s.fields.voicePresent <;> rfl
      · show _ = if value.isReadableList then _ else _
        unfold rootEntry
        simp only [readField, referencesFactSeed_eq, String.reduceEq, if_true, if_false]
        cases value.isReadableList <;> rfl
      · show _ = if (itemsSeed value).isOk then _ else _
        unfold rootEntry
        simp only [String.reduceEq, if_true, if_false]
        conv_lhs => rw [itemsSeed_eq]
        cases (itemsSeed value).isOk <;> rfl
    · simp only [List.mem_cons, List.not_mem_nil, or_false, not_or] at hlist
      obtain ⟨hspeaker, hreferences, hitems⟩ := hlist
      simp [rootEntry, readField, updateRoot, readableRoot, readableField, hstream, hstreamFormat, hmodel,
        hformat, htask, hvoice, hspeaker, hrefAudio, hreferences, hitems]
      rfl

theorem updateRoot_rootOf (entries : List (String × Json)) (entry : String × Json) :
    updateRoot (rootOf entries) entry = rootOf (entries ++ [entry]) := by
  obtain ⟨key, value⟩ := entry
  by_cases hrouting : key ∈ ["stream", "stream_format", "items", "model", "response_format", "task_type",
    "voice", "ref_audio", "references"]
  · simp only [List.mem_cons, List.not_mem_nil, or_false] at hrouting
    rcases hrouting with rfl | rfl | rfl | rfl | rfl | rfl | rfl | rfl | rfl
    all_goals
      simp only [rootOf, rootFields, lastField_concat, voiceField_concat, String.reduceEq, if_true, if_false]
      rfl
  · simp only [List.mem_cons, List.not_mem_nil, or_false, not_or] at hrouting
    obtain ⟨hstream, hstreamFormat, hitems, hmodel, hformat, htask, hvoice, hrefAudio, hreferences⟩ :=
      hrouting
    by_cases hspeaker : key = "speaker"
    · subst hspeaker
      cases hlast : lastField "voice" entries with
      | some voice =>
        simp [updateRoot, rootOf, rootFields, lastField_concat, voiceField, hlast]
      | none =>
        simp [updateRoot, rootOf, rootFields, lastField_concat, voiceField_concat, hlast]
    · simp [updateRoot, rootOf, rootFields, lastField_concat, voiceField_concat, hstream, hstreamFormat,
        hitems, hmodel, hformat, htask, hvoice, hspeaker, hrefAudio, hreferences]

theorem foldl_updateRoot (entries : List (String × Json)) : entries.foldl updateRoot {} = rootOf entries := by
  induction entries using List.reverseRecOn with
  | nil => rfl
  | append_singleton entries entry ih =>
    rw [List.foldl_append, ih]
    exact updateRoot_rootOf entries entry

theorem rootSeed_object (entries : List (String × Json)) :
    rootSeed (.object entries) =
      if entries.all readableRoot then
        match (lastField "items" entries).map itemsFact with
        | some (.valid items) => .ok (rootFields entries, items)
        | some .invalid | none => .error .malformedRequest
      else .error .malformedRequest := by
  show (entries.foldlM rootEntry {} >>= _) = _
  rw [foldlM_ite rootEntry_eq, foldl_updateRoot]
  cases entries.all readableRoot with
  | false => rfl
  | true => rfl

end Router
