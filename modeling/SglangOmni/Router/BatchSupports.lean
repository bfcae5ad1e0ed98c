import Mathlib.Logic.Relation
import SglangOmni.Router.BatchFields
import SglangOmni.Router.BatchUnion

/-! A row that matches the requirement of a batch supports each of its routable items, and the requirement
does not depend on the order of the items or of the keys. -/

namespace Router

open Lib

variable {root item entries : List (String × Json)} {value : Json}

/-! ### What an item asks for, by its JSON -/

def stringOf : Option Json → Option String
  | some (.string value) => some value
  | _ => none

def Json.IsObject (value : Json) : Prop := ∃ entries, value = .object entries

def Json.hasCodes : Json → Bool
  | .object entries =>
    match lastField "vq_codes" entries with
    | none | some .null => false
    | some _ => true
  | _ => false

def flagsOf : Option Json → Option ReferenceFlags
  | some (.array values) =>
    if values.all (fun value => (referenceFact value).isSome) then
      some { list := !values.isEmpty, vqCodes := values.any Json.hasCodes }
    else none
  | _ => none

def effectiveString (root item : List (String × Json)) (key : String) : Option String :=
  (stringOf (lastField key item)).or (stringOf (lastField key root))

/-- The model by its name; `none` is the worker's default. -/
def effectiveModel (root item : List (String × Json)) : Option String :=
  (effectiveString root item "model").filter fun value => value ≠ ""

def effectiveFormat (root item : List (String × Json)) : Option SpeechResponseFormat :=
  responseFormat ((effectiveString root item "response_format").getD "wav")

def effectiveTask (root item : List (String × Json)) : Option SpeechTask :=
  (effectiveString root item "task_type").bind task

def effectiveForms (root item : List (String × Json)) : List ReferenceForm :=
  collectReferenceForms (effectiveString root item "ref_audio").isSome
    ((flagsOf (lastField "references" item)).or (flagsOf (lastField "references" root)))

def effectiveNamed (root item : List (String × Json)) : Bool :=
  effectiveForms root item = [ReferenceForm.none] &&
    isNamed ((stringOf (voiceField item)).or (stringOf (voiceField root)))

def Json.IsNullable (value : Json) : Prop := value = .null ∨ ∃ text, value = .string text

structure RoutableItem (item : List (String × Json)) : Prop where
  scalars : ∀ key ∈ ["model", "response_format", "task_type", "ref_audio"],
    ∀ value ∈ lastField key item, value.IsNullable
  voice : ∀ value ∈ voiceField item, value.IsNullable
  references : ∀ value ∈ lastField "references" item,
    value = .null ∨ ∃ values, value = .array values ∧ ∀ element ∈ values, element.IsObject

def Supports (profile : ServiceProfile) (workerDefault : Option String)
    (root item : List (String × Json)) : Prop :=
  match profile with
  | .speechBatch modelIds formats tasks forms policy _ =>
    (match effectiveModel root item with
      | some model => model ∈ modelIds
      | none => ∀ model ∈ workerDefault, model ∈ modelIds) ∧
    (∀ format ∈ effectiveFormat root item, format ∈ formats) ∧
    (∀ task ∈ effectiveTask root item, task ∈ tasks) ∧
    (if effectiveNamed root item then policy = .uploaded ∨ ReferenceForm.none ∈ forms
      else ∀ form ∈ effectiveForms root item, form ∈ forms)
  | _ => False

/-! ### The fields read are those -/

theorem foldl_referenceEntry (entries : List (String × Json)) :
    entries.foldl referenceEntry false = Json.hasCodes (.object entries) := by
  induction entries using List.reverseRecOn with
  | nil => rfl
  | append_singleton entries entry ih =>
    rw [List.foldl_append, ih]
    show referenceEntry (Json.hasCodes (.object entries)) entry =
      match lastField "vq_codes" (entries ++ [entry]) with
      | none | some .null => false
      | some _ => true
    rw [lastField_concat]
    unfold referenceEntry
    split
    · cases entry.2 <;> rfl
    · rfl

theorem referenceFact_eq (value : Json) :
    referenceFact value = match value with
      | .object _ => some { list := true, vqCodes := value.hasCodes }
      | _ => none := by
  cases value with
  | object entries =>
    show some _ = some _
    rw [foldl_referenceEntry]
  | _ => rfl

theorem referenceFact_isSome : (referenceFact value).isSome = true ↔ value.IsObject := by
  rw [referenceFact_eq]
  cases value with
  | object entries => exact ⟨fun _ => ⟨entries, rfl⟩, fun _ => rfl⟩
  | _ => exact ⟨fun h => (by cases h), fun ⟨_, h⟩ => (by cases h)⟩

theorem foldl_addReference (values : List Json) :
    ((values.foldl addReference ({}, true)).2 = values.all fun value => (referenceFact value).isSome) ∧
      (values.foldl addReference ({}, true)).1 =
        { list := values.any fun value => (referenceFact value).isSome, vqCodes := values.any Json.hasCodes } := by
  induction values using List.reverseRecOn with
  | nil => exact ⟨rfl, rfl⟩
  | append_singleton values value ih =>
    obtain ⟨hvalid, hflags⟩ := ih
    rw [List.foldl_append, List.foldl_cons, List.foldl_nil, List.all_append, List.any_append, List.any_append]
    generalize values.foldl addReference ({}, true) = s at hvalid hflags
    obtain ⟨flags, valid⟩ := s
    dsimp only at hvalid hflags
    subst hvalid hflags
    unfold addReference
    rw [referenceFact_eq]
    cases value with
    | object entries => simp [referenceFact_eq]
    | _ => simp [referenceFact_eq, Json.hasCodes]

theorem referencesFact_eq (value : Json) : (referencesFact value).intoValue = flagsOf (some value) := by
  cases value with
  | array values =>
    obtain ⟨hvalid, hflags⟩ := foldl_addReference values
    rw [referencesFact, referencesFactSeed_array, hvalid, hflags]
    by_cases hall : values.all (fun value => (referenceFact value).isSome) = true
    · have hread : values.all Json.isReadable = true := by
        rw [List.all_eq_true] at hall ⊢
        intro element hmem
        obtain ⟨entries, rfl⟩ := referenceFact_isSome.mp (hall element hmem)
        rfl
      have hlist : (values.any fun value => (referenceFact value).isSome) = !values.isEmpty := by
        cases values with
        | nil => rfl
        | cons element values =>
          rw [List.all_cons, Bool.and_eq_true] at hall
          rw [List.any_cons, hall.1]
          rfl
      rw [flagsOf, if_pos hall, hread, hall, hlist]
      rfl
    · rw [flagsOf, if_neg hall, Bool.not_eq_true _ |>.mp hall]
      cases values.all Json.isReadable <;> rfl
  | _ => rfl

theorem join_nullable (field : Option Json) :
    (field.map fun value => (nullable value).1).join = stringOf field := by
  cases field with
  | none => rfl
  | some value => cases value <;> rfl

theorem join_text (field : Option Json) : (field.map text).join = stringOf field := by
  cases field with
  | none => rfl
  | some value => cases value <;> rfl

theorem join_references (field : Option Json) :
    (field.map fun value => (referencesFact value).intoValue).join = flagsOf field := by
  cases field with
  | none => rfl
  | some value => exact referencesFact_eq value

theorem intoParts_fst (fact : ReferencesFact) : fact.intoParts.1 = fact.intoValue := by
  cases fact <;> rfl

theorem filter_presence (field : Option Json) :
    ((field.map fun value => (scalarFact value).intoStringPresence.1).filter fun present => present) =
      (stringOf field).map fun _ => true := by
  cases field with
  | none => rfl
  | some value => cases value <;> rfl

theorem filter_isString (field : Option Json) :
    ((field.map fun value => (scalarFact value).isString).filter fun present => present) =
      (stringOf field).map fun _ => true := by
  cases field with
  | none => rfl
  | some value => cases value <;> rfl

theorem routingFieldsValid_of (h : RoutableItem item) : (itemFields item).routingFieldsValid = true := by
  have hnullable : ∀ value : Json, value.IsNullable → (nullable value).2 = true ∧
      (scalarFact value).intoStringPresence.2 = true := by
    rintro value (rfl | ⟨text, rfl⟩) <;> exact ⟨rfl, rfl⟩
  have hscalar : ∀ key ∈ ["model", "response_format", "task_type", "ref_audio"],
      ((lastField key item).any fun value => !(nullable value).2) = false ∧
        ((lastField key item).any fun value => !(scalarFact value).intoStringPresence.2) = false := by
    intro key hkey
    cases hlast : lastField key item with
    | none => exact ⟨rfl, rfl⟩
    | some value =>
      obtain ⟨h₁, h₂⟩ := hnullable value (h.scalars key hkey value hlast)
      simp [h₁, h₂]
  have hvoice : ((voiceField item).any fun value => !(nullable value).2) = false := by
    cases hlast : voiceField item with
    | none => rfl
    | some value => simp [(hnullable value (h.voice value hlast)).1]
  have hreferences : ((lastField "references" item).any fun value => !(referencesFact value).intoParts.2) =
      false := by
    cases hlast : lastField "references" item with
    | none => rfl
    | some value =>
      rcases h.references value hlast with rfl | ⟨values, rfl, hobjects⟩
      · rfl
      · have hall : values.all (fun element => (referenceFact element).isSome) = true :=
          List.all_eq_true.mpr fun element hmem => referenceFact_isSome.mpr (hobjects element hmem)
        have hvalue := referencesFact_eq (.array values)
        rw [flagsOf, if_pos hall] at hvalue
        cases hfact : referencesFact (.array values) with
        | value flags => simp [hfact, ReferencesFact.intoParts]
        | invalid =>
          rw [hfact] at hvalue
          cases hvalue
  simp [BatchSpeechFields.routingFieldsValid, itemFields, hscalar, hvoice, hreferences]

structure DefaultsOf (root : List (String × Json)) (defaults : BatchDefaults) : Prop where
  fields : defaults.fields = rootFields root
  format : responseFormat ((stringOf (lastField "response_format" root)).getD "wav") = some defaults.format
  task : (stringOf (lastField "task_type" root)).bind task = defaults.task

theorem defaultsOf {defaults : BatchDefaults} (h : batchDefaults (rootFields root) = .ok defaults) :
    DefaultsOf root defaults := by
  have hformat : (rootFields root).responseFormat.join = stringOf (lastField "response_format" root) :=
    join_text _
  have htask : (rootFields root).task.join = stringOf (lastField "task_type" root) := join_text _
  unfold batchDefaults at h
  rw [hformat, htask] at h
  split at h
  · cases h
  · next format hfound =>
    split at h
    · next hnone =>
      cases h
      exact ⟨rfl, hfound, by rw [hnone]; rfl⟩
    · next value hsome =>
      split at h
      · cases h
      · next found hvalue =>
        cases h
        exact ⟨rfl, hfound, by rw [hsome]; exact hvalue⟩

section

variable {defaults : BatchDefaults}

theorem selectionOf_eq (h : DefaultsOf root defaults) (routeModel : Option String) :
    selectionOf routeModel defaults (itemFields item) =
      modelSelection (effectiveString root item "model") routeModel := by
  rw [selectionOf, h.fields, effectiveString]
  congr 2
  · exact join_nullable _
  · exact join_text _

theorem formatOf_eq (h : DefaultsOf root defaults) :
    formatOf defaults (itemFields item) = effectiveFormat root item := by
  have hitem : (itemFields item).fields.responseFormat.join = stringOf (lastField "response_format" item) :=
    join_nullable _
  rw [formatOf, hitem, effectiveFormat, effectiveString]
  cases stringOf (lastField "response_format" item) with
  | none => exact h.format.symm
  | some value => rfl

theorem taskOf_eq (h : DefaultsOf root defaults) :
    taskOf defaults (itemFields item) = effectiveTask root item := by
  have hitem : (itemFields item).fields.task.join = stringOf (lastField "task_type" item) := join_nullable _
  rw [taskOf, hitem, effectiveTask, effectiveString]
  cases stringOf (lastField "task_type" item) with
  | none => exact h.task.symm
  | some value => rfl

theorem formsOf_eq (h : DefaultsOf root defaults) :
    formsOf defaults (itemFields item) = effectiveForms root item := by
  have hitem : (itemFields item).fields.references.join = flagsOf (lastField "references" item) := by
    show ((lastField "references" item).map fun value => (referencesFact value).intoParts.1).join = _
    simp only [intoParts_fst]
    exact join_references _
  have hroot : (rootFields root).references.join = flagsOf (lastField "references" root) := join_references _
  have hitemAudio : ((itemFields item).fields.refAudio.filter fun present => present) =
      (stringOf (lastField "ref_audio" item)).map fun _ => true := filter_presence _
  have hrootAudio : ((rootFields root).refAudio.filter fun present => present) =
      (stringOf (lastField "ref_audio" root)).map fun _ => true := filter_isString _
  unfold formsOf effectiveReferenceForms effectiveForms effectiveString
  rw [h.fields, hitem, hroot, hitemAudio, hrootAudio]
  cases stringOf (lastField "ref_audio" item) <;> cases stringOf (lastField "ref_audio" root) <;> rfl

theorem voiceNamed_eq (h : DefaultsOf root defaults) :
    voiceNamed defaults (itemFields item) = effectiveNamed root item := by
  have hitem : (itemFields item).fields.voice.join = stringOf (voiceField item) := join_nullable _
  have hroot : (rootFields root).voice.join = stringOf (voiceField root) := join_text _
  rw [voiceNamed, formsOf_eq h, h.fields, hitem, hroot, effectiveNamed]

end

theorem mem_of_contains {α : Type} [DecidableEq α] {available required : List α} {x : α}
    (h : containsAll available required = true) (hx : x ∈ required) : x ∈ available := by
  have hcontains := List.all_eq_true.mp h x hx
  simpa using hcontains

theorem modelSelection_matches {model routeModel workerDefault : Option String} {modelIds : List String}
    {selection : ModelSelection} (h : modelSelection model routeModel = .ok selection)
    (hmatches : selection.matchesProfileModels modelIds workerDefault = true) :
    match model.filter fun value => value ≠ "" with
      | some model => model ∈ modelIds
      | none => ∀ model ∈ workerDefault, model ∈ modelIds := by
  unfold modelSelection at h
  generalize (model.filter fun value => value ≠ "") = name at h ⊢
  cases name with
  | some name =>
    have hselection : selection = .explicit name := by
      cases routeModel with
      | none =>
        cases h
        rfl
      | some asserted =>
        dsimp only at h
        split at h
        · cases h
        · cases h
          rfl
    subst hselection
    simpa [ModelSelection.matchesProfileModels] using hmatches
  | none =>
    intro default hdefault
    cases hdefault
    cases routeModel with
    | none =>
      cases h
      simpa [ModelSelection.matchesProfileModels] using hmatches
    | some asserted =>
      cases h
      simp only [ModelSelection.matchesProfileModels, Bool.and_eq_true, beq_iff_eq, Option.some.injEq] at hmatches
      obtain ⟨rfl, hmem⟩ := hmatches
      simpa using hmem

/-! ### Other orders -/

/-- One step of rearranging a body: the entries of its root or of an item, or the items themselves. -/
inductive Rearranged : Json → Json → Prop where
  | root {entries entries' : List (String × Json)} (h : Reordered entries entries') :
      Rearranged (.object entries) (.object entries')
  | items {before after : List (String × Json)} {values values' : List Json} (h : values.Perm values') :
      Rearranged (.object (before ++ ("items", .array values) :: after))
        (.object (before ++ ("items", .array values') :: after))
  | item {before after item item' : List (String × Json)} {first rest : List Json}
      (h : Reordered item item') :
      Rearranged (.object (before ++ ("items", .array (first ++ .object item :: rest)) :: after))
        (.object (before ++ ("items", .array (first ++ .object item' :: rest)) :: after))

theorem Reordered.itemFields {item' : List (String × Json)} (h : Reordered item item') :
    itemFields item = itemFields item' := by
  unfold Router.itemFields voiceField
  simp only [h.lastField]

theorem Reordered.rootFields {root' : List (String × Json)} (h : Reordered root root') :
    rootFields root = rootFields root' := by
  unfold Router.rootFields voiceField
  simp only [h.lastField]

structure SameItems (values values' : List Json) : Prop where
  readable : values.all readableItem = values'.all readableItem
  allItems : AllItems values ↔ AllItems values'
  items : (values.filterMap itemFact).Perm (values'.filterMap itemFact)

theorem SameItems.of_perm {values values' : List Json} (h : values.Perm values') : SameItems values values' where
  readable := by
    rw [Bool.eq_iff_iff, List.all_eq_true, List.all_eq_true]
    exact ⟨fun hall value hmem => hall value (h.mem_iff.mpr hmem),
      fun hall value hmem => hall value (h.mem_iff.mp hmem)⟩
  allItems :=
    ⟨fun hall => ⟨fun value hmem => hall.objects value (h.mem_iff.mpr hmem), h.length_eq ▸ hall.few⟩,
      fun hall => ⟨fun value hmem => hall.objects value (h.mem_iff.mp hmem), h.length_eq ▸ hall.few⟩⟩
  items := h.filterMap itemFact

theorem SameItems.of_item {item' : List (String × Json)} (h : Reordered item item') (first rest : List Json) :
    SameItems (first ++ .object item :: rest) (first ++ .object item' :: rest) := by
  have hfact : itemFact (.object item) = itemFact (.object item') := congrArg some h.itemFields
  have hread : readableItem (.object item) = readableItem (.object item') := h.all_eq readableField
  refine ⟨?_, ?_, ?_⟩
  · rw [List.all_append, List.all_append, List.all_cons, List.all_cons, hread]
  · have hall : ∀ values values' : List Json, values.map itemFact = values'.map itemFact →
        AllItems values → AllItems values' := by
      intro values values' hmap hitems
      refine ⟨fun value hmem => ?_, ?_⟩
      · obtain ⟨other, hother, heq⟩ := List.mem_map.mp (hmap ▸ List.mem_map_of_mem hmem)
        exact heq ▸ hitems.objects other hother
      · have hlength := congrArg List.length hmap
        rw [List.length_map, List.length_map] at hlength
        exact hlength ▸ hitems.few
    have hmap : (first ++ .object item :: rest).map itemFact = (first ++ .object item' :: rest).map itemFact := by
      simp [hfact]
    exact ⟨hall _ _ hmap, hall _ _ hmap.symm⟩
  · rw [List.filterMap_append, List.filterMap_append, List.filterMap_cons, List.filterMap_cons, hfact]

theorem rootSeed_replace {values values' : List Json} {fields : SpeechFields} {items : List BatchSpeechFields}
    (h : SameItems values values') (before after : List (String × Json))
    (hok : rootSeed (.object (before ++ ("items", .array values) :: after)) = .ok (fields, items)) :
    ∃ items', rootSeed (.object (before ++ ("items", .array values') :: after)) = .ok (fields, items') ∧
      items.Perm items' := by
  have hother : ∀ key : String, key ≠ "items" →
      lastField key (before ++ ("items", .array values) :: after) =
        lastField key (before ++ ("items", .array values') :: after) := by
    intro key hkey
    unfold lastField
    rw [List.filter_append, List.filter_append, List.filter_cons_of_neg (by simpa using hkey.symm),
      List.filter_cons_of_neg (by simpa using hkey.symm)]
  have hfields : rootFields (before ++ ("items", .array values) :: after) =
      rootFields (before ++ ("items", .array values') :: after) := by
    unfold rootFields voiceField
    simp only [hother "model" (by decide), hother "response_format" (by decide), hother "stream" (by decide),
      hother "stream_format" (by decide), hother "task_type" (by decide), hother "voice" (by decide),
      hother "speaker" (by decide), hother "ref_audio" (by decide), hother "references" (by decide)]
  have hread : (before ++ ("items", .array values) :: after).all readableRoot =
      (before ++ ("items", .array values') :: after).all readableRoot := by
    have hitems : ∀ values : List Json, readableRoot ("items", .array values) = values.all readableItem :=
      fun values => isOk_eq (itemsSeed_array values)
    rw [List.all_append, List.all_append, List.all_cons, List.all_cons, hitems, hitems, h.readable]
  have hlast : ∀ values : List Json, lastField "items" (before ++ ("items", .array values) :: after) =
      (lastField "items" after).or (some (.array values)) := by
    intro values
    rw [lastField_append, ← List.singleton_append, lastField_append, Option.or_assoc]
    rfl
  rw [rootSeed_object, hlast, hread, hfields] at hok
  rw [rootSeed_object, hlast]
  split at hok
  · next hall =>
    rw [if_pos hall]
    cases hafter : lastField "items" after with
    | some value =>
      rw [hafter] at hok
      exact ⟨items, hok, List.Perm.refl _⟩
    | none =>
      rw [hafter] at hok
      have hread' : values.all readableItem = true := by
        rw [List.all_append, List.all_cons, Bool.and_eq_true, Bool.and_eq_true] at hall
        have hitem := hall.2.1
        rw [show readableRoot ("items", .array values') = values'.all readableItem from
          isOk_eq (itemsSeed_array values')] at hitem
        exact h.readable.trans hitem
      rw [Option.none_or, Option.map_some] at hok ⊢
      rw [itemsFact, itemsSeed_array, hread'] at hok
      rw [itemsFact, itemsSeed_array, ← h.readable, hread']
      by_cases hitems : AllItems values
      · simp only [if_pos hitems] at hok
        simp only [if_pos (h.allItems.mp hitems)]
        cases hok
        exact ⟨_, rfl, h.items⟩
      · simp only [if_neg hitems] at hok
        cases hok
  · cases hok

theorem rootSeed_rearranged {json json' : Json} (h : Rearranged json json') {fields : SpeechFields}
    {items : List BatchSpeechFields} (hok : rootSeed json = .ok (fields, items)) :
    ∃ items', rootSeed json' = .ok (fields, items') ∧ items.Perm items' := by
  cases h with
  | root h =>
    refine ⟨items, ?_, List.Perm.refl _⟩
    rw [rootSeed_object] at hok ⊢
    rw [← h.all_eq, ← h.lastField, ← h.rootFields]
    exact hok
  | items h => exact rootSeed_replace (.of_perm h) _ _ hok
  | item h => exact rootSeed_replace (.of_item h _ _) _ _ hok

theorem rootSeed_rearrangements {json json' : Json} (h : Relation.ReflTransGen Rearranged json json')
    {fields : SpeechFields} {items : List BatchSpeechFields} (hok : rootSeed json = .ok (fields, items)) :
    ∃ items', rootSeed json' = .ok (fields, items') ∧ items.Perm items' := by
  induction h with
  | refl => exact ⟨items, hok, List.Perm.refl _⟩
  | tail _ hstep ih =>
    obtain ⟨items', hok', hperm⟩ := ih
    obtain ⟨items'', hok'', hperm'⟩ := rootSeed_rearranged hstep hok'
    exact ⟨items'', hok'', hperm.trans hperm'⟩

/-! ### The requirement -/

structure Accepted (routeModel : Option String) (routeStream : Option Bool) (trust : String)
    (fields : SpeechFields) (items : List BatchSpeechFields) (classified : Classified) : Prop where
  stream : mergeStream fields.stream.join routeStream = .ok false
  nonempty : items ≠ []
  few : items.length ≤ u16Max
  united : ∃ defaults s, batchDefaults fields = .ok defaults ∧
    items.foldlM (addItem routeModel defaults)
      { defaultModel := fields.model.join
        formats := [defaults.format]
        namedVoice := namedVoice fields (referenceForms fields) } = .ok s ∧
    classified =
      { requirement :=
          { profile := .speechBatch (dedup (s.models.mergeSort ModelSelection.le)) s.formats s.tasks
              s.references s.namedVoice (UInt16.ofNat items.length)
            trustDomain := trust }
        credits := (UInt16.ofNat items.length).toUInt32 }

theorem batchWithHints_eq_ok {fromSlice : Bytes → Option Json} {bytes : Bytes} {routeModel : Option String}
    {routeStream : Option Bool} {trust : String} {classified : Classified} :
    batchWithHints fromSlice bytes routeModel routeStream trust = .ok classified ↔
      ∃ json fields items, fromSlice bytes = some json ∧ rootSeed json = .ok (fields, items) ∧
        Accepted routeModel routeStream trust fields items classified := by
  unfold batchWithHints
  rw [bind_eq_ok]
  constructor
  · rintro ⟨⟨fields, items⟩, hparse, h⟩
    dsimp only at h
    obtain ⟨streamed, hstream, h⟩ := bind_eq_ok.mp h
    cases streamed with
    | true => cases h
    | false =>
      rw [if_neg (by decide)] at h
      split at h
      · cases h
      · next hcount =>
        obtain ⟨hne, hfew⟩ := not_or.mp hcount
        obtain ⟨defaults, hdefaults, h⟩ := bind_eq_ok.mp h
        obtain ⟨s, hrun, h⟩ := bind_eq_ok.mp h
        cases h
        unfold parseBatch at hparse
        split at hparse
        · next json hjson =>
          exact ⟨json, fields, items, hjson, hparse, hstream, hne, Nat.not_lt.mp hfew, defaults, s, hdefaults,
            hrun, rfl⟩
        · cases hparse
  · rintro ⟨json, fields, items, hjson, hroot, hstream, hne, hfew, defaults, s, hdefaults, hrun, rfl⟩
    refine ⟨(fields, items), ?_, ?_⟩
    · rw [parseBatch, hjson]
      exact hroot
    · dsimp only
      refine bind_eq_ok.mpr ⟨false, hstream, ?_⟩
      rw [if_neg (by decide), if_neg (not_or.mpr ⟨hne, Nat.not_lt.mpr hfew⟩)]
      exact bind_eq_ok.mpr ⟨defaults, hdefaults, bind_eq_ok.mpr ⟨s, hrun, rfl⟩⟩

def SameRequirement (classified classified' : Classified) : Prop :=
  classified.credits = classified'.credits ∧
    classified.requirement.trustDomain = classified'.requirement.trustDomain ∧
      match classified.requirement.profile, classified'.requirement.profile with
      | .speechBatch models formats tasks forms named size, .speechBatch models' formats' tasks' forms' named' size' =>
        (∀ x, x ∈ models ↔ x ∈ models') ∧ (∀ x, x ∈ formats ↔ x ∈ formats') ∧ (∀ x, x ∈ tasks ↔ x ∈ tasks') ∧
          (∀ x, x ∈ forms ↔ x ∈ forms') ∧ named = named' ∧ size = size'
      | _, _ => False

theorem batchDefaults_fields {fields : SpeechFields} {defaults : BatchDefaults}
    (h : batchDefaults fields = .ok defaults) : defaults.fields = fields := by
  unfold batchDefaults at h
  split at h
  · cases h
  · split at h
    · cases h
      rfl
    · split at h
      · cases h
      · cases h
        rfl

theorem unites_initial {routeModel : Option String} {fields : SpeechFields} {defaults : BatchDefaults}
    (h : batchDefaults fields = .ok defaults) :
    Unites routeModel defaults (namedVoice fields (referenceForms fields)) []
      { defaultModel := fields.model.join
        formats := [defaults.format]
        namedVoice := namedVoice fields (referenceForms fields) } := by
  obtain rfl := batchDefaults_fields h
  exact Unites.initial

theorem Accepted.perm {routeModel : Option String} {routeStream : Option Bool} {trust : String}
    {fields : SpeechFields} {items items' : List BatchSpeechFields} {classified : Classified}
    (h : Accepted routeModel routeStream trust fields items classified) (hperm : items.Perm items') :
    ∃ classified', Accepted routeModel routeStream trust fields items' classified' ∧
      SameRequirement classified classified' := by
  obtain ⟨hstream, hne, hfew, defaults, s, hdefaults, hrun, rfl⟩ := h
  have hinitial := @unites_initial routeModel fields defaults hdefaults
  have hunited := hinitial.run hrun
  rw [List.nil_append] at hunited
  have hselected : ∀ item ∈ items', item.routingFieldsValid = true →
      ∃ x, selectionOf routeModel defaults item = .ok x := fun item hmem hvalid =>
    hunited.selected item (hperm.mem_iff.mpr hmem) hvalid
  obtain ⟨s', hrun'⟩ := exists_run hinitial hselected
  have hunited' := hinitial.run hrun'
  rw [List.nil_append] at hunited'
  refine ⟨_, ⟨hstream, fun he => hne (List.perm_nil.mp (he ▸ hperm)), hperm.length_eq ▸ hfew, defaults, s',
    hdefaults, hrun', rfl⟩, ?_⟩
  refine ⟨by rw [hperm.length_eq], rfl, fun x => ?_, fun x => ?_, fun x => ?_, fun x => ?_, ?_, by rw [hperm.length_eq]⟩
  · rw [mem_dedup, mem_dedup, List.mem_mergeSort, List.mem_mergeSort, hunited.models, hunited'.models]
    exact among_perm hperm
  · rw [hunited.formats, hunited'.formats, among_perm hperm]
  · rw [hunited.tasks, hunited'.tasks]
    exact among_perm hperm
  · rw [hunited.references, hunited'.references]
    exact among_perm hperm
  · rw [Bool.eq_iff_iff, hunited.namedVoice, hunited'.namedVoice, among_perm hperm]

theorem rootSeed_items {json : Json} {fields : SpeechFields} {items : List BatchSpeechFields}
    (h : rootSeed json = .ok (fields, items)) :
    ∃ root values, json = .object root ∧ lastField "items" root = some (.array values) ∧
      fields = rootFields root ∧ AllItems values ∧ items = values.filterMap itemFact := by
  cases json with
  | object root =>
    rw [rootSeed_object] at h
    split at h
    · cases hlast : lastField "items" root with
      | none =>
        rw [hlast] at h
        cases h
      | some value =>
        rw [hlast, Option.map_some] at h
        cases value with
        | array values =>
          rw [itemsFact, itemsSeed_array] at h
          cases hread : values.all readableItem with
          | false =>
            rw [hread] at h
            cases h
          | true =>
            rw [hread] at h
            by_cases hall : AllItems values
            · simp only [if_pos hall] at h
              cases h
              exact ⟨root, values, rfl, hlast, rfl, hall, rfl⟩
            · simp only [if_neg hall] at h
              cases h
        | _ => cases h
    · cases h
  | _ => cases h

theorem Unites.supports {routeModel : Option String} {defaults : BatchDefaults} {named : Bool}
    {items : List BatchSpeechFields} {s : BatchUnion} {size : UInt16} {profile : ServiceProfile}
    {workerDefault : Option String} (h : Unites routeModel defaults named items s)
    (hdefaults : DefaultsOf root defaults) (hmem : itemFields item ∈ items) (hroutable : RoutableItem item)
    (hmatches : profile.matches (.speechBatch (dedup (s.models.mergeSort ModelSelection.le)) s.formats s.tasks
      s.references s.namedVoice size) workerDefault = true) : Supports profile workerDefault root item := by
  have hvalid := routingFieldsValid_of hroutable
  cases profile with
  | speechBatch modelIds formats tasks forms policy maxBatchSize =>
    simp only [ServiceProfile.matches, matchesSpeechReferences, Bool.and_eq_true, List.all_eq_true] at hmatches
    obtain ⟨⟨⟨⟨hmodels, -⟩, hformats⟩, htasks⟩, hforms, hvoice⟩ := hmatches
    refine ⟨?_, fun format hformat => ?_, fun task htask => ?_, ?_⟩
    · obtain ⟨x, hx⟩ := h.selected _ hmem hvalid
      have hin : x ∈ dedup (s.models.mergeSort ModelSelection.le) := by
        rw [mem_dedup, List.mem_mergeSort, h.models]
        exact ⟨_, hmem, hvalid, hx⟩
      rw [selectionOf_eq hdefaults] at hx
      exact modelSelection_matches hx (hmodels x hin)
    · refine mem_of_contains hformats ((h.formats format).mpr (.inr ⟨_, hmem, hvalid, ?_⟩))
      exact (formatOf_eq hdefaults).trans hformat
    · refine mem_of_contains htasks ((h.tasks task).mpr ⟨_, hmem, hvalid, ?_⟩)
      exact (taskOf_eq hdefaults).trans htask
    · split
      · next hnamed =>
        rw [← voiceNamed_eq hdefaults] at hnamed
        rw [h.namedVoice.mpr (.inr ⟨_, hmem, hvalid, hnamed⟩)] at hvoice
        simpa using hvoice
      · next hnamed =>
        intro form hform
        rw [← voiceNamed_eq hdefaults] at hnamed
        rw [← formsOf_eq hdefaults] at hform
        exact mem_of_contains hforms
          ((h.references form).mpr ⟨_, hmem, hvalid, Bool.not_eq_true _ |>.mp hnamed, hform⟩)
  | _ => cases hmatches

/-- A row that matches what an accepted batch requires supports each routable item of the batch; the
credits and the batch size are the number of items; and a rearranged body requires the same. -/
theorem batchWithHints_supports {fromSlice : Bytes → Option Json} {bytes : Bytes} {routeModel : Option String}
    {routeStream : Option Bool} {trust : String} {classified : Classified}
    (h : batchWithHints fromSlice bytes routeModel routeStream trust = .ok classified) :
    (∃ root values, fromSlice bytes = some (.object root) ∧ lastField "items" root = some (.array values) ∧
      classified.credits.toNat = values.length ∧
      (∃ models formats tasks forms named size, classified.requirement.profile =
        .speechBatch models formats tasks forms named size ∧ size.toNat = values.length) ∧
      ∀ (profile : ServiceProfile) (workerDefault : Option String),
        profile.matches classified.requirement.profile workerDefault = true →
          ∀ item : List (String × Json), Json.object item ∈ values → RoutableItem item →
            Supports profile workerDefault root item) ∧
    ∀ (bytes' : Bytes) (json json' : Json), fromSlice bytes = some json → fromSlice bytes' = some json' →
      Relation.ReflTransGen Rearranged json json' →
        ∃ classified', batchWithHints fromSlice bytes' routeModel routeStream trust = .ok classified' ∧
          SameRequirement classified classified' := by
  obtain ⟨json, fields, items, hjson, hroot, haccepted⟩ := batchWithHints_eq_ok.mp h
  refine ⟨?_, ?_⟩
  · obtain ⟨root, values, rfl, hlast, rfl, hall, rfl⟩ := rootSeed_items hroot
    obtain ⟨-, -, hfew, defaults, s, hdefaults, hrun, rfl⟩ := haccepted
    have hdefaultsOf := defaultsOf hdefaults
    have hlength := length_filterMap hall.objects
    have hsize : (UInt16.ofNat (values.filterMap itemFact).length).toNat = values.length := by
      rw [UInt16.toNat_ofNat', hlength]
      have : values.length ≤ 65535 := hlength ▸ hfew
      omega
    have hunited := (unites_initial hdefaults).run hrun
    rw [List.nil_append] at hunited
    refine ⟨root, values, hjson, hlast, ?_, ⟨_, _, _, _, _, _, rfl, hsize⟩, ?_⟩
    · rw [UInt16.toNat_toUInt32]
      exact hsize
    · intro profile workerDefault hmatches item hmem hroutable
      exact hunited.supports hdefaultsOf (List.mem_filterMap.mpr ⟨_, hmem, rfl⟩) hroutable hmatches
  · intro bytes' json₁ json' hjson₁ hjson' hrearranged
    cases hjson.symm.trans hjson₁
    obtain ⟨items', hroot', hperm⟩ := rootSeed_rearrangements hrearranged hroot
    obtain ⟨classified', haccepted', hsame⟩ := haccepted.perm hperm
    exact ⟨classified', batchWithHints_eq_ok.mpr ⟨json', fields, items', hjson', hroot', haccepted'⟩, hsame⟩

/-- Two items, the second of which takes its model and its voice from the defaults. -/
def sampleBatch : Json :=
  .object [("model", .string "tts"), ("voice", .string "alice"),
    ("items", .array [.object [("model", .string "other"), ("references", .array [.object []])],
      .object [("input", .string "second")]])]

theorem batchWithHints_supports_sampleBatch :
    ∃ classified, batchWithHints (fun _ => some sampleBatch) [] none none "local" = .ok classified ∧
      classified.credits.toNat = 2 := by
  obtain ⟨classified, h⟩ : ∃ classified,
      batchWithHints (fun _ => some sampleBatch) [] none none "local" = .ok classified :=
    exists_of_isOk (by decide +kernel)
  obtain ⟨⟨root, values, hroot, hlast, hcredits, -⟩, -⟩ := batchWithHints_supports h
  cases hroot
  cases hlast
  exact ⟨classified, h, hcredits⟩

end Router
