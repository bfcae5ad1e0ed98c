import Mathlib.Data.List.Induction
import SglangOmni.Payload.TypedTensor

/-! `DeclarativeStateBase` of `scheduling/pipeline_state.py`: a state as a dictionary and back, by the
wire metadata of its fields. -/

namespace Payload

open Lib

variable {α : Type}

/-- A value of a field; `other` is neither `None` nor an integer tensor. -/
inductive Value (α : Type) where
  | none
  | tensor (value : IntTensor)
  | other (value : α)
deriving DecidableEq

inductive EmitMode where
  | always
  | notNone
  | truthy
deriving DecidableEq

/-- The codec of a field: `typed_tensor`, or an entry of `_CODECS`. -/
inductive Codec (α : Type) where
  | typedTensor
  | entry (encode : Value α → Wire α) (decode : Wire α → Value α)

structure Field (α : Type) where
  name : String
  emit : Option EmitMode := .none
  defaultIsNone : Bool := true
  codec : Codec α

def usageFields : List String :=
  ["prompt_tokens", "completion_tokens", "engine_time_s", "finish_reason"]

def Field.emitKind (f : Field α) : EmitMode := f.emit.getD (if f.defaultIsNone then .notNone else .always)

def update (data : Dict String (Wire α)) (entries : List (String × Wire α)) : Dict String (Wire α) :=
  entries.foldl (fun data entry => data.set entry.1 entry.2) data

section Encode

-- `bool` of a value, none where it raises; and the entries of `append_usage_fields`.
variable (truth : Value α → Option Bool) (usage : List (String × Wire α)) (values : String → Value α)

/-- Whether `encode_field` leaves a value out. -/
def leavesOut (emit : EmitMode) (value : Value α) : Option Bool :=
  match emit, value with
  | .notNone, .none => some true
  | .truthy, value => (truth value).map not
  | .always, _ | .notNone, _ => some false

/-- What `encode_field` writes; none where it raises. -/
def Field.encoded (f : Field α) : Option (List (String × Wire α)) := do
  if ← leavesOut truth f.emitKind (values f.name) then return []
  match f.codec, values f.name with
  | .typedTensor, .none => return []
  | .typedTensor, .tensor value => return encodeTypedTensor value f.name
  | .typedTensor, .other _ => failure
  | .entry encode _, value => return [(f.name, encode value)]

def encodeField (data : Dict String (Wire α)) (f : Field α) : Option (Dict String (Wire α)) :=
  (f.encoded truth values).map (update data)

def toDict (fields : List (Field α)) : Option (Dict String (Wire α)) := do
  let data ← (fields.filter (·.name ∉ usageFields)).foldlM (encodeField truth values) ∅
  return update data usage

end Encode

section Decode

-- How the numbers of the usage are read, and what a legacy value is read as.
variable (readUsage : Option (Wire α) → Value α) (readLegacy : Wire α → Value α)

/-- `has_complete_typed_tensor_payload`; none where it raises. -/
def hasCompleteTypedTensorPayload (data : Dict String (Wire α)) (name : String) : Option Bool :=
  let specified := [name ++ "_bytes", name ++ "_shape", name ++ "_dtype"].filter data.contains
  if specified = [] then some false
  else if specified.any fun key => data.get? key matches some .null then none
  else if name ++ "_bytes" ∉ specified ∨ name ++ "_shape" ∉ specified then none
  else some true

/-- The argument that `from_dict` passes for a field, if it passes one; none where it raises. -/
def Field.decoded (f : Field α) (data : Dict String (Wire α)) : Option (Option (Value α)) :=
  match f.codec with
  | .typedTensor => do
    let hasEncoded ← hasCompleteTypedTensorPayload data f.name
    if data.get? f.name = none ∧ !hasEncoded then return none
    else if (data.get? f.name matches some .null) ∧ !hasEncoded then return some .none
    else
      match ← decodeTypedTensor data f.name (some f.name) with
      | .absent => return some .none
      | .tensor value => return some (.tensor value)
      | .legacy value => return some (readLegacy value)
  | .entry _ decode =>
    if f.name ∈ usageFields.take 3 then some (some (readUsage (data.get? f.name)))
    else some ((data.get? f.name).map decode)

def fromDict (fields : List (Field α)) (data : Dict String (Wire α)) :
    Option (Dict String (Value α)) :=
  fields.foldlM (fun kwargs f => (f.decoded readUsage readLegacy data).map fun argument =>
    argument.elim kwargs (kwargs.set f.name)) ∅

end Decode

/-! ### What the fields write -/

def Field.keys (f : Field α) : List String :=
  match f.codec with
  | .typedTensor => [f.name, f.name ++ "_bytes", f.name ++ "_shape", f.name ++ "_dtype"]
  | .entry _ _ => [f.name]

def KeysApart (fields : List (Field α)) : Prop :=
  (usageFields ++ (fields.filter (·.name ∉ usageFields)).flatMap Field.keys).Nodup

theorem get?_update_of_notMem {data : Dict String (Wire α)} {entries : List (String × Wire α)}
    {key : String} (h : key ∉ entries.map Prod.fst) : (update data entries).get? key = data.get? key := by
  unfold update
  induction entries generalizing data with
  | nil => rfl
  | cons entry rest ih =>
    rw [List.map_cons, List.mem_cons, not_or] at h
    rw [List.foldl_cons, ih h.2, Dict.get?_set, if_neg h.1]

theorem get?_update_of_mem {data : Dict String (Wire α)} {entries : List (String × Wire α)}
    (hnodup : (entries.map Prod.fst).Nodup) {entry : String × Wire α} (h : entry ∈ entries) :
    (update data entries).get? entry.1 = some entry.2 := by
  induction entries generalizing data with
  | nil => cases h
  | cons first rest ih =>
    obtain ⟨hfirst, hrest⟩ := List.nodup_cons.mp hnodup
    rcases List.mem_cons.mp h with rfl | h
    · show (update (data.set entry.1 entry.2) rest).get? entry.1 = _
      rw [get?_update_of_notMem hfirst, Dict.get?_set_self]
    · exact ih hrest h

theorem get?_update (data : Dict String (Wire α)) (entries : List (String × Wire α)) (key : String) :
    (update data entries).get? key = ((update ∅ entries).get? key).or (data.get? key) := by
  unfold update
  induction entries using List.reverseRecOn with
  | nil => rfl
  | append_singleton rest entry ih =>
    rw [List.foldl_concat, List.foldl_concat, Dict.get?_set, Dict.get?_set, ih]
    split <;> rfl

section Kept

variable {truth : Value α → Option Bool} {values : String → Value α} {usage : List (String × Wire α)}
variable {fields : List (Field α)} {data data' : Dict String (Wire α)} {f : Field α}

theorem Field.keys_encoded {entries : List (String × Wire α)} (h : f.encoded truth values = some entries) :
    (entries.map Prod.fst).Sublist f.keys := by
  unfold Field.encoded at h
  cases hout : leavesOut truth f.emitKind (values f.name) with
  | none => rw [hout] at h; cases h
  | some isOut =>
    rw [hout, Option.bind_eq_bind, Option.bind_some] at h
    cases isOut with
    | true => cases h; exact List.nil_sublist _
    | false =>
      simp only [Bool.false_eq_true, if_false] at h
      unfold Field.keys
      split at h <;> cases h
      · exact List.nil_sublist _
      · next hcodec _ =>
        rw [hcodec]
        exact List.sublist_cons_self _ _
      · next hcodec =>
        rw [hcodec]
        exact List.Sublist.refl _

theorem get?_encodeField {key : String} (h : encodeField truth values data f = some data')
    (hkey : key ∉ f.keys) : data'.get? key = data.get? key := by
  obtain ⟨entries, hentries, rfl⟩ := Option.map_eq_some_iff.mp h
  exact get?_update_of_notMem fun hmem => hkey ((Field.keys_encoded hentries).subset hmem)

theorem get?_foldlM_encodeField {key : String}
    (h : fields.foldlM (encodeField truth values) data = some data')
    (hkey : key ∉ fields.flatMap Field.keys) : data'.get? key = data.get? key := by
  induction fields generalizing data with
  | nil => cases h; rfl
  | cons g rest ih =>
    rw [List.foldlM_cons, Option.bind_eq_bind, Option.bind_eq_some_iff] at h
    obtain ⟨next, hnext, hrest⟩ := h
    rw [List.flatMap_cons, List.mem_append, not_or] at hkey
    rw [ih hrest hkey.2, get?_encodeField hnext hkey.1]

theorem encoded_of_foldlM (h : fields.foldlM (encodeField truth values) data = some data')
    (hnodup : (fields.flatMap Field.keys).Nodup) (hf : f ∈ fields)
    (hfresh : ∀ key ∈ fields.flatMap Field.keys, data.get? key = none) :
    ∃ entries, f.encoded truth values = some entries ∧
      ∀ key ∈ f.keys, data'.get? key = (update ∅ entries).get? key := by
  induction fields generalizing data with
  | nil => cases hf
  | cons g rest ih =>
    rw [List.foldlM_cons, Option.bind_eq_bind, Option.bind_eq_some_iff] at h
    obtain ⟨next, hnext, hrest⟩ := h
    rw [List.flatMap_cons] at hnodup hfresh
    obtain ⟨-, hnodup', hapart⟩ := List.nodup_append.mp hnodup
    rcases List.mem_cons.mp hf with rfl | hf
    · obtain ⟨entries, hentries, rfl⟩ := Option.map_eq_some_iff.mp hnext
      refine ⟨entries, hentries, fun key hkey => ?_⟩
      have hlater : key ∉ rest.flatMap Field.keys := fun hmem => hapart key hkey key hmem rfl
      rw [get?_foldlM_encodeField hrest hlater, get?_update,
        hfresh key (List.mem_append_left _ hkey), Option.or_none]
    · refine ih hrest hnodup' hf fun key hkey => ?_
      have hother : key ∉ g.keys := fun hmem => hapart key hmem key hkey rfl
      rw [get?_encodeField hnext hother]
      exact hfresh key (List.mem_append_right _ hkey)

/-- The fields of a class have different names, the usage has entries of its own, and no key is
written for two fields. -/
structure ClassKeys (fields : List (Field α)) : Prop where
  names : (fields.map Field.name).Nodup
  usage : ∀ f ∈ fields, f.codec = .typedTensor → f.name ∉ usageFields
  apart : KeysApart fields

theorem ClassKeys.encoded (hclass : ClassKeys fields) (husage : ∀ entry ∈ usage, entry.1 ∈ usageFields)
    (h : toDict truth usage values fields = some data) (hf : f ∈ fields)
    (hcodec : f.codec = .typedTensor) : ∃ entries, f.encoded truth values = some entries ∧
      ∀ key ∈ f.keys, data.get? key = (update ∅ entries).get? key := by
  unfold toDict at h
  rw [Option.bind_eq_bind, Option.bind_eq_some_iff] at h
  obtain ⟨written, hwritten, h⟩ := h
  cases h
  obtain ⟨-, hnodup, hapart⟩ := List.nodup_append.mp hclass.apart
  have hmem : f ∈ fields.filter (·.name ∉ usageFields) := by
    simpa [hf] using hclass.usage f hf hcodec
  obtain ⟨entries, hentries, hkeys⟩ := encoded_of_foldlM hwritten hnodup hmem fun _ _ => rfl
  refine ⟨entries, hentries, fun key hkey => ?_⟩
  rw [get?_update_of_notMem, hkeys key hkey]
  intro hin
  obtain ⟨entry, hentry, rfl⟩ := List.mem_map.mp hin
  exact hapart _ (husage entry hentry) _ (List.mem_flatMap.mpr ⟨f, hmem, hkey⟩) rfl

theorem ClassKeys.nodup (hclass : ClassKeys fields) (hf : f ∈ fields) (hcodec : f.codec = .typedTensor) :
    f.keys.Nodup := by
  obtain ⟨-, hnodup, -⟩ := List.nodup_append.mp hclass.apart
  refine (List.nodup_flatMap.mp hnodup).1 f ?_
  simpa [hf] using hclass.usage f hf hcodec

end Kept

/-! ### What a field reads -/

section Read

variable {readUsage : Option (Wire α) → Value α} {readLegacy : Wire α → Value α}
variable {data : Dict String (Wire α)} {f : Field α} {value : IntTensor} {fields : List (Field α)}

theorem Field.decoded_of_absent (hcodec : f.codec = .typedTensor)
    (h : ∀ key ∈ f.keys, data.get? key = none) : f.decoded readUsage readLegacy data = some none := by
  simp only [Field.keys, hcodec, List.forall_mem_cons] at h
  obtain ⟨hname, hbytes, hshape, hdtype, -⟩ := h
  simp [Field.decoded, hcodec, hasCompleteTypedTensorPayload, Dict.contains, hname, hbytes, hshape, hdtype]

theorem Field.decoded_of_holds (hcodec : f.codec = .typedTensor) (hname : data.get? f.name = none)
    (h : Holds data f.name value) :
    f.decoded readUsage readLegacy data = some (some (.tensor value.returned)) := by
  have hread := decodeEncoded_of_holds h
  simp only [Holds, encodeTypedTensor, List.forall_mem_cons] at h
  obtain ⟨hbytes, hshape, hdtype, -⟩ := h
  have hcomplete : hasCompleteTypedTensorPayload data f.name = some true := by
    simp [hasCompleteTypedTensorPayload, Dict.contains, hbytes, hshape, hdtype]
  simp [Field.decoded, hcodec, hcomplete, decodeTypedTensor, hname, hread]

theorem fromDict_get (hall : ∀ f ∈ fields, ∃ argument, f.decoded readUsage readLegacy data = some argument)
    (hnames : (fields.map Field.name).Nodup) :
    ∃ kwargs, fromDict readUsage readLegacy fields data = some kwargs ∧
      ∀ f ∈ fields, f.decoded readUsage readLegacy data = some (kwargs.get? f.name) := by
  have hfold : ∀ start : Dict String (Value α), (∀ f ∈ fields, start.get? f.name = none) →
      ∃ kwargs, fields.foldlM (fun kwargs f => (f.decoded readUsage readLegacy data).map fun argument =>
          argument.elim kwargs (kwargs.set f.name)) start = some kwargs ∧
        (∀ f ∈ fields, f.decoded readUsage readLegacy data = some (kwargs.get? f.name)) ∧
        ∀ name ∉ fields.map Field.name, kwargs.get? name = start.get? name := by
    induction fields with
    | nil => exact fun start _ => ⟨start, rfl, by simp, fun _ _ => rfl⟩
    | cons g rest ih =>
      intro start hstart
      obtain ⟨hg, hrest⟩ := List.nodup_cons.mp hnames
      obtain ⟨argument, hargument⟩ := hall g List.mem_cons_self
      have hnext : ∀ name, name ≠ g.name →
          (argument.elim start (start.set g.name)).get? name = start.get? name := by
        intro name hname
        cases argument with
        | none => rfl
        | some v => rw [Option.elim_some, Dict.get?_set, if_neg hname]
      obtain ⟨kwargs, hkwargs, hread, hother⟩ :=
        ih (fun f hf => hall f (List.mem_cons_of_mem _ hf)) hrest
          (argument.elim start (start.set g.name)) fun f hf => by
            rw [hnext f.name fun heq => hg (heq ▸ List.mem_map_of_mem hf)]
            exact hstart f (List.mem_cons_of_mem _ hf)
      refine ⟨kwargs, by rw [List.foldlM_cons, hargument]; exact hkwargs, fun f hf => ?_, fun name hname => ?_⟩
      · rcases List.mem_cons.mp hf with rfl | hf
        · rw [hother _ hg, hargument]
          cases argument with
          | none => rw [Option.elim_none, hstart f List.mem_cons_self]
          | some v => rw [Option.elim_some, Dict.get?_set_self]
        · exact hread f hf
      · rw [List.map_cons, List.mem_cons, not_or] at hname
        rw [hother name hname.2, hnext name hname.1]
  obtain ⟨kwargs, hkwargs, hread, -⟩ := hfold ∅ fun _ _ => rfl
  exact ⟨kwargs, hkwargs, hread⟩

end Read

/-! ### A tensor comes back -/

section ComesBack

variable (truth : Value α → Option Bool) (usage : List (String × Wire α)) (values : String → Value α)
variable (readUsage : Option (Wire α) → Value α) (readLegacy : Wire α → Value α)

def ComesBack (fields : List (Field α)) (f : Field α) (value : IntTensor) : Prop :=
  (∀ key, decodeTypedTensor (update ∅ (encodeTypedTensor value key : List (String × Wire α))) key none =
      some (.tensor value)) ∧
    ∃ data kwargs, toDict truth usage values fields = some data ∧
      fromDict readUsage readLegacy fields data = some kwargs ∧ kwargs.get? f.name = some (.tensor value)

variable {truth usage values readUsage readLegacy}
variable {fields : List (Field α)} {f : Field α} {value : IntTensor}

theorem holds_update (key : String) :
    Holds (update ∅ (encodeTypedTensor value key : List (String × Wire α))) key value := by
  have hnodup : ((encodeTypedTensor value key : List (String × Wire α)).map Prod.fst).Nodup := by
    simp [encodeTypedTensor, String.append_right_inj]
  exact fun entry hentry => get?_update_of_mem hnodup hentry

theorem Field.encoded_tensor (hcodec : f.codec = .typedTensor) (hvalue : values f.name = .tensor value) :
    f.encoded truth values = if f.emitKind = .truthy then
        (truth (.tensor value)).map fun isTrue => if isTrue then encodeTypedTensor value f.name else []
      else some (encodeTypedTensor value f.name) := by
  unfold Field.encoded
  rw [hvalue, hcodec]
  cases hkind : f.emitKind with
  | always | notNone => rfl
  | truthy =>
    simp only [leavesOut, if_true]
    rcases truth (.tensor value) with _ | _ | _ <;> rfl

theorem ClassKeys.decoded {data : Dict String (Wire α)} (hclass : ClassKeys fields)
    (husage : ∀ entry ∈ usage, entry.1 ∈ usageFields)
    (h : toDict truth usage values fields = some data) (hf : f ∈ fields)
    (hcodec : f.codec = .typedTensor) :
    (f.encoded truth values = some [] ∧ f.decoded readUsage readLegacy data = some none) ∨
      ∃ value, values f.name = .tensor value ∧
        f.encoded truth values = some (encodeTypedTensor value f.name) ∧
        f.decoded readUsage readLegacy data = some (some (.tensor value.returned)) := by
  obtain ⟨entries, hentries, hkeys⟩ := hclass.encoded husage h hf hcodec
  have hnodup := hclass.nodup hf hcodec
  have hcase : entries = [] ∨ ∃ value, values f.name = .tensor value ∧
      entries = encodeTypedTensor value f.name := by
    unfold Field.encoded at hentries
    rw [hcodec] at hentries
    cases hout : leavesOut truth f.emitKind (values f.name) with
    | none => rw [hout] at hentries; cases hentries
    | some isOut =>
      rw [hout] at hentries
      cases isOut with
      | true => cases hentries; exact .inl rfl
      | false =>
        cases hvalue : values f.name with
        | none => rw [hvalue] at hentries; cases hentries; exact .inl rfl
        | tensor value => rw [hvalue] at hentries; cases hentries; exact .inr ⟨value, rfl, rfl⟩
        | other value => rw [hvalue] at hentries; cases hentries
  rcases hcase with rfl | ⟨value, hvalue, rfl⟩
  · exact .inl ⟨hentries, Field.decoded_of_absent hcodec hkeys⟩
  · refine .inr ⟨value, hvalue, hentries, Field.decoded_of_holds hcodec ?_ ?_⟩
    · simp only [Field.keys, hcodec] at hnodup hkeys
      rw [hkeys _ List.mem_cons_self]
      exact get?_update_of_notMem (List.nodup_cons.mp hnodup).1
    · intro entry hentry
      have hmem : entry.1 ∈ f.keys :=
        (Field.keys_encoded hentries).subset (List.mem_map_of_mem hentry)
      rw [hkeys _ hmem]
      exact holds_update f.name entry hentry

theorem ClassKeys.readable {data : Dict String (Wire α)} (hclass : ClassKeys fields)
    (husage : ∀ entry ∈ usage, entry.1 ∈ usageFields)
    (h : toDict truth usage values fields = some data) :
    ∀ f ∈ fields, ∃ argument, f.decoded readUsage readLegacy data = some argument := by
  intro f hf
  cases hcodec : f.codec with
  | typedTensor =>
    rcases hclass.decoded husage h hf hcodec with ⟨-, hnone⟩ | ⟨_, -, -, hsome⟩
    · exact ⟨_, hnone⟩
    · exact ⟨_, hsome⟩
  | entry encode decode =>
    simp only [Field.decoded, hcodec]
    split <;> exact ⟨_, rfl⟩

theorem toDict_isSome (h : ∀ f ∈ fields, (f.encoded truth values).isSome) :
    ∃ data, toDict truth usage values fields = some data := by
  have hfold : ∀ (fields : List (Field α)) (data : Dict String (Wire α)),
      (∀ f ∈ fields, (f.encoded truth values).isSome) →
      ∃ data', fields.foldlM (encodeField truth values) data = some data' := by
    intro fields
    induction fields with
    | nil => exact fun data _ => ⟨data, rfl⟩
    | cons f rest ih =>
      intro data h
      obtain ⟨entries, hentries⟩ := Option.isSome_iff_exists.mp (h f List.mem_cons_self)
      rw [List.foldlM_cons, encodeField, hentries]
      exact ih _ fun g hg => h g (List.mem_cons_of_mem _ hg)
  obtain ⟨data, hdata⟩ := hfold _ ∅ fun f hf => h f (List.mem_filter.mp hf).1
  exact ⟨update data usage, by rw [toDict, hdata]; rfl⟩

/-- An integer tensor comes back exactly if it has a dimension, its values are ones of an int32, and
its field does not leave it out. -/
theorem tensor_comesBack_iff (hclass : ClassKeys fields)
    (husage : ∀ entry ∈ usage, entry.1 ∈ usageFields) (hf : f ∈ fields)
    (hcodec : f.codec = .typedTensor) (hvalue : values f.name = .tensor value)
    (hothers : ∀ g ∈ fields, g ≠ f → (g.encoded truth values).isSome) :
    ComesBack truth usage values readUsage readLegacy fields f value ↔
      value.Narrow ∧ (f.emitKind = .truthy → truth (.tensor value) = some true) := by
  have hencoded : f.encoded truth values = _ := Field.encoded_tensor hcodec hvalue
  have hpayload (key : String) :
      decodeTypedTensor (update ∅ (encodeTypedTensor value key : List (String × Wire α))) key none =
        some (.tensor value.returned) := decodeEncoded_of_holds (holds_update key)
  constructor
  · rintro ⟨hown, data, kwargs, hdata, hkwargs, hget⟩
    have hreturned : value.returned = value := by
      have hsame := (hpayload "").symm.trans (hown "")
      simpa using hsame
    refine ⟨(returned_eq_iff value).mp hreturned, fun hkind => ?_⟩
    rw [if_pos hkind] at hencoded
    obtain ⟨kwargs', hkwargs', hread⟩ := fromDict_get (hclass.readable husage hdata) hclass.names
    obtain rfl : kwargs' = kwargs := Option.some.inj (hkwargs'.symm.trans hkwargs)
    have hargument := hread f hf
    rw [hget] at hargument
    have hcase : (_ ∧ f.decoded readUsage readLegacy data = _) ∨ _ :=
      hclass.decoded husage hdata hf hcodec
    rcases hcase with
      ⟨-, hnone⟩ | ⟨_, -, hsome, -⟩
    · rw [hnone] at hargument
      cases hargument
    · rw [hencoded] at hsome
      cases htruth : truth (.tensor value) with
      | none => rw [htruth] at hsome; cases hsome
      | some isTrue =>
        cases isTrue with
        | true => rfl
        | false => rw [htruth] at hsome; cases hsome
  · rintro ⟨hnarrow, hemit⟩
    have hreturned := (returned_eq_iff value).mpr hnarrow
    have hwritten : f.encoded truth values = some (encodeTypedTensor value f.name) := by
      rw [hencoded]
      split
      · next hkind => rw [hemit hkind]; rfl
      · rfl
    have hall : ∀ g ∈ fields, (g.encoded truth values).isSome := by
      intro g hg
      by_cases hsame : g = f
      · rw [hsame, hwritten]; rfl
      · exact hothers g hg hsame
    obtain ⟨data, hdata⟩ : ∃ data, toDict truth usage values fields = some data := toDict_isSome hall
    obtain ⟨kwargs, hkwargs, hread⟩ := fromDict_get (hclass.readable husage hdata) hclass.names
    refine ⟨fun key => by rw [hpayload, hreturned], data, kwargs, hdata, hkwargs, ?_⟩
    have hargument := hread f hf
    have hcase : (_ ∧ f.decoded readUsage readLegacy data = _) ∨ _ :=
      hclass.decoded husage hdata hf hcodec
    rcases hcase with
      ⟨hnone, -⟩ | ⟨value', hvalue', -, hsome⟩
    · rw [hwritten] at hnone
      cases hnone
    · obtain rfl : value' = value := by
        rw [hvalue] at hvalue'
        exact (Value.tensor.inj hvalue').symm
      rw [hsome, hreturned] at hargument
      exact (Option.some.inj hargument).symm

end ComesBack

def codesField : Field Unit := { name := "codes", codec := .typedTensor }

theorem codesField_apart : ClassKeys [codesField] where
  names := by decide +kernel
  usage f hf _ := by
    obtain rfl := List.mem_singleton.mp hf
    decide +kernel
  apart := by unfold KeysApart; decide +kernel

theorem tensor_comesBack_iff_pair :
    let pair : IntTensor := ⟨[2], [7, 70000], rfl⟩
    ComesBack (fun _ => none) [] (fun _ => .tensor pair) (fun _ => .none) (fun _ => .none) [codesField]
        codesField pair ↔
      pair.Narrow ∧ (codesField.emitKind = .truthy → (none : Option Bool) = some true) :=
  tensor_comesBack_iff codesField_apart nofun List.mem_cons_self rfl rfl
    fun _ hg hne => absurd (List.mem_singleton.mp hg) hne

/-- The token id of a scalar comes back as a list, and 2 ^ 31 with the other sign. -/
theorem tensor_changed_by_round_trip :
    let decoded (value : IntTensor) : Option (Decoded Unit) :=
      decodeTypedTensor (update ∅ (encodeTypedTensor value "codes")) "codes" none
    decoded ⟨[], [5], rfl⟩ = some (.tensor ⟨[1], [5], rfl⟩) ∧
      decoded ⟨[1], [2 ^ 31], rfl⟩ = some (.tensor ⟨[1], [-2 ^ 31], rfl⟩) ∧
      ¬∀ value, decoded value = some (.tensor value) := by
  have hscalar : decodeTypedTensor (update ∅ (encodeTypedTensor ⟨[], [5], rfl⟩ "codes")) "codes" none =
      (some (.tensor ⟨[1], [5], rfl⟩) : Option (Decoded Unit)) := by decide +kernel
  refine ⟨hscalar, by decide +kernel, fun h => ?_⟩
  have hsame := hscalar.symm.trans (h ⟨[], [5], rfl⟩)
  revert hsame
  decide +kernel

end Payload
