import SglangOmni.Negotiation.Value

/-! The schema of a session configuration and its strict validation, which returns a valid value as it
is.  Reading a reference recording is a parameter: `referenceError` says where a recording is invalid. -/

namespace Negotiation

/-- The type of a value with its constraints.  A field of a record has a name, whether it is required,
and its type. -/
inductive Schema
  | str
  | bool
  | int (accepts : Int → Bool)
  | float (accepts : ℚ → Bool)
  | literal (texts : List String)
  | strings
  | nullable (inner : Schema)
  | record (fields : List (String × Bool × Schema))
  | audioReference

def stringsError (items : List Value) : Option (List String) :=
  (items.findIdx? fun v => match v with | .str _ => false | _ => true).map fun i => [toString i]

def extraError (names : List String) (entries : Entries) : Option (List String) :=
  (entries.find? fun e => !names.contains e.1).map fun e => [e.1]

section

variable (referenceError : Value → Option (List String))

mutual

/-- Where a value is first invalid: `none` where it is valid. -/
def Schema.errorAt : Schema → Value → Option (List String)
  | .str, .str _ => none
  | .bool, .bool _ => none
  | .int accepts, .int n => if accepts n then none else some []
  | .float accepts, .int n => if accepts n then none else some []
  | .float accepts, .float q => if accepts q then none else some []
  | .literal texts, .str s => if texts.contains s then none else some []
  | .strings, .list items => stringsError items
  | .nullable _, .null => none
  | .nullable inner, v => inner.errorAt v
  | .record fields, .dict entries =>
    (fieldsError fields entries).or (extraError (fields.map Prod.fst) entries)
  | .audioReference, v => referenceError v
  | _, _ => some []

def fieldsError : List (String × Bool × Schema) → Entries → Option (List String)
  | [], _ => none
  | (name, isRequired, schema) :: rest, entries =>
    match get? entries name with
    | none => if isRequired then some [name] else fieldsError rest entries
    | some v =>
      match schema.errorAt v with
      | some location => some (name :: location)
      | none => fieldsError rest entries

end

end

def audioFormat : Schema := .record [("type", true, .str), ("rate", true, .int fun _ => true)]

def turnDetectionConfig : Schema := .record
  [("type", false, .str), ("threshold", false, .nullable (.float fun _ => true)),
    ("prefix_padding_ms", false, .nullable (.int fun _ => true)),
    ("silence_duration_ms", false, .nullable (.int fun _ => true)),
    ("eagerness", false, .nullable .str), ("interrupt_response", false, .bool)]

def audioInputFields : List (String × Bool × Schema) :=
  [("format", false, audioFormat), ("turn_detection", false, .nullable turnDetectionConfig)]

def audioOutputFields : List (String × Bool × Schema) := [("format", false, audioFormat)]

def audioFields : List (String × Bool × Schema) :=
  [("input", false, .record audioInputFields), ("output", false, .record audioOutputFields)]

def timebaseConfig : Schema := .record
  [("microturn_ms", false, .nullable (.float fun q => 0 < q)),
    ("native_unit_ms", false, .int fun _ => true)]

def samplingConfig : Schema := .record
  [("temperature", false, .float fun q => 0 ≤ q ∧ q ≤ 2),
    ("top_k", false, .int fun n => -1 ≤ n),
    ("top_p", false, .float fun q => 0 < q ∧ q ≤ 1),
    ("repetition_penalty", false, .float fun q => 1 ≤ q),
    ("listen_prob_scale", false, .float fun q => 0 ≤ q),
    ("greedy", false, .bool),
    ("force_listen_count", false, .int fun n => 0 ≤ n),
    ("max_new_tokens_per_unit", false, .int fun n => 1 ≤ n),
    ("repetition_window_size", false, .int fun n => 1 ≤ n),
    ("talker_temperature", false, .float fun q => 0 ≤ q ∧ q ≤ 2),
    ("talker_repetition_penalty", false, .float fun q => 1 ≤ q),
    ("talker_top_k", false, .int fun n => -1 ≤ n ∧ n ≠ 0),
    ("talker_top_p", false, .float fun q => 0 < q ∧ q ≤ 1),
    ("talker_max_new_tokens", false, .int fun n => 1 ≤ n),
    ("min_p", false, .float fun q => 0 ≤ q ∧ q ≤ 1),
    ("audio_temperature", false, .float fun q => 0 ≤ q ∧ q ≤ 2),
    ("audio_top_k", false, .int fun n => -1 ≤ n),
    ("max_new_tokens", false, .int fun n => 1 ≤ n),
    ("seed", false, .int fun n => 0 ≤ n)]

/-- The fields of `SessionExtension`. -/
def extensionFields : List (String × Bool × Schema) :=
  [("interaction", false, .literal ["native", "turn_based"]),
    ("tail_policy", false, .literal ["flush", "pad", "reject"]),
    ("timebase", false, timebaseConfig),
    ("sampling", false, samplingConfig),
    ("voice", false, .str),
    ("reference_audio", false, .audioReference),
    ("tts_reference_audio", false, .audioReference),
    ("max_slice_nums", false, .int fun n => 1 ≤ n)]

def sessionFields : List (String × Bool × Schema) :=
  [("type", false, .literal ["realtime", "transcription"]),
    ("model", false, .str),
    ("instructions", false, .str),
    ("output_modalities", false, .strings),
    ("audio", false, .record audioFields),
    ("sglang", false, .record extensionFields)]

theorem input_mem_audioFields :
    ("input", false, Schema.record audioInputFields) ∈ audioFields :=
  List.mem_cons_self

theorem output_mem_audioFields :
    ("output", false, Schema.record audioOutputFields) ∈ audioFields :=
  List.mem_cons_of_mem _ List.mem_cons_self

theorem audio_mem_sessionFields : ("audio", false, Schema.record audioFields) ∈ sessionFields := by
  simp [sessionFields]

theorem modalities_mem_sessionFields : ("output_modalities", false, Schema.strings) ∈ sessionFields := by
  simp [sessionFields]

/-! ### Valid records -/

section

variable {referenceError : Value → Option (List String)} {fields : List (String × Bool × Schema)}
  {entries : Entries} {key : String} {v : Value}

def FieldValid (referenceError : Value → Option (List String)) (entries : Entries)
    (field : String × Bool × Schema) : Prop :=
  (field.2.1 = true → (get? entries field.1).isSome = true) ∧
    ∀ v, get? entries field.1 = some v → field.2.2.errorAt referenceError v = none

theorem fieldsError_eq_none_iff : fieldsError referenceError fields entries = none ↔
    ∀ field ∈ fields, FieldValid referenceError entries field := by
  induction fields with
  | nil => exact iff_of_true rfl (List.forall_mem_nil _)
  | cons field rest ih =>
    obtain ⟨name, isRequired, schema⟩ := field
    rw [List.forall_mem_cons, ← ih]
    show (match get? entries name with
      | none => if isRequired then some [name] else fieldsError referenceError rest entries
      | some v =>
        match schema.errorAt referenceError v with
        | some location => some (name :: location)
        | none => fieldsError referenceError rest entries) = none ↔ _
    unfold FieldValid
    cases hget : get? entries name with
    | none => cases isRequired <;> simp
    | some v => cases herror : schema.errorAt referenceError v <;> simp [herror]

theorem extraError_eq_none_iff {names : List String} :
    extraError names entries = none ↔ ∀ e ∈ entries, e.1 ∈ names := by
  simp [extraError]

theorem record_valid_iff : (Schema.record fields).errorAt referenceError (.dict entries) = none ↔
    (∀ field ∈ fields, FieldValid referenceError entries field) ∧
      ∀ e ∈ entries, e.1 ∈ fields.map Prod.fst := by
  show (fieldsError _ _ _).or (extraError _ _) = none ↔ _
  rw [Option.or_eq_none_iff, fieldsError_eq_none_iff, extraError_eq_none_iff]

theorem eq_dict_of_valid (h : (Schema.record fields).errorAt referenceError v = none) :
    ∃ entries, v = .dict entries := by
  cases v with
  | dict entries => exact ⟨entries, rfl⟩
  | _ => cases h

theorem eq_list_of_valid (h : Schema.strings.errorAt referenceError v = none) :
    ∃ items, v = .list items := by
  cases v with
  | list items => exact ⟨items, rfl⟩
  | _ => cases h

theorem valid_get? (h : (Schema.record fields).errorAt referenceError (.dict entries) = none)
    {isRequired : Bool} {schema : Schema} (hfield : (key, isRequired, schema) ∈ fields)
    (hget : get? entries key = some v) : schema.errorAt referenceError v = none :=
  ((record_valid_iff.mp h).1 _ hfield).2 v hget

theorem valid_set (h : (Schema.record fields).errorAt referenceError (.dict entries) = none)
    (hkey : key ∈ fields.map Prod.fst)
    (hv : ∀ field ∈ fields, field.1 = key → field.2.2.errorAt referenceError v = none) :
    (Schema.record fields).errorAt referenceError (.dict (set entries key v)) = none := by
  obtain ⟨hfields, hextra⟩ := record_valid_iff.mp h
  refine record_valid_iff.mpr ⟨fun field hfield => ⟨fun hrequired => ?_, fun w hw => ?_⟩, fun e he => ?_⟩
  · rw [get?_set]
    split
    · rfl
    · exact (hfields field hfield).1 hrequired
  · rw [get?_set] at hw
    split at hw
    · next heq =>
      rw [← Option.some.inj hw]
      exact hv field hfield heq
    · exact (hfields field hfield).2 w hw
  · have hmem : e.1 ∈ (set entries key v).map Prod.fst := List.mem_map_of_mem he
    rw [set, Lib.Dict.keys_setEntries] at hmem
    split at hmem
    · obtain ⟨old, hold, heq⟩ := List.mem_map.mp hmem
      rw [← heq]
      exact hextra old hold
    · rcases List.mem_append.mp hmem with hold | hnew
      · obtain ⟨old, hold, heq⟩ := List.mem_map.mp hold
        rw [← heq]
        exact hextra old hold
      · rw [List.mem_singleton.mp hnew]
        exact hkey

end

end Negotiation
