import SglangOmni.Lib.Dict
import SglangOmni.Proto.Msgpack

/-! What `msgpack.packb` does not take: integers past 64 bits, lengths from `2 ^ 32` on and values
nested too deep.  `levels` is the depth that it packs. -/

namespace Proto

namespace Msgpack

def intFits (n : Int) : Bool := -9223372036854775808 ≤ n && n < 18446744073709551616

/-- Whether the length of a string, a binary, an array or a map has a format. -/
def lengthFits (n : Nat) : Bool := n < 4294967296

def strFits (s : String) : Bool := lengthFits s.toUTF8.toList.length

mutual

/-- Whether `packb` takes a value with `levels` left. -/
def fits : Value → Nat → Bool
  | .null, levels => 0 < levels
  | .bool _, levels => 0 < levels
  | .int n, levels => 0 < levels && intFits n
  | .float _, levels => 0 < levels
  | .str s, levels => 0 < levels && strFits s
  | .bytes data, levels => 0 < levels && lengthFits data.length
  | .array items, levels =>
    0 < levels && lengthFits items.length && itemsFit items (levels - 1)
  | .map fields, levels =>
    0 < levels && lengthFits fields.length && fieldsFit fields (levels - 1)

def itemsFit : List Value → Nat → Bool
  | [], _ => true
  | item :: rest, levels => fits item levels && itemsFit rest levels

def fieldsFit : List (String × Value) → Nat → Bool
  | [], _ => true
  | (key, value) :: rest, levels =>
    0 < levels && strFits key && fits value levels && fieldsFit rest levels

end

/-- `msgpack.packb`: the encoding, unless it raises. -/
def packb (levels : Nat) (value : Value) : Option (List UInt8) :=
  if fits value levels then some (packValue value) else none

theorem packb_eq_some {levels : Nat} {value : Value} {bytes : List UInt8} :
    packb levels value = some bytes ↔ fits value levels = true ∧ packValue value = bytes := by
  unfold packb
  split <;> simp_all

end Msgpack

/-! ### The objects of chunks -/

def ChunkPayload.toValue : ChunkPayload → Value
  | .none => .null
  | .bytes data => .bytes data
  | .dict fields => .map fields

def optional {α : Type} (value : α → Value) (x : Option α) : Value := x.elim .null value

def TimedChunk.toDict (chunk : TimedChunk) : List (String × Value) :=
  [("modality", .str chunk.modality), ("t_start_ms", .float chunk.tStartMs),
    ("duration_ms", .float chunk.durationMs), ("seq", .int chunk.seq),
    ("payload", chunk.payload.toValue), ("format", optional .str chunk.format),
    ("eos", .bool chunk.eos), ("turn", optional .int chunk.turn)]

def OutputKind.name : OutputKind → String
  | .data => "data"
  | .inputDone => "input_done"

def SessionIdentity.toDict (identity : SessionIdentity) : List (String × Value) :=
  [("id", .str identity.id), ("open_index", .int identity.openIndex)]

def OutputChunk.toDict (output : OutputChunk) : List (String × Value) :=
  [("session_identity", .map output.sessionIdentity.toDict), ("seq", .int output.seq),
    ("input_seq", .int output.inputSeq), ("modality", .str output.modality),
    ("t_start_ms", .float output.tStartMs), ("duration_ms", .float output.durationMs),
    ("payload", output.payload.toValue), ("format", optional .str output.format),
    ("eos", .bool output.eos), ("turn", optional .int output.turn),
    ("kind", .str output.kind.name)]

namespace Msgpack

theorem packValue_payload (payload : ChunkPayload) :
    packValue payload.toValue = packPayload payload := by
  cases payload <;> rfl

theorem packValue_optional {α : Type} (value : α → Value) (x : Option α) :
    packValue (optional value x) = packOption (fun y => packValue (value y)) x := by
  cases x <;> rfl

theorem packValue_toDict (chunk : TimedChunk) :
    packValue (.map chunk.toDict) = packChunk chunk := by
  simp only [TimedChunk.toDict, packValue, packFields, packValue_payload, packValue_optional,
    packChunk, packTail, List.length_cons, List.length_nil, List.append_assoc, List.append_nil]

/-! ### Wire sizes -/

/-- `chunk_fields["payload"]`. -/
def payloadOf (fields : List (String × Value)) : Option Value :=
  (fields.find? fun field => field.1 = "payload").map Prod.snd

/-- `wire_size`: it packs the fields with an empty payload in place of a binary one. -/
def wireSize (levels : Nat) (fields : List (String × Value)) : Option Nat :=
  match payloadOf fields with
  | some (.bytes data) =>
    (packb levels (.map (Lib.Dict.setEntries "payload" (.bytes []) fields))).map
      fun packed => packed.length + data.length + headerGrowth data.length
  | _ => (packb levels (.map fields)).map List.length

theorem length_bigEndian (k n : Nat) : (bigEndian k n).length = k := by
  induction k generalizing n with
  | zero => rfl
  | succ k ih => simp [bigEndian, ih]

theorem length_packBin (data : List UInt8) :
    (packBin data).length = 2 + data.length + headerGrowth data.length := by
  simp only [packBin, headerGrowth, header]
  split
  · simp only [List.length_append, List.length_cons, length_bigEndian]
    omega
  · split
    · simp only [List.length_append, List.length_cons, length_bigEndian]
      omega
    · simp only [List.length_append, List.length_cons, length_bigEndian]
      omega

theorem length_packFields {fields : List (String × Value)} {data : List UInt8}
    (h : payloadOf fields = some (.bytes data)) :
    (packFields fields).length =
      (packFields (Lib.Dict.setEntries "payload" (.bytes []) fields)).length + data.length +
        headerGrowth data.length := by
  induction fields with
  | nil => cases h
  | cons field rest ih =>
    obtain ⟨key, value⟩ := field
    by_cases hkey : key = "payload"
    · subst hkey
      simp only [payloadOf, List.find?_cons, decide_true, Option.map_some,
        Option.some.injEq] at h
      subst h
      simp only [Lib.Dict.setEntries, if_pos, packFields, packValue, List.length_append,
        length_packBin]
      simp [headerGrowth]
      omega
    · have hrest : payloadOf rest = some (.bytes data) := by
        simpa [payloadOf, hkey] using h
      simp only [Lib.Dict.setEntries, if_neg hkey, packFields, List.length_append, ih hrest]
      omega

theorem length_setEntries {fields : List (String × Value)} {value : Value}
    (h : payloadOf fields = some value) (v : Value) :
    (Lib.Dict.setEntries "payload" v fields).length = fields.length := by
  induction fields with
  | nil => cases h
  | cons field rest ih =>
    by_cases hkey : field.1 = "payload"
    · simp [Lib.Dict.setEntries, hkey]
    · have hrest : payloadOf rest = some value := by
        simpa [payloadOf, hkey] using h
      simp [Lib.Dict.setEntries, hkey, ih hrest]

theorem fieldsFit_setEntries {levels : Nat} {fields : List (String × Value)}
    {data : List UInt8} (h : payloadOf fields = some (.bytes data))
    (hfit : fieldsFit fields levels = true) :
    fieldsFit (Lib.Dict.setEntries "payload" (.bytes []) fields) levels = true := by
  induction fields with
  | nil => cases h
  | cons field rest ih =>
    obtain ⟨key, value⟩ := field
    simp only [fieldsFit, Bool.and_eq_true] at hfit
    obtain ⟨⟨⟨hlevels, hname⟩, hvalue⟩, hfits⟩ := hfit
    by_cases hkey : key = "payload"
    · subst hkey
      simp only [Lib.Dict.setEntries, if_pos, fieldsFit, hlevels, hname, hfits, fits,
        Bool.and_true, Bool.true_and]
      decide
    · have hrest : payloadOf rest = some (.bytes data) := by
        simpa [payloadOf, hkey] using h
      simp only [Lib.Dict.setEntries, if_neg hkey, fieldsFit, hlevels, hname, hvalue,
        ih hrest hfits, Bool.and_self]

theorem wireSize_eq {levels : Nat} {fields : List (String × Value)} {bytes : List UInt8}
    (h : packb levels (.map fields) = some bytes) :
    wireSize levels fields = some bytes.length := by
  unfold wireSize
  split
  case h_2 => rw [h, Option.map_some]
  case h_1 data hpayload =>
    obtain ⟨hfits, rfl⟩ := packb_eq_some.mp h
    simp only [fits, Bool.and_eq_true] at hfits
    have hempty : packb levels (.map (Lib.Dict.setEntries "payload" (.bytes []) fields)) =
        some (packValue (.map (Lib.Dict.setEntries "payload" (.bytes []) fields))) := by
      refine packb_eq_some.mpr ⟨?_, rfl⟩
      rw [fits, length_setEntries hpayload, hfits.1.1, hfits.1.2,
        fieldsFit_setEntries hpayload hfits.2]
      rfl
    rw [hempty, Option.map_some, Option.some.injEq]
    simp only [packValue, List.length_append, length_packFields hpayload,
      length_setEntries hpayload]
    omega

end Msgpack

end Proto
