import Mathlib.Algebra.BigOperators.Group.List.Basic
import Mathlib.Data.Int.ModEq
import SglangOmni.Lib.Dict

/-! `scheduling/typed_tensor.py`: integer tensors as bytes, shape and dtype. NumPy's conversions are
exact modulo the size of the type, and `ascontiguousarray` gives a scalar one dimension. -/

namespace Payload

open Lib

structure IntTensor where
  shape : List ℕ
  values : List ℤ
  length_eq : values.length = shape.prod
deriving DecidableEq

inductive DType where
  | uint16
  | int32
deriving DecidableEq

/-- A value of a payload's dictionary; `other` is one of another codec. -/
inductive Wire (α : Type) where
  | null
  | bytes (raw : List UInt8)
  | shape (shape : List ℕ)
  | text (text : String)
  | other (value : α)
deriving DecidableEq

/-! ### Items -/

def littleEndian : ℕ → ℕ → List UInt8
  | 0, _ => []
  | n + 1, v => UInt8.ofNat v :: littleEndian n (v / 256)

def ofLittleEndian : List UInt8 → ℕ
  | [] => 0
  | byte :: rest => byte.toNat + 256 * ofLittleEndian rest

namespace DType

def itemSize : DType → ℕ
  | .uint16 => 2
  | .int32 => 4

def name : DType → String
  | .uint16 => "uint16"
  | .int32 => "int32"

def ofName (name : String) : Option DType :=
  if name = "uint16" then some .uint16 else if name = "int32" then some .int32 else none

def cast : DType → ℤ → ℤ
  | .uint16, v => v % 2 ^ 16
  | .int32, v => v.bmod (2 ^ 32)

def toBytes (dtype : DType) (v : ℤ) : List UInt8 :=
  littleEndian dtype.itemSize (v % 2 ^ (8 * dtype.itemSize)).toNat

def ofBytes (dtype : DType) (bytes : List UInt8) : ℤ := dtype.cast (ofLittleEndian bytes)

end DType

def bufferItems (dtype : DType) : ℕ → List UInt8 → List ℤ
  | 0, _ => []
  | n + 1, raw =>
    dtype.ofBytes (raw.take dtype.itemSize) :: bufferItems dtype n (raw.drop dtype.itemSize)

/-- `np.frombuffer(raw, dtype)`; none where it raises. -/
def fromBuffer (dtype : DType) (raw : List UInt8) : Option (List ℤ) :=
  if raw.length % dtype.itemSize = 0 then some (bufferItems dtype (raw.length / dtype.itemSize) raw)
  else none

/-- `array.reshape(shape)`; none where it raises. -/
def reshape (values : List ℤ) (shape : List ℕ) : Option IntTensor :=
  if h : values.length = shape.prod then some ⟨shape, values, h⟩ else none

/-! ### The codec -/

/-- The type to which `encode_typed_tensor` narrows. -/
def narrowest (values : List ℤ) : DType :=
  if values = [] then .uint16
  else if values.min?.any (0 ≤ ·) ∧ values.max?.any (· ≤ 65535) then .uint16
  else .int32

/-- The shape of `np.ascontiguousarray`, which has at least one dimension. -/
def contiguousShape (shape : List ℕ) : List ℕ := if shape = [] then [1] else shape

def encodeTypedTensor {α : Type} (value : IntTensor) (key : String) : List (String × Wire α) :=
  let dtype := narrowest value.values
  let array := value.values.map dtype.cast
  [(key ++ "_bytes", .bytes (array.flatMap dtype.toBytes)),
    (key ++ "_shape", .shape (contiguousShape value.shape)),
    (key ++ "_dtype", .text dtype.name)]

/-- What a read gives: nothing, the tensor, or the value that stands under the legacy key. -/
inductive Decoded (α : Type) where
  | absent
  | tensor (value : IntTensor)
  | legacy (value : Wire α)
deriving DecidableEq

def decodeEncoded {α : Type} (data : Dict String (Wire α)) (key : String) : Option (Decoded α) :=
  match data.get? (key ++ "_bytes"), data.get? (key ++ "_shape") with
  | none, _ | _, none | some .null, _ | _, some .null => some .absent
  | some (.bytes raw), some (.shape shape) => do
    let dtype ← match data.get? (key ++ "_dtype") with
      | none => some .uint16
      | some (.text name) => DType.ofName name
      | some _ => none
    let array ← reshape (← fromBuffer dtype raw) shape
    return .tensor array
  | some _, some _ => none

def decodeTypedTensor {α : Type} (data : Dict String (Wire α)) (key : String)
    (legacyKey : Option String) : Option (Decoded α) :=
  match legacyKey.bind data.get? with
  | none | some .null => decodeEncoded data key
  | some value => some (.legacy value)

/-! ### Items come back -/

theorem length_littleEndian (n v : ℕ) : (littleEndian n v).length = n := by
  induction n generalizing v with
  | zero => rfl
  | succ n ih => rw [littleEndian, List.length_cons, ih]

theorem ofLittleEndian_littleEndian (n v : ℕ) :
    ofLittleEndian (littleEndian n v) = v % 256 ^ n := by
  induction n generalizing v with
  | zero => rw [pow_zero, Nat.mod_one]; rfl
  | succ n ih =>
    rw [littleEndian, ofLittleEndian, ih, UInt8.toNat_ofNat', pow_succ' 256 n]
    exact Nat.mod_mul.symm

namespace DType

variable (dtype : DType)

theorem ofName_name : ofName dtype.name = some dtype := by cases dtype <;> rfl

theorem itemSize_pos : 0 < dtype.itemSize := by cases dtype <;> decide

theorem length_toBytes (v : ℤ) : (dtype.toBytes v).length = dtype.itemSize := length_littleEndian _ _

theorem ofBytes_toBytes (v : ℤ) : dtype.ofBytes (dtype.toBytes v) = dtype.cast v := by
  have hpow : 256 ^ dtype.itemSize = 2 ^ (8 * dtype.itemSize) := (pow_mul 2 8 _).symm
  have hnonneg : 0 ≤ v % 2 ^ (8 * dtype.itemSize) := Int.emod_nonneg _ (pow_ne_zero _ two_ne_zero)
  rw [ofBytes, toBytes, ofLittleEndian_littleEndian, hpow, Int.natCast_mod,
    Int.toNat_of_nonneg hnonneg, Nat.cast_pow, Nat.cast_ofNat, Int.emod_emod_of_dvd _ dvd_rfl]
  cases dtype with
  | uint16 => exact Int.emod_emod_of_dvd v dvd_rfl
  | int32 => exact Int.emod_bmod v (2 ^ 32)

theorem cast_int32_eq_iff (v : ℤ) : int32.cast v = v ↔ -2 ^ 31 ≤ v ∧ v < 2 ^ 31 := by
  show v.bmod (2 ^ 32) = v ↔ _
  rw [Int.bmod_def]
  split <;> omega

theorem cast_uint16_eq {v : ℤ} (h : 0 ≤ v) (h' : v ≤ 65535) : uint16.cast v = v :=
  Int.emod_eq_of_lt h (by omega)

theorem cast_cast (v : ℤ) : dtype.cast (dtype.cast v) = dtype.cast v := by
  cases dtype with
  | uint16 => exact Int.emod_emod_of_dvd v dvd_rfl
  | int32 => exact Int.bmod_bmod

end DType

theorem bufferItems_flatMap (dtype : DType) (values : List ℤ) :
    bufferItems dtype values.length (values.flatMap dtype.toBytes) = values.map dtype.cast := by
  induction values with
  | nil => rfl
  | cons v values ih =>
    have hlength := dtype.length_toBytes v
    rw [List.length_cons, bufferItems, List.flatMap_cons, ← hlength, List.take_left,
      List.drop_left, ih, dtype.ofBytes_toBytes, List.map_cons]

theorem length_flatMap_toBytes (dtype : DType) (values : List ℤ) :
    (values.flatMap dtype.toBytes).length = values.length * dtype.itemSize := by
  induction values with
  | nil => rw [List.length_nil, Nat.zero_mul]; rfl
  | cons v values ih =>
    rw [List.flatMap_cons, List.length_append, ih, dtype.length_toBytes, List.length_cons]
    ring

theorem fromBuffer_flatMap (dtype : DType) (values : List ℤ) :
    fromBuffer dtype (values.flatMap dtype.toBytes) = some (values.map dtype.cast) := by
  rw [fromBuffer, length_flatMap_toBytes, if_pos (Nat.mul_mod_left _ _),
    Nat.mul_div_cancel _ dtype.itemSize_pos, bufferItems_flatMap]

/-! ### A tensor comes back -/

theorem prod_contiguousShape (shape : List ℕ) : (contiguousShape shape).prod = shape.prod := by
  unfold contiguousShape
  split
  · next h => rw [h]; rfl
  · rfl

def IntTensor.returned (value : IntTensor) : IntTensor where
  shape := contiguousShape value.shape
  values := value.values.map (narrowest value.values).cast
  length_eq := by rw [List.length_map, value.length_eq, prod_contiguousShape]

def IntTensor.Narrow (value : IntTensor) : Prop :=
  value.shape ≠ [] ∧ ∀ v ∈ value.values, -2 ^ 31 ≤ v ∧ v < 2 ^ 31

instance (value : IntTensor) : Decidable value.Narrow := by unfold IntTensor.Narrow; infer_instance

theorem cast_narrowest {values : List ℤ} (h : narrowest values = .uint16) {v : ℤ} (hv : v ∈ values) :
    0 ≤ v ∧ v ≤ 65535 := by
  unfold narrowest at h
  split at h
  · next hnil => rw [hnil] at hv; cases hv
  · split at h
    · next hrange =>
      obtain ⟨low, hlow, hzero⟩ := Option.any_eq_true _ _ |>.mp hrange.1
      obtain ⟨high, hhigh, hmax⟩ := Option.any_eq_true _ _ |>.mp hrange.2
      rw [decide_eq_true_eq] at hzero hmax
      exact ⟨hzero.trans ((List.le_min?_iff hlow).mp le_rfl v hv),
        ((List.max?_le_iff hhigh).mp le_rfl v hv).trans hmax⟩
    · cases h

theorem returned_eq_iff (value : IntTensor) : value.returned = value ↔ value.Narrow := by
  have hshape : contiguousShape value.shape = value.shape ↔ value.shape ≠ [] := by
    unfold contiguousShape
    split
    · next h => simp [h]
    · next h => simp [h]
  have hvalues : value.values.map (narrowest value.values).cast = value.values ↔
      ∀ v ∈ value.values, -2 ^ 31 ≤ v ∧ v < 2 ^ 31 := by
    have hid : value.values = value.values.map id := (List.map_id _).symm
    conv_lhs => rhs; rw [hid]
    rw [List.map_inj_left]
    refine forall₂_congr fun v hv => ?_
    cases hdtype : narrowest value.values with
    | int32 => exact DType.cast_int32_eq_iff v
    | uint16 =>
      obtain ⟨hlow, hhigh⟩ := cast_narrowest hdtype hv
      refine iff_of_true (DType.cast_uint16_eq hlow hhigh) ?_
      omega
  obtain ⟨shape, values, hlength⟩ := value
  rw [IntTensor.returned, IntTensor.mk.injEq, hshape, hvalues, IntTensor.Narrow]

section Read

variable {α : Type} {data : Dict String (Wire α)} {key : String} {value : IntTensor}

def Holds (data : Dict String (Wire α)) (key : String) (value : IntTensor) : Prop :=
  ∀ entry ∈ encodeTypedTensor value key, data.get? entry.1 = some entry.2

theorem decodeEncoded_of_holds (h : Holds data key value) :
    decodeEncoded data key = some (.tensor value.returned) := by
  simp only [Holds, encodeTypedTensor, List.forall_mem_cons] at h
  obtain ⟨hbytes, hshape, hdtype, -⟩ := h
  have hcast : (value.values.map (narrowest value.values).cast).map (narrowest value.values).cast =
      value.values.map (narrowest value.values).cast := by
    rw [List.map_map]
    exact List.map_congr_left fun v _ => DType.cast_cast _ v
  have hbuffer := fromBuffer_flatMap (narrowest value.values)
    (value.values.map (narrowest value.values).cast)
  have hreshape : reshape value.returned.values value.returned.shape = some value.returned :=
    dif_pos value.returned.length_eq
  rw [hcast] at hbuffer
  simp only [decodeEncoded, hbytes, hshape, hdtype, DType.ofName_name]
  show (fromBuffer _ _).bind _ = _
  rw [hbuffer]
  show (reshape value.returned.values value.returned.shape).bind _ = _
  rw [hreshape]
  rfl

end Read

end Payload
