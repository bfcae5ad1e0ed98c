import SglangOmni.StageIo.Tensors
import Mathlib.Data.Int.ModEq
import Mathlib.Data.List.Forall2

/-! `pack_tensor_chunks` lays the bytes of a payload's tensors one after another, each at a multiple of
its element size, and `read_payload` slices the buffer by the entries. -/

namespace StageIo

open Lib

/-- What `read_payload` finds a tensor by. -/
structure TensorMeta where
  path : String
  shape : List Nat
  dtype : String
  device : String
  offset : Nat
  size : Nat
deriving DecidableEq, Repr

def padOffset (offset alignment : Nat) : Nat := ((-offset : Int) % alignment).toNat

def dtypeAlignment (dtype : Dtype) : Nat := max dtype.elementSize 1

/-- `contiguous().view(torch.uint8).reshape(-1)`: no tensor without dimensions can be viewed as elements of
another size. -/
def Tensor.flat (t : Tensor) : Option (List UInt8) :=
  if t.shape = [] ∧ t.dtype.elementSize ≠ 1 then none else some t.bytes

/-- The loop of `pack_tensor_chunks`. -/
structure Packing where
  entries : List TensorMeta := []
  chunks : List (List UInt8) := []
  offset : Nat := 0

namespace Packing

def pad (p : Packing) (dtype : Dtype) : Packing :=
  let padding := padOffset p.offset (dtypeAlignment dtype)
  if padding = 0 then p
  else { p with chunks := p.chunks ++ [List.replicate padding 0], offset := p.offset + padding }

def add (p : Packing) (item : String × Tensor) : Option Packing := do
  let flat ← item.2.flat
  let p := p.pad item.2.dtype
  some
    { entries := p.entries ++ [{
        path := item.1
        shape := item.2.shape
        dtype := item.2.dtype.name
        device := item.2.device
        offset := p.offset
        size := flat.length }]
      chunks := p.chunks ++ [flat]
      offset := p.offset + flat.length }

end Packing

/-- `pack_tensor_chunks`: the chunks and the entries, or nothing where it raises. -/
def packTensorChunks (tensors : Dict String Tensor) : Option (List (List UInt8) × List TensorMeta) := do
  let p ← tensors.entries.foldlM Packing.add {}
  some (if p.chunks = [] then [[0]] else p.chunks, p.entries)

def torchDtype (name : String) : Option Dtype :=
  [Dtype.bool, .uint8, .int8, .int16, .int32, .int64, .float16, .bfloat16, .float32, .float64, .complex64,
    .complex128].find? fun dtype => dtype.name = name

def TensorMeta.slice (entry : TensorMeta) (buffer : List UInt8) : List UInt8 :=
  (buffer.drop entry.offset).take entry.size

/-- A slice of the buffer viewed and reshaped as an entry says: its shape, its type and its bytes.  A view
needs whole elements at a multiple of their size, and a shape for all of them. -/
def readTensor (buffer : List UInt8) (entry : TensorMeta) : Option (List Nat × Dtype × List UInt8) := do
  let dtype ← torchDtype entry.dtype
  let bytes := entry.slice buffer
  if dtype.elementSize ∣ entry.offset ∧ bytes.length = entry.shape.prod * dtype.elementSize then
    some (entry.shape, dtype, bytes)
  else none

structure Finds (buffer : List UInt8) (item : String × Tensor) (entry : TensorMeta) : Prop where
  path : entry.path = item.1
  inside : entry.offset + entry.size ≤ buffer.length
  aligned : item.2.dtype.elementSize ∣ entry.offset
  slice : entry.slice buffer = item.2.bytes
  read : readTensor buffer entry = some (item.2.shape, item.2.dtype, item.2.bytes)

structure Packed (tensors : List (String × Tensor)) (chunks : List (List UInt8)) (entries : List TensorMeta) :
    Prop where
  finds : List.Forall₂ (Finds chunks.flatten) tensors entries
  apart : entries.Pairwise fun entry later => entry.offset + entry.size ≤ later.offset

/-! ### Alignment -/

theorem Dtype.elementSize_pos (dtype : Dtype) : 0 < dtype.elementSize := by
  cases dtype <;> decide

theorem dtypeAlignment_eq (dtype : Dtype) : dtypeAlignment dtype = dtype.elementSize :=
  Nat.max_eq_left dtype.elementSize_pos

theorem torchDtype_name (dtype : Dtype) : torchDtype dtype.name = some dtype := by
  cases dtype <;> decide

theorem dvd_add_padOffset (offset : Nat) {alignment : Nat} (h : 0 < alignment) :
    alignment ∣ offset + padOffset offset alignment := by
  have hnonneg : 0 ≤ (-offset : Int) % alignment := Int.emod_nonneg _ (by omega)
  have hcast : ((padOffset offset alignment : Nat) : Int) = (-offset : Int) % alignment :=
    Int.toNat_of_nonneg hnonneg
  rw [← Int.natCast_dvd_natCast, Nat.cast_add, hcast, Int.dvd_iff_emod_eq_zero, Int.add_emod_emod,
    Int.add_right_neg, Int.zero_emod]

theorem padOffset_zero (alignment : Nat) : padOffset 0 alignment = 0 := by
  simp [padOffset]

/-! ### The loop -/

/-- What has been laid so far, within the buffer that it will be a prefix of. -/
structure Packing.Kept (tensors : List (String × Tensor)) (p : Packing) : Prop where
  packed : Packed tensors p.chunks p.entries
  offset : p.offset = p.chunks.flatten.length
  before : ∀ entry ∈ p.entries, entry.offset + entry.size ≤ p.offset

theorem Finds.append {buffer : List UInt8} {item : String × Tensor} {entry : TensorMeta}
    (h : Finds buffer item entry) (more : List UInt8) : Finds (buffer ++ more) item entry := by
  have hslice : entry.slice (buffer ++ more) = entry.slice buffer := by
    have hinside := h.inside
    unfold TensorMeta.slice
    rw [List.drop_append_of_le_length (by omega),
      List.take_append_of_le_length (by rw [List.length_drop]; omega)]
  exact
    { path := h.path
      inside := by rw [List.length_append]; exact h.inside.trans (Nat.le_add_right _ _)
      aligned := h.aligned
      slice := hslice.trans h.slice
      read := by
        have hread := h.read
        unfold readTensor at hread ⊢
        rw [hslice]
        exact hread }

theorem Packed.append {tensors : List (String × Tensor)} {chunks : List (List UInt8)}
    {entries : List TensorMeta} (h : Packed tensors chunks entries) (more : List (List UInt8)) :
    Packed tensors (chunks ++ more) entries where
  finds := by
    rw [List.flatten_append]
    exact h.finds.imp fun _ _ hfinds => hfinds.append _
  apart := h.apart

variable {tensors : List (String × Tensor)} {p p' : Packing}

theorem Packing.Kept.pad (h : p.Kept tensors) (dtype : Dtype) :
    (p.pad dtype).Kept tensors ∧ dtype.elementSize ∣ (p.pad dtype).offset := by
  have hdvd := dvd_add_padOffset p.offset dtype.elementSize_pos
  unfold Packing.pad
  rw [dtypeAlignment_eq]
  simp only
  split
  · next hzero =>
    rw [hzero, Nat.add_zero] at hdvd
    exact ⟨h, hdvd⟩
  · refine ⟨⟨h.packed.append _, ?_, fun entry hentry => ?_⟩, hdvd⟩
    · simp [h.offset]
    · exact (h.before entry hentry).trans (Nat.le_add_right _ _)

theorem Packing.Kept.add (h : p.Kept tensors) {item : String × Tensor} (hadd : p.add item = some p') :
    p'.Kept (tensors ++ [item]) := by
  obtain ⟨hpad, hdvd⟩ := h.pad item.2.dtype
  unfold Packing.add at hadd
  simp only [bind, Option.bind_eq_some_iff, Option.some.injEq] at hadd
  obtain ⟨flat, hflat, rfl⟩ := hadd
  have hbytes : flat = item.2.bytes := by
    unfold Tensor.flat at hflat
    split at hflat
    · cases hflat
    · exact (Option.some.inj hflat).symm
  subst hbytes
  have hoffset := hpad.offset
  have hslice : ∀ entry : TensorMeta, entry.offset = (p.pad item.2.dtype).offset →
      entry.size = item.2.bytes.length →
      entry.slice ((p.pad item.2.dtype).chunks ++ [item.2.bytes]).flatten = item.2.bytes := by
    intro entry he hsize
    unfold TensorMeta.slice
    rw [he, hsize, List.flatten_append, hoffset, List.drop_left, List.flatten_singleton, List.take_length]
  refine ⟨⟨?_, ?_⟩, ?_, fun entry hentry => ?_⟩
  · refine List.rel_append (hpad.packed.append [item.2.bytes]).finds (.cons ?_ .nil)
    exact
      { path := rfl
        inside := by simp [hoffset]
        aligned := hdvd
        slice := hslice _ rfl rfl
        read := by
          unfold readTensor
          rw [hslice _ rfl rfl]
          simp [torchDtype_name, hdvd, item.2.bytes_length] }
  · refine List.pairwise_append.mpr ⟨hpad.packed.apart, List.pairwise_singleton _ _, fun entry hentry later hlater => ?_⟩
    rw [List.mem_singleton.mp hlater]
    exact hpad.before entry hentry
  · simp [hoffset]
  · rcases List.mem_append.mp hentry with hentry | hentry
    · exact (hpad.before entry hentry).trans (Nat.le_add_right _ _)
    · rw [List.mem_singleton.mp hentry]

theorem Packing.Kept.foldlM {rest : List (String × Tensor)} (h : p.Kept tensors)
    (hrest : rest.foldlM Packing.add p = some p') : p'.Kept (tensors ++ rest) := by
  induction rest generalizing p tensors with
  | nil =>
    cases hrest
    rw [List.append_nil]
    exact h
  | cons item rest ih =>
    rw [List.foldlM_cons] at hrest
    obtain ⟨p₁, hadd, hrest⟩ := Option.bind_eq_some_iff.mp hrest
    have hkept := ih (h.add hadd) hrest
    rw [List.append_assoc] at hkept
    exact hkept

/-! ### The size of the buffer -/

theorem Packing.offset_add {item : String × Tensor} (hadd : p.add item = some p') :
    p'.chunks ≠ [] ∧ (p'.offset = 0 ↔ p.offset = 0 ∧ item.2.bytes = []) := by
  unfold Packing.add at hadd
  simp only [bind, Option.bind_eq_some_iff, Option.some.injEq] at hadd
  obtain ⟨flat, hflat, rfl⟩ := hadd
  unfold Tensor.flat at hflat
  split at hflat
  · cases hflat
  cases hflat
  have hpad : (p.pad item.2.dtype).offset = 0 ↔ p.offset = 0 := by
    unfold Packing.pad
    simp only
    split
    · exact Iff.rfl
    · constructor
      · exact fun h => Nat.eq_zero_of_add_eq_zero_right h
      · next hpadding =>
        intro h
        rw [h, padOffset_zero] at hpadding
        exact absurd rfl hpadding
  refine ⟨by simp, ?_⟩
  rw [Nat.add_eq_zero_iff, hpad, List.length_eq_zero_iff]

theorem Packing.offset_foldlM {rest : List (String × Tensor)} (hrest : rest.foldlM Packing.add p = some p') :
    (p'.chunks = [] ↔ p.chunks = [] ∧ rest = [])
      ∧ (p'.offset = 0 ↔ p.offset = 0 ∧ ∀ item ∈ rest, item.2.bytes = []) := by
  induction rest generalizing p with
  | nil =>
    cases hrest
    simp
  | cons item rest ih =>
    rw [List.foldlM_cons] at hrest
    obtain ⟨p₁, hadd, hrest⟩ := Option.bind_eq_some_iff.mp hrest
    obtain ⟨hchunks, hoffset⟩ := Packing.offset_add hadd
    obtain ⟨hchunks', hoffset'⟩ := ih hrest
    refine ⟨?_, ?_⟩
    · rw [hchunks']
      exact ⟨fun h => absurd h.1 hchunks, fun h => absurd h.2 (List.cons_ne_nil _ _)⟩
    · rw [hoffset', hoffset, List.forall_mem_cons, and_assoc]

/-- The tensors of a payload are found in its buffer whatever their shapes and types, and the buffer has a
byte exactly if there is no tensor, or one with an element. -/
theorem packTensorChunks_packed {tensors : Dict String Tensor} {chunks : List (List UInt8)}
    {entries : List TensorMeta} (h : packTensorChunks tensors = some (chunks, entries)) :
    Packed tensors.entries chunks entries
      ∧ (0 < chunks.flatten.length ↔ tensors.entries = [] ∨ ∃ item ∈ tensors.entries, item.2.bytes ≠ []) := by
  unfold packTensorChunks at h
  obtain ⟨p, hp, he⟩ := Option.bind_eq_some_iff.mp h
  obtain ⟨rfl, rfl⟩ := Prod.mk.inj (Option.some.inj he)
  have hstart : ({} : Packing).Kept [] := ⟨⟨.nil, .nil⟩, rfl, fun _ h => absurd h List.not_mem_nil⟩
  have hkept : p.Kept tensors.entries := hstart.foldlM hp
  obtain ⟨hchunks, hoffset⟩ := Packing.offset_foldlM hp
  have hnone : p.chunks = [] ↔ tensors.entries = [] := hchunks.trans (and_iff_right rfl)
  by_cases hempty : tensors.entries = []
  · rw [hnone.mpr hempty, if_pos rfl]
    refine ⟨?_, iff_of_true (by decide) (.inl hempty)⟩
    have hpacked := hkept.packed
    rw [hnone.mpr hempty] at hpacked
    exact hpacked.append [[0]]
  · rw [if_neg fun hnil => hempty (hnone.mp hnil)]
    refine ⟨hkept.packed, ?_⟩
    rw [← hkept.offset, Nat.pos_iff_ne_zero, Ne, hoffset, or_iff_right hempty]
    simp

theorem packTensorChunks_isSome_iff (tensors : Dict String Tensor) :
    (packTensorChunks tensors).isSome
      ↔ ∀ item ∈ tensors.entries, ¬ (item.2.shape = [] ∧ item.2.dtype.elementSize ≠ 1) := by
  have hadd : ∀ (p : Packing) item, (p.add item).isSome
      ↔ ¬ (item.2.shape = [] ∧ item.2.dtype.elementSize ≠ 1) := by
    intro p item
    unfold Packing.add Tensor.flat
    split
    · next hraises => exact iff_of_false nofun (not_not_intro hraises)
    · next hflat => exact iff_of_true rfl hflat
  have hfold : ∀ (rest : List (String × Tensor)) (p : Packing), (rest.foldlM Packing.add p).isSome
      ↔ ∀ item ∈ rest, ¬ (item.2.shape = [] ∧ item.2.dtype.elementSize ≠ 1) := by
    intro rest
    induction rest with
    | nil => exact fun p => iff_of_true rfl nofun
    | cons item rest ih =>
      intro p
      rw [List.foldlM_cons, List.forall_mem_cons, ← hadd p item]
      cases hstep : p.add item with
      | none => exact iff_of_false nofun (fun h => absurd h.1 nofun)
      | some p₁ => exact (ih p₁).trans (and_iff_right rfl).symm
  unfold packTensorChunks
  rw [← hfold tensors.entries {}]
  cases tensors.entries.foldlM Packing.add {} <;> rfl

def mixedTensors : Dict String Tensor :=
  ((∅ : Dict String Tensor).set "flag" (byteTensor 7)).set "score"
    { shape := [1], dtype := .float32, device := "cuda:0", isCuda := true, bytes := [0, 0, 128, 63]
      storageBytes := 4, bytes_length := rfl }

theorem packTensorChunks_packed_mixedTensors :
    ∃ chunks entries, packTensorChunks mixedTensors = some (chunks, entries)
      ∧ chunks = [[7], [0, 0, 0], [0, 0, 128, 63]] ∧ Packed mixedTensors.entries chunks entries
      ∧ 0 < chunks.flatten.length := by
  obtain ⟨entries, hpack⟩ : ∃ entries,
      packTensorChunks mixedTensors = some ([[7], [0, 0, 0], [0, 0, 128, 63]], entries) := ⟨_, rfl⟩
  exact ⟨_, entries, hpack, rfl, (packTensorChunks_packed hpack).1, by decide⟩

def emptyTensor : Dict String Tensor :=
  (∅ : Dict String Tensor).set "tokens"
    { shape := [0], dtype := .int64, device := "cpu", isCuda := false, bytes := [], storageBytes := 0
      bytes_length := rfl }

/-- Its buffer has no byte. -/
theorem packTensorChunks_emptyTensor :
    ∃ chunks entries, packTensorChunks emptyTensor = some (chunks, entries) ∧ chunks.flatten = [] :=
  ⟨_, _, rfl, rfl⟩

end StageIo
