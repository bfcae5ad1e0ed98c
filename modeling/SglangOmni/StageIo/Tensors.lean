import SglangOmni.Lib.Dict

/-! Tensors, and the nested values that hold them: `extract_tensors` and `extract_cuda_tensors` take the
tensors out under the paths at which they lie, and `restore_tensors` puts them back. -/

namespace StageIo

open Lib

inductive Dtype where
  | bool
  | uint8
  | int8
  | int16
  | int32
  | int64
  | float16
  | bfloat16
  | float32
  | float64
  | complex64
  | complex128
deriving DecidableEq, Repr

def Dtype.name : Dtype → String
  | .bool => "torch.bool"
  | .uint8 => "torch.uint8"
  | .int8 => "torch.int8"
  | .int16 => "torch.int16"
  | .int32 => "torch.int32"
  | .int64 => "torch.int64"
  | .float16 => "torch.float16"
  | .bfloat16 => "torch.bfloat16"
  | .float32 => "torch.float32"
  | .float64 => "torch.float64"
  | .complex64 => "torch.complex64"
  | .complex128 => "torch.complex128"

def Dtype.elementSize : Dtype → Nat
  | .bool | .uint8 | .int8 => 1
  | .int16 | .float16 | .bfloat16 => 2
  | .int32 | .float32 => 4
  | .int64 | .float64 | .complex64 => 8
  | .complex128 => 16

/-- A tensor: the bytes of its elements in row-major order, and the size of the storage that it views. -/
structure Tensor where
  shape : List Nat
  dtype : Dtype
  device : String
  isCuda : Bool
  bytes : List UInt8
  storageBytes : Nat
  bytes_length : bytes.length = shape.prod * dtype.elementSize
deriving DecidableEq

/-- What `extract_cuda_tensors` leaves in place of a CPU tensor: a view of a larger storage is cloned. -/
def Tensor.compact (t : Tensor) : Tensor :=
  if t.storageBytes > t.shape.prod * t.dtype.elementSize then
    { t with storageBytes := t.bytes.length }
  else t

def byteTensor (b : UInt8) : Tensor where
  shape := [1]
  dtype := .uint8
  device := "cuda:0"
  isCuda := true
  bytes := [b]
  storageBytes := 1
  bytes_length := rfl

/-- A nested value; `leaf` is any object that is no tensor, dict, list, tuple, text or integer. -/
inductive Data (α : Type) where
  | tensor (t : Tensor)
  | dict (entries : List (String × Data α))
  | list (items : List (Data α))
  | tuple (items : List (Data α))
  | str (text : String)
  | int (n : Int)
  | leaf (value : α)

variable {α : Type}

def tensorPlaceholder : String := "_tensor_placeholder"

def placeholder (path : String) (t : Tensor) : Data α :=
  .dict [(tensorPlaceholder, .str path), ("shape", .list (t.shape.map fun dim => .int dim)),
    ("dtype", .str t.dtype.name), ("device", .str t.device)]

/-- `f"{path}.{key}" if path else key` -/
def childPath (path key : String) : String := if path = "" then key else path ++ "." ++ key

def itemPath (path : String) (idx : Nat) : String := s!"{path}[{idx}]"

/-! ### Taking tensors out -/

section

variable (takes : Tensor → Bool) (copy : Tensor → Tensor)

mutual

/-- The two extractions: a tensor that is not taken is left as `copy` makes it. -/
def extractWith : Data α → String → Data α × Dict String Tensor
  | .tensor t, path =>
    if takes t then (placeholder path t, (∅ : Dict String Tensor).set path t) else (.tensor (copy t), ∅)
  | .dict entries, path =>
    let (out, tensors) := extractEntries entries path ∅
    (.dict out, tensors)
  | .list items, path =>
    let (out, tensors) := extractItems items path 0 ∅
    (.list out, tensors)
  | .tuple items, path =>
    let (out, tensors) := extractItems items path 0 ∅
    (.tuple out, tensors)
  | .str text, _ => (.str text, ∅)
  | .int n, _ => (.int n, ∅)
  | .leaf value, _ => (.leaf value, ∅)

def extractEntries : List (String × Data α) → String → Dict String Tensor →
    List (String × Data α) × Dict String Tensor
  | [], _, tensors => ([], tensors)
  | (key, value) :: rest, path, tensors =>
    let (child, childTensors) := extractWith value (childPath path key)
    let (out, tensors) := extractEntries rest path (tensors.update childTensors)
    ((key, child) :: out, tensors)

def extractItems : List (Data α) → String → Nat → Dict String Tensor →
    List (Data α) × Dict String Tensor
  | [], _, _, tensors => ([], tensors)
  | value :: rest, path, idx, tensors =>
    let (child, childTensors) := extractWith value (itemPath path idx)
    let (out, tensors) := extractItems rest path (idx + 1) (tensors.update childTensors)
    (child :: out, tensors)

end

mutual

/-- The value with the tensors that are not taken as `copy` makes them. -/
def copyWith : Data α → Data α
  | .tensor t => .tensor (if takes t then t else copy t)
  | .dict entries => .dict (copyEntries entries)
  | .list items => .list (copyItems items)
  | .tuple items => .tuple (copyItems items)
  | .str text => .str text
  | .int n => .int n
  | .leaf value => .leaf value

def copyEntries : List (String × Data α) → List (String × Data α)
  | [] => []
  | (key, value) :: rest => (key, copyWith value) :: copyEntries rest

def copyItems : List (Data α) → List (Data α)
  | [] => []
  | value :: rest => copyWith value :: copyItems rest

end

end

def extractTensors (obj : Data α) : Data α × Dict String Tensor := extractWith (fun _ => true) id obj ""

def extractCudaTensors (obj : Data α) : Data α × Dict String Tensor :=
  extractWith Tensor.isCuda Tensor.compact obj ""

/-! ### Putting them back -/

mutual

/-- `restore_tensors`, which raises where a placeholder names no tensor. -/
def restoreTensors (tensors : Dict String Tensor) : Data α → Option (Data α)
  | .dict entries =>
    match entries.lookup tensorPlaceholder with
    | some (.str path) => (tensors.get? path).map Data.tensor
    | some _ => none
    | none => (restoreEntries tensors entries).map Data.dict
  | .list items => (restoreItems tensors items).map Data.list
  | .tuple items => (restoreItems tensors items).map Data.tuple
  | .tensor t => some (.tensor t)
  | .str text => some (.str text)
  | .int n => some (.int n)
  | .leaf value => some (.leaf value)

def restoreEntries (tensors : Dict String Tensor) :
    List (String × Data α) → Option (List (String × Data α))
  | [] => some []
  | (key, value) :: rest => do
    let value ← restoreTensors tensors value
    let rest ← restoreEntries tensors rest
    return (key, value) :: rest

def restoreItems (tensors : Dict String Tensor) : List (Data α) → Option (List (Data α))
  | [] => some []
  | value :: rest => do
    let value ← restoreTensors tensors value
    let rest ← restoreItems tensors rest
    return value :: rest

end

/-! ### Where tensors lie -/

inductive Step where
  | key (name : String)
  | item (idx : Nat)
deriving DecidableEq, Repr

def Step.path (path : String) : Step → String
  | .key name => childPath path name
  | .item idx => itemPath path idx

def spell (path : String) (steps : List Step) : String := steps.foldl Step.path path

mutual

def tensorsAt : Data α → List (List Step × Tensor)
  | .tensor t => [([], t)]
  | .dict entries => entriesAt entries
  | .list items => itemsAt items 0
  | .tuple items => itemsAt items 0
  | .str _ | .int _ | .leaf _ => []

def entriesAt : List (String × Data α) → List (List Step × Tensor)
  | [] => []
  | (key, value) :: rest =>
    (tensorsAt value).map (fun place => (Step.key key :: place.1, place.2)) ++ entriesAt rest

def itemsAt : List (Data α) → Nat → List (List Step × Tensor)
  | [], _ => []
  | value :: rest, idx =>
    (tensorsAt value).map (fun place => (Step.item idx :: place.1, place.2)) ++ itemsAt rest (idx + 1)

end

mutual

def isPlain : Data α → Bool
  | .dict entries => (entries.lookup tensorPlaceholder).isNone && arePlainEntries entries
  | .list items => arePlainItems items
  | .tuple items => arePlainItems items
  | .tensor _ | .str _ | .int _ | .leaf _ => true

def arePlainEntries : List (String × Data α) → Bool
  | [] => true
  | (_, value) :: rest => isPlain value && arePlainEntries rest

def arePlainItems : List (Data α) → Bool
  | [] => true
  | value :: rest => isPlain value && arePlainItems rest

end

def PathsApart (takes : Tensor → Bool) (obj : Data α) : Prop :=
  ∀ steps t steps' t', (steps, t) ∈ tensorsAt obj → (steps', t') ∈ tensorsAt obj →
    takes t = true → takes t' = true → spell "" steps = spell "" steps' → t = t'

end StageIo
