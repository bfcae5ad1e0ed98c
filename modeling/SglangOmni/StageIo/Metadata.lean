import SglangOmni.StageIo.Tensors

/-! The metadata of a direct CUDA IPC transfer: tuples and tensors travel as dicts of one key, a marker. -/

namespace StageIo

variable {α : Type}

inductive Scalar (α : Type) where
  | bytes (data : List UInt8)
  | other (value : α)

abbrev Metadata (α : Type) := Data (Scalar α)

/-- `ipc_pickle` of a tensor and `pickle.loads`, which may raise. -/
structure Pickle (α : Type) where
  dumps : Tensor → List UInt8
  loads : List UInt8 → Option (Metadata α)

def ipcTensor : String := "_ipc_tensor"

def ipcTuple : String := "_ipc_tuple"

section

variable (pickle : Pickle α)

mutual

/-- `serialize_direct_ipc_metadata_value` -/
def serialize : Metadata α → Metadata α
  | .tensor t => .dict [(ipcTensor, .leaf (.bytes (pickle.dumps t)))]
  | .dict entries => .dict (serializeEntries entries)
  | .list items => .list (serializeItems items)
  | .tuple items => .dict [(ipcTuple, .list (serializeItems items))]
  | .str text => .str text
  | .int n => .int n
  | .leaf value => .leaf value

def serializeEntries : List (String × Metadata α) → List (String × Metadata α)
  | [] => []
  | (key, item) :: rest => (key, serialize item) :: serializeEntries rest

def serializeItems : List (Metadata α) → List (Metadata α)
  | [] => []
  | item :: rest => serialize item :: serializeItems rest

end

mutual

/-- `deserialize_direct_ipc_metadata`, which raises where a marker holds what it cannot. -/
def deserialize : Metadata α → Option (Metadata α)
  | .dict [(key, value)] =>
    if key = ipcTensor then
      match value with
      | .leaf (.bytes data) => pickle.loads data
      | _ => none
    else if key = ipcTuple then
      match value with
      | .list items => (deserializeItems items).map Data.tuple
      | _ => none
    else (deserialize value).map fun item => .dict [(key, item)]
  | .dict entries => (deserializeEntries entries).map Data.dict
  | .list items => (deserializeItems items).map Data.list
  | .tensor t => some (.tensor t)
  | .tuple items => some (.tuple items)
  | .str text => some (.str text)
  | .int n => some (.int n)
  | .leaf value => some (.leaf value)

def deserializeEntries : List (String × Metadata α) → Option (List (String × Metadata α))
  | [] => some []
  | (key, value) :: rest => do
    let item ← deserialize value
    let rest ← deserializeEntries rest
    return (key, item) :: rest

def deserializeItems : List (Metadata α) → Option (List (Metadata α))
  | [] => some []
  | value :: rest => do
    let item ← deserialize value
    let rest ← deserializeItems rest
    return item :: rest

end

mutual

/-- No dict of the value looks like a marker: none has `_ipc_tuple` as its only key, and none `_ipc_tensor`,
but for one whose bytes are a pickle of the dict itself. -/
def Unmarked : Metadata α → Prop
  | .dict [(key, value)] =>
    if key = ipcTensor then
      ∃ data, value = .leaf (.bytes data) ∧ pickle.loads data = some (.dict [(key, value)])
    else key ≠ ipcTuple ∧ Unmarked value
  | .dict entries => UnmarkedEntries entries
  | .list items => UnmarkedItems items
  | .tuple items => UnmarkedItems items
  | .tensor _ | .str _ | .int _ | .leaf _ => True

def UnmarkedEntries : List (String × Metadata α) → Prop
  | [] => True
  | (_, value) :: rest => Unmarked value ∧ UnmarkedEntries rest

def UnmarkedItems : List (Metadata α) → Prop
  | [] => True
  | value :: rest => Unmarked value ∧ UnmarkedItems rest

end

end

variable {pickle : Pickle α}

theorem serialize_eq_bytes {value : Metadata α} {data : List UInt8} :
    serialize pickle value = .leaf (.bytes data) ↔ value = .leaf (.bytes data) := by
  cases value <;> simp [serialize]

theorem map_dict_eq {entries : Option (List (String × Metadata α))} {entries' : List (String × Metadata α)} :
    entries.map Data.dict = some (.dict entries') ↔ entries = some entries' := by
  simp [Option.map_eq_some_iff]

theorem deserialize_two (e e' : String × Metadata α) (rest : List (String × Metadata α)) :
    deserialize pickle (.dict (e :: e' :: rest)) = (deserializeEntries pickle (e :: e' :: rest)).map Data.dict :=
  rfl

theorem deserialize_one (key : String) (value : Metadata α) :
    deserialize pickle (.dict [(key, value)])
      = if key = ipcTensor then
          match value with
          | .leaf (.bytes data) => pickle.loads data
          | _ => none
        else if key = ipcTuple then
          match value with
          | .list items => (deserializeItems pickle items).map Data.tuple
          | _ => none
        else (deserialize pickle value).map fun item => .dict [(key, item)] := by
  cases value with
  | leaf value => cases value <;> rfl
  | tensor | dict | list | tuple | str | int => rfl

theorem mem_entriesAt_head {key : String} {value : Metadata α} {rest : List (String × Metadata α)}
    {steps : List Step} {t : Tensor} (h : (steps, t) ∈ tensorsAt value) :
    (.key key :: steps, t) ∈ entriesAt ((key, value) :: rest) :=
  List.mem_append_left _ (List.mem_map.mpr ⟨(steps, t), h, rfl⟩)

theorem mem_itemsAt_head {value : Metadata α} {rest : List (Metadata α)} {idx : Nat} {steps : List Step}
    {t : Tensor} (h : (steps, t) ∈ tensorsAt value) : (.item idx :: steps, t) ∈ itemsAt (value :: rest) idx :=
  List.mem_append_left _ (List.mem_map.mpr ⟨(steps, t), h, rfl⟩)

def Pickles (pickle : Pickle α) (places : List (List Step × Tensor)) : Prop :=
  ∀ steps t, (steps, t) ∈ places → pickle.loads (pickle.dumps t) = some (.tensor t)

mutual

theorem deserialize_serialize (value : Metadata α) (h : Pickles pickle (tensorsAt value)) :
    deserialize pickle (serialize pickle value) = some value ↔ Unmarked pickle value := by
  cases value with
  | tensor t =>
    refine iff_of_true ?_ trivial
    rw [serialize, deserialize_one, if_pos rfl]
    exact h [] t (List.mem_singleton_self _)
  | dict entries =>
    match entries, h with
    | [], _ => exact iff_of_true rfl trivial
    | [(key, item)], h =>
      have hitem := deserialize_serialize item fun steps t hmem => h _ t (mem_entriesAt_head hmem)
      rw [show serialize pickle (.dict [(key, item)]) = .dict [(key, serialize pickle item)] from rfl,
        deserialize_one, Unmarked]
      split
      · constructor
        · intro hloads
          split at hloads
          · next data hdata => exact ⟨data, serialize_eq_bytes.mp hdata, hloads⟩
          · cases hloads
        · rintro ⟨data, rfl, hloads⟩
          exact hloads
      · split
        · next htuple =>
          refine iff_of_false (fun hback => ?_) (fun hunmarked => hunmarked.1 htuple)
          split at hback
          · obtain ⟨_, _, he⟩ := Option.map_eq_some_iff.mp hback
            cases he
          · cases hback
        · next htuple =>
          rw [← hitem, Option.map_eq_some_iff]
          simp [htuple]
    | (key, item) :: (key', item') :: rest, h =>
      exact map_dict_eq.trans (deserializeEntries_serializeEntries ((key, item) :: (key', item') :: rest) h)
  | list items =>
    have hitems := deserializeItems_serializeItems items 0 h
    rw [serialize, deserialize, Unmarked, ← hitems]
    simp [Option.map_eq_some_iff]
  | tuple items =>
    have hitems := deserializeItems_serializeItems items 0 h
    rw [serialize, deserialize_one, if_neg (by decide), if_pos rfl, Unmarked, ← hitems]
    simp [Option.map_eq_some_iff]
  | str text => exact iff_of_true rfl trivial
  | int n => exact iff_of_true rfl trivial
  | leaf value => exact iff_of_true rfl trivial

theorem deserializeEntries_serializeEntries (entries : List (String × Metadata α))
    (h : Pickles pickle (entriesAt entries)) :
    deserializeEntries pickle (serializeEntries pickle entries) = some entries
      ↔ UnmarkedEntries pickle entries := by
  cases entries with
  | nil => exact iff_of_true rfl trivial
  | cons entry rest =>
    obtain ⟨key, value⟩ := entry
    have hvalue := deserialize_serialize value fun steps t hmem => h _ t (mem_entriesAt_head hmem)
    have hrest := deserializeEntries_serializeEntries rest fun steps t hmem =>
      h steps t (List.mem_append_right _ hmem)
    rw [show UnmarkedEntries pickle ((key, value) :: rest)
        = (Unmarked pickle value ∧ UnmarkedEntries pickle rest) from rfl, ← hvalue, ← hrest,
      show serializeEntries pickle ((key, value) :: rest)
        = (key, serialize pickle value) :: serializeEntries pickle rest from rfl]
    simp [deserializeEntries, Option.bind_eq_some_iff]

theorem deserializeItems_serializeItems (items : List (Metadata α)) (idx : Nat)
    (h : Pickles pickle (itemsAt items idx)) :
    deserializeItems pickle (serializeItems pickle items) = some items ↔ UnmarkedItems pickle items := by
  cases items with
  | nil => exact iff_of_true rfl trivial
  | cons value rest =>
    have hvalue := deserialize_serialize value fun steps t hmem => h _ t (mem_itemsAt_head hmem)
    have hrest := deserializeItems_serializeItems rest (idx + 1) fun steps t hmem =>
      h steps t (List.mem_append_right _ hmem)
    rw [show UnmarkedItems pickle (value :: rest)
        = (Unmarked pickle value ∧ UnmarkedItems pickle rest) from rfl, ← hvalue, ← hrest,
      show serializeItems pickle (value :: rest) = serialize pickle value :: serializeItems pickle rest
        from rfl]
    simp [deserializeItems, Option.bind_eq_some_iff]

end

/-- Where the pickles of its tensors give them back, a value comes back exactly if none of its dicts looks
like a marker. -/
theorem metadata_comesBack_iff (pickle : Pickle α) (value : Metadata α)
    (h : Pickles pickle (tensorsAt value)) :
    deserialize pickle (serialize pickle value) = some value ↔ Unmarked pickle value :=
  deserialize_serialize value h

def onePickle (t : Tensor) : Pickle Unit where
  dumps _ := [128, 2]
  loads data := if data = [128, 2] then some (.tensor t) else none

def nestedTuple : Metadata Unit := .dict [("cache", .list [.tuple [.tensor (byteTensor 1), .int 3]])]

theorem metadata_comesBack_nestedTuple :
    deserialize (onePickle (byteTensor 1)) (serialize (onePickle (byteTensor 1)) nestedTuple)
      = some nestedTuple := by
  have hpickles : Pickles (onePickle (byteTensor 1)) (tensorsAt nestedTuple) := by
    intro steps t hmem
    have hplaces : tensorsAt nestedTuple = [([.key "cache", .item 0, .item 0], byteTensor 1)] := rfl
    rw [hplaces, List.mem_singleton] at hmem
    obtain ⟨-, rfl⟩ := Prod.mk.inj hmem
    rfl
  have hunmarked : Unmarked (onePickle (byteTensor 1)) nestedTuple :=
    ⟨by decide, ⟨trivial, trivial, trivial⟩, trivial⟩
  exact (metadata_comesBack_iff _ _ hpickles).mpr hunmarked

def tupleKey : Metadata Unit := .dict [(ipcTuple, .list [.int 1])]

/-- It comes back as a tuple. -/
theorem metadata_tupleKey :
    deserialize (onePickle (byteTensor 1)) (serialize (onePickle (byteTensor 1)) tupleKey) =
      some (.tuple [.int 1]) ∧
    deserialize (onePickle (byteTensor 1)) (serialize (onePickle (byteTensor 1)) tupleKey) ≠
      some tupleKey :=
  ⟨rfl, fun h => nomatch Option.some.inj h⟩

end StageIo
