import Mathlib.Data.List.Sort
import Mathlib.Order.Lattice

/-! A heap of entries `(priority, sequence number, value)`, kept as the list of its entries in the
order in which they are popped.  Distinct sequence numbers decide between equal priorities, so that
values are never compared. -/

namespace Lib

structure Entry (π ν : Type) where
  priority : π
  seq : Nat
  value : ν
  deriving DecidableEq

namespace Entry

variable {π ν : Type} [LinearOrder π]

def Before (a b : Entry π ν) : Prop :=
  a.priority < b.priority ∨ a.priority = b.priority ∧ a.seq ≤ b.seq

instance : DecidableRel (Entry.Before : Entry π ν → Entry π ν → Prop) := fun a b =>
  inferInstanceAs (Decidable (a.priority < b.priority ∨ a.priority = b.priority ∧ a.seq ≤ b.seq))

theorem Before.priority_le {a b : Entry π ν} (h : a.Before b) : a.priority ≤ b.priority := by
  rcases h with hlt | ⟨heq, _⟩
  · exact le_of_lt hlt
  · exact le_of_eq heq

instance : IsTrans (Entry π ν) Before where
  trans a b c hab hbc := by
    rcases hab with hab | ⟨hab, hseq⟩
    · exact Or.inl (lt_of_lt_of_le hab hbc.priority_le)
    · rcases hbc with hbc | ⟨hbc, hseq'⟩
      · exact Or.inl (hab ▸ hbc)
      · exact Or.inr ⟨hab.trans hbc, Nat.le_trans hseq hseq'⟩

instance : Std.Total (Entry.Before : Entry π ν → Entry π ν → Prop) where
  total a b := by
    rcases lt_trichotomy a.priority b.priority with h | h | h
    · exact Or.inl (Or.inl h)
    · rcases Nat.le_total a.seq b.seq with hseq | hseq
      · exact Or.inl (Or.inr ⟨h, hseq⟩)
      · exact Or.inr (Or.inr ⟨h.symm, hseq⟩)
    · exact Or.inr (Or.inl h)

end Entry

variable {π ν : Type} [LinearOrder π]

def heappush (heap : List (Entry π ν)) (entry : Entry π ν) : List (Entry π ν) :=
  heap.orderedInsert Entry.Before entry

def heapify (entries : List (Entry π ν)) : List (Entry π ν) :=
  entries.insertionSort Entry.Before

/-- A heap whose entries are in the order in which they are popped, with distinct sequence numbers up
to `seq`. -/
structure HeapUpTo (seq : Nat) (heap : List (Entry π ν)) : Prop where
  sorted : heap.Pairwise Entry.Before
  distinct : heap.Pairwise (fun a b => a.seq ≠ b.seq)
  bounded : ∀ e ∈ heap, e.seq ≤ seq

@[simp] theorem mem_heappush {heap : List (Entry π ν)} {e e' : Entry π ν} :
    e' ∈ heappush heap e ↔ e' = e ∨ e' ∈ heap :=
  List.mem_orderedInsert _

@[simp] theorem mem_heapify {entries : List (Entry π ν)} {e : Entry π ν} :
    e ∈ heapify entries ↔ e ∈ entries :=
  List.mem_insertionSort _

theorem countP_heappush (p : Entry π ν → Bool) (heap : List (Entry π ν)) (e : Entry π ν) :
    (heappush heap e).countP p = (e :: heap).countP p :=
  (List.perm_orderedInsert _ e heap).countP_eq p

@[simp] theorem length_heappush (heap : List (Entry π ν)) (e : Entry π ν) :
    (heappush heap e).length = heap.length + 1 :=
  List.orderedInsert_length _ heap e

namespace HeapUpTo

variable {seq : Nat} {heap rest : List (Entry π ν)} {e : Entry π ν}

theorem nil : HeapUpTo seq ([] : List (Entry π ν)) :=
  ⟨List.Pairwise.nil, List.Pairwise.nil, by simp⟩

theorem tail (h : HeapUpTo seq (e :: rest)) : HeapUpTo seq rest :=
  ⟨h.sorted.of_cons, h.distinct.of_cons, fun e' he' => h.bounded e' (List.mem_cons_of_mem _ he')⟩

theorem head_le (h : HeapUpTo seq (e :: rest)) {e' : Entry π ν} (he' : e' ∈ e :: rest) :
    e.priority ≤ e'.priority := by
  cases he' with
  | head => exact le_refl _
  | tail _ hrest => exact ((List.pairwise_cons.mp h.sorted).1 e' hrest).priority_le

theorem push (h : HeapUpTo seq heap) (priority : π) (value : ν) :
    HeapUpTo (seq + 1) (heappush heap ⟨priority, seq + 1, value⟩) := by
  refine ⟨h.sorted.orderedInsert _ _, ?_, ?_⟩
  · have hperm := (List.perm_orderedInsert Entry.Before ⟨priority, seq + 1, value⟩ heap)
    apply (hperm.pairwise_iff fun hne => hne.symm).mpr
    apply List.Pairwise.cons _ h.distinct
    intro e he
    have hle := h.bounded e he
    show seq + 1 ≠ e.seq
    omega
  · intro e he
    rcases mem_heappush.mp he with rfl | he
    · exact Nat.le_refl _
    · exact Nat.le_succ_of_le (h.bounded e he)

end HeapUpTo

theorem heapUpTo_heapify (priority : ν → π) (values : List ν) :
    HeapUpTo values.length
      (heapify (values.zipIdx.map fun p => ⟨priority p.1, p.2, p.1⟩)) := by
  refine ⟨List.pairwise_insertionSort _ _, ?_, ?_⟩
  · apply ((List.perm_insertionSort Entry.Before _).pairwise_iff fun hne => hne.symm).mpr
    apply List.pairwise_map.mpr
    rw [List.pairwise_iff_getElem]
    intro i j hi hj hij
    simp only [List.getElem_zipIdx]
    omega
  · intro e he
    obtain ⟨p, hp, rfl⟩ := List.mem_map.mp (mem_heapify.mp he)
    have hlt := List.snd_lt_of_mem_zipIdx hp
    show p.2 ≤ values.length
    omega

end Lib
