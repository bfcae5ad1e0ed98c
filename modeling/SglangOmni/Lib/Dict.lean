import Mathlib.Algebra.BigOperators.Group.List.Basic
import Mathlib.Algebra.Order.BigOperators.Group.List
import Mathlib.Data.List.Nodup
import Mathlib.Tactic.Ring

/-! Dictionaries that remember the order in which their keys were inserted: assigning a new key
appends it, assigning a key that is present keeps its place, and deleting a key closes the gap.
The keys of a dictionary are distinct by construction. -/

namespace Lib

structure Dict (κ ν : Type) where
  entries : List (κ × ν)
  nodup : (entries.map Prod.fst).Nodup

namespace Dict

variable {κ ν : Type}

def empty : Dict κ ν := ⟨[], List.nodup_nil⟩

instance : EmptyCollection (Dict κ ν) := ⟨empty⟩

def keys (d : Dict κ ν) : List κ := d.entries.map Prod.fst

def size (d : Dict κ ν) : Nat := d.entries.length

/-- The sum of `weight` over the values. -/
def total (weight : ν → Int) (d : Dict κ ν) : Int := (d.entries.map fun e => weight e.2).sum

variable [DecidableEq κ]

def get? (d : Dict κ ν) (k : κ) : Option ν := (d.entries.find? fun e => e.1 = k).map Prod.snd

def contains (d : Dict κ ν) (k : κ) : Bool := (d.get? k).isSome

def erase (d : Dict κ ν) (k : κ) : Dict κ ν where
  entries := d.entries.filter fun e => e.1 ≠ k
  nodup := (List.filter_sublist.map Prod.fst).nodup d.nodup

/-- The entries after `k` takes the value `v`. -/
def setEntries (k : κ) (v : ν) : List (κ × ν) → List (κ × ν)
  | [] => [(k, v)]
  | e :: rest => if e.1 = k then (k, v) :: rest else e :: setEntries k v rest

theorem keys_setEntries (k : κ) (v : ν) (l : List (κ × ν)) :
    (setEntries k v l).map Prod.fst =
      if k ∈ l.map Prod.fst then l.map Prod.fst else l.map Prod.fst ++ [k] := by
  induction l with
  | nil => simp [setEntries]
  | cons e rest ih =>
    by_cases h : e.1 = k
    · simp [setEntries, h]
    · simp only [setEntries, if_neg h, List.map_cons, ih, List.mem_cons, Ne.symm h, false_or]
      split <;> rfl

/-- Assign `v` to `k`: in place when `k` is there, at the end when it is new. -/
def set (d : Dict κ ν) (k : κ) (v : ν) : Dict κ ν where
  entries := setEntries k v d.entries
  nodup := by
    rw [keys_setEntries]
    split
    · exact d.nodup
    · next h =>
      rw [List.nodup_append]
      refine ⟨d.nodup, by simp, fun a ha b hb => ?_⟩
      rw [List.mem_singleton.mp hb]
      exact fun hab => h (hab ▸ ha)

/-! ### Lookup -/

@[simp] theorem get?_empty (k : κ) : (∅ : Dict κ ν).get? k = none := rfl

theorem find?_setEntries (k k' : κ) (v : ν) (l : List (κ × ν)) :
    ((setEntries k v l).find? fun e => e.1 = k').map Prod.snd =
      if k' = k then some v else (l.find? fun e => e.1 = k').map Prod.snd := by
  induction l with
  | nil =>
    by_cases h : k' = k
    · simp [setEntries, h]
    · simp [setEntries, h, Ne.symm h]
  | cons e rest ih =>
    by_cases he : e.1 = k
    · by_cases h : k' = k
      · simp [setEntries, he, h]
      · simp [setEntries, he, h, Ne.symm h]
    · by_cases hk : e.1 = k'
      · have : k' ≠ k := fun h => he (hk.trans h)
        simp [setEntries, hk, this]
      · simp only [setEntries, if_neg he, List.find?_cons, hk, decide_false, ih]

theorem get?_set (d : Dict κ ν) (k k' : κ) (v : ν) :
    (d.set k v).get? k' = if k' = k then some v else d.get? k' :=
  find?_setEntries k k' v d.entries

@[simp] theorem get?_set_self (d : Dict κ ν) (k : κ) (v : ν) : (d.set k v).get? k = some v := by
  simp [get?_set]

theorem get?_erase (d : Dict κ ν) (k k' : κ) :
    (d.erase k).get? k' = if k' = k then none else d.get? k' := by
  unfold get? erase
  simp only [List.find?_filter]
  by_cases h : k' = k
  · subst h
    rw [if_pos rfl, Option.map_eq_none_iff, List.find?_eq_none]
    intro e _
    simp
  · rw [if_neg h]
    congr 2
    funext e
    by_cases he : e.1 = k'
    · simp [he, h]
    · simp [he]

@[simp] theorem get?_erase_self (d : Dict κ ν) (k : κ) : (d.erase k).get? k = none := by
  simp [get?_erase]

theorem get?_erase_some {d : Dict κ ν} {k k' : κ} {v : ν} (h : (d.erase k).get? k' = some v) :
    k' ≠ k ∧ d.get? k' = some v := by
  rw [get?_erase] at h
  split at h
  · cases h
  · exact ⟨‹_›, h⟩

theorem mem_entries_iff (d : Dict κ ν) (k : κ) (v : ν) : (k, v) ∈ d.entries ↔ d.get? k = some v := by
  obtain ⟨l, hl⟩ := d
  simp only [get?]
  induction l with
  | nil => simp
  | cons e rest ih =>
    obtain ⟨hnot, hrest⟩ := List.nodup_cons.mp hl
    by_cases he : e.1 = k
    · have hk : (k, v) ∉ rest := fun hmem => hnot (he ▸ List.mem_map_of_mem (f := Prod.fst) hmem)
      simp only [List.mem_cons, hk, or_false, List.find?_cons, he, decide_true, Option.map_some,
        Option.some.injEq]
      constructor
      · intro h; rw [← h]
      · intro h; rw [← he, ← h]
    · have hne : (k, v) ≠ e := fun h => he (by rw [← h])
      simp only [List.mem_cons, hne, false_or, List.find?_cons, he, decide_false]
      exact ih hrest

theorem contains_iff (d : Dict κ ν) (k : κ) : d.contains k = true ↔ ∃ v, d.get? k = some v := by
  simp [contains, Option.isSome_iff_exists]

@[simp] theorem contains_eq_false (d : Dict κ ν) (k : κ) :
    d.contains k = false ↔ d.get? k = none := by
  simp [contains]

theorem mem_keys_iff (d : Dict κ ν) (k : κ) : k ∈ d.keys ↔ ∃ v, d.get? k = some v := by
  simp only [keys, List.mem_map, Prod.exists, mem_entries_iff]
  constructor
  · rintro ⟨a, b, h, rfl⟩; exact ⟨b, h⟩
  · rintro ⟨v, h⟩; exact ⟨k, v, h, rfl⟩

/-! ### Totals -/

omit [DecidableEq κ] in
@[simp] theorem total_empty (weight : ν → Int) : total weight (∅ : Dict κ ν) = 0 := rfl

theorem sum_setEntries (weight : ν → Int) (k : κ) (v : ν) (l : List (κ × ν)) :
    ((setEntries k v l).map fun e => weight e.2).sum =
      (l.map fun e => weight e.2).sum -
        (((l.find? fun e => e.1 = k).map Prod.snd).elim 0 weight) + weight v := by
  induction l with
  | nil => simp [setEntries]
  | cons e rest ih =>
    by_cases he : e.1 = k
    · simp [setEntries, he, add_comm]
    · simp only [setEntries, he, if_false, List.map_cons, List.sum_cons, ih, List.find?_cons,
        decide_false]
      ring

theorem total_set (weight : ν → Int) (d : Dict κ ν) (k : κ) (v : ν) :
    total weight (d.set k v) = total weight d - (d.get? k).elim 0 weight + weight v :=
  sum_setEntries weight k v d.entries

theorem total_erase (weight : ν → Int) (d : Dict κ ν) (k : κ) :
    total weight (d.erase k) = total weight d - (d.get? k).elim 0 weight := by
  obtain ⟨l, hl⟩ := d
  simp only [total, erase, get?]
  induction l with
  | nil => simp
  | cons e rest ih =>
    obtain ⟨hnot, hrest⟩ := List.nodup_cons.mp hl
    by_cases he : e.1 = k
    · have hkeep : rest.filter (fun e => e.1 ≠ k) = rest := by
        apply List.filter_eq_self.mpr
        intro x hx
        have : x.1 ≠ k := fun h => hnot (he ▸ h ▸ List.mem_map_of_mem (f := Prod.fst) hx)
        simpa using this
      simp only [ne_eq, decide_not] at hkeep
      simp [he, hkeep]
    · have := ih hrest
      simp only [ne_eq, decide_not] at this ⊢
      simp only [List.filter_cons, he, decide_false, Bool.not_false, if_true, List.map_cons,
        List.sum_cons, this, List.find?_cons]
      ring

theorem total_nonneg {weight : ν → Int} {d : Dict κ ν} (h : ∀ k v, d.get? k = some v → 0 ≤ weight v) :
    0 ≤ total weight d := by
  apply List.sum_nonneg
  intro x hx
  obtain ⟨⟨k, v⟩, he, rfl⟩ := List.mem_map.mp hx
  exact h k v ((mem_entries_iff d k v).mp he)

omit [DecidableEq κ] in
theorem total_add (weight weight' : ν → Int) (d : Dict κ ν) :
    total (fun v => weight v + weight' v) d = total weight d + total weight' d :=
  List.sum_map_add

theorem total_mono {weight weight' : ν → Int} {d : Dict κ ν}
    (h : ∀ k v, d.get? k = some v → weight v ≤ weight' v) : total weight d ≤ total weight' d := by
  apply List.sum_le_sum
  rintro ⟨k, v⟩ he
  exact h k v ((mem_entries_iff d k v).mp he)

theorem le_total {weight : ν → Int} {d : Dict κ ν} {k : κ} {v : ν}
    (h : ∀ k v, d.get? k = some v → 0 ≤ weight v) (hk : d.get? k = some v) :
    weight v ≤ total weight d := by
  have herase := total_erase weight d k
  have hrest : 0 ≤ total weight (d.erase k) :=
    total_nonneg fun k' v' hv' => h k' v' (get?_erase_some hv').2
  rw [hk] at herase
  simp only [Option.elim_some] at herase
  omega

omit [DecidableEq κ] in
theorem exists_pos_of_total_pos {weight : ν → Int} {d : Dict κ ν} (h : 0 < total weight d) :
    ∃ e ∈ d.entries, 0 < weight e.2 := by
  by_contra hno
  simp only [not_exists, not_and, not_lt] at hno
  have hle : total weight d ≤ (d.entries.map fun _ => (0 : Int)).sum := List.sum_le_sum hno
  rw [List.map_const', List.sum_replicate, nsmul_zero] at hle
  omega

theorem erase_of_get?_none {d : Dict κ ν} {k : κ} (h : d.get? k = none) : d.erase k = d := by
  have hall : ∀ e ∈ d.entries, e.1 ≠ k := by
    rintro ⟨k', v⟩ hmem rfl
    have hsome := (mem_entries_iff d k' v).mp hmem
    rw [h] at hsome
    cases hsome
  cases d with
  | mk entries nodup =>
    simp only [erase, Dict.mk.injEq]
    exact List.filter_eq_self.mpr fun e he => decide_eq_true (hall e he)

theorem size_erase_lt {d : Dict κ ν} {k : κ} {v : ν} (h : d.get? k = some v) :
    (d.erase k).size < d.size := by
  have hmem := (mem_entries_iff d k v).mpr h
  apply List.length_filter_lt_length_iff_exists.mpr
  exact ⟨(k, v), hmem, by simp⟩

/-! ### Keys -/

theorem keys_set_of_some {d : Dict κ ν} {k : κ} {v : ν} (h : d.get? k = some v) (v' : ν) :
    (d.set k v').keys = d.keys := by
  have hmem : k ∈ d.keys := (mem_keys_iff d k).mpr ⟨v, h⟩
  exact (keys_setEntries k v' d.entries).trans (if_pos hmem)

theorem keys_set_of_none {d : Dict κ ν} {k : κ} (h : d.get? k = none) (v : ν) :
    (d.set k v).keys = d.keys ++ [k] := by
  have hmem : k ∉ d.keys := by
    rw [mem_keys_iff, h]
    rintro ⟨v', hv'⟩
    cases hv'
  exact (keys_setEntries k v d.entries).trans (if_neg hmem)

theorem size_set_le (d : Dict κ ν) (k : κ) (v : ν) : (d.set k v).size ≤ d.size + 1 := by
  have hkeys : ∀ d' : Dict κ ν, d'.size = d'.keys.length := fun d' => (List.length_map Prod.fst).symm
  rw [hkeys, hkeys]
  cases hget : d.get? k with
  | some v' =>
    rw [keys_set_of_some hget]
    exact Nat.le_succ _
  | none => rw [keys_set_of_none hget, List.length_append, List.length_singleton]

omit [DecidableEq κ] in
theorem countP_eq_total (p : ν → Bool) (d : Dict κ ν) :
    ((d.entries.countP fun e => p e.2 : Nat) : Int) = d.total fun v => if p v then 1 else 0 := by
  unfold total
  induction d.entries with
  | nil => rfl
  | cons e rest ih =>
    rw [List.countP_cons, List.map_cons, List.sum_cons, Nat.cast_add, ih, Int.add_comm]
    cases hp : p e.2 <;> simp [hp]

/-! ### Update -/

def update (d other : Dict κ ν) : Dict κ ν := other.entries.foldl (fun d e => d.set e.1 e.2) d

theorem get?_foldl_set (l : List (κ × ν)) (d : Dict κ ν) (k : κ) (h : (l.map Prod.fst).Nodup) :
    (l.foldl (fun d e => d.set e.1 e.2) d).get? k
      = ((l.find? fun e => e.1 = k).map Prod.snd).or (d.get? k) := by
  induction l generalizing d with
  | nil => rfl
  | cons e rest ih =>
    obtain ⟨hhead, hrest⟩ := List.nodup_cons.mp h
    rw [List.foldl_cons, ih _ hrest, get?_set]
    by_cases he : e.1 = k
    · have hnone : rest.find? (fun e => e.1 = k) = none := List.find?_eq_none.mpr fun e' he' hk =>
        hhead (List.mem_map.mpr ⟨e', he', (of_decide_eq_true hk).trans he.symm⟩)
      rw [if_pos he.symm, hnone, List.find?_cons_of_pos (by simp [he])]
      rfl
    · rw [if_neg (Ne.symm he), List.find?_cons_of_neg (by simp [he])]

theorem get?_update (d other : Dict κ ν) (k : κ) :
    (d.update other).get? k = (other.get? k).or (d.get? k) :=
  get?_foldl_set other.entries d k other.nodup

end Dict

end Lib
