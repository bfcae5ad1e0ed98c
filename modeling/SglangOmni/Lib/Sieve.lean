import Mathlib.Data.Nat.Count
import Mathlib.Data.List.Range
import Mathlib.Data.Set.Function

/-! Lists from which the positions that a predicate refuses are removed.  A kept position moves to the
number of kept positions before it. -/

namespace Lib

variable {α : Type}

/-- The members of a list at the positions that `keep` accepts. -/
def sieve (keep : Nat → Bool) : List α → List α
  | [] => []
  | a :: rest =>
    if keep 0 then a :: sieve (fun i => keep (i + 1)) rest else sieve (fun i => keep (i + 1)) rest

variable {keep : Nat → Bool} {l : List α} {p q n : Nat}

@[simp] theorem sieve_nil : sieve keep ([] : List α) = [] := rfl

theorem sieve_cons (a : α) (rest : List α) : sieve keep (a :: rest) =
    if keep 0 then a :: sieve (fun i => keep (i + 1)) rest else sieve (fun i => keep (i + 1)) rest := rfl

theorem sieve_append (first second : List α) :
    sieve keep (first ++ second) =
      sieve keep first ++ sieve (fun i => keep (i + first.length)) second := by
  induction first generalizing keep with
  | nil => rfl
  | cons a rest ih =>
    simp only [List.cons_append, sieve_cons, ih, List.length_cons, Nat.add_assoc]
    split <;> simp

theorem sieve_split (n : Nat) (l : List α) :
    sieve keep l = sieve keep (l.take n) ++ sieve (fun i => keep (i + n)) (l.drop n) := by
  by_cases h : n ≤ l.length
  · have hlength : (l.take n).length = n := List.length_take_of_le h
    conv_lhs => rw [← List.take_append_drop n l]
    rw [sieve_append, hlength]
  · rw [List.take_of_length_le (by omega), List.drop_of_length_le (by omega), sieve_nil,
      List.append_nil]

theorem sieve_of_all (h : ∀ i < l.length, keep i = true) : sieve keep l = l := by
  induction l generalizing keep with
  | nil => rfl
  | cons a rest ih =>
    rw [sieve_cons, if_pos (h 0 (Nat.succ_pos _)), ih fun i hi => h (i + 1) (Nat.succ_lt_succ hi)]

theorem sieve_of_none (h : ∀ i < l.length, keep i = false) : sieve keep l = [] := by
  induction l generalizing keep with
  | nil => rfl
  | cons a rest ih =>
    rw [sieve_cons, h 0 (Nat.succ_pos _), if_neg Bool.false_ne_true,
      ih fun i hi => h (i + 1) (Nat.succ_lt_succ hi)]

theorem sieve_congr {keep' : Nat → Bool} (h : ∀ i < l.length, keep i = keep' i) :
    sieve keep l = sieve keep' l := by
  induction l generalizing keep keep' with
  | nil => rfl
  | cons a rest ih =>
    rw [sieve_cons, sieve_cons, h 0 (Nat.succ_pos _), ih fun i hi => h (i + 1) (Nat.succ_lt_succ hi)]

theorem getElem?_sieve (l : List α) (h : keep p = true) :
    (sieve keep l)[Nat.count (keep · = true) p]? = l[p]? := by
  induction l generalizing keep p with
  | nil => simp
  | cons a rest ih =>
    cases p with
    | zero => simp [sieve_cons, h]
    | succ p =>
      have hrest : (sieve (fun i => keep (i + 1)) rest)[Nat.count (keep <| · + 1) p]? = rest[p]? :=
        ih h
      rw [Nat.count_succ', sieve_cons, List.getElem?_cons_succ, ← hrest]
      split
      · rw [List.getElem?_cons_succ]
      · rw [Nat.add_zero]

theorem sieve_range (n : Nat) : sieve keep (List.range n) = (List.range n).filter keep := by
  induction n with
  | zero => rfl
  | succ n ih =>
    rw [List.range_succ, sieve_append, ih, List.filter_append, List.length_range]
    simp [sieve_cons, List.filter_cons]

theorem count_add_of_all (h : ∀ i < n, keep (p + i) = true) :
    Nat.count (keep · = true) (p + n) = Nat.count (keep · = true) p + n := by
  rw [Nat.count_add, Nat.count_iff_forall.mpr fun i hi => h i hi]

theorem sieve_slice (l : List α) (h : ∀ i < n, keep (p + i) = true) :
    ((sieve keep l).drop (Nat.count (keep · = true) p)).take n = (l.drop p).take n := by
  refine List.ext_getElem? fun i => ?_
  rw [List.getElem?_take, List.getElem?_take]
  split
  · next hi =>
    rw [List.getElem?_drop, List.getElem?_drop, ← getElem?_sieve l (h i hi),
      count_add_of_all fun j hj => h j (by omega)]
  · rfl

theorem exists_of_lt_count (h : q < Nat.count (keep · = true) n) :
    ∃ p < n, keep p = true ∧ Nat.count (keep · = true) p = q := by
  induction n with
  | zero => simp at h
  | succ n ih =>
    by_cases hlt : q < Nat.count (keep · = true) n
    · obtain ⟨p, hp, hkeep, heq⟩ := ih hlt
      exact ⟨p, by omega, hkeep, heq⟩
    · rw [Nat.count_succ] at h
      split at h
      · next hkeep => exact ⟨n, by omega, hkeep, by omega⟩
      · omega

theorem count_bijOn (n : Nat) :
    Set.BijOn (Nat.count (keep · = true)) {p | p < n ∧ keep p = true}
      (Set.Iio (Nat.count (keep · = true) n)) := by
  refine ⟨fun p hp => Nat.count_strict_mono hp.2 hp.1, fun p hp q hq heq => ?_, fun q hq => ?_⟩
  · exact Nat.count_injective hp.2 hq.2 heq
  · obtain ⟨p, hp, hkeep, heq⟩ := exists_of_lt_count hq
    exact ⟨p, ⟨hp, hkeep⟩, heq⟩

end Lib
