import Mathlib.Algebra.GroupWithZero.Nat
import SglangOmni.Lib.Sieve
import Mathlib.Algebra.Order.BigOperators.Group.List
import Mathlib.Order.Interval.Finset.Nat

/-! `HistoryCut`: the positions of a session's history that are dropped, and where the others land. -/

namespace History

open Lib

/-- A range of positions `[start, end)`. -/
abbrev CutRange := Nat × Nat

def bounds (ranges : List CutRange) : List Nat := ranges.flatMap fun r => [r.1, r.2]

/-- `HistoryCut`, with the check of `__post_init__`: there are bounds, and each is below the next. -/
structure HistoryCut where
  ranges : List CutRange
  nonempty : bounds ranges ≠ []
  ascending : (bounds ranges).IsChain (· < ·)

inductive CutError where
  | notOneNode
  | leavesTokenIds (ranges : List CutRange)
  | reachesTreePrefix (firstStart protectedLen : Nat)
  | passesCommittedKv (ranges : List CutRange) (committedLen : Nat)
  | notOneRowPerSlot
  | crossesCut (start stop : Nat) (ranges : List CutRange)
deriving DecidableEq, Repr

def keepsAll (ranges : List CutRange) (p : Nat) : Bool :=
  ranges.all fun r => !(decide (r.1 ≤ p) && decide (p < r.2))

/-- How many positions before `p` one range holds. -/
def below (p : Nat) (r : CutRange) : Nat := if r.1 < p then min r.2 p - r.1 else 0

namespace HistoryCut

variable (cut : HistoryCut)

def length : Nat := (cut.ranges.map fun r => r.2 - r.1).sum

def newPosition (position : Nat) : Nat := position - (cut.ranges.map (below position)).sum

def keeps (position : Nat) : Bool := keepsAll cut.ranges position

/-- The loop of `HistoryCut.drops`. -/
def dropsIn (start stop : Nat) : List CutRange → Except CutError Bool
  | [] => .ok false
  | r :: rest =>
    if r.1 ≤ start ∧ stop ≤ r.2 then .ok true
    else if stop ≤ r.1 ∨ r.2 ≤ start then dropsIn start stop rest
    else .error (.crossesCut start stop cut.ranges)

def drops (start stop : Nat) : Except CutError Bool := cut.dropsIn start stop cut.ranges

theorem ranges_ne_nil : cut.ranges ≠ [] := by
  intro h
  exact cut.nonempty (by rw [h]; rfl)

def firstStart : Nat := (cut.ranges.head cut.ranges_ne_nil).1

def lastEnd : Nat := (cut.ranges.getLast cut.ranges_ne_nil).2

end HistoryCut

def Apart (ranges : List CutRange) : Prop :=
  (∀ r ∈ ranges, r.1 < r.2) ∧ ranges.Pairwise fun r r' => r.2 < r'.1

theorem bounds_cons (r : CutRange) (rest : List CutRange) :
    bounds (r :: rest) = r.1 :: r.2 :: bounds rest := rfl

theorem left_mem_bounds {ranges : List CutRange} {r : CutRange} (h : r ∈ ranges) :
    r.1 ∈ bounds ranges :=
  List.mem_flatMap.mpr ⟨r, h, List.mem_cons_self⟩

theorem apart_of_pairwise {ranges : List CutRange} (h : (bounds ranges).Pairwise (· < ·)) :
    Apart ranges := by
  induction ranges with
  | nil => exact ⟨fun _ hr => by simp at hr, List.Pairwise.nil⟩
  | cons r rest ih =>
    rw [bounds_cons, List.pairwise_cons, List.pairwise_cons] at h
    obtain ⟨hfirst, hsecond, hrest⟩ := h
    obtain ⟨hproper, hapart⟩ := ih hrest
    refine ⟨fun r' hr' => ?_, List.pairwise_cons.mpr ⟨fun r' hr' => ?_, hapart⟩⟩
    · rcases List.mem_cons.mp hr' with rfl | hr'
      · exact hfirst _ List.mem_cons_self
      · exact hproper r' hr'
    · exact hsecond _ (left_mem_bounds hr')

theorem HistoryCut.apart (cut : HistoryCut) : Apart cut.ranges :=
  apart_of_pairwise (List.isChain_iff_pairwise.mp cut.ascending)

theorem Apart.tail {r : CutRange} {rest : List CutRange} (h : Apart (r :: rest)) : Apart rest :=
  ⟨fun r' hr' => h.1 r' (List.mem_cons_of_mem _ hr'), (List.pairwise_cons.mp h.2).2⟩

theorem keepsAll_cons (r : CutRange) (rest : List CutRange) (p : Nat) :
    keepsAll (r :: rest) p = (!(decide (r.1 ≤ p) && decide (p < r.2)) && keepsAll rest p) := rfl

theorem keepsAll_iff {ranges : List CutRange} {p : Nat} :
    keepsAll ranges p = true ↔ ∀ r ∈ ranges, ¬(r.1 ≤ p ∧ p < r.2) := by
  simp only [keepsAll, List.all_eq_true, Bool.not_eq_true', Bool.and_eq_false_iff,
    decide_eq_false_iff_not]
  exact forall₂_congr fun r _ => not_and_or.symm

theorem keepsAll_of_lt {ranges : List CutRange} {p : Nat} (h : ∀ r ∈ ranges, p < r.1) :
    keepsAll ranges p = true :=
  keepsAll_iff.mpr fun r hr hp => absurd hp.1 (Nat.not_le.mpr (h r hr))

theorem below_succ (p : Nat) {r : CutRange} :
    below (p + 1) r = below p r + if r.1 ≤ p ∧ p < r.2 then 1 else 0 := by
  unfold below
  split_ifs <;> omega

theorem sum_below_succ {ranges : List CutRange} (h : Apart ranges) (p : Nat) :
    (ranges.map (below (p + 1))).sum =
      (ranges.map (below p)).sum + if keepsAll ranges p then 0 else 1 := by
  induction ranges with
  | nil => rfl
  | cons r rest ih =>
    rw [List.map_cons, List.map_cons, List.sum_cons, List.sum_cons, ih h.tail, below_succ p]
    by_cases hin : r.1 ≤ p ∧ p < r.2
    · have hlater : keepsAll rest p = true :=
        keepsAll_of_lt fun r' hr' => lt_trans hin.2 ((List.pairwise_cons.mp h.2).1 r' hr')
      rw [keepsAll_cons, hlater]
      simp only [hin, decide_true, and_self, if_true, Bool.and_true, Bool.not_true,
        Bool.false_eq_true, if_false]
      omega
    · rw [keepsAll_cons, if_neg hin]
      have hout : (!(decide (r.1 ≤ p) && decide (p < r.2))) = true := by
        rw [← Bool.decide_and, decide_eq_false hin]
        rfl
      rw [hout, Bool.true_and]
      omega

theorem count_add_below {ranges : List CutRange} (h : Apart ranges) (p : Nat) :
    Nat.count (keepsAll ranges · = true) p + (ranges.map (below p)).sum = p := by
  induction p with
  | zero =>
    have hnone : ranges.map (below 0) = ranges.map fun _ => 0 :=
      List.map_congr_left fun r _ => if_neg (Nat.not_lt_zero _)
    rw [hnone]
    simp
  | succ p ih =>
    rw [Nat.count_succ, sum_below_succ h]
    split <;> omega

namespace HistoryCut

variable (cut : HistoryCut) {p n : Nat}

theorem newPosition_eq_count (p : Nat) :
    cut.newPosition p = Nat.count (cut.keeps · = true) p := by
  have h := count_add_below cut.apart p
  unfold newPosition
  exact (Nat.eq_sub_of_add_eq h).symm

theorem le_lastEnd {r : CutRange} (hr : r ∈ cut.ranges) : r.2 ≤ cut.lastEnd := by
  obtain ⟨front, last, hsplit⟩ := List.eq_nil_or_concat cut.ranges |>.resolve_left cut.ranges_ne_nil
  have hapart := cut.apart
  have hlast : cut.lastEnd = last.2 := by
    simp only [lastEnd, hsplit]
    simp
  rw [hsplit, List.concat_eq_append] at hr hapart
  rcases List.mem_append.mp hr with hr' | hr'
  · have horder := (List.pairwise_append.mp hapart.2).2.2 r hr' last (by simp)
    have hproper := hapart.1 last (by simp)
    omega
  · rw [List.mem_singleton.mp hr', hlast]

theorem sum_below (h : cut.lastEnd ≤ n) : (cut.ranges.map (below n)).sum = cut.length := by
  have hsame : cut.ranges.map (below n) = cut.ranges.map fun r => r.2 - r.1 := by
    refine List.map_congr_left fun r hr => ?_
    have hlast := cut.le_lastEnd hr
    have hproper := cut.apart.1 r hr
    unfold below
    rw [if_pos (by omega), min_eq_left (by omega)]
  rw [hsame]
  rfl

theorem newPosition_of_le (h : cut.lastEnd ≤ n) : cut.newPosition n = n - cut.length := by
  rw [newPosition, cut.sum_below h]

theorem length_le (h : cut.lastEnd ≤ n) : cut.length ≤ n := by
  have hcount := count_add_below cut.apart n
  rw [cut.sum_below h] at hcount
  omega

theorem newPosition_le (p : Nat) : cut.newPosition p ≤ p := Nat.sub_le ..

theorem newPosition_strictMonoOn : StrictMonoOn cut.newPosition {p | cut.keeps p = true} := by
  intro p hp q _ hlt
  rw [newPosition_eq_count, newPosition_eq_count]
  exact Nat.count_strict_mono hp hlt

theorem newPosition_bijOn (h : cut.lastEnd ≤ n) :
    Set.BijOn cut.newPosition {p | p < n ∧ cut.keeps p = true} (Set.Iio (n - cut.length)) := by
  have hfun : cut.newPosition = Nat.count (cut.keeps · = true) := funext cut.newPosition_eq_count
  rw [← cut.newPosition_of_le h, hfun]
  exact count_bijOn n

end HistoryCut

end History
