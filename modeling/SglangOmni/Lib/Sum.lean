import Mathlib.Algebra.BigOperators.Group.List.Basic
import Mathlib.Data.List.Nodup

/-! Sums over the members of a list, when the summand or the list changes at one of them. -/

namespace Lib

variable {α M : Type} [AddCommMonoid M]

theorem sum_map_set {l : List α} {i : Nat} {a : α} (h : l[i]? = some a) (b : α) (f : α → M) :
    ((l.set i b).map f).sum + f a = (l.map f).sum + f b := by
  induction l generalizing i with
  | nil => cases h
  | cons c rest ih =>
    cases i with
    | zero =>
      cases h
      simp only [List.set_cons_zero, List.map_cons, List.sum_cons]
      ac_rfl
    | succ i =>
      have hrest := ih h
      simp only [List.set_cons_succ, List.map_cons, List.sum_cons, add_assoc, hrest]

variable [DecidableEq α]

theorem sum_map_change {l : List α} (hl : l.Nodup) {a : α} (ha : a ∈ l) {f g : α → M}
    (hsame : ∀ b, b ≠ a → g b = f b) : (l.map g).sum + f a = (l.map f).sum + g a := by
  have hrest : (l.erase a).map g = (l.erase a).map f := by
    refine List.map_congr_left fun b hb => hsame b ?_
    exact ((List.Nodup.mem_erase_iff hl).mp hb).1
  rw [← List.sum_map_erase f ha, ← List.sum_map_erase g ha, hrest]
  ac_rfl

end Lib
