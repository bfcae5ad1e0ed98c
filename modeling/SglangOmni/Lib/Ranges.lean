import Mathlib.Algebra.GroupWithZero.Nat
import Mathlib.Data.List.Basic

/-! Rows of ranges that follow one another without gap or overlap. -/

namespace Lib

variable {α : Type} (start len : α → Nat)

/-- The ranges of a row lead from `first` to `last`, each from where the one before it ends. -/
def Covers : Nat → List α → Nat → Prop
  | first, [], last => first = last
  | first, a :: rest, last => start a = first ∧ Covers (first + len a) rest last

variable {start len} {first middle last : Nat} {l r : List α} {a : α}

theorem Covers.append (hl : Covers start len first l middle) (hr : Covers start len middle r last) :
    Covers start len first (l ++ r) last := by
  induction l generalizing first with
  | nil =>
    cases hl
    exact hr
  | cons b rest ih => exact ⟨hl.1, ih hl.2⟩

theorem Covers.singleton (ha : start a = first) : Covers start len first [a] (first + len a) :=
  ⟨ha, rfl⟩

theorem Covers.concat (hl : Covers start len first l middle) (ha : start a = middle) :
    Covers start len first (l ++ [a]) (middle + len a) :=
  hl.append (.singleton ha)

theorem Covers.sum (h : Covers start len first l last) : last = first + (l.map len).sum := by
  induction l generalizing first with
  | nil => exact h.symm
  | cons b rest ih =>
    rw [ih h.2, List.map_cons, List.sum_cons, Nat.add_assoc]

end Lib
