import SglangOmni.Lib.Lists
import Mathlib.Data.Fintype.Card
import Mathlib.Data.Set.Finite.List
import Mathlib.Logic.Relation
import Mathlib.Order.WellFounded
import Mathlib.Tactic.ByContra

/-! Things that come after others: without a cycle some thing can always be placed next, and a list in which
each comes after its sources shows that there is none. -/

namespace Lib

variable {α : Type} [DecidableEq α] {names placed : List α} {sources : α → List α}

def Edge (names : List α) (sources : α → List α) (a b : α) : Prop := b ∈ names ∧ a ∈ sources b

def Acyclic (names : List α) (sources : α → List α) : Prop :=
  ∀ a, ¬ Relation.TransGen (Edge names sources) a a

def Ordered (sources : α → List α) (order : List α) : Prop :=
  Along (fun before a => ∀ s ∈ sources a, s ∈ before) order

omit [DecidableEq α] in
theorem Acyclic.exists_ready (h : Acyclic names sources)
    (hclosed : ∀ a ∈ names, ∀ s ∈ sources a, s ∈ names) {b : α} (hb : b ∈ names) (hleft : b ∉ placed) :
    ∃ a ∈ names, a ∉ placed ∧ ∀ s ∈ sources a, s ∈ placed := by
  let r : {a // a ∈ names} → {a // a ∈ names} → Prop := fun a b =>
    Relation.TransGen (Edge names sources) a.1 b.1
  have : Finite {a // a ∈ names} := List.finite_toSet names
  have : IsTrans {a // a ∈ names} r := ⟨fun _ _ _ hab hbc => hab.trans hbc⟩
  have : Std.Irrefl r := ⟨fun a hcycle => h a.1 hcycle⟩
  have hwf := Finite.wellFounded_of_trans_of_irrefl r
  -- A first one among those that are left.
  obtain ⟨⟨a, ha⟩, hnot, hmin⟩ := hwf.has_min {a | a.1 ∉ placed} ⟨⟨b, hb⟩, hleft⟩
  refine ⟨a, ha, hnot, fun s hs => ?_⟩
  by_contra hout
  exact hmin ⟨s, hclosed a ha s hs⟩ hout (.single ⟨ha, hs⟩)

theorem Ordered.idxOf_lt {order : List α} (h : Ordered sources order) (hnodup : order.Nodup) {a s : α}
    (ha : a ∈ order) (hs : s ∈ sources a) : order.idxOf s < order.idxOf a := by
  obtain ⟨before, after, rfl⟩ := List.append_of_mem ha
  have hbefore : s ∈ before := h before a after rfl s hs
  have hnot : a ∉ before := fun hmem =>
    (List.nodup_append.mp hnodup).2.2 a hmem a List.mem_cons_self rfl
  rw [List.idxOf_append_of_mem hbefore, List.idxOf_append_of_notMem hnot]
  exact (List.idxOf_lt_length_of_mem hbefore).trans_le (Nat.le_add_right _ _)

theorem Ordered.acyclic {order : List α} (h : Ordered sources order) (hnodup : order.Nodup)
    (hall : ∀ a ∈ names, a ∈ order) : Acyclic names sources := by
  have hlt : ∀ a b, Relation.TransGen (Edge names sources) a b → order.idxOf a < order.idxOf b := by
    intro a b hab
    induction hab with
    | single he => exact h.idxOf_lt hnodup (hall _ he.1) he.2
    | tail _ he ih => exact ih.trans (h.idxOf_lt hnodup (hall _ he.1) he.2)
  exact fun a hcycle => Nat.lt_irrefl _ (hlt a a hcycle)

end Lib
