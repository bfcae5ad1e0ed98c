import Mathlib.Data.List.Basic

/-! Lists of records that are looked up by position, replaced at one position, and grow at the end, and
lists of events that grow at the end. -/

namespace Lib

variable {α : Type} {l : List α} {i k : Nat} {a b c : α}

theorem getElem?_set_of_some (h : l[i]? = some a) (b : α) (k : Nat) :
    (l.set i b)[k]? = if i = k then some b else l[k]? := by
  rw [List.getElem?_set, if_pos (List.getElem?_eq_some_iff.mp h).1]

theorem of_getElem?_set (h : l[i]? = some a) (hk : (l.set i b)[k]? = some c) :
    (k = i ∧ c = b) ∨ (k ≠ i ∧ l[k]? = some c) := by
  rw [getElem?_set_of_some h] at hk
  split at hk
  · next he =>
    cases hk
    exact .inl ⟨he.symm, rfl⟩
  · next he => exact .inr ⟨fun e => he e.symm, hk⟩

theorem of_getElem?_concat (hk : (l ++ [a])[k]? = some c) :
    l[k]? = some c ∨ (k = l.length ∧ c = a) := by
  rw [List.getElem?_append] at hk
  split at hk
  · exact .inl hk
  · have hlen := (List.getElem?_eq_some_iff.mp hk).1
    simp only [List.length_singleton] at hlen
    exact .inr ⟨by omega, List.mem_singleton.mp (List.mem_of_getElem? hk)⟩

theorem getElem?_concat_of_some (h : l[k]? = some c) (a : α) : (l ++ [a])[k]? = some c := by
  rw [List.getElem?_append_left (List.getElem?_eq_some_iff.mp h).1, h]

theorem modify_eq_set (h : l[i]? = some a) (f : α → α) : l.modify i f = l.set i (f a) := by
  refine List.ext_getElem? fun k => ?_
  rw [List.getElem?_modify, List.getElem?_set]
  by_cases he : i = k
  · subst he
    rw [if_pos rfl, if_pos (List.getElem?_eq_some_iff.mp h).1, h]
    simp
  · rw [if_neg he]
    simp [he]

/-! ### Events in order -/

/-- `a` stands before `b` somewhere in a list. -/
def Precedes (l : List α) (a b : α) : Prop := [a, b].Sublist l

theorem precedes_concat : Precedes (l ++ [c]) a b ↔ Precedes l a b ∨ (b = c ∧ a ∈ l) := by
  unfold Precedes
  constructor
  · intro h
    obtain ⟨first, second, heq, hfirst, hsecond⟩ := List.sublist_append_iff.mp h
    rcases List.sublist_singleton.mp hsecond with rfl | rfl
    · rw [List.append_nil] at heq
      exact .inl (heq ▸ hfirst)
    · have hparts : [a] ++ [b] = first ++ [c] := heq
      obtain ⟨rfl, hlast⟩ := List.append_inj' hparts rfl
      exact .inr ⟨List.singleton_inj.mp hlast, List.singleton_sublist.mp hfirst⟩
  · rintro (h | ⟨rfl, ha⟩)
    · exact h.trans (List.sublist_append_left _ _)
    · exact (List.singleton_sublist.mpr ha).append (List.Sublist.refl [b])

theorem Precedes.mem_left (h : Precedes l a b) : a ∈ l := h.subset List.mem_cons_self

theorem Precedes.mem_right (h : Precedes l a b) : b ∈ l :=
  h.subset (List.mem_cons_of_mem _ List.mem_cons_self)

theorem Precedes.concat (h : Precedes l a b) (c : α) : Precedes (l ++ [c]) a b :=
  precedes_concat.mpr (.inl h)

/-- Every event of a list is as `P` says, given the events before it. -/
def Along (P : List α → α → Prop) (l : List α) : Prop :=
  ∀ before e after, l = before ++ e :: after → P before e

variable {P : List α → α → Prop}

theorem Along.nil : Along P [] := fun before _ _ h => by cases before <;> cases h

theorem Along.concat (h : Along P l) (ha : P l a) : Along P (l ++ [a]) := by
  intro before e after heq
  rcases List.eq_nil_or_concat after with rfl | ⟨init, last, rfl⟩
  · obtain ⟨rfl, he⟩ := List.append_inj' heq rfl
    rw [← List.singleton_inj.mp he]
    exact ha
  · rw [List.concat_eq_append, ← List.cons_append, ← List.append_assoc] at heq
    exact h before e init (List.append_inj' heq rfl).1

/-! ### Lists that cover one another -/

theorem covered_of_covers {β : Type} {R : α → β → Prop} {l : List α} {m : List β}
    (hdiff : l.Pairwise fun a b => ∀ x, R a x → ¬ R b x) (hlen : l.length = m.length)
    (hcovers : ∀ a ∈ l, ∃ x ∈ m, R a x) : ∀ x ∈ m, ∃ a ∈ l, R a x := by
  induction l generalizing m with
  | nil =>
    have hm : m = [] := List.length_eq_zero_iff.mp hlen.symm
    simp [hm]
  | cons a l ih =>
    obtain ⟨hfirst, hrest⟩ := List.pairwise_cons.mp hdiff
    obtain ⟨y, hy, hay⟩ := hcovers a List.mem_cons_self
    obtain ⟨before, after, rfl⟩ := List.append_of_mem hy
    -- the others avoid `y`, so they cover what is left without it
    have hothers : ∀ b ∈ l, ∃ x ∈ before ++ after, R b x := by
      intro b hb
      obtain ⟨x, hx, hbx⟩ := hcovers b (List.mem_cons_of_mem _ hb)
      have hne : x ≠ y := by
        rintro rfl
        exact hfirst b hb x hay hbx
      refine ⟨x, ?_, hbx⟩
      simpa [hne] using hx
    have hcovered := ih hrest (by simp at hlen ⊢; omega) hothers
    intro x hx
    by_cases he : x = y
    · exact ⟨a, List.mem_cons_self, he ▸ hay⟩
    · obtain ⟨b, hb, hbx⟩ := hcovered x (by simpa [he] using hx)
      exact ⟨b, List.mem_cons_of_mem _ hb, hbx⟩

end Lib
