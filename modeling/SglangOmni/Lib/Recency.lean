import Mathlib.Data.List.Basic
import Mathlib.Data.List.Perm.Basic

/-! A list kept in order of recency: of the elements that qualify the first is used and moved to the
end.  An element behind no other that qualifies moves up with every use of another one. -/

namespace Lib

variable {α : Type}

/-- The first element of `l` that qualifies is `x`, and `l'` is `l` with `x` moved to the end. -/
structure MovesBack (p : α → Bool) (l : List α) (x : α) (l' : List α) : Prop where
  intro ::
  split : ∃ before after, l = before ++ x :: after ∧ l' = before ++ after ++ [x] ∧
    ∀ y ∈ before, p y = false
  qualifies : p x = true

/-- `x` was used less recently than `y`: not at all, where `start` decides between two unused elements,
or for the last time before a use of `y`. -/
inductive LessRecent (start : α → α → Prop) (history : List α) (x y : α) : Prop
  | unused : x ∉ history → y ∈ history → LessRecent start history x y
  | bothUnused : x ∉ history → y ∉ history → start x y → LessRecent start history x y
  | used (earlier later : List α) : history = earlier ++ x :: later → x ∉ later → y ∈ later →
      LessRecent start history x y

namespace MovesBack

variable {p : α → Bool} {l l' : List α} {x : α}

theorem perm (h : MovesBack p l x l') : l'.Perm l := by
  obtain ⟨before, after, rfl, rfl, -⟩ := h.split
  rw [List.append_assoc]
  exact List.Perm.append_left before List.perm_append_comm

theorem mem (h : MovesBack p l x l') : x ∈ l := by
  obtain ⟨before, after, rfl, -, -⟩ := h.split
  exact List.mem_append_right before List.mem_cons_self

end MovesBack

theorem exists_last_split {x : α} {history : List α} (h : x ∈ history) :
    ∃ earlier later, history = earlier ++ x :: later ∧ x ∉ later := by
  classical
  induction history with
  | nil => cases h
  | cons z history ih =>
    by_cases hlater : x ∈ history
    · obtain ⟨earlier, later, hsplit, hnot⟩ := ih hlater
      exact ⟨z :: earlier, later, by rw [hsplit]; rfl, hnot⟩
    · obtain rfl : x = z := (List.mem_cons.mp h).resolve_right hlater
      exact ⟨[], history, rfl, hlater⟩

namespace LessRecent

variable {start : α → α → Prop} {history : List α} {x y z : α}

theorem use_other (h : LessRecent start history x y) (hx : x ≠ z) (hy : y ≠ z) :
    LessRecent start (history ++ [z]) x y := by
  have hnot {v : α} (hv : v ∉ history) (hne : v ≠ z) : v ∉ history ++ [z] := by
    simp [hv, hne]
  cases h with
  | unused hunused hused => exact .unused (hnot hunused hx) (List.mem_append_left _ hused)
  | bothUnused hunused hunused' hstart =>
    exact .bothUnused (hnot hunused hx) (hnot hunused' hy) hstart
  | used earlier later hsplit hlast hused =>
    refine .used earlier (later ++ [z]) ?_ ?_ (List.mem_append_left _ hused)
    · rw [hsplit, List.append_assoc, List.cons_append]
    · simp [hlast, hx]

theorem use_self (start : α → α → Prop) (history : List α) (h : y ≠ x) :
    LessRecent start (history ++ [x]) y x := by
  by_cases hused : y ∈ history
  · obtain ⟨earlier, later, hsplit, hlast⟩ := exists_last_split hused
    refine .used earlier (later ++ [x]) ?_ ?_ (by simp)
    · rw [hsplit, List.append_assoc, List.cons_append]
    · simp [hlast, h]
  · exact .unused (by simp [hused, h]) (by simp)

end LessRecent

section Order

variable {start : α → α → Prop} {history : List α} {p : α → Bool} {l l' : List α} {x : α}

theorem MovesBack.pairwise (h : MovesBack p l x l') (hnodup : l.Nodup)
    (hl : l.Pairwise (LessRecent start history)) :
    l'.Pairwise (LessRecent start (history ++ [x])) := by
  obtain ⟨before, after, rfl, rfl, -⟩ := h.split
  have hsub : (before ++ after).Sublist (before ++ x :: after) :=
    List.Sublist.append_left (List.sublist_cons_self x after) before
  have hne : ∀ y ∈ before ++ after, y ≠ x := by
    intro y hy heq
    subst heq
    exact (List.nodup_cons.mp (List.perm_middle.nodup_iff.mp hnodup)).1 hy
  rw [List.pairwise_append]
  refine ⟨?_, List.pairwise_singleton _ _, ?_⟩
  · exact (hl.sublist hsub).imp_of_mem fun hy hz hyz => hyz.use_other (hne _ hy) (hne _ hz)
  · intro y hy z hz
    rw [List.mem_singleton.mp hz]
    exact LessRecent.use_self start history (hne y hy)

theorem MovesBack.least (h : MovesBack p l x l') (hl : l.Pairwise (LessRecent start history))
    {y : α} (hy : y ∈ l) (hp : p y = true) (hne : y ≠ x) : LessRecent start history x y := by
  obtain ⟨before, after, rfl, -, hbefore⟩ := h.split
  have hafter : y ∈ after := by
    rcases List.mem_append.mp hy with hmem | hmem
    · rw [hbefore y hmem] at hp
      cases hp
    · exact (List.mem_cons.mp hmem).resolve_left hne
  rw [List.pairwise_append, List.pairwise_cons] at hl
  exact hl.2.1.1 y hafter

variable [DecidableEq α]

theorem MovesBack.idxOf_lt (h : MovesBack p l x l') {y : α} (hy : y ∈ l) (hp : p y = true)
    (hne : y ≠ x) : l'.idxOf y < l.idxOf y := by
  obtain ⟨before, after, rfl, rfl, hbefore⟩ := h.split
  have hnot : y ∉ before := by
    intro hmem
    rw [hbefore y hmem] at hp
    cases hp
  have hafter : y ∈ after := by
    rcases List.mem_append.mp hy with hmem | hmem
    · exact absurd hmem hnot
    · exact (List.mem_cons.mp hmem).resolve_left hne
  have hnew : (before ++ after ++ [x]).idxOf y = before.length + after.idxOf y := by
    rw [List.append_assoc, List.idxOf_append_of_notMem hnot, List.idxOf_append_of_mem hafter]
  have hold : (before ++ x :: after).idxOf y = before.length + (after.idxOf y + 1) := by
    rw [List.idxOf_append_of_notMem hnot, List.idxOf_cons_ne _ (Ne.symm hne)]
  omega

end Order

end Lib
