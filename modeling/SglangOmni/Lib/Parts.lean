import Mathlib.Logic.Basic

/-! Lists of parts: each element of a list comes from one of another list, in order.  An element may
have several parts, one after the other, or none. -/

namespace Lib

variable {α : Type} {R : α → α → Prop} {whole parts : List α}

/-- The second list has parts of the elements of the first, in their order. -/
inductive PartsOf (R : α → α → Prop) : List α → List α → Prop
  | nil (whole : List α) : PartsOf R whole []
  | skip {whole parts : List α} (a : α) : PartsOf R whole parts → PartsOf R (a :: whole) parts
  | take {whole parts : List α} {a b : α} :
    R a b → PartsOf R (a :: whole) parts → PartsOf R (a :: whole) (b :: parts)

namespace PartsOf

theorem of_sublist (hrefl : ∀ a, R a a) (h : parts.Sublist whole) : PartsOf R whole parts := by
  induction h with
  | slnil => exact .nil _
  | cons a _ ih => exact .skip a ih
  | cons_cons a _ ih => exact .take (hrefl a) (.skip a ih)

theorem refl (hrefl : ∀ a, R a a) (whole : List α) : PartsOf R whole whole :=
  of_sublist hrefl (List.Sublist.refl whole)

theorem skipAll (h : PartsOf R whole parts) (before : List α) :
    PartsOf R (before ++ whole) parts := by
  induction before with
  | nil => exact h
  | cons a before ih => exact .skip a ih

theorem append {whole' parts' : List α} (h : PartsOf R whole parts) (h' : PartsOf R whole' parts') :
    PartsOf R (whole ++ whole') (parts ++ parts') := by
  induction h with
  | nil whole => exact h'.skipAll whole
  | skip a _ ih => exact .skip a ih
  | take hab _ ih => exact .take hab ih

theorem filter {keep : α → Bool} (h : PartsOf R whole parts)
    (hkeep : ∀ {a b}, R a b → keep b = keep a) :
    PartsOf R (whole.filter keep) (parts.filter keep) := by
  induction h with
  | nil whole => exact .nil _
  | skip a _ ih =>
    by_cases ha : keep a
    · rw [List.filter_cons_of_pos ha]
      exact .skip a ih
    · rw [List.filter_cons_of_neg ha]
      exact ih
  | @take whole parts a b hab _ ih =>
    have hb := hkeep hab
    by_cases ha : keep a
    · rw [List.filter_cons_of_pos ha] at ih ⊢
      rw [List.filter_cons_of_pos (hb.trans ha)]
      exact .take hab ih
    · rw [List.filter_cons_of_neg fun h => ha (hb.symm.trans h)]
      exact ih

theorem trans {rest : List α} (htrans : ∀ {a b c}, R a b → R b c → R a c)
    (h : PartsOf R whole parts) (h' : PartsOf R parts rest) : PartsOf R whole rest := by
  induction h generalizing rest with
  | nil whole =>
    cases h'
    exact .nil whole
  | skip a _ ih => exact .skip a (ih h')
  | @take whole parts a b hab _ ih =>
    -- the parts of `b` come first, and all of them are parts of `a`
    generalize hall : b :: parts = all at h'
    induction h' with
    | nil => exact .nil _
    | skip c hrest _ =>
      cases hall
      exact ih hrest
    | take hbc _ ih' =>
      cases hall
      exact .take (htrans hab hbc) (ih' rfl)

end PartsOf

end Lib
