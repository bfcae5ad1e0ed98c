import Mathlib.Logic.Basic

/-! Computations with fuel: nothing is returned where the fuel runs out.  A specification says when the
fuel is enough and what holds of every result. -/

namespace Lib

variable {α β : Type} {enough : Prop} {o : Option α} {P Q : α → Prop}

/-- With enough fuel there is a result, and every result is as `P` says. -/
structure Ends (enough : Prop) (o : Option α) (P : α → Prop) : Prop where
  isSome : enough → o.isSome = true
  post : ∀ a, o = some a → P a

namespace Ends

theorem some {a : α} (h : P a) : Ends enough (some a) P :=
  ⟨fun _ => rfl, fun _ ha => Option.some.inj ha ▸ h⟩

theorem imp (h : Ends enough o P) (himp : ∀ a, P a → Q a) : Ends enough o Q :=
  ⟨h.isSome, fun a ha => himp a (h.post a ha)⟩

theorem bind {f : α → Option β} {R : β → Prop} (h : Ends enough o P)
    (hf : ∀ a, P a → Ends enough (f a) R) : Ends enough (o.bind f) R := by
  refine ⟨fun he => ?_, fun b hb => ?_⟩
  · obtain ⟨a, ha⟩ := Option.isSome_iff_exists.mp (h.isSome he)
    rw [ha, Option.bind_some]
    exact (hf a (h.post a ha)).isSome he
  · obtain ⟨a, ha, hfa⟩ := Option.bind_eq_some_iff.mp hb
    exact (hf a (h.post a ha)).post b hfa

theorem map {f : α → β} {R : β → Prop} (h : Ends enough o P) (hf : ∀ a, P a → R (f a)) :
    Ends enough (o.map f) R := by
  rw [Option.map_eq_bind]
  exact h.bind fun a ha => Ends.some (hf a ha)

end Ends

end Lib
