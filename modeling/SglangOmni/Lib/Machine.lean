import Mathlib.Logic.Relation

/-! Transition systems whose steps are chosen by an environment: an action names what happens next
and `step` computes the state after it, or nothing where the action cannot happen.  A run may be
restricted to the actions that a condition on the state admits.  Invariants are proved for one step
and hold along every run. -/

namespace Lib

/-- A transition system: one initial state, and for each action the state after it. -/
structure Machine (σ α : Type) where
  init : σ
  step : σ → α → Option σ

namespace Machine

variable {σ α : Type} (M : Machine σ α) (allowed : σ → α → Prop)

def StepTo (s s' : σ) : Prop := ∃ a, allowed s a ∧ M.step s a = some s'

/-- `s'` follows from `s` by allowed actions. -/
def Path : σ → σ → Prop := Relation.ReflTransGen (M.StepTo allowed)

/-- `s` is the state after a run of allowed actions from the initial state. -/
def Reaches (s : σ) : Prop := M.Path allowed M.init s

def anyAction : σ → α → Prop := fun _ _ => True

def execWhere (check : σ → α → Bool) (s : σ) (actions : List α) : Option σ :=
  actions.foldlM (fun s a => if check s a then M.step s a else none) s

def exec (s : σ) (actions : List α) : Option σ := M.execWhere (fun _ _ => true) s actions

variable {M allowed}

theorem Path.refl (s : σ) : M.Path allowed s s := Relation.ReflTransGen.refl

theorem Path.tail {s s' s'' : σ} {a : α} (h : M.Path allowed s s') (ha : allowed s' a)
    (hs : M.step s' a = some s'') : M.Path allowed s s'' :=
  Relation.ReflTransGen.tail h ⟨a, ha, hs⟩

theorem Path.trans {s s' s'' : σ} (h : M.Path allowed s s') (h' : M.Path allowed s' s'') :
    M.Path allowed s s'' :=
  Relation.ReflTransGen.trans h h'

theorem Path.invariant {P : σ → Prop} {s s' : σ} (h : M.Path allowed s s') (hs : P s)
    (hstep : ∀ s a s', P s → allowed s a → M.step s a = some s' → P s') : P s' := by
  induction h with
  | refl => exact hs
  | tail _ hlast ih =>
    obtain ⟨a, ha, he⟩ := hlast
    exact hstep _ a _ ih ha he

theorem Reaches.invariant {P : σ → Prop} {s : σ} (h : M.Reaches allowed s) (hinit : P M.init)
    (hstep : ∀ s a s', P s → allowed s a → M.step s a = some s' → P s') : P s :=
  Path.invariant h hinit hstep

theorem Reaches.mono {allowed' : σ → α → Prop} (himp : ∀ s a, allowed s a → allowed' s a) {s : σ}
    (h : M.Reaches allowed s) : M.Reaches allowed' s :=
  Relation.ReflTransGen.mono (fun _ _ ⟨a, ha, he⟩ => ⟨a, himp _ _ ha, he⟩) _ _ h

theorem path_of_execWhere {check : σ → α → Bool} (hcheck : ∀ s a, check s a = true → allowed s a)
    {s s' : σ} {actions : List α} (h : M.execWhere check s actions = some s') :
    M.Path allowed s s' := by
  induction actions generalizing s with
  | nil =>
    simp only [execWhere, List.foldlM_nil] at h
    cases h
    exact Path.refl _
  | cons a rest ih =>
    simp only [execWhere, List.foldlM_cons, bind, Option.bind_eq_some_iff] at h
    obtain ⟨t, hs, ht⟩ := h
    split at hs
    · next hc => exact ((Path.refl s).tail (hcheck s a hc) hs).trans (ih ht)
    · cases hs

theorem path_of_exec {s s' : σ} {actions : List α} (h : M.exec s actions = some s') :
    M.Path anyAction s s' :=
  path_of_execWhere (fun _ _ _ => trivial) h

end Machine

end Lib
