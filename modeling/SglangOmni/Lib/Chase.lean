import Mathlib.Data.List.Chain
import Mathlib.Data.List.Nodup
import Mathlib.Logic.Relation

/-! Following a partial function from an element until it has no value.  Over a finite set of elements
this ends exactly if no element that is reached lies on a cycle. -/

namespace Lib

variable {α : Type} (next : α → Option α)

/-- The elements from `x` on, if `fuel` is enough to come to one without a next. -/
def chase : Nat → α → Option (List α)
  | 0, _ => none
  | fuel + 1, x =>
    match next x with
    | none => some [x]
    | some y => (chase fuel y).map (x :: ·)

def Follows (x y : α) : Prop := next x = some y

def Leads (x y : α) : Prop := Relation.ReflTransGen (Follows next) x y

/-- `x` is reached again from itself. -/
def OnCycle (x : α) : Prop := Relation.TransGen (Follows next) x x

variable {next}

theorem Leads.cases_next {x y z : α} (h : Leads next x y) (hnext : next x = some z) :
    y = x ∨ Leads next z y := by
  rcases Relation.ReflTransGen.cases_head h with heq | ⟨z', hz', hrest⟩
  · exact .inl heq.symm
  · obtain rfl : z = z' := Option.some.inj (hnext.symm.trans hz')
    exact .inr hrest

theorem Leads.eq_of_none {x y : α} (h : Leads next x y) (hnone : next x = none) : y = x := by
  rcases Relation.ReflTransGen.cases_head h with heq | ⟨z, hz, -⟩
  · exact heq.symm
  · rw [Follows, hnone] at hz
    cases hz

/-- The elements from `x` on, to one without a next. -/
inductive ChaseOf (next : α → Option α) : α → List α → Prop
  | last {x : α} : next x = none → ChaseOf next x [x]
  | step {x y : α} {rest : List α} : next x = some y → ChaseOf next y rest → ChaseOf next x (x :: rest)

namespace ChaseOf

variable {x y : α} {l : List α}

theorem of_chase {fuel : Nat} (h : chase next fuel x = some l) : ChaseOf next x l := by
  induction fuel generalizing x l with
  | zero => cases h
  | succ fuel ih =>
    simp only [chase] at h
    split at h
    · next hnone =>
      cases h
      exact .last hnone
    · next y hy =>
      obtain ⟨rest, hrest, rfl⟩ := Option.map_eq_some_iff.mp h
      exact .step hy (ih hrest)

theorem head_eq (h : ChaseOf next x l) : ∃ rest, l = x :: rest := by
  cases h with
  | last => exact ⟨[], rfl⟩
  | step => exact ⟨_, rfl⟩

theorem isChain (h : ChaseOf next x l) : l.IsChain (Follows next) := by
  induction h with
  | last => exact List.isChain_singleton _
  | step hnext hrest ih =>
    obtain ⟨rest, rfl⟩ := hrest.head_eq
    exact List.isChain_cons_cons.mpr ⟨hnext, ih⟩

theorem getLast?_eq (h : ChaseOf next x l) (hy : y ∈ l) (hnone : next y = none) :
    l.getLast? = some y := by
  induction h with
  | last =>
    rw [List.mem_singleton.mp hy]
    rfl
  | step hnext hrest ih =>
    rcases List.mem_cons.mp hy with rfl | hy
    · rw [hnone] at hnext
      cases hnext
    · obtain ⟨rest, rfl⟩ := hrest.head_eq
      rw [List.getLast?_cons_cons]
      exact ih hy

theorem mem_iff (h : ChaseOf next x l) : y ∈ l ↔ Leads next x y := by
  induction h with
  | last hnone =>
    rw [List.mem_singleton]
    refine ⟨?_, fun hleads => hleads.eq_of_none hnone⟩
    rintro rfl
    exact .refl
  | step hnext _ ih =>
    rw [List.mem_cons, ih]
    refine ⟨?_, fun hleads => hleads.cases_next hnext⟩
    rintro (rfl | hleads)
    · exact .refl
    · exact .head hnext hleads

theorem not_onCycle (h : ChaseOf next x l) (hleads : Leads next x y) : ¬ OnCycle next y := by
  induction h generalizing y with
  | last hnone =>
    obtain rfl := hleads.eq_of_none hnone
    intro hcycle
    obtain ⟨z, hz, -⟩ := Relation.TransGen.head'_iff.mp hcycle
    rw [Follows, hnone] at hz
    cases hz
  | @step x z rest hnext _ ih =>
    rcases hleads.cases_next hnext with rfl | hleads
    · intro hcycle
      obtain ⟨z', hz', hback⟩ := Relation.TransGen.head'_iff.mp hcycle
      obtain rfl : z = z' := Option.some.inj (hnext.symm.trans hz')
      exact ih .refl (Relation.TransGen.tail' hback hnext)
    · exact ih hleads

theorem nodup (h : ChaseOf next x l) : l.Nodup := by
  induction h with
  | last => exact List.nodup_singleton _
  | @step x y rest hnext hrest ih =>
    refine List.nodup_cons.mpr ⟨fun hmem => ?_, ih⟩
    have hback : Leads next y x := hrest.mem_iff.mp hmem
    exact (ChaseOf.step hnext hrest).not_onCycle .refl (Relation.TransGen.head' hnext hback)

end ChaseOf

theorem exists_chase [DecidableEq α] {domain : List α} {x : α} (hx : x ∈ domain)
    (hclosed : ∀ y ∈ domain, ∀ z, next y = some z → z ∈ domain)
    (hcycle : ∀ y, Leads next x y → ¬ OnCycle next y) :
    ∃ l, chase next domain.length x = some l := by
  have haux : ∀ (n : Nat) (left : List α) (x : α), left.length = n → x ∈ left →
      (∀ y, Leads next x y → y ∈ left ∧ ¬ OnCycle next y) → ∃ l, chase next n x = some l := by
    intro n
    induction n with
    | zero =>
      intro left x hlength hmem _
      rw [List.length_eq_zero_iff.mp hlength] at hmem
      cases hmem
    | succ n ih =>
      intro left x hlength hmem hleads
      simp only [chase]
      split
      · exact ⟨_, rfl⟩
      · next y hy =>
        -- an element reached from the next one is not `x`, or `x` would lie on a cycle
        have hne : ∀ z, Leads next y z → z ≠ x := by
          rintro z hz rfl
          exact (hleads z .refl).2 (Relation.TransGen.head' hy hz)
        have hleads' : ∀ z, Leads next y z → z ∈ left.erase x ∧ ¬ OnCycle next z := by
          intro z hz
          obtain ⟨hmem', hcycle'⟩ := hleads z (.head hy hz)
          exact ⟨(List.mem_erase_of_ne (hne z hz)).mpr hmem', hcycle'⟩
        have hlength' : (left.erase x).length = n := by
          rw [List.length_erase_of_mem hmem]
          omega
        obtain ⟨l, hl⟩ := ih (left.erase x) y hlength' (hleads' y .refl).1 hleads'
        exact ⟨x :: l, by rw [hl]; rfl⟩
  have hin : ∀ y, Leads next x y → y ∈ domain := by
    intro y hy
    induction hy with
    | refl => exact hx
    | tail _ hstep ih => exact hclosed _ ih _ hstep
  exact haux domain.length domain x rfl hx fun y hy => ⟨hin y hy, hcycle y hy⟩

end Lib
