import Mathlib.Algebra.Order.Ring.Nat

/-! Regular expressions matched by backtracking: alternatives are tried in their order, and a repetition is
tried before its end. -/

namespace Lib

inductive Regex (α : Type) where
  | one (accepts : α → Bool)
  | seq (first second : Regex α)
  | alt (first second : Regex α)
  | star (repeated : Regex α)

namespace Regex

variable {α : Type}

def plus (r : Regex α) : Regex α := .seq r (.star r)

/-- What is left after each number of repetitions that get on, most preferred first. -/
def iterate (rests : List α → List (List α)) : ℕ → List α → List (List α)
  | 0, l => [l]
  | n + 1, l => ((rests l).filter (·.length < l.length)).flatMap (iterate rests n) ++ [l]

/-- What is left of a list after each match at its head, most preferred first. -/
def rests : Regex α → List α → List (List α)
  | .one _, [] => []
  | .one accepts, a :: l => if accepts a then [l] else []
  | .seq first second, l => (first.rests l).flatMap second.rests
  | .alt first second, l => first.rests l ++ second.rests l
  | .star repeated, l => iterate repeated.rests l.length l

def matchHead (r : Regex α) (l : List α) : Option (List α) := (r.rests l).head?

/-- The matches in a list whose head is at `position`, from left to right and without overlap, for an
expression that does not match the empty list. -/
def finditer (r : Regex α) (position : ℕ) (l : List α) : List (ℕ × List α) :=
  match l with
  | [] => []
  | a :: l =>
    match r.matchHead (a :: l) with
    | none => finditer r (position + 1) l
    | some rest =>
      if rest.length < (a :: l).length then
        (position, (a :: l).take ((a :: l).length - rest.length)) ::
          finditer r (position + ((a :: l).length - rest.length)) rest
      else finditer r (position + 1) l
termination_by l.length
decreasing_by
  · exact Nat.lt_succ_self _
  · assumption
  · exact Nat.lt_succ_self _

/-! ### The lists of an expression -/

inductive Accepts : Regex α → List α → Prop where
  | one {accepts : α → Bool} {a : α} (h : accepts a = true) : Accepts (.one accepts) [a]
  | seq {r s : Regex α} {l m : List α} (hl : Accepts r l) (hm : Accepts s m) :
      Accepts (.seq r s) (l ++ m)
  | first {r s : Regex α} {l : List α} (hl : Accepts r l) : Accepts (.alt r s) l
  | second {r s : Regex α} {l : List α} (hl : Accepts s l) : Accepts (.alt r s) l
  | none {r : Regex α} : Accepts (.star r) []
  | more {r : Regex α} {l m : List α} (hl : Accepts r l) (hm : Accepts (.star r) m) :
      Accepts (.star r) (l ++ m)

theorem accepts_of_mem_iterate {r : Regex α}
    (h : ∀ l, ∀ rest ∈ r.rests l, ∃ m, l = m ++ rest ∧ r.Accepts m) (n : ℕ) {l rest : List α}
    (hmem : rest ∈ iterate r.rests n l) : ∃ m, l = m ++ rest ∧ (Regex.star r).Accepts m := by
  induction n generalizing l with
  | zero =>
    obtain rfl := List.mem_singleton.mp hmem
    exact ⟨[], rfl, .none⟩
  | succ n ih =>
    rcases List.mem_append.mp hmem with hmem | hmem
    · obtain ⟨after, hafter, hrest⟩ := List.mem_flatMap.mp hmem
      obtain ⟨m, rfl, hm⟩ := h l after (List.mem_filter.mp hafter).1
      obtain ⟨m', rfl, hm'⟩ := ih hrest
      exact ⟨m ++ m', (List.append_assoc _ _ _).symm, .more hm hm'⟩
    · obtain rfl := List.mem_singleton.mp hmem
      exact ⟨[], rfl, .none⟩

theorem accepts_of_mem_rests (r : Regex α) (l : List α) :
    ∀ rest ∈ r.rests l, ∃ m, l = m ++ rest ∧ r.Accepts m := by
  induction r generalizing l with
  | one accepts =>
    intro rest hmem
    cases l with
    | nil => cases hmem
    | cons a l =>
      rw [rests] at hmem
      split at hmem
      · next ha =>
        obtain rfl := List.mem_singleton.mp hmem
        exact ⟨[a], rfl, .one ha⟩
      · cases hmem
  | seq first second ihFirst ihSecond =>
    intro rest hmem
    obtain ⟨after, hafter, hrest⟩ := List.mem_flatMap.mp hmem
    obtain ⟨m, rfl, hm⟩ := ihFirst l after hafter
    obtain ⟨m', rfl, hm'⟩ := ihSecond after rest hrest
    exact ⟨m ++ m', (List.append_assoc _ _ _).symm, .seq hm hm'⟩
  | alt first second ihFirst ihSecond =>
    intro rest hmem
    rcases List.mem_append.mp hmem with hmem | hmem
    · obtain ⟨m, hl, hm⟩ := ihFirst l rest hmem
      exact ⟨m, hl, .first hm⟩
    · obtain ⟨m, hl, hm⟩ := ihSecond l rest hmem
      exact ⟨m, hl, .second hm⟩
  | star repeated ih =>
    intro rest hmem
    exact accepts_of_mem_iterate ih l.length hmem

theorem accepts_of_matchHead {r : Regex α} {l rest : List α} (h : r.matchHead l = some rest) :
    ∃ m, l = m ++ rest ∧ r.Accepts m :=
  r.accepts_of_mem_rests l rest (List.mem_of_mem_head? h)

theorem exists_matchHead_star (r : Regex α) (l : List α) :
    ∃ rest, (Regex.star r).matchHead l = some rest := by
  rw [matchHead, rests]
  cases hrests : iterate r.rests l.length l with
  | nil => cases l <;> simp [iterate] at hrests
  | cons rest others => exact ⟨rest, rfl⟩

theorem accepts_star_one {accepts : α → Bool} {l : List α}
    (hl : (Regex.star (.one accepts)).Accepts l) : ∀ a ∈ l, accepts a = true := by
  generalize hr : Regex.star (.one accepts) = r at hl
  induction hl with
  | one | seq | first | second => cases hr
  | none => exact nofun
  | more hl hm _ ih =>
    cases hr
    cases hl with
    | one ha =>
      intro b hb
      rcases List.mem_cons.mp hb with rfl | hb
      · exact ha
      · exact ih rfl b hb

theorem finditer_induction {r : Regex α} {P : ℕ → List α → List (ℕ × List α) → Prop}
    (nil : ∀ position, P position [] [])
    (skip : ∀ position a l found, P (position + 1) l found → P position (a :: l) found)
    (hit : ∀ position m rest found, r.Accepts m → m ≠ [] → P (position + m.length) rest found →
      P position (m ++ rest) ((position, m) :: found))
    (position : ℕ) (l : List α) : P position l (r.finditer position l) := by
  induction position, l using finditer.induct r with
  | case1 position =>
    rw [finditer]
    exact nil position
  | case2 position a l hnone ih =>
    rw [finditer, hnone]
    exact skip position a l _ ih
  | case3 position a l rest hsome hlt ih =>
    rw [finditer, hsome]
    simp only
    rw [if_pos hlt]
    obtain ⟨m, hl, hm⟩ := accepts_of_matchHead hsome
    rw [hl, List.length_append, Nat.add_sub_cancel, List.take_left]
    apply hit position m rest _ hm
    · rintro rfl
      rw [hl] at hlt
      exact absurd hlt (lt_irrefl _)
    · rw [hl, List.length_append, Nat.add_sub_cancel] at ih
      exact ih
  | case4 position a l rest hsome hge ih =>
    rw [finditer, hsome]
    simp only
    rw [if_neg hge]
    exact skip position a l _ ih

/-! ### How the lists of an expression end -/

/-- No list of the expression is empty, and the last element of each is one of `p`. -/
def EndsIn (r : Regex α) (p : α → Prop) : Prop :=
  ∀ l, r.Accepts l → ∃ before a, l = before ++ [a] ∧ p a

namespace EndsIn

variable {r s : Regex α} {p : α → Prop}

theorem one {accepts : α → Bool} (h : ∀ a, accepts a = true → p a) :
    (Regex.one accepts).EndsIn p := by
  intro l hl
  cases hl with
  | one ha => exact ⟨[], _, rfl, h _ ha⟩

theorem alt (hr : r.EndsIn p) (hs : s.EndsIn p) : (Regex.alt r s).EndsIn p := by
  intro l hl
  cases hl with
  | first hl => exact hr l hl
  | second hl => exact hs l hl

theorem seq (hs : s.EndsIn p) : (Regex.seq r s).EndsIn p := by
  intro l hl
  cases hl with
  | seq hl hm =>
    obtain ⟨before, a, rfl, ha⟩ := hs _ hm
    exact ⟨_, a, (List.append_assoc _ _ _).symm, ha⟩

theorem star (hs : s.EndsIn p) {l : List α} (hl : (Regex.star s).Accepts l) :
    l = [] ∨ ∃ before a, l = before ++ [a] ∧ p a := by
  generalize hr : Regex.star s = r at hl
  induction hl with
  | one | seq | first | second => cases hr
  | none => exact .inl rfl
  | more hl hm _ ih =>
    cases hr
    rcases ih rfl with rfl | ⟨before, a, rfl, ha⟩
    · rw [List.append_nil]
      exact .inr (hs _ hl)
    · exact .inr ⟨_, a, (List.append_assoc _ _ _).symm, ha⟩

theorem seq_star (hr : r.EndsIn p) (hs : s.EndsIn p) :
    (Regex.seq r (.star s)).EndsIn p := by
  intro l hl
  cases hl with
  | seq hl hm =>
    rcases hs.star hm with rfl | ⟨before, a, rfl, ha⟩
    · rw [List.append_nil]
      exact hr _ hl
    · exact ⟨_, a, (List.append_assoc _ _ _).symm, ha⟩

theorem plus (hr : r.EndsIn p) : r.plus.EndsIn p := hr.seq_star hr

end EndsIn

end Regex

end Lib
