import Mathlib.Data.List.Basic

/-! Names of replica instances: `stage@rN` is composed from the name of a stage and an index, and split
again at its last separator. -/

namespace Config

/-- What `str.isdigit` and `int` make of a single character: superscripts are digits without a decimal
value, and the decimal digits of every script have one. -/
structure Digits where
  isDigit : Char → Bool
  decimal : Char → Option Nat
  ascii : ∀ c : Char, c.isDigit = true →
    isDigit c = true ∧ decimal c = some (c.toNat - '0'.toNat)

def asciiDigits : Digits where
  isDigit := Char.isDigit
  decimal c := if c.isDigit then some (c.toNat - '0'.toNat) else none
  ascii _ h := ⟨h, if_pos h⟩

/-- `int` of a text; `none` where it raises. -/
def Digits.int (digits : Digits) (text : List Char) : Option Nat :=
  text.foldlM (fun value c => (digits.decimal c).map (10 * value + ·)) 0

/-- `str.rpartition`: what is before and after the last separator, if there is one. -/
def rpartition (separator : List Char) : List Char → Option (List Char × List Char)
  | [] => none
  | c :: rest =>
    match rpartition separator rest with
    | some (before, after) => some (c :: before, after)
    | none =>
      if separator.isPrefixOf (c :: rest) then some ([], (c :: rest).drop separator.length) else none

def replicaSeparator : String := "@r"

def replicaInstanceName (logicalName : String) (replicaId : Nat) : String :=
  logicalName ++ replicaSeparator ++ toString replicaId

/-- Split `stage@rN` into the stage and `N`; nothing is returned where `int` raises. -/
def parseReplicaInstanceName (digits : Digits) (name : String) : Option (String × Option Nat) :=
  match rpartition replicaSeparator.toList name.toList with
  | none => some (name, none)
  | some (logical, suffix) =>
    if suffix.isEmpty || !suffix.all digits.isDigit then some (name, none)
    else (digits.int suffix).map fun replicaId => (String.ofList logical, some replicaId)

section

variable (digits : Digits)

theorem int_toDigits (replicaId : Nat) : digits.int (Nat.toDigits 10 replicaId) = some replicaId := by
  have hfold : ∀ (text : List Char) (value : Nat), (∀ c ∈ text, c.isDigit = true) →
      text.foldlM (fun value c => (digits.decimal c).map (10 * value + ·)) value =
        some (Nat.ofDigitChars 10 text value) := by
    intro text
    induction text with
    | nil =>
      intro value _
      rfl
    | cons c text ih =>
      intro value hdigits
      have hc := (digits.ascii c (hdigits c List.mem_cons_self)).2
      rw [List.foldlM_cons, hc, Nat.ofDigitChars_cons]
      exact ih _ fun d hd => hdigits d (List.mem_cons_of_mem _ hd)
  have hdigits : ∀ c ∈ Nat.toDigits 10 replicaId, c.isDigit = true := fun c hc =>
    Nat.isDigit_of_mem_toDigits (by decide) (Nat.le_refl 10) hc
  rw [Digits.int, hfold _ _ hdigits, Nat.ofDigitChars_ten_toDigits]

theorem rpartition_eq_none (text : List Char) (h : '@' ∉ text) :
    rpartition replicaSeparator.toList text = none := by
  induction text with
  | nil => rfl
  | cons c text ih =>
    have hc : c ≠ '@' := fun heq => h (heq ▸ List.mem_cons_self)
    have hsep : replicaSeparator.toList = ['@', 'r'] := by decide
    rw [rpartition, ih fun hmem => h (List.mem_cons_of_mem _ hmem), hsep]
    have hnot : List.isPrefixOf ['@', 'r'] (c :: text) = false := by
      simp [List.isPrefixOf, Ne.symm hc]
    simp only [hnot, Bool.false_eq_true, if_false]

theorem rpartition_append (name suffix : List Char) (h : '@' ∉ suffix) :
    rpartition replicaSeparator.toList (name ++ (replicaSeparator.toList ++ suffix)) =
      some (name, suffix) := by
  have hsep : replicaSeparator.toList = ['@', 'r'] := by decide
  induction name with
  | nil =>
    have hrest : rpartition replicaSeparator.toList ('r' :: suffix) = none :=
      rpartition_eq_none _ (by simp [h])
    rw [hsep] at hrest ⊢
    show rpartition ['@', 'r'] ('@' :: 'r' :: suffix) = _
    rw [rpartition, hrest]
    rfl
  | cons c name ih => rw [List.cons_append, rpartition, ih]

theorem parse_replicaInstanceName (logicalName : String) (replicaId : Nat) :
    parseReplicaInstanceName digits (replicaInstanceName logicalName replicaId) =
      some (logicalName, some replicaId) := by
  have hdigit : ∀ c ∈ Nat.toDigits 10 replicaId, c.isDigit = true := fun c hc =>
    Nat.isDigit_of_mem_toDigits (by decide) (Nat.le_refl 10) hc
  have hat : '@' ∉ Nat.toDigits 10 replicaId := fun hmem => absurd (hdigit '@' hmem) (by decide)
  have hlist : (replicaInstanceName logicalName replicaId).toList =
      logicalName.toList ++ (replicaSeparator.toList ++ Nat.toDigits 10 replicaId) := by
    rw [replicaInstanceName, String.toList_append, String.toList_append, List.append_assoc,
      Nat.toString_eq_repr, Nat.toList_repr]
  have hempty : (Nat.toDigits 10 replicaId).isEmpty = false := by
    rw [List.isEmpty_eq_false_iff]
    exact Nat.toDigits_ne_nil
  have hall : (Nat.toDigits 10 replicaId).all digits.isDigit = true := by
    rw [List.all_eq_true]
    exact fun c hc => (digits.ascii c (hdigit c hc)).1
  simp only [parseReplicaInstanceName, hlist, rpartition_append _ _ hat, hempty, hall, int_toDigits]
  simp

theorem replicaInstanceName_inj {name name' : String} {i j : Nat}
    (h : replicaInstanceName name i = replicaInstanceName name' j) : name = name' ∧ i = j := by
  have hparse := parse_replicaInstanceName asciiDigits name i
  rw [h, parse_replicaInstanceName] at hparse
  simp only [Option.some.injEq, Prod.mk.injEq] at hparse
  exact ⟨hparse.1.symm, hparse.2.symm⟩

end

end Config
