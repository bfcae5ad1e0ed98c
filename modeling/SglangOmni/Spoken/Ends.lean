import Mathlib.Data.List.Basic
import Mathlib.Data.List.Flatten
import Mathlib.Data.List.Pairwise
import SglangOmni.Spoken.Units

/-! Where the units of a text end: each behind the one before and behind a character of a word. -/

namespace Spoken

open Lib

variable {t : CharacterTables} {matched text : List Char} {start : ℕ} {unit : NormalizedUnit}

theorem textUnits_endsIn : (textUnits t).EndsIn fun c => t.isWord c = true := by
  have hdecimal : (Regex.one t.isDecimal).plus.EndsIn fun c => t.isWord c = true :=
    (Regex.EndsIn.one t.word_of_decimal).plus
  have hletter : (Regex.one Char.isAlpha).plus.EndsIn fun c => t.isWord c = true :=
    (Regex.EndsIn.one t.word_of_letter).plus
  have hchinese : (Regex.one isChineseNumeral).plus.EndsIn fun c => t.isWord c = true :=
    (Regex.EndsIn.one t.word_of_chinese).plus
  have hword : (Regex.one fun c => t.isWord c && c != '_').EndsIn fun c => t.isWord c = true :=
    Regex.EndsIn.one fun c hc => (Bool.and_eq_true_iff.mp hc).1
  exact (hdecimal.seq_star hdecimal.seq).alt (hchinese.alt ((hletter.seq_star hletter.seq).alt hword))

theorem casefold_chinese (h : (matched.flatMap t.casefold).all isChineseNumeral = true) :
    matched.flatMap t.casefold = matched := by
  induction matched with
  | nil => rfl
  | cons c matched ih =>
    rw [List.flatMap_cons, List.all_append, Bool.and_eq_true] at h
    obtain ⟨d, rest, hfold⟩ := List.exists_cons_of_ne_nil (t.casefold_ne_nil c)
    have hc : t.casefold c = [c] := by
      apply t.casefold_chinese
      refine ⟨d, by rw [hfold]; exact List.mem_cons_self, ?_⟩
      exact List.all_eq_true.mp h.1 d (by rw [hfold]; exact List.mem_cons_self)
    rw [List.flatMap_cons, hc, ih h.2]
    rfl

theorem all_chinese_of_digits {token : List Char} (h : token.all isChineseDigit = true) :
    token.all isChineseNumeral = true := by
  rw [List.all_eq_true] at h ⊢
  intro c hc
  rw [isChineseNumeral, h c hc, Bool.true_or]

theorem all_chinese_of_countsToTen {token : List Char} (h : countsToTen token = true) :
    token.all isChineseNumeral = true ∧ token = token.dropLast ++ ['十'] := by
  simp only [countsToTen, Bool.and_eq_true, beq_iff_eq] at h
  obtain ⟨⟨⟨hlast, -⟩, hdigits⟩, -⟩ := h
  have heq : token = token.dropLast ++ ['十'] :=
    (List.dropLast_append_getLast? '十' hlast).symm
  refine ⟨?_, heq⟩
  rw [heq, List.all_append, all_chinese_of_digits hdigits]
  rfl

/-- `endChars` is a position within a match, behind a character of a word. -/
def Within (t : CharacterTables) (start : ℕ) (matched : List Char) (endChars : ℕ) : Prop :=
  start < endChars ∧ ∃ c, matched[endChars - start - 1]? = some c ∧ t.isWord c = true

structure Follow (t : CharacterTables) (start : ℕ) (matched : List Char)
    (units : List NormalizedUnit) : Prop where
  increasing : units.Pairwise fun unit next => unit.endChars < next.endChars
  within : ∀ unit ∈ units, Within t start matched unit.endChars
  complete : ∀ unit ∈ units, unit.isComplete = true

theorem Within.le (h : Within t start matched unit.endChars) :
    unit.endChars ≤ start + matched.length := by
  obtain ⟨hlt, c, hc, -⟩ := h
  have hlength := (List.getElem?_eq_some_iff.mp hc).1
  omega

theorem within_stop {before : List Char} {c : Char} (hc : t.isWord c = true) :
    Within t start (before ++ [c]) (start + (before ++ [c]).length) := by
  refine ⟨by simp, c, ?_, hc⟩
  have hindex : start + (before ++ [c]).length - start - 1 = before.length := by
    rw [List.length_append]
    simp
  rw [hindex, List.getElem?_concat_length]

variable (t start) in
theorem follow_digits {token : List Char} (rest : List Char) (h : token.all isChineseDigit = true) :
    Follow t start (token ++ rest) (token.zipIdx.map fun (c, index) => digitUnit t start c index) where
  increasing := by
    rw [List.pairwise_map]
    have hindices : (token.zipIdx.map Prod.snd).Pairwise (· < ·) := by
      rw [List.zipIdx_map_snd]
      exact List.pairwise_lt_range'
    rw [List.pairwise_map] at hindices
    apply hindices.imp
    intro first second hlt
    show start + first.2 + 1 < start + second.2 + 1
    omega
  within := by
    intro unit hunit
    obtain ⟨⟨c, index⟩, hmem, rfl⟩ := List.mem_map.mp hunit
    have hget := List.mem_zipIdx_iff_getElem?.mp hmem
    have hindex : start + index + 1 - start - 1 = index := by omega
    refine ⟨show start < start + index + 1 by omega, c, ?_, ?_⟩
    · show (token ++ rest)[start + index + 1 - start - 1]? = some c
      rw [hindex, List.getElem?_append_left (List.getElem?_eq_some_iff.mp hget).1]
      exact hget
    · apply t.word_of_chinese
      have hdigit := List.all_eq_true.mp h c (List.mem_of_getElem? hget)
      rw [isChineseNumeral, hdigit, Bool.true_or]
  complete := by
    intro unit hunit
    obtain ⟨⟨c, index⟩, -, rfl⟩ := List.mem_map.mp hunit
    rfl

theorem follow_single {before : List Char} {c : Char} (hc : t.isWord c = true)
    (hends : unit.endChars = start + (before ++ [c]).length) (hcomplete : unit.isComplete = true) :
    Follow t start (before ++ [c]) [unit] where
  increasing := List.pairwise_singleton _ _
  within := by
    intro other hother
    obtain rfl := List.mem_singleton.mp hother
    rw [hends]
    exact within_stop hc
  complete := by
    intro other hother
    obtain rfl := List.mem_singleton.mp hother
    exact hcomplete

theorem Follow.concat {before : List Char} {c : Char} {units : List NormalizedUnit}
    (h : Follow t start before units) (hc : t.isWord c = true)
    (hends : unit.endChars = start + (before ++ [c]).length) (hcomplete : unit.isComplete = true) :
    Follow t start (before ++ [c]) (units ++ [unit]) where
  increasing := by
    refine List.pairwise_append.mpr ⟨h.increasing, List.pairwise_singleton _ _, ?_⟩
    intro first hfirst second hsecond
    obtain rfl := List.mem_singleton.mp hsecond
    have hle := (h.within first hfirst).le
    rw [hends, List.length_append, List.length_singleton]
    omega
  within := by
    intro other hother
    rcases List.mem_append.mp hother with hother | hother
    · obtain ⟨hlt, d, hd, hword⟩ := h.within other hother
      refine ⟨hlt, d, ?_, hword⟩
      rw [List.getElem?_append_left (List.getElem?_eq_some_iff.mp hd).1]
      exact hd
    · obtain rfl := List.mem_singleton.mp hother
      rw [hends]
      exact within_stop hc
  complete := by
    intro other hother
    rcases List.mem_append.mp hother with hother | hother
    · exact h.complete other hother
    · obtain rfl := List.mem_singleton.mp hother
      exact hcomplete

variable (start) in
theorem follow_unitsOfMatch (before : List Char) {c : Char} (hc : t.isWord c = true) :
    Follow t start (before ++ [c]) (unitsOfMatch t start (before ++ [c])) := by
  unfold unitsOfMatch
  simp only
  split
  · exact follow_single hc rfl rfl
  · split
    · next hdigits =>
      have hsame := casefold_chinese (all_chinese_of_digits hdigits)
      rw [hsame] at hdigits ⊢
      have hfollow := follow_digits t start [] hdigits
      rw [List.append_nil] at hfollow
      exact hfollow
    · split
      · next hcounts =>
        obtain ⟨hall, heq⟩ := all_chinese_of_countsToTen hcounts
        have hsame := casefold_chinese hall
        rw [hsame] at hcounts heq ⊢
        rw [List.dropLast_concat]
        simp only [countsToTen, Bool.and_eq_true, List.dropLast_concat] at hcounts
        have hfollow := follow_digits t start [] hcounts.1.2
        rw [List.append_nil] at hfollow
        exact hfollow.concat hc rfl rfl
      · split
        · exact follow_single hc rfl rfl
        · exact follow_single hc rfl rfl

theorem Within.around {before rest : List Char} {endChars : ℕ}
    (h : Within t before.length matched endChars) :
    Within t 0 (before ++ (matched ++ rest)) endChars := by
  obtain ⟨hlt, c, hc, hword⟩ := h
  refine ⟨Nat.zero_lt_of_lt hlt, c, ?_, hword⟩
  have hindex : endChars - 0 - 1 - before.length = endChars - before.length - 1 := by omega
  rw [List.getElem?_append_right (by omega), hindex,
    List.getElem?_append_left (List.getElem?_eq_some_iff.mp hc).1]
  exact hc

structure FollowFrom (t : CharacterTables) (text : List Char) (position : ℕ)
    (found : List (ℕ × List Char)) : Prop where
  follow : Follow t 0 text (found.flatMap fun (start, matched) => unitsOfMatch t start matched)
  after : ∀ unit ∈ found.flatMap fun (start, matched) => unitsOfMatch t start matched,
    position < unit.endChars

theorem FollowFrom.cons {before rest m : List Char} {c : Char} {found : List (ℕ × List Char)}
    (hc : t.isWord c = true)
    (h : FollowFrom t (before ++ (m ++ [c] ++ rest)) (before.length + (m ++ [c]).length) found) :
    FollowFrom t (before ++ (m ++ [c] ++ rest)) before.length
      ((before.length, m ++ [c]) :: found) := by
  have hhere := follow_unitsOfMatch before.length m hc
  refine ⟨⟨?_, ?_, ?_⟩, ?_⟩
  · rw [List.flatMap_cons]
    refine List.pairwise_append.mpr ⟨hhere.increasing, h.follow.increasing, ?_⟩
    intro first hfirst second hsecond
    exact (hhere.within first hfirst).le.trans_lt (h.after second hsecond)
  · intro unit hunit
    rcases List.mem_append.mp hunit with hunit | hunit
    · exact (hhere.within unit hunit).around
    · exact h.follow.within unit hunit
  · intro unit hunit
    rcases List.mem_append.mp hunit with hunit | hunit
    · exact hhere.complete unit hunit
    · exact h.follow.complete unit hunit
  · intro unit hunit
    rcases List.mem_append.mp hunit with hunit | hunit
    · exact (hhere.within unit hunit).1
    · exact (Nat.le_add_right _ _).trans_lt (h.after unit hunit)

variable (t text) in
theorem follow_normalizedUnits : Follow t 0 text (normalizedUnits t text) := by
  have hrun := Regex.finditer_induction (r := textUnits t)
    (P := fun position l found => ∀ before : List Char, before.length = position →
      FollowFrom t (before ++ l) position found)
    (fun _ _ _ => ⟨⟨.nil, nofun, nofun⟩, nofun⟩) ?_ ?_ 0 text [] rfl
  · exact hrun.follow
  · intro position c l found ih before hbefore
    have hnext := ih (before ++ [c]) (by rw [List.length_append, hbefore, List.length_singleton])
    rw [List.append_assoc] at hnext
    exact ⟨hnext.follow, fun unit hunit => Nat.lt_of_succ_lt (hnext.after unit hunit)⟩
  · intro position m rest found hm _ ih before hbefore
    subst hbefore
    obtain ⟨front, c, rfl, hc⟩ := textUnits_endsIn m hm
    have hnext := ih (before ++ (front ++ [c])) List.length_append
    rw [List.append_assoc] at hnext
    exact .cons hc hnext

end Spoken
