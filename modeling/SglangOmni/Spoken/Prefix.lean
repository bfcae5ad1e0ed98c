import SglangOmni.Spoken.Ends

/-! How far a transcript says a text: what is covered are units that the transcript has said, a text says
itself in full, and hearing more takes nothing back. -/

namespace Spoken

open Lib

/-! ### Matching -/

/-- The text of the unit in hand, unless units are being joined: `source_text or source.text`. -/
def orText (joined : List Char) (unit : NormalizedUnit) : List Char :=
  if joined = [] then unit.text else joined

def matchLoop (sourceUnits heardUnits : List NormalizedUnit) (sourceText heardText : List Char)
    (endChars : ℕ) : ℕ :=
  match sourceUnits, heardUnits with
  | source :: laterSource, heard :: laterHeard =>
    let sourceText := orText sourceText source
    let heardText := orText heardText heard
    if sourceText = heardText then
      matchLoop laterSource laterHeard [] []
        (if source.isComplete && heard.isComplete then source.endChars else endChars)
    else if sourceText <+: heardText ∧ heard.hasJoiner = true then
      match laterSource with
      | [] => endChars
      | next :: later =>
        matchLoop (next :: later) (heard :: laterHeard) (sourceText ++ next.text) heardText endChars
    else if heardText <+: sourceText ∧ source.hasJoiner = true then
      match laterHeard with
      | [] => endChars
      | next :: later =>
        matchLoop (source :: laterSource) (next :: later) sourceText (heardText ++ next.text) endChars
    else endChars
  | _, _ => endChars
termination_by sourceUnits.length + heardUnits.length

def matchedPrefixEnd (sourceUnits heardUnits : List NormalizedUnit) : ℕ :=
  matchLoop sourceUnits heardUnits [] [] 0

variable (t : CharacterTables)

def spokenPrefixEnd (text transcript : List Char) : ℕ :=
  let endChars := matchedPrefixEnd (normalizedUnits t text) (normalizedUnits t transcript)
  if endChars = 0 then 0
  else
    let rest := ((trailingPunctuation t).matchHead (text.drop endChars)).getD (text.drop endChars)
    text.length - rest.length

/-! ### What is covered was said -/

def textOf (units : List NormalizedUnit) : List Char := units.flatMap (·.text)

/-- The texts of the first units, where those in hand stand for the first of them. -/
def textFrom (joined : List Char) : List NormalizedUnit → ℕ → List Char
  | [], _ => []
  | _, 0 => []
  | unit :: units, n + 1 => orText joined unit ++ textOf (units.take n)

def Says (sourceUnits heardUnits : List NormalizedUnit) (sourceText heardText : List Char)
    (endChars result : ℕ) : Prop :=
  result = endChars ∨ ∃ n m unit, sourceUnits[n]? = some unit ∧ unit.endChars = result ∧
    textFrom sourceText sourceUnits (n + 1) = textFrom heardText heardUnits m

theorem textFrom_nil (units : List NormalizedUnit) (n : ℕ) :
    textFrom [] units n = textOf (units.take n) := by
  cases units with
  | nil => rw [List.take_nil]; rfl
  | cons unit units =>
    cases n with
    | zero => rfl
    | succ n => rfl

theorem textFrom_orText (joined : List Char) (unit : NormalizedUnit) (units : List NormalizedUnit)
    (n : ℕ) : textFrom (orText joined unit) (unit :: units) n = textFrom joined (unit :: units) n := by
  have hsame : orText (orText joined unit) unit = orText joined unit := by
    unfold orText
    split <;> simp_all
  cases n with
  | zero => rfl
  | succ n => rw [textFrom, textFrom, hsame]

theorem textFrom_join (joined : List Char) (unit next : NormalizedUnit)
    (later : List NormalizedUnit) (n : ℕ) :
    textFrom (orText joined unit ++ next.text) (next :: later) (n + 1) =
      textFrom joined (unit :: next :: later) (n + 2) := by
  have hsame : orText (orText joined unit ++ next.text) next = orText joined unit ++ next.text := by
    generalize orText joined unit = text
    unfold orText
    split
    · next hnil =>
      rw [hnil]
      exact (List.append_eq_nil_iff.mp hnil).2
    · rfl
  rw [textFrom, textFrom, hsame, List.append_assoc]
  rfl

section Loop

variable {source heard next : NormalizedUnit}
  {sourceUnits heardUnits laterSource laterHeard later : List NormalizedUnit}
  {sourceText heardText : List Char} {endChars result : ℕ}

theorem matchLoop_commit (hsame : orText sourceText source = orText heardText heard) :
    matchLoop (source :: laterSource) (heard :: laterHeard) sourceText heardText endChars =
      matchLoop laterSource laterHeard [] []
        (if source.isComplete && heard.isComplete then source.endChars else endChars) := by
  conv_lhs => unfold matchLoop
  exact if_pos hsame

theorem matchLoop_joinSource (hne : orText sourceText source ≠ orText heardText heard)
    (hjoin : orText sourceText source <+: orText heardText heard ∧ heard.hasJoiner = true) :
    matchLoop (source :: next :: later) (heard :: laterHeard) sourceText heardText endChars =
      matchLoop (next :: later) (heard :: laterHeard) (orText sourceText source ++ next.text)
        (orText heardText heard) endChars := by
  conv_lhs => unfold matchLoop
  exact (if_neg hne).trans (if_pos hjoin)

theorem matchLoop_joinHeard (hne : orText sourceText source ≠ orText heardText heard)
    (hnot : ¬(orText sourceText source <+: orText heardText heard ∧ heard.hasJoiner = true))
    (hjoin : orText heardText heard <+: orText sourceText source ∧ source.hasJoiner = true) :
    matchLoop (source :: laterSource) (heard :: next :: later) sourceText heardText endChars =
      matchLoop (source :: laterSource) (next :: later) (orText sourceText source)
        (orText heardText heard ++ next.text) endChars := by
  conv_lhs => unfold matchLoop
  exact (if_neg hne).trans ((if_neg hnot).trans (if_pos hjoin))

theorem Says.commit (hsame : orText sourceText source = orText heardText heard)
    (h : Says laterSource laterHeard [] []
      (if (source.isComplete && heard.isComplete) = true then source.endChars else endChars) result) :
    Says (source :: laterSource) (heard :: laterHeard) sourceText heardText endChars result := by
  rcases h with h | ⟨n, m, unit, hunit, hends, htexts⟩
  · split at h
    · refine .inr ⟨0, 1, source, rfl, h.symm, ?_⟩
      rw [textFrom, textFrom, hsame]
      rfl
    · exact .inl h
  · refine .inr ⟨n + 1, m + 1, unit, hunit, hends, ?_⟩
    rw [textFrom_nil, textFrom_nil] at htexts
    rw [textFrom, textFrom, hsame, htexts]

theorem Says.joinSource
    (h : Says (next :: later) (heard :: laterHeard) (orText sourceText source ++ next.text)
      (orText heardText heard) endChars result) :
    Says (source :: next :: later) (heard :: laterHeard) sourceText heardText endChars result := by
  rcases h with h | ⟨n, m, unit, hunit, hends, htexts⟩
  · exact .inl h
  · refine .inr ⟨n + 1, m, unit, hunit, hends, ?_⟩
    rw [textFrom_join, textFrom_orText] at htexts
    exact htexts

theorem Says.joinHeard
    (h : Says (source :: laterSource) (next :: later) (orText sourceText source)
      (orText heardText heard ++ next.text) endChars result) :
    Says (source :: laterSource) (heard :: next :: later) sourceText heardText endChars result := by
  rcases h with h | ⟨n, m, unit, hunit, hends, htexts⟩
  · exact .inl h
  · rw [textFrom_orText] at htexts
    cases m with
    | zero => exact .inr ⟨n, 0, unit, hunit, hends, htexts⟩
    | succ m =>
      rw [textFrom_join] at htexts
      exact .inr ⟨n, m + 2, unit, hunit, hends, htexts⟩

variable (sourceUnits heardUnits sourceText heardText endChars) in
theorem matchLoop_says : Says sourceUnits heardUnits sourceText heardText endChars
    (matchLoop sourceUnits heardUnits sourceText heardText endChars) := by
  fun_induction matchLoop sourceUnits heardUnits sourceText heardText endChars with
  | case1 _ _ _ _ _ _ _ _ _ hsame ih => exact .commit hsame ih
  | case2 => exact .inl rfl
  | case3 _ _ _ _ _ _ _ _ _ _ _ _ ih => exact .joinSource ih
  | case4 => exact .inl rfl
  | case5 _ _ _ _ _ _ _ _ _ _ _ _ _ ih => exact .joinHeard ih
  | case6 => exact .inl rfl
  | case7 => exact .inl rfl

theorem le_matchLoop (hle : ∀ unit ∈ sourceUnits, endChars ≤ unit.endChars) :
    endChars ≤ matchLoop sourceUnits heardUnits sourceText heardText endChars := by
  rcases matchLoop_says sourceUnits heardUnits sourceText heardText endChars with
    h | ⟨n, m, unit, hunit, hends, -⟩
  · exact h.ge
  · rw [← hends]
    exact hle unit (List.mem_of_getElem? hunit)

variable (heardUnits sourceText heardText) in
theorem matchLoop_mono (more : List NormalizedUnit)
    (hgrow : sourceUnits.Pairwise fun unit next => unit.endChars ≤ next.endChars)
    (hle : ∀ unit ∈ sourceUnits, endChars ≤ unit.endChars) :
    matchLoop sourceUnits heardUnits sourceText heardText endChars ≤
      matchLoop sourceUnits (heardUnits ++ more) sourceText heardText endChars := by
  fun_induction matchLoop sourceUnits heardUnits sourceText heardText endChars with
  | case1 _ _ _ source laterSource _ _ _ _ hsame ih =>
    rw [List.cons_append, matchLoop_commit hsame]
    obtain ⟨hfirst, hlater⟩ := List.pairwise_cons.mp hgrow
    apply ih hlater
    intro unit hunit
    split
    · exact hfirst unit hunit
    · exact hle unit (List.mem_cons_of_mem _ hunit)
  | case2 => exact le_matchLoop hle
  | case3 _ _ _ _ _ _ _ _ hne hjoin _ _ ih =>
    rw [List.cons_append, matchLoop_joinSource hne hjoin]
    exact ih (List.pairwise_cons.mp hgrow).2 fun unit hunit => hle unit (List.mem_cons_of_mem _ hunit)
  | case4 => exact le_matchLoop hle
  | case5 _ _ _ _ _ _ _ _ hne hnot hjoin _ _ ih =>
    rw [List.cons_append, List.cons_append, matchLoop_joinHeard hne hnot hjoin]
    exact ih hgrow hle
  | case6 => exact le_matchLoop hle
  | case7 => exact le_matchLoop hle

theorem matchLoop_self {units : List NormalizedUnit}
    (hgrow : units.Pairwise fun unit next => unit.endChars ≤ next.endChars)
    (hcomplete : ∀ unit ∈ units, unit.isComplete = true) :
    ∀ unit ∈ units, unit.endChars ≤ matchLoop units units [] [] endChars := by
  induction units generalizing endChars with
  | nil => exact nofun
  | cons first units ih =>
    obtain ⟨hfirst, hlater⟩ := List.pairwise_cons.mp hgrow
    intro unit hunit
    rw [matchLoop_commit rfl, hcomplete first List.mem_cons_self]
    rcases List.mem_cons.mp hunit with rfl | hunit
    · exact le_matchLoop hfirst
    · exact ih hlater (fun unit hunit => hcomplete unit (List.mem_cons_of_mem _ hunit)) unit hunit

end Loop

/-! ### Offsets in the text -/

variable {t} {text : List Char}

theorem filter_le_eq_take {units : List NormalizedUnit} (h : Follow t 0 text units) {n : ℕ}
    {unit : NormalizedUnit} (hunit : units[n]? = some unit) {stop : ℕ} (hstop : unit.endChars ≤ stop)
    (hbetween : ∀ i, unit.endChars ≤ i → i < stop → ∀ c, text[i]? = some c → t.isWord c = false) :
    units.filter (·.endChars ≤ stop) = units.take (n + 1) := by
  have hsplit : units = units.take n ++ unit :: units.drop (n + 1) := by
    obtain ⟨hlt, hget⟩ := List.getElem?_eq_some_iff.mp hunit
    rw [← hget, ← List.drop_eq_getElem_cons hlt, List.take_append_drop]
  have hincreasing := h.increasing
  rw [hsplit, List.pairwise_append, List.pairwise_cons] at hincreasing
  obtain ⟨-, ⟨hlater, -⟩, hbefore⟩ := hincreasing
  have htake : units.take (n + 1) = units.take n ++ [unit] := by
    rw [List.take_add_one, hunit]
    rfl
  have hrest : ∀ other ∈ units.drop (n + 1), ¬other.endChars ≤ stop := by
    intro other hother hle
    obtain ⟨hpos, c, hc, hword⟩ := h.within other (List.mem_of_mem_drop hother)
    have hlt := hlater other hother
    rw [hbetween _ (by omega) (by omega) c hc] at hword
    cases hword
  conv => lhs; rw [hsplit]
  rw [List.filter_append, List.filter_cons_of_pos (by simpa using hstop),
    List.filter_eq_self.mpr, List.filter_eq_nil_iff.mpr, htake]
  · intro other hother
    simpa using hrest other hother
  · intro other hother
    have hlt := hbefore other hother unit List.mem_cons_self
    simp only [decide_eq_true_eq]
    omega

theorem punctuation {endChars : ℕ} (hle : endChars ≤ text.length) :
    ∃ stop, text.length - (((trailingPunctuation t).matchHead (text.drop endChars)).getD
        (text.drop endChars)).length = stop ∧ endChars ≤ stop ∧ stop ≤ text.length ∧
      ∀ i, endChars ≤ i → i < stop → ∀ c, text[i]? = some c → t.isWord c = false := by
  obtain ⟨rest, hrest⟩ := Regex.exists_matchHead_star
    (.one fun c => !t.isWord c && !t.isSpace c) (text.drop endChars)
  obtain ⟨m, hsplit, hm⟩ := Regex.accepts_of_matchHead hrest
  have hlength := congrArg List.length hsplit
  rw [List.length_append, List.length_drop] at hlength
  refine ⟨endChars + m.length, ?_, Nat.le_add_right _ _, by omega, ?_⟩
  · rw [trailingPunctuation, hrest, Option.getD_some]
    omega
  · intro i hlow hhigh c hc
    have hget : m[i - endChars]? = some c := by
      have hwhole : (m ++ rest)[i - endChars]? = some c := by
        rw [← hsplit, List.getElem?_drop, Nat.add_sub_cancel' hlow]
        exact hc
      rw [List.getElem?_append_left (by omega)] at hwhole
      exact hwhole
    have hclass := Regex.accepts_star_one hm c (List.mem_of_getElem? hget)
    simpa using (Bool.and_eq_true_iff.mp hclass).1

variable (t)

theorem matchedPrefixEnd_le_length (text transcript : List Char) :
    matchedPrefixEnd (normalizedUnits t text) (normalizedUnits t transcript) ≤ text.length := by
  rcases matchLoop_says (normalizedUnits t text) (normalizedUnits t transcript) [] [] 0 with
    hzero | ⟨n, m, unit, hunit, hends, -⟩
  · exact hzero.le.trans (Nat.zero_le _)
  · rw [matchedPrefixEnd, ← hends]
    simpa using ((follow_normalizedUnits t text).within unit (List.mem_of_getElem? hunit)).le

theorem matchedPrefixEnd_le (text transcript : List Char) :
    matchedPrefixEnd (normalizedUnits t text) (normalizedUnits t transcript) ≤
      spokenPrefixEnd t text transcript := by
  unfold spokenPrefixEnd
  simp only
  split
  · next hzero => exact hzero.le
  · obtain ⟨stop, hstop, hle, -, -⟩ :=
      punctuation (t := t) (matchedPrefixEnd_le_length t text transcript)
    rw [hstop]
    exact hle

theorem spokenPrefixEnd_cover (text transcript : List Char) :
    spokenPrefixEnd t text transcript ≤ text.length ∧
      ∃ n, textOf ((normalizedUnits t text).filter
          (·.endChars ≤ spokenPrefixEnd t text transcript)) =
        textOf ((normalizedUnits t transcript).take n) := by
  have hfollow := follow_normalizedUnits t text
  unfold spokenPrefixEnd matchedPrefixEnd
  simp only
  rcases matchLoop_says (normalizedUnits t text) (normalizedUnits t transcript) [] [] 0 with
    hzero | ⟨n, m, unit, hunit, hends, htexts⟩
  · rw [if_pos hzero]
    refine ⟨Nat.zero_le _, 0, ?_⟩
    rw [List.filter_eq_nil_iff.mpr]
    · rfl
    · intro unit hunit
      simpa using (hfollow.within unit hunit).1.ne'
  · have hwithin := hfollow.within unit (List.mem_of_getElem? hunit)
    have hle : unit.endChars ≤ text.length := by simpa using hwithin.le
    rw [← hends, if_neg hwithin.1.ne']
    obtain ⟨stop, hstop, hlow, hhigh, hbetween⟩ := punctuation hle
    rw [hstop]
    refine ⟨hhigh, m, ?_⟩
    rw [filter_le_eq_take hfollow hunit hlow hbetween, ← textFrom_nil, ← textFrom_nil]
    exact htexts

/-- What is covered of a text lies within it, and its units are those of the first units of the transcript.
A text covers itself, and hearing more units takes back none of what was covered, for units that end one
behind the other as those of a text do. -/
theorem spokenPrefixEnd_says (text transcript : List Char) :
    spokenPrefixEnd t text transcript ≤ text.length ∧
      (∃ n, textOf ((normalizedUnits t text).filter
          (·.endChars ≤ spokenPrefixEnd t text transcript)) =
        textOf ((normalizedUnits t transcript).take n)) ∧
      (∀ unit ∈ normalizedUnits t text, unit.endChars ≤ spokenPrefixEnd t text text) ∧
      ((normalizedUnits t text).Pairwise fun unit next => unit.endChars < next.endChars) ∧
      ∀ source heard more : List NormalizedUnit,
        (source.Pairwise fun unit next => unit.endChars ≤ next.endChars) →
          matchedPrefixEnd source heard ≤ matchedPrefixEnd source (heard ++ more) := by
  have hfollow := follow_normalizedUnits t text
  refine ⟨?_, ?_, ?_, hfollow.increasing, fun source heard more hgrow =>
    matchLoop_mono heard [] [] more hgrow fun unit _ => Nat.zero_le unit.endChars⟩
  · exact (spokenPrefixEnd_cover t text transcript).1
  · exact (spokenPrefixEnd_cover t text transcript).2
  · intro unit hunit
    exact (matchLoop_self (hfollow.increasing.imp Nat.le_of_lt) hfollow.complete unit hunit).trans
      (matchedPrefixEnd_le t text text)

def asciiTables : CharacterTables where
  isDecimal := Char.isDigit
  decimalValue c := c.toNat - 48
  isAlpha c := c.isAlpha || isChineseNumeral c
  isWord c := c.isDigit || c.isAlpha || isChineseNumeral c || c == '_'
  isSpace := Char.isWhitespace
  casefold c := [if c.isUpper && !isChineseNumeral c.toLower then c.toLower else c]
  word_of_decimal c hc := by simp only [hc, Bool.true_or]
  word_of_letter c hc := by simp only [hc, Bool.or_true, Bool.true_or]
  word_of_chinese c hc := by simp only [hc, Bool.or_true, Bool.true_or]
  casefold_ne_nil _ := List.cons_ne_nil _ _
  casefold_chinese c hc := by
    obtain ⟨d, hd, hchinese⟩ := hc
    obtain rfl := List.mem_singleton.mp hd
    split at hchinese
    · next hfold =>
      rw [hchinese, Bool.not_true, Bool.and_false] at hfold
      cases hfold
    · next hkeep => rw [if_neg hkeep]

/-- Joined words, numbers in other spellings and the punctuation behind them. -/
example : spokenPrefixEnd asciiTables "Up-to-date: 15, 2!".toList "up to date 十五 3".toList = 15 := by
  decide +kernel

end Spoken
