import SglangOmni.Cascade.Dialog
import Mathlib.Data.List.DropRight

/-! Where the first sentence of a growing text ends: after a whole word with terminal punctuation, inside
a word after a run of CJK punctuation, at the end of a line, or at the end of a complete text. -/

namespace Cascade

/-! ### The patterns -/

def isSentenceMark (c : Char) : Bool := ".!?;。！？；…".toList.contains c

def isCjkMark (c : Char) : Bool := "。！？；…".toList.contains c

def isClauseMark (c : Char) : Bool := ",:，、：—–".toList.contains c

def isCloser (c : Char) : Bool := "\"')]”’」』）".toList.contains c

/-- Whether marks and then closers stand at the end of a text, as in `SENTENCE_END` and `CLAUSE_END`. No
mark is a closer, so the marks end where the closers at the end begin. -/
def endsIn (isMark : Char → Bool) (text : Text) : Bool := (text.rdropWhile isCloser).getLast?.any isMark

def endsWord (text : Text) : Bool := text.getLast?.any fun c => !isSpace c

def startsBlank (text : Text) : Bool := text.head?.all isSpace

/-- The ends of the matches of `\S+`. -/
def wordEnds : Text → List Nat
  | [] => []
  | c :: rest =>
    (if !isSpace c && startsBlank rest then [1] else []) ++ (wordEnds rest).map (· + 1)

/-- The ends of the matches of `\S+(?=\s)`. -/
def completeWordEnds (text : Text) : List Nat := (wordEnds text).filter (· < text.length)

def wordBefore (text : Text) (stop : Nat) : Text := (text.take stop).rtakeWhile fun c => !isSpace c

/-- What is left after `[closers]*(?=\S)` at the head of a text. -/
def closersRest : Text → Option Text
  | [] => none
  | c :: rest =>
    (if isCloser c then closersRest rest else none).or (if isSpace c then none else some (c :: rest))

/-- What is left after `CJK_SENTENCE_END` at the head of a text. -/
def cjkRest : Text → Option Text
  | [] => none
  | c :: rest => if isCjkMark c then (cjkRest rest).or (closersRest rest) else none

/-- What is left after the first match of `CJK_SENTENCE_END`. -/
def cjkSearch : Text → Option Text
  | [] => none
  | c :: rest => (cjkRest (c :: rest)).or (cjkSearch rest)

/-- Whether `[ \t]*\n` matches at the head of a text. -/
def lineBreak : Text → Bool
  | [] => false
  | c :: rest => c == '\n' || ((c == ' ' || c == '\t') && lineBreak rest)

def firstWordEnd (text : Text) : Option Nat :=
  (completeWordEnds text).find? fun stop => endsIn isSentenceMark (wordBefore text stop)

def firstCjkEnd (text : Text) : Option Nat := (cjkSearch text).map fun rest => text.length - rest.length

def firstLineEnd (text : Text) : Option Nat :=
  (List.range (text.length + 1)).find? fun stop => endsWord (text.take stop) && lineBreak (text.drop stop)

def sentenceEnds (text : Text) (isComplete : Bool) : List Nat :=
  (if isComplete then [text.length] else []) ++ (firstWordEnd text).toList ++ (firstCjkEnd text).toList
    ++ (firstLineEnd text).toList

def firstSentenceEnd (text : Text) (isComplete : Bool) : Option Nat := (sentenceEnds text isComplete).min?

/-! ### Marks, closers and spaces -/

theorem of_contains {marks : String} {c : Char} (p : Char → Bool) (hall : marks.toList.all p = true)
    (h : marks.toList.contains c = true) : p c = true :=
  List.all_eq_true.mp hall c (List.contains_iff_mem.mp h)

theorem not_isSpace_of_mark {c : Char} (h : isSentenceMark c = true) : isSpace c = false := by
  have hspace := of_contains (fun c => !isSpace c) (by decide) h
  exact (Bool.not_eq_true' _).mp hspace

theorem isSentenceMark_of_cjk {c : Char} (h : isCjkMark c = true) : isSentenceMark c = true :=
  of_contains isSentenceMark (by decide) h

theorem not_isSpace_of_closer {c : Char} (h : isCloser c = true) : isSpace c = false := by
  have hspace := of_contains (fun c => !isSpace c) (by decide) h
  exact (Bool.not_eq_true' _).mp hspace

theorem not_isCloser_of_mark {c : Char} (h : isSentenceMark c = true) : isCloser c = false := by
  have hcloser := of_contains (fun c => !isCloser c) (by decide) h
  exact (Bool.not_eq_true' _).mp hcloser

variable {isMark : Char → Bool} {text before after more : Text} {c : Char} {stop : Nat}

theorem endsWord_append (h : after ≠ []) : endsWord (before ++ after) = endsWord after := by
  rw [endsWord, endsWord, List.getLast?_append_of_ne_nil _ h]

theorem startsBlank_append (h : before ≠ []) : startsBlank (before ++ after) = startsBlank before := by
  rw [startsBlank, startsBlank, List.head?_append_of_ne_nil _ h]

theorem endsIn_append (h : ∃ c ∈ after, isCloser c = false) :
    endsIn isMark (before ++ after) = endsIn isMark after := by
  obtain ⟨c, hc, hopen⟩ := h
  have hne : after.rdropWhile isCloser ≠ [] := by
    intro hnil
    rw [List.rdropWhile_eq_nil_iff] at hnil
    exact absurd (hnil c hc) (by rw [hopen]; exact Bool.false_ne_true)
  rw [endsIn, endsIn, show (before ++ after).rdropWhile isCloser = before ++ after.rdropWhile isCloser by
    simp only [List.rdropWhile, List.reverse_append] at hne ⊢
    rw [List.dropWhile_append, if_neg (by simpa using hne), List.reverse_append, List.reverse_reverse],
    List.getLast?_append_of_ne_nil _ hne]

theorem endsIn_concat_mark (h : isCloser c = false) : endsIn isMark (text ++ [c]) = isMark c := by
  rw [endsIn, List.rdropWhile_concat_neg _ _ _ (by rw [h]; exact Bool.false_ne_true),
    List.getLast?_concat]
  rfl

theorem endsIn_concat_closer (h : isCloser c = true) : endsIn isMark (text ++ [c]) = endsIn isMark text := by
  rw [endsIn, List.rdropWhile_concat_pos _ _ _ h, endsIn]

theorem endsWord_concat : endsWord (text ++ [c]) = !isSpace c := by
  rw [endsWord, List.getLast?_concat]
  rfl

theorem endsWord_of_endsIn (hmark : ∀ c, isMark c = true → isSpace c = false)
    (h : endsIn isMark text = true) : endsWord text = true := by
  cases text using List.reverseRecOn with
  | nil => exact absurd h Bool.false_ne_true
  | append_singleton text c =>
    rw [endsWord_concat]
    cases hcloser : isCloser c with
    | true => rw [not_isSpace_of_closer hcloser]; rfl
    | false =>
      rw [endsIn_concat_mark hcloser] at h
      rw [hmark c h]; rfl

theorem endsIn_lastWord (hmark : ∀ c, isMark c = true → isSpace c = false) (text : Text) :
    endsIn isMark (text.rtakeWhile fun c => !isSpace c) = endsIn isMark text := by
  induction text using List.reverseRecOn with
  | nil => rfl
  | append_singleton text c ih =>
    cases hspace : isSpace c with
    | true =>
      have hcloser : isCloser c = false := by
        cases hcloser : isCloser c with
        | false => rfl
        | true => rw [not_isSpace_of_closer hcloser] at hspace; exact absurd hspace Bool.false_ne_true
      rw [List.rtakeWhile_concat_neg _ _ _ (by rw [hspace]; exact Bool.false_ne_true),
        endsIn_concat_mark hcloser]
      cases hm : isMark c with
      | false => rfl
      | true => rw [hmark c hm] at hspace; exact absurd hspace Bool.false_ne_true
    | false =>
      rw [List.rtakeWhile_concat_pos _ _ _ (by rw [hspace]; rfl)]
      cases hcloser : isCloser c with
      | true => rw [endsIn_concat_closer hcloser, endsIn_concat_closer hcloser, ih]
      | false => rw [endsIn_concat_mark hcloser, endsIn_concat_mark hcloser]

/-! ### Sentence ends between two parts of a text -/

/-- A character goes on with the CJK punctuation or the closers before it. -/
def continues (before : Text) (c : Char) : Prop :=
  isCloser c = true ∨ isCjkMark c = true ∧ ∃ last ∈ before.getLast?, isCjkMark last = true

/-- `CJK_SENTENCE_END` ends between two parts: at a character that does not go on with the punctuation,
or that has to stand in as the character that follows. -/
def CjkEndBetween (before after : Text) : Prop :=
  endsIn isCjkMark before = true
    ∧ ∃ c rest, after = c :: rest ∧ isSpace c = false ∧ (continues before c → startsBlank rest = true)

inductive EndsBetween (before after : Text) : Prop where
  | word (hends : endsIn isSentenceMark before = true) (hblank : startsBlank after = true)
      (hmore : after ≠ [])
  | cjk (h : CjkEndBetween before after)
  | line (hends : endsWord before = true) (hline : lineBreak after = true)

theorem EndsBetween.endsWord (h : EndsBetween before after) : endsWord before = true := by
  cases h with
  | word hends => exact endsWord_of_endsIn (fun c => not_isSpace_of_mark) hends
  | cjk h => exact endsWord_of_endsIn (fun c hc => not_isSpace_of_mark (isSentenceMark_of_cjk hc)) h.1
  | line hends => exact hends

theorem EndsBetween.after_ne_nil (h : EndsBetween before after) : after ≠ [] := by
  cases h with
  | word _ _ hmore => exact hmore
  | cjk h =>
    obtain ⟨c, rest, rfl, _⟩ := h.2
    exact List.cons_ne_nil _ _
  | line _ hline =>
    rintro rfl
    exact absurd hline Bool.false_ne_true

theorem lineBreak_append (h : lineBreak before = true) : lineBreak (before ++ after) = true := by
  induction before with
  | nil => exact absurd h Bool.false_ne_true
  | cons c rest ih =>
    simp only [lineBreak, List.cons_append, Bool.or_eq_true, Bool.and_eq_true] at h ⊢
    exact h.imp_right (And.imp_right ih)

theorem isSpace_of_lineBlank (h : (c == ' ' || c == '\t') = true) : isSpace c = true := by
  rcases Bool.or_eq_true_iff.mp h with h | h <;> rw [eq_of_beq h] <;> decide

theorem of_lineBreak_append (h : lineBreak (before ++ after) = true) :
    lineBreak before = true ∨ ∀ x ∈ before, isSpace x = true := by
  induction before with
  | nil => exact .inr (by simp)
  | cons c rest ih =>
    simp only [lineBreak, List.cons_append, Bool.or_eq_true, Bool.and_eq_true] at h ⊢
    rcases h with h | ⟨hblank, h⟩
    · exact .inl (.inl h)
    · have hspace := isSpace_of_lineBlank (by rw [Bool.or_eq_true]; exact hblank)
      refine (ih h).imp (fun h => .inr ⟨hblank, h⟩) fun h x hx => ?_
      rcases List.mem_cons.mp hx with rfl | hx
      · exact hspace
      · exact h x hx

theorem lineBreak_startsBlank (h : lineBreak text = true) : startsBlank text = true := by
  cases text with
  | nil => rfl
  | cons c rest =>
    simp only [lineBreak, Bool.or_eq_true, Bool.and_eq_true] at h
    rcases h with h | ⟨h, _⟩
    · rw [eq_of_beq h]
      exact (by decide : isSpace '\n' = true)
    · exact isSpace_of_lineBlank (by rw [Bool.or_eq_true]; exact h)

/-- The punctuation at the end of a text is not over: the text was cut before its last character, which
the end of the sentence could still take in. -/
def Open (before after : Text) : Prop := ∃ last, after = [last] ∧ continues before last

instance (before : Text) (c : Char) : Decidable (continues before c) :=
  inferInstanceAs (Decidable (_ ∨ _))

theorem endsBetween_append (h : EndsBetween before after) :
    EndsBetween before (after ++ more) ↔ ¬ (Open before after ∧ startsBlank more = false) := by
  have hspace : startsBlank after = true → ¬ Open before after := by
    rintro hblank ⟨last, rfl, hclose | ⟨hmark, _⟩⟩
    · have : isSpace last = true := hblank
      rw [not_isSpace_of_closer hclose] at this
      exact Bool.false_ne_true this
    · have : isSpace last = true := hblank
      rw [not_isSpace_of_mark (isSentenceMark_of_cjk hmark)] at this
      exact Bool.false_ne_true this
  have hblank : startsBlank (after ++ more) = startsBlank after := startsBlank_append h.after_ne_nil
  cases h with
  | word hends hstarts hmore =>
    exact iff_of_true (.word hends (hblank.trans hstarts) (by simp [hmore])) fun h => hspace hstarts h.1
  | line hends hline =>
    exact iff_of_true (.line hends (lineBreak_append hline))
      fun h => hspace (lineBreak_startsBlank hline) h.1
  | cjk h =>
    obtain ⟨hends, c, rest, rfl, hc, hgoes⟩ := h
    constructor
    · rintro h ⟨⟨last, hlast, hcontinues⟩, hmore⟩
      obtain ⟨rfl, rfl⟩ := List.cons_eq_cons.mp hlast
      cases h with
      | word _ hstarts => exact absurd (hc.symm.trans hstarts) Bool.false_ne_true
      | line _ hline => exact absurd (hc.symm.trans (lineBreak_startsBlank hline)) Bool.false_ne_true
      | cjk h =>
        obtain ⟨_, d, after, heq, _, hgoes⟩ := h
        obtain ⟨rfl, rfl⟩ := List.cons_eq_cons.mp heq
        exact absurd (hmore.symm.trans (hgoes hcontinues)) Bool.false_ne_true
    · intro hclosed
      refine .cjk ⟨hends, c, rest ++ more, rfl, hc, fun hcontinues => ?_⟩
      cases rest with
      | nil =>
        exact Bool.not_eq_false _ ▸ fun hmore => hclosed ⟨⟨c, rfl, hcontinues⟩, hmore⟩
      | cons d rest => exact hgoes hcontinues

theorem EndsBetween.of_append (h : EndsBetween before (after ++ more)) :
    EndsBetween before after ∨ ∀ x ∈ after, isSpace x = true := by
  cases after with
  | nil => exact .inr (by simp)
  | cons c rest =>
    cases h with
    | word hends hblank => exact .inl (.word hends hblank (List.cons_ne_nil _ _))
    | line hends hline => exact (of_lineBreak_append hline).imp_left (.line hends)
    | cjk h =>
      obtain ⟨hends, d, after, heq, hd, hgoes⟩ := h
      obtain ⟨rfl, rfl⟩ := List.cons_eq_cons.mp heq
      refine .inl (.cjk ⟨hends, c, rest, rfl, hd, fun hcontinues => ?_⟩)
      cases rest with
      | nil => rfl
      | cons d rest => exact hgoes hcontinues

theorem endsBetween_append_left {apart : Text} (hblank : startsBlank before = true) (hne : before ≠ []) :
    EndsBetween (apart ++ before) after ↔ EndsBetween before after := by
  obtain ⟨c, rest, rfl⟩ := List.exists_cons_of_ne_nil hne
  have hcloser : isCloser c = false := by
    cases hcloser : isCloser c with
    | false => rfl
    | true => exact absurd ((not_isSpace_of_closer hcloser).symm.trans hblank) Bool.false_ne_true
  have hends : ∀ isMark, endsIn isMark (apart ++ c :: rest) = endsIn isMark (c :: rest) :=
    fun isMark => endsIn_append ⟨c, List.mem_cons_self, hcloser⟩
  have hcontinues : ∀ d, continues (apart ++ c :: rest) d ↔ continues (c :: rest) d := by
    intro d
    rw [continues, continues, List.getLast?_append_of_ne_nil _ hne]
  have hcjk : CjkEndBetween (apart ++ c :: rest) after ↔ CjkEndBetween (c :: rest) after := by
    simp only [CjkEndBetween, hends, hcontinues]
  constructor
  · intro h
    cases h with
    | word hmarks => exact .word ((hends _).symm.trans hmarks) ‹_› ‹_›
    | cjk h => exact .cjk (hcjk.mp h)
    | line hword => exact .line ((endsWord_append hne).symm.trans hword) ‹_›
  · intro h
    cases h with
    | word hmarks => exact .word ((hends _).trans hmarks) ‹_› ‹_›
    | cjk h => exact .cjk (hcjk.mpr h)
    | line hword => exact .line ((endsWord_append hne).trans hword) ‹_›

end Cascade
