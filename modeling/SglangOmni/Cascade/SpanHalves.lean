import SglangOmni.Cascade.Spans

/-! A span that is not a sentence of its own is at least half as long as a span may be, and so is the next
one, unless the reply stops between two words where the span was cut. -/

namespace Cascade

variable {text before after more pending : Text} {maxWords stop : Nat} {isComplete : Bool}
  {deltas : List Text} {cuts : List SpanCut} {cut : SpanCut}

/-- Where a sentence is cut, the span and the next one have at least half the words of the longest. -/
def Halved (maxWords : Nat) (cuts : List SpanCut) : Prop :=
  ∀ (index : Nat) (cut : SpanCut), cuts[index]? = some cut →
    firstSentenceEnd cut.pending cut.isComplete ≠ some cut.stop →
    (maxWords + 1) / 2 ≤ wordCount cut.span
      ∧ ∃ next, cuts[index + 1]? = some next ∧ (maxWords + 1) / 2 ≤ wordCount next.span

/-- A sentence is cut too early: just the words that the loop waits for have come and white space after
them, the cut takes as many as it may, and then the reply ends or, where a word is left, the line does. -/
def Hasty (maxWords : Nat) (cut : SpanCut) : Prop :=
  firstSentenceEnd cut.pending cut.isComplete = none
    ∧ (completeWordEnds cut.pending).length + 1 = maxWords + (maxWords + 1) / 2
    ∧ endsWord cut.pending = false
    ∧ CutsAtLimit cut.pending maxWords
    ∧ ((∀ x ∈ cut.later, isSpace x = true)
      ∨ 1 < (maxWords + 1) / 2 ∧ lineBreak (cut.pending.rtakeWhile isSpace ++ cut.later) = true)

theorem halved_cons : Halved maxWords (cut :: cuts) ↔
    (firstSentenceEnd cut.pending cut.isComplete ≠ some cut.stop →
      (maxWords + 1) / 2 ≤ wordCount cut.span
        ∧ ∃ next ∈ cuts.head?, (maxWords + 1) / 2 ≤ wordCount next.span) ∧ Halved maxWords cuts := by
  constructor
  · intro h
    refine ⟨fun hne => ?_, fun index => h (index + 1)⟩
    obtain ⟨hwords, next, hnext, hhalf⟩ := h 0 cut rfl hne
    refine ⟨hwords, next, ?_, hhalf⟩
    rw [List.head?_eq_getElem?]
    exact hnext
  · rintro ⟨hhead, hrest⟩ index other hother hne
    cases index with
    | succ index => exact hrest index other hother hne
    | zero =>
      obtain rfl := Option.some_inj.mp hother
      obtain ⟨hwords, next, hnext, hhalf⟩ := hhead hne
      rw [List.head?_eq_getElem?] at hnext
      exact ⟨hwords, next, hnext, hhalf⟩

/-! ### The next span -/

theorem Emits.next (h : Emits maxWords isComplete pending deltas cuts) (hne : pending ≠ [])
    (hmax : 1 ≤ maxWords) (hopen : isComplete = false) : ∃ next ∈ cuts.head?, ∃ more,
      next.pending = pending ++ more ∧ more ++ next.later = deltas.flatten
      ∧ (next.isComplete = true → next.later = [])
      ∧ SpanEnd next.pending maxWords next.isComplete (some next.stop) := by
  induction h with
  | cut _ hend =>
    refine ⟨_, rfl, [], (List.append_nil _).symm, rfl, fun h => ?_, hend ▸ sentenceEnd_spec hmax _ _⟩
    exact absurd (hopen.symm.trans h) Bool.false_ne_true
  | @take pending delta deltas cuts _ _ ih =>
    obtain ⟨next, hnext, more, heq, hlater, hrest⟩ := ih (by simp [hne]) rfl
    refine ⟨next, hnext, delta ++ more, ?_, ?_, hrest⟩
    · rw [heq, List.append_assoc]
    · rw [List.append_assoc, hlater, List.flatten_cons]
  | close _ hrest =>
    cases hrest with
    | cut _ hend =>
      exact ⟨_, rfl, [], (List.append_nil _).symm, rfl, fun _ => rfl, hend ▸ sentenceEnd_spec hmax _ _⟩
    | done => exact absurd rfl hne
  | done => exact absurd rfl hne

theorem SpanEnd.half_le (h : SpanEnd text maxWords isComplete (some stop))
    (hends : firstSentenceEnd text isComplete = some stop → (maxWords + 1) / 2 ≤ wordCount (text.take stop)) :
    (maxWords + 1) / 2 ≤ wordCount (text.take stop) := by
  cases h with
  | whole hend => exact hends hend
  | inside _ _ hcut hlow =>
    have hlt := hcut.lt
    rw [List.length_take] at hlt
    have htaken := hcut.taken
    rw [List.take_take, Nat.min_eq_left (by omega)] at htaken
    exact htaken ▸ hlow
  | ahead _ _ _ _ hcut hlow => exact hcut.taken ▸ hlow

theorem Emits.next_inside (h : Emits maxWords isComplete pending deltas cuts) (hne : pending ≠ [])
    (hmax : 1 ≤ maxWords) (hend : firstSentenceEnd pending isComplete = some stop)
    (hwords : (maxWords + 1) / 2 ≤ wordCount (pending.take stop)) :
    ∃ next ∈ cuts.head?, (maxWords + 1) / 2 ≤ wordCount next.span := by
  have hsome : isComplete = false → sentenceEnd pending maxWords false ≠ none := by
    rintro rfl hnone
    have hspec := sentenceEnd_spec hmax pending false
    rw [hnone] at hspec
    cases hspec with
    | wait hnone => exact absurd (hend.symm.trans hnone) (by simp)
  cases h with
  | cut _ hcut =>
    refine ⟨_, rfl, (hcut ▸ sentenceEnd_spec hmax _ _ : SpanEnd _ _ _ _).half_le fun hstop => ?_⟩
    rw [← Option.some_inj.mp (hend.symm.trans hstop)]
    exact hwords
  | take hnone => exact absurd hnone (hsome rfl)
  | close hnone => exact absurd hnone (hsome rfl)
  | done => exact absurd rfl hne

theorem CutAt.ne_nil {count rest : Nat} (h : CutAt text stop count rest) : text.drop stop ≠ [] := by
  rw [Ne, List.drop_eq_nil_iff]
  exact Nat.not_le_of_lt h.lt

theorem SpanEnd.inside_next {last count : Nat} (hend : firstSentenceEnd text isComplete = some last)
    (hcut : CutAt (text.take last) stop count (wordCount (text.take last) - count)) :
    firstSentenceEnd (text.drop stop) isComplete = some (last - stop)
      ∧ wordCount ((text.drop stop).take (last - stop)) = wordCount (text.take last) - count
      ∧ text.drop stop ≠ [] ∧ wordCount (text.take stop) = count := by
  have hlt := hcut.lt
  rw [List.length_take] at hlt
  have hdrop : (text.take last).drop stop = (text.drop stop).take (last - stop) := List.drop_take
  have hne : text.drop stop ≠ [] := by
    rw [Ne, List.drop_eq_nil_iff]
    omega
  have hblank : startsBlank (text.drop stop) = true := by
    have hsome := hcut.ne_nil
    have hblank := hcut.blank
    rw [hdrop] at hsome hblank
    rw [← List.take_append_drop (last - stop) (text.drop stop), startsBlank_append hsome]
    exact hblank
  refine ⟨?_, hdrop ▸ hcut.left, hne, ?_⟩
  · have hlength : (text.take stop).length = stop := List.length_take_of_le (by omega)
    rw [← List.take_append_drop stop text] at hend
    have := firstSentenceEnd_drop hblank hne (by omega) hend
    rwa [hlength] at this
  · have htaken := hcut.taken
    rwa [List.take_take, Nat.min_eq_left (by omega)] at htaken

/-! ### The span after a cut while the sentence goes on -/

theorem wordCount_pos (h : endsWord text = true) : 0 < wordCount text := by
  rw [Nat.pos_iff_ne_zero, Ne, wordCount_eq_zero]
  intro hall
  obtain ⟨x, hx, hspace⟩ := (Option.any_eq_true _ _).mp h
  rw [hall x (List.mem_of_getLast? hx)] at hspace
  exact absurd hspace Bool.false_ne_true

theorem startsBlank_of_blank (h : ∀ x ∈ text, isSpace x = true) : startsBlank text = true := by
  cases text with
  | nil => rfl
  | cons c rest => exact h c List.mem_cons_self

theorem wordCount_le_take {p : Nat} (hblank : ∀ x ∈ text.drop p, isSpace x = true) :
    wordCount text ≤ wordCount ((text ++ more).take p) := by
  by_cases hle : p ≤ text.length
  · rw [List.take_append_of_le_length hle]
    conv_lhs => rw [← List.take_append_drop p text]
    rw [wordCount_append (.inr (startsBlank_of_blank hblank)), wordCount_eq_zero.mpr hblank]
    exact Nat.le_refl _
  · rw [List.take_append, List.take_of_length_le (Nat.le_of_not_le hle)]
    exact wordCount_le_append _ _

theorem rtakeWhile_blank (hword : endsWord before = true) (hblank : ∀ x ∈ after, isSpace x = true) :
    (before ++ after).rtakeWhile isSpace = after := by
  induction after using List.reverseRecOn with
  | nil =>
    rw [List.append_nil, List.rtakeWhile_eq_nil_iff]
    intro hne hspace
    rw [endsWord, List.getLast?_eq_getLast_of_ne_nil hne, Option.any_some, hspace] at hword
    exact absurd hword Bool.false_ne_true
  | append_singleton after c ih =>
    rw [← List.append_assoc, List.rtakeWhile_concat_pos _ _ _ (hblank c (by simp)),
      ih fun x hx => hblank x (List.mem_append_left _ hx)]

theorem exists_lastWord (h : 0 < wordCount text) : ∃ before after, text = before ++ after
    ∧ endsWord before = true ∧ ∀ x ∈ after, isSpace x = true := by
  induction text using List.reverseRecOn with
  | nil => exact absurd h (Nat.lt_irrefl _)
  | append_singleton text c ih =>
    cases hc : isSpace c with
    | false => exact ⟨text ++ [c], [], by simp, by rw [endsWord_concat, hc]; rfl, by simp⟩
    | true =>
      have hlast : wordCount [c] = 0 := wordCount_eq_zero.mpr (by simpa using hc)
      rw [wordCount_append (.inr (show startsBlank [c] = true from hc)), hlast] at h
      obtain ⟨before, after, rfl, hword, hblank⟩ := ih h
      refine ⟨before, after ++ [c], by simp, hword, fun x hx => ?_⟩
      rcases List.mem_append.mp hx with hx | hx
      · exact hblank x hx
      · exact List.mem_singleton.mp hx ▸ hc

theorem blank_or_lineBreak (hnone : firstSentenceEnd text false = none) (hopen : endsWord text = false)
    (hend : firstSentenceEnd (text ++ more) isComplete = some stop)
    (hwords : wordCount ((text ++ more).take stop) = wordCount text) :
    isComplete = true ∧ (∀ x ∈ more, isSpace x = true)
      ∨ stop ≤ text.length ∧ 0 < wordCount text ∧ lineBreak (text.rtakeWhile isSpace ++ more) = true := by
  have hblank := blank_of_firstSentenceEnd_append hnone hend
  rcases (firstSentenceEnd_eq_some.mp hend).1 with ⟨hcomplete, rfl⟩ | ⟨_, hends⟩
  · rw [List.take_length, wordCount_append (.inl hopen)] at hwords
    exact .inl ⟨hcomplete, wordCount_eq_zero.mp (by omega)⟩
  · have hword := hends.endsWord
    have hle : stop ≤ text.length := by
      refine Nat.le_of_not_lt fun hlt => ?_
      rw [List.take_append, List.take_of_length_le (Nat.le_of_lt hlt)] at hword hwords
      have hne : more.take (stop - text.length) ≠ [] := by
        intro hnil
        rw [hnil, List.append_nil, hopen] at hword
        exact absurd hword Bool.false_ne_true
      rw [endsWord_append hne] at hword
      rw [wordCount_append (.inl hopen)] at hwords
      have := wordCount_pos hword
      omega
    rw [List.take_append_of_le_length hle] at hword hends
    rw [List.drop_append_of_le_length hle] at hends
    have hne : text.drop stop ≠ [] := by
      intro hnil
      rw [← List.take_append_drop stop text, hnil, List.append_nil, hword] at hopen
      exact absurd hopen (by decide)
    have hstarts := startsBlank_of_blank hblank
    have hnot := firstSentenceEnd_eq_none.mp hnone stop
    refine .inr ⟨hle, Nat.lt_of_lt_of_le (wordCount_pos hword) (wordCount_take_le _ _), ?_⟩
    cases hends with
    | word hmarks => exact absurd (.inr ⟨hle, .word hmarks hstarts hne⟩) hnot
    | cjk h =>
      obtain ⟨_, c, rest, heq, hc, _⟩ := h
      have : startsBlank (text.drop stop ++ more) = startsBlank (text.drop stop) := startsBlank_append hne
      rw [heq, hstarts] at this
      exact absurd (hc.symm.trans this) Bool.false_ne_true
    | line _ hline =>
      rwa [← List.take_append_drop stop text, rtakeWhile_blank hword hblank]

theorem ends_of_lineBreak (hpos : 0 < wordCount text)
    (hline : lineBreak (text.rtakeWhile isSpace ++ more) = true) :
    ∃ p ≤ text.length, ∀ isComplete, Ends (text ++ more) isComplete p := by
  obtain ⟨before, after, rfl, hword, hblank⟩ := exists_lastWord hpos
  rw [rtakeWhile_blank hword hblank] at hline
  refine ⟨before.length, by simp, fun isComplete => .inr ⟨by simp, ?_⟩⟩
  rw [List.append_assoc, List.take_left, List.drop_left]
  exact .line hword hline

theorem wordCount_span_le (hopen : endsWord text = false)
    (hshort : wordCount text ≤ maxWords)
    (hlater : (∀ x ∈ more, isSpace x = true)
      ∨ 0 < wordCount text ∧ lineBreak (text.rtakeWhile isSpace ++ more) = true)
    (h : SpanEnd (text ++ more) maxWords isComplete (some stop)) :
    wordCount ((text ++ more).take stop) ≤ wordCount text := by
  rcases hlater with hblank | ⟨hpos, hline⟩
  · have := wordCount_take_le (text ++ more) stop
    rw [wordCount_append (.inl hopen), wordCount_eq_zero.mpr hblank] at this
    exact this
  · obtain ⟨p, hp, hends⟩ := ends_of_lineBreak hpos hline
    have hle : ∀ last, firstSentenceEnd (text ++ more) isComplete = some last →
        wordCount ((text ++ more).take last) ≤ wordCount text := by
      intro last hlast
      have hle := (firstSentenceEnd_eq_some.mp hlast).2 p (hends isComplete)
      rw [List.take_append_of_le_length (Nat.le_trans hle hp)]
      exact wordCount_take_le _ _
    cases h with
    | whole hend => exact hle _ hend
    | inside hend hlong => exact absurd (hle _ hend) (by omega)
    | ahead hend => exact absurd (hends isComplete) (firstSentenceEnd_eq_none.mp hend _)

theorem rtakeWhile_blank_append (hpos : 0 < wordCount text) :
    (before ++ text).rtakeWhile isSpace = text.rtakeWhile isSpace := by
  obtain ⟨word, blanks, rfl, hword, hblank⟩ := exists_lastWord hpos
  have hne : word ≠ [] := by
    rintro rfl
    exact absurd hword Bool.false_ne_true
  rw [← List.append_assoc, rtakeWhile_blank (by rw [endsWord_append hne]; exact hword) hblank,
    rtakeWhile_blank hword hblank]

structure Left (pending rest : Text) (count : Nat) : Prop where
  goesOn : firstSentenceEnd rest false = none
  ne_nil : rest ≠ []
  open_iff : endsWord rest = endsWord pending
  words : wordCount rest = wordCount pending - count
  blanks : 0 < wordCount rest → rest.rtakeWhile isSpace = pending.rtakeWhile isSpace

theorem CutAt.left_ahead {count : Nat} (hend : firstSentenceEnd pending false = none)
    (hcut : CutAt pending stop count (wordCount pending - count)) :
    Left pending (pending.drop stop) count where
  goesOn := firstSentenceEnd_drop_none hcut.blank (by rwa [List.take_append_drop])
  ne_nil := hcut.ne_nil
  open_iff := by
    conv_rhs => rw [← List.take_append_drop stop pending]
    rw [endsWord_append hcut.ne_nil]
  words := hcut.left
  blanks := fun hpos => by
    conv_rhs => rw [← List.take_append_drop stop pending]
    rw [rtakeWhile_blank_append hpos]

theorem hasty_iff {rest later : Text} {count : Nat} {next : SpanCut} (hleft : Left pending rest count)
    (hend : firstSentenceEnd pending false = none) (hcount : count ≤ maxWords)
    (hlimit : count = maxWords ↔ CutsAtLimit pending maxWords)
    (hwords : maxWords + (maxWords + 1) / 2 ≤ (completeWordEnds pending).length + 1)
    (hnext : next.pending = rest ++ more) (hlater : more ++ next.later = later)
    (hcomplete : next.isComplete = true → next.later = [])
    (hspec : SpanEnd next.pending maxWords next.isComplete (some next.stop)) :
    (maxWords + 1) / 2 ≤ wordCount next.span ↔ ¬ Hasty maxWords ⟨pending, false, stop, later⟩ := by
  have hcompletes := length_completeWordEnds pending
  have hrest := hleft.words
  rw [SpanCut.span]
  rw [hnext] at hspec ⊢
  constructor
  · rintro hhalf ⟨_, hlength, hopen, hatLimit, hends⟩
    simp only at hlength hopen hatLimit hends
    rw [hopen, if_neg Bool.false_ne_true] at hcompletes
    have hmax := hlimit.mpr hatLimit
    have hshort := wordCount_span_le (hleft.open_iff.trans hopen) (by omega) ?_ hspec
    · omega
    · rcases hends with hblank | ⟨hhalves, hline⟩
      · exact .inl fun x hx => hblank x (hlater ▸ List.mem_append_left _ hx)
      · have hpos : 0 < wordCount rest := by omega
        rw [← hlater, ← List.append_assoc] at hline
        rcases of_lineBreak_append hline with hline | hblank
        · exact .inr ⟨hpos, by rwa [hleft.blanks hpos]⟩
        · exact .inl fun x hx => hblank x (List.mem_append_right _ hx)
  · intro hnot
    refine hspec.half_le fun hstop => ?_
    by_contra hfew
    have hle : wordCount rest ≤ wordCount ((rest ++ more).take next.stop) :=
      wordCount_le_take (blank_of_firstSentenceEnd_append hleft.goesOn hstop)
    have hopen : endsWord pending = false := by
      cases hopen : endsWord pending with
      | false => rfl
      | true =>
        rw [hopen, if_pos rfl] at hcompletes
        omega
    rw [hopen, if_neg Bool.false_ne_true] at hcompletes
    refine hnot ⟨hend, by simp only; omega, hopen, hlimit.mp (by omega), ?_⟩
    rcases blank_or_lineBreak hleft.goesOn (hleft.open_iff.trans hopen) hstop (by omega)
      with ⟨hdone, hblank⟩ | ⟨_, hpos, hline⟩
    · refine .inl fun x hx => hblank x ?_
      simpa [← hlater, hcomplete hdone] using hx
    · refine .inr ⟨by omega, ?_⟩
      simp only
      rw [← hleft.blanks hpos, ← hlater, ← List.append_assoc]
      exact lineBreak_append hline

theorem Emits.halved_iff (hmax : 1 ≤ maxWords) (h : Emits maxWords isComplete pending deltas cuts) :
    Halved maxWords cuts ↔ ∀ cut ∈ cuts, ¬ Hasty maxWords cut := by
  induction h with
  | take _ _ ih => exact ih
  | close _ _ ih => exact ih
  | done => exact iff_of_true (fun index cut h => absurd h (by simp)) (by simp)
  | @cut isComplete pending deltas stop cuts hne hend hrest ih =>
    rw [halved_cons, List.forall_mem_cons]
    refine and_congr ?_ ih
    have hspec := hend ▸ sentenceEnd_spec hmax pending isComplete
    cases hspec with
    | whole hstop =>
      refine iff_of_true (fun hnot => absurd hstop hnot) fun hasty => ?_
      exact absurd (hstop.symm.trans hasty.1) (by simp)
    | inside hlast hlong hcut hlow hhigh hhalf =>
      obtain ⟨hdrop, hwords, hsome, htaken⟩ := SpanEnd.inside_next hlast hcut
      refine iff_of_true (fun _ => ⟨?_, hrest.next_inside hsome hmax hdrop (hwords ▸ hhalf)⟩) fun hasty => ?_
      · exact htaken ▸ hlow
      · exact absurd (hlast.symm.trans hasty.1) (by simp)
    | ahead hnone hwords hcount hstop hcut hlow hhigh =>
      have hfalse : isComplete = false := by
        cases isComplete with
        | false => rfl
        | true =>
          obtain ⟨last, hlast⟩ := firstSentenceEnd_complete pending
          exact absurd (hlast.symm.trans hnone) (by simp)
      subst hfalse
      have hleft := CutAt.left_ahead hnone hcut
      obtain ⟨next, hnext, more, hpending, hlater, hcomplete, hspec⟩ := hrest.next hleft.ne_nil hmax rfl
      rw [← hasty_iff hleft hnone hhigh (hcount ▸ cutCount_eq_max hmax) hwords hpending hlater hcomplete hspec]
      constructor
      · intro hhead
        obtain ⟨_, other, hother, hhalf⟩ := hhead fun hsome => by
          rw [hnone] at hsome
          exact absurd hsome (by simp)
        rwa [Option.mem_unique hnext hother]
      · exact fun hhalf _ => ⟨hcut.taken ▸ hlow, next, hnext, hhalf⟩

/-- The spans of a reply join back to it and none is longer than it may be; each that is not a sentence and
the one after it have at least half the words of the longest, unless a cut is made too early. -/
theorem sentences_cut (deltas : List Text) (maxWords : Nat) (hmax : 1 ≤ maxWords) :
    ∃ cuts, sentences deltas maxWords = some cuts
      ∧ (((cuts.map SpanCut.span).flatten = deltas.flatten
          ∧ (∀ cut ∈ cuts, cut.span ≠ [] ∧ wordCount cut.span ≤ maxWords) ∧ Halved maxWords cuts)
        ↔ ∀ cut ∈ cuts, ¬ Hasty maxWords cut) := by
  obtain ⟨cuts, hcuts, h⟩ := sentences_emits hmax deltas
  refine ⟨cuts, hcuts, ?_⟩
  rw [← h.halved_iff hmax]
  exact ⟨fun h => h.2.2, fun hhalved => ⟨h.joined, h.bounded hmax, hhalved⟩⟩

/-- A reply of five words and a space: its fourth word ends the first span and leaves one for the next. -/
theorem sentences_cut_five : ∃ cuts, sentences ["one two three four five ".toList] 4 = some cuts
    ∧ ¬ Halved 4 cuts := by
  refine ⟨[⟨"one two three four five ".toList, false, 18, []⟩, ⟨" five ".toList, true, 6, []⟩], by decide +kernel,
    fun hhalved => ?_⟩
  obtain ⟨_, next, hnext, hwords⟩ := hhalved 0 _ rfl (by decide +kernel)
  obtain rfl := Option.some_inj.mp hnext
  exact absurd hwords (by decide +kernel)

theorem sentences_cut_sample : ∃ cuts, sentences ["One. Two ".toList, "three.".toList] 4 = some cuts
    ∧ (((cuts.map SpanCut.span).flatten = ["One. Two ".toList, "three.".toList].flatten
        ∧ (∀ cut ∈ cuts, cut.span ≠ [] ∧ wordCount cut.span ≤ 4) ∧ Halved 4 cuts)
      ↔ ∀ cut ∈ cuts, ¬ Hasty 4 cut) :=
  sentences_cut ["One. Two ".toList, "three.".toList] 4 (by decide)

end Cascade
