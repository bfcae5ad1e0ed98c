import SglangOmni.Cascade.SpanHalves

/-! How a reply is cut into deltas makes no difference to its spans, unless a delta ends within the
punctuation of a sentence or before the end of a line. -/

namespace Cascade

variable {text before after more pending : Text} {maxWords stop : Nat} {isComplete : Bool}
  {deltas : List Text} {cuts : List SpanCut} {cut : SpanCut}

/-- Each sentence of a reply has at most as many words as a span may. -/
inductive Short (maxWords : Nat) : Text → Prop where
  | nil : Short maxWords []
  | cons {text : Text} {stop : Nat} (hend : firstSentenceEnd text true = some stop)
      (hwords : wordCount (text.take stop) ≤ maxWords) (hrest : Short maxWords (text.drop stop)) :
      Short maxWords text

/-- A span is cut before all that decides on its end has come: the punctuation is not over, or the words
came before the end of their line and the cut leaves one of them for the next span. -/
def Early (maxWords : Nat) (cut : SpanCut) : Prop :=
  (∃ stop, firstSentenceEnd cut.pending cut.isComplete = some stop
      ∧ Open (cut.pending.take stop) (cut.pending.drop stop) ∧ startsBlank cut.later = false)
    ∨ firstSentenceEnd cut.pending cut.isComplete = none ∧ ¬ CutsAtLimit cut.pending maxWords
      ∧ lineBreak (cut.pending.rtakeWhile isSpace ++ cut.later) = true

theorem firstSentenceEnd_true (h : firstSentenceEnd text false = some stop) :
    firstSentenceEnd text true = some stop := by
  have := (firstSentenceEnd_append h [] true).mpr fun h => absurd h.2 (by decide)
  rwa [List.append_nil] at this

theorem firstSentenceEnd_open (h : firstSentenceEnd text false = some stop)
    (hopen : Open (text.take stop) (text.drop stop)) (hmore : startsBlank more = false) :
    ∃ last, firstSentenceEnd (text ++ more) false = some last ∧ last ≠ stop := by
  have hmoves : firstSentenceEnd (text ++ more) false ≠ some stop := fun hsame =>
    (firstSentenceEnd_append h more false).mp hsame ⟨hopen, hmore⟩
  cases hlast : firstSentenceEnd (text ++ more) false with
  | some last => exact ⟨last, rfl, fun hsame => hmoves (hsame ▸ hlast)⟩
  | none =>
    obtain ⟨c, hdrop, hcontinues⟩ := hopen
    have hspace : isSpace c = false := by
      rcases hcontinues with hcloser | ⟨hmark, _⟩
      · exact not_isSpace_of_closer hcloser
      · exact not_isSpace_of_mark (isSentenceMark_of_cjk hmark)
    have hends := (firstSentenceEnd_incomplete h).2
    rw [hdrop] at hends
    have hcjk : endsIn isCjkMark (text.take stop) = true := by
      cases hends with
      | word _ hblank => exact absurd (hspace.symm.trans hblank) Bool.false_ne_true
      | cjk h => exact h.1
      | line _ hline => exact absurd (hspace.symm.trans (lineBreak_startsBlank hline)) Bool.false_ne_true
    obtain ⟨apart, m, closing, htake, hm, hclosing⟩ := exists_of_endsIn hcjk
    have hstarts : startsBlank (closing ++ c :: more) = false := by
      cases closing with
      | nil => exact hspace
      | cons x closing => exact not_isSpace_of_closer (hclosing x List.mem_cons_self)
    have hsearch : cjkSearch (text ++ more) ≠ none := by
      have := cjkRest_cons_ne_none hm hstarts
      rw [← List.take_append_drop stop text, htake, hdrop]
      simpa using (cjkSearch_ne_none this : cjkSearch (apart ++ m :: (closing ++ c :: more)) ≠ none)
    cases hfirst : cjkSearch (text ++ more) with
    | none => exact absurd hfirst hsearch
    | some rest =>
      have hcjkEnd : firstCjkEnd (text ++ more) = some ((text ++ more).length - rest.length) := by
        rw [firstCjkEnd, hfirst]
        rfl
      exact absurd (.inr (firstCjkEnd_eq_some hcjkEnd)) (firstSentenceEnd_eq_none.mp hlast _)

theorem sentenceEnd_whole (hend : firstSentenceEnd text isComplete = some stop)
    (hwords : wordCount (text.take stop) ≤ maxWords) : sentenceEnd text maxWords isComplete = some stop := by
  rw [sentenceEnd, hend]
  simp only [length_wordEnds]
  exact if_pos hwords

/-! ### The first span of a growing text -/

theorem Short.first (h : Short maxWords text) (hne : text ≠ []) : ∃ stop, firstSentenceEnd text true = some stop
    ∧ wordCount (text.take stop) ≤ maxWords ∧ Short maxWords (text.drop stop) := by
  cases h with
  | nil => exact absurd rfl hne
  | cons hend hwords hrest => exact ⟨_, hend, hwords, hrest⟩

theorem firstSentenceEnd_le {last : Nat} (h : firstSentenceEnd pending false = some stop)
    (hlast : firstSentenceEnd (pending ++ more) isComplete = some last) : stop ≤ last := by
  obtain ⟨hlt, hends⟩ := firstSentenceEnd_incomplete h
  rcases (firstSentenceEnd_eq_some.mp hlast).1.of_append with hlast | hblank
  · exact (firstSentenceEnd_eq_some.mp h).2 last hlast
  · exact le_of_blank_drop (Nat.le_of_lt hlt) hends.endsWord hblank

theorem completeWordEnds_append_blank (hopen : endsWord text = false) (hblank : ∀ x ∈ more, isSpace x = true) :
    completeWordEnds (text ++ more) = completeWordEnds text := by
  have hends : wordEnds (text ++ more) = wordEnds text := by
    rw [wordEnds_append (.inl hopen), List.eq_nil_of_length_eq_zero
      ((length_wordEnds more).trans (wordCount_eq_zero.mpr hblank)), List.map_nil, List.append_nil]
  rw [completeWordEnds, completeWordEnds, hends]
  refine List.filter_congr fun p hp => ?_
  have hle := (wordEnds_bounds text p hp).2
  have hne : p ≠ text.length := by
    rintro rfl
    have := ((mem_wordEnds (Nat.le_refl _)).mp hp).1
    rw [List.take_length, hopen] at this
    exact Bool.false_ne_true this
  rw [List.length_append, decide_eq_decide]
  omega

theorem sentenceEnd_append_blank (hopen : endsWord text = false) (hblank : ∀ x ∈ more, isSpace x = true)
    (hnone : firstSentenceEnd text false = none) (hmore : firstSentenceEnd (text ++ more) false = none) :
    sentenceEnd (text ++ more) maxWords false = sentenceEnd text maxWords false := by
  have hclause : endsClause (text ++ more) (completeWordEnds text) = endsClause text (completeWordEnds text) := by
    funext count
    rw [endsClause, endsClause]
    cases h : (completeWordEnds text)[count - 1]? with
    | none => rfl
    | some stop =>
      rw [Option.any_some, Option.any_some, wordBefore, wordBefore,
        List.take_append_of_le_length (Nat.le_of_lt (wordEnds_of_complete h).2)]
  rw [sentenceEnd, sentenceEnd, hnone, hmore]
  simp only [completeWordEnds_append_blank hopen hblank, cutCount, hclause]

structure Foretells (maxWords : Nat) (pending later : Text) (stop : Nat) : Prop where
  early : Early maxWords ⟨pending, false, stop, later⟩ →
    ∃ other, sentenceEnd (pending ++ later) maxWords false = some other ∧ other ≠ stop
  kept : ¬ Early maxWords ⟨pending, false, stop, later⟩ →
    sentenceEnd (pending ++ later) maxWords false = some stop ∧ Short maxWords ((pending ++ later).drop stop)

theorem foretells_whole {later : Text} (hshort : Short maxWords (pending ++ later))
    (hend : firstSentenceEnd pending false = some stop) : Foretells maxWords pending later stop := by
  have hne : pending ++ later ≠ [] := by
    have := (firstSentenceEnd_incomplete hend).1
    intro hnil
    rw [(List.append_eq_nil_iff.mp hnil).1] at this
    exact Nat.not_lt_zero _ this
  obtain ⟨last, hlast, hwords, hrest⟩ := hshort.first hne
  have hfirst : ∀ other, firstSentenceEnd (pending ++ later) false = some other → other = last :=
    fun other hother => Option.some_inj.mp ((firstSentenceEnd_true hother).symm.trans hlast)
  constructor
  · rintro (⟨last', hsome, hopen, hlater⟩ | ⟨hnone, _⟩)
    · obtain rfl := Option.some_inj.mp (hend.symm.trans hsome)
      obtain ⟨other, hother, hdiffers⟩ := firstSentenceEnd_open hend hopen hlater
      have := hfirst other hother
      exact ⟨other, sentenceEnd_whole hother (this ▸ hwords), hdiffers⟩
    · exact absurd (hend.symm.trans hnone) (by simp)
  · intro hearly
    have hsame := (firstSentenceEnd_append hend later false).mpr
      fun h => hearly (.inl ⟨stop, hend, h.1, h.2⟩)
    have := hfirst stop hsame
    exact ⟨sentenceEnd_whole hsame (this ▸ hwords), this ▸ hrest⟩

theorem foretells_ahead {later : Text} {count : Nat} (hmax : 1 ≤ maxWords)
    (hshort : Short maxWords (pending ++ later)) (hnone : firstSentenceEnd pending false = none)
    (hwords : maxWords + (maxWords + 1) / 2 ≤ (completeWordEnds pending).length + 1)
    (hlimit : count = maxWords ↔ CutsAtLimit pending maxWords)
    (hstop : sentenceEnd pending maxWords false = some stop)
    (hcut : CutAt pending stop count (wordCount pending - count)) :
    Foretells maxWords pending later stop := by
  have hne : pending ++ later ≠ [] := by
    intro hnil
    have := hcut.lt
    rw [(List.append_eq_nil_iff.mp hnil).1] at this
    exact Nat.not_lt_zero _ this
  obtain ⟨last, hlast, hfew, hrest⟩ := hshort.first hne
  have hblank := blank_of_firstSentenceEnd_append hnone hlast
  have hle : wordCount pending ≤ wordCount ((pending ++ later).take last) := wordCount_le_take hblank
  have hcompletes := length_completeWordEnds pending
  have hopen : endsWord pending = false := by
    cases hopen : endsWord pending with
    | false => rfl
    | true =>
      rw [hopen, if_pos rfl] at hcompletes
      omega
  rw [hopen, if_neg Bool.false_ne_true] at hcompletes
  have hcount : wordCount pending = maxWords := by omega
  cases hfirst : firstSentenceEnd (pending ++ later) false with
  | some other =>
    obtain rfl := Option.some_inj.mp ((firstSentenceEnd_true hfirst).symm.trans hlast)
    obtain ⟨_, hends⟩ := firstSentenceEnd_incomplete hfirst
    obtain ⟨hwithin, _, hline⟩ := (blank_or_lineBreak hnone hopen hfirst (by omega)).resolve_left
      fun h => absurd h.1 Bool.false_ne_true
    have hends := hends.endsWord
    rw [List.take_append_of_le_length hwithin] at hends hfew hle
    have hother : sentenceEnd (pending ++ later) maxWords false = some other :=
      sentenceEnd_whole hfirst (by rwa [List.take_append_of_le_length hwithin])
    constructor
    · rintro (⟨last, hsome, _⟩ | ⟨_, hnot, _⟩)
      · exact absurd (hnone.symm.trans hsome) (by simp)
      · refine ⟨other, hother, ?_⟩
        rintro rfl
        have := hcut.taken
        exact hnot (hlimit.mp (by omega))
    · intro hearly
      have hmaximal : count = maxWords := by
        rw [hlimit]
        by_contra hnot
        exact hearly (.inr ⟨hnone, hnot, hline⟩)
      have hdropped : ∀ x ∈ pending.drop stop, isSpace x = true :=
        wordCount_eq_zero.mp (hcut.left.trans (by omega))
      have : other = stop := Nat.le_antisymm (le_of_blank_drop hwithin hends hdropped)
        (le_of_blank_drop (Nat.le_of_lt hcut.lt) hcut.word hblank)
      exact this ▸ ⟨hother, hrest⟩
  | none =>
    have hall : last = (pending ++ later).length := by
      rcases (firstSentenceEnd_eq_some.mp hlast).1 with ⟨_, hall⟩ | hends
      · exact hall
      · exact absurd (.inr hends) (firstSentenceEnd_eq_none.mp hfirst last)
    rw [hall, List.take_length, wordCount_append (.inl hopen)] at hfew
    have hlater := wordCount_eq_zero.mp (show wordCount later = 0 by omega)
    constructor
    · rintro (⟨last, hsome, _⟩ | ⟨_, _, hline⟩)
      · exact absurd (hnone.symm.trans hsome) (by simp)
      · obtain ⟨p, _, hends⟩ := ends_of_lineBreak (show 0 < wordCount pending by omega) hline
        exact absurd (hends false) (firstSentenceEnd_eq_none.mp hfirst p)
    · intro _
      refine ⟨(sentenceEnd_append_blank hopen hlater hnone hfirst).trans hstop, ?_⟩
      -- the rest of the reply is the rest of its only sentence
      have hlt := hcut.lt
      have hdrop : (pending ++ later).drop stop = pending.drop stop ++ later :=
        List.drop_append_of_le_length (Nat.le_of_lt hlt)
      have hstarts : startsBlank ((pending ++ later).drop stop) = true := by
        rw [hdrop, startsBlank_append hcut.ne_nil, hcut.blank]
      have hlength : ((pending ++ later).take stop).length = stop :=
        List.length_take_of_le (by rw [List.length_append]; omega)
      rw [← List.take_append_drop stop (pending ++ later)] at hlast
      have hend := firstSentenceEnd_drop hstarts (by rw [hdrop]; simp [hcut.ne_nil])
        (by rw [hlength, hall, List.length_append]; omega) hlast
      refine .cons hend ?_ ?_
      · have htotal : wordCount ((pending ++ later).take stop ++ (pending ++ later).drop stop)
            = wordCount ((pending ++ later).take stop) + wordCount ((pending ++ later).drop stop) :=
          wordCount_append (.inr hstarts)
        rw [List.take_append_drop, wordCount_append (.inl hopen)] at htotal
        have := wordCount_take_le ((pending ++ later).drop stop) (last - ((pending ++ later).take stop).length)
        omega
      · rw [List.drop_of_length_le (by rw [List.length_drop, hlength, hall])]
        exact .nil

theorem foretells {later : Text} (hmax : 1 ≤ maxWords) (hshort : Short maxWords (pending ++ later))
    (hstop : sentenceEnd pending maxWords false = some stop) : Foretells maxWords pending later stop := by
  have hspec := hstop ▸ sentenceEnd_spec hmax pending false
  cases hspec with
  | whole hend => exact foretells_whole hshort hend
  | @inside stop' _ _ hend hlong =>
    have hne : pending ++ later ≠ [] := by
      have := (firstSentenceEnd_incomplete hend).1
      intro hnil
      rw [(List.append_eq_nil_iff.mp hnil).1] at this
      exact Nat.not_lt_zero _ this
    obtain ⟨last, hlast, hfew, _⟩ := hshort.first hne
    have hle := firstSentenceEnd_le hend hlast
    have hwithin := wordCount_take_le ((pending ++ later).take last) stop'
    rw [List.take_take, Nat.min_eq_left hle, List.take_append_of_le_length
      (Nat.le_of_lt (firstSentenceEnd_incomplete hend).1)] at hwithin
    omega
  | ahead hnone hwords hcount _ hcut =>
    exact foretells_ahead hmax hshort hnone hwords (hcount ▸ cutCount_eq_max hmax) hstop hcut

/-! ### The spans of a reply -/

theorem Emits.deltas_nil (h : Emits maxWords isComplete pending deltas cuts) (hdone : isComplete = true) :
    deltas = [] := by
  induction h with
  | cut _ _ _ ih => exact ih hdone
  | take => exact absurd hdone Bool.false_ne_true
  | close => rfl
  | done => rfl

theorem Emits.unique (h : Emits maxWords isComplete pending deltas cuts) {other : List SpanCut}
    (hother : Emits maxWords isComplete pending deltas other) : cuts = other := by
  induction h generalizing other with
  | cut hne hend _ ih =>
    cases hother with
    | cut _ hend' hrest =>
      obtain rfl := Option.some_inj.mp (hend.symm.trans hend')
      rw [ih hrest]
    | take hnone => exact absurd (hend.symm.trans hnone) (by simp)
    | close hnone => exact absurd (hend.symm.trans hnone) (by simp)
    | done => exact absurd rfl (hne rfl)
  | take hnone _ ih =>
    cases hother with
    | cut _ hend => exact absurd (hend.symm.trans hnone) (by simp)
    | take _ hrest => exact ih hrest
  | close hnone _ ih =>
    cases hother with
    | cut _ hend => exact absurd (hend.symm.trans hnone) (by simp)
    | close _ hrest => exact ih hrest
  | done =>
    cases hother with
    | cut hne => exact absurd rfl (hne rfl)
    | done => rfl

theorem not_early (hcomplete : cut.isComplete = true) (hlater : cut.later = []) : ¬ Early maxWords cut := by
  rintro (⟨_, _, _, hmore⟩ | ⟨hnone, _⟩)
  · rw [hlater] at hmore
    exact absurd hmore (by decide)
  · obtain ⟨last, hlast⟩ := firstSentenceEnd_complete cut.pending
    rw [hcomplete, hlast] at hnone
    exact absurd hnone (by simp)

theorem Emits.not_early (h : Emits maxWords isComplete pending deltas cuts) (hdone : isComplete = true) :
    ∀ cut ∈ cuts, ¬ Early maxWords cut := by
  induction h with
  | cut _ _ hrest ih =>
    refine List.forall_mem_cons.mpr ⟨Cascade.not_early hdone ?_, ih hdone⟩
    rw [hrest.deltas_nil hdone, List.flatten_nil]
  | take => exact absurd hdone Bool.false_ne_true
  | close => exact absurd hdone Bool.false_ne_true
  | done => exact fun cut hcut => absurd hcut List.not_mem_nil

theorem Emits.spans_iff (hmax : 1 ≤ maxWords) (h : Emits maxWords isComplete pending deltas cuts)
    (hopen : isComplete = false) {text : Text} {whole : List SpanCut} (htext : text = pending ++ deltas.flatten)
    (hshort : Short maxWords text) (hwhole : Emits maxWords false text [] whole) :
    cuts.map SpanCut.span = whole.map SpanCut.span ↔ ∀ cut ∈ cuts, ¬ Early maxWords cut := by
  induction h generalizing text whole with
  | take _ _ ih => exact ih rfl (by rw [htext, List.flatten_cons, List.append_assoc]) hshort hwhole
  | close hnone hrest =>
    have hsame : text = _ := htext.trans (List.append_nil _)
    subst hsame
    rw [(Emits.close hnone hrest).unique hwhole]
    refine iff_of_true rfl ?_
    rw [← (Emits.close hnone hrest).unique hwhole]
    exact hrest.not_early rfl
  | done => exact absurd hopen (by decide)
  | @cut isComplete pending deltas stop cuts hne hend hrest ih =>
    subst hopen htext
    obtain ⟨hearly, hkept⟩ := foretells hmax hshort hend
    have hbounds := sentenceEnd_bounds hmax hend hne
    rw [List.forall_mem_cons]
    by_cases hcut : Early maxWords ⟨pending, false, stop, deltas.flatten⟩
    · obtain ⟨other, hother, hdiffers⟩ := hearly hcut
      refine iff_of_false (fun hspans => ?_) fun h => h.1 hcut
      cases hwhole with
      | cut _ hend' =>
        obtain rfl := Option.some_inj.mp (hother.symm.trans hend')
        have hle := (sentenceEnd_bounds hmax hother fun h => absurd h Bool.false_ne_true).2
        have hlength := congrArg List.length (List.cons_eq_cons.mp hspans).1
        simp only [SpanCut.span, List.length_take_of_le hbounds.2, List.length_take_of_le hle] at hlength
        exact hdiffers hlength.symm
      | close hnone => exact absurd (hother.symm.trans hnone) (by simp)
    · obtain ⟨hsame, hrestShort⟩ := hkept hcut
      cases hwhole with
      | cut _ hend' hrest' =>
        obtain rfl := Option.some_inj.mp (hsame.symm.trans hend')
        have := ih rfl (List.drop_append_of_le_length hbounds.2) hrestShort hrest'
        rw [← this]
        constructor
        · exact fun hspans => ⟨hcut, (List.cons_eq_cons.mp hspans).2⟩
        · rintro ⟨_, hspans⟩
          rw [List.map_cons, List.map_cons, hspans, SpanCut.span, SpanCut.span,
            List.take_append_of_le_length hbounds.2]
      | close hnone => exact absurd (hsame.symm.trans hnone) (by simp)

/-- An end of the first sentence that is found before the reply is complete stays where it is, and a reply
with short sentences has the same spans however it comes, but where the punctuation is not over or the
line ends after a cut. -/
theorem sentences_stable (text more : Text) (isComplete : Bool) (deltas : List Text) (maxWords : Nat) :
    (∀ stop, firstSentenceEnd text false = some stop →
      (firstSentenceEnd (text ++ more) isComplete = some stop
        ↔ ¬ (Open (text.take stop) (text.drop stop) ∧ startsBlank more = false)))
    ∧ (1 ≤ maxWords → Short maxWords deltas.flatten →
      ∃ cuts whole, sentences deltas maxWords = some cuts ∧ sentences [deltas.flatten] maxWords = some whole
        ∧ (cuts.map SpanCut.span = whole.map SpanCut.span ↔ ∀ cut ∈ cuts, ¬ Early maxWords cut)) := by
  refine ⟨fun stop h => firstSentenceEnd_append h more isComplete, fun hmax hshort => ?_⟩
  obtain ⟨cuts, hcuts, h⟩ := sentences_emits hmax deltas
  obtain ⟨whole, hwhole, h'⟩ := sentences_emits hmax [deltas.flatten]
  refine ⟨cuts, whole, hcuts, hwhole, ?_⟩
  cases h' with
  | cut _ hend => exact absurd ((sentenceEnd_nil hmax).symm.trans hend) (by simp)
  | take _ hrest => exact h.spans_iff hmax rfl rfl hshort hrest

/-- The run of punctuation grows after its end was found. -/
theorem sentences_stable_growing : firstSentenceEnd "你好。！".toList false = some 3
    ∧ firstSentenceEnd ("你好。！".toList ++ "再见".toList) true = some 4 := by decide +kernel

theorem sentences_stable_sample :
    (firstSentenceEnd ("Yes. ".toList ++ "No.".toList) true = some 4
      ↔ ¬ (Open ("Yes. ".toList.take 4) ("Yes. ".toList.drop 4) ∧ startsBlank "No.".toList = false))
    ∧ ∃ cuts whole, sentences ["Yes. ".toList, "No.".toList] 4 = some cuts
      ∧ sentences [["Yes. ".toList, "No.".toList].flatten] 4 = some whole
      ∧ (cuts.map SpanCut.span = whole.map SpanCut.span ↔ ∀ cut ∈ cuts, ¬ Early 4 cut) := by
  obtain ⟨hends, hspans⟩ := sentences_stable "Yes. ".toList "No.".toList true ["Yes. ".toList, "No.".toList] 4
  exact ⟨hends 4 (by decide +kernel), hspans (by decide)
    (.cons (show _ = some 4 by decide +kernel) (by decide +kernel)
      (.cons (show _ = some 4 by decide +kernel) (by decide +kernel) .nil))⟩

end Cascade
