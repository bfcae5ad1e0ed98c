import SglangOmni.Cascade.SentenceEnds

/-! The spans of a reply that are sent to speech: whole sentences, and parts of a sentence that is longer
than a span may be. -/

namespace Cascade

/-! ### The spans -/

/-- Whether a cut is nearer to the ideal than another, by the key `(abs(cut - ideal), -cut)`. -/
def isNearer (twiceIdeal cut other : Nat) : Bool :=
  let away (count : Nat) : Nat := (2 * (count : Int) - twiceIdeal).natAbs
  away cut < away other || (away cut == away other && other < cut)

def nearestCut (twiceIdeal : Nat) : List Nat → Option Nat
  | [] => none
  | cut :: cuts => some (cuts.foldl (fun best cut => if isNearer twiceIdeal cut best then cut else best) cut)

def endsClause (text : Text) (words : List Nat) (count : Nat) : Bool :=
  words[count - 1]?.any fun stop => endsIn isClauseMark (wordBefore text stop)

def cutCount (text : Text) (words : List Nat) (low high twiceIdeal : Nat) : Nat :=
  let clauseCuts := (List.range' low (high + 1 - low)).filter (endsClause text words)
  (nearestCut twiceIdeal clauseCuts).getD ((twiceIdeal + 1) / 2)

def sentenceEnd (text : Text) (maxWords : Nat) (isComplete : Bool) : Option Nat :=
  let half := (maxWords + 1) / 2
  match firstSentenceEnd text isComplete with
  | some stop =>
    let words := wordEnds (text.take stop)
    if words.length ≤ maxWords then some stop
    else if words.length ≤ 2 * maxWords then
      words[cutCount text words (max (words.length - maxWords) half) (min maxWords (words.length - half))
        words.length - 1]?
    else words[cutCount text words half maxWords (2 * maxWords) - 1]?
  | none =>
    let words := completeWordEnds text
    if words.length < maxWords + half - 1 then none
    else words[cutCount text words half maxWords (2 * maxWords) - 1]?

/-- A span as it is cut from the pending text, with the text of the reply that comes later. -/
structure SpanCut where
  pending : Text
  isComplete : Bool
  stop : Nat
  later : Text
deriving DecidableEq

def SpanCut.span (cut : SpanCut) : Text := cut.pending.take cut.stop

def cutReady (maxWords : Nat) (later : Text) : Nat → Text → Option (List SpanCut × Text)
  | 0, _ => none
  | fuel + 1, pending =>
    match sentenceEnd pending maxWords false with
    | none => some ([], pending)
    | some stop => do
      let (cuts, pending') ← cutReady maxWords later fuel (pending.drop stop)
      pure (⟨pending, false, stop, later⟩ :: cuts, pending')

/-- The loop over the spans of a complete text; where no end is found it never gets on. -/
def cutRest (maxWords : Nat) : Nat → Text → Option (List SpanCut)
  | 0, _ => none
  | fuel + 1, pending =>
    if pending.isEmpty then some []
    else
      match sentenceEnd pending maxWords true with
      | none => none
      | some stop => do
        let cuts ← cutRest maxWords fuel (pending.drop stop)
        pure (⟨pending, true, stop, []⟩ :: cuts)

def cutDeltas (maxWords : Nat) : Text → List Text → Option (List SpanCut)
  | pending, [] => cutRest maxWords (pending.length + 1) pending
  | pending, delta :: deltas => do
    let (cuts, pending') ←
      cutReady maxWords deltas.flatten ((pending ++ delta).length + 1) (pending ++ delta)
    let rest ← cutDeltas maxWords pending' deltas
    pure (cuts ++ rest)

def sentences (deltas : List Text) (maxWords : Nat) : Option (List SpanCut) := cutDeltas maxWords [] deltas

example : (sentences ["One. Two, three".toList, " four. Five".toList] 2).map (·.map SpanCut.span)
    = some ["One.".toList, " Two,".toList, " three four.".toList, " Five".toList] := by decide

/-! ### Counts of words -/

variable {text before after more : Text} {maxWords stop : Nat} {isComplete : Bool}

theorem length_wordEnds (text : Text) : (wordEnds text).length = wordCount text := by
  induction text with
  | nil => rfl
  | cons c rest ih =>
    rw [wordEnds, List.length_append, List.length_map, ih, wordCount]
    cases hc : isSpace c with
    | true => simp
    | false =>
      cases hblank : rest.head?.all isSpace with
      | true => simp [startsBlank, hblank, Nat.add_comm]
      | false => simp [startsBlank, hblank]

theorem wordEnds_append (h : endsWord before = false ∨ startsBlank after = true) :
    wordEnds (before ++ after) = wordEnds before ++ (wordEnds after).map (before.length + ·) := by
  induction before with
  | nil => simp [wordEnds]
  | cons c before ih =>
    have hrest : endsWord before = false ∨ startsBlank after = true := by
      cases before with
      | nil => exact .inl rfl
      | cons d before =>
        exact h.imp_left fun h => (endsWord_append (List.cons_ne_nil d before)).symm.trans
          (show endsWord ([c] ++ d :: before) = false from h)
    have hfirst : (!isSpace c && startsBlank (before ++ after)) = (!isSpace c && startsBlank before) := by
      cases before with
      | nil =>
        rcases h with h | h
        · rw [show isSpace c = true by simpa [endsWord] using h]
          rfl
        · rw [List.nil_append, h]
          rfl
      | cons d before => rw [startsBlank_append (List.cons_ne_nil d before)]
    rw [List.cons_append, wordEnds, wordEnds, ih hrest, hfirst, List.map_append, List.map_map, List.append_assoc]
    refine congrArg _ (congrArg _ (List.map_congr_left fun p _ => ?_))
    simp only [Function.comp_apply, List.length_cons]
    omega

theorem wordCount_append (h : endsWord before = false ∨ startsBlank after = true) :
    wordCount (before ++ after) = wordCount before + wordCount after := by
  simp only [← length_wordEnds, wordEnds_append h, List.length_append, List.length_map]

theorem wordCount_eq_zero : wordCount text = 0 ↔ ∀ x ∈ text, isSpace x = true := by
  induction text with
  | nil => simp [wordCount]
  | cons c rest ih =>
    rw [wordCount, List.forall_mem_cons, ← ih]
    cases hc : isSpace c with
    | true => simp
    | false =>
      cases rest with
      | nil => simp
      | cons d rest =>
        simp only [Bool.false_eq_true, if_false, false_and, iff_false]
        split
        · exact Nat.succ_ne_zero _
        · next hd =>
          rw [ih]
          intro hall
          exact hd (hall d List.mem_cons_self)

theorem wordCount_le_append (before after : Text) : wordCount before ≤ wordCount (before ++ after) := by
  induction before with
  | nil => exact Nat.zero_le _
  | cons c before ih =>
    cases before with
    | nil =>
      cases hc : isSpace c with
      | true => simp [wordCount, hc]
      | false =>
        have hsome : wordCount ([c] ++ after) ≠ 0 := by
          rw [Ne, wordCount_eq_zero]
          intro hall
          exact absurd (hc.symm.trans (hall c (by simp))) Bool.false_ne_true
        have hone : wordCount [c] ≤ 1 := by
          simp [wordCount, hc]
        omega
    | cons d before =>
      have hfirst : ∀ rest : Text, wordCount (c :: d :: rest) = if isSpace c then wordCount (d :: rest)
          else if isSpace d then wordCount (d :: rest) + 1 else wordCount (d :: rest) := fun _ => rfl
      rw [List.cons_append, List.cons_append, hfirst, hfirst]
      split
      · exact ih
      split
      · exact Nat.succ_le_succ ih
      · exact ih

theorem wordCount_take_le (text : Text) (p : Nat) : wordCount (text.take p) ≤ wordCount text := by
  conv_rhs => rw [← List.take_append_drop p text]
  exact wordCount_le_append _ _

theorem wordCount_take {count : Nat} (h : (wordEnds text)[count]? = some stop) :
    wordCount (text.take stop) = count + 1 := by
  induction text generalizing count stop with
  | nil => exact absurd h (by simp [wordEnds])
  | cons c rest ih =>
    have hrest : ∀ q ∈ wordEnds rest, startsBlank (rest.take q) = startsBlank rest := by
      intro q hq
      obtain ⟨hpos, hle⟩ := wordEnds_bounds rest q hq
      conv_rhs => rw [← List.take_append_drop q rest]
      rw [startsBlank_append]
      rw [Ne, List.take_eq_nil_iff]
      rintro (rfl | rfl)
      · exact Nat.lt_irrefl _ hpos
      · exact Nat.lt_irrefl _ (Nat.lt_of_lt_of_le hpos hle)
    rw [wordEnds] at h
    by_cases hone : (!isSpace c && startsBlank rest) = true
    · rw [if_pos hone, List.singleton_append] at h
      rw [Bool.and_eq_true, Bool.not_eq_true'] at hone
      cases count with
      | zero =>
        rw [← Option.some_inj.mp h]
        simp [wordCount, hone.1]
      | succ count =>
        rw [List.getElem?_cons_succ, List.getElem?_map] at h
        obtain ⟨q, hq, rfl⟩ := Option.map_eq_some_iff.mp h
        have hblank := (hrest q (List.mem_of_getElem? hq)).trans hone.2
        rw [List.take_succ_cons, wordCount, if_neg (by rw [hone.1]; exact Bool.false_ne_true),
          if_pos (show (rest.take q).head?.all isSpace = true from hblank), ih hq]
    · rw [if_neg hone, List.nil_append, List.getElem?_map] at h
      obtain ⟨q, hq, rfl⟩ := Option.map_eq_some_iff.mp h
      rw [List.take_succ_cons, wordCount]
      split
      · exact ih hq
      · next hc =>
        rw [if_neg, ih hq]
        intro hblank
        refine hone (Bool.and_eq_true_iff.mpr ⟨by simpa using hc, ?_⟩)
        rw [← hrest q (List.mem_of_getElem? hq)]
        exact hblank

theorem wordCount_drop {count : Nat} (h : (wordEnds text)[count]? = some stop) :
    wordCount text = count + 1 + wordCount (text.drop stop) := by
  have hmem := List.mem_of_getElem? h
  have hblank := ((mem_wordEnds (wordEnds_bounds text stop hmem).2).mp hmem).2
  conv_lhs => rw [← List.take_append_drop stop text]
  rw [wordCount_append (.inr hblank), wordCount_take h]

theorem filter_prefix_of_sorted {l : List Nat} (hl : l.Pairwise (· < ·)) (n : Nat) :
    l.filter (· < n) <+: l := by
  induction l with
  | nil => exact List.prefix_refl _
  | cons a l ih =>
    obtain ⟨ha, hl⟩ := List.pairwise_cons.mp hl
    by_cases hlt : a < n
    · rw [List.filter_cons_of_pos (by simpa using hlt)]
      exact List.cons_prefix_cons.mpr ⟨rfl, ih hl⟩
    · rw [List.filter_cons_of_neg (by simpa using hlt), List.filter_eq_nil_iff.mpr]
      · exact List.nil_prefix
      · intro b hb
        have := ha b hb
        simp only [decide_eq_true_eq]
        omega

theorem wordEnds_of_complete {count : Nat} (h : (completeWordEnds text)[count]? = some stop) :
    (wordEnds text)[count]? = some stop ∧ stop < text.length := by
  refine ⟨?_, by simpa using (List.mem_filter.mp (List.mem_of_getElem? h)).2⟩
  obtain ⟨more, heq⟩ := filter_prefix_of_sorted (wordEnds_sorted text) text.length
  rw [completeWordEnds] at h
  rw [← heq, List.getElem?_append_left (List.getElem?_eq_some_iff.mp h).1]
  exact h

theorem length_completeWordEnds (text : Text) :
    (completeWordEnds text).length + (if endsWord text then 1 else 0) = wordCount text := by
  have hlast : text.length ∈ wordEnds text ↔ endsWord text = true := by
    rw [mem_wordEnds (Nat.le_refl _), List.take_length, List.drop_length]
    exact and_iff_left rfl
  have hrest : (wordEnds text).countP (fun p => ! decide (p < text.length))
      = (wordEnds text).count text.length := by
    refine List.countP_congr fun p hp => ?_
    have := (wordEnds_bounds text p hp).2
    simp only [Bool.not_eq_true', decide_eq_false_iff_not, beq_iff_eq]
    omega
  have hnodup : (wordEnds text).Nodup := (wordEnds_sorted text).imp Nat.ne_of_lt
  rw [← length_wordEnds, completeWordEnds, ← List.countP_eq_length_filter,
    List.length_eq_countP_add_countP (fun p => decide (p < text.length)) (l := wordEnds text)]
  refine congrArg _ (Eq.trans ?_ (Eq.trans hrest.symm (List.countP_congr fun p _ => by simp)))
  rw [hnodup.count]
  exact if_congr hlast.symm rfl rfl

/-! ### The end of a span -/

theorem isNearer_eq_false {twiceIdeal cut other : Nat} : isNearer twiceIdeal cut other = false ↔
    (2 * (other : Int) - twiceIdeal).natAbs < (2 * (cut : Int) - twiceIdeal).natAbs
      ∨ (2 * (cut : Int) - twiceIdeal).natAbs = (2 * (other : Int) - twiceIdeal).natAbs ∧ cut ≤ other := by
  simp only [isNearer, Bool.or_eq_false_iff, Bool.and_eq_false_iff, decide_eq_false_iff_not,
    beq_eq_false_iff_ne]
  omega

theorem isNearer_trans {twiceIdeal best cut other : Nat} (hcut : isNearer twiceIdeal cut best = true)
    (hother : isNearer twiceIdeal other best = false) : isNearer twiceIdeal other cut = false := by
  by_contra hnot
  rw [isNearer_eq_false] at hother hnot
  have hcut : ¬ isNearer twiceIdeal cut best = false := by rw [hcut]; decide
  rw [isNearer_eq_false] at hcut
  omega

theorem nearestCut_spec {twiceIdeal count : Nat} {cuts : List Nat} (h : nearestCut twiceIdeal cuts = some count) :
    count ∈ cuts ∧ ∀ cut ∈ cuts, isNearer twiceIdeal cut count = false := by
  cases cuts with
  | nil => exact absurd h (by simp [nearestCut])
  | cons cut cuts =>
    rw [nearestCut, Option.some_inj] at h
    subst h
    suffices hfold : ∀ seen best, best ∈ seen → (∀ cut ∈ seen, isNearer twiceIdeal cut best = false) →
        cuts.foldl (fun best cut => if isNearer twiceIdeal cut best then cut else best) best ∈ seen ++ cuts
        ∧ ∀ cut ∈ seen ++ cuts, isNearer twiceIdeal cut
          (cuts.foldl (fun best cut => if isNearer twiceIdeal cut best then cut else best) best) = false by
      refine hfold [cut] cut (by simp) fun other hother => ?_
      rw [List.mem_singleton.mp hother]
      exact isNearer_eq_false.mpr (.inr ⟨rfl, Nat.le_refl _⟩)
    clear cut
    induction cuts with
    | nil => exact fun seen best hbest hleast => by simpa using ⟨hbest, hleast⟩
    | cons cut cuts ih =>
      intro seen best hbest hleast
      have hnext := ih (seen ++ [cut]) (if isNearer twiceIdeal cut best then cut else best)
        (by split <;> simp [hbest]) fun other hother => ?_
      · simpa using hnext
      · rcases List.mem_append.mp hother with hother | hother
        · split
          · next hnearer => exact isNearer_trans hnearer (hleast other hother)
          · exact hleast other hother
        · rw [List.mem_singleton.mp hother]
          split
          · exact isNearer_eq_false.mpr (.inr ⟨rfl, Nat.le_refl _⟩)
          · next hnearer => simpa using hnearer

theorem nearestCut_eq_none {twiceIdeal : Nat} {cuts : List Nat} (h : nearestCut twiceIdeal cuts = none) :
    cuts = [] := by
  cases cuts with
  | nil => rfl
  | cons cut cuts => exact absurd h (by simp [nearestCut])

theorem cutCount_range (text : Text) (words : List Nat) {low high twiceIdeal : Nat} (hlow : 2 * low ≤ twiceIdeal + 1)
    (hhigh : twiceIdeal ≤ 2 * high) : low ≤ cutCount text words low high twiceIdeal
      ∧ cutCount text words low high twiceIdeal ≤ high := by
  rw [cutCount]
  cases h : nearestCut twiceIdeal ((List.range' low (high + 1 - low)).filter (endsClause text words)) with
  | none =>
    rw [Option.getD_none]
    omega
  | some count =>
    have := List.mem_range'_1.mp (List.mem_filter.mp (nearestCut_spec h).1).1
    rw [Option.getD_some]
    omega

/-- Whether a sentence whose end is not known is cut after as many words as a span may have. -/
def CutsAtLimit (text : Text) (maxWords : Nat) : Prop :=
  endsClause text (completeWordEnds text) maxWords = true
    ∨ ∀ count < maxWords, (maxWords + 1) / 2 ≤ count → endsClause text (completeWordEnds text) count = false

theorem cutCount_eq_max (hmax : 1 ≤ maxWords) :
    cutCount text (completeWordEnds text) ((maxWords + 1) / 2) maxWords (2 * maxWords) = maxWords
      ↔ CutsAtLimit text maxWords := by
  rw [cutCount, CutsAtLimit]
  cases h : nearestCut (2 * maxWords) ((List.range' ((maxWords + 1) / 2)
      (maxWords + 1 - (maxWords + 1) / 2)).filter (endsClause text (completeWordEnds text))) with
  | none =>
    refine iff_of_true (by rw [Option.getD_none]; omega) (.inr fun count hlt hle => ?_)
    have hempty := nearestCut_eq_none h
    rw [List.filter_eq_nil_iff] at hempty
    exact Bool.not_eq_true _ ▸ hempty count (List.mem_range'_1.mpr (by omega))
  | some count =>
    obtain ⟨hmem, hnearest⟩ := nearestCut_spec h
    rw [List.mem_filter, List.mem_range'_1] at hmem
    rw [Option.getD_some]
    constructor
    · rintro rfl
      exact .inl hmem.2
    · rintro (hclause | hnone)
      · have := hnearest maxWords (List.mem_filter.mpr ⟨List.mem_range'_1.mpr (by omega), hclause⟩)
        rw [isNearer_eq_false] at this
        omega
      · by_contra hne
        exact absurd (hmem.2.symm.trans (hnone count (by omega) hmem.1.1)) (by decide)

/-- A cut behind one of the words of a text, with some of them on either side. -/
structure CutAt (text : Text) (stop count rest : Nat) : Prop where
  taken : wordCount (text.take stop) = count
  left : wordCount (text.drop stop) = rest
  pos : 0 < stop
  lt : stop < text.length
  word : endsWord (text.take stop) = true
  blank : startsBlank (text.drop stop) = true

/-- What `sentence_end` returns: the end of a sentence that is short enough, a cut inside a longer one,
a cut while the sentence goes on, or no end yet. -/
inductive SpanEnd (text : Text) (maxWords : Nat) (isComplete : Bool) : Option Nat → Prop where
  | whole {stop : Nat} (hend : firstSentenceEnd text isComplete = some stop)
      (hwords : wordCount (text.take stop) ≤ maxWords) : SpanEnd text maxWords isComplete (some stop)
  | inside {last stop count : Nat} (hend : firstSentenceEnd text isComplete = some last)
      (hlong : maxWords < wordCount (text.take last))
      (hcut : CutAt (text.take last) stop count (wordCount (text.take last) - count))
      (hlow : (maxWords + 1) / 2 ≤ count) (hhigh : count ≤ maxWords)
      (hrest : (maxWords + 1) / 2 ≤ wordCount (text.take last) - count) :
      SpanEnd text maxWords isComplete (some stop)
  | ahead {stop count : Nat} (hend : firstSentenceEnd text isComplete = none)
      (hwords : maxWords + (maxWords + 1) / 2 ≤ (completeWordEnds text).length + 1)
      (hcount : count = cutCount text (completeWordEnds text) ((maxWords + 1) / 2) maxWords (2 * maxWords))
      (hstop : (completeWordEnds text)[count - 1]? = some stop)
      (hcut : CutAt text stop count (wordCount text - count))
      (hlow : (maxWords + 1) / 2 ≤ count) (hhigh : count ≤ maxWords) :
      SpanEnd text maxWords isComplete (some stop)
  | wait (hend : firstSentenceEnd text isComplete = none)
      (hwords : (completeWordEnds text).length + 1 < maxWords + (maxWords + 1) / 2) :
      SpanEnd text maxWords isComplete none

theorem cutAt_of_wordEnds {count : Nat} (h : (wordEnds text)[count - 1]? = some stop) (hcount : 1 ≤ count)
    (hlt : stop < text.length) : CutAt text stop count (wordCount text - count) where
  taken := by rw [wordCount_take h]; omega
  left := by rw [wordCount_drop h]; omega
  pos := (wordEnds_bounds text stop (List.mem_of_getElem? h)).1
  lt := hlt
  word := ((mem_wordEnds (Nat.le_of_lt hlt)).mp (List.mem_of_getElem? h)).1
  blank := ((mem_wordEnds (Nat.le_of_lt hlt)).mp (List.mem_of_getElem? h)).2

theorem exists_cutAt (text : Text) {count : Nat} (hcount : 1 ≤ count) (hlt : count < wordCount text) :
    ∃ stop, (wordEnds text)[count - 1]? = some stop ∧ CutAt text stop count (wordCount text - count) := by
  rw [← length_wordEnds] at hlt
  have h := List.getElem?_eq_getElem (show count - 1 < (wordEnds text).length by omega)
  refine ⟨_, h, cutAt_of_wordEnds h hcount ?_⟩
  refine Nat.lt_of_le_of_ne (wordEnds_bounds text _ (List.getElem_mem _)).2 fun heq => ?_
  have hleft := wordCount_drop h
  rw [heq, List.drop_length, ← length_wordEnds] at hleft
  have : wordCount [] = 0 := rfl
  omega

theorem sentenceEnd_spec (hmax : 1 ≤ maxWords) (text : Text) (isComplete : Bool) :
    SpanEnd text maxWords isComplete (sentenceEnd text maxWords isComplete) := by
  unfold sentenceEnd
  cases hend : firstSentenceEnd text isComplete with
  | some last =>
    simp only [length_wordEnds]
    have hinside : ∀ count, (maxWords + 1) / 2 ≤ count → count ≤ maxWords → maxWords < wordCount (text.take last) →
        (maxWords + 1) / 2 ≤ wordCount (text.take last) - count →
        SpanEnd text maxWords isComplete (wordEnds (text.take last))[count - 1]? := by
      intro count hlow hhigh hlong hrest
      obtain ⟨stop, hstop, hcut⟩ := exists_cutAt (text.take last) (show 1 ≤ count by omega) (by omega)
      rw [hstop]
      exact .inside hend hlong hcut hlow hhigh hrest
    split
    · next hwords => exact .whole hend hwords
    split
    · obtain ⟨hlow, hhigh⟩ := cutCount_range text (wordEnds (text.take last))
        (show 2 * max (wordCount (text.take last) - maxWords) ((maxWords + 1) / 2)
          ≤ wordCount (text.take last) + 1 by omega)
        (show wordCount (text.take last)
          ≤ 2 * min maxWords (wordCount (text.take last) - (maxWords + 1) / 2) by omega)
      exact hinside _ (by omega) (by omega) (by omega) (by omega)
    · obtain ⟨hlow, hhigh⟩ := cutCount_range text (wordEnds (text.take last))
        (show 2 * ((maxWords + 1) / 2) ≤ 2 * maxWords + 1 by omega) (Nat.le_refl _)
      exact hinside _ hlow hhigh (by omega) (by omega)
  | none =>
    simp only
    split
    · exact .wait hend (by omega)
    · obtain ⟨hlow, hhigh⟩ := cutCount_range text (completeWordEnds text)
        (show 2 * ((maxWords + 1) / 2) ≤ 2 * maxWords + 1 by omega) (Nat.le_refl _)
      have hstop := List.getElem?_eq_getElem (l := completeWordEnds text)
        (i := cutCount text (completeWordEnds text) ((maxWords + 1) / 2) maxWords (2 * maxWords) - 1) (by omega)
      obtain ⟨hword, hlt⟩ := wordEnds_of_complete hstop
      rw [hstop]
      exact .ahead hend (by omega) rfl hstop (cutAt_of_wordEnds hword (by omega) hlt) hlow hhigh

theorem SpanEnd.bounds (h : SpanEnd text maxWords isComplete (some stop)) (hne : text ≠ []) :
    0 < stop ∧ stop ≤ text.length := by
  cases h with
  | whole hend => exact firstSentenceEnd_bounds hend hne
  | inside hend _ hcut =>
    have := hcut.lt
    rw [List.length_take] at this
    exact ⟨hcut.pos, by omega⟩
  | ahead _ _ _ _ hcut => exact ⟨hcut.pos, Nat.le_of_lt hcut.lt⟩

theorem sentenceEnd_nil (hmax : 1 ≤ maxWords) : sentenceEnd [] maxWords false = none := by
  have hnone : firstSentenceEnd [] false = none := rfl
  rw [sentenceEnd, hnone]
  exact if_pos (show 0 < maxWords + (maxWords + 1) / 2 - 1 by omega)

theorem sentenceEnd_complete (hmax : 1 ≤ maxWords) (text : Text) :
    ∃ stop, sentenceEnd text maxWords true = some stop := by
  obtain ⟨last, hlast⟩ := firstSentenceEnd_complete text
  cases h : sentenceEnd text maxWords true with
  | some stop => exact ⟨stop, rfl⟩
  | none =>
    have hspec := sentenceEnd_spec hmax text true
    rw [h] at hspec
    cases hspec with
    | wait hend => exact absurd (hlast.symm.trans hend) (by simp)

theorem sentenceEnd_bounds (hmax : 1 ≤ maxWords) (h : sentenceEnd text maxWords isComplete = some stop)
    (hne : isComplete = true → text ≠ []) : 0 < stop ∧ stop ≤ text.length := by
  refine SpanEnd.bounds (h ▸ sentenceEnd_spec hmax text isComplete) fun hnil => ?_
  cases isComplete with
  | true => exact hne rfl hnil
  | false =>
    rw [hnil, sentenceEnd_nil hmax] at h
    exact absurd h (by simp)

/-! ### The loops -/

/-- The spans that the loops cut from the pending text and the deltas to come, first those before the last
delta and then those of the complete text. -/
inductive Emits (maxWords : Nat) : Bool → Text → List Text → List SpanCut → Prop where
  | cut {isComplete : Bool} {pending : Text} {deltas : List Text} {stop : Nat} {cuts : List SpanCut}
      (hne : isComplete = true → pending ≠ []) (hend : sentenceEnd pending maxWords isComplete = some stop)
      (hrest : Emits maxWords isComplete (pending.drop stop) deltas cuts) :
      Emits maxWords isComplete pending deltas (⟨pending, isComplete, stop, deltas.flatten⟩ :: cuts)
  | take {pending delta : Text} {deltas : List Text} {cuts : List SpanCut}
      (hend : sentenceEnd pending maxWords false = none)
      (hrest : Emits maxWords false (pending ++ delta) deltas cuts) :
      Emits maxWords false pending (delta :: deltas) cuts
  | close {pending : Text} {cuts : List SpanCut} (hend : sentenceEnd pending maxWords false = none)
      (hrest : Emits maxWords true pending [] cuts) : Emits maxWords false pending [] cuts
  | done : Emits maxWords true [] [] []

theorem cutReady_emits (hmax : 1 ≤ maxWords) (deltas : List Text) (fuel : Nat) (pending : Text)
    (hfuel : pending.length < fuel) : ∃ cuts pending',
      cutReady maxWords deltas.flatten fuel pending = some (cuts, pending')
      ∧ sentenceEnd pending' maxWords false = none
      ∧ ∀ rest, Emits maxWords false pending' deltas rest → Emits maxWords false pending deltas (cuts ++ rest) := by
  induction fuel generalizing pending with
  | zero => exact absurd hfuel (Nat.not_lt_zero _)
  | succ fuel ih =>
    rw [cutReady]
    cases hend : sentenceEnd pending maxWords false with
    | none => exact ⟨[], pending, rfl, hend, fun rest hrest => hrest⟩
    | some stop =>
      have hne : false = true → pending ≠ [] := fun h => absurd h Bool.false_ne_true
      have hpos := (sentenceEnd_bounds hmax hend hne).1
      have hlength := List.length_drop (i := stop) (l := pending)
      have hle := (sentenceEnd_bounds hmax hend hne).2
      obtain ⟨cuts, pending', hready, hnone, hrest⟩ := ih (pending.drop stop) (by omega)
      refine ⟨_ :: cuts, pending', ?_, hnone, fun rest h => .cut hne hend (hrest rest h)⟩
      simp only [hready]
      rfl

theorem cutRest_emits (hmax : 1 ≤ maxWords) (fuel : Nat) (pending : Text) (hfuel : pending.length < fuel) :
    ∃ cuts, cutRest maxWords fuel pending = some cuts ∧ Emits maxWords true pending [] cuts := by
  induction fuel generalizing pending with
  | zero => exact absurd hfuel (Nat.not_lt_zero _)
  | succ fuel ih =>
    rw [cutRest]
    by_cases hnil : pending = []
    · subst hnil
      exact ⟨[], rfl, .done⟩
    · obtain ⟨stop, hend⟩ := sentenceEnd_complete hmax pending
      have hbounds := sentenceEnd_bounds hmax hend fun _ => hnil
      have hlength := List.length_drop (i := stop) (l := pending)
      obtain ⟨cuts, hcuts, hrest⟩ := ih (pending.drop stop) (by omega)
      refine ⟨_ :: cuts, ?_, .cut (fun _ => hnil) hend hrest⟩
      simp only [List.isEmpty_iff, hnil, if_false, hend, hcuts]
      rfl

theorem cutDeltas_emits (hmax : 1 ≤ maxWords) (deltas : List Text) (pending : Text)
    (hend : sentenceEnd pending maxWords false = none) :
    ∃ cuts, cutDeltas maxWords pending deltas = some cuts ∧ Emits maxWords false pending deltas cuts := by
  induction deltas generalizing pending with
  | nil =>
    obtain ⟨cuts, hcuts, hrest⟩ := cutRest_emits hmax _ pending (Nat.lt_succ_self _)
    exact ⟨cuts, hcuts, .close hend hrest⟩
  | cons delta deltas ih =>
    obtain ⟨cuts, pending', hready, hnone, hemits⟩ :=
      cutReady_emits hmax deltas _ (pending ++ delta) (Nat.lt_succ_self _)
    obtain ⟨rest, hrest, hmore⟩ := ih pending' hnone
    refine ⟨cuts ++ rest, ?_, .take hend (hemits rest hmore)⟩
    rw [cutDeltas, hready]
    simp only [Option.bind_eq_bind, Option.bind_some, hrest]
    rfl

theorem sentences_emits (hmax : 1 ≤ maxWords) (deltas : List Text) :
    ∃ cuts, sentences deltas maxWords = some cuts ∧ Emits maxWords false [] deltas cuts :=
  cutDeltas_emits hmax deltas [] (sentenceEnd_nil hmax)

variable {pending : Text} {deltas : List Text} {cuts : List SpanCut}

theorem Emits.joined (h : Emits maxWords isComplete pending deltas cuts) :
    (cuts.map SpanCut.span).flatten = pending ++ deltas.flatten := by
  induction h with
  | cut _ _ _ ih =>
    rw [List.map_cons, List.flatten_cons, ih, SpanCut.span, ← List.append_assoc, List.take_append_drop]
  | take _ _ ih => rw [ih, List.flatten_cons, List.append_assoc]
  | close _ _ ih => exact ih
  | done => rfl

theorem Emits.forall_cut {P : SpanCut → Prop} (h : Emits maxWords isComplete pending deltas cuts)
    (hcut : ∀ cut : SpanCut, (cut.isComplete = true → cut.pending ≠ []) →
      sentenceEnd cut.pending maxWords cut.isComplete = some cut.stop → P cut) : ∀ cut ∈ cuts, P cut := by
  induction h with
  | cut hne hend _ ih => exact List.forall_mem_cons.mpr ⟨hcut _ hne hend, ih⟩
  | take _ _ ih => exact ih
  | close _ _ ih => exact ih
  | done => exact fun cut h => absurd h List.not_mem_nil

theorem SpanEnd.wordCount_le (h : SpanEnd text maxWords isComplete (some stop)) :
    wordCount (text.take stop) ≤ maxWords := by
  cases h with
  | whole _ hwords => exact hwords
  | inside _ _ hcut _ hhigh =>
    have hlt := hcut.lt
    rw [List.length_take] at hlt
    have htaken := hcut.taken
    rw [List.take_take, Nat.min_eq_left (by omega)] at htaken
    omega
  | ahead _ _ _ _ hcut _ hhigh => exact hcut.taken ▸ hhigh

theorem Emits.bounded (hmax : 1 ≤ maxWords) (h : Emits maxWords isComplete pending deltas cuts) :
    ∀ cut ∈ cuts, cut.span ≠ [] ∧ wordCount cut.span ≤ maxWords := by
  refine h.forall_cut fun cut hne hend => ?_
  have hbounds := sentenceEnd_bounds hmax hend hne
  refine ⟨?_, SpanEnd.wordCount_le (hend ▸ sentenceEnd_spec hmax _ _)⟩
  rw [SpanCut.span, Ne, List.take_eq_nil_iff]
  rintro (hzero | hnil)
  · omega
  · rw [hnil] at hbounds
    exact absurd hbounds.2 (Nat.not_le_of_lt hbounds.1)

end Cascade
