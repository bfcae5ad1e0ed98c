import SglangOmni.Cascade.Sentences

/-! The first sentence end of a text is the first of its ends, and text that follows moves it only when
its punctuation was not over. -/

namespace Cascade

variable {isMark : Char → Bool} {text before after more : Text} {c : Char} {stop : Nat}

/-! ### The first sentence end -/

theorem wordEnds_bounds (text : Text) : ∀ p ∈ wordEnds text, 0 < p ∧ p ≤ text.length := by
  induction text with
  | nil => simp [wordEnds]
  | cons c rest ih =>
    intro p hp
    rw [wordEnds, List.mem_append] at hp
    rcases hp with hp | hp
    · split at hp
      · rw [List.mem_singleton.mp hp]
        simp
      · exact absurd hp List.not_mem_nil
    · obtain ⟨q, hq, rfl⟩ := List.mem_map.mp hp
      exact ⟨Nat.succ_pos q, Nat.succ_le_succ (ih q hq).2⟩

theorem wordEnds_sorted (text : Text) : (wordEnds text).Pairwise (· < ·) := by
  induction text with
  | nil => exact .nil
  | cons c rest ih =>
    rw [wordEnds, List.pairwise_append]
    refine ⟨?_, List.pairwise_map.mpr (ih.imp fun h => Nat.succ_lt_succ h), ?_⟩
    · split
      · exact List.pairwise_singleton _ _
      · exact .nil
    · intro p hp next hnext
      obtain ⟨q, hq, rfl⟩ := List.mem_map.mp hnext
      split at hp
      · rw [List.mem_singleton.mp hp]
        exact Nat.succ_lt_succ (wordEnds_bounds rest q hq).1
      · exact absurd hp List.not_mem_nil

theorem mem_wordEnds_append (before after : Text) : before.length ∈ wordEnds (before ++ after) ↔
    endsWord before = true ∧ startsBlank after = true := by
  induction before with
  | nil => exact iff_of_false (fun h => Nat.lt_irrefl _ (wordEnds_bounds _ _ h).1) (by simp [endsWord])
  | cons c before ih =>
    have hone : before.length + 1 ∈ (if !isSpace c && startsBlank (before ++ after) then [1] else []) ↔
        before = [] ∧ isSpace c = false ∧ startsBlank after = true := by
      split
      · next h =>
        rw [Bool.and_eq_true, Bool.not_eq_true'] at h
        rw [List.mem_singleton, Nat.succ_inj, List.length_eq_zero_iff]
        exact ⟨fun hnil => ⟨hnil, h.1, by rw [hnil] at h; exact h.2⟩, And.left⟩
      · next h =>
        refine iff_of_false List.not_mem_nil ?_
        rintro ⟨rfl, hc, hblank⟩
        exact h (by rw [hc]; exact hblank)
    rw [List.cons_append, wordEnds, List.mem_append, List.length_cons, hone,
      List.mem_map_of_injective (Nat.succ_injective), ih]
    by_cases hnil : before = []
    · rw [hnil]
      simp [endsWord]
    · rw [show c :: before = [c] ++ before from rfl, endsWord_append hnil]
      simp [hnil]

theorem mem_wordEnds {p : Nat} (hp : p ≤ text.length) : p ∈ wordEnds text ↔
    endsWord (text.take p) = true ∧ startsBlank (text.drop p) = true := by
  have := mem_wordEnds_append (text.take p) (text.drop p)
  rwa [List.take_append_drop, List.length_take_of_le hp] at this

theorem mem_completeWordEnds {p : Nat} (hp : p ≤ text.length) : p ∈ completeWordEnds text ↔
    endsWord (text.take p) = true ∧ startsBlank (text.drop p) = true ∧ text.drop p ≠ [] := by
  rw [completeWordEnds, List.mem_filter, mem_wordEnds hp, and_assoc, Ne, List.drop_eq_nil_iff]
  simp

theorem firstWordEnd_eq_some : firstWordEnd text = some stop → stop ≤ text.length
    ∧ EndsBetween (text.take stop) (text.drop stop) := by
  intro h
  have hmem := List.mem_of_find?_eq_some h
  have hle := (wordEnds_bounds text stop (List.mem_filter.mp hmem).1).2
  have hends := List.find?_some h
  rw [wordBefore, endsIn_lastWord fun c => not_isSpace_of_mark] at hends
  obtain ⟨_, hblank, hmore⟩ := (mem_completeWordEnds hle).mp hmem
  exact ⟨hle, .word hends hblank hmore⟩

theorem firstWordEnd_le {p : Nat} (hp : p ≤ text.length) (hends : endsIn isSentenceMark (text.take p) = true)
    (hblank : startsBlank (text.drop p) = true) (hmore : text.drop p ≠ []) :
    ∃ stop, firstWordEnd text = some stop ∧ stop ≤ p := by
  have hmem : p ∈ completeWordEnds text :=
    (mem_completeWordEnds hp).mpr ⟨endsWord_of_endsIn (fun c => not_isSpace_of_mark) hends, hblank, hmore⟩
  have hword : endsIn isSentenceMark (wordBefore text p) = true := by
    rwa [wordBefore, endsIn_lastWord fun c => not_isSpace_of_mark]
  cases hfirst : firstWordEnd text with
  | none => exact absurd hword (List.find?_eq_none.mp hfirst p hmem)
  | some stop =>
    refine ⟨stop, rfl, ?_⟩
    obtain ⟨_, earlier, later, heq, hnone⟩ := List.find?_eq_some_iff_append.mp hfirst
    have hsorted : (completeWordEnds text).Pairwise (· < ·) := (wordEnds_sorted text).filter _
    rw [heq] at hmem hsorted
    rcases List.mem_append.mp hmem with hmem | hmem
    · exact absurd hword (by simpa using hnone p hmem)
    · rcases List.mem_cons.mp hmem with rfl | hmem
      · exact Nat.le_refl _
      · exact Nat.le_of_lt (List.rel_of_pairwise_cons (List.pairwise_append.mp hsorted).2.1 hmem)

theorem firstLineEnd_eq_some : firstLineEnd text = some stop → stop ≤ text.length
    ∧ EndsBetween (text.take stop) (text.drop stop) := by
  intro h
  have hle := List.mem_range.mp (List.mem_of_find?_eq_some h)
  have hends := List.find?_some h
  rw [Bool.and_eq_true] at hends
  exact ⟨Nat.le_of_lt_succ hle, .line hends.1 hends.2⟩

theorem firstLineEnd_le {p : Nat} (hp : p ≤ text.length) (hends : endsWord (text.take p) = true)
    (hline : lineBreak (text.drop p) = true) : ∃ stop, firstLineEnd text = some stop ∧ stop ≤ p := by
  cases hfirst : firstLineEnd text with
  | none =>
    exact absurd (Bool.and_eq_true_iff.mpr ⟨hends, hline⟩)
      (List.find?_eq_none.mp hfirst p (List.mem_range.mpr (Nat.lt_succ_of_le hp)))
  | some stop =>
    refine ⟨stop, rfl, Nat.le_of_not_lt fun hlt => ?_⟩
    have := (List.find?_range_eq_some.mp hfirst).2.2 p hlt
    rw [hends, hline] at this
    exact absurd this (by decide)

theorem startsBlank_of_closersRest_none (h : closersRest text = none) : startsBlank text = true := by
  cases text with
  | nil => rfl
  | cons c rest =>
    rw [closersRest, Option.or_eq_none_iff] at h
    cases hc : isSpace c with
    | true => exact hc
    | false => rw [hc] at h; exact absurd h.2 (by simp)

theorem closersRest_eq_some {rest : Text} (h : closersRest text = some rest) : ∃ closers c after,
    text = closers ++ c :: after ∧ rest = c :: after ∧ (∀ x ∈ closers, isCloser x = true) ∧ isSpace c = false
      ∧ (isCloser c = true → startsBlank after = true) := by
  induction text with
  | nil => exact absurd h (by simp [closersRest])
  | cons c text ih =>
    rw [closersRest] at h
    rcases Option.or_eq_some_iff.mp h with h | ⟨hnone, h⟩
    · split at h
      · next hc =>
        obtain ⟨closers, d, after, rfl, rfl, hclosers, hd⟩ := ih h
        exact ⟨c :: closers, d, after, rfl, rfl, List.forall_mem_cons.mpr ⟨hc, hclosers⟩, hd⟩
      · exact absurd h (by simp)
    · split at h
      · exact absurd h (by simp)
      · next hc =>
        rw [Bool.not_eq_true] at hc
        refine ⟨[], c, text, rfl, (Option.some_inj.mp h).symm, by simp, hc, fun hcloser => ?_⟩
        rw [if_pos hcloser] at hnone
        exact startsBlank_of_closersRest_none hnone

theorem cjkRest_eq_some {rest : Text} (h : cjkRest text = some rest) : ∃ marks closers c after,
    text = marks ++ closers ++ c :: after ∧ rest = c :: after ∧ marks ≠ []
      ∧ (∀ x ∈ marks, isCjkMark x = true) ∧ (∀ x ∈ closers, isCloser x = true) ∧ isSpace c = false
      ∧ (isCloser c = true ∨ closers = [] ∧ isCjkMark c = true → startsBlank after = true) := by
  induction text with
  | nil => exact absurd h (by simp [cjkRest])
  | cons m text ih =>
    rw [cjkRest] at h
    split at h
    · next hm =>
      rcases Option.or_eq_some_iff.mp h with h | ⟨hnone, h⟩
      · obtain ⟨marks, closers, c, after, rfl, rfl, _, hmarks, hrest⟩ := ih h
        exact ⟨m :: marks, closers, c, after, rfl, rfl, List.cons_ne_nil _ _,
          List.forall_mem_cons.mpr ⟨hm, hmarks⟩, hrest⟩
      · obtain ⟨closers, c, after, rfl, rfl, hclosers, hc, hgoes⟩ := closersRest_eq_some h
        refine ⟨[m], closers, c, after, rfl, rfl, List.cons_ne_nil _ _, by simpa using hm, hclosers, hc, ?_⟩
        rintro (hcloser | ⟨rfl, hmark⟩)
        · exact hgoes hcloser
        · rw [List.nil_append, cjkRest, if_pos hmark, Option.or_eq_none_iff] at hnone
          exact startsBlank_of_closersRest_none hnone.2
    · exact absurd h (by simp)

theorem cjkRest_cons_ne_none (hmark : isCjkMark c = true) (hstarts : startsBlank after = false) :
    cjkRest (c :: after) ≠ none := by
  rw [cjkRest, if_pos hmark, Ne, Option.or_eq_none_iff]
  exact fun hnone => absurd (hstarts.symm.trans (startsBlank_of_closersRest_none hnone.2)) Bool.false_ne_true

theorem exists_of_endsIn (h : endsIn isMark text = true) :
    ∃ apart m closers, text = apart ++ [m] ++ closers ∧ isMark m = true ∧ ∀ x ∈ closers, isCloser x = true := by
  obtain ⟨m, hm, hmark⟩ := (Option.any_eq_true _ _).mp h
  obtain ⟨apart, hdrop⟩ := List.getLast?_eq_some_iff.mp hm
  refine ⟨apart, m, text.rtakeWhile isCloser, ?_, hmark, fun x hx => List.mem_rtakeWhile_imp hx⟩
  rw [← hdrop, List.rdropWhile_append_rtakeWhile]

theorem cjkSearch_eq_some {rest : Text} (h : cjkSearch text = some rest) : ∃ before after,
    text = before ++ after ∧ cjkRest after = some rest
      ∧ ∀ earlier later, text = earlier ++ later → cjkRest later ≠ none → before.length ≤ earlier.length := by
  induction text with
  | nil => exact absurd h (by simp [cjkSearch])
  | cons c text ih =>
    rcases Option.or_eq_some_iff.mp h with h | ⟨hnone, h⟩
    · exact ⟨[], c :: text, rfl, h, fun _ _ _ _ => Nat.zero_le _⟩
    · obtain ⟨before, after, rfl, hrest, hleast⟩ := ih h
      refine ⟨c :: before, after, rfl, hrest, fun earlier later heq hlater => ?_⟩
      cases earlier with
      | nil =>
        rw [List.nil_append] at heq
        exact absurd (heq ▸ hnone) hlater
      | cons d earlier => exact Nat.succ_le_succ (hleast earlier later (List.cons_eq_cons.mp heq).2 hlater)

theorem cjkSearch_ne_none (h : cjkRest after ≠ none) : cjkSearch (before ++ after) ≠ none := by
  induction before with
  | nil =>
    cases after with
    | nil => exact h
    | cons c after =>
      rw [List.nil_append, cjkSearch, Ne, Option.or_eq_none_iff]
      exact fun hnone => h hnone.1
  | cons c before ih =>
    rw [List.cons_append, cjkSearch, Ne, Option.or_eq_none_iff]
    exact fun hnone => ih hnone.2

theorem continues_within {apart marks closers u more : Text} (hmarks : ∀ x ∈ marks, isCjkMark x = true)
    (hclosers : ∀ x ∈ closers, isCloser x = true) (hu : u ≠ []) (heq : marks ++ closers = u ++ c :: more) :
    continues (apart ++ u) c := by
  rcases List.append_eq_append_iff.mp heq with ⟨v, rfl, hv⟩ | ⟨v, rfl, hv⟩
  · exact .inl (hclosers c (hv ▸ List.mem_append_right _ List.mem_cons_self))
  · cases v with
    | nil => exact .inl (hclosers c (by rw [List.nil_append] at hv; exact hv ▸ List.mem_cons_self))
    | cons d v =>
      obtain ⟨rfl, _⟩ := List.cons_eq_cons.mp hv
      refine .inr ⟨hmarks c (by simp), u.getLast hu, ?_, hmarks _ (List.mem_append_left _ (List.getLast_mem hu))⟩
      rw [List.getLast?_append_of_ne_nil _ hu, List.getLast?_eq_getLast_of_ne_nil hu]
      rfl

theorem firstCjkEnd_cases (h : firstCjkEnd text = some stop) : ∃ before marks closers c after,
    text = before ++ (marks ++ closers) ++ c :: after ∧ stop = (before ++ (marks ++ closers)).length
      ∧ marks ≠ [] ∧ (∀ x ∈ marks, isCjkMark x = true) ∧ (∀ x ∈ closers, isCloser x = true)
      ∧ isSpace c = false
      ∧ (isCloser c = true ∨ closers = [] ∧ isCjkMark c = true → startsBlank after = true)
      ∧ ∀ earlier later, text = earlier ++ later → cjkRest later ≠ none → before.length ≤ earlier.length := by
  obtain ⟨rest, hsearch, rfl⟩ := Option.map_eq_some_iff.mp h
  obtain ⟨before, after, rfl, hrest, hleast⟩ := cjkSearch_eq_some hsearch
  obtain ⟨marks, closers, c, after, rfl, rfl, hne, hmarks, hclosers, hc, hgoes⟩ := cjkRest_eq_some hrest
  refine ⟨before, marks, closers, c, after, (List.append_assoc _ _ _).symm, ?_, hne, hmarks, hclosers, hc, hgoes,
    hleast⟩
  simp only [List.length_append]
  omega

theorem endsIn_marks {marks closers : Text} (hne : marks ≠ []) (hmarks : ∀ x ∈ marks, isMark x = true)
    (hopen : ∀ x, isMark x = true → isCloser x = false) (hclosers : ∀ x ∈ closers, isCloser x = true) :
    endsIn isMark (before ++ (marks ++ closers)) = true := by
  induction closers using List.reverseRecOn with
  | nil =>
    obtain ⟨marks, m, rfl⟩ := List.eq_nil_or_concat marks |>.resolve_left hne
    have hm := hmarks m (by simp)
    rw [List.append_nil, List.concat_eq_append, ← List.append_assoc, endsIn_concat_mark (hopen m hm), hm]
  | append_singleton closers c ih =>
    rw [← List.append_assoc marks, ← List.append_assoc, endsIn_concat_closer (hclosers c (by simp))]
    exact ih fun x hx => hclosers x (List.mem_append_left _ hx)

theorem firstCjkEnd_eq_some (h : firstCjkEnd text = some stop) : stop ≤ text.length
    ∧ EndsBetween (text.take stop) (text.drop stop) := by
  obtain ⟨before, marks, closers, c, after, rfl, rfl, hne, hmarks, hclosers, hc, hgoes, _⟩ :=
    firstCjkEnd_cases h
  have hopen : ∀ x, isCjkMark x = true → isCloser x = false :=
    fun x hx => not_isCloser_of_mark (isSentenceMark_of_cjk hx)
  rw [List.take_left, List.drop_left]
  refine ⟨by simp, .cjk ⟨endsIn_marks hne hmarks hopen hclosers, c, after, rfl, hc, ?_⟩⟩
  rintro (hcloser | ⟨hmark, last, hlast, hlastMark⟩)
  · exact hgoes (.inl hcloser)
  · refine hgoes (.inr ⟨?_, hmark⟩)
    by_contra hclosing
    rw [← List.append_assoc, List.getLast?_append_of_ne_nil _ hclosing] at hlast
    exact absurd ((hopen last hlastMark).symm.trans (hclosers last (List.mem_of_getLast? hlast))) (by decide)

theorem firstCjkEnd_le {p : Nat} (hends : CjkEndBetween (text.take p) (text.drop p)) :
    ∃ stop, firstCjkEnd text = some stop ∧ stop ≤ p := by
  obtain ⟨hends, d, rest, hdrop, hd, hgoes⟩ := hends
  obtain ⟨apart, m, closing, htake, hm, hclosing⟩ := exists_of_endsIn hends
  have hstarts : startsBlank (closing ++ d :: rest) = false := by
    cases closing with
    | nil => exact hd
    | cons x closing => exact not_isSpace_of_closer (hclosing x List.mem_cons_self)
  have htext : text = apart ++ m :: (closing ++ d :: rest) := by
    rw [← List.take_append_drop p text, htake, hdrop]
    simp
  have hrest := cjkRest_cons_ne_none hm hstarts
  cases hfirst : firstCjkEnd text with
  | none => exact absurd (Option.map_eq_none_iff.mp hfirst) (htext ▸ cjkSearch_ne_none hrest)
  | some stop =>
    refine ⟨stop, rfl, Nat.le_of_not_lt fun hlt => ?_⟩
    obtain ⟨before, marks, closers, c, after, heq, rfl, _, hmarks, hclosers, hc, _, hleast⟩ :=
      firstCjkEnd_cases hfirst
    have hbefore := hleast apart _ htext hrest
    have hp : p = apart.length + 1 + closing.length := by
      have hle : p ≤ text.length := by
        have := congrArg List.length hdrop
        rw [List.length_drop, List.length_cons] at this
        omega
      have := congrArg List.length htake
      simp only [List.length_take_of_le hle, List.length_append, List.length_singleton] at this
      exact this
    -- the position lies inside the first match, whose characters all go on with those before them
    obtain ⟨k, rfl⟩ : ∃ k, p = before.length + k := ⟨p - before.length, by omega⟩
    have hk : k < (marks ++ closers).length := by rw [List.length_append] at hlt; omega
    have hinside : marks ++ closers = (marks ++ closers).take k
        ++ (marks ++ closers)[k] :: (marks ++ closers).drop (k + 1) := by
      rw [← List.drop_eq_getElem_cons hk, List.take_append_drop]
    have hsplit : text.take (before.length + k) = before ++ (marks ++ closers).take k
        ∧ text.drop (before.length + k)
          = (marks ++ closers)[k] :: ((marks ++ closers).drop (k + 1) ++ c :: after) := by
      rw [heq, List.append_assoc, List.take_length_add_append, List.drop_length_add_append,
        List.take_append_of_le_length (Nat.le_of_lt hk), List.drop_append_of_le_length (Nat.le_of_lt hk),
        List.drop_eq_getElem_cons hk]
      exact ⟨rfl, rfl⟩
    obtain ⟨rfl, rfl⟩ := List.cons_eq_cons.mp (hdrop.symm.trans hsplit.2)
    have hu : (marks ++ closers).take k ≠ [] := by
      rw [Ne, List.take_eq_nil_iff]
      rintro (rfl | hnil)
      · omega
      · rw [hnil] at hk
        exact Nat.not_lt_zero _ hk
    have hblank := hgoes (hsplit.1 ▸ continues_within hmarks hclosers hu hinside)
    have hnonspace : ∀ x ∈ (marks ++ closers).drop (k + 1) ++ [c], isSpace x = false := by
      intro x hx
      rcases List.mem_append.mp hx with hx | hx
      · rcases List.mem_append.mp (List.mem_of_mem_drop hx) with hx | hx
        · exact not_isSpace_of_mark (isSentenceMark_of_cjk (hmarks x hx))
        · exact not_isSpace_of_closer (hclosers x hx)
      · exact List.mem_singleton.mp hx ▸ hc
    cases hmore : (marks ++ closers).drop (k + 1) with
    | nil => rw [hmore] at hblank; exact absurd (hc.symm.trans hblank) Bool.false_ne_true
    | cons x more =>
      rw [hmore] at hblank hnonspace
      exact absurd ((hnonspace x (by simp)).symm.trans hblank) Bool.false_ne_true

def Ends (text : Text) (isComplete : Bool) (stop : Nat) : Prop :=
  isComplete = true ∧ stop = text.length
    ∨ stop ≤ text.length ∧ EndsBetween (text.take stop) (text.drop stop)

variable {isComplete : Bool}

theorem ends_of_mem (h : stop ∈ sentenceEnds text isComplete) : Ends text isComplete stop := by
  simp only [sentenceEnds, List.mem_append, Option.mem_toList] at h
  rcases h with ((h | h) | h) | h
  · split at h
    · next hcomplete => exact .inl ⟨hcomplete, List.mem_singleton.mp h⟩
    · exact absurd h List.not_mem_nil
  · exact .inr (firstWordEnd_eq_some h)
  · exact .inr (firstCjkEnd_eq_some h)
  · exact .inr (firstLineEnd_eq_some h)

theorem Ends.exists_mem_le (h : Ends text isComplete stop) : ∃ p ∈ sentenceEnds text isComplete, p ≤ stop := by
  simp only [sentenceEnds, List.mem_append, Option.mem_toList]
  rcases h with ⟨hcomplete, rfl⟩ | ⟨hle, h⟩
  · exact ⟨_, .inl (.inl (.inl (by simp [hcomplete]))), Nat.le_refl _⟩
  · cases h with
    | word hends hblank hmore =>
      obtain ⟨p, hp, hle⟩ := firstWordEnd_le hle hends hblank hmore
      exact ⟨p, .inl (.inl (.inr hp)), hle⟩
    | cjk h =>
      obtain ⟨p, hp, hle⟩ := firstCjkEnd_le h
      exact ⟨p, .inl (.inr hp), hle⟩
    | line hends hline =>
      obtain ⟨p, hp, hle⟩ := firstLineEnd_le hle hends hline
      exact ⟨p, .inr hp, hle⟩

theorem firstSentenceEnd_eq_some : firstSentenceEnd text isComplete = some stop ↔
    Ends text isComplete stop ∧ ∀ p, Ends text isComplete p → stop ≤ p := by
  rw [firstSentenceEnd, List.min?_eq_some_iff]
  constructor
  · rintro ⟨hmem, hleast⟩
    refine ⟨ends_of_mem hmem, fun p hp => ?_⟩
    obtain ⟨q, hq, hqp⟩ := hp.exists_mem_le
    exact Nat.le_trans (hleast q hq) hqp
  · rintro ⟨hends, hleast⟩
    obtain ⟨q, hq, hqp⟩ := hends.exists_mem_le
    obtain rfl := Nat.le_antisymm hqp (hleast q (ends_of_mem hq))
    exact ⟨hq, fun p hp => hleast p (ends_of_mem hp)⟩

theorem firstSentenceEnd_eq_none : firstSentenceEnd text isComplete = none ↔
    ∀ p, ¬ Ends text isComplete p := by
  rw [firstSentenceEnd, List.min?_eq_none_iff]
  constructor
  · intro hnil p hp
    obtain ⟨q, hq, _⟩ := hp.exists_mem_le
    exact List.not_mem_nil (hnil ▸ hq)
  · exact fun hno => List.eq_nil_iff_forall_not_mem.mpr fun p hp => hno p (ends_of_mem hp)

theorem firstSentenceEnd_incomplete (h : firstSentenceEnd text false = some stop) :
    stop < text.length ∧ EndsBetween (text.take stop) (text.drop stop) := by
  obtain ⟨⟨h, _⟩ | ⟨hle, h⟩, _⟩ := firstSentenceEnd_eq_some.mp h
  · exact absurd h Bool.false_ne_true
  · refine ⟨Nat.lt_of_le_of_ne hle ?_, h⟩
    rintro rfl
    exact h.after_ne_nil List.drop_length

theorem firstSentenceEnd_bounds (h : firstSentenceEnd text isComplete = some stop) (hne : text ≠ []) :
    0 < stop ∧ stop ≤ text.length := by
  obtain ⟨⟨_, rfl⟩ | ⟨hle, h⟩, _⟩ := firstSentenceEnd_eq_some.mp h
  · exact ⟨List.length_pos_iff.mpr hne, Nat.le_refl _⟩
  · refine ⟨Nat.pos_of_ne_zero ?_, hle⟩
    rintro rfl
    exact absurd h.endsWord Bool.false_ne_true

theorem firstSentenceEnd_complete (text : Text) : ∃ stop, firstSentenceEnd text true = some stop := by
  cases h : firstSentenceEnd text true with
  | none => exact absurd (.inl ⟨rfl, rfl⟩) (firstSentenceEnd_eq_none.mp h text.length)
  | some stop => exact ⟨stop, rfl⟩

theorem Ends.of_append (h : Ends (text ++ more) isComplete stop) :
    Ends text false stop ∨ ∀ x ∈ text.drop stop, isSpace x = true := by
  by_cases hle : stop ≤ text.length
  · rcases h with ⟨_, rfl⟩ | ⟨_, h⟩
    · exact .inr (by rw [List.drop_of_length_le (by simp)]; exact fun x hx => absurd hx List.not_mem_nil)
    · rw [List.take_append_of_le_length hle, List.drop_append_of_le_length hle] at h
      exact h.of_append.imp_left fun h => .inr ⟨hle, h⟩
  · rw [List.drop_of_length_le (Nat.le_of_not_le hle)]
    exact .inr (by simp)

theorem blank_of_firstSentenceEnd_append (hnone : firstSentenceEnd text false = none)
    (h : firstSentenceEnd (text ++ more) isComplete = some stop) : ∀ x ∈ text.drop stop, isSpace x = true :=
  (firstSentenceEnd_eq_some.mp h).1.of_append.resolve_left (firstSentenceEnd_eq_none.mp hnone stop)

theorem le_of_blank_drop {p : Nat} (hle : stop ≤ text.length) (hword : endsWord (text.take stop) = true)
    (hblank : ∀ x ∈ text.drop p, isSpace x = true) : stop ≤ p := by
  refine Nat.le_of_not_lt fun hlt => ?_
  obtain ⟨x, hx, hspace⟩ := (Option.any_eq_true _ _).mp hword
  rw [← List.take_append_drop p (text.take stop), List.take_take, Nat.min_eq_left (Nat.le_of_lt hlt)] at hx
  have hne : (text.take stop).drop p ≠ [] := by
    intro hnil
    rw [List.drop_eq_nil_iff, List.length_take_of_le hle] at hnil
    omega
  rw [List.getLast?_append_of_ne_nil _ hne, List.drop_take] at hx
  have := hblank x (List.mem_of_mem_take (List.mem_of_getLast? hx))
  rw [this] at hspace
  exact absurd hspace Bool.false_ne_true

theorem firstSentenceEnd_append (h : firstSentenceEnd text false = some stop) (more : Text)
    (isComplete : Bool) : firstSentenceEnd (text ++ more) isComplete = some stop ↔
      ¬ (Open (text.take stop) (text.drop stop) ∧ startsBlank more = false) := by
  obtain ⟨hlt, hends⟩ := firstSentenceEnd_incomplete h
  have hle := Nat.le_of_lt hlt
  rw [firstSentenceEnd_eq_some, ← endsBetween_append hends]
  constructor
  · rintro ⟨⟨_, hstop⟩ | ⟨_, hstop⟩, _⟩
    · rw [List.length_append] at hstop
      omega
    · rwa [List.take_append_of_le_length hle, List.drop_append_of_le_length hle] at hstop
  · intro hstop
    refine ⟨.inr ⟨by rw [List.length_append]; omega, ?_⟩, fun p hp => ?_⟩
    · rwa [List.take_append_of_le_length hle, List.drop_append_of_le_length hle]
    · rcases hp.of_append with hp | hblank
      · exact (firstSentenceEnd_eq_some.mp h).2 p hp
      · exact le_of_blank_drop hle hends.endsWord hblank

theorem ends_append_left {p : Nat} (hblank : startsBlank text = true) (hp : p ≠ 0) :
    Ends (before ++ text) isComplete (before.length + p) ↔ Ends text isComplete p := by
  rw [Ends, Ends, List.length_append, List.take_length_add_append, List.drop_length_add_append,
    Nat.add_right_inj, Nat.add_le_add_iff_left]
  refine or_congr_right (and_congr_right fun hle => ?_)
  by_cases hnil : text = []
  · rw [hnil] at hle
    exact absurd (Nat.le_zero.mp hle) hp
  · have hne : text.take p ≠ [] := by
      rw [Ne, List.take_eq_nil_iff]
      exact not_or.mpr ⟨hp, hnil⟩
    refine endsBetween_append_left ?_ hne
    rw [← List.take_append_drop p text, startsBlank_append hne] at hblank
    exact hblank

theorem firstSentenceEnd_drop (hblank : startsBlank text = true) (hne : text ≠ [])
    (hbehind : before.length < stop) (h : firstSentenceEnd (before ++ text) isComplete = some stop) :
    firstSentenceEnd text isComplete = some (stop - before.length) := by
  obtain ⟨p, rfl⟩ : ∃ p, stop = before.length + p := ⟨stop - before.length, by omega⟩
  rw [firstSentenceEnd_eq_some] at h ⊢
  rw [Nat.add_sub_cancel_left]
  refine ⟨(ends_append_left hblank (by omega)).mp h.1, fun q hq => ?_⟩
  by_cases hzero : q = 0
  · subst hzero
    rcases hq with ⟨_, hq⟩ | ⟨_, hq⟩
    · exact absurd (List.length_eq_zero_iff.mp hq.symm) hne
    · exact absurd hq.endsWord Bool.false_ne_true
  · exact Nat.add_le_add_iff_left.mp (h.2 _ ((ends_append_left hblank hzero).mpr hq))

theorem firstSentenceEnd_drop_none (hblank : startsBlank text = true)
    (h : firstSentenceEnd (before ++ text) false = none) : firstSentenceEnd text false = none := by
  rw [firstSentenceEnd_eq_none] at h ⊢
  intro p hp
  by_cases hzero : p = 0
  · subst hzero
    rcases hp with ⟨hp, _⟩ | ⟨_, hp⟩
    · exact absurd hp Bool.false_ne_true
    · exact absurd hp.endsWord Bool.false_ne_true
  · exact h _ ((ends_append_left hblank hzero).mpr hp)

end Cascade
