import SglangOmni.Cascade.Replies

/-! The reports of an ended reply cut it to the same entry in every order. -/

namespace Cascade

/-! ### The cut of a reply by its boundaries -/

structure IsStrictOrder {α : Type} (later : α → α → Bool) : Prop where
  irrefl : ∀ a, later a a = false
  trans : ∀ {a b c}, later a b = true → later b c = true → later a c = true
  total : ∀ {a b}, a ≠ b → later a b = true ∨ later b a = true

section Pick

variable {α : Type} {later : α → α → Bool}

theorem IsStrictOrder.foldl (h : IsStrictOrder later) (p : α) (rest : List α) :
    rest.foldl (fun best q => if later best q then q else best) p ∈ p :: rest ∧
      ∀ q ∈ p :: rest, later (rest.foldl (fun best q => if later best q then q else best) p) q = false := by
  induction rest generalizing p with
  | nil => exact ⟨List.mem_singleton_self p, fun q hq => List.mem_singleton.mp hq ▸ h.irrefl p⟩
  | cons q rest ih =>
    rw [List.foldl_cons]
    by_cases hlater : later p q = true
    · rw [if_pos hlater]
      obtain ⟨hmem, hnone⟩ := ih q
      refine ⟨List.mem_cons_of_mem p hmem, List.forall_mem_cons.mpr ⟨?_, hnone⟩⟩
      refine Bool.eq_false_iff.mpr fun hp => ?_
      have hq := hnone q List.mem_cons_self
      rw [h.trans hp hlater] at hq
      cases hq
    · rw [if_neg hlater]
      obtain ⟨hmem, hnone⟩ := ih p
      obtain ⟨hp, hrest⟩ := List.forall_mem_cons.mp hnone
      refine ⟨?_, List.forall_mem_cons.mpr ⟨hp, List.forall_mem_cons.mpr ⟨?_, hrest⟩⟩⟩
      · rcases List.mem_cons.mp hmem with hmem | hmem
        · rw [hmem]
          exact List.mem_cons_self
        · exact List.mem_cons_of_mem p (List.mem_cons_of_mem q hmem)
      · refine Bool.eq_false_iff.mpr fun hq => ?_
        rcases eq_or_ne p q with rfl | hne
        · exact Bool.eq_false_iff.mp hp hq
        · have hback := (h.total hne).resolve_left hlater
          exact Bool.eq_false_iff.mp hp (h.trans hq hback)

end Pick

variable {τ : Type} {cfg : DialogConfig} {times : Times τ} {s t : Dialog τ}
  {waiting : List Utterance} {turn index index' : Nat}

/-- The times of a dialog come in a strict linear order, and its infinity is infinite. -/
structure Times.Lawful (times : Times τ) : Prop where
  order : IsStrictOrder times.lt
  isInf_infinity : times.isInf times.infinity = true

theorem Times.Lawful.isLater (h : times.Lawful) : IsStrictOrder times.isLater where
  irrefl p := by
    unfold Times.isLater
    rw [if_pos rfl, h.order.irrefl]
  trans {p q r} hpq hqr := by
    unfold Times.isLater at *
    split at hpq <;> split at hqr
    · next hp hq =>
      rw [if_pos (hp.trans hq)]
      exact h.order.trans hpq hqr
    · next hp hq => rwa [if_neg (hp ▸ hq), hp]
    · next hp hq => rwa [if_neg (hq ▸ hp), ← hq]
    · rw [decide_eq_true_eq] at hpq hqr
      rw [if_neg (by omega), decide_eq_true_eq]
      omega
  total {p q} hne := by
    unfold Times.isLater
    by_cases heq : p.1 = q.1
    · rw [if_pos heq, if_pos heq.symm]
      exact h.order.total fun htimes => hne (Prod.ext heq htimes)
    · rw [if_neg heq, if_neg (Ne.symm heq), decide_eq_true_eq, decide_eq_true_eq]
      omega

theorem Times.latest_mem (h : times.Lawful) {p : Int × τ} {l : List (Int × τ)} (hp : p ∈ l) :
    times.latest l ∈ l ∧ ∀ q ∈ l, times.isLater (times.latest l) q = false := by
  cases l with
  | nil => cases hp
  | cons first rest => exact h.isLater.foldl first rest

theorem Times.latest_perm (h : times.Lawful) {l l' : List (Int × τ)} (hperm : l.Perm l') :
    times.latest l = times.latest l' := by
  cases l with
  | nil => rw [List.nil_perm.mp hperm]
  | cons first rest =>
    obtain ⟨hmem, hnone⟩ := times.latest_mem h (List.mem_cons_self (a := first) (l := rest))
    obtain ⟨hmem', hnone'⟩ := times.latest_mem h (hperm.mem_iff.mp List.mem_cons_self)
    by_contra hne
    rcases h.isLater.total hne with hlater | hlater
    · rw [hnone _ (hperm.mem_iff.mpr hmem')] at hlater
      cases hlater
    · rw [hnone' _ (hperm.mem_iff.mp hmem)] at hlater
      cases hlater

def IsLastHeard (times : Times τ) (progress : List (Int × τ)) (heardMs : τ) (textEnd : Int) : Prop :=
  (∀ p ∈ progress, times.le p.2 heardMs = true → p.1 ≤ textEnd) ∧
    ((∃ p ∈ progress, times.le p.2 heardMs = true ∧ p.1 = textEnd) ∨
      (∀ p ∈ progress, times.le p.2 heardMs = false) ∧ textEnd = 0)

theorem isLastHeard_heardPrefix (h : times.Lawful) (progress : List (Int × τ)) (heardMs : τ) (text : Text) :
    IsLastHeard times progress heardMs (times.heardPrefix progress heardMs text).1 := by
  show IsLastHeard _ _ _ (times.latest (progress.filter fun p => times.le p.2 heardMs)).1
  have hfilter (p : Int × τ) : p ∈ progress.filter (fun p => times.le p.2 heardMs) ↔
      p ∈ progress ∧ times.le p.2 heardMs = true := List.mem_filter
  generalize progress.filter (fun p => times.le p.2 heardMs) = heard at hfilter
  cases heard with
  | nil =>
    have hnone (p : Int × τ) (hp : p ∈ progress) : times.le p.2 heardMs = false :=
      Bool.eq_false_iff.mpr fun hle => List.not_mem_nil ((hfilter p).mpr ⟨hp, hle⟩)
    refine ⟨fun p hp hle => ?_, .inr ⟨hnone, rfl⟩⟩
    rw [hnone p hp] at hle
    cases hle
  | cons first rest =>
    obtain ⟨hmem, hlast⟩ := times.latest_mem h (List.mem_cons_self (a := first) (l := rest))
    obtain ⟨hin, hle⟩ := (hfilter _).mp hmem
    refine ⟨fun p hp hle => ?_, .inl ⟨_, hin, hle, rfl⟩⟩
    have hnot := hlast p ((hfilter p).mpr ⟨hp, hle⟩)
    unfold Times.isLater at hnot
    split at hnot
    · next heq => omega
    · rw [decide_eq_false_iff_not] at hnot
      omega

/-! ### Reports -/

inductive Report (τ : Type) where
  | progress (textEnd : Int) (audioMs : τ)
  | delivered (audioMs : τ)
  | truncated (tMs : τ)
deriving DecidableEq

def Report.boundary? : Report τ → Option (Int × τ)
  | .progress textEnd audioMs => some (textEnd, audioMs)
  | _ => none

def Report.delivered? : Report τ → Option τ
  | .delivered audioMs => some audioMs
  | _ => none

def Report.truncated? : Report τ → Option τ
  | .truncated tMs => some tMs
  | _ => none

def Event.report (turn : Nat) (s : Dialog τ) : Event τ → Option (Report τ)
  | .control (.replyProgress turn' textEnd audioMs) =>
    if turn' = some (turn : Int) then some (.progress textEnd audioMs) else none
  | .input (.replyDelivered turn' audioMs) =>
    if turn' = some (turn : Int) ∧ s.isTruncatable turn' then some (.delivered audioMs) else none
  | .input (.truncate turn' tMs) =>
    if turn'.getD s.replyTurn = turn ∧ s.isTruncatable (some turn) then some (.truncated tMs) else none
  | _ => none

/-- A run with the reply of `turn`, from where it opened until it no longer can be cut; `reports` are
its reports. -/
inductive Followed (cfg : DialogConfig) (times : Times τ) (awaitsDelivery : Bool) (turn : Nat) :
    List (Report τ) → Dialog τ → Prop
  | opened {s : Dialog τ} (h : (dialog cfg times awaitsDelivery).Reaches Lib.Machine.anyAction s)
      (hreply : s.reply = some []) (hturn : s.replyTurn = turn) (hprogress : s.progress = []) :
      Followed cfg times awaitsDelivery turn [] s
  | step {reports : List (Report τ)} {s t : Dialog τ} {event : Event τ}
      (h : Followed cfg times awaitsDelivery turn reports s)
      (ht : (dialog cfg times awaitsDelivery).step s event = some t)
      (hstays : s.isReply (some turn) && t.isReply (some turn) || t.isTruncatable (some turn)) :
      Followed cfg times awaitsDelivery turn (reports ++ (event.report turn s).toList) t

/-- The position up to which a reply was heard, by its reports. A finished reply is delivered in full
until a report says otherwise. -/
def heardBy (times : Times τ) (isInterrupted : Bool) (reports : List (Report τ)) : τ :=
  times.earliest ((reports.filterMap Report.truncated?).getLast?.toList ++
    ((reports.filterMap Report.delivered?).getLast?.or
      (if isInterrupted then none else some times.infinity)).toList)

def Moment.heardEnd? (turn : Nat) : Moment → Option Int
  | .emitted (.heard turn' textEnd) => if turn' = turn then some textEnd else none
  | _ => none

def lastHeard (turn : Nat) (log : List Moment) : Option Int :=
  (log.filterMap (Moment.heardEnd? turn)).getLast?

theorem lastHeard_concat {moment : Moment} (h : moment.heardEnd? turn = none) (log : List Moment) :
    lastHeard turn (log ++ [moment]) = lastHeard turn log := by
  rw [lastHeard, List.filterMap_append, List.filterMap_cons_none h, List.filterMap_nil, List.append_nil]
  rfl

/-! ### The reply that can be cut -/

def Dialog.cut (times : Times τ) (s : Dialog τ) : Int × Bool :=
  times.heardPrefix s.truncatableProgress (s.heardUpTo times) s.truncatableText

structure Told (times : Times τ) (turn index : Nat) (reports : List (Report τ)) (s : Dialog τ) : Prop where
  truncatable : s.truncatable = some (turn, index)
  progress : s.truncatableProgress = reports.filterMap Report.boundary?
  delivered : s.deliveredMs = (reports.filterMap Report.delivered?).getLast?.or
    (if s.isTruncatableInterrupted then none else some times.infinity)
  heard : s.heardMs = (reports.filterMap Report.truncated?).getLast?
  entry : times.isInf (s.heardUpTo times) = false →
    s.messages[index]? = some (s.cutEntry (s.cut times)) ∧
      (s.heardMs.isSome = true → lastHeard turn s.log = some (s.cut times).1)

structure Undisturbed (s t : Dialog τ) : Prop where
  entry : ∀ turn index, t.truncatable = some (turn, index) →
    s.truncatable = some (turn, index) ∧ t.messages[index]? = s.messages[index]?
  text : t.truncatableText = s.truncatableText
  interrupted : t.isTruncatableInterrupted = s.isTruncatableInterrupted
  progress : t.truncatableProgress = s.truncatableProgress
  delivered : t.deliveredMs = s.deliveredMs
  heard : t.heardMs = s.heardMs
  log : ∀ turn, lastHeard turn t.log = lastHeard turn s.log

theorem Undisturbed.refl (s : Dialog τ) : Undisturbed s s :=
  ⟨fun _ _ h => ⟨h, rfl⟩, rfl, rfl, rfl, rfl, rfl, fun _ => rfl⟩

theorem Undisturbed.trans {u : Dialog τ} (h : Undisturbed s t) (h' : Undisturbed t u) : Undisturbed s u where
  entry turn index hu := by
    obtain ⟨ht, hsame'⟩ := h'.entry turn index hu
    obtain ⟨hs, hsame⟩ := h.entry turn index ht
    exact ⟨hs, hsame'.trans hsame⟩
  text := h'.text.trans h.text
  interrupted := h'.interrupted.trans h.interrupted
  progress := h'.progress.trans h.progress
  delivered := h'.delivered.trans h.delivered
  heard := h'.heard.trans h.heard
  log turn := (h'.log turn).trans (h.log turn)

theorem Told.undisturbed {reports : List (Report τ)} (h : Told times turn index reports s)
    (ht : Undisturbed s t) (hstays : t.truncatable = some (turn, index')) : Told times turn index' reports t := by
  obtain ⟨hs, hsame⟩ := ht.entry turn index' hstays
  obtain rfl : index = index' := (Prod.mk.inj (Option.some.inj (h.truncatable.symm.trans hs))).2
  have hupto : t.heardUpTo times = s.heardUpTo times := by
    rw [Dialog.heardUpTo, Dialog.heardUpTo, ht.delivered, ht.heard]
  have hcut : t.cut times = s.cut times := by rw [Dialog.cut, Dialog.cut, ht.progress, hupto, ht.text]
  refine ⟨hstays, ht.progress.trans h.progress, ?_, ht.heard.trans h.heard, fun hfinite => ?_⟩
  · rw [ht.delivered, ht.interrupted]
    exact h.delivered
  · obtain ⟨hentry, hheard⟩ := h.entry (hupto ▸ hfinite)
    rw [hsame, hentry, ht.heard, ht.log, hcut]
    refine ⟨?_, hheard⟩
    rw [Dialog.cutEntry, Dialog.cutEntry, ht.text, ht.interrupted]

theorem truncateAt_eq (h : times.isInf (s.heardUpTo times) = false) :
    s.truncateAt times turn index =
      let cut : Dialog τ := { s with
        messages := s.messages.set index (s.cutEntry (s.cut times))
        log := if s.heardMs.isSome then s.log ++ [.emitted (.heard turn (s.cut times).1)] else s.log }
      if (s.cutEntry (s.cut times)).content.isEmpty && index + 1 < s.messages.length then
        cut.joinAround index
      else cut := by
  unfold Dialog.truncateAt
  simp only [h, Bool.false_eq_true, if_false]
  cases hheard : s.heardMs with
  | none => simp [Dialog.cut]
  | some t => simp [Dialog.cut, Dialog.emit]

theorem told_truncate (index : ℕ) {reports : List (Report τ)} (htruncatable : s.truncatable = some (turn, index))
    (hlt : index < s.messages.length) (hprogress : s.truncatableProgress = reports.filterMap Report.boundary?)
    (hdelivered : s.deliveredMs = (reports.filterMap Report.delivered?).getLast?.or
      (if s.isTruncatableInterrupted then none else some times.infinity))
    (hheard : s.heardMs = (reports.filterMap Report.truncated?).getLast?)
    (hstays : (s.truncate times).truncatable = some (turn, index')) :
    Told times turn index' reports (s.truncate times) := by
  have htruncate : s.truncate times = s.truncateAt times turn index := by
    rw [Dialog.truncate, htruncatable]
  rw [htruncate] at hstays ⊢
  cases hfinite : times.isInf (s.heardUpTo times) with
  | true =>
    have hsame : s.truncateAt times turn index = s := by
      unfold Dialog.truncateAt
      simp only [hfinite, if_true]
    rw [hsame] at hstays ⊢
    refine ⟨hstays, hprogress, hdelivered, hheard, fun hnot => ?_⟩
    rw [hfinite] at hnot
    cases hnot
  | false =>
    rw [truncateAt_eq hfinite] at hstays ⊢
    simp only at hstays ⊢
    split at hstays
    · next hjoins =>
      obtain ⟨hended, hne⟩ := Option.filter_eq_some_iff.mp hstays
      cases htruncatable.symm.trans hended
      simp at hne
    · next hkeeps =>
      rw [if_neg hkeeps]
      obtain rfl : index = index' :=
        (Prod.mk.inj (Option.some.inj (htruncatable.symm.trans hstays))).2
      refine ⟨htruncatable, hprogress, hdelivered, hheard, fun _ => ⟨?_, fun hsome => ?_⟩⟩
      · exact List.getElem?_set_self hlt
      · have hlog : (if s.heardMs.isSome then s.log ++ [Moment.emitted (.heard turn (s.cut times).1)]
            else s.log) = s.log ++ [.emitted (.heard turn (s.cut times).1)] := if_pos hsome
        show lastHeard turn (if s.heardMs.isSome then _ else _) = _
        rw [hlog, lastHeard, List.filterMap_append]
        simp [Moment.heardEnd?, Dialog.cut, Dialog.heardUpTo]

/-! ### What an event does -/

def Dialog.withReport (s : Dialog τ) : Report τ → Dialog τ
  | .progress textEnd audioMs =>
    { s with truncatableProgress := s.truncatableProgress ++ [(textEnd, audioMs)] }
  | .delivered audioMs => { s with deliveredMs := some audioMs }
  | .truncated tMs => { s with heardMs := some tMs }

inductive Effect (times : Times τ) (s : Dialog τ) (event : Event τ) : Dialog τ → Prop
  | quiet {t : Dialog τ}
      (hreport : ∀ turn : Nat, s.isReply (some turn) = true ∨ s.isTruncatable (some turn) = true →
        event.report turn s = none)
      (ht : Undisturbed s t)
      (hreply : t.reply.isSome = true → s.reply.isSome = true ∧ t.progress = s.progress)
      (hturn : t.replyTurn = s.replyTurn) (hwaiting : ∀ u ∈ t.waiting, u ∈ s.waiting ∨ s.turns < u.turn)
      (hturns : s.turns ≤ t.turns) : Effect times s event t
  | reported (report : Report τ)
      (hreport : ∀ turn : Nat, s.isTruncatable (some turn) = true → event.report turn s = some report)
      (hother : ∀ turn : Nat, s.isTruncatable (some turn) = false → event.report turn s = none) :
      Effect times s event ((s.withReport report).truncate times)
  | spoken (textEnd : Int) (audioMs : τ) (hopen : s.reply.isSome = true)
      (hreport : event.report s.replyTurn s = some (.progress textEnd audioMs))
      (hother : ∀ turn ≠ s.replyTurn, event.report turn s = none) :
      Effect times s event { s with progress := s.progress ++ [(textEnd, audioMs)] }
  | finished (parts : List Text) (hreply : s.reply = some parts)
      (hreport : ∀ turn, event.report turn s = none) : Effect times s event (s.finishReply times parts)
  | interrupted (parts : List Text) (isUserSpeaking : Bool) (hreply : s.reply = some parts)
      (hreport : ∀ turn, event.report turn s = none) (htext : parts.flatten ≠ []) :
      Effect times s event (({ s with isUserSpeaking } : Dialog τ).interruptReply times parts)

theorem isTruncatable_iff : s.isTruncatable (some turn) = true ↔ ∃ index, s.truncatable = some (turn, index) := by
  unfold Dialog.isTruncatable
  cases s.truncatable with
  | none => exact iff_of_false Bool.false_ne_true nofun
  | some ended =>
    rw [Option.any_some, beq_iff_eq, Option.some.injEq, Int.ofNat_inj]
    constructor
    · rintro rfl
      exact ⟨ended.2, rfl⟩
    · rintro ⟨index, hended⟩
      cases hended
      rfl

theorem isReply_iff : s.isReply (some turn) = true ↔ s.reply.isSome = true ∧ s.replyTurn = turn := by
  unfold Dialog.isReply
  rw [Bool.and_eq_true, beq_iff_eq, Option.some.injEq, Int.ofNat_inj]
  exact and_congr_right fun _ => eq_comm

theorem effect_refl {event : Event τ}
    (hreport : ∀ turn : Nat, s.isReply (some turn) = true ∨ s.isTruncatable (some turn) = true →
      event.report turn s = none) : Effect times s event s :=
  .quiet hreport (.refl s) (fun hopen => ⟨hopen, rfl⟩) rfl (fun _ hu => .inl hu) (Nat.le_refl _)

theorem undisturbed_interruptReply (h : HistoryKept s) {parts : List Text} (htext : parts.flatten = []) :
    Undisturbed s (s.interruptReply times parts) := by
  have hcut : s.cutReply times parts = s.keepNothing := if_pos (List.isEmpty_iff.mpr htext)
  rw [interruptReply_eq, hcut]
  refine ⟨fun turn index hkept => ⟨hkept, ?_⟩, rfl, rfl, rfl, rfl, rfl, fun turn => ?_⟩
  · exact List.getElem?_append_left (h.truncatable turn index hkept).1
  · show lastHeard turn (s.log ++ _ ++ _) = _
    rw [lastHeard_concat rfl, lastHeard_concat rfl]

theorem interruptReply_text {parts : List Text} (htext : parts.flatten ≠ []) :
    s.interruptReply times parts =
      let cut := (s.keepNothing.becomeTruncatable parts.flatten).truncate times
      { cut with
        reply := none
        log := cut.log ++ [.emitted (.interrupt s.replyTurn)] ++ [.emitted (.interrupted s.replyTurn)] } := by
  have hcut : s.cutReply times parts = (s.keepNothing.becomeTruncatable parts.flatten).truncate times :=
    if_neg fun hempty => htext (List.isEmpty_iff.mp hempty)
  rw [interruptReply_eq, hcut]

theorem effect_interrupt (h : HistoryKept s) {event : Event τ} (hreport : ∀ turn, event.report turn s = none)
    (isUserSpeaking : Bool) :
    Effect times s event (({ s with isUserSpeaking } : Dialog τ).interruptOpen times) := by
  have hspeaking : Undisturbed s { s with isUserSpeaking } :=
    ⟨fun _ _ hkept => ⟨hkept, rfl⟩, rfl, rfl, rfl, rfl, rfl, fun _ => rfl⟩
  rcases Option.eq_none_or_eq_some s.reply with hreply | ⟨parts, hreply⟩
  · have hsame : ({ s with isUserSpeaking } : Dialog τ).interruptOpen times = { s with isUserSpeaking } := by
      simp only [Dialog.interruptOpen, hreply]
    rw [hsame]
    exact .quiet (fun turn _ => hreport turn) hspeaking (fun hopen => ⟨hopen, rfl⟩) rfl (fun _ hu => .inl hu)
      (Nat.le_refl _)
  · have hsame : ({ s with isUserSpeaking } : Dialog τ).interruptOpen times =
        ({ s with isUserSpeaking } : Dialog τ).interruptReply times parts := by
      simp only [Dialog.interruptOpen, hreply]
    rw [hsame]
    by_cases htext : parts.flatten = []
    · have hkept : HistoryKept ({ s with isUserSpeaking } : Dialog τ) := ⟨h.alternating, h.truncatable⟩
      have hcut : ({ s with isUserSpeaking } : Dialog τ).cutReply times parts =
          ({ s with isUserSpeaking } : Dialog τ).keepNothing := if_pos (List.isEmpty_iff.mpr htext)
      refine .quiet (fun turn _ => hreport turn) (hspeaking.trans (undisturbed_interruptReply hkept htext))
        ?_ ?_ ?_ ?_
      all_goals rw [interruptReply_eq, hcut]
      · exact nofun
      · rfl
      · exact fun _ hu => .inl hu
      · exact Nat.le_refl _
    · exact .interrupted parts isUserSpeaking hreply hreport htext

theorem effect_report {event : Event τ} {turn' : Option Int} (report : Report τ)
    (hevent : ∀ turn : Nat, event.report turn s =
      if turn' = some (turn : Int) ∧ s.isTruncatable (some turn) then some report else none)
    (hmatches : s.isTruncatable turn' = true) :
    Effect times s event ((s.withReport report).truncate times) := by
  obtain ⟨ended, hended, hturn⟩ := (Option.any_eq_true _ _).mp hmatches
  rw [beq_iff_eq] at hturn
  refine .reported report (fun turn htruncatable => ?_) fun turn hnot => ?_
  · obtain ⟨index, hindex⟩ := isTruncatable_iff.mp htruncatable
    obtain rfl := Option.some.inj (hended.symm.trans hindex)
    rw [hevent, if_pos ⟨hturn, htruncatable⟩]
  · rw [hevent, if_neg fun hboth => by rw [hnot] at hboth; cases hboth.2]

theorem effect_handle (h : HistoryKept s) {input : Input τ} (ht : s.handle cfg times input = some t) :
    Effect times s (.input input) t := by
  cases input with
  | transcript text isFinal language =>
    cases ht
    split
    · refine .quiet (fun _ _ => rfl) ⟨fun _ _ hkept => ⟨hkept, rfl⟩, rfl, rfl, rfl, rfl, rfl, fun turn => ?_⟩
        (fun hopen => ⟨hopen, rfl⟩) rfl (fun u hu => ?_) (Nat.le_succ _)
      · exact lastHeard_concat rfl s.log
      · rcases List.mem_append.mp hu with hu | hu
        · exact .inl hu
        · rw [List.mem_singleton.mp hu]
          exact .inr (Nat.lt_succ_self _)
    · exact effect_refl fun _ _ => rfl
  | textDelta turn text =>
    simp only [Dialog.handle] at ht
    split at ht
    · cases ht
      exact effect_refl fun _ _ => rfl
    next parts hreply =>
    split at ht
    swap
    · cases ht
      exact effect_refl fun _ _ => rfl
    split at ht
    · cases ht
    cases ht
    exact .quiet (fun _ _ => rfl) ⟨fun _ _ hkept => ⟨hkept, rfl⟩, rfl, rfl, rfl, rfl, rfl, fun _ => rfl⟩
      (fun _ => ⟨by rw [hreply]; rfl, rfl⟩) rfl (fun _ hu => .inl hu) (Nat.le_refl _)
  | turnDone turn =>
    simp only [Dialog.handle] at ht
    split at ht
    · cases ht
      exact effect_refl fun _ _ => rfl
    next parts hreply =>
    cases ht
    split
    · exact .finished parts hreply fun _ => rfl
    · exact effect_refl fun _ _ => rfl
  | speechStarted =>
    cases ht
    exact effect_interrupt h (fun _ => rfl) true
  | speechStopped | commit =>
    cases ht
    exact .quiet (fun _ _ => rfl) ⟨fun _ _ hkept => ⟨hkept, rfl⟩, rfl, rfl, rfl, rfl, rfl, fun _ => rfl⟩
      (fun hopen => ⟨hopen, rfl⟩) rfl (fun _ hu => .inl hu) (Nat.le_refl _)
  | replyDelivered turn' audioMs =>
    cases ht
    have hevent (turn : Nat) : (Event.input (.replyDelivered turn' audioMs)).report turn s =
        if turn' = some (turn : Int) ∧ s.isTruncatable (some turn) then some (.delivered audioMs) else none := by
      refine if_congr (and_congr_right fun hturn => ?_) rfl rfl
      rw [hturn]
    split
    · next hmatches => exact effect_report (.delivered audioMs) hevent hmatches
    · next hnot =>
      refine effect_refl fun turn _ => ?_
      rw [hevent, if_neg]
      rintro ⟨hturn, hmatches⟩
      exact hnot (hturn ▸ hmatches)
  | truncate turn' tMs =>
    cases ht
    have hevent (turn : Nat) : (Event.input (.truncate turn' tMs)).report turn s =
        if some (turn'.getD s.replyTurn) = some (turn : Int) ∧ s.isTruncatable (some turn) then
          some (.truncated tMs) else none :=
      if_congr (and_congr_left fun _ => Option.some_inj.symm) rfl rfl
    split
    · next hmatches => exact effect_report (.truncated tMs) hevent hmatches
    · next hnot =>
      refine effect_refl fun turn _ => ?_
      rw [hevent, if_neg]
      rintro ⟨hturn, hmatches⟩
      exact hnot (hturn ▸ hmatches)
  | other =>
    cases ht
    exact effect_refl fun _ _ => rfl

/-! ### The order of the turns -/

/-- The reply that can be cut comes before the open one, and the utterances that wait come after both. -/
structure Behind (s : Dialog τ) (waiting : List Utterance) : Prop where
  ended : ∀ turn index, s.truncatable = some (turn, index) →
    turn ≤ s.replyTurn ∧ (s.reply.isSome = true → turn < s.replyTurn)
  waiting : ∀ u ∈ waiting, s.replyTurn < u.turn
  turns : s.replyTurn ≤ s.turns

theorem truncate_fields (times : Times τ) (s : Dialog τ) : (s.truncate times).progress = s.progress ∧
    ∀ ended, (s.truncate times).truncatable = some ended → s.truncatable = some ended := by
  unfold Dialog.truncate
  split
  · exact ⟨rfl, fun _ h => h⟩
  · next turn index htruncatable =>
    rcases cut_truncateAt times s turn index with hcut | ⟨entry, log, -, -, hcut | ⟨-, hcut⟩⟩
    · rw [hcut]
      exact ⟨rfl, fun _ h => h⟩
    · rw [hcut]
      exact ⟨rfl, fun _ h => h⟩
    · rw [hcut]
      exact ⟨rfl, fun ended hended => (Option.filter_eq_some_iff.mp hended).1⟩

theorem interruptReply_ended {parts : List Text} (htext : parts.flatten ≠ []) {ended : Nat × Nat}
    (h : (s.interruptReply times parts).truncatable = some ended) :
    ended = (s.replyTurn, s.messages.length) := by
  rw [interruptReply_text htext] at h
  have hbefore := (truncate_fields times _).2 ended h
  simp only [Dialog.becomeTruncatable, Dialog.keepNothing, List.length_append, List.length_singleton,
    Nat.add_sub_cancel, Option.some.injEq] at hbefore
  exact hbefore.symm

theorem interruptReply_same (s : Dialog τ) (times : Times τ) {parts : List Text} (htext : parts.flatten ≠ []) :
    (s.interruptReply times parts).reply = none ∧ (s.interruptReply times parts).replyTurn = s.replyTurn ∧
      (s.interruptReply times parts).turns = s.turns ∧
      (s.interruptReply times parts).waiting = s.waiting := by
  have hsame := sameTurns_truncate times (s.keepNothing.becomeTruncatable parts.flatten)
  rw [interruptReply_text htext]
  exact ⟨rfl, hsame.replyTurn, hsame.turns, hsame.waiting⟩

theorem Behind.effect {event : Event τ} (h : Behind s s.waiting) (he : Effect times s event t) :
    Behind t t.waiting := by
  cases he with
  | quiet _ ht hreply hturn hwaiting hturns =>
    refine ⟨fun turn index hended => ?_, fun u hu => ?_, by rw [hturn]; exact Nat.le_trans h.turns hturns⟩
    · obtain ⟨hle, hlt⟩ := h.ended turn index (ht.entry turn index hended).1
      rw [hturn]
      exact ⟨hle, fun hopen => hlt (hreply hopen).1⟩
    · rw [hturn]
      rcases hwaiting u hu with hu | hnew
      · exact h.waiting u hu
      · exact Nat.lt_of_le_of_lt h.turns hnew
  | reported report _ _ =>
    have hsame := sameTurns_truncate times (s.withReport report)
    have hfields : (s.withReport report).truncatable = s.truncatable ∧
        (s.withReport report).replyTurn = s.replyTurn ∧ (s.withReport report).reply = s.reply ∧
        (s.withReport report).waiting = s.waiting ∧ (s.withReport report).turns = s.turns := by
      cases report <;> exact ⟨rfl, rfl, rfl, rfl, rfl⟩
    obtain ⟨htruncatable, hturn, hreply, hwaiting, hturns⟩ := hfields
    rw [hsame.waiting, hwaiting]
    refine ⟨fun turn index hended => ?_, ?_, ?_⟩
    · rw [hsame.replyTurn, hsame.reply, hturn, hreply]
      exact h.ended turn index (htruncatable ▸ (truncate_fields times _).2 _ hended)
    · rw [hsame.replyTurn, hturn]
      exact h.waiting
    · rw [hsame.replyTurn, hsame.turns, hturn, hturns]
      exact h.turns
  | spoken => exact ⟨h.ended, h.waiting, h.turns⟩
  | finished parts =>
    refine ⟨fun turn index hended => ?_, h.waiting, h.turns⟩
    cases hended
    exact ⟨Nat.le_refl _, nofun⟩
  | interrupted parts isUserSpeaking _ _ htext =>
    obtain ⟨hreply, hturn, hturns, hwaiting⟩ :=
      interruptReply_same { s with isUserSpeaking } times htext
    rw [hwaiting]
    refine ⟨fun turn index hended => ?_, ?_, ?_⟩
    · obtain ⟨rfl, -⟩ := Prod.mk.inj (interruptReply_ended htext hended)
      rw [hturn, hreply]
      exact ⟨Nat.le_refl _, nofun⟩
    · rw [hturn]
      exact h.waiting
    · rw [hturn, hturns]
      exact h.turns

/-! ### Answers -/

theorem getElem?_joinAround (s : Dialog τ) {i index : Nat} (h : i + 1 < index) (hle : index ≤ s.messages.length) :
    (s.joinAround index).messages[i]? = s.messages[i]? := by
  simp only [Dialog.joinAround]
  rw [List.getElem?_append_left (by simp; omega), List.getElem?_take_of_lt (by omega),
    List.getElem?_set_ne (by omega)]

theorem Kept.undisturbed_addUtterance (h : Kept s waiting) (hreply : s.reply = none) (text : Text) :
    Undisturbed s (s.addUtterance text) := by
  have hparity := h.parity_closed hreply
  have hlength := length_withUtterance s text
  have hadded : Undisturbed s (s.withUtterance text) := by
    refine ⟨fun turn index hkept => ⟨hkept, ?_⟩, rfl, rfl, rfl, rfl, rfl, fun _ => rfl⟩
    exact List.getElem?_append_left (h.history.truncatable turn index hkept).1
  rcases addUtterance_cases s text with ⟨heq, -⟩ | ⟨heq, -⟩
  · exact heq ▸ hadded
  rw [heq]
  refine hadded.trans ⟨fun turn index hkept => ?_, rfl, rfl, rfl, rfl, rfl, fun _ => rfl⟩
  obtain ⟨hended, hne⟩ := Option.filter_eq_some_iff.mp hkept
  obtain ⟨hlt, heven, -⟩ := h.history.truncatable turn index hended
  rw [bne_iff_ne] at hne
  -- the entry that is removed has an even index too
  exact ⟨hended, getElem?_joinAround _ (by omega) (by omega)⟩

structure Answered (s t : Dialog τ) (utterance : Utterance) : Prop where
  undisturbed : Undisturbed s t
  turns : t.turns = s.turns
  reply : t.reply = none ∧ t.replyTurn = s.replyTurn ∨ t.reply = some [] ∧ t.replyTurn = utterance.turn

theorem Kept.answered {utterance : Utterance} (h : Kept s waiting) (hreply : s.reply = none)
    (ht : s.respond cfg utterance = some t) : Answered s t utterance := by
  rcases respond_cases ht with ⟨-, rfl⟩ | ⟨-, -, language, isShortSwitch, rfl⟩
  · refine ⟨⟨fun _ _ hkept => ⟨hkept, rfl⟩, rfl, rfl, rfl, rfl, rfl, fun turn => ?_⟩, rfl, .inl ⟨hreply, rfl⟩⟩
    exact lastHeard_concat rfl s.log
  have hadded := h.undisturbed_addUtterance hreply utterance.text
  have hturns := (h.addUtterance hreply utterance.text).same.turns
  refine ⟨hadded.trans ⟨fun _ _ hkept => ⟨hkept, rfl⟩, rfl, rfl, rfl, rfl, rfl, fun turn => ?_⟩, hturns,
    .inr ⟨rfl, rfl⟩⟩
  show lastHeard turn ((s.addUtterance utterance.text).log ++ _ ++ _) = _
  rw [lastHeard_concat rfl, lastHeard_concat rfl]

theorem Kept.next_lt {utterance : Utterance} (h : Kept s (utterance :: waiting)) (hreply : s.reply = none) :
    ∀ u ∈ waiting, utterance.turn < u.turn := by
  obtain ⟨answered, -, hturn, -, hwaiting⟩ := h.floor.next hreply
  intro u hu
  have hmem : u.turn ∈ waiting.map (·.turn) := List.mem_map_of_mem hu
  rw [hwaiting, List.mem_range'_1] at hmem
  omega

theorem Behind.answered {utterance : Utterance} (h : Behind s (utterance :: waiting))
    (hkept : Kept s (utterance :: waiting)) (hle : utterance.turn ≤ s.turns) (hreply : s.reply = none)
    (ht : Answered s t utterance) :
    Behind t waiting ∧ s.replyTurn ≤ t.replyTurn ∧ (t.reply.isSome = true → s.replyTurn < t.replyTurn) := by
  obtain ⟨hnext, hlater⟩ := List.forall_mem_cons.mp h.waiting
  rcases ht.reply with ⟨hnone, hturn⟩ | ⟨hopen, hturn⟩
  · refine ⟨⟨fun turn index hended => ?_, ?_, by rw [hturn, ht.turns]; exact h.turns⟩,
      Nat.le_of_eq hturn.symm, fun hsome => ?_⟩
    · rw [hturn, hnone]
      exact ⟨(h.ended turn index (ht.undisturbed.entry turn index hended).1).1, nofun⟩
    · rw [hturn]
      exact hlater
    · rw [hnone] at hsome
      cases hsome
  · rw [← hturn] at hnext hle
    refine ⟨⟨fun turn index hended => ?_, ?_, by rw [ht.turns]; exact hle⟩, Nat.le_of_lt hnext, fun _ => hnext⟩
    · have hbefore := (h.ended turn index (ht.undisturbed.entry turn index hended).1).1
      exact ⟨by omega, fun _ => by omega⟩
    · rw [hturn]
      exact hkept.next_lt hreply

/-- What the answers leave of the ended reply, and which turn may be open after them. -/
structure Answers (s t : Dialog τ) : Prop where
  undisturbed : Undisturbed s t
  behind : Behind t t.waiting
  opened : s.reply.isSome = true → t.reply = s.reply ∧ t.replyTurn = s.replyTurn ∧ t.progress = s.progress
  le : s.replyTurn ≤ t.replyTurn
  reopened : s.reply = none → t.reply.isSome = true → s.replyTurn < t.replyTurn

theorem Answers.rest (hs : Behind s waiting) : Answers s { s with waiting } :=
  ⟨⟨fun _ _ hkept => ⟨hkept, rfl⟩, rfl, rfl, rfl, rfl, rfl, fun _ => rfl⟩, ⟨hs.ended, hs.waiting, hs.turns⟩,
    fun _ => ⟨rfl, rfl, rfl⟩, Nat.le_refl _, fun hnone hsome => by rw [hnone] at hsome; cases hsome⟩

theorem Behind.interruptOpen (h : Behind s waiting) (times : Times τ) (hkept : HistoryKept s)
    (hreply : s.reply = none ∨ s.reply = some []) :
    Undisturbed s (s.interruptOpen times) ∧ Behind (s.interruptOpen times) waiting ∧
      (s.interruptOpen times).reply = none ∧ (s.interruptOpen times).replyTurn = s.replyTurn := by
  rcases hreply with hnone | hopen
  · have hsame : s.interruptOpen times = s := by simp only [Dialog.interruptOpen, hnone]
    rw [hsame]
    exact ⟨.refl s, h, hnone, rfl⟩
  · have hsame : s.interruptOpen times = s.interruptReply times [] := by
      simp only [Dialog.interruptOpen, hopen]
    have hundisturbed : Undisturbed s (s.interruptReply times []) := undisturbed_interruptReply hkept rfl
    rw [hsame]
    refine ⟨hundisturbed, ⟨fun turn index hended => ?_, h.waiting, h.turns⟩, rfl, rfl⟩
    exact ⟨(h.ended turn index (hundisturbed.entry turn index hended).1).1, nofun⟩

theorem Kept.answers (h : Kept s waiting) (hs : Behind s waiting)
    (ht : Dialog.respondTo cfg times waiting s = some t) : Answers s t := by
  induction waiting generalizing s with
  | nil =>
    cases ht
    exact .rest hs
  | cons utterance rest ih =>
    rw [Dialog.respondTo] at ht
    split at ht
    swap
    · cases ht
      exact .rest hs
    next hmay =>
    obtain ⟨replied, hreplied, hrest⟩ := Option.bind_eq_some_iff.mp ht
    have hnone : s.reply = none := by
      rw [Dialog.mayRespond, Bool.and_eq_true, Option.isNone_iff_eq_none] at hmay
      exact hmay.1
    obtain ⟨hkept, -⟩ := h.respond hmay hreplied
    have hanswered := h.answered hnone hreplied
    obtain ⟨answered, -, hturn, hle, -⟩ := h.floor.next hnone
    obtain ⟨hbehind, hreplyTurn, hreopened⟩ := hs.answered h (hturn ▸ hle) hnone hanswered
    have hcases : replied.reply = none ∨ replied.reply = some [] :=
      hanswered.reply.imp And.left And.left
    split at hrest
    · obtain ⟨hundisturbed, hbehind', hclosed, hsame⟩ := hbehind.interruptOpen times hkept.history hcases
      have hanswers := ih (hkept.interruptOpen times).1 hbehind' hrest
      refine ⟨(hanswered.undisturbed.trans hundisturbed).trans hanswers.undisturbed, hanswers.behind,
        fun hsome => ?_, ?_, fun _ hsome => ?_⟩
      · rw [hnone] at hsome
        cases hsome
      · exact Nat.le_trans hreplyTurn (hsame ▸ hanswers.le)
      · exact Nat.lt_of_le_of_lt hreplyTurn (hsame ▸ hanswers.reopened hclosed hsome)
    · have hanswers := ih hkept hbehind hrest
      refine ⟨hanswered.undisturbed.trans hanswers.undisturbed, hanswers.behind, fun hsome => ?_,
        Nat.le_trans hreplyTurn hanswers.le, fun _ hsome => ?_⟩
      · rw [hnone] at hsome
        cases hsome
      · rcases hcases with hclosed | hopen
        · exact Nat.lt_of_le_of_lt hreplyTurn (hanswers.reopened hclosed hsome)
        · exact Nat.lt_of_lt_of_le (hreopened (by rw [hopen]; rfl)) hanswers.le

theorem effect_of_step {awaitsDelivery : Bool} {event : Event τ} (h : Settled s) (hs : Behind s s.waiting)
    (ht : (dialog cfg times awaitsDelivery).step s event = some t) :
    ∃ handled, Effect times s event handled ∧ Answers handled t := by
  cases event with
  | input input =>
    obtain ⟨handled, hhandled, hsettled⟩ := Option.bind_eq_some_iff.mp ht
    have heffect := effect_handle h.kept.history hhandled
    exact ⟨handled, heffect, (h.handle hhandled).1.answers (hs.effect heffect) hsettled⟩
  | control event =>
    have hrest {handled : Dialog τ} (heffect : Effect times s (.control event) handled) :
        Answers handled handled := .rest (hs.effect heffect)
    cases event with
    | interrupt =>
      have heffect : Effect times s (.control .interrupt) (s.interruptOpen times) :=
        effect_interrupt h.kept.history (fun _ => rfl) s.isUserSpeaking
      have ht : s.control cfg times .interrupt = some t := ht
      unfold Dialog.control at ht
      cases hreply : s.reply with
      | none =>
        simp only [hreply, Option.some.injEq] at ht
        have hsame : s.interruptOpen times = s := by simp only [Dialog.interruptOpen, hreply]
        rw [hsame] at heffect
        exact ⟨s, heffect, ht ▸ hrest heffect⟩
      | some parts =>
        simp only [hreply] at ht
        have hsame : s.interruptOpen times = s.interruptReply times parts := by
          simp only [Dialog.interruptOpen, hreply]
        rw [hsame] at heffect
        obtain ⟨hended, hsaved⟩ := h.kept.interruptReply times hreply
        exact ⟨_, heffect, (hended.own hsaved.waiting).answers (hs.effect heffect) ht⟩
    | replyProgress turn' textEnd audioMs =>
      have hevent (turn : Nat) : (Event.control (.replyProgress turn' textEnd audioMs)).report turn s =
          if turn' = some (turn : Int) then some (.progress textEnd audioMs) else none := rfl
      have heffect : Effect times s (.control (.replyProgress turn' textEnd audioMs)) t := by
        cases ht
        split
        · next hmatches =>
          refine effect_report (.progress textEnd audioMs) (fun turn => ?_) hmatches
          rw [hevent]
          exact if_congr ⟨fun hturn => ⟨hturn, hturn ▸ hmatches⟩, And.left⟩ rfl rfl
        next hnot =>
        split
        · next hopen =>
          obtain ⟨hsome, hturn⟩ := (Bool.and_eq_true _ _).mp hopen
          rw [beq_iff_eq] at hturn
          refine .spoken textEnd audioMs hsome (by rw [hevent, if_pos hturn]) fun turn hne => ?_
          rw [hevent, if_neg]
          rintro rfl
          exact hne (Int.ofNat_inj.mp (Option.some.inj hturn))
        · next hclosed =>
          refine effect_refl fun turn hfollowed => ?_
          rw [hevent, if_neg]
          rintro rfl
          exact hfollowed.elim hclosed hnot
      exact ⟨t, heffect, hrest heffect⟩
    | other =>
      cases ht
      have heffect : Effect times s (.control .other) s := effect_refl fun _ _ => rfl
      exact ⟨s, heffect, hrest heffect⟩

theorem behind_of_reaches {awaitsDelivery : Bool}
    (h : (dialog cfg times awaitsDelivery).Reaches Lib.Machine.anyAction s) : Settled s ∧ Behind s s.waiting := by
  let M := dialog cfg times awaitsDelivery
  have hboth : M.Reaches Lib.Machine.anyAction s ∧ Behind s s.waiting := by
    refine h.invariant (P := fun s => M.Reaches Lib.Machine.anyAction s ∧ Behind s s.waiting)
      ⟨.refl _, nofun, nofun, Nat.le_refl _⟩ fun s event t ⟨hreaches, hs⟩ ha ht => ?_
    obtain ⟨handled, -, hanswers⟩ := effect_of_step (settled_of_reaches hreaches) hs ht
    exact ⟨hreaches.tail ha ht, hanswers.behind⟩
  exact ⟨settled_of_reaches h, hboth.2⟩

/-! ### Every report is heard -/

structure Speaking (turn : Nat) (reports : List (Report τ)) (s : Dialog τ) : Prop where
  reply : s.reply.isSome = true
  turn : s.replyTurn = turn
  progress : s.progress = reports.filterMap Report.boundary?
  delivered : reports.filterMap Report.delivered? = []
  truncated : reports.filterMap Report.truncated? = []

theorem Told.effect {reports : List (Report τ)} {event : Event τ} (h : Told times turn index reports s)
    (hkept : HistoryKept s) (hs : Behind s s.waiting) (he : Effect times s event t)
    (hstays : t.truncatable = some (turn, index')) :
    Told times turn index' (reports ++ (event.report turn s).toList) t := by
  have hmatches : s.isTruncatable (some turn) = true := isTruncatable_iff.mpr ⟨index, h.truncatable⟩
  obtain ⟨-, hlt⟩ := hs.ended turn index h.truncatable
  cases he with
  | quiet hreport ht =>
    rw [hreport turn (.inr hmatches), Option.toList_none, List.append_nil]
    exact h.undisturbed ht hstays
  | reported report hreport =>
    rw [hreport turn hmatches]
    have hindex := (hkept.truncatable turn index h.truncatable).1
    have hprogress := h.progress
    have hdelivered := h.delivered
    have hheard := h.heard
    cases report with
    | progress | delivered | truncated =>
      refine told_truncate (s := s.withReport _) _ h.truncatable hindex ?_ ?_ ?_ hstays <;>
        simp [Dialog.withReport, Report.boundary?, Report.delivered?, Report.truncated?, hprogress,
          hdelivered, hheard]
  | spoken _ _ hopen _ hother =>
    rw [hother turn (Nat.ne_of_lt (hlt hopen)), Option.toList_none, List.append_nil]
    exact h.undisturbed ⟨fun _ _ hended => ⟨hended, rfl⟩, rfl, rfl, rfl, rfl, rfl, fun _ => rfl⟩ hstays
  | finished parts hreply =>
    cases hstays
    exact absurd (hlt (by rw [hreply]; rfl)) (Nat.lt_irrefl _)
  | interrupted parts isUserSpeaking hreply _ htext =>
    obtain ⟨rfl, -⟩ := Prod.mk.inj (interruptReply_ended htext hstays)
    exact absurd (hlt (by rw [hreply]; rfl)) (Nat.lt_irrefl _)

theorem Speaking.told_finish {reports : List (Report τ)} (h : Speaking turn reports s)
    (hinfinite : times.isInf times.infinity = true) (parts : List Text) :
    Told times turn s.messages.length reports (s.finishReply times parts) where
  truncatable := by rw [← h.turn]; rfl
  progress := h.progress
  delivered := by rw [h.delivered]; rfl
  heard := by rw [h.truncated]; rfl
  entry hfinite := by
    rw [show (s.finishReply times parts).heardUpTo times = times.infinity from rfl, hinfinite] at hfinite
    cases hfinite

theorem Speaking.told_interrupt {reports : List (Report τ)} (h : Speaking turn reports s)
    {parts : List Text} (htext : parts.flatten ≠ [])
    (hstays : (s.interruptReply times parts).truncatable = some (turn, index)) :
    Told times turn index reports (s.interruptReply times parts) := by
  rw [interruptReply_text htext] at hstays ⊢
  have hcut : Told times turn index reports ((s.keepNothing.becomeTruncatable parts.flatten).truncate times) := by
    refine told_truncate s.messages.length ?_ ?_ h.progress ?_ ?_ hstays
    · simp [Dialog.becomeTruncatable, Dialog.keepNothing, h.turn]
    · simp [Dialog.becomeTruncatable, Dialog.keepNothing]
    · rw [h.delivered]
      rfl
    · rw [h.truncated]
      rfl
  refine hcut.undisturbed ⟨fun _ _ hended => ⟨hended, rfl⟩, rfl, rfl, rfl, rfl, rfl, fun turn => ?_⟩ hstays
  simp only
  rw [lastHeard_concat rfl, lastHeard_concat rfl]

theorem Speaking.effect {reports : List (Report τ)} {event : Event τ} (h : Speaking turn reports s)
    (hs : Behind s s.waiting) (hinfinite : times.isInf times.infinity = true) (he : Effect times s event t) :
    Speaking turn (reports ++ (event.report turn s).toList) t ∨
      t.reply = none ∧ t.replyTurn = turn ∧ ∀ index, t.truncatable = some (turn, index) →
        Told times turn index (reports ++ (event.report turn s).toList) t := by
  have hopen : s.isReply (some turn) = true := isReply_iff.mpr ⟨h.reply, h.turn⟩
  have hnot : ∀ index, s.truncatable ≠ some (turn, index) := fun index hended => by
    have hlt := (hs.ended turn index hended).2 h.reply
    rw [h.turn] at hlt
    exact Nat.lt_irrefl _ hlt
  cases he with
  | quiet hreport ht hreply hturn =>
    rw [hreport turn (.inl hopen), Option.toList_none, List.append_nil]
    cases hsome : t.reply with
    | none => exact .inr ⟨rfl, hturn.trans h.turn, fun index hended => absurd (ht.entry turn index hended).1 (hnot index)⟩
    | some parts =>
      obtain ⟨-, hprogress⟩ := hreply (by rw [hsome]; rfl)
      exact .inl ⟨by rw [hsome]; rfl, hturn.trans h.turn, hprogress.trans h.progress, h.delivered, h.truncated⟩
  | reported report _ hother =>
    have hnone : s.isTruncatable (some turn) = false :=
      Bool.eq_false_iff.mpr fun hended => absurd (isTruncatable_iff.mp hended) fun ⟨index, hindex⟩ => hnot index hindex
    rw [hother turn hnone, Option.toList_none, List.append_nil]
    have hsame := sameTurns_truncate times (s.withReport report)
    have hprogress := (truncate_fields times (s.withReport report)).1
    have hfields : (s.withReport report).reply = s.reply ∧ (s.withReport report).replyTurn = s.replyTurn ∧
        (s.withReport report).progress = s.progress := by
      cases report <;> exact ⟨rfl, rfl, rfl⟩
    obtain ⟨hreply, hturn, hbefore⟩ := hfields
    exact .inl ⟨by rw [hsame.reply, hreply, h.reply], by rw [hsame.replyTurn, hturn, h.turn],
      by rw [hprogress, hbefore, h.progress], h.delivered, h.truncated⟩
  | spoken textEnd audioMs _ hreport =>
    obtain rfl := h.turn
    rw [hreport]
    refine .inl ⟨h.reply, rfl, ?_, ?_, ?_⟩
    · simp [h.progress, Report.boundary?]
    · simp [h.delivered, Report.delivered?]
    · simp [h.truncated, Report.truncated?]
  | finished parts _ hreport =>
    rw [hreport, Option.toList_none, List.append_nil]
    refine .inr ⟨rfl, h.turn, fun index hended => ?_⟩
    cases hended
    exact h.told_finish hinfinite parts
  | interrupted parts isUserSpeaking _ hreport htext =>
    rw [hreport, Option.toList_none, List.append_nil]
    have hspeaking : Speaking turn reports { s with isUserSpeaking } :=
      ⟨h.reply, h.turn, h.progress, h.delivered, h.truncated⟩
    obtain ⟨hnone, hturn, -, -⟩ := interruptReply_same { s with isUserSpeaking } times htext
    exact .inr ⟨hnone, hturn.trans h.turn, fun index hended => hspeaking.told_interrupt htext hended⟩

theorem Followed.told {awaitsDelivery : Bool} {reports : List (Report τ)}
    (h : Followed cfg times awaitsDelivery turn reports s) (hinfinite : times.isInf times.infinity = true) :
    (dialog cfg times awaitsDelivery).Reaches Lib.Machine.anyAction s ∧
      (Speaking turn reports s ∨ ∃ index, Told times turn index reports s) := by
  induction h with
  | opened h hreply hturn hprogress =>
    exact ⟨h, .inl ⟨by rw [hreply]; rfl, hturn, hprogress, rfl, rfl⟩⟩
  | @step reports s t event _ ht hstays ih =>
    obtain ⟨hreaches, hphase⟩ := ih
    refine ⟨hreaches.tail trivial ht, ?_⟩
    obtain ⟨hsettled, hs⟩ := behind_of_reaches hreaches
    obtain ⟨handled, heffect, hanswers⟩ := effect_of_step hsettled hs ht
    rw [Bool.or_eq_true, Bool.and_eq_true, isReply_iff, isReply_iff, isTruncatable_iff] at hstays
    rcases hphase with hspeaking | ⟨index, htold⟩
    · rcases hspeaking.effect hs hinfinite heffect with hopen | ⟨hnone, hturn, htold⟩
      · obtain ⟨hreply, hturn, hprogress⟩ := hanswers.opened hopen.reply
        exact .inl ⟨by rw [hreply, hopen.reply], hturn.trans hopen.turn, hprogress.trans hopen.progress,
          hopen.delivered, hopen.truncated⟩
      · rcases hstays with ⟨-, hsome, hsame⟩ | ⟨index, hended⟩
        · have hlt := hanswers.reopened hnone hsome
          omega
        · have hbefore := (hanswers.undisturbed.entry turn index hended).1
          exact .inr ⟨index, (htold index hbefore).undisturbed hanswers.undisturbed hended⟩
    · rcases hstays with ⟨⟨hopen, hsame⟩, -⟩ | ⟨index', hended⟩
      · have hlt := (hs.ended turn index htold.truncatable).2 hopen
        omega
      · have hbefore := (hanswers.undisturbed.entry turn index' hended).1
        have htold' := htold.effect hsettled.kept.history hs heffect hbefore
        exact .inr ⟨index', htold'.undisturbed hanswers.undisturbed hended⟩

/-! ### Every order of the reports -/

theorem eq_of_perm_of_short {α : Type} {l l' : List α} (h : l.Perm l') (hshort : l.length ≤ 1) : l = l' := by
  match l, hshort with
  | [], _ => exact (List.nil_perm.mp h).symm
  | [a], _ => exact List.singleton_perm.mp h

theorem heardPrefix_perm (h : times.Lawful) {progress progress' : List (Int × τ)} (hperm : progress.Perm progress')
    (heardMs : τ) (text : Text) :
    times.heardPrefix progress heardMs text = times.heardPrefix progress' heardMs text := by
  unfold Times.heardPrefix
  rw [times.latest_perm h (hperm.filter _)]

theorem Told.heardUpTo {reports : List (Report τ)} (h : Told times turn index reports s) :
    s.heardUpTo times = heardBy times s.isTruncatableInterrupted reports := by
  rw [Dialog.heardUpTo, h.heard, h.delivered]
  rfl

/-- In every run with a reply that can be cut, the reply's entry and the last reply.heard are what its
reports say, and so the same in every other run with these reports in another order. -/
theorem reply_cut_by_reports (hlaw : times.Lawful) {awaitsDelivery : Bool} {reports : List (Report τ)}
    (h : Followed cfg times awaitsDelivery turn reports s) (hended : s.truncatable = some (turn, index))
    (hfinite : times.isInf (heardBy times s.isTruncatableInterrupted reports) = false) :
    (∃ textEnd entry, s.messages[index]? = some entry ∧
      IsLastHeard times (reports.filterMap Report.boundary?)
        (heardBy times s.isTruncatableInterrupted reports) textEnd ∧
      entry.content = rstrip (sliceTo s.truncatableText textEnd) ∧
      (reports.filterMap Report.truncated? ≠ [] → lastHeard turn s.log = some textEnd)) ∧
    ∀ (awaitsDelivery' : Bool) (reports' : List (Report τ)) (t : Dialog τ) (index' : Nat),
      Followed cfg times awaitsDelivery' turn reports' t → t.truncatable = some (turn, index') →
      t.truncatableText = s.truncatableText → t.isTruncatableInterrupted = s.isTruncatableInterrupted →
      reports.Perm reports' → (reports.filterMap Report.delivered?).length ≤ 1 →
      (reports.filterMap Report.truncated?).length ≤ 1 →
      t.messages[index']? = s.messages[index]? ∧
        (reports.filterMap Report.truncated? ≠ [] → lastHeard turn t.log = lastHeard turn s.log) := by
  have htold {awaitsDelivery : Bool} {reports : List (Report τ)} {s : Dialog τ} {index : Nat}
      (h : Followed cfg times awaitsDelivery turn reports s) (hended : s.truncatable = some (turn, index)) :
      Told times turn index reports s := by
    obtain ⟨hreaches, hspeaking | ⟨index', htold⟩⟩ := h.told hlaw.isInf_infinity
    · have hlt := ((behind_of_reaches hreaches).2.ended turn index hended).2 hspeaking.reply
      exact absurd (hspeaking.turn ▸ hlt) (Nat.lt_irrefl _)
    · obtain rfl := (Prod.mk.inj (Option.some.inj (htold.truncatable.symm.trans hended))).2
      exact htold
  have hs := htold h hended
  have hupto := hs.heardUpTo
  obtain ⟨hentry, hheard⟩ := hs.entry (hupto ▸ hfinite)
  have hsome (hcame : reports.filterMap Report.truncated? ≠ []) : s.heardMs.isSome = true := by
    rw [hs.heard]
    exact List.getLast?_isSome.mpr hcame
  refine ⟨⟨(s.cut times).1, _, hentry, ?_, rfl, fun hcame => hheard (hsome hcame)⟩, ?_⟩
  · rw [← hupto, ← hs.progress]
    exact isLastHeard_heardPrefix hlaw _ _ _
  · intro awaitsDelivery' reports' t index' h' hended' htext hinterrupted hperm hdelivered htruncated
    have ht := htold h' hended'
    have hsameDelivered := eq_of_perm_of_short (hperm.filterMap Report.delivered?) hdelivered
    have hsameTruncated := eq_of_perm_of_short (hperm.filterMap Report.truncated?) htruncated
    have hsameUpto : t.heardUpTo times = s.heardUpTo times := by
      rw [ht.heardUpTo, hupto, hinterrupted, heardBy, heardBy, hsameDelivered, hsameTruncated]
    have hcut : t.cut times = s.cut times := by
      rw [Dialog.cut, Dialog.cut, hsameUpto, htext, ht.progress, hs.progress]
      exact (heardPrefix_perm hlaw (hperm.filterMap _) _ _).symm
    obtain ⟨hentry', hheard'⟩ := ht.entry (by rw [hsameUpto, hupto]; exact hfinite)
    refine ⟨?_, fun hcame => ?_⟩
    · rw [hentry', hentry, hcut]
      simp only [Dialog.cutEntry, htext, hinterrupted]
    · have hsome' : t.heardMs.isSome = true := by
        rw [ht.heard, ← hsameTruncated, ← hs.heard]
        exact hsome hcame
      rw [hheard' hsome', hheard (hsome hcame), hcut]

/-- A run goes on with an event, as `Followed` asks. -/
def follow (cfg : DialogConfig) (times : Times τ) (awaitsDelivery : Bool) (turn : Nat)
    (run : List (Report τ) × Dialog τ) (event : Event τ) : Option (List (Report τ) × Dialog τ) := do
  let t ← (dialog cfg times awaitsDelivery).step run.2 event
  if run.2.isReply (some turn) && t.isReply (some turn) || t.isTruncatable (some turn) then
    some (run.1 ++ (event.report turn run.2).toList, t)
  else none

theorem Followed.foldlM {awaitsDelivery : Bool} {events : List (Event τ)} {run run' : List (Report τ) × Dialog τ}
    (h : Followed cfg times awaitsDelivery turn run.1 run.2)
    (hrun : events.foldlM (follow cfg times awaitsDelivery turn) run = some run') :
    Followed cfg times awaitsDelivery turn run'.1 run'.2 := by
  induction events generalizing run with
  | nil =>
    cases hrun
    exact h
  | cons event rest ih =>
    rw [List.foldlM_cons] at hrun
    obtain ⟨next, hnext, hrest⟩ := Option.bind_eq_some_iff.mp hrun
    obtain ⟨t, ht, hnext⟩ := Option.bind_eq_some_iff.mp hnext
    split at hnext
    · next hstays =>
      cases hnext
      exact ih (h.step ht hstays) hrest
    · cases hnext

theorem wholeTimes_lawful : wholeTimes.Lawful where
  order :=
    { irrefl := fun t => by cases t <;> simp [wholeTimes]
      trans := fun {t u v} htu huv => by
        cases t <;> cases u <;> cases v <;> simp_all [wholeTimes]
        omega
      total := fun {t u} hne => by
        cases t <;> cases u <;> simp_all [wholeTimes] }
  isInf_infinity := rfl

/-- Two orders of the reports of a reply that speech interrupts after its first sentence. -/
theorem reply_cut_by_reports_interrupted :
    let cfg : DialogConfig := ⟨[], 100, 10⟩
    let reports : List (Report (Option Nat)) :=
      [.progress 3 (some 400), .delivered (some 900), .progress 6 (some 800), .truncated (some 500)]
    let reports' : List (Report (Option Nat)) :=
      [.progress 3 (some 400), .truncated (some 500), .progress 6 (some 800), .delivered (some 900)]
    ∃ s t : Dialog (Option Nat), Followed cfg wholeTimes true 1 reports s ∧
      Followed cfg wholeTimes true 1 reports' t ∧ reports.Perm reports' ∧
      s.messages[2]? = some { role := .assistant, content := ['y', 'e', 's'], uncertain := true, isCut := true } ∧
      t.messages[2]? = s.messages[2]? ∧ lastHeard 1 t.log = lastHeard 1 s.log := by
  intro cfg reports reports'
  let opening : List (Event (Option Nat)) := [.input (.transcript ['h', 'i'] true none)]
  let before : List (Event (Option Nat)) := [.input (.textDelta (some 1) ['y', 'e', 's', ' ', 'n', 'o']),
    .control (.replyProgress (some 1) 3 (some 400)), .input .speechStarted]
  let delivered : Event (Option Nat) := .input (.replyDelivered (some 1) (some 900))
  let progress : Event (Option Nat) := .control (.replyProgress (some 1) 6 (some 800))
  let truncated : Event (Option Nat) := .input (.truncate none (some 500))
  let start := (dialog cfg wholeTimes true).exec (.initial cfg wholeTimes true) opening
  let run (events : List (Event (Option Nat))) :=
    start.bind fun s => (before ++ events).foldlM (follow cfg wholeTimes true 1) ([], s)
  have hopened : start.any (fun s => decide (s.reply = some [] ∧ s.replyTurn = 1 ∧ s.progress = [])) = true := by
    decide +kernel
  have hfirst : (run [delivered, progress, truncated]).any (fun q => decide (q.1 = reports ∧
      q.2.truncatable = some (1, 2) ∧ q.2.truncatableText = ['y', 'e', 's', ' ', 'n', 'o'] ∧
      q.2.isTruncatableInterrupted = true ∧ q.2.messages[2]? =
        some { role := .assistant, content := ['y', 'e', 's'], uncertain := true, isCut := true })) = true := by
    decide +kernel
  have hsecond : (run [truncated, progress, delivered]).any (fun q => decide (q.1 = reports' ∧
      q.2.truncatable = some (1, 2) ∧ q.2.truncatableText = ['y', 'e', 's', ' ', 'n', 'o'] ∧
      q.2.isTruncatableInterrupted = true)) = true := by
    decide +kernel
  have hperm : reports.Perm reports' := by decide +kernel
  have hfinite : wholeTimes.isInf (heardBy wholeTimes true reports) = false := by decide +kernel
  have hone : (reports.filterMap Report.delivered?).length ≤ 1 ∧
      (reports.filterMap Report.truncated?).length ≤ 1 ∧ reports.filterMap Report.truncated? ≠ [] := by decide
  have hfollowed {events : List (Event (Option Nat))} {q : List (Report (Option Nat)) × Dialog (Option Nat)}
      (hq : run events = some q) : Followed cfg wholeTimes true 1 q.1 q.2 := by
    obtain ⟨s, hs, hrest⟩ := Option.bind_eq_some_iff.mp hq
    rw [hs, Option.any_some, decide_eq_true_eq] at hopened
    obtain ⟨hreply, hturn, hprogress⟩ := hopened
    exact (Followed.opened (Lib.Machine.path_of_exec hs) hreply hturn hprogress).foldlM hrest
  obtain ⟨⟨_, s⟩, hs, hs'⟩ := (Option.any_eq_true _ _).mp hfirst
  obtain ⟨⟨_, t⟩, ht, ht'⟩ := (Option.any_eq_true _ _).mp hsecond
  obtain ⟨rfl, hended, htext, hinterrupted, hentry⟩ := of_decide_eq_true hs'
  obtain ⟨rfl, hended', htext', hinterrupted'⟩ := of_decide_eq_true ht'
  have hsame := (reply_cut_by_reports wholeTimes_lawful (hfollowed hs) hended
    (by rw [hinterrupted]; exact hfinite)).2 true _ t 2 (hfollowed ht) hended' (htext'.trans htext.symm)
    (hinterrupted'.trans hinterrupted.symm) hperm hone.1 hone.2.1
  exact ⟨s, t, hfollowed hs, hfollowed ht, hperm, hentry, hsame.1, hsame.2 hone.2.2⟩

end Cascade
