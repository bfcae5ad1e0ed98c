import SglangOmni.Cascade.History

/-! Every event leaves a dialog with an alternating history, its turns in order and no utterance that
waits for nothing. -/

namespace Cascade

variable {τ : Type} {cfg : DialogConfig} {times : Times τ} {s t : Dialog τ}
  {waiting : List Utterance}

/-- An interrupted reply of which no report has come yet: it is the last entry and can be cut. -/
def AwaitsReport (s : Dialog τ) : Prop :=
  s.reply = none ∧ s.isTruncatableInterrupted = true
    ∧ s.truncatable = some (s.replyTurn, s.messages.length - 1)

/-- The state of a dialog between two operations, `waiting` the utterances that wait. -/
structure Kept (s : Dialog τ) (waiting : List Utterance) : Prop where
  history : HistoryKept s
  parity : s.messages.length % 2 = if s.reply.isSome then 0 else 1
  floor : FloorKept s waiting
  report : s.awaitsDelivery = true → s.deliveredMs = none → s.heardMs = none → AwaitsReport s

theorem Kept.initial (cfg : DialogConfig) (times : Times τ) (awaitsDelivery : Bool) :
    Kept (.initial cfg times awaitsDelivery) [] where
  history :=
    { alternating := by
        refine ⟨List.cons_ne_nil _ _, fun index message hmessage => ?_⟩
        cases index with
        | zero =>
          cases hmessage
          rfl
        | succ index => cases hmessage
      truncatable := nofun }
  parity := rfl
  floor := ⟨0, rfl, rfl, Nat.le_refl _⟩
  report := nofun

/-! ### Cuts -/

theorem Kept.cut (h : Kept s waiting) {turn index : Nat}
    (htruncatable : s.truncatable = some (turn, index)) (hcut : Cut s t index) : Kept t waiting where
  history := h.history.cut htruncatable hcut
  parity := by rw [hcut.parity, hcut.sameTurns.reply, h.parity]
  floor := h.floor.same hcut.sameTurns hcut.log
  report hawaits hdelivered hheard := by
    have hsame := hcut.sameTurns
    obtain ⟨hreply, hinterrupted, hlast⟩ := h.report (hsame.awaitsDelivery ▸ hawaits)
      (hsame.deliveredMs ▸ hdelivered) (hsame.heardMs ▸ hheard)
    have hpos := h.history.truncatable _ _ hlast
    cases htruncatable.symm.trans hlast
    obtain ⟨hlength, hkept⟩ := hcut.of_last (by omega)
    exact ⟨hsame.reply.trans hreply, hsame.isTruncatableInterrupted.trans hinterrupted,
      by rw [hkept, hlast, hlength, hsame.replyTurn]⟩

theorem Kept.truncate (h : Kept s waiting) : Kept (s.truncate times) waiting := by
  unfold Dialog.truncate
  split
  · exact h
  · next turn index htruncatable => exact h.cut htruncatable (cut_truncateAt times s turn index)

theorem sameTurns_truncate (times : Times τ) (s : Dialog τ) : SameTurns s (s.truncate times) := by
  unfold Dialog.truncate
  split
  · exact .refl s
  · next turn index _ => exact (cut_truncateAt times s turn index).sameTurns

/-! ### The end of a reply -/

theorem HistoryKept.role_next (h : HistoryKept s) (hparity : s.messages.length % 2 = 0) :
    roleAt s.messages.length = .assistant :=
  roleAt_even hparity fun hzero => h.alternating.1 (List.length_eq_zero_iff.mp hzero)

theorem Kept.parity_open (h : Kept s waiting) (hreply : s.reply.isSome = true) :
    s.messages.length % 2 = 0 := by
  have hparity := h.parity
  rwa [if_pos hreply] at hparity

structure ReplyEnded (s t : Dialog τ) : Prop where
  reply : t.reply = none
  awaitsDelivery : t.awaitsDelivery = s.awaitsDelivery
  waiting : t.waiting = s.waiting
  isUserSpeaking : t.isUserSpeaking = s.isUserSpeaking

theorem HistoryKept.finishReply (h : HistoryKept s) (hparity : s.messages.length % 2 = 0)
    (parts : List Text) : HistoryKept (s.finishReply times parts) := by
  refine ⟨h.alternating.concat (h.role_next hparity).symm, fun turn index htruncatable => ?_⟩
  cases htruncatable
  have hne : s.messages.length ≠ 0 := fun hzero => h.alternating.1 (List.length_eq_zero_iff.mp hzero)
  exact ⟨by simp [Dialog.finishReply], hparity, hne⟩

theorem Kept.finishReply (h : Kept s waiting) {parts : List Text} (hreply : s.reply = some parts) :
    Kept (s.finishReply times parts) waiting where
  history := h.history.finishReply (h.parity_open (by rw [hreply]; rfl)) parts
  parity := by
    have hlength := h.parity_open (by rw [hreply]; rfl)
    simp only [Dialog.finishReply, List.length_append, List.length_singleton, Option.isSome_none,
      Bool.false_eq_true, if_false]
    omega
  floor := by
    obtain ⟨answered, hrun, hwaiting, hle⟩ := h.floor
    refine ⟨answered, Floor.run_concat hrun ?_, hwaiting, hle⟩
    have hholder : s.holder = some ⟨s.replyTurn, false⟩ := by simp [Dialog.holder, hreply]
    exact if_pos hholder
  report := nofun

def Dialog.cutReply (times : Times τ) (s : Dialog τ) (parts : List Text) : Dialog τ :=
  if parts.flatten.isEmpty then s.keepNothing
  else (s.keepNothing.becomeTruncatable parts.flatten).truncate times

theorem interruptReply_eq (s : Dialog τ) (parts : List Text) :
    s.interruptReply times parts =
      { s.cutReply times parts with
        reply := none
        log := (s.cutReply times parts).log ++ [.emitted (.interrupt s.replyTurn)]
          ++ [.emitted (.interrupted s.replyTurn)] } := rfl

/-- The entry is added at the end; with text, it is the one that later reports cut. -/
structure ReplyCut (s t : Dialog τ) (parts : List Text) : Prop where
  history : HistoryKept t
  length : t.messages.length = s.messages.length + 1
  log : Reported s.log t.log
  same : t.awaitsDelivery = s.awaitsDelivery ∧ t.waiting = s.waiting ∧ t.replyTurn = s.replyTurn
    ∧ t.turns = s.turns ∧ t.isUserSpeaking = s.isUserSpeaking
  report : parts.flatten = [] ∧ t.deliveredMs = s.deliveredMs ∧ t.heardMs = s.heardMs
    ∨ t.isTruncatableInterrupted = true ∧ t.truncatable = some (s.replyTurn, s.messages.length)

theorem HistoryKept.replyCut (h : HistoryKept s) (times : Times τ) (hparity : s.messages.length % 2 = 0)
    (parts : List Text) : ReplyCut s (s.cutReply times parts) parts := by
  have hkept : HistoryKept s.keepNothing := h.concat (h.role_next hparity).symm
  unfold Dialog.cutReply
  split
  · next hempty =>
    exact ⟨hkept, by simp [Dialog.keepNothing], .inl rfl, ⟨rfl, rfl, rfl, rfl, rfl⟩,
      .inl ⟨List.isEmpty_iff.mp hempty, rfl, rfl⟩⟩
  let cuttable := s.keepNothing.becomeTruncatable parts.flatten
  have hlength : cuttable.messages.length = s.messages.length + 1 := by
    simp [cuttable, Dialog.becomeTruncatable, Dialog.keepNothing]
  have htruncatable : cuttable.truncatable = some (s.replyTurn, s.messages.length) := by
    simp [cuttable, Dialog.becomeTruncatable, Dialog.keepNothing]
  have hcuttable : HistoryKept cuttable := by
    refine ⟨hkept.alternating, fun turn index hindex => ?_⟩
    cases htruncatable.symm.trans hindex
    exact ⟨by omega, hparity, fun hzero => h.alternating.1 (List.length_eq_zero_iff.mp hzero)⟩
  have hcut : Cut cuttable (cuttable.truncate times) s.messages.length := by
    unfold Dialog.truncate
    rw [htruncatable]
    exact cut_truncateAt times cuttable s.replyTurn s.messages.length
  obtain ⟨hlength', hkept'⟩ := hcut.of_last hlength.symm
  have hsame := hcut.sameTurns
  exact {
    history := hcuttable.cut htruncatable hcut
    length := hlength'.trans hlength
    log := hcut.log
    same := ⟨hsame.awaitsDelivery, hsame.waiting, hsame.replyTurn, hsame.turns, hsame.isUserSpeaking⟩
    report := .inr ⟨hsame.isTruncatableInterrupted, hkept'.trans htruncatable⟩ }

theorem Kept.interruptReply (h : Kept s waiting) (times : Times τ) {parts : List Text}
    (hreply : s.reply = some parts) :
    Kept (s.interruptReply times parts) waiting
      ∧ ReplyEnded s (s.interruptReply times parts) := by
  have hsome : s.reply.isSome = true := by rw [hreply]; rfl
  have hcut : ReplyCut s (s.cutReply times parts) parts := h.history.replyCut times (h.parity_open hsome) parts
  obtain ⟨hawaits, hwaits, hturn, hturns, hspeaking⟩ := hcut.same
  have hparity := h.parity
  rw [if_pos hsome] at hparity
  rw [interruptReply_eq]
  refine ⟨{ history := ⟨hcut.history.alternating, hcut.history.truncatable⟩, parity := ?_, floor := ?_, report := ?_ },
    ⟨rfl, hawaits, hwaits, hspeaking⟩⟩
  · have := hcut.length
    simp only [Option.isSome_none, Bool.false_eq_true, if_false]
    omega
  · obtain ⟨answered, hrun, hwaiting, hle⟩ := h.floor
    have hholder : s.holder = some ⟨s.replyTurn, false⟩ := if_pos hsome
    rw [hholder] at hrun
    refine ⟨answered, ?_, ?_, ?_⟩
    · refine Floor.run_concat (Floor.run_concat (run_of_reported hrun hcut.log) (if_pos rfl)) ?_
      simp [Floor.after, Dialog.holder, hturns]
    · exact hturns ▸ hwaiting
    · exact hturns ▸ hle
  · intro hawaits' hdelivered hheard
    rcases hcut.report with ⟨-, hdelivered', hheard'⟩ | ⟨hinterrupted, htruncatable⟩
    · -- a reply was open, so a report of the reply before it has come
      have hopen := h.report (hawaits ▸ hawaits') (hdelivered' ▸ hdelivered) (hheard' ▸ hheard)
      cases hreply.symm.trans hopen.1
    · refine ⟨rfl, hinterrupted, ?_⟩
      simp only [htruncatable, hcut.length, hturn, Nat.add_sub_cancel]

theorem Kept.interruptOpen (h : Kept s waiting) (times : Times τ) :
    Kept (s.interruptOpen times) waiting ∧ ReplyEnded s (s.interruptOpen times) := by
  unfold Dialog.interruptOpen
  split
  · next hnone => exact ⟨h, hnone, rfl, rfl, rfl⟩
  · next parts hreply => exact h.interruptReply times hreply

/-! ### Answers -/

/-- The history with one more utterance, which may have joined the user message before it. -/
structure UtteranceAdded (s t : Dialog τ) : Prop where
  history : HistoryKept t
  parity : t.messages.length % 2 = 0
  same : SameTurns s t
  log : t.log = s.log

theorem HistoryKept.addUtterance (h : HistoryKept s) (hparity : s.messages.length % 2 = 1) (text : Text) :
    UtteranceAdded s (s.addUtterance text) := by
  have hadded : HistoryKept (s.withUtterance text) := h.concat (roleAt_odd hparity).symm
  have hlength := length_withUtterance s text
  have hsame : SameTurns s (s.withUtterance text) := ⟨rfl, rfl, rfl, rfl, rfl, rfl, rfl, rfl, rfl⟩
  rcases addUtterance_cases s text with ⟨heq, -⟩ | ⟨heq, before, hbefore, hassistant, -⟩
  · rw [heq]
    exact ⟨hadded, by omega, hsame, rfl⟩
  have hrole := (hadded.alternating.2 _ _ hbefore).symm.trans hassistant
  have hne : s.messages.length - 1 ≠ 0 := fun hzero => by
    rw [hzero] at hrole
    cases hrole
  have hlt : s.messages.length - 1 + 1 < (s.withUtterance text).messages.length := by omega
  have hlength' := length_joinAround hlt
  rw [heq]
  refine ⟨hadded.joinAround (by omega) hne hlt ?_, by omega, hsame.joinAround _, rfl⟩
  intro turn other hother
  have := (h.truncatable turn other hother).1
  omega

theorem Kept.parity_closed (h : Kept s waiting) (hreply : s.reply = none) : s.messages.length % 2 = 1 := by
  have hparity := h.parity
  rwa [hreply, if_neg (by simp)] at hparity

theorem Kept.addUtterance (h : Kept s waiting) (hreply : s.reply = none) (text : Text) :
    UtteranceAdded s (s.addUtterance text) :=
  h.history.addUtterance (h.parity_closed hreply) text

theorem Kept.respond {utterance : Utterance} (h : Kept s (utterance :: waiting))
    (hmay : s.mayRespond = true) (ht : s.respond cfg utterance = some t) :
    Kept t waiting ∧ t.isUserSpeaking = s.isUserSpeaking := by
  rw [Dialog.mayRespond, Bool.and_eq_true, Option.isNone_iff_eq_none] at hmay
  obtain ⟨hreply, hreported⟩ := hmay
  have hunreported : s.awaitsDelivery = true → s.deliveredMs = none → s.heardMs = none → False := by
    intro hawaits hdelivered hheard
    simp [hawaits, hdelivered, hheard] at hreported
  obtain ⟨answered, hrun, hturn, hle, hwaiting⟩ := h.floor.next hreply
  rcases respond_cases ht with ⟨-, rfl⟩ | ⟨-, -, language, isShortSwitch, rfl⟩
  · rw [hturn]
    refine ⟨{ history := ⟨h.history.alternating, h.history.truncatable⟩
              parity := h.parity
              floor := ⟨answered + 1, Floor.run_concat hrun ?_, hwaiting, hle⟩
              report := fun ha hd hh => (hunreported ha hd hh).elim }, rfl⟩
    have hholder : s.holder = none := by simp [Dialog.holder, hreply]
    simp [Floor.after, Floor.mayAnswer, hle, Dialog.emit, Dialog.holder, hreply]
  have hadded := h.addUtterance hreply utterance.text
  have hsame := hadded.same
  rw [hturn]
  refine ⟨{ history := ⟨hadded.history.alternating, hadded.history.truncatable⟩
            parity := by simpa [Dialog.emit] using hadded.parity
            floor := ⟨answered + 1, ?_, ?_, ?_⟩
            report := fun ha hd hh => ?_ }, hsame.isUserSpeaking⟩
  · refine Floor.run_concat (Floor.run_concat (hadded.log ▸ hrun) (if_pos ⟨rfl, rfl, hle⟩)) ?_
    simp [Floor.after, Dialog.holder, hsame.turns]
  · simpa [Dialog.emit, hsame.turns] using hwaiting
  · simpa [Dialog.emit, hsame.turns] using hle
  · exact (hunreported (hsame.awaitsDelivery ▸ ha) (hsame.deliveredMs ▸ hd)
      (hsame.heardMs ▸ hh)).elim

structure Settled (s : Dialog τ) : Prop where
  kept : Kept s s.waiting
  quiet : s.isUserSpeaking = true → s.reply = none
  idle : s.waiting ≠ [] → s.mayRespond = false

theorem Kept.withWaiting (h : Kept s waiting) (waiting' : List Utterance) :
    Kept { s with waiting := waiting' } waiting :=
  ⟨⟨h.history.alternating, h.history.truncatable⟩, h.parity, h.floor, h.report⟩

theorem Kept.settle (h : Kept s waiting) (hquiet : s.isUserSpeaking = true → s.reply = none)
    (ht : Dialog.respondTo cfg times waiting s = some t) : Settled t := by
  induction waiting generalizing s with
  | nil =>
    cases ht
    exact ⟨h.withWaiting [], hquiet, fun hne => absurd rfl hne⟩
  | cons utterance rest ih =>
    rw [Dialog.respondTo] at ht
    split at ht
    · next hmay =>
      obtain ⟨answered, hanswered, hrest⟩ := Option.bind_eq_some_iff.mp ht
      obtain ⟨hkept, hspeaking⟩ := h.respond hmay hanswered
      split at hrest
      · obtain ⟨hended, hreply⟩ := hkept.interruptOpen times
        exact ih hended (fun _ => hreply.reply) hrest
      · next hsilent => exact ih hkept (fun htalks => absurd htalks hsilent) hrest
    · next hmay =>
      cases ht
      exact ⟨h.withWaiting _, hquiet, fun _ => Bool.eq_false_iff.mpr hmay⟩

/-! ### Events -/

theorem Settled.queue (h : Settled s) (text : Text) (language : Option String) :
    Kept (s.queue text language) (s.queue text language).waiting where
  history := ⟨h.kept.history.alternating, h.kept.history.truncatable⟩
  parity := h.kept.parity
  floor := h.kept.floor.queue text language
  report := h.kept.report

theorem Kept.heard (h : Kept s waiting) (deliveredMs heardMs : Option τ)
    (hsome : deliveredMs.isSome = true ∨ heardMs.isSome = true) :
    Kept { s with deliveredMs, heardMs } waiting where
  history := ⟨h.history.alternating, h.history.truncatable⟩
  parity := h.parity
  floor := h.floor
  report _ hdelivered hheard := by
    simp only at hdelivered hheard
    rw [hdelivered, hheard] at hsome
    rcases hsome with hsome | hsome <;> cases hsome

theorem Kept.own (h : Kept s waiting) (hwaiting : s.waiting = waiting) : Kept s s.waiting := by
  rw [hwaiting]
  exact h

theorem Settled.handle (h : Settled s) {input : Input τ} (ht : s.handle cfg times input = some t) :
    Kept t t.waiting ∧ (t.isUserSpeaking = true → t.reply = none) := by
  have hkept := h.kept
  cases input with
  | transcript text isFinal language =>
    cases ht
    split
    · exact ⟨h.queue text language, h.quiet⟩
    · exact ⟨hkept, h.quiet⟩
  | textDelta turn text =>
    simp only [Dialog.handle] at ht
    split at ht
    · cases ht
      exact ⟨hkept, h.quiet⟩
    next parts hreply =>
    split at ht
    swap
    · cases ht
      exact ⟨hkept, h.quiet⟩
    split at ht
    · cases ht
    cases ht
    refine ⟨{ history := ⟨hkept.history.alternating, hkept.history.truncatable⟩
              parity := by simpa [hreply] using hkept.parity
              floor := ?_
              report := fun ha hd hh => ?_ }, fun hspeaking => ?_⟩
    · obtain ⟨answered, hrun, hwaiting⟩ := hkept.floor
      refine ⟨answered, ?_, hwaiting⟩
      simpa [Dialog.holder, hreply] using hrun
    · cases hreply.symm.trans (hkept.report ha hd hh).1
    · cases hreply.symm.trans (h.quiet hspeaking)
  | turnDone turn =>
    simp only [Dialog.handle] at ht
    split at ht
    · cases ht
      exact ⟨hkept, h.quiet⟩
    next parts hreply =>
    cases ht
    split
    · exact ⟨hkept.finishReply hreply, fun _ => rfl⟩
    · exact ⟨hkept, h.quiet⟩
  | speechStarted =>
    cases ht
    have hspeaking : Kept { s with isUserSpeaking := true } s.waiting :=
      ⟨⟨hkept.history.alternating, hkept.history.truncatable⟩, hkept.parity, hkept.floor, hkept.report⟩
    obtain ⟨hended, hreply⟩ := hspeaking.interruptOpen times
    exact ⟨hended.own hreply.waiting, fun _ => hreply.reply⟩
  | speechStopped | commit =>
    cases ht
    exact ⟨⟨⟨hkept.history.alternating, hkept.history.truncatable⟩, hkept.parity, hkept.floor,
      hkept.report⟩, fun hspeaking => by cases hspeaking⟩
  | replyDelivered turn audioMs =>
    cases ht
    split
    · have hheard : Kept { s with deliveredMs := some audioMs } s.waiting :=
        hkept.heard (some audioMs) s.heardMs (.inl rfl)
      have hsame := sameTurns_truncate times { s with deliveredMs := some audioMs }
      exact ⟨hheard.truncate.own hsame.waiting,
        fun hspeaking => hsame.reply.trans (h.quiet (hsame.isUserSpeaking ▸ hspeaking))⟩
    · exact ⟨hkept, h.quiet⟩
  | truncate turn tMs =>
    cases ht
    split
    · have hheard : Kept { s with heardMs := some tMs } s.waiting :=
        hkept.heard s.deliveredMs (some tMs) (.inr rfl)
      have hsame := sameTurns_truncate times { s with heardMs := some tMs }
      exact ⟨hheard.truncate.own hsame.waiting,
        fun hspeaking => hsame.reply.trans (h.quiet (hsame.isUserSpeaking ▸ hspeaking))⟩
    · exact ⟨hkept, h.quiet⟩
  | other =>
    cases ht
    exact ⟨hkept, h.quiet⟩

theorem Settled.process (h : Settled s) {input : Input τ} (ht : s.process cfg times input = some t) :
    Settled t := by
  obtain ⟨handled, hhandled, hsettled⟩ := Option.bind_eq_some_iff.mp ht
  obtain ⟨hkept, hquiet⟩ := h.handle hhandled
  exact hkept.settle hquiet hsettled

theorem Settled.control (h : Settled s) {event : Control τ} (ht : s.control cfg times event = some t) :
    Settled t := by
  have hkept := h.kept
  cases event with
  | interrupt =>
    simp only [Dialog.control] at ht
    split at ht
    · cases ht
      exact h
    next parts hreply =>
    obtain ⟨hended, hreply⟩ := hkept.interruptReply times hreply
    exact (hended.own hreply.waiting).settle (fun _ => hreply.reply) ht
  | replyProgress turn textEnd audioMs =>
    cases ht
    split
    · let noted := { s with truncatableProgress := s.truncatableProgress ++ [(textEnd, audioMs)] }
      have hnoted : Kept noted s.waiting :=
        ⟨⟨hkept.history.alternating, hkept.history.truncatable⟩, hkept.parity, hkept.floor, hkept.report⟩
      have hsame : SameTurns noted (noted.truncate times) := sameTurns_truncate times noted
      refine ⟨hnoted.truncate.own hsame.waiting,
        fun hspeaking => hsame.reply.trans (h.quiet (hsame.isUserSpeaking ▸ hspeaking)), fun hne => ?_⟩
      rw [Dialog.mayRespond, hsame.reply, hsame.awaitsDelivery, hsame.deliveredMs, hsame.heardMs]
      exact h.idle (hsame.waiting ▸ hne)
    split
    · exact ⟨⟨⟨hkept.history.alternating, hkept.history.truncatable⟩, hkept.parity, hkept.floor,
        hkept.report⟩, h.quiet, h.idle⟩
    · exact h
  | other =>
    cases ht
    exact h

theorem settled_of_reaches {awaitsDelivery : Bool}
    (h : (dialog cfg times awaitsDelivery).Reaches Lib.Machine.anyAction s) : Settled s := by
  refine h.invariant ⟨Kept.initial cfg times awaitsDelivery, nofun, fun hne => absurd rfl hne⟩ ?_
  intro s event t hs _ ht
  cases event with
  | input chunk => exact hs.process ht
  | control event => exact hs.control ht

/-! ### The dialog -/

def Releases (cfg : DialogConfig) (times : Times τ) (s : Dialog τ) (input : Input τ) : Prop :=
  ∃ t, s.handle cfg times input = some t ∧ t.waiting = s.waiting ∧ t.mayRespond = true

theorem releases_of_heard (times : Times τ) (deliveredMs heardMs : Option τ) (hreply : s.reply = none)
    (hsome : deliveredMs.isSome = true ∨ heardMs.isSome = true) :
    let heard : Dialog τ := { s with deliveredMs, heardMs }
    (heard.truncate times).waiting = s.waiting ∧ (heard.truncate times).mayRespond = true := by
  intro heard
  have hsame : SameTurns heard (heard.truncate times) := sameTurns_truncate times heard
  refine ⟨hsame.waiting, ?_⟩
  rw [Dialog.mayRespond, hsame.reply, hsame.awaitsDelivery, hsame.deliveredMs, hsame.heardMs]
  rcases hsome with hsome | hsome <;> simp [heard, hreply, hsome]

theorem releases_of_awaits (h : AwaitsReport s) (ms : τ) :
    Releases cfg times s (.replyDelivered (some s.replyTurn) ms)
      ∧ Releases cfg times s (.truncate (some s.replyTurn) ms)
      ∧ Releases cfg times s (.truncate none ms) := by
  obtain ⟨hreply, -, htruncatable⟩ := h
  have hmatches : s.isTruncatable (some (s.replyTurn : Int)) = true := by
    simp [Dialog.isTruncatable, htruncatable]
  have hdelivered := releases_of_heard times (some ms) s.heardMs hreply (.inl rfl)
  have hheard := releases_of_heard times s.deliveredMs (some ms) hreply (.inr rfl)
  exact ⟨⟨_, congrArg some (if_pos hmatches), hdelivered⟩, ⟨_, congrArg some (if_pos hmatches), hheard⟩,
    ⟨_, congrArg some (if_pos hmatches), hheard⟩⟩

structure Dialog.InOrder (cfg : DialogConfig) (times : Times τ) (s : Dialog τ) : Prop where
  /-- One system message, then user and assistant messages by turns. -/
  alternating : Alternating s.messages
  user_last : s.messages.getLast?.map (·.role) = some .user ↔ s.reply.isSome = true
  truncatable : ∀ turn index, s.truncatable = some (turn, index) →
    ∃ message, s.messages[index]? = some message ∧ message.role = .assistant
  /-- Utterances are queued as turns 1, 2, 3, ... -/
  queued : s.log.filterMap Moment.queuedTurn = List.range' 1 s.turns
  /-- Each is answered at most once, in the order of the queue. -/
  answered : s.log.filterMap Moment.answeredTurn <+: s.log.filterMap Moment.queuedTurn
  /-- It is answered while no reply has the floor, and only the reply that has it is interrupted. -/
  floor : ∃ f, Floor.run s.log = some f ∧ f.holder = s.holder
  interrupted : s.log.filterMap Moment.interruptTurn = s.log.filterMap Moment.interruptedTurn
  interrupt_once : (s.log.filterMap Moment.interruptTurn).Pairwise (· < ·)
  interrupt_started : ∀ turn ∈ s.log.filterMap Moment.interruptTurn,
    turn ∈ s.log.filterMap Moment.startedTurn
  quiet : s.isUserSpeaking = true → s.reply = none
  /-- An utterance that waits with no reply open waits for a report of the interrupted reply. -/
  released : s.waiting ≠ [] → s.reply = none →
    s.isTruncatableInterrupted = true ∧ (∃ index, s.truncatable = some (s.replyTurn, index))
      ∧ ∀ ms, Releases cfg times s (.replyDelivered (some s.replyTurn) ms)
        ∧ Releases cfg times s (.truncate (some s.replyTurn) ms)
        ∧ Releases cfg times s (.truncate none ms)

/-- Whatever events a dialog handles, in whatever order. -/
theorem dialog_inOrder {awaitsDelivery : Bool}
    (h : (dialog cfg times awaitsDelivery).Reaches Lib.Machine.anyAction s) :
    s.InOrder cfg times := by
  have hsettled := settled_of_reaches h
  obtain ⟨hkept, hquiet, hidle⟩ := hsettled
  obtain ⟨answered, hrun, -, -⟩ := hkept.floor
  have hturns := turnsInOrder_of_run s.log hrun
  have hstopping : stoppingTurn s.holder = [] := by
    rw [Dialog.holder]
    split <;> rfl
  refine
    { alternating := hkept.history.alternating
      user_last := ?_
      truncatable := fun turn index htruncatable => ?_
      queued := hturns.queued
      answered := ?_
      floor := ⟨_, hrun, rfl⟩
      interrupted := ?_
      interrupt_once := hturns.interrupt
      interrupt_started := hturns.started
      quiet := hquiet
      released := fun hwaits hreply => ?_ }
  · rw [hkept.history.alternating.last, hkept.parity]
    cases s.reply <;> simp
  · obtain ⟨hlt, heven, hne⟩ := hkept.history.truncatable turn index htruncatable
    have hentry := List.getElem?_eq_getElem hlt
    exact ⟨_, hentry, (hkept.history.alternating.2 index _ hentry).trans (roleAt_even heven hne)⟩
  · rw [hturns.answered, hturns.queued]
    exact List.prefix_iff_eq_take.mpr (by simp [hturns.answered_le])
  · have hmatched := hturns.interrupted
    rw [hstopping, List.append_nil] at hmatched
    exact hmatched
  · have hblocked := hidle hwaits
    rw [Dialog.mayRespond, hreply] at hblocked
    simp only [Option.isNone_none, Bool.true_and, Bool.or_eq_false_iff, Bool.not_eq_false',
      Option.isSome_eq_false_iff, Option.isNone_iff_eq_none] at hblocked
    obtain ⟨⟨hawaits, hdelivered⟩, hheard⟩ := hblocked
    have hreport := hkept.report hawaits hdelivered hheard
    exact ⟨hreport.2.1, ⟨_, hreport.2.2⟩, fun ms => releases_of_awaits hreport ms⟩

def wholeTimes : Times (Option Nat) where
  zero := some 0
  infinity := none
  lt t u := t.any fun a => u.all fun b => a < b
  le t u := u.all fun b => t.any fun a => a ≤ b
  isInf t := t.isNone

/-- A reply with one sentence spoken is interrupted by speech, whose utterance then waits. -/
def interruptedRun : List (Event (Option Nat)) :=
  [.input (.transcript ['h', 'i'] true none), .input (.textDelta (some 1) ['y', 'e', 's']),
    .control (.replyProgress (some 1) 3 (some 400)), .input .speechStarted,
    .input (.transcript ['n', 'o'] true none), .input .speechStopped]

theorem dialog_inOrder_interruptedRun :
    ∃ s, (dialog ⟨[], 100, 10⟩ wholeTimes true).Reaches Lib.Machine.anyAction s
      ∧ s.waiting.length = 1 ∧ s.reply = none ∧ s.truncatable = some (1, 2)
      ∧ s.InOrder ⟨[], 100, 10⟩ wholeTimes := by
  have hrun : ((dialog ⟨[], 100, 10⟩ wholeTimes true).exec (.initial ⟨[], 100, 10⟩ wholeTimes true)
      interruptedRun).any (fun s => decide (s.waiting.length = 1 ∧ s.reply = none
        ∧ s.truncatable = some (1, 2))) = true := by
    decide +kernel
  obtain ⟨s, hs, hend⟩ := (Option.any_eq_true _ _).mp hrun
  obtain ⟨hwaits, hreply, htruncatable⟩ := of_decide_eq_true hend
  have hreaches : (dialog ⟨[], 100, 10⟩ wholeTimes true).Reaches Lib.Machine.anyAction s :=
    Lib.Machine.path_of_exec hs
  exact ⟨s, hreaches, hwaits, hreply, htruncatable, dialog_inOrder hreaches⟩

end Cascade
