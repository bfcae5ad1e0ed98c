import SglangOmni.Cascade.Floor

/-! The history of a dialog alternates, its cuttable reply stays where its index says, and an utterance
that waits with no reply open is released by a report of the interrupted reply. -/

namespace Cascade

def roleAt (index : Nat) : Role :=
  if index = 0 then .system else if index % 2 = 1 then .user else .assistant

theorem roleAt_add_two {index : Nat} (h : index ≠ 0) : roleAt (index + 2) = roleAt index := by
  simp [roleAt, h]

theorem roleAt_odd {index : Nat} (h : index % 2 = 1) : roleAt index = .user := by
  rw [roleAt, if_neg (by omega), if_pos h]

theorem roleAt_even {index : Nat} (h : index % 2 = 0) (hne : index ≠ 0) :
    roleAt index = .assistant := by
  rw [roleAt, if_neg hne, if_neg (by omega)]

def Alternating (messages : List ChatMessage) : Prop :=
  messages ≠ [] ∧ ∀ index message, messages[index]? = some message → message.role = roleAt index

theorem Alternating.concat {messages : List ChatMessage} (h : Alternating messages)
    {message : ChatMessage} (hrole : message.role = roleAt messages.length) :
    Alternating (messages ++ [message]) := by
  refine ⟨by simp, fun index m hm => ?_⟩
  rcases Nat.lt_trichotomy index messages.length with hlt | heq | hgt
  · rw [List.getElem?_append_left hlt] at hm
    exact h.2 index m hm
  · rw [heq, List.getElem?_append_right (Nat.le_refl _)] at hm
    simp only [Nat.sub_self, List.getElem?_cons_zero, Option.some.injEq] at hm
    rw [heq, ← hm, hrole]
  · rw [List.getElem?_eq_none (by simp; omega)] at hm
    cases hm

theorem Alternating.set {messages : List ChatMessage} (h : Alternating messages) {index : Nat}
    {message : ChatMessage} (hrole : message.role = roleAt index) :
    Alternating (messages.set index message) := by
  refine ⟨by simpa using h.1, fun i m hm => ?_⟩
  rw [List.getElem?_set] at hm
  split at hm
  · next heq =>
    split at hm
    · cases hm
      rw [← heq, hrole]
    · cases hm
  · exact h.2 i m hm

theorem Alternating.remove {messages : List ChatMessage} (h : Alternating messages) {index : Nat}
    (hpos : 0 < index) : Alternating (messages.take index ++ messages.drop (index + 2)) := by
  have hne : messages.take index ≠ [] := by
    intro hnil
    rcases List.take_eq_nil_iff.mp hnil with hzero | hnil
    · omega
    · exact h.1 hnil
  refine ⟨by simp [hne], fun i m hm => ?_⟩
  by_cases hlt : i < (messages.take index).length
  · rw [List.getElem?_append_left hlt, List.getElem?_take] at hm
    split at hm
    · exact h.2 i m hm
    · cases hm
  · rw [List.getElem?_append_right (by omega), List.getElem?_drop] at hm
    have hrole := h.2 _ m hm
    have hlen : (messages.take index).length = index := by
      rw [List.length_take]
      have : index < messages.length := by
        by_contra hge
        rw [List.getElem?_eq_none (by simp; omega)] at hm
        cases hm
      omega
    rw [hrole, hlen, show index + 2 + (i - index) = i + 2 by omega, roleAt_add_two (by omega)]

theorem Alternating.last {messages : List ChatMessage} (h : Alternating messages) :
    messages.getLast?.map (·.role) = some .user ↔ messages.length % 2 = 0 := by
  have hlen : messages.length ≠ 0 := fun hzero => h.1 (List.length_eq_zero_iff.mp hzero)
  obtain ⟨last, hlast⟩ : ∃ last, messages.getLast? = some last :=
    Option.isSome_iff_exists.mp (by simp [h.1])
  have hrole := h.2 (messages.length - 1) last (by rw [← List.getLast?_eq_getElem?, hlast])
  rw [hlast, Option.map_some, Option.some.injEq, hrole]
  constructor
  · intro huser
    by_contra hodd
    rcases Nat.eq_zero_or_pos (messages.length - 1) with hzero | hpos
    · rw [hzero] at huser
      cases huser
    · rw [roleAt_even (by omega) (by omega)] at huser
      cases huser
  · intro heven
    exact roleAt_odd (by omega)

variable {τ : Type} {cfg : DialogConfig} {times : Times τ} {s t : Dialog τ}

/-! ### What a cut does -/

structure SameTurns (s t : Dialog τ) : Prop where
  awaitsDelivery : t.awaitsDelivery = s.awaitsDelivery
  waiting : t.waiting = s.waiting
  reply : t.reply = s.reply
  replyTurn : t.replyTurn = s.replyTurn
  turns : t.turns = s.turns
  deliveredMs : t.deliveredMs = s.deliveredMs
  heardMs : t.heardMs = s.heardMs
  isTruncatableInterrupted : t.isTruncatableInterrupted = s.isTruncatableInterrupted
  isUserSpeaking : t.isUserSpeaking = s.isUserSpeaking

theorem SameTurns.refl (s : Dialog τ) : SameTurns s s := ⟨rfl, rfl, rfl, rfl, rfl, rfl, rfl, rfl, rfl⟩

def Reported (log log' : List Moment) : Prop :=
  log' = log ∨ ∃ turn textEnd, log' = log ++ [.emitted (.heard turn textEnd)]

/-- What `truncate` does for a reply at an index: nothing, or it rewrites the entry, and removes it with
the user message after it where it keeps nothing and is not the last. -/
def Cut (s t : Dialog τ) (index : Nat) : Prop :=
  t = s ∨ ∃ entry log, entry.role = .assistant ∧ Reported s.log log
    ∧ (t = { s with messages := s.messages.set index entry, log }
      ∨ index + 1 < s.messages.length
        ∧ t = ({ s with messages := s.messages.set index entry, log } : Dialog τ).joinAround index)

def Dialog.lateEntry (times : Times τ) (s : Dialog τ) : ChatMessage :=
  s.cutEntry (times.heardPrefix s.truncatableProgress (s.heardUpTo times) s.truncatableText)

def Dialog.rewritten (times : Times τ) (s : Dialog τ) (index : Nat) (log : List Moment) : Dialog τ :=
  { s with messages := s.messages.set index (s.lateEntry times), log }

theorem truncateAt_cases (times : Times τ) (s : Dialog τ) (turn index : Nat) :
    s.truncateAt times turn index = s
      ∨ times.isInf (s.heardUpTo times) = false ∧ ∃ log, Reported s.log log
        ∧ (((s.lateEntry times).content ≠ [] ∨ s.messages.length ≤ index + 1)
            ∧ s.truncateAt times turn index = s.rewritten times index log
          ∨ (s.lateEntry times).content = [] ∧ index + 1 < s.messages.length
            ∧ s.truncateAt times turn index = (s.rewritten times index log).joinAround index) := by
  unfold Dialog.truncateAt
  simp only
  split
  · exact .inl rfl
  next hinf =>
  refine .inr ⟨Bool.eq_false_iff.mpr hinf, ?_⟩
  have hjoin (t : Dialog τ) (ht : t.messages.length = s.messages.length) :
      ((s.lateEntry times).content ≠ [] ∨ s.messages.length ≤ index + 1)
          ∧ (if ((s.lateEntry times).content.isEmpty && index + 1 < t.messages.length) = true then
            t.joinAround index else t) = t
        ∨ (s.lateEntry times).content = [] ∧ index + 1 < s.messages.length
          ∧ (if ((s.lateEntry times).content.isEmpty && index + 1 < t.messages.length) = true then
            t.joinAround index else t) = t.joinAround index := by
    rw [ht]
    split
    · next hcond =>
      rw [Bool.and_eq_true, decide_eq_true_eq, List.isEmpty_iff] at hcond
      exact .inr ⟨hcond.1, hcond.2, rfl⟩
    · next hcond =>
      rw [Bool.and_eq_true, decide_eq_true_eq, List.isEmpty_iff, not_and_or, Nat.not_lt] at hcond
      exact .inl ⟨hcond, rfl⟩
  by_cases hheard : s.heardMs.isSome = true
  · rw [if_pos hheard]
    exact ⟨_, .inr ⟨turn, _, rfl⟩, hjoin _ List.length_set⟩
  · rw [if_neg hheard]
    exact ⟨_, .inl rfl, hjoin _ List.length_set⟩

theorem cut_truncateAt (times : Times τ) (s : Dialog τ) (turn index : Nat) : Cut s (s.truncateAt times turn index) index := by
  rcases truncateAt_cases times s turn index with
    hsame | ⟨-, log, hlog, ⟨-, hset⟩ | ⟨-, hlt, hjoined⟩⟩
  · exact .inl hsame
  · exact .inr ⟨_, log, rfl, hlog, .inl hset⟩
  · exact .inr ⟨_, log, rfl, hlog, .inr ⟨hlt, hjoined⟩⟩

theorem SameTurns.joinAround (h : SameTurns s t) (index : Nat) : SameTurns s (t.joinAround index) :=
  ⟨h.awaitsDelivery, h.waiting, h.reply, h.replyTurn, h.turns, h.deliveredMs, h.heardMs,
    h.isTruncatableInterrupted, h.isUserSpeaking⟩

theorem Cut.sameTurns {index : Nat} (h : Cut s t index) : SameTurns s t := by
  rcases h with rfl | ⟨entry, log, -, -, rfl | ⟨-, rfl⟩⟩
  · exact .refl _
  · exact ⟨rfl, rfl, rfl, rfl, rfl, rfl, rfl, rfl, rfl⟩
  · exact ⟨rfl, rfl, rfl, rfl, rfl, rfl, rfl, rfl, rfl⟩

theorem Cut.log {index : Nat} (h : Cut s t index) : Reported s.log t.log := by
  rcases h with rfl | ⟨entry, log, -, hlog, rfl | ⟨-, rfl⟩⟩
  · exact .inl rfl
  · exact hlog
  · exact hlog

theorem Cut.of_last {index : Nat} (h : Cut s t index) (hlast : index + 1 = s.messages.length) :
    t.messages.length = s.messages.length ∧ t.truncatable = s.truncatable := by
  rcases h with rfl | ⟨entry, log, -, -, rfl | ⟨hlt, -⟩⟩
  · exact ⟨rfl, rfl⟩
  · exact ⟨List.length_set, rfl⟩
  · omega

/-! ### The history -/

/-- The history of a dialog and the reply in it that can still be cut. -/
structure HistoryKept (s : Dialog τ) : Prop where
  alternating : Alternating s.messages
  truncatable : ∀ turn index, s.truncatable = some (turn, index) →
    index < s.messages.length ∧ index % 2 = 0 ∧ index ≠ 0

theorem length_joinAround {index : Nat} (hlt : index + 1 < s.messages.length) :
    (s.joinAround index).messages.length + 2 = s.messages.length := by
  simp only [Dialog.joinAround, List.length_append, List.length_take, List.length_drop,
    List.length_set]
  omega

theorem HistoryKept.joinAround (h : HistoryKept s) {index : Nat} (heven : index % 2 = 0)
    (hne : index ≠ 0) (hlt : index + 1 < s.messages.length)
    (hlast : ∀ turn other, s.truncatable = some (turn, other) → other ≤ index) :
    HistoryKept (s.joinAround index) where
  alternating := by
    refine Alternating.remove (h.alternating.set ?_) (by omega)
    exact (roleAt_odd (by omega)).symm
  truncatable turn other hother := by
    have hlength := length_joinAround hlt
    simp only [Dialog.joinAround, Option.filter_eq_some_iff, bne_iff_ne] at hother
    obtain ⟨hother, hdiff⟩ := hother
    have hkept := h.truncatable turn other hother
    have hle := hlast turn other hother
    exact ⟨by omega, hkept.2⟩

theorem HistoryKept.set (h : HistoryKept s) {index : Nat} (heven : index % 2 = 0) (hne : index ≠ 0)
    {entry : ChatMessage} (hrole : entry.role = .assistant) (log : List Moment) :
    HistoryKept { s with messages := s.messages.set index entry, log } where
  alternating := h.alternating.set (hrole.trans (roleAt_even heven hne).symm)
  truncatable turn other hother := by
    simpa using h.truncatable turn other hother

theorem HistoryKept.cut (h : HistoryKept s) {turn index : Nat}
    (htruncatable : s.truncatable = some (turn, index)) (hcut : Cut s t index) : HistoryKept t := by
  obtain ⟨-, heven, hne⟩ := h.truncatable turn index htruncatable
  rcases hcut with rfl | ⟨entry, log, hrole, -, rfl | ⟨hlt, rfl⟩⟩
  · exact h
  · exact h.set heven hne hrole log
  · refine (h.set heven hne hrole log).joinAround heven hne (by simpa using hlt) ?_
    intro turn' other hother
    cases htruncatable.symm.trans hother
    exact Nat.le_refl _

theorem HistoryKept.concat (h : HistoryKept s) {message : ChatMessage}
    (hrole : message.role = roleAt s.messages.length) :
    HistoryKept { s with messages := s.messages ++ [message] } where
  alternating := h.alternating.concat hrole
  truncatable turn index htruncatable := by
    have hkept := h.truncatable turn index htruncatable
    refine ⟨?_, hkept.2⟩
    simp only [List.length_append, List.length_singleton]
    omega

theorem Cut.parity {index : Nat} (h : Cut s t index) :
    t.messages.length % 2 = s.messages.length % 2 := by
  rcases h with rfl | ⟨entry, log, -, -, rfl | ⟨hlt, rfl⟩⟩
  · rfl
  · exact congrArg (· % 2) List.length_set
  · have hlength := length_joinAround
      (s := { s with messages := s.messages.set index entry, log }) (by simpa using hlt)
    simp only [List.length_set] at hlength
    omega

/-! ### Answers -/

def Dialog.withUtterance (s : Dialog τ) (text : Text) : Dialog τ :=
  { s with messages := s.messages ++ [{ role := .user, content := text }] }

theorem length_withUtterance (s : Dialog τ) (text : Text) :
    (s.withUtterance text).messages.length = s.messages.length + 1 := List.length_append

theorem addUtterance_cases (s : Dialog τ) (text : Text) :
    (s.addUtterance text = s.withUtterance text
        ∧ ∀ before, (s.withUtterance text).messages[s.messages.length - 1]? = some before →
          before.role = .assistant → before.content ≠ [])
      ∨ s.addUtterance text = (s.withUtterance text).joinAround (s.messages.length - 1)
        ∧ ∃ before, (s.withUtterance text).messages[s.messages.length - 1]? = some before
          ∧ before.role = .assistant ∧ before.content = [] := by
  have hindex : (s.withUtterance text).messages.length - 2 = s.messages.length - 1 := by
    rw [length_withUtterance]
    omega
  unfold Dialog.addUtterance
  rw [← Dialog.withUtterance]
  dsimp only
  rw [hindex]
  split
  · next before hbefore =>
    split
    · next hempty => exact .inr ⟨rfl, before, hbefore, hempty⟩
    · next hfull =>
      refine .inl ⟨rfl, fun other hother hrole hempty => hfull ?_⟩
      cases hbefore.symm.trans hother
      exact ⟨hrole, hempty⟩
  · next hnone =>
    refine .inl ⟨rfl, fun before hbefore => ?_⟩
    cases hnone.symm.trans hbefore

def promptOf (messages : List ChatMessage) (isShortSwitch : Bool) (language : Option String) :
    List ChatMessage :=
  if isShortSwitch then Dialog.withLanguageNote (promptMessages messages) language
  else promptMessages messages

theorem respond_cases {utterance : Utterance} (ht : s.respond cfg utterance = some t) :
    utterance.text = [] ∧ t = s.emit (.empty utterance.turn)
      ∨ utterance.text ≠ []
        ∧ s.historyChars + utterance.text.length + cfg.maxTextChars ≤ cfg.maxHistoryChars
        ∧ ∃ language isShortSwitch, t =
          { s.addUtterance utterance.text with
            language
            reply := some []
            replyTurn := utterance.turn
            progress := []
            log := (s.addUtterance utterance.text).log ++ [.emitted (.started utterance.turn)]
              ++ [.emitted (.messages (promptOf (s.addUtterance utterance.text).messages isShortSwitch language)
                utterance.turn language)] } := by
  obtain ⟨turn, text, language⟩ := utterance
  unfold Dialog.respond at ht
  simp only at ht
  split at ht
  · next hempty =>
    cases ht
    exact .inl ⟨List.isEmpty_iff.mp hempty, rfl⟩
  next hfull =>
  split at ht
  · cases ht
  split at ht
  · cases ht
  next hfits =>
  refine .inr ⟨fun hempty => hfull (List.isEmpty_iff.mpr hempty), Nat.le_of_not_lt hfits, ?_⟩
  generalize hlanguage : (if (language.isSome && Dialog.isClear text) = true then
    { s.addUtterance text with language := language } else s.addUtterance text) = known at ht
  have hknown : ∃ language, known = { s.addUtterance text with language } := by
    rw [← hlanguage]
    split
    · exact ⟨_, rfl⟩
    · exact ⟨_, rfl⟩
  obtain ⟨language', rfl⟩ := hknown
  exact ⟨language', _, (Option.some.inj ht).symm⟩

/-! ### The turns -/

def Dialog.holder (s : Dialog τ) : Option Holder :=
  if s.reply.isSome then some ⟨s.replyTurn, false⟩ else none

/-- The log of a dialog, `waiting` the utterances that wait for an answer. -/
def FloorKept (s : Dialog τ) (waiting : List Utterance) : Prop :=
  ∃ answered, Floor.run s.log = some ⟨s.turns, answered, s.holder⟩
    ∧ waiting.map (·.turn) = List.range' (answered + 1) (s.turns - answered) ∧ answered ≤ s.turns

theorem run_of_reported {log log' : List Moment} {f : Floor} (h : Floor.run log = some f)
    (hlog : Reported log log') : Floor.run log' = some f := by
  rcases hlog with rfl | ⟨turn, textEnd, rfl⟩
  · exact h
  · exact Floor.run_concat h rfl

theorem FloorKept.same {waiting : List Utterance} (h : FloorKept s waiting) (hsame : SameTurns s t)
    (hlog : Reported s.log t.log) : FloorKept t waiting := by
  obtain ⟨answered, hrun, hwaiting, hle⟩ := h
  have hholder : t.holder = s.holder := by
    rw [Dialog.holder, Dialog.holder, hsame.reply, hsame.replyTurn]
  refine ⟨answered, ?_, by rw [hwaiting, hsame.turns], by rw [hsame.turns]; exact hle⟩
  rw [hsame.turns, hholder]
  exact run_of_reported hrun hlog

theorem FloorKept.queue {waiting : List Utterance} (h : FloorKept s waiting) (text : Text)
    (language : Option String) :
    FloorKept (s.queue text language) (waiting ++ [⟨s.turns + 1, strip text, language⟩]) := by
  obtain ⟨answered, hrun, hwaiting, hle⟩ := h
  refine ⟨answered, Floor.run_concat hrun ?_, ?_, Nat.le_succ_of_le hle⟩
  · exact if_pos rfl
  · have hturns : (s.queue text language).turns - answered = s.turns - answered + 1 := by
      simp only [Dialog.queue, Dialog.emit]
      omega
    rw [List.map_append, hwaiting, hturns, List.range'_concat]
    simp only [List.map_cons, List.map_nil, Nat.one_mul, List.append_cancel_left_eq,
      List.cons.injEq, and_true]
    omega

theorem FloorKept.next {utterance : Utterance} {waiting : List Utterance}
    (h : FloorKept s (utterance :: waiting)) (hnone : s.reply = none) :
    ∃ answered, Floor.run s.log = some ⟨s.turns, answered, none⟩ ∧ utterance.turn = answered + 1
      ∧ answered + 1 ≤ s.turns
      ∧ waiting.map (·.turn) = List.range' (answered + 1 + 1) (s.turns - (answered + 1)) := by
  obtain ⟨answered, hrun, hwaiting, hle⟩ := h
  have hholder : s.holder = none := by simp [Dialog.holder, hnone]
  rw [hholder] at hrun
  have hlt : s.turns - answered ≠ 0 := fun hzero => by
    rw [hzero] at hwaiting
    cases hwaiting
  obtain ⟨n, hn⟩ := Nat.exists_eq_succ_of_ne_zero hlt
  rw [hn, List.map_cons, List.range'_succ, List.cons.injEq] at hwaiting
  refine ⟨answered, hrun, hwaiting.1, by omega, ?_⟩
  rw [hwaiting.2, show s.turns - (answered + 1) = n by omega]

end Cascade
