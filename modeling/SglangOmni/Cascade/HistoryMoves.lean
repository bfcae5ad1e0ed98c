import SglangOmni.Cascade.Replies
import Mathlib.Data.List.Infix

/-! What an event of a dialog does to its history, one operation at a time, and what every operation
leaves: only the last entry of the history can be an empty reply, and only a reply is marked as cut. -/

namespace Cascade

variable {τ : Type} {cfg : DialogConfig} {times : Times τ} {s t u : Dialog τ}
  {mayCut : Dialog τ → Prop} {mayAnswer : Dialog τ → Text → Prop}

/-! ### Operations -/

def Moment.started (turn : Nat) : Moment := .emitted (.started turn)

/-- One operation. The history is cut only where `mayCut` holds, and an utterance is answered only where
`mayAnswer` does. -/
inductive Move (cfg : DialogConfig) (times : Times τ) (mayCut : Dialog τ → Prop)
    (mayAnswer : Dialog τ → Text → Prop) : Dialog τ → Dialog τ → Prop
  | quiet {s t : Dialog τ} (hmessages : t.messages = s.messages) (hreply : t.reply = s.reply)
      (htruncatable : t.truncatable = s.truncatable) (htext : t.truncatableText = s.truncatableText)
      (hlog : ∀ turn, Moment.started turn ∈ t.log → Moment.started turn ∈ s.log) :
      Move cfg times mayCut mayAnswer s t
  | said {s : Dialog τ} {parts : List Text} {text : Text} (hreply : s.reply = some parts)
      (hlength : (parts ++ [text]).flatten.length ≤ cfg.maxTextChars) :
      Move cfg times mayCut mayAnswer s { s with reply := some (parts ++ [text]) }
  | finished {s : Dialog τ} {parts : List Text} (hreply : s.reply = some parts) :
      Move cfg times mayCut mayAnswer s (s.finishReply times parts)
  | interrupted {s : Dialog τ} {parts : List Text} (hreply : s.reply = some parts) :
      Move cfg times mayCut mayAnswer s (s.interruptReply times parts)
  | cut {s : Dialog τ} (hmay : mayCut s) : Move cfg times mayCut mayAnswer s (s.truncate times)
  | answered {s t : Dialog τ} {utterance : Utterance} (hreply : s.reply = none)
      (hmay : mayAnswer s utterance.text) (ht : s.respond cfg utterance = some t) :
      Move cfg times mayCut mayAnswer s t

abbrev Moves (cfg : DialogConfig) (times : Times τ) (mayCut : Dialog τ → Prop)
    (mayAnswer : Dialog τ → Text → Prop) : Dialog τ → Dialog τ → Prop :=
  Relation.ReflTransGen (Move cfg times mayCut mayAnswer)

/-- The dialog with the report that an event is of the reply that can still be cut. -/
def Dialog.noted (s : Dialog τ) : Event τ → Option (Dialog τ)
  | .input (.replyDelivered turn audioMs) =>
    if s.isTruncatable turn then some { s with deliveredMs := some audioMs } else none
  | .input (.truncate turn tMs) =>
    if s.isTruncatable (some (turn.getD s.replyTurn)) then some { s with heardMs := some tMs } else none
  | .control (.replyProgress turn textEnd audioMs) =>
    if s.isTruncatable turn then
      some { s with truncatableProgress := s.truncatableProgress ++ [(textEnd, audioMs)] }
    else none
  | _ => none

def Dialog.handled (cfg : DialogConfig) (times : Times τ) (s : Dialog τ) : Event τ → Option (Dialog τ)
  | .input chunk => s.handle cfg times chunk
  | .control .interrupt => some (s.interruptOpen times)
  | .control _ => none

/-- The loop of `respond_to_waiting` over `waiting` comes to answer an utterance. -/
inductive Answering (cfg : DialogConfig) (times : Times τ) :
    List Utterance → Dialog τ → Utterance → Dialog τ → Prop
  | here {utterance : Utterance} {rest : List Utterance} {s : Dialog τ} (hmay : s.mayRespond = true) :
      Answering cfg times (utterance :: rest) s utterance s
  | later {first utterance : Utterance} {rest : List Utterance} {s t u : Dialog τ}
      (hmay : s.mayRespond = true) (ht : s.respond cfg first = some t)
      (hrest : Answering cfg times rest (if t.isUserSpeaking then t.interruptOpen times else t) utterance u) :
      Answering cfg times (first :: rest) s utterance u

def Admits (cfg : DialogConfig) (times : Times τ) (mayCut : Dialog τ → Prop)
    (mayAnswer : Dialog τ → Text → Prop) (s : Dialog τ) (event : Event τ) : Prop :=
  (∀ noted, s.noted event = some noted → mayCut noted) ∧
    ∀ handled, s.handled cfg times event = some handled →
      ∀ utterance at_, Answering cfg times handled.waiting handled utterance at_ →
        mayAnswer at_ utterance.text

theorem started_of_concat {log : List Moment} {moment : Moment} {turn : Nat}
    (h : Moment.started turn ∈ log ++ [moment]) (hquiet : moment ≠ .started turn) :
    Moment.started turn ∈ log := by
  rcases List.mem_append.mp h with h | h
  · exact h
  · exact absurd (List.mem_singleton.mp h).symm hquiet

theorem moves_interruptOpen (s : Dialog τ) :
    Moves cfg times mayCut mayAnswer s (s.interruptOpen times) := by
  unfold Dialog.interruptOpen
  split
  · exact .refl
  · next hreply => exact .single (.interrupted hreply)

theorem mayRespond_reply (h : s.mayRespond = true) : s.reply = none := by
  rw [Dialog.mayRespond, Bool.and_eq_true, Option.isNone_iff_eq_none] at h
  exact h.1

theorem moves_answer {first : Utterance} (hmay : s.mayRespond = true)
    (hadmits : mayAnswer s first.text) (ht : s.respond cfg first = some t) :
    Moves cfg times mayCut mayAnswer s (if t.isUserSpeaking then t.interruptOpen times else t) := by
  refine .head (.answered (mayRespond_reply hmay) hadmits ht) ?_
  split
  · exact moves_interruptOpen t
  · exact .refl

theorem moves_answering {waiting : List Utterance} {utterance : Utterance}
    (h : Answering cfg times waiting s utterance t)
    (hadmits : ∀ other at_, Answering cfg times waiting s other at_ → mayAnswer at_ other.text) :
    Moves cfg times mayCut mayAnswer s t := by
  induction h with
  | here => exact .refl
  | later hmay ht _ ih =>
    exact (moves_answer hmay (hadmits _ _ (.here hmay)) ht).trans
      (ih fun other at_ hother => hadmits other at_ (.later hmay ht hother))

theorem moves_respondTo {waiting : List Utterance} (ht : Dialog.respondTo cfg times waiting s = some t)
    (hadmits : ∀ other at_, Answering cfg times waiting s other at_ → mayAnswer at_ other.text) :
    Moves cfg times mayCut mayAnswer s t := by
  induction waiting generalizing s with
  | nil =>
    cases ht
    exact .single (.quiet rfl rfl rfl rfl fun _ h => h)
  | cons first rest ih =>
    rw [Dialog.respondTo] at ht
    split at ht
    · next hmay =>
      obtain ⟨answered, hanswered, hrest⟩ := Option.bind_eq_some_iff.mp ht
      exact (moves_answer hmay (hadmits _ _ (.here hmay)) hanswered).trans
        (ih hrest fun other at_ hother => hadmits other at_ (.later hmay hanswered hother))
    · cases ht
      exact .single (.quiet rfl rfl rfl rfl fun _ h => h)

theorem moves_cut {noted : Dialog τ} (hmessages : noted.messages = s.messages)
    (hreply : noted.reply = s.reply) (htruncatable : noted.truncatable = s.truncatable)
    (htext : noted.truncatableText = s.truncatableText) (hlog : noted.log = s.log) (hmay : mayCut noted) :
    Moves cfg times mayCut mayAnswer s (noted.truncate times) :=
  .head (.quiet hmessages hreply htruncatable htext fun _ h => hlog ▸ h) (.single (.cut hmay))

theorem moves_handle {input : Input τ} (ht : s.handle cfg times input = some t)
    (hadmits : ∀ noted, s.noted (.input input) = some noted → mayCut noted) :
    Moves cfg times mayCut mayAnswer s t := by
  cases input with
  | transcript text isFinal language =>
    cases ht
    split
    · exact .single (.quiet rfl rfl rfl rfl fun _ h => started_of_concat h nofun)
    · exact .refl
  | textDelta turn text =>
    simp only [Dialog.handle] at ht
    split at ht
    · cases ht
      exact .refl
    next parts hreply =>
    split at ht
    swap
    · cases ht
      exact .refl
    split at ht
    · cases ht
    next hlength =>
    cases ht
    exact .single (.said hreply (Nat.le_of_not_lt hlength))
  | turnDone turn =>
    simp only [Dialog.handle] at ht
    split at ht
    · cases ht
      exact .refl
    next parts hreply =>
    cases ht
    split
    · exact .single (.finished hreply)
    · exact .refl
  | speechStarted =>
    cases ht
    exact .head (.quiet (t := { s with isUserSpeaking := true }) rfl rfl rfl rfl fun _ h => h)
      (moves_interruptOpen _)
  | speechStopped | commit =>
    cases ht
    exact .single (.quiet rfl rfl rfl rfl fun _ h => h)
  | replyDelivered turn audioMs =>
    cases ht
    split
    · next hturn => exact moves_cut rfl rfl rfl rfl rfl (hadmits _ (if_pos hturn))
    · exact .refl
  | truncate turn tMs =>
    cases ht
    split
    · next hturn => exact moves_cut rfl rfl rfl rfl rfl (hadmits _ (if_pos hturn))
    · exact .refl
  | other =>
    cases ht
    exact .refl

theorem moves_handled {event : Event τ} (ht : s.handled cfg times event = some t)
    (hadmits : ∀ noted, s.noted event = some noted → mayCut noted) :
    Moves cfg times mayCut mayAnswer s t := by
  cases event with
  | input chunk => exact moves_handle ht hadmits
  | control event =>
    cases event with
    | interrupt =>
      cases ht
      exact moves_interruptOpen s
    | replyProgress | other => cases ht

theorem moves_step {awaitsDelivery : Bool} {event : Event τ}
    (ht : (dialog cfg times awaitsDelivery).step s event = some t)
    (hadmits : Admits cfg times mayCut mayAnswer s event) : Moves cfg times mayCut mayAnswer s t := by
  obtain ⟨hcut, hanswer⟩ := hadmits
  cases event with
  | input chunk =>
    obtain ⟨handled, hhandled, hsettled⟩ := Option.bind_eq_some_iff.mp ht
    exact (moves_handle hhandled hcut).trans (moves_respondTo hsettled (hanswer handled hhandled))
  | control event =>
    cases event with
    | interrupt =>
      simp only [dialog, Dialog.control] at ht
      split at ht
      · cases ht
        exact .refl
      next parts hreply =>
      have hopen : s.interruptOpen times = s.interruptReply times parts := by
        rw [Dialog.interruptOpen, hreply]
      rw [← hopen] at ht
      exact (moves_interruptOpen s).trans (moves_respondTo ht (hanswer _ rfl))
    | replyProgress turn textEnd audioMs =>
      cases ht
      split
      · next hturn => exact moves_cut rfl rfl rfl rfl rfl (hcut _ (if_pos hturn))
      split
      · exact .single (.quiet rfl rfl rfl rfl fun _ h => h)
      · exact .refl
    | other =>
      cases ht
      exact .refl

/-! ### The entries of the history -/

theorem exists_around {messages : List ChatMessage} {index : Nat} (hne : index ≠ 0)
    (hlt : index + 1 < messages.length) : ∃ before first reply second after,
      messages = before ++ first :: reply :: second :: after ∧ before.length + 1 = index := by
  have hdrop : messages.drop (index - 1) = messages[index - 1] :: messages[index - 1 + 1]
      :: messages[index - 1 + 1 + 1] :: messages.drop (index - 1 + 1 + 1 + 1) := by
    rw [List.drop_eq_getElem_cons (by omega), List.drop_eq_getElem_cons (by omega),
      List.drop_eq_getElem_cons (by omega)]
  have hsplit := List.take_append_drop (index - 1) messages
  rw [hdrop] at hsplit
  refine ⟨_, _, _, _, _, hsplit.symm, ?_⟩
  rw [List.length_take]
  omega

def joinedMessage (first second : ChatMessage) : ChatMessage :=
  { role := .user, content := first.content ++ [' '] ++ second.content }

theorem joinAround_messages {before after : List ChatMessage} {first reply second : ChatMessage}
    {index : Nat} (hs : s.messages = before ++ first :: reply :: second :: after)
    (hindex : before.length + 1 = index) :
    (s.joinAround index).messages = before ++ joinedMessage first second :: after := by
  subst hindex
  have hfirst : s.messages[before.length]? = some first := by simp [hs]
  have hsecond : s.messages[before.length + 1 + 1]? = some second := by
    rw [hs, Nat.add_assoc, List.getElem?_append_right (Nat.le_add_right _ _), Nat.add_sub_cancel_left]
    rfl
  have htake : ∀ joined, (s.messages.set before.length joined).take (before.length + 1) = before ++ [joined] := by
    simp [hs, List.take_append]
  have hdrop : ∀ joined, (s.messages.set before.length joined).drop (before.length + 1 + 2) = after := by
    simp [hs, Nat.add_assoc, List.drop_append]
  simp only [Dialog.joinAround, Nat.add_sub_cancel, hfirst, hsecond, htake, hdrop]
  simp [joinedMessage]

structure Shaped (s : Dialog τ) : Prop where
  history : HistoryKept s
  parity : s.messages.length % 2 = if s.reply.isSome then 0 else 1
  /-- Only the last entry can be an empty reply. -/
  full : ∀ message ∈ s.messages.dropLast, message.role = .assistant → message.content ≠ []
  cut : ∀ message ∈ s.messages, message.isCut = true → message.role = .assistant

theorem Shaped.initial (cfg : DialogConfig) (times : Times τ) (awaitsDelivery : Bool) :
    Shaped (.initial cfg times awaitsDelivery) where
  history := (Kept.initial cfg times awaitsDelivery).history
  parity := rfl
  full := nofun
  cut message hmessage hcut := by
    rw [List.mem_singleton.mp hmessage] at hcut
    cases hcut

theorem Shaped.same (h : Shaped s) (hmessages : t.messages = s.messages)
    (hreply : t.reply.isSome = s.reply.isSome) (htruncatable : t.truncatable = s.truncatable) :
    Shaped t where
  history := ⟨hmessages ▸ h.history.alternating, by rw [hmessages, htruncatable]; exact h.history.truncatable⟩
  parity := by rw [hmessages, hreply, h.parity]
  full := hmessages ▸ h.full
  cut := hmessages ▸ h.cut

theorem mem_concat_dropLast {messages : List ChatMessage} {message last : ChatMessage}
    (hmem : message ∈ messages) (hlast : messages.getLast? = some last) :
    message ∈ messages.dropLast ∨ message = last := by
  rw [← List.dropLast_append_getLast? last hlast] at hmem
  rcases List.mem_append.mp hmem with hmem | hmem
  · exact .inl hmem
  · exact .inr (List.mem_singleton.mp hmem)

theorem Shaped.full_open (h : Shaped s) (heven : s.messages.length % 2 = 0) :
    ∀ message ∈ s.messages, message.role = .assistant → message.content ≠ [] := by
  intro message hmem hrole
  obtain ⟨last, hlast⟩ := Option.ne_none_iff_exists'.mp (mt List.getLast?_eq_none_iff.mp h.history.alternating.1)
  rcases mem_concat_dropLast hmem hlast with hmem | rfl
  · exact h.full message hmem hrole
  · have huser := h.history.alternating.last.mpr heven
    rw [hlast, Option.map_some, hrole] at huser
    cases huser

theorem Shaped.concat (h : Shaped s) (heven : s.messages.length % 2 = 0) {entry : ChatMessage}
    (hentry : entry.role = .assistant) (hmessages : t.messages = s.messages ++ [entry])
    (hhistory : HistoryKept t) (hreply : t.reply = none) : Shaped t where
  history := hhistory
  parity := by
    rw [hmessages, hreply, List.length_append, List.length_singleton, if_neg (by simp)]
    omega
  full := by
    rw [hmessages, List.dropLast_concat]
    exact h.full_open heven
  cut message hmem hcut := by
    rw [hmessages] at hmem
    rcases List.mem_append.mp hmem with hmem | hmem
    · exact h.cut message hmem hcut
    · exact List.mem_singleton.mp hmem ▸ hentry

theorem length_lateEntry (times : Times τ) (s : Dialog τ) :
    (s.lateEntry times).content.length ≤ s.truncatableText.length := by
  have hstrip := (List.dropWhile_suffix (l := (sliceTo s.truncatableText (times.heardPrefix
    s.truncatableProgress (s.heardUpTo times) s.truncatableText).1).reverse) isSpace).length_le
  rw [List.length_reverse] at hstrip
  show (rstrip (sliceTo s.truncatableText _)).length ≤ _
  rw [rstrip, List.length_reverse]
  exact hstrip.trans (List.length_take_le' _ _)

theorem interruptReply_entry (times : Times τ) (s : Dialog τ) (parts : List Text) : ∃ entry : ChatMessage,
    (s.interruptReply times parts).messages = s.messages ++ [entry] ∧ entry.role = .assistant
      ∧ entry.content.length ≤ parts.flatten.length
      ∧ (parts.flatten = [] ∧ (s.interruptReply times parts).truncatable = s.truncatable
          ∧ (s.interruptReply times parts).truncatableText = s.truncatableText
        ∨ (s.interruptReply times parts).truncatable = some (s.replyTurn, s.messages.length)
          ∧ (s.interruptReply times parts).truncatableText = parts.flatten) := by
  rw [interruptReply_eq]
  unfold Dialog.cutReply
  split
  · next hempty =>
    exact ⟨{ role := .assistant }, rfl, rfl, Nat.zero_le _, .inl ⟨List.isEmpty_iff.mp hempty, rfl, rfl⟩⟩
  let cuttable := s.keepNothing.becomeTruncatable parts.flatten
  have hmessages : cuttable.messages = s.messages ++ [{ role := .assistant }] := rfl
  have hlength : cuttable.messages.length = s.messages.length + 1 := List.length_append
  have htruncatable : cuttable.truncatable = some (s.replyTurn, s.messages.length) :=
    congrArg (fun n => some (s.replyTurn, n - 1)) hlength
  have hcut : cuttable.truncate times = cuttable.truncateAt times s.replyTurn s.messages.length := by
    rw [Dialog.truncate, htruncatable]
  show ∃ entry : ChatMessage, (cuttable.truncate times).messages = _ ∧ _
  rw [hcut]
  rcases truncateAt_cases times cuttable s.replyTurn s.messages.length with
    hsame | ⟨-, log, -, ⟨-, hset⟩ | ⟨-, hlt, -⟩⟩
  · rw [hsame]
    exact ⟨_, hmessages, rfl, Nat.zero_le _, .inr ⟨htruncatable, rfl⟩⟩
  · rw [hset]
    refine ⟨cuttable.lateEntry times, ?_, rfl, ?_, .inr ⟨htruncatable, rfl⟩⟩
    · simp [Dialog.rewritten, hmessages]
    · exact length_lateEntry times cuttable
  · omega

theorem full_joinAround {before after : List ChatMessage} {first reply second : ChatMessage} {index : Nat}
    (hs : s.messages = before ++ first :: reply :: second :: after) (hindex : before.length + 1 = index)
    (hfull : ∀ message ∈ before ++ after.dropLast, message.role = .assistant → message.content ≠ []) :
    ∀ message ∈ (s.joinAround index).messages.dropLast, message.role = .assistant → message.content ≠ [] := by
  intro message hmem hrole
  rw [joinAround_messages hs hindex, List.dropLast_append_cons] at hmem
  rcases List.mem_append.mp hmem with hmem | hmem
  · exact hfull message (List.mem_append_left _ hmem) hrole
  · cases after with
    | nil => cases hmem
    | cons next rest =>
      rcases List.mem_cons.mp hmem with rfl | hmem
      · cases hrole
      · exact hfull message (List.mem_append_right _ hmem) hrole

theorem mem_dropLast_around {messages before after : List ChatMessage}
    {first reply second message : ChatMessage} (hs : messages = before ++ first :: reply :: second :: after)
    (hmem : message ∈ before ++ after.dropLast) : message ∈ messages.dropLast := by
  rw [hs, List.dropLast_append_cons]
  rcases List.mem_append.mp hmem with hmem | hmem
  · exact List.mem_append_left _ hmem
  · refine List.mem_append_right _ ?_
    cases after with
    | nil => cases hmem
    | cons next rest => exact List.mem_cons_of_mem _ (List.mem_cons_of_mem _ (List.mem_cons_of_mem _ hmem))

theorem cut_joinAround {index : Nat} (hne : index ≠ 0) (hlt : index + 1 < s.messages.length)
    (hcut : ∀ message ∈ s.messages, message.isCut = true → message.role = .assistant) :
    ∀ message ∈ (s.joinAround index).messages, message.isCut = true → message.role = .assistant := by
  obtain ⟨before, first, reply, second, after, hs, hindex⟩ := exists_around hne hlt
  intro message hmem hmarked
  rw [joinAround_messages hs hindex] at hmem
  rcases List.mem_append.mp hmem with hmem | hmem
  · exact hcut message (hs ▸ List.mem_append_left _ hmem) hmarked
  rcases List.mem_cons.mp hmem with rfl | hmem
  · cases hmarked
  · refine hcut message (hs ▸ List.mem_append_right _ ?_) hmarked
    exact List.mem_cons_of_mem _ (List.mem_cons_of_mem _ (List.mem_cons_of_mem _ hmem))

theorem dropLast_set (messages : List ChatMessage) (index : Nat) (entry : ChatMessage) :
    (messages.set index entry).dropLast = messages.dropLast.set index entry := by
  rw [List.dropLast_eq_take, List.dropLast_eq_take, List.length_set, List.take_set]

theorem Shaped.rewritten (h : Shaped s) {turn index : Nat} (htruncatable : s.truncatable = some (turn, index))
    (log : List Moment) (hkept : (s.lateEntry times).content ≠ [] ∨ s.messages.length ≤ index + 1) :
    Shaped (s.rewritten times index log) := by
  obtain ⟨hlt, heven, hne⟩ := h.history.truncatable turn index htruncatable
  refine ⟨h.history.set heven hne rfl log, (congrArg (· % 2) List.length_set).trans h.parity, ?_, ?_⟩
  · intro message hmem hrole
    have hmem : message ∈ (s.messages.set index (s.lateEntry times)).dropLast := hmem
    rw [dropLast_set] at hmem
    rcases hkept with hkept | hlast
    · rcases List.mem_or_eq_of_mem_set hmem with hmem | rfl
      · exact h.full message hmem hrole
      · exact hkept
    · rw [List.set_eq_of_length_le (by rw [List.length_dropLast]; omega)] at hmem
      exact h.full message hmem hrole
  · intro message hmem hmarked
    rcases List.mem_or_eq_of_mem_set hmem with hmem | rfl
    · exact h.cut message hmem hmarked
    · rfl

theorem Shaped.truncate (h : Shaped s) : Shaped (s.truncate times) := by
  unfold Dialog.truncate
  split
  · exact h
  next turn index htruncatable =>
  have hhistory := h.history.cut htruncatable (cut_truncateAt times s turn index)
  obtain ⟨hlt, heven, hne⟩ := h.history.truncatable turn index htruncatable
  rcases truncateAt_cases times s turn index with
    hsame | ⟨-, log, -, ⟨hkept, hset⟩ | ⟨hempty, hinner, hjoined⟩⟩
  · exact hsame.symm ▸ h
  · exact hset.symm ▸ h.rewritten htruncatable log hkept
  rw [hjoined] at hhistory ⊢
  obtain ⟨before, first, reply, second, after, hs, hindex⟩ := exists_around hne hinner
  have hrewritten : (s.rewritten times index log).messages
      = before ++ first :: s.lateEntry times :: second :: after := by
    simp [Dialog.rewritten, hs, ← hindex]
  have hlength := length_joinAround (s := s.rewritten times index log) (by simpa [Dialog.rewritten] using hinner)
  refine ⟨hhistory, ?_, full_joinAround hrewritten hindex fun message hmem => h.full message ?_,
    cut_joinAround hne (by simpa [Dialog.rewritten] using hinner) fun message hmem hmarked => ?_⟩
  · have hparity := h.parity
    show _ = if s.reply.isSome then 0 else 1
    rw [← hparity]
    simp only [Dialog.rewritten, List.length_set] at hlength ⊢
    omega
  · exact mem_dropLast_around hs hmem
  · rcases List.mem_or_eq_of_mem_set hmem with hmem | rfl
    · exact h.cut message hmem hmarked
    · rfl

theorem Shaped.addUtterance (h : Shaped s) (hreply : s.reply = none) (text : Text) :
    HistoryKept (s.addUtterance text) ∧ (s.addUtterance text).messages.length % 2 = 0
      ∧ (∀ message ∈ (s.addUtterance text).messages.dropLast, message.role = .assistant → message.content ≠ [])
      ∧ ∀ message ∈ (s.addUtterance text).messages, message.isCut = true → message.role = .assistant := by
  have hparity := h.parity
  rw [hreply, if_neg (by simp)] at hparity
  have hadded := h.history.addUtterance hparity text
  have hcut : ∀ message ∈ (s.withUtterance text).messages, message.isCut = true → message.role = .assistant := by
    intro message hmem hmarked
    rcases List.mem_append.mp hmem with hmem | hmem
    · exact h.cut message hmem hmarked
    · rw [List.mem_singleton.mp hmem] at hmarked
      cases hmarked
  refine ⟨hadded.history, hadded.parity, ?_⟩
  have hlength := length_withUtterance s text
  rcases addUtterance_cases s text with ⟨heq, hfull⟩ | ⟨heq, reply, hlast, hrole, -⟩
  · rw [heq]
    refine ⟨fun message hmem hrole => ?_, hcut⟩
    obtain ⟨last, hlast⟩ := Option.ne_none_iff_exists'.mp
      (mt List.getLast?_eq_none_iff.mp h.history.alternating.1)
    rw [Dialog.withUtterance, List.dropLast_concat] at hmem
    rcases mem_concat_dropLast hmem hlast with hmem | rfl
    · exact h.full message hmem hrole
    · refine hfull message ?_ hrole
      rw [Dialog.withUtterance, List.getElem?_append_left (by omega), ← hlast, List.getLast?_eq_getElem?]
  · have hne : s.messages.length - 1 ≠ 0 := fun hzero => by
      have hsystem := hrole.symm.trans ((h.history.concat (roleAt_odd hparity).symm).alternating.2 _ _ hlast)
      rw [hzero] at hsystem
      cases hsystem
    have hinner : s.messages.length - 1 + 1 < (s.withUtterance text).messages.length := by omega
    rw [heq]
    refine ⟨?_, cut_joinAround hne hinner hcut⟩
    obtain ⟨before, first, reply, second, after, hs, hindex⟩ := exists_around hne hinner
    refine full_joinAround hs hindex fun message hmem => h.full message ?_
    have hafter : after = [] := by
      have hcount := congrArg List.length hs
      rw [hlength, List.length_append, List.length_cons, List.length_cons, List.length_cons] at hcount
      exact List.length_eq_zero_iff.mp (by omega)
    subst hafter
    have hmessages : s.messages = before ++ [first, reply] := by
      rw [Dialog.withUtterance] at hs
      have hconcat : before ++ [first, reply, second] = (before ++ [first, reply]) ++ [second] := by simp
      exact (List.append_inj_left' (hs.trans hconcat) rfl)
    rw [hmessages, List.dropLast_append_cons]
    exact List.mem_append_left _ (by simpa using hmem)

theorem Shaped.move (h : Shaped s) (hmove : Move cfg times mayCut mayAnswer s t) : Shaped t := by
  have hparity := h.parity
  cases hmove with
  | quiet hmessages hreply htruncatable => exact h.same hmessages (by rw [hreply]) htruncatable
  | said hreply => exact h.same rfl (by rw [hreply]; rfl) rfl
  | finished hreply =>
    rw [hreply, if_pos (by rfl)] at hparity
    exact h.concat hparity rfl rfl (h.history.finishReply hparity _) rfl
  | @interrupted parts hreply =>
    rw [hreply, if_pos (by rfl)] at hparity
    obtain ⟨entry, hmessages, hrole, -⟩ := interruptReply_entry times s parts
    have hcut := h.history.replyCut times hparity parts
    rw [interruptReply_eq] at hmessages ⊢
    exact h.concat hparity hrole hmessages ⟨hcut.history.alternating, hcut.history.truncatable⟩ rfl
  | cut => exact h.truncate
  | answered hreply _ ht =>
    rcases respond_cases ht with ⟨-, rfl⟩ | ⟨-, -, language, isShortSwitch, rfl⟩
    · exact h.same rfl rfl rfl
    · obtain ⟨hhistory, heven, hfull, hcut⟩ := h.addUtterance hreply _
      exact ⟨⟨hhistory.alternating, hhistory.truncatable⟩, heven, hfull, hcut⟩

theorem Shaped.moves (h : Shaped s) (hmoves : Moves cfg times mayCut mayAnswer s t) : Shaped t := by
  induction hmoves with
  | refl => exact h
  | tail _ hmove ih => exact ih.move hmove

theorem admits_any (s : Dialog τ) (event : Event τ) :
    Admits cfg times (fun _ => True) (fun _ _ => True) s event :=
  ⟨fun _ _ => trivial, fun _ _ _ _ _ => trivial⟩

theorem shaped_of_reaches {awaitsDelivery : Bool}
    (h : (dialog cfg times awaitsDelivery).Reaches Lib.Machine.anyAction s) : Shaped s :=
  h.invariant (Shaped.initial cfg times awaitsDelivery)
    fun _ _ _ hs _ ht => hs.moves (moves_step ht (admits_any _ _))

end Cascade
