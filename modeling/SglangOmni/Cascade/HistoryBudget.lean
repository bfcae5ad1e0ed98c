import SglangOmni.Cascade.HistoryMoves

/-! The characters of a dialog's history and of its open reply stay within the configured bound, where
the two edits that the check of an answer does not foresee leave room: the join of two utterances around
an empty reply, and a report that lengthens a reply after a later utterance was answered. -/

namespace Cascade

variable {τ : Type} {cfg : DialogConfig} {times : Times τ} {s t : Dialog τ}

def chars (messages : List ChatMessage) : Nat := (messages.map fun message => message.content.length).sum

def Dialog.reserved (cfg : DialogConfig) (s : Dialog τ) : Nat :=
  s.historyChars + if s.reply.isSome then cfg.maxTextChars else 0

/-- A report lengthens the entry of a reply that a later utterance follows by no more than is left. -/
def ReportFits (cfg : DialogConfig) (times : Times τ) (noted : Dialog τ) : Prop :=
  ∀ turn index entry, noted.truncatable = some (turn, index) → index + 1 < noted.messages.length →
    noted.messages[index]? = some entry → times.isInf (noted.heardUpTo times) = false →
    (noted.lateEntry times).content.length + noted.reserved cfg ≤ entry.content.length + cfg.maxHistoryChars

/-- An utterance that joins the one before an empty reply leaves room for the space between them. -/
def JoinFits (cfg : DialogConfig) (s : Dialog τ) (text : Text) : Prop :=
  ∀ last, s.messages.getLast? = some last → last.role = .assistant → last.content = [] → text ≠ [] →
    s.historyChars + 1 + text.length + cfg.maxTextChars ≤ cfg.maxHistoryChars

def Fits (cfg : DialogConfig) (times : Times τ) : Dialog τ → Event τ → Prop :=
  Admits cfg times (ReportFits cfg times) (JoinFits cfg)

/-! ### Characters -/

@[simp] theorem chars_nil : chars [] = 0 := rfl

@[simp] theorem chars_cons (message : ChatMessage) (messages : List ChatMessage) :
    chars (message :: messages) = message.content.length + chars messages := rfl

@[simp] theorem chars_append (messages others : List ChatMessage) :
    chars (messages ++ others) = chars messages + chars others := by
  simp [chars]

theorem chars_set {messages : List ChatMessage} {index : Nat} {old : ChatMessage}
    (hold : messages[index]? = some old) (entry : ChatMessage) :
    chars (messages.set index entry) + old.content.length = chars messages + entry.content.length := by
  induction messages generalizing index with
  | nil => cases hold
  | cons message messages ih =>
    cases index with
    | zero =>
      cases hold
      simp only [List.set_cons_zero, chars_cons]
      omega
    | succ index =>
      have hrest := ih hold
      simp only [List.set_cons_succ, chars_cons]
      omega

theorem chars_joinAround {before after : List ChatMessage} {first reply second : ChatMessage} {index : Nat}
    (hs : s.messages = before ++ first :: reply :: second :: after) (hindex : before.length + 1 = index) :
    (s.joinAround index).historyChars + reply.content.length = s.historyChars + 1 := by
  show chars (s.joinAround index).messages + _ = chars s.messages + 1
  rw [joinAround_messages hs hindex, hs]
  simp only [chars_append, chars_cons, joinedMessage, List.length_append, List.length_singleton]
  omega

/-! ### The budget -/

/-- The bound as every operation keeps it; the reply that can still be cut may grow back to its text as
long as it is the last entry. -/
structure Budgeted (cfg : DialogConfig) (s : Dialog τ) : Prop where
  reserved : s.reserved cfg ≤ cfg.maxHistoryChars
  regrows : s.reply = none → ∀ turn index entry, s.truncatable = some (turn, index) →
    index + 1 = s.messages.length → s.messages[index]? = some entry →
    s.historyChars + cfg.maxTextChars ≤ cfg.maxHistoryChars + entry.content.length

structure Within (cfg : DialogConfig) (s : Dialog τ) : Prop where
  shaped : Shaped s
  reply : ∀ parts, s.reply = some parts → parts.flatten.length ≤ cfg.maxTextChars
  text : ∀ ended, s.truncatable = some ended → s.truncatableText.length ≤ cfg.maxTextChars
  budgeted : ∀ turn, Moment.started turn ∈ s.log → Budgeted cfg s

theorem Budgeted.same (h : Budgeted cfg s) (hmessages : t.messages = s.messages)
    (hreply : t.reply.isSome = s.reply.isSome) (htruncatable : t.truncatable = s.truncatable) :
    Budgeted cfg t where
  reserved := by
    have hchars : t.historyChars = s.historyChars := congrArg chars hmessages
    rw [Dialog.reserved, hchars, hreply]
    exact h.reserved
  regrows hnone := by
    have hchars : t.historyChars = s.historyChars := congrArg chars hmessages
    have hclosed : s.reply = none := Option.not_isSome_iff_eq_none.mp (by rw [← hreply, hnone]; simp)
    rw [hchars, hmessages, htruncatable]
    exact h.regrows hclosed

theorem Budgeted.open (h : Budgeted cfg s) {parts : List Text} (hreply : s.reply = some parts) :
    s.historyChars + cfg.maxTextChars ≤ cfg.maxHistoryChars := by
  have hreserved := h.reserved
  rwa [Dialog.reserved, hreply, if_pos (by rfl)] at hreserved

theorem Budgeted.ended (h : Budgeted cfg s) {parts : List Text} (hopen : s.reply = some parts)
    {entry : ChatMessage} (hentry : entry.content.length ≤ cfg.maxTextChars)
    (hmessages : t.messages = s.messages ++ [entry]) (hreply : t.reply = none) : Budgeted cfg t := by
  have hbudget := h.open hopen
  have hchars : t.historyChars = s.historyChars + entry.content.length := by
    show chars t.messages = chars s.messages + _
    rw [hmessages, chars_append, chars_cons, chars_nil, Nat.add_zero]
  refine ⟨?_, fun _ turn index last _ hlast hget => ?_⟩
  · rw [Dialog.reserved, hreply, if_neg (by simp), hchars]
    omega
  · rw [hmessages, List.length_append, List.length_singleton] at hlast
    rw [hmessages, List.getElem?_append_right (by omega), show index - s.messages.length = 0 by omega] at hget
    cases hget
    omega

theorem mem_log_interruptReply (h : Shaped s) {parts : List Text} (hreply : s.reply = some parts) {turn : Nat}
    (hturn : Moment.started turn ∈ (s.interruptReply times parts).log) : Moment.started turn ∈ s.log := by
  have hparity := h.parity
  rw [hreply, if_pos (by rfl)] at hparity
  have hlog := (h.history.replyCut times hparity parts).log
  rw [interruptReply_eq] at hturn
  have hcut := started_of_concat (started_of_concat hturn nofun) nofun
  rcases hlog with hlog | ⟨other, textEnd, hlog⟩
  · exact hlog ▸ hcut
  · rw [hlog] at hcut
    exact started_of_concat hcut nofun

theorem mem_log_truncate {turn : Nat} (hturn : Moment.started turn ∈ (s.truncate times).log) :
    Moment.started turn ∈ s.log := by
  unfold Dialog.truncate at hturn
  split at hturn
  · exact hturn
  next ended index _ =>
  rcases (cut_truncateAt times s ended index).log with hlog | ⟨other, textEnd, hlog⟩
  · exact hlog ▸ hturn
  · rw [hlog] at hturn
    exact started_of_concat hturn nofun

def KeepsText (s t : Dialog τ) : Prop :=
  (∀ ended, t.truncatable = some ended → s.truncatable = some ended)
    ∧ t.truncatableText = s.truncatableText

theorem KeepsText.joinAround (h : KeepsText s t) (index : Nat) : KeepsText s (t.joinAround index) :=
  ⟨fun ended hended => h.1 ended (Option.filter_eq_some_iff.mp hended).1, h.2⟩

theorem truncatable_truncate (times : Times τ) (s : Dialog τ) : KeepsText s (s.truncate times) := by
  unfold Dialog.truncate
  split
  · exact ⟨fun _ h => h, rfl⟩
  next ended index _ =>
  rcases truncateAt_cases times s ended index with
    hsame | ⟨-, log, -, ⟨-, hcut⟩ | ⟨-, -, hjoined⟩⟩
  · exact hsame.symm ▸ ⟨fun _ h => h, rfl⟩
  · exact hcut.symm ▸ ⟨fun _ h => h, rfl⟩
  · have hrewritten : KeepsText s (s.rewritten times index log) := ⟨fun _ h => h, rfl⟩
    exact hjoined.symm ▸ hrewritten.joinAround index

theorem truncatable_addUtterance (s : Dialog τ) (text : Text) : KeepsText s (s.addUtterance text) := by
  have hadded : KeepsText s (s.withUtterance text) := ⟨fun _ h => h, rfl⟩
  rcases addUtterance_cases s text with ⟨heq, -⟩ | ⟨heq, -⟩
  · exact heq.symm ▸ hadded
  · exact heq.symm ▸ hadded.joinAround _

theorem reserved_of (h : t.reply.isSome = s.reply.isSome) :
    t.reserved cfg + s.historyChars = s.reserved cfg + t.historyChars := by
  simp only [Dialog.reserved, h]
  omega

theorem Within.truncate (h : Within cfg s) (hfits : ReportFits cfg times s) {turn : Nat}
    (hturn : Moment.started turn ∈ s.log) : Budgeted cfg (s.truncate times) := by
  have hbudget := h.budgeted turn hturn
  unfold Dialog.truncate
  split
  · exact hbudget
  next ended index htruncatable =>
  obtain ⟨hlt, heven, hne⟩ := h.shaped.history.truncatable ended index htruncatable
  have hentry := List.getElem?_eq_getElem hlt
  generalize s.messages[index] = entry at hentry
  have hset := chars_set hentry (s.lateEntry times)
  have hreserved := hbudget.reserved
  rcases truncateAt_cases times s ended index with
    hsame | ⟨hinf, log, -, ⟨-, hcut⟩ | ⟨hempty, hinner, hjoined⟩⟩
  · exact hsame.symm ▸ hbudget
  · rw [hcut]
    have hchars : (s.rewritten times index log).historyChars + entry.content.length
        = s.historyChars + (s.lateEntry times).content.length := hset
    have hdiff : (s.rewritten times index log).reserved cfg + s.historyChars
        = s.reserved cfg + (s.rewritten times index log).historyChars := reserved_of rfl
    rcases Nat.lt_or_ge (index + 1) s.messages.length with hinner | hlast
    · have hroom := hfits ended index entry htruncatable hinner hentry hinf
      refine ⟨by omega, fun _ other index' last htruncatable' hlast => ?_⟩
      cases htruncatable.symm.trans htruncatable'
      rw [Dialog.rewritten, List.length_set] at hlast
      omega
    · have hclosed : s.reply = none := by
        have hparity := h.shaped.parity
        cases hreply : s.reply with
        | none => rfl
        | some parts =>
          rw [hreply, if_pos (by rfl)] at hparity
          omega
      have hregrows := hbudget.regrows hclosed ended index entry htruncatable (by omega) hentry
      have hlength := (length_lateEntry times s).trans (h.text _ htruncatable)
      have hopen : s.reserved cfg = s.historyChars := by
        rw [Dialog.reserved, hclosed, if_neg (by simp), Nat.add_zero]
      refine ⟨by omega, fun _ other index' last htruncatable' _ hget => ?_⟩
      cases htruncatable.symm.trans htruncatable'
      rw [Dialog.rewritten, List.getElem?_set_self hlt] at hget
      cases hget
      omega
  · rw [hjoined]
    obtain ⟨before, first, reply, second, after, hs, hindex⟩ := exists_around hne hinner
    have hreply : reply = entry := by
      rw [hs, ← hindex, List.getElem?_append_right (Nat.le_add_right _ _), Nat.add_sub_cancel_left] at hentry
      exact Option.some.inj hentry
    have hfull : entry.content ≠ [] := by
      refine h.shaped.full entry ?_ ((h.shaped.history.alternating.2 _ _ hentry).trans (roleAt_even heven hne))
      rw [hs, List.dropLast_append_cons, hreply]
      exact List.mem_append_right _ (by simp)
    have hpos := List.length_pos_iff.mpr hfull
    have hrewritten : (s.rewritten times index log).messages
        = before ++ first :: s.lateEntry times :: second :: after := by
      simp [Dialog.rewritten, hs, ← hindex]
    have hchars := chars_joinAround hrewritten hindex
    have hrewrite : (s.rewritten times index log).historyChars + entry.content.length
        = s.historyChars + (s.lateEntry times).content.length := hset
    have hdiff : ((s.rewritten times index log).joinAround index).reserved cfg + s.historyChars
        = s.reserved cfg + ((s.rewritten times index log).joinAround index).historyChars := reserved_of rfl
    rw [hempty, List.length_nil] at hchars hrewrite
    refine ⟨by omega, fun _ other index' last htruncatable' => ?_⟩
    obtain ⟨hsame, hdiffers⟩ := Option.filter_eq_some_iff.mp htruncatable'
    cases htruncatable.symm.trans hsame
    simp at hdiffers

theorem Shaped.budgeted_answer (h : Shaped s) (hreply : s.reply = none) {text : Text} (hne : text ≠ [])
    (hchecked : s.historyChars + text.length + cfg.maxTextChars ≤ cfg.maxHistoryChars)
    (hfits : JoinFits cfg s text) :
    (s.addUtterance text).historyChars + cfg.maxTextChars ≤ cfg.maxHistoryChars := by
  have hadded : chars (s.withUtterance text).messages = s.historyChars + text.length := by
    show chars (s.messages ++ [_]) = chars s.messages + _
    rw [chars_append, chars_cons, chars_nil, Nat.add_zero]
  rcases addUtterance_cases s text with ⟨heq, -⟩ | ⟨heq, reply, hget, hrole, hempty⟩
  · rw [heq]
    show chars (s.withUtterance text).messages + _ ≤ _
    omega
  · have hparity := h.parity
    rw [hreply, if_neg (by simp)] at hparity
    have hlast : s.messages.getLast? = some reply := by
      rw [List.getLast?_eq_getElem?, ← hget, Dialog.withUtterance, List.getElem?_append_left (by omega)]
    have hroom := hfits reply hlast hrole hempty hne
    have hposition : s.messages.length - 1 ≠ 0 := fun hzero => by
      have hsystem := hrole.symm.trans ((h.history.concat (roleAt_odd hparity).symm).alternating.2 _ _ hget)
      rw [hzero] at hsystem
      cases hsystem
    have hinner : s.messages.length - 1 + 1 < (s.withUtterance text).messages.length := by
      rw [length_withUtterance]
      omega
    obtain ⟨before, first, entry, second, after, hs, hindex⟩ := exists_around hposition hinner
    have hentry : entry = reply := by
      rw [hs, ← hindex, List.getElem?_append_right (Nat.le_add_right _ _), Nat.add_sub_cancel_left] at hget
      exact Option.some.inj hget
    have hchars := chars_joinAround hs hindex
    have hsame : (s.withUtterance text).historyChars = s.historyChars + text.length := hadded
    rw [hentry, hempty, List.length_nil, hsame] at hchars
    rw [heq]
    omega

theorem Within.move (h : Within cfg s)
    (hmove : Move cfg times (ReportFits cfg times) (JoinFits cfg) s t) : Within cfg t := by
  have hshaped := h.shaped.move hmove
  cases hmove with
  | quiet hmessages hreply htruncatable htext hlog =>
    exact ⟨hshaped, hreply ▸ h.reply, by rw [htruncatable, htext]; exact h.text,
      fun turn hturn => (h.budgeted turn (hlog turn hturn)).same hmessages (by rw [hreply]) htruncatable⟩
  | said hreply hlength =>
    refine ⟨hshaped, fun parts hparts => ?_, h.text,
      fun turn hturn => (h.budgeted turn hturn).same rfl (by rw [hreply]; rfl) rfl⟩
    cases hparts
    exact hlength
  | @finished parts hreply =>
    have hlength := h.reply _ hreply
    exact ⟨hshaped, nofun, fun _ _ => hlength, fun turn hturn =>
      (h.budgeted turn (started_of_concat hturn nofun)).ended hreply hlength rfl rfl⟩
  | @interrupted parts hreply =>
    have hlength := h.reply _ hreply
    obtain ⟨entry, hmessages, -, hentry, hcases⟩ := interruptReply_entry times s parts
    refine ⟨hshaped, nofun, fun ended hended => ?_, fun turn hturn =>
      (h.budgeted turn (mem_log_interruptReply h.shaped hreply hturn)).ended hreply (hentry.trans hlength)
        hmessages rfl⟩
    rcases hcases with ⟨-, htruncatable, htext⟩ | ⟨-, htext⟩
    · exact htext.symm ▸ h.text ended (htruncatable ▸ hended)
    · exact htext.symm ▸ hlength
  | cut hfits =>
    have hsame := sameTurns_truncate times s
    have htext := truncatable_truncate times s
    exact ⟨hshaped, fun parts hparts => h.reply parts (hsame.reply ▸ hparts),
      fun ended hended => htext.2.symm ▸ h.text ended (htext.1 ended hended),
      fun turn hturn => h.truncate hfits (mem_log_truncate hturn)⟩
  | @answered _ utterance hreply hfits ht =>
    rcases respond_cases ht with ⟨-, rfl⟩ | ⟨hne, hchecked, language, isShortSwitch, rfl⟩
    · exact ⟨hshaped, h.reply, h.text,
        fun turn hturn => (h.budgeted turn (started_of_concat hturn nofun)).same rfl rfl rfl⟩
    · have hbudget := h.shaped.budgeted_answer hreply hne hchecked hfits
      refine ⟨hshaped, fun parts hparts => ?_, fun ended hended => ?_, fun turn _ => ⟨hbudget, nofun⟩⟩
      · cases hparts
        exact Nat.zero_le _
      · have htext := truncatable_addUtterance s utterance.text
        exact htext.2.symm ▸ h.text ended (htext.1 ended hended)

theorem Within.moves (h : Within cfg s)
    (hmoves : Moves cfg times (ReportFits cfg times) (JoinFits cfg) s t) : Within cfg t := by
  induction hmoves with
  | refl => exact h
  | tail _ hmove ih => exact ih.move hmove

theorem within_of_reaches {awaitsDelivery : Bool}
    (h : (dialog cfg times awaitsDelivery).Reaches (Fits cfg times) s) : Within cfg s := by
  refine h.invariant ⟨Shaped.initial cfg times awaitsDelivery, nofun, nofun, nofun⟩ ?_
  exact fun _ _ _ hs hfits ht => hs.moves (moves_step ht hfits)

/-- From the first answer on, the history and the open reply stay within the bound in every run whose
joins and late reports fit. -/
theorem history_within_budget {awaitsDelivery : Bool}
    (h : (dialog cfg times awaitsDelivery).Reaches (Fits cfg times) s) {turn : Nat}
    (hstarted : Moment.emitted (.started turn) ∈ s.log) :
    s.historyChars + (s.reply.getD []).flatten.length ≤ cfg.maxHistoryChars := by
  have hwithin := within_of_reaches h
  have hreserved := (hwithin.budgeted turn hstarted).reserved
  rw [Dialog.reserved] at hreserved
  cases hreply : s.reply with
  | none =>
    rw [hreply, if_neg (by simp)] at hreserved
    exact hreserved
  | some parts =>
    rw [hreply, if_pos (by rfl)] at hreserved
    have hlength := hwithin.reply parts hreply
    rw [Option.getD_some]
    omega

theorem history_within_budget_first : ∃ s : Dialog (Option Nat),
    (dialog ⟨[], 5, 3⟩ wholeTimes true).Reaches (Fits ⟨[], 5, 3⟩ wholeTimes) s ∧ s.reply.isSome = true
      ∧ s.historyChars + (s.reply.getD []).flatten.length ≤ 5 := by
  have hrun : ((dialog ⟨[], 5, 3⟩ wholeTimes true).step (.initial ⟨[], 5, 3⟩ wholeTimes true)
      (.input (.transcript ['h', 'i'] true none))).any (fun s =>
        decide (Moment.emitted (.started 1) ∈ s.log ∧ s.reply.isSome = true)) = true := by
    decide
  obtain ⟨s, hs, hend⟩ := (Option.any_eq_true _ _).mp hrun
  obtain ⟨hstarted, hreply⟩ := of_decide_eq_true hend
  have hfits : Fits ⟨[], 5, 3⟩ wholeTimes (.initial ⟨[], 5, 3⟩ wholeTimes true)
      (.input (.transcript ['h', 'i'] true none)) := by
    refine ⟨nofun, fun handled hhandled utterance found hanswering last hlast hrole => ?_⟩
    cases hhandled
    cases hanswering with
    | here =>
      cases hlast
      cases hrole
    | later _ _ hrest => cases hrest
  have hreaches := (Lib.Machine.Path.refl _).tail hfits hs
  exact ⟨s, hreaches, hreply, history_within_budget hreaches hstarted⟩

/-- An utterance joins the one before a reply that was interrupted without text, and the next reply is as
long as it may be. -/
theorem history_over_budget : ∃ s : Dialog (Option Nat),
    (dialog ⟨[], 4, 2⟩ wholeTimes true).Reaches Lib.Machine.anyAction s
      ∧ Moment.emitted (.started 1) ∈ s.log
      ∧ ¬ s.historyChars + (s.reply.getD []).flatten.length ≤ 4 := by
  have hrun : ((dialog ⟨[], 4, 2⟩ wholeTimes true).exec (.initial ⟨[], 4, 2⟩ wholeTimes true)
      [.input (.transcript ['a'] true none), .control .interrupt, .input (.transcript ['b'] true none),
        .input (.textDelta (some 2) ['x', 'y'])]).any (fun s =>
      decide (Moment.emitted (.started 1) ∈ s.log
        ∧ ¬ s.historyChars + (s.reply.getD []).flatten.length ≤ 4)) = true := by
    decide +kernel
  obtain ⟨s, hs, hend⟩ := (Option.any_eq_true _ _).mp hrun
  exact ⟨s, Lib.Machine.path_of_exec hs, of_decide_eq_true hend⟩

end Cascade
