import SglangOmni.Cascade.HistoryMoves

/-! The prompts of a dialog show which replies the listener cut, but for a reply that the model itself
ended with dots or left blank. -/

namespace Cascade

variable {τ : Type} {cfg : DialogConfig} {times : Times τ} {s t : Dialog τ} {utterance : Utterance}

def ComesToAnswer (cfg : DialogConfig) (times : Times τ) (awaitsDelivery : Bool) (s : Dialog τ)
    (utterance : Utterance) : Prop :=
  ∃ before event handled, (dialog cfg times awaitsDelivery).Reaches Lib.Machine.anyAction before
    ∧ before.handled cfg times event = some handled
    ∧ Answering cfg times handled.waiting handled utterance s

structure Shows (history prompt : List ChatMessage) : Prop where
  length : prompt.length = history.length
  alternating : Alternating prompt
  /-- A reply ends with … exactly where the listener cut it. -/
  cut : ∀ (index : Nat) (message shown : ChatMessage), history[index]? = some message → prompt[index]? = some shown →
    message.role = .assistant → (shown.content.getLast? = some ellipsis ↔ message.isCut = true)
  /-- The system's message has the note on cut replies exactly when there is one. -/
  note : ∀ system shown : ChatMessage, history[0]? = some system → prompt[0]? = some shown →
    (shown.content = system.content ++ [' '] ++ cutReplyNote ↔ ∃ message ∈ history, message.isCut = true)
  spoken : ∀ message ∈ prompt, message.role = .assistant → message.content ≠ []

/-- An uncut reply that the prompt shows as such: trailing spaces apart it is neither empty nor a single
…, and does not end with two of them. -/
def Plain (content : Text) : Prop :=
  rstrip content ≠ [] ∧ rstrip content ≠ [ellipsis] ∧ ¬ [ellipsis, ellipsis] <:+ rstrip content

instance (content : Text) : Decidable (Plain content) := inferInstanceAs (Decidable (_ ∧ _ ∧ _))

/-! ### The messages of a prompt -/

theorem getLast?_removeEllipsis (text : Text) :
    (removeEllipsis text).getLast? = some ellipsis ↔ [ellipsis, ellipsis] <:+ text := by
  unfold removeEllipsis
  constructor
  · intro hlast
    split at hlast
    · next hend =>
      obtain ⟨before, rfl⟩ := List.getLast?_eq_some_iff.mp hend
      rw [List.dropLast_concat] at hlast
      obtain ⟨before, rfl⟩ := List.getLast?_eq_some_iff.mp hlast
      exact ⟨before, by simp⟩
    · next hend => exact absurd hlast hend
  · rintro ⟨before, rfl⟩
    rw [if_pos (by simp), show before ++ [ellipsis, ellipsis] = (before ++ [ellipsis]) ++ [ellipsis] by simp,
      List.dropLast_concat]
    simp

theorem removeEllipsis_eq_nil (text : Text) : removeEllipsis text = [] ↔ text = [] ∨ text = [ellipsis] := by
  unfold removeEllipsis
  constructor
  · intro hempty
    split at hempty
    · next hend =>
      obtain ⟨before, rfl⟩ := List.getLast?_eq_some_iff.mp hend
      rw [List.dropLast_concat] at hempty
      exact .inr (by rw [hempty]; rfl)
    · exact .inl hempty
  · rintro (rfl | rfl) <;> rfl

theorem plain_iff (content : Text) :
    Plain content ↔ removeEllipsis (rstrip content) ≠ []
      ∧ (removeEllipsis (rstrip content)).getLast? ≠ some ellipsis := by
  rw [Plain, Ne, Ne, Ne, Ne, removeEllipsis_eq_nil, getLast?_removeEllipsis, not_or, and_assoc]

theorem promptMessage_role {message : ChatMessage} (h : message.isCut = true → message.role = .assistant) :
    (promptMessage message).role = message.role := by
  unfold promptMessage
  split
  · next hcut => exact (h hcut).symm
  split
  · next hrole => exact hrole.symm
  · rfl

theorem promptMessage_cut {message : ChatMessage} (h : message.isCut = true) :
    (promptMessage message).content = removeEllipsis message.content ++ [ellipsis] := by
  rw [promptMessage, if_pos h]

theorem promptMessage_uncut {message : ChatMessage} (h : message.isCut = false)
    (hrole : message.role = .assistant) :
    (promptMessage message).content = removeEllipsis (rstrip message.content) := by
  rw [promptMessage, if_neg (by rw [h]; exact Bool.false_ne_true), if_pos hrole]

def shownAt (messages : List ChatMessage) (isShortSwitch : Bool) (language : Option String) (index : Nat)
    (message : ChatMessage) : ChatMessage :=
  let shown := if index = 0 ∧ messages.any (·.isCut) then
      { role := .system, content := (promptMessage message).content ++ [' '] ++ cutReplyNote }
    else promptMessage message
  if isShortSwitch ∧ index = messages.length - 1 then
    { role := .user
      content := shown.content ++ ['\n', '\n', '['] ++ shortUtteranceNote language ++ [']'] }
  else shown

theorem length_promptOf (messages : List ChatMessage) (isShortSwitch : Bool) (language : Option String) :
    (promptOf messages isShortSwitch language).length = messages.length := by
  unfold promptOf Dialog.withLanguageNote promptMessages
  cases isShortSwitch <;> cases messages.any (·.isCut) <;> simp

theorem getElem?_promptOf (messages : List ChatMessage) (isShortSwitch : Bool) (language : Option String)
    (index : Nat) : (promptOf messages isShortSwitch language)[index]?
      = messages[index]?.map (shownAt messages isShortSwitch language index) := by
  have hlength : (promptMessages messages).length = messages.length := by
    unfold promptMessages
    cases messages.any (·.isCut) <;> simp
  have hmessages : (promptMessages messages)[index]?
      = messages[index]?.map (shownAt messages false language index) := by
    unfold promptMessages
    simp only
    split
    · next hcut =>
      rw [List.getElem?_modify, List.getElem?_map]
      cases messages[index]? with
      | none => rfl
      | some message => simp [shownAt, hcut, eq_comm]
    · next hcut =>
      rw [List.getElem?_map]
      cases messages[index]? with
      | none => rfl
      | some message => simp [shownAt, hcut]
  cases isShortSwitch with
  | false => exact hmessages
  | true =>
    rw [promptOf, if_pos rfl, Dialog.withLanguageNote, hlength, List.getElem?_modify, hmessages]
    cases messages[index]? with
    | none => rfl
    | some message =>
      refine congrArg some ?_
      by_cases hlast : index = messages.length - 1
      · simp [shownAt, hlast]
      · simp [shownAt, hlast, Ne.symm hlast]

variable {history : List ChatMessage} {isShortSwitch : Bool} {language : Option String}

structure Promptable (history : List ChatMessage) : Prop where
  alternating : Alternating history
  even : history.length % 2 = 0
  cut : ∀ message ∈ history, message.isCut = true → message.role = .assistant

theorem Promptable.role_last (h : Promptable history) : roleAt (history.length - 1) = .user := by
  have hne : history.length ≠ 0 := fun hzero => h.alternating.1 (List.length_eq_zero_iff.mp hzero)
  have := h.even
  exact roleAt_odd (by omega)

theorem Promptable.shownAt_role (h : Promptable history) {index : Nat} {message : ChatMessage}
    (hmessage : history[index]? = some message) :
    (shownAt history isShortSwitch language index message).role = roleAt index := by
  have hrole := (promptMessage_role (h.cut message (List.mem_of_getElem? hmessage))).trans
    (h.alternating.2 index message hmessage)
  simp only [shownAt]
  split
  · next hlast => exact hlast.2 ▸ h.role_last.symm
  split
  · next hfirst => exact (hfirst.1 ▸ rfl)
  · exact hrole

theorem Promptable.shownAt_reply (h : Promptable history) {index : Nat} {message : ChatMessage}
    (hmessage : history[index]? = some message) (hrole : message.role = .assistant) :
    shownAt history isShortSwitch language index message = promptMessage message := by
  have hat := (h.alternating.2 index message hmessage).symm.trans hrole
  simp only [shownAt]
  split
  · next hlast =>
    rw [hlast.2, h.role_last] at hat
    cases hat
  split
  · next hfirst =>
    rw [hfirst.1] at hat
    cases hat
  · rfl

theorem Promptable.shownAt_system (h : Promptable history) {system : ChatMessage}
    (hsystem : history[0]? = some system) :
    (shownAt history isShortSwitch language 0 system).content =
      if history.any (·.isCut) then system.content ++ [' '] ++ cutReplyNote else system.content := by
  have hne : history.length ≠ 0 := fun hzero => h.alternating.1 (List.length_eq_zero_iff.mp hzero)
  have hlast : ¬ (isShortSwitch = true ∧ 0 = history.length - 1) := by
    have := h.even
    omega
  have hrole := h.alternating.2 0 system hsystem
  have hcut : system.isCut = false := Bool.eq_false_iff.mpr fun hcut => by
    have hassistant := h.cut system (List.mem_of_getElem? hsystem) hcut
    cases hrole.symm.trans hassistant
  have hsame : promptMessage system = system := by
    rw [promptMessage, hcut, if_neg Bool.false_ne_true, if_neg]
    rw [hrole]
    exact nofun
  simp only [shownAt, if_neg hlast, hsame]
  split
  · next hfirst => rw [if_pos hfirst.2]
  · next hfirst => rw [if_neg fun hany => hfirst ⟨trivial, hany⟩]

theorem Promptable.shows_iff (h : Promptable history) :
    Shows history (promptOf history isShortSwitch language) ↔
      ∀ message ∈ history, message.role = .assistant → message.isCut = false → Plain message.content := by
  have hget (index : Nat) := getElem?_promptOf history isShortSwitch language index
  constructor
  · intro hshows message hmem hrole huncut
    obtain ⟨index, hmessage⟩ := List.getElem?_of_mem hmem
    have hshown : (promptOf history isShortSwitch language)[index]? = some (promptMessage message) := by
      rw [hget, hmessage, Option.map_some, h.shownAt_reply hmessage hrole]
    have hcut := hshows.cut index message _ hmessage hshown hrole
    have hspoken := hshows.spoken _ (List.mem_of_getElem? hshown)
      ((promptMessage_role (h.cut message hmem)).trans hrole)
    rw [promptMessage_uncut huncut hrole] at hcut hspoken
    refine (plain_iff _).mpr ⟨hspoken, fun hdots => ?_⟩
    rw [hcut.mp hdots] at huncut
    cases huncut
  · intro hplain
    have hreply {index : Nat} {message : ChatMessage} (hmessage : history[index]? = some message)
        (hrole : message.role = .assistant) :
        (promptMessage message).content ≠ []
          ∧ ((promptMessage message).content.getLast? = some ellipsis ↔ message.isCut = true) := by
      cases hcut : message.isCut with
      | true =>
        rw [promptMessage_cut hcut]
        simp
      | false =>
        obtain ⟨hne, hlast⟩ := (plain_iff _).mp (hplain message (List.mem_of_getElem? hmessage) hrole hcut)
        rw [promptMessage_uncut hcut hrole]
        exact ⟨hne, iff_of_false hlast Bool.false_ne_true⟩
    refine ⟨length_promptOf _ _ _, ⟨?_, ?_⟩, ?_, ?_, ?_⟩
    · intro hnil
      have hlength := length_promptOf history isShortSwitch language
      rw [hnil] at hlength
      exact h.alternating.1 (List.length_eq_zero_iff.mp hlength.symm)
    · intro index shown hshown
      rw [hget] at hshown
      obtain ⟨message, hmessage, rfl⟩ := Option.map_eq_some_iff.mp hshown
      exact h.shownAt_role hmessage
    · intro index message shown hmessage hshown hrole
      rw [hget, hmessage, Option.map_some, h.shownAt_reply hmessage hrole] at hshown
      cases hshown
      exact (hreply hmessage hrole).2
    · intro system shown hsystem hshown
      rw [hget, hsystem, Option.map_some] at hshown
      cases hshown
      rw [h.shownAt_system hsystem]
      split
      · next hany => exact iff_of_true rfl (List.any_eq_true.mp hany)
      · next hany =>
        refine iff_of_false (fun hsame => ?_) (mt List.any_eq_true.mpr hany)
        have hlength := congrArg List.length hsame
        simp only [List.length_append, List.length_singleton] at hlength
        omega
    · intro shown hmem hrole
      obtain ⟨index, hshown⟩ := List.getElem?_of_mem hmem
      rw [hget] at hshown
      obtain ⟨message, hmessage, rfl⟩ := Option.map_eq_some_iff.mp hshown
      have hassistant : message.role = .assistant :=
        (h.alternating.2 index message hmessage).trans ((h.shownAt_role hmessage).symm.trans hrole)
      rw [h.shownAt_reply hmessage hassistant]
      exact (hreply hmessage hassistant).1

/-! ### The prompts of a run -/

theorem reply_of_answering {waiting : List Utterance} (h : Answering cfg times waiting s utterance t) :
    t.reply = none := by
  induction h with
  | here hmay => exact mayRespond_reply hmay
  | later _ _ _ ih => exact ih

theorem shaped_of_comesToAnswer {awaitsDelivery : Bool}
    (h : ComesToAnswer cfg times awaitsDelivery s utterance) : Shaped s ∧ s.reply = none := by
  obtain ⟨before, event, handled, hbefore, hhandled, hanswering⟩ := h
  have hmoves : Moves cfg times (fun _ => True) (fun _ _ => True) before s :=
    (moves_handled hhandled fun _ _ => trivial).trans (moves_answering hanswering fun _ _ _ => trivial)
  exact ⟨(shaped_of_reaches hbefore).moves hmoves, reply_of_answering hanswering⟩

/-- In every run, a prompt shows the history of its dialog exactly where, trailing spaces apart, no uncut
reply is empty, is a single … or ends with two of them. -/
theorem prompt_shows_iff {awaitsDelivery : Bool} (h : ComesToAnswer cfg times awaitsDelivery s utterance)
    (ht : s.respond cfg utterance = some t) {prompt : List ChatMessage} {turn : Nat}
    (hprompt : t.log = s.log ++ [.emitted (.started turn), .emitted (.messages prompt turn language)]) :
    Shows (s.addUtterance utterance.text).messages prompt ↔
      ∀ reply ∈ (s.addUtterance utterance.text).messages,
        reply.role = .assistant → reply.isCut = false → Plain reply.content := by
  obtain ⟨hshaped, hreply⟩ := shaped_of_comesToAnswer h
  rcases respond_cases ht with ⟨-, rfl⟩ | ⟨-, -, language', isShortSwitch, rfl⟩
  · have hshort := congrArg List.length hprompt
    simp [Dialog.emit] at hshort
  · have hparity := hshaped.parity
    rw [hreply, if_neg (by simp)] at hparity
    have hlog := (hshaped.history.addUtterance hparity utterance.text).log
    obtain ⟨hhistory, heven, -, hcut⟩ := hshaped.addUtterance hreply utterance.text
    simp only [hlog, List.append_assoc, List.append_cancel_left_eq] at hprompt
    simp only [List.cons_append, List.nil_append, List.cons.injEq, Moment.emitted.injEq,
      Output.messages.injEq] at hprompt
    obtain ⟨-, ⟨rfl, -, -⟩, -⟩ := hprompt
    exact Promptable.shows_iff ⟨hhistory.alternating, heven, hcut⟩

/-! ### Two prompts -/

theorem comesToAnswer_of_exec (cfg : DialogConfig) (times : Times τ) (awaitsDelivery : Bool)
    (actions : List (Event τ)) (event : Event τ) (check : Dialog τ → Utterance → Dialog τ → Bool)
    (h : ((dialog cfg times awaitsDelivery).exec (.initial cfg times awaitsDelivery) actions).any (fun before =>
      (before.handled cfg times event).any fun handled => handled.mayRespond &&
        handled.waiting.head?.any fun utterance =>
          (handled.respond cfg utterance).any fun t => check handled utterance t) = true) :
    ∃ s utterance t, ComesToAnswer cfg times awaitsDelivery s utterance ∧ s.respond cfg utterance = some t
      ∧ check s utterance t = true := by
  obtain ⟨before, hbefore, h⟩ := (Option.any_eq_true _ _).mp h
  obtain ⟨handled, hhandled, h⟩ := (Option.any_eq_true _ _).mp h
  obtain ⟨hmay, h⟩ := (Bool.and_eq_true _ _).mp h
  obtain ⟨utterance, hutterance, h⟩ := (Option.any_eq_true _ _).mp h
  obtain ⟨t, ht, hcheck⟩ := (Option.any_eq_true _ _).mp h
  obtain ⟨rest, hwaiting⟩ := List.head?_eq_some_iff.mp hutterance
  refine ⟨handled, utterance, t, ⟨before, event, handled, Lib.Machine.path_of_exec hbefore, hhandled, ?_⟩,
    ht, hcheck⟩
  rw [hwaiting]
  exact .here hmay

def secondTurn (reply : Text) : List (Event (Option Nat)) :=
  [.input (.transcript ['h', 'i'] true none), .input (.textDelta (some 1) reply), .input (.turnDone (some 1))]

def secondHistory (reply : Text) : List ChatMessage :=
  [{ role := .system }, { role := .user, content := ['h', 'i'] }, { role := .assistant, content := reply },
    { role := .user, content := ['n', 'o'] }]

/-- The model may end a reply with two …, of which the prompt leaves one. -/
theorem prompt_shows_dots : ∃ s utterance t, ComesToAnswer ⟨[], 100, 10⟩ wholeTimes true s utterance
    ∧ s.respond ⟨[], 100, 10⟩ utterance = some t
    ∧ t.log = s.log ++ [.emitted (.started 2), .emitted (.messages (secondHistory ['k', '…']) 2 none)]
    ∧ (s.addUtterance utterance.text).messages = secondHistory ['k', '…', '…']
    ∧ ¬ Shows (s.addUtterance utterance.text).messages (secondHistory ['k', '…']) := by
  obtain ⟨s, utterance, t, hs, ht, hcheck⟩ := comesToAnswer_of_exec ⟨[], 100, 10⟩ wholeTimes true
    (secondTurn ['k', '…', '…']) (.input (.transcript ['n', 'o'] true none))
    (fun s utterance t => decide (t.log = s.log
        ++ [.emitted (.started 2), .emitted (.messages (secondHistory ['k', '…']) 2 none)]
      ∧ (s.addUtterance utterance.text).messages = secondHistory ['k', '…', '…'])) (by decide +kernel)
  obtain ⟨hlog, hhistory⟩ := of_decide_eq_true hcheck
  refine ⟨s, utterance, t, hs, ht, hlog, hhistory, fun hshows => ?_⟩
  rw [hhistory] at hshows
  cases (hshows.cut 2 _ _ rfl rfl rfl).mp rfl

theorem prompt_shows_iff_plain : ∃ s utterance t, ComesToAnswer ⟨[], 100, 10⟩ wholeTimes true s utterance
    ∧ s.respond ⟨[], 100, 10⟩ utterance = some t
    ∧ Shows (s.addUtterance utterance.text).messages (secondHistory ['k']) := by
  obtain ⟨s, utterance, t, hs, ht, hcheck⟩ := comesToAnswer_of_exec ⟨[], 100, 10⟩ wholeTimes true
    (secondTurn ['k', '…', ' ']) (.input (.transcript ['n', 'o'] true none))
    (fun s utterance t => decide (t.log = s.log
        ++ [.emitted (.started 2), .emitted (.messages (secondHistory ['k']) 2 none)]
      ∧ (s.addUtterance utterance.text).messages = secondHistory ['k', '…', ' '])) (by decide +kernel)
  obtain ⟨hlog, hhistory⟩ := of_decide_eq_true hcheck
  refine ⟨s, utterance, t, hs, ht, (prompt_shows_iff hs ht hlog).mpr ?_⟩
  rw [hhistory]
  decide

end Cascade
