import SglangOmni.Realtime.Emits

/-! The projection of a session's outputs to the events of a realtime session.  The bridge opens a
response where a reply begins and closes it where the turn ends.  Whatever the outputs and their turns
are, the events that it projects keep the lifecycle of every response. -/

namespace Realtime

open Lib OutputEvent

structure Pcm16 where
  bytes : List UInt8
  whole : bytes.length % 2 = 0

/-- The controls that a session emits, with the data that the bridge reads. -/
inductive SessionControl
  | speechStarted (tMs : ℚ)
  | speechStopped (tMs : ℚ)
  | turnQueued
  | turnStarted
  | turnDone (isTruncated : Bool)
  | turnEmpty
  | turnInterrupted
  | configured
  | replyProgress (textEnd : Int) (audioMs : ℚ)
  | replyHeard (textEnd : Int)

/-- The outputs that the bridge projects, the audio as its decoder returns it. -/
inductive SessionOutput
  | transcript (text : String) (isFinal : Bool)
  | textDelta (turn : Option Int) (text : String)
  | audio (turn : Option Int) (pcm : Pcm16)
  | control (turn : Option Int) (control : SessionControl)

/-- The part of `SessionBridge` that its projections use. -/
structure Bridge where
  userCount : Nat := 0
  userItemId : Option String := none
  isUserItemOpen : Bool := false
  turnCount : Nat := 0
  responseId : Option String := none
  responseItemId : String := ""
  responseTurn : Option Int := none
  endedResponse : Option (Option Int × String × String) := none
  responseText : String := ""
  hasAudio : Bool := false

def responseName (n : Nat) : String := "resp_" ++ n.repr

def itemName (n : Nat) : String := "item_" ++ n.repr

namespace Bridge

variable (s : Bridge)

def newUserItem : Bridge × String :=
  let itemId := "item_user_" ++ s.userCount.repr
  ({ s with userItemId := some itemId, userCount := s.userCount + 1, isUserItemOpen := true }, itemId)

def startResponse (turn : Option Int) : Bridge × List OutputEvent :=
  if s.responseId.isSome then (s, [])
  else
    ({ s with
        responseId := some (responseName s.turnCount)
        responseTurn := turn
        responseItemId := itemName s.turnCount
        turnCount := s.turnCount + 1
        responseText := ""
        hasAudio := false },
      [.responseStarted (responseName s.turnCount)])

def currentId : String := s.responseId.getD ""

def onTranscript (text : String) (isFinal : Bool) : Bridge × List OutputEvent :=
  let (s, itemId) :=
    match s.userItemId with
    | some itemId => if s.isUserItemOpen then (s, itemId) else s.newUserItem
    | none => s.newUserItem
  ({ s with isUserItemOpen := !isFinal }, [.inputTranscription itemId text isFinal])

def onTextDelta (turn : Option Int) (text : String) : Bridge × List OutputEvent :=
  let (s, events) := s.startResponse turn
  let s := { s with responseText := s.responseText ++ text }
  (s, events ++ [.textDelta s.currentId s.responseItemId text])

def onAudio (turn : Option Int) (pcm : Pcm16) : Bridge × List OutputEvent :=
  let (s, events) := s.startResponse turn
  let s := { s with hasAudio := true }
  (s, events ++ [.audioDelta s.currentId s.responseItemId pcm.bytes])

def onProgress (turn : Option Int) (textEnd : Int) (audioMs : ℚ) : List OutputEvent :=
  match s.responseId with
  | some id =>
    if turn = s.responseTurn then [.responseProgress id s.responseItemId textEnd audioMs] else []
  | none => []

def onHeard (turn : Option Int) (textEnd : Int) : List OutputEvent :=
  match s.endedResponse with
  | some (endedTurn, id, item) => if turn = endedTurn then [.responseHeard id item textEnd] else []
  | none => []

def onSpeechStopped (tMs : ℚ) : Bridge × List OutputEvent :=
  match s.userItemId with
  | some itemId => (s, [.speechStopped itemId tMs])
  | none =>
    let (s, itemId) := s.newUserItem
    (s, [.speechStopped itemId tMs])

def finishResponse (status : ResponseStatus) (reason : String) (turn : Option Int) :
    Bridge × List OutputEvent :=
  let (s, events) := s.startResponse turn
  ({ s with
      endedResponse := some (s.responseTurn, s.currentId, s.responseItemId)
      responseId := none },
    events ++ [.textFinished s.currentId s.responseItemId s.responseText] ++
      (if s.hasAudio then [.audioFinished s.currentId s.responseItemId] else []) ++
      [.responseFinished s.currentId s.responseItemId s.responseText s.hasAudio status reason])

def onTurnEmpty (turn : Option Int) : Bridge × List OutputEvent :=
  let (s, events) := s.startResponse turn
  ({ s with responseId := none },
    events ++ [.responseFinished s.currentId s.responseItemId "" false .completed "empty_turn"])

def onControl (turn : Option Int) : SessionControl → Bridge × List OutputEvent
  | .speechStarted tMs =>
    let (s, itemId) := s.newUserItem
    (s, [.speechStarted itemId tMs])
  | .speechStopped tMs => s.onSpeechStopped tMs
  | .turnQueued => (s, [])
  | .turnStarted => { s with endedResponse := none }.startResponse turn
  | .turnDone isTruncated =>
    if isTruncated then s.finishResponse .incomplete "max_output_tokens" turn
    else s.finishResponse .completed "stop" turn
  | .turnEmpty => s.onTurnEmpty turn
  | .turnInterrupted => s.finishResponse .cancelled "interrupted" turn
  | .configured => (s, [])
  | .replyProgress textEnd audioMs => (s, s.onProgress turn textEnd audioMs)
  | .replyHeard textEnd => (s, s.onHeard turn textEnd)

def project : SessionOutput → Bridge × List OutputEvent
  | .transcript text isFinal => s.onTranscript text isFinal
  | .textDelta turn text => s.onTextDelta turn text
  | .audio turn pcm => s.onAudio turn pcm
  | .control turn control => s.onControl turn control

end Bridge

def projectAll : Bridge → List SessionOutput → List OutputEvent
  | _, [] => []
  | s, output :: rest => (s.project output).2 ++ projectAll (s.project output).1 rest

variable {s : Bridge} {l : List OutputEvent}

/-! ### What the bridge knows of its events -/

/-- What is known of the events so far and of the response under way. -/
structure BridgeKept (s : Bridge) (l : List OutputEvent) : Prop where
  legal : Along Legal l
  ids : ∀ e ∈ l, ∀ id, e.responseId? = some id → ∃ k < s.turnCount, id = responseName k
  items : ∀ e ∈ l, ∀ id item, e.labels? = some (id, item) →
    ∃ k, id = responseName k ∧ item = itemName k
  current : ∀ id, s.responseId = some id → ∃ k < s.turnCount, id = responseName k ∧
    s.responseItemId = itemName k ∧ .responseStarted id ∈ l ∧ ∀ e ∈ l, e.finishes? ≠ some id
  ended : ∀ turn id item, s.endedResponse = some (turn, id, item) →
    .responseStarted id ∈ l ∧ ∃ k, id = responseName k ∧ item = itemName k

theorem responseName_inj {k n : Nat} (h : responseName k = responseName n) : k = n := by
  have hrepr : k.repr = n.repr := (String.append_right_inj _).mp h
  have hdigits : Nat.toDigits 10 k = Nat.toDigits 10 n := by
    rw [← Nat.toList_repr, ← Nat.toList_repr, hrepr]
  have hvalue := congrArg (fun digits => Nat.ofDigitChars 10 digits 0) hdigits
  rw [Nat.ofDigitChars_toDigits (by decide) (by decide),
    Nat.ofDigitChars_toDigits (by decide) (by decide)] at hvalue
  exact hvalue

theorem BridgeKept.frame {s' : Bridge} (h : BridgeKept s l) (hcount : s'.turnCount = s.turnCount)
    (hid : s'.responseId = s.responseId) (hitem : s'.responseItemId = s.responseItemId)
    (hended : s'.endedResponse = s.endedResponse ∨ s'.endedResponse = none) : BridgeKept s' l := by
  refine ⟨h.legal, ?_, h.items, ?_, fun turn id item he => ?_⟩
  · rw [hcount]
    exact h.ids
  · rw [hcount, hid, hitem]
    exact h.current
  · rcases hended with hsame | hnone
    · exact h.ended turn id item (hsame.symm.trans he)
    · cases hnone.symm.trans he

theorem BridgeKept.itemOf (h : BridgeKept s l) {k : Nat} {e : OutputEvent} (he : e ∈ l)
    {item : String} (hlabels : e.labels? = some (responseName k, item)) : item = itemName k := by
  obtain ⟨n, hid, hitem⟩ := h.items e he _ _ hlabels
  rw [responseName_inj hid]
  exact hitem

theorem BridgeKept.extend {s' : Bridge} {e : OutputEvent} (h : BridgeKept s l) (hlegal : Legal l e)
    (hcount : s.turnCount ≤ s'.turnCount)
    (hid : ∀ id, e.responseId? = some id → ∃ k < s'.turnCount, id = responseName k)
    (hlabels : ∀ id item, e.labels? = some (id, item) → ∃ k, id = responseName k ∧ item = itemName k)
    (hcurrent : ∀ id, s'.responseId = some id → ∃ k < s'.turnCount, id = responseName k ∧
      s'.responseItemId = itemName k ∧ OutputEvent.responseStarted id ∈ l ++ [e] ∧
        ∀ e' ∈ l ++ [e], e'.finishes? ≠ some id)
    (hended : ∀ turn id item, s'.endedResponse = some (turn, id, item) →
      OutputEvent.responseStarted id ∈ l ++ [e] ∧ ∃ k, id = responseName k ∧ item = itemName k) :
    BridgeKept s' (l ++ [e]) := by
  refine ⟨h.legal.concat hlegal, fun e' he' id hid' => ?_, fun e' he' id item hl => ?_, hcurrent, hended⟩
  · rcases List.mem_append.mp he' with he' | he'
    · obtain ⟨k, hk, hname⟩ := h.ids e' he' id hid'
      exact ⟨k, hk.trans_le hcount, hname⟩
    · rw [List.mem_singleton.mp he'] at hid'
      exact hid id hid'
  · rcases List.mem_append.mp he' with he' | he'
    · exact h.items e' he' id item hl
    · rw [List.mem_singleton.mp he'] at hl
      exact hlabels id item hl

theorem BridgeKept.goesOn {e : OutputEvent} (h : BridgeKept s l) (hfinishes : e.finishes? = none)
    (id : String) (hid : s.responseId = some id) :
    ∃ k < s.turnCount, id = responseName k ∧ s.responseItemId = itemName k ∧
      OutputEvent.responseStarted id ∈ l ++ [e] ∧ ∀ e' ∈ l ++ [e], e'.finishes? ≠ some id := by
  obtain ⟨k, hk, hname, hitem, hstarted, hopen⟩ := h.current id hid
  refine ⟨k, hk, hname, hitem, List.mem_append_left _ hstarted, fun e' he' => ?_⟩
  rcases List.mem_append.mp he' with he' | he'
  · exact hopen e' he'
  · rw [List.mem_singleton.mp he', hfinishes]
    exact fun hf => by cases hf

theorem BridgeKept.staysEnded {e : OutputEvent} (h : BridgeKept s l) (turn : Option Int)
    (id item : String) (he : s.endedResponse = some (turn, id, item)) :
    OutputEvent.responseStarted id ∈ l ++ [e] ∧ ∃ k, id = responseName k ∧ item = itemName k := by
  obtain ⟨hstarted, hname⟩ := h.ended turn id item he
  exact ⟨List.mem_append_left _ hstarted, hname⟩

theorem BridgeKept.other {e : OutputEvent} (h : BridgeKept s l) (hnone : e.responseId? = none)
    (hlabels : e.labels? = none) (hfinishes : e.finishes? = none) : BridgeKept s (l ++ [e]) := by
  refine h.extend (.other hnone) (Nat.le_refl _) (fun id hid => ?_) (fun id item hl => ?_)
    (h.goesOn hfinishes) h.staysEnded
  · cases hnone.symm.trans hid
  · cases hlabels.symm.trans hl

theorem BridgeKept.part_legal {e : OutputEvent} {id : String} (h : BridgeKept s l)
    (hid : s.responseId = some id) (hpart : e.part? = some (id, s.responseItemId))
    (hwhole : e.isWhole = true) : Legal l e := by
  obtain ⟨k, -, rfl, hitem, hstarted, hopen⟩ := h.current id hid
  refine .part hpart hstarted hopen (fun e' he' item' hl => ?_) hwhole
  rw [h.itemOf he' hl, hitem]

theorem BridgeKept.part_names {e : OutputEvent} {id : String} (h : BridgeKept s l)
    (hid : s.responseId = some id) (hpart : e.part? = some (id, s.responseItemId)) :
    (∀ id', e.responseId? = some id' → ∃ k < s.turnCount, id' = responseName k) ∧
      ∀ id' item, e.labels? = some (id', item) → ∃ k, id' = responseName k ∧ item = itemName k := by
  obtain ⟨hresponse, hlabels, -⟩ := part_responseId hpart
  obtain ⟨k, hk, hname, hitem, -, -⟩ := h.current id hid
  refine ⟨fun id' hid' => ?_, fun id' item hl => ?_⟩
  · cases hresponse.symm.trans hid'
    exact ⟨k, hk, hname⟩
  · cases hlabels.symm.trans hl
    exact ⟨k, hname, hitem⟩

theorem BridgeKept.part {e : OutputEvent} {id : String} (h : BridgeKept s l)
    (hid : s.responseId = some id) (hpart : e.part? = some (id, s.responseItemId))
    (hwhole : e.isWhole = true) (hfinishes : e.finishes? = none) : BridgeKept s (l ++ [e]) := by
  obtain ⟨hids, hlabels⟩ := h.part_names hid hpart
  exact h.extend (h.part_legal hid hpart hwhole) (Nat.le_refl _) hids hlabels (h.goesOn hfinishes)
    h.staysEnded

theorem BridgeKept.finish {s' : Bridge} {e : OutputEvent} {id : String} (h : BridgeKept s l)
    (hid : s.responseId = some id) (hpart : e.part? = some (id, s.responseItemId))
    (hwhole : e.isWhole = true) (hcount : s'.turnCount = s.turnCount) (hnone : s'.responseId = none)
    (hended : s'.endedResponse = s.endedResponse ∨
      s'.endedResponse = some (s.responseTurn, id, s.responseItemId)) :
    BridgeKept s' (l ++ [e]) := by
  obtain ⟨hids, hlabels⟩ := h.part_names hid hpart
  refine h.extend (h.part_legal hid hpart hwhole) hcount.ge ?_ hlabels (fun id' hid' => ?_)
    fun turn id' item he => ?_
  · rw [hcount]
    exact hids
  · cases hnone.symm.trans hid'
  · rcases hended with hsame | hnew
    · exact h.staysEnded turn id' item (hsame.symm.trans he)
    · cases hnew.symm.trans he
      obtain ⟨k, -, hname, hitem, hstarted, -⟩ := h.current id hid
      exact ⟨List.mem_append_left _ hstarted, k, hname, hitem⟩

/-! ### Projections -/

theorem BridgeKept.startResponse (h : BridgeKept s l) (turn : Option Int) :
    BridgeKept (s.startResponse turn).1 (l ++ (s.startResponse turn).2) ∧
      (s.startResponse turn).1.responseId = some (s.startResponse turn).1.currentId := by
  by_cases hsome : s.responseId.isSome = true
  · obtain ⟨id, hid⟩ := Option.isSome_iff_exists.mp hsome
    have hstart : s.startResponse turn = (s, []) := if_pos hsome
    rw [hstart, List.append_nil]
    refine ⟨h, ?_⟩
    simp only [Bridge.currentId, hid, Option.getD_some]
  · have hstart : s.startResponse turn = ({ s with
        responseId := some (responseName s.turnCount)
        responseTurn := turn
        responseItemId := itemName s.turnCount
        turnCount := s.turnCount + 1
        responseText := ""
        hasAudio := false }, [.responseStarted (responseName s.turnCount)]) := if_neg hsome
    have hnew : ∀ e ∈ l, e.responseId? ≠ some (responseName s.turnCount) := by
      intro e he hid
      obtain ⟨k, hk, hname⟩ := h.ids e he _ hid
      rw [responseName_inj hname] at hk
      exact Nat.lt_irrefl _ hk
    rw [hstart]
    refine ⟨h.extend (.started hnew) (Nat.le_succ _) (fun id hid => ?_) (fun id item hl => ?_)
      (fun id hid => ?_) h.staysEnded, rfl⟩
    · cases hid
      exact ⟨s.turnCount, Nat.lt_succ_self _, rfl⟩
    · cases hl
    · cases hid
      refine ⟨s.turnCount, Nat.lt_succ_self _, rfl, rfl,
        List.mem_append_right _ (List.mem_singleton.mpr rfl), fun e' he' hf => ?_⟩
      rcases List.mem_append.mp he' with he' | he'
      · refine hnew e' he' ?_
        cases e' <;> first | exact hf | cases hf
      · rw [List.mem_singleton.mp he'] at hf
        cases hf

theorem BridgeKept.finishResponse (h : BridgeKept s l) (status : ResponseStatus) (reason : String)
    (turn : Option Int) : BridgeKept (s.finishResponse status reason turn).1
      (l ++ (s.finishResponse status reason turn).2) := by
  obtain ⟨hstart, hid⟩ := h.startResponse turn
  generalize hs : (s.startResponse turn).1 = s₁ at hstart hid
  have htext : BridgeKept s₁ ((l ++ (s.startResponse turn).2) ++
      [OutputEvent.textFinished s₁.currentId s₁.responseItemId s₁.responseText]) := hstart.part hid rfl rfl rfl
  have haudio : BridgeKept s₁ (((l ++ (s.startResponse turn).2) ++
      [OutputEvent.textFinished s₁.currentId s₁.responseItemId s₁.responseText]) ++
      if s₁.hasAudio then [.audioFinished s₁.currentId s₁.responseItemId] else []) := by
    split
    · exact htext.part hid rfl rfl rfl
    · rw [List.append_nil]
      exact htext
  have hfinish : BridgeKept { s₁ with
      endedResponse := some (s₁.responseTurn, s₁.currentId, s₁.responseItemId), responseId := none }
      (_ ++ [OutputEvent.responseFinished s₁.currentId s₁.responseItemId s₁.responseText s₁.hasAudio status
        reason]) := haudio.finish hid rfl rfl rfl rfl (.inr rfl)
  have heq : s.finishResponse status reason turn = ({ s₁ with
      endedResponse := some (s₁.responseTurn, s₁.currentId, s₁.responseItemId), responseId := none },
      (s.startResponse turn).2 ++ [OutputEvent.textFinished s₁.currentId s₁.responseItemId s₁.responseText] ++
      (if s₁.hasAudio then [.audioFinished s₁.currentId s₁.responseItemId] else []) ++
      [.responseFinished s₁.currentId s₁.responseItemId s₁.responseText s₁.hasAudio status reason]) := by
    rw [← hs]
    rfl
  rw [heq, ← List.append_assoc, ← List.append_assoc, ← List.append_assoc]
  exact hfinish

theorem BridgeKept.onTurnEmpty (h : BridgeKept s l) (turn : Option Int) :
    BridgeKept (s.onTurnEmpty turn).1 (l ++ (s.onTurnEmpty turn).2) := by
  obtain ⟨hstart, hid⟩ := h.startResponse turn
  have hfinish : BridgeKept { (s.startResponse turn).1 with responseId := none }
      (_ ++ [OutputEvent.responseFinished (s.startResponse turn).1.currentId
        (s.startResponse turn).1.responseItemId "" false .completed "empty_turn"]) :=
    hstart.finish hid rfl rfl rfl rfl (.inl rfl)
  rw [List.append_assoc] at hfinish
  exact hfinish

theorem BridgeKept.onTextDelta (h : BridgeKept s l) (turn : Option Int) (text : String) :
    BridgeKept (s.onTextDelta turn text).1 (l ++ (s.onTextDelta turn text).2) := by
  obtain ⟨hstart, hid⟩ := h.startResponse turn
  have hpart : BridgeKept (s.startResponse turn).1 (_ ++ [OutputEvent.textDelta
      (s.startResponse turn).1.currentId (s.startResponse turn).1.responseItemId text]) :=
    hstart.part hid rfl rfl rfl
  rw [List.append_assoc] at hpart
  exact hpart.frame rfl rfl rfl (.inl rfl)

theorem BridgeKept.onAudio (h : BridgeKept s l) (turn : Option Int) (pcm : Pcm16) :
    BridgeKept (s.onAudio turn pcm).1 (l ++ (s.onAudio turn pcm).2) := by
  obtain ⟨hstart, hid⟩ := h.startResponse turn
  have hpart : BridgeKept (s.startResponse turn).1 (_ ++ [OutputEvent.audioDelta
      (s.startResponse turn).1.currentId (s.startResponse turn).1.responseItemId pcm.bytes]) :=
    hstart.part hid rfl (decide_eq_true pcm.whole) rfl
  rw [List.append_assoc] at hpart
  exact hpart.frame rfl rfl rfl (.inl rfl)

theorem BridgeKept.onProgress (h : BridgeKept s l) (turn : Option Int) (textEnd : Int) (audioMs : ℚ) :
    BridgeKept s (l ++ s.onProgress turn textEnd audioMs) := by
  unfold Bridge.onProgress
  split
  · next id hid =>
    split
    · exact h.part hid rfl rfl rfl
    · rw [List.append_nil]
      exact h
  · rw [List.append_nil]
    exact h

theorem BridgeKept.onHeard (h : BridgeKept s l) (turn : Option Int) (textEnd : Int) :
    BridgeKept s (l ++ s.onHeard turn textEnd) := by
  unfold Bridge.onHeard
  split
  · next endedTurn id item hended =>
    split
    · obtain ⟨hstarted, k, hname, hitem⟩ := h.ended endedTurn id item hended
      have hlegal : Legal l (.responseHeard id item textEnd) := by
        refine .heard hstarted fun e' he' item' hl => ?_
        rw [hname] at hl
        rw [h.itemOf he' hl, hitem]
      refine h.extend hlegal (Nat.le_refl _) (fun id' hid => ?_) (fun id' item' hl => ?_)
        (h.goesOn rfl) h.staysEnded
      · cases hid
        exact h.ids _ hstarted _ rfl
      · cases hl
        exact ⟨k, hname, hitem⟩
    · rw [List.append_nil]
      exact h
  · rw [List.append_nil]
    exact h

theorem BridgeKept.onTranscript (h : BridgeKept s l) (text : String) (isFinal : Bool) :
    BridgeKept (s.onTranscript text isFinal).1 (l ++ (s.onTranscript text isFinal).2) := by
  have hnew : BridgeKept s.newUserItem.1 l := h.frame rfl rfl rfl (.inl rfl)
  have hitem : ∀ (s' : Bridge) (itemId : String), BridgeKept s' l → BridgeKept
      { s' with isUserItemOpen := !isFinal } (l ++ [OutputEvent.inputTranscription itemId text isFinal]) := by
    intro s' itemId hs'
    exact BridgeKept.other (hs'.frame rfl rfl rfl (.inl rfl)) rfl rfl rfl
  unfold Bridge.onTranscript
  cases s.userItemId with
  | none => exact hitem _ _ hnew
  | some itemId =>
    cases s.isUserItemOpen with
    | true => exact hitem _ _ h
    | false => exact hitem _ _ hnew

theorem BridgeKept.onSpeechStopped (h : BridgeKept s l) (tMs : ℚ) :
    BridgeKept (s.onSpeechStopped tMs).1 (l ++ (s.onSpeechStopped tMs).2) := by
  have hnew : BridgeKept s.newUserItem.1 l := h.frame rfl rfl rfl (.inl rfl)
  unfold Bridge.onSpeechStopped
  split
  · exact h.other rfl rfl rfl
  · exact hnew.other rfl rfl rfl

theorem BridgeKept.onControl (h : BridgeKept s l) (turn : Option Int) (control : SessionControl) :
    BridgeKept (s.onControl turn control).1 (l ++ (s.onControl turn control).2) := by
  cases control with
  | speechStarted tMs =>
    have hnew : BridgeKept s.newUserItem.1 l := h.frame rfl rfl rfl (.inl rfl)
    exact hnew.other rfl rfl rfl
  | speechStopped tMs => exact h.onSpeechStopped tMs
  | turnQueued =>
    rw [Bridge.onControl, List.append_nil]
    exact h
  | turnStarted =>
    have hopen : BridgeKept { s with endedResponse := none } l := h.frame rfl rfl rfl (.inr rfl)
    exact (hopen.startResponse turn).1
  | turnDone isTruncated =>
    unfold Bridge.onControl
    simp only
    split
    · exact h.finishResponse _ _ turn
    · exact h.finishResponse _ _ turn
  | turnEmpty => exact h.onTurnEmpty turn
  | turnInterrupted => exact h.finishResponse _ _ turn
  | configured =>
    rw [Bridge.onControl, List.append_nil]
    exact h
  | replyProgress textEnd audioMs => exact h.onProgress turn textEnd audioMs
  | replyHeard textEnd => exact h.onHeard turn textEnd

theorem BridgeKept.project (h : BridgeKept s l) (output : SessionOutput) :
    BridgeKept (s.project output).1 (l ++ (s.project output).2) := by
  cases output with
  | transcript text isFinal => exact h.onTranscript text isFinal
  | textDelta turn text => exact h.onTextDelta turn text
  | audio turn pcm => exact h.onAudio turn pcm
  | control turn control => exact h.onControl turn control

theorem BridgeKept.projectAll (h : BridgeKept s l) (outputs : List SessionOutput) :
    Along Legal (l ++ projectAll s outputs) := by
  induction outputs generalizing s l with
  | nil =>
    rw [Realtime.projectAll, List.append_nil]
    exact h.legal
  | cons output rest ih =>
    rw [Realtime.projectAll, ← List.append_assoc]
    exact ih (h.project output)

theorem bridgeKept_empty : BridgeKept {} [] := by
  refine ⟨Along.nil, fun e he => ?_, fun e he => ?_, fun id hid => ?_, fun turn id item he => ?_⟩
  · cases he
  · cases he
  · cases hid
  · cases he

/-- Whatever a session outputs, emitting the projected events into a buffer with room for them never
raises; the events keep the lifecycle of every response, where only what was heard of a response is
reported after its end. -/
theorem projection_never_raises (outputs : List SessionOutput) (modalities : List Modality)
    (limits : OutputLimits)
    (hbytes : ((projectAll {} outputs).map OutputEvent.bytes).sum ≤ limits.maxOutputBytes)
    (hchars : ((projectAll {} outputs).map chars).sum ≤ limits.maxHistoryChars) :
    (({} : OutputBuffer).emitAll limits modalities (projectAll {} outputs)).2 = none ∧
      Along Legal (projectAll {} outputs) := by
  have hlegal : Along Legal (projectAll {} outputs) := bridgeKept_empty.projectAll outputs
  exact ⟨emitAll_legal (emitKept_empty modalities) hlegal hbytes hchars, hlegal⟩

def heardTurn : List SessionOutput :=
  [.control (some 1) .turnStarted, .textDelta (some 1) "hi", .audio (some 1) ⟨[0, 0], rfl⟩,
    .control (some 1) (.turnDone false), .control (some 1) (.replyHeard 2)]

theorem projection_never_raises_heard :
    (({} : OutputBuffer).emitAll { maxOutputBytes := 4096, maxHistoryChars := 64 } [.text, .audio]
      (projectAll {} heardTurn)).2 = none ∧ Along Legal (projectAll {} heardTurn) :=
  projection_never_raises heardTurn [.text, .audio] { maxOutputBytes := 4096, maxHistoryChars := 64 }
    (by decide +kernel) (by decide +kernel)

/-- The report of what was heard follows the end of its response. -/
theorem heard_follows_finish : ¬ ∀ outputs, Along (fun before e => ∀ id, e.responseId? = some id →
    ∀ e' ∈ before, e'.finishes? ≠ some id) (projectAll {} outputs) := by
  intro hnone
  have hevents : projectAll {} heardTurn =
      [OutputEvent.responseStarted "resp_0", .textDelta "resp_0" "item_0" "hi",
        .audioDelta "resp_0" "item_0" [0, 0], .textFinished "resp_0" "item_0" "hi",
        .audioFinished "resp_0" "item_0",
        .responseFinished "resp_0" "item_0" "hi" true .completed "stop"] ++
        [OutputEvent.responseHeard "resp_0" "item_0" 2] := by
    decide +kernel
  exact hnone heardTurn _ _ [] hevents "resp_0" rfl _
    (List.mem_cons_of_mem _ (List.mem_cons_of_mem _ (List.mem_cons_of_mem _
      (List.mem_cons_of_mem _ (List.mem_cons_of_mem _ List.mem_cons_self))))) rfl

end Realtime
