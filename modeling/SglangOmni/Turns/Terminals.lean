import Mathlib.Tactic.Cases
import SglangOmni.Lib.Lists
import SglangOmni.Turns.Response

/-! What the client sees of the responses of a session: each is created, gets its text done and its own
done once, is cancelled exactly when a cancel came before its claim, and sends no delta after a cancel.
This holds of the runs in which no cancel lands between the socket's taking of a `response.text.done` in
the stream and the return of that send: there the flag `text_done` is not yet set. -/

namespace Turns

open Lib

variable {s s' : Session} {r : Response} {n : Nat} {log : List Entry} {e : Event}

/-! ### The events of one response -/

def Entry.event? : Entry → Option Event
  | .sent event => some event
  | _ => none

def sentOf (n : Nat) (log : List Entry) : List Event :=
  (log.filterMap Entry.event?).filter fun e => e.response = n

@[simp] theorem sentOf_nil : sentOf n [] = [] := rfl

theorem sentOf_append (n : Nat) (log rest : List Entry) :
    sentOf n (log ++ rest) = sentOf n log ++ sentOf n rest := by
  rw [sentOf, List.filterMap_append, List.filter_append]
  rfl

theorem sentOf_sent (n : Nat) (log : List Entry) (e : Event) :
    sentOf n (log ++ [Entry.sent e]) = sentOf n log ++ if e.response = n then [e] else [] := by
  rw [sentOf_append]
  congr 1
  by_cases h : e.response = n <;> simp [sentOf, Entry.event?, h]

@[simp] theorem sentOf_claim (n m : Nat) (log : List Entry) :
    sentOf n (log ++ [Entry.claim m]) = sentOf n log := by
  rw [sentOf_append]
  exact List.append_nil _

theorem sentOf_cancels (n : Nat) (log : List Entry) (o : Option Response) :
    sentOf n (log ++ (o.map fun r => Entry.cancel r.id).toList) = sentOf n log := by
  rw [sentOf_append]
  cases o <;> exact List.append_nil _

/-- The events of a response that is created, with `texts` and `dones` of the two last kinds. -/
def Opened (n texts dones : Nat) (events : List Event) : Prop :=
  ∃ rest, events = .created n :: rest ∧ rest.countP Event.isTextDone = texts ∧
    rest.countP Event.isResponseDone = dones ∧ ∀ e ∈ rest, e.isCreated = false

theorem Opened.concat {texts dones : Nat} {events : List Event} (h : Opened n texts dones events)
    (hc : e.isCreated = false) :
    Opened n (texts + if e.isTextDone then 1 else 0) (dones + if e.isResponseDone then 1 else 0)
      (events ++ [e]) := by
  obtain ⟨rest, rfl, rfl, rfl, hrest⟩ := h
  refine ⟨rest ++ [e], rfl, ?_, ?_, ?_⟩
  · rw [List.countP_append, List.countP_singleton]
  · rw [List.countP_append, List.countP_singleton]
  · intro e' he'
    rcases List.mem_append.mp he' with he' | he'
    · exact hrest e' he'
    · rw [List.mem_singleton.mp he']
      exact hc

theorem Opened.mem {texts dones : Nat} (h : Opened n texts dones (sentOf n log)) :
    Entry.sent (.created n) ∈ log := by
  obtain ⟨rest, heq, -⟩ := h
  have hmem : Event.created n ∈ sentOf n log := by
    rw [heq]
    exact List.mem_cons_self
  obtain ⟨entry, hentry, he⟩ := List.mem_filterMap.mp (List.mem_filter.mp hmem).1
  cases entry with
  | sent event =>
    cases he
    exact hentry
  | cancel m => cases he
  | claim m => cases he

/-! ### What the history has to be -/

def Legal (before : List Entry) : Entry → Prop
  | .sent e =>
    (e.isCreated = false → .sent (.created e.response) ∈ before) ∧
    (e.isDelta = true → .cancel e.response ∉ before) ∧
    (∀ n text includeAudio status reason, e = .responseDone n text includeAudio status reason →
      .claim n ∈ before ∧ (status = .cancelled ↔ .cancel n ∈ before))
  | .cancel n => .claim n ∉ before
  | .claim n => .claim n ∉ before

/-- The steps that a turn takes by itself, with an engine that stops. -/
def winding (_ : Session) : Action → Prop
  | .begins | .write | .returns | .streamEnds | .throw | .resumes | .turnEnds => True
  | _ => False

structure ResponsesKept (s : Session) : Prop where
  /-- A response that is over was created and got one `response.text.done` and one `response.done`. -/
  past : ∀ n < s.next, s.phase.runningId ≠ some n → Opened n 1 1 (sentOf n s.log)
  /-- No response gets a second one. -/
  once : ∀ n, (sentOf n s.log).countP Event.isTextDone ≤ 1 ∧
    (sentOf n s.log).countP Event.isResponseDone ≤ 1
  /-- Each event of a response follows its creation, no delta follows a cancel, a response is cancelled
  exactly when a cancel came before its claim. -/
  order : Along Legal s.log
  /-- A turn begins with nothing left of the cancels before it. -/
  fresh : s.phase = .idle → s = { next := s.next, log := s.log }
  /-- The turn can always come to its end. -/
  finishes : ∃ s', session.Path winding s s' ∧ s'.phase = .idle

/-- No cancel lands while a `response.text.done` of the stream is on the wire and its send has not
returned. -/
def doneReturned (s : Session) : Action → Prop
  | .cancel _ => ∀ r, s.phase ≠ .sending r .textDone true
  | _ => True

/-! ### The invariant -/

structure Clear (s : Session) : Prop where
  active : s.activeResponse = none
  cancelled : s.cancelledResponse = none
  reason : s.cancelledReason = none
  finalized : s.finalizedResponse = none
  start : s.responseStartPending = false
  pending : s.pendingCancelReason = none
  interrupted : s.isInterrupted = false

/-- A response before the lock that follows its `response.created`. -/
structure Starting (s : Session) (r : Response) : Prop where
  cancelled : s.cancelledResponse = none
  reason : s.cancelledReason = none
  finalized : s.finalizedResponse = none
  turnReason : s.responseCancelReason = none
  start : s.responseStartPending = true
  pending : s.pendingCancelReason.isSome ↔ .cancel r.id ∈ s.log
  interrupted : s.isInterrupted = false
  claim : .claim r.id ∉ s.log
  textDone : r.textDone = false

structure Streaming (s : Session) (r : Response) (texts : Nat) : Prop where
  active : s.activeResponse = some r.id
  finalized : s.finalizedResponse = none
  start : s.responseStartPending = false
  pending : s.pendingCancelReason = none
  claim : .claim r.id ∉ s.log
  cancelled : s.cancelledResponse = some r.id ∨
    (s.cancelledResponse = none ∧ s.cancelledReason = none ∧ s.isInterrupted = false)
  marked : s.cancelledResponse = some r.id ↔ .cancel r.id ∈ s.log
  opened : Opened r.id texts 0 (sentOf r.id s.log)

/-- A response whose terminal is claimed, with the events that are still to be sent. -/
structure Closing (s : Session) (r : Response) (events : List Event) : Prop where
  active : s.activeResponse = some r.id
  finalized : s.finalizedResponse = some r.id
  start : s.responseStartPending = false
  pending : s.pendingCancelReason = none
  interrupted : s.isInterrupted = false
  claim : .claim r.id ∈ s.log
  cancelled : s.cancelledResponse = some r.id ∨
    (s.cancelledResponse = none ∧ s.cancelledReason = none)
  own : ∀ e ∈ events, e.response = r.id ∧ e.isCreated = false ∧ e.isDelta = false
  status : ∀ n text includeAudio status reason,
    .responseDone n text includeAudio status reason ∈ events →
      (status = .cancelled ↔ .cancel r.id ∈ s.log)
  opened : ∃ texts dones, Opened r.id texts dones (sentOf r.id s.log) ∧
    texts + events.countP Event.isTextDone = 1 ∧ dones + events.countP Event.isResponseDone = 1

def PhaseKept (s : Session) : Phase → Prop
  | .idle | .transcribing => Clear s ∧ s.responseCancelReason = none
  | .ended _ => Clear s
  | .starting r => Starting s r ∧ s.activeResponse = none ∧ sentOf r.id s.log = []
  | .sending r .created isWritten =>
    Starting s r ∧ s.activeResponse = some r.id ∧
      sentOf r.id s.log = if isWritten then [.created r.id] else []
  | .sending r .textDone isWritten =>
    Streaming s r isWritten.toNat ∧ r.textDone = false ∧
      (s.cancelledResponse = some r.id → s.isInterrupted = true) ∧
      (isWritten = true → s.isInterrupted = false)
  | .sending r _ _ =>
    Streaming s r r.textDone.toNat ∧ (s.cancelledResponse = some r.id → s.isInterrupted = true)
  | .streaming r => Streaming s r r.textDone.toNat
  | .terminals r events _ => Closing s r events

structure Kept (s : Session) : Prop where
  phase : PhaseKept s s.phase
  last : ∀ n, s.phase.runningId = some n → n + 1 = s.next
  past : ∀ n < s.next, s.phase.runningId ≠ some n → Opened n 1 1 (sentOf n s.log)
  future : ∀ n, s.next ≤ n → sentOf n s.log = [] ∧ .cancel n ∉ s.log ∧ .claim n ∉ s.log
  order : Along Legal s.log

theorem kept_init : Kept {} := by
  refine ⟨⟨⟨rfl, rfl, rfl, rfl, rfl, rfl, rfl⟩, rfl⟩, fun n h => ?_, fun n h => ?_, fun n _ => ?_, Along.nil⟩
  · cases h
  · exact absurd h (Nat.not_lt_zero n)
  · exact ⟨rfl, List.not_mem_nil, List.not_mem_nil⟩

theorem Kept.sameLog (h : Kept s) (hlog : s'.log = s.log) (hnext : s'.next = s.next)
    (hid : s'.phase.runningId = s.phase.runningId) (hphase : PhaseKept s' s'.phase) : Kept s' := by
  refine ⟨hphase, ?_, ?_, ?_, ?_⟩
  · rw [hid, hnext]
    exact h.last
  · rw [hid, hnext, hlog]
    exact h.past
  · rw [hnext, hlog]
    exact h.future
  · rw [hlog]
    exact h.order

theorem Kept.entry {entry : Entry} (h : Kept s) (hlog : s'.log = s.log ++ [entry])
    (hnext : s'.next = s.next) (hid : s.phase.runningId = some n) (hid' : s'.phase.runningId = some n)
    (hentry : entry.response = n) (hlegal : Legal s.log entry) (hphase : PhaseKept s' s'.phase) :
    Kept s' := by
  have hother : ∀ m, m ≠ n → sentOf m s'.log = sentOf m s.log := by
    intro m hm
    rw [hlog, sentOf_append]
    cases entry with
    | sent e =>
      have hne : e.response ≠ m := fun he => hm (he.symm.trans hentry)
      simp [sentOf, Entry.event?, hne]
    | cancel k => exact List.append_nil _
    | claim k => exact List.append_nil _
  have hlast := h.last n hid
  refine ⟨hphase, ?_, fun m hm hne => ?_, fun m hm => ?_, ?_⟩
  · rw [hid', hnext, ← hid]
    exact h.last
  · have hmn : m ≠ n := by
      intro he
      exact hne (he ▸ hid')
    rw [hother m hmn]
    exact h.past m (hnext ▸ hm) (by rw [hid]; exact fun he => hmn (Option.some.inj he).symm)
  · have hmn : m ≠ n := by omega
    obtain ⟨hsent, hcancel, hclaim⟩ := h.future m (hnext ▸ hm)
    refine ⟨(hother m hmn).trans hsent, ?_, ?_⟩
    all_goals
      rw [hlog, List.mem_append, List.mem_singleton]
      rintro (hmem | rfl)
    · exact hcancel hmem
    · exact hmn hentry
    · exact hclaim hmem
    · exact hmn hentry
  · rw [hlog]
    exact h.order.concat hlegal

/-! ### Cancels -/

theorem cancelActiveResponse_starts (h : s.responseStartPending = true) (reason : CancelReason) :
    s.cancelActiveResponse reason =
      { s with pendingCancelReason := s.pendingCancelReason.or (some reason) } := by
  rw [Session.cancelActiveResponse, if_pos h]

theorem cancelActiveResponse_none (h : s.responseStartPending = false) (ha : s.activeResponse = none)
    (reason : CancelReason) : s.cancelActiveResponse reason = s := by
  rw [Session.cancelActiveResponse, if_neg (by simp [h])]
  simp only [ha]

theorem cancelActiveResponse_some (h : s.responseStartPending = false)
    (ha : s.activeResponse = some n) (reason : CancelReason) :
    s.cancelActiveResponse reason =
      if s.finalizedResponse = some n ∨ s.cancelledResponse = some n then s else s.mark n reason := by
  rw [Session.cancelActiveResponse, if_neg (by simp [h])]
  simp only [ha]

theorem cancelActiveResponse_phase (s : Session) (reason : CancelReason) :
    (s.cancelActiveResponse reason).phase = s.phase ∧ (s.cancelActiveResponse reason).next = s.next := by
  unfold Session.cancelActiveResponse
  split
  · exact ⟨rfl, rfl⟩
  · split
    · exact ⟨rfl, rfl⟩
    · split <;> exact ⟨rfl, rfl⟩

theorem cancel_eq_self (h : Kept s) (hu : s.phase.unclaimed = none) (reason : CancelReason) :
    s.cancel reason = s := by
  have hsame : s.cancelActiveResponse reason = s := by
    have hphase := h.phase
    cases hp : s.phase with
    | idle =>
      rw [hp] at hphase
      exact cancelActiveResponse_none hphase.1.start hphase.1.active reason
    | transcribing =>
      rw [hp] at hphase
      exact cancelActiveResponse_none hphase.1.start hphase.1.active reason
    | ended hasRaised =>
      rw [hp] at hphase
      have hclear : Clear s := hphase
      exact cancelActiveResponse_none hclear.start hclear.active reason
    | terminals r events hasRaised =>
      rw [hp] at hphase
      have hclosing : Closing s r events := hphase
      rw [cancelActiveResponse_some hclosing.start hclosing.active, if_pos (.inl hclosing.finalized)]
    | starting r =>
      rw [hp] at hu
      cases hu
    | sending r send isWritten =>
      rw [hp] at hu
      cases hu
    | streaming r =>
      rw [hp] at hu
      cases hu
  simp only [Session.cancel, hsame, hu, Option.map_none, Option.toList_none, List.append_nil]

theorem mem_cancel_log (hu : s.phase.unclaimed = some r) (reason : CancelReason) :
    Entry.cancel r.id ∈ (s.cancel reason).log := by
  simp [Session.cancel, hu]

theorem claim_cancel_log (reason : CancelReason) :
    Entry.claim n ∈ (s.cancel reason).log ↔ Entry.claim n ∈ s.log := by
  cases hu : s.phase.unclaimed <;> simp [Session.cancel, hu]

theorem sentOf_cancel (n : Nat) (reason : CancelReason) :
    sentOf n (s.cancel reason).log = sentOf n s.log := sentOf_cancels n s.log _

theorem Starting.cancel (h : Starting s r) (hu : s.phase.unclaimed = some r) (reason : CancelReason) :
    Starting (s.cancel reason) r := by
  have heq := cancelActiveResponse_starts h.start reason
  have hmem := mem_cancel_log hu reason
  have hclaim := mt (claim_cancel_log reason).mp h.claim
  have hpending : ((s.cancel reason).pendingCancelReason.isSome ↔ Entry.cancel r.id ∈ (s.cancel reason).log) := by
    refine ⟨fun _ => hmem, fun _ => ?_⟩
    simp [Session.cancel, heq]
  exact ⟨by simp [Session.cancel, heq, h.cancelled], by simp [Session.cancel, heq, h.reason],
    by simp [Session.cancel, heq, h.finalized], by simp [Session.cancel, heq, h.turnReason],
    by simp [Session.cancel, heq, h.start], hpending, by simp [Session.cancel, heq, h.interrupted],
    hclaim, h.textDone⟩

theorem Streaming.cancel {texts : Nat} (h : Streaming s r texts) (hu : s.phase.unclaimed = some r)
    (reason : CancelReason) :
    Streaming (s.cancel reason) r texts ∧ (s.cancel reason).cancelledResponse = some r.id ∧
      (s.cancelledResponse = some r.id → (s.cancel reason).isInterrupted = s.isInterrupted) ∧
      (s.cancelledResponse ≠ some r.id →
        (s.cancel reason).isInterrupted = s.phase.running.isSome) := by
  have hmem := mem_cancel_log hu reason
  have hclaim := mt (claim_cancel_log reason).mp h.claim
  have hopened : Opened r.id texts 0 (sentOf r.id (s.cancel reason).log) := by
    rw [sentOf_cancel]
    exact h.opened
  have heq := cancelActiveResponse_some h.start h.active reason
  by_cases hc : s.cancelledResponse = some r.id
  · rw [if_pos (.inr hc)] at heq
    have hc' : (s.cancel reason).cancelledResponse = some r.id := by simp [Session.cancel, heq, hc]
    refine ⟨⟨?_, ?_, ?_, ?_, hclaim, .inl hc', iff_of_true hc' hmem, hopened⟩, hc', fun _ => ?_,
      fun hne => absurd hc hne⟩
    · simp [Session.cancel, heq, h.active]
    · simp [Session.cancel, heq, h.finalized]
    · simp [Session.cancel, heq, h.start]
    · simp [Session.cancel, heq, h.pending]
    · simp [Session.cancel, heq]
  · have hfinal : s.finalizedResponse ≠ some r.id := by simp [h.finalized]
    rw [if_neg (by simp [hc, hfinal])] at heq
    have hc' : (s.cancel reason).cancelledResponse = some r.id := by
      simp [Session.cancel, heq, Session.mark]
    refine ⟨⟨?_, ?_, ?_, ?_, hclaim, .inl hc', iff_of_true hc' hmem, hopened⟩, hc',
      fun hs => absurd hs hc, fun _ => ?_⟩
    · simp [Session.cancel, heq, Session.mark, h.active]
    · simp [Session.cancel, heq, Session.mark, h.finalized]
    · simp [Session.cancel, heq, Session.mark, h.start]
    · simp [Session.cancel, heq, Session.mark, h.pending]
    · simp [Session.cancel, heq, Session.mark]

theorem cancel_active (h : s.responseStartPending = true) (reason : CancelReason) :
    (s.cancel reason).activeResponse = s.activeResponse := by
  simp [Session.cancel, cancelActiveResponse_starts h reason]

theorem interrupted_cancel {texts : Nat} (h : Streaming s r texts) (hu : s.phase.unclaimed = some r)
    (hrunning : s.phase.running = some r) (reason : CancelReason)
    (hi : s.cancelledResponse = some r.id → s.isInterrupted = true) :
    (s.cancel reason).isInterrupted = true := by
  obtain ⟨-, -, hsame, hnew⟩ := h.cancel hu reason
  by_cases hc : s.cancelledResponse = some r.id
  · rw [hsame hc]
    exact hi hc
  · rw [hnew hc, hrunning]
    rfl

theorem phaseKept_cancel (h : Kept s) (hu : s.phase.unclaimed = some r) (reason : CancelReason)
    (hreturned : doneReturned s (.cancel reason)) : PhaseKept (s.cancel reason) s.phase := by
  have hphase := h.phase
  cases hp : s.phase with
  | starting r' =>
    rw [hp] at hphase hu
    cases hu
    obtain ⟨hstarting, hactive, hsent⟩ := hphase
    refine ⟨hstarting.cancel (by rw [hp]; rfl) reason, ?_, (sentOf_cancel _ reason).trans hsent⟩
    exact (cancel_active hstarting.start reason).trans hactive
  | streaming r' =>
    rw [hp] at hphase hu
    cases hu
    have hstreaming : Streaming s r r.textDone.toNat := hphase
    exact (hstreaming.cancel (by rw [hp]; rfl) reason).1
  | sending r' send isWritten =>
    rw [hp] at hphase hu
    cases hu
    have hu : s.phase.unclaimed = some r := by
      rw [hp]
      rfl
    have hrunning : s.phase.running = some r := by
      rw [hp]
      rfl
    cases send with
    | created =>
      obtain ⟨hstarting, hactive, hsent⟩ := hphase
      exact ⟨hstarting.cancel hu reason, (cancel_active hstarting.start reason).trans hactive,
        (sentOf_cancel _ reason).trans hsent⟩
    | textDone =>
      obtain ⟨hstreaming, htext, hi, -⟩ := hphase
      refine ⟨(hstreaming.cancel hu reason).1, htext,
        fun _ => interrupted_cancel hstreaming hu hrunning reason hi, fun hw => ?_⟩
      subst hw
      exact absurd hp (hreturned r)
    | textDelta chunk =>
      obtain ⟨hstreaming, hi⟩ := hphase
      exact ⟨(hstreaming.cancel hu reason).1,
        fun _ => interrupted_cancel hstreaming hu hrunning reason hi⟩
    | audioDelta chunk =>
      obtain ⟨hstreaming, hi⟩ := hphase
      exact ⟨(hstreaming.cancel hu reason).1,
        fun _ => interrupted_cancel hstreaming hu hrunning reason hi⟩
    | audioDone =>
      obtain ⟨hstreaming, hi⟩ := hphase
      exact ⟨(hstreaming.cancel hu reason).1,
        fun _ => interrupted_cancel hstreaming hu hrunning reason hi⟩
  | idle =>
    rw [hp] at hu
    cases hu
  | transcribing =>
    rw [hp] at hu
    cases hu
  | ended hasRaised =>
    rw [hp] at hu
    cases hu
  | terminals r' events hasRaised =>
    rw [hp] at hu
    cases hu

theorem runningId_of_unclaimed {phase : Phase} (h : phase.unclaimed = some r) :
    phase.runningId = some r.id := by
  cases phase <;> cases h <;> rfl

theorem Kept.claim_notMem (h : Kept s) (hu : s.phase.unclaimed = some r) : Entry.claim r.id ∉ s.log := by
  have hphase := h.phase
  cases hp : s.phase with
  | starting r' =>
    rw [hp] at hphase hu
    cases hu
    exact hphase.1.claim
  | streaming r' =>
    rw [hp] at hphase hu
    cases hu
    exact Streaming.claim hphase
  | sending r' send isWritten =>
    rw [hp] at hphase hu
    cases hu
    cases send <;> exact hphase.1.claim
  | _ =>
    rw [hp] at hu
    cases hu

theorem Kept.cancel (h : Kept s) (reason : CancelReason) (hreturned : doneReturned s (.cancel reason)) :
    Kept (s.cancel reason) := by
  cases hu : s.phase.unclaimed with
  | none =>
    rw [cancel_eq_self h hu]
    exact h
  | some r =>
    obtain ⟨hsame, hnext⟩ := cancelActiveResponse_phase s reason
    have hp : (s.cancel reason).phase = s.phase := hsame
    have hid := runningId_of_unclaimed hu
    have hlog : (s.cancel reason).log = s.log ++ [Entry.cancel r.id] := by simp [Session.cancel, hu]
    refine h.entry hlog hnext hid (by rw [hp]; exact hid) rfl (h.claim_notMem hu) ?_
    rw [hp]
    exact phaseKept_cancel h hu reason hreturned

/-! ### The start and the end of a turn -/

theorem Kept.start {wantsAudio : Bool} (h : Kept s) (hs : s.start wantsAudio = some s') : Kept s' := by
  unfold Session.start at hs
  split at hs
  case h_2 => cases hs
  next hp =>
  cases hs
  have hphase := h.phase
  rw [hp] at hphase
  obtain ⟨hclear, hreason⟩ := hphase
  obtain ⟨hsent, hcancel, hclaim⟩ := h.future s.next (Nat.le_refl _)
  refine ⟨⟨⟨hclear.cancelled, hclear.reason, hclear.finalized, hreason, rfl, ?_, hclear.interrupted,
    hclaim, rfl⟩, hclear.active, hsent⟩, fun n hn => ?_, fun n hn hne => ?_, fun n hn => ?_, h.order⟩
  · simp [hclear.pending, hcancel]
  · cases hn
    rfl
  · have hne' : n ≠ s.next := fun he => hne (he ▸ rfl)
    refine h.past n (by change n < s.next + 1 at hn; omega) ?_
    rw [hp]
    exact fun he => by cases he
  · exact h.future n (by change s.next + 1 ≤ n at hn; omega)

theorem Kept.begins (h : Kept s) (hs : s.begins = some s') : Kept s' := by
  unfold Session.begins at hs
  split at hs
  case h_2 => cases hs
  next r hp =>
  cases hs
  have hphase := h.phase
  rw [hp] at hphase
  obtain ⟨hstarting, -, hsent⟩ := hphase
  refine h.sameLog rfl rfl (by rw [hp]; rfl) ⟨⟨hstarting.cancelled, hstarting.reason,
    hstarting.finalized, hstarting.turnReason, hstarting.start, hstarting.pending,
    hstarting.interrupted, hstarting.claim, hstarting.textDone⟩, rfl, hsent⟩

theorem Clear.turnOver (h : Clear s) : Clear s.turnOver :=
  ⟨h.active, h.cancelled, h.reason, h.finalized, rfl, rfl, h.interrupted⟩

theorem Kept.resumes (h : Kept s) (hs : s.resumes = some s') : Kept s' := by
  unfold Session.resumes at hs
  split at hs
  case h_2 => cases hs
  next hasRaised hp =>
  have hphase := h.phase
  rw [hp] at hphase
  have hclear : Clear s := hphase
  have hkept : Clear { s with responseCancelReason := none } :=
    ⟨hclear.active, hclear.cancelled, hclear.reason, hclear.finalized, hclear.start, hclear.pending,
      hclear.interrupted⟩
  simp only at hs
  split at hs
  · cases hs
    exact h.sameLog rfl rfl (by rw [hp]; rfl) ⟨hkept.turnOver, rfl⟩
  · cases hs
    refine h.sameLog rfl rfl (by rw [hp]; rfl) ⟨?_, rfl⟩
    exact ⟨hclear.active, hclear.cancelled, hclear.reason, hclear.finalized, hclear.start,
      hclear.pending, hclear.interrupted⟩

theorem Kept.turnEnds (h : Kept s) (hs : s.turnEnds = some s') : Kept s' := by
  unfold Session.turnEnds at hs
  split at hs
  case h_2 => cases hs
  next hp =>
  cases hs
  have hphase := h.phase
  rw [hp] at hphase
  exact h.sameLog rfl rfl (by rw [hp]; rfl) ⟨hphase.1.turnOver, hphase.2⟩

theorem Kept.release {hasRaised : Bool} (h : Kept s) (hp : s.phase = .terminals r [] hasRaised) :
    Kept (s.release r hasRaised) := by
  have hphase := h.phase
  rw [hp] at hphase
  have hclosing : Closing s r [] := hphase
  have hreason : (s.release r hasRaised).cancelledResponse = none ∧
      (s.release r hasRaised).cancelledReason = none := by
    rcases hclosing.cancelled with hc | ⟨hc, hcr⟩
    · simp [Session.release, hc]
    · simp [Session.release, hc, hcr]
  refine ⟨⟨?_, hreason.1, hreason.2, ?_, hclosing.start, hclosing.pending, hclosing.interrupted⟩,
    fun n hn => (by cases hn), fun n hn hne => ?_, h.future, h.order⟩
  · simp [Session.release, hclosing.active]
  · simp [Session.release, hclosing.finalized]
  · by_cases he : n = r.id
    · obtain ⟨texts, dones, hopened, htexts, hdones⟩ := hclosing.opened
      cases htexts
      cases hdones
      rw [he]
      exact hopened
    · refine h.past n hn ?_
      rw [hp]
      exact fun hid => he (Option.some.inj hid).symm

/-! ### The stream -/

theorem Streaming.frame {texts : Nat} (h : Streaming s r texts) {phase : Phase} {r' : Response}
    (hid : r'.id = r.id) : Streaming { s with phase := phase } r' texts := by
  obtain ⟨hactive, hfinalized, hstart, hpending, hclaim, hcancelled, hmarked, hopened⟩ := h
  rw [← hid] at hactive hclaim hcancelled hmarked hopened
  exact ⟨hactive, hfinalized, hstart, hpending, hclaim, hcancelled, hmarked, hopened⟩

theorem Streaming.afterDeltas (h : Streaming s r r.textDone.toNat) (hi : s.cancelledResponse ≠ some r.id)
    (chunk : Chunk) :
    PhaseKept { s with phase := Session.afterDeltas r chunk } (Session.afterDeltas r chunk) ∧
      (Session.afterDeltas r chunk).runningId = some r.id := by
  unfold Session.afterDeltas
  simp only
  split
  · next htext =>
    have hfalse : r.textDone = false := by simpa using htext.2.2
    rw [hfalse] at h
    exact ⟨⟨h.frame rfl, hfalse, fun hc => absurd hc hi, fun hw => (by cases hw)⟩, rfl⟩
  · split
    · exact ⟨⟨h.frame rfl, fun hc => absurd hc hi⟩, rfl⟩
    · exact ⟨h.frame rfl, rfl⟩

theorem Streaming.afterTextDelta (h : Streaming s r r.textDone.toNat)
    (hi : s.cancelledResponse ≠ some r.id) (chunk : Chunk) :
    PhaseKept { s with phase := Session.afterTextDelta r chunk } (Session.afterTextDelta r chunk) ∧
      (Session.afterTextDelta r chunk).runningId = some r.id := by
  unfold Session.afterTextDelta
  split
  · exact ⟨⟨h.frame rfl, fun hc => absurd hc hi⟩, rfl⟩
  · exact h.afterDeltas hi chunk

theorem Kept.chunk {c : Chunk} (h : Kept s) (hs : s.chunk c = some s') : Kept s' := by
  unfold Session.chunk at hs
  split at hs
  case h_2 => cases hs
  next r hp hi =>
  cases hs
  have hphase := h.phase
  rw [hp] at hphase
  have hstreaming : Streaming s r r.textDone.toNat := hphase
  have hnext : PhaseKept { s with phase := s.onChunk r c } (s.onChunk r c) ∧
      (s.onChunk r c).runningId = some r.id := by
    unfold Session.onChunk
    split
    · exact ⟨hstreaming.frame rfl, rfl⟩
    · next hne =>
      split
      · exact ⟨⟨hstreaming.frame rfl, fun hc => absurd hc hne⟩, rfl⟩
      · exact hstreaming.afterTextDelta hne c
  exact h.sameLog rfl rfl (by rw [hp]; exact hnext.2) hnext.1

theorem Streaming.sent {texts : Nat} (h : Streaming s r texts) {phase : Phase} (he : e.response = r.id)
    (hc : e.isCreated = false) (hd : e.isResponseDone = false) :
    Streaming { s with phase := phase, log := s.log ++ [Entry.sent e] } r
      (texts + if e.isTextDone then 1 else 0) := by
  refine ⟨h.active, h.finalized, h.start, h.pending, ?_, h.cancelled, ?_, ?_⟩
  · simp [h.claim]
  · simp [h.marked]
  · have hopened := h.opened.concat hc
    rw [hd] at hopened
    change Opened r.id _ _ (sentOf r.id (s.log ++ [Entry.sent e]))
    rw [sentOf_sent, if_pos he]
    exact hopened

theorem Streaming.legal {texts : Nat} (h : Streaming s r texts) (he : e.response = r.id)
    (hd : e.isResponseDone = false) (hi : e.isDelta = true → s.cancelledResponse ≠ some r.id) :
    Legal s.log (.sent e) := by
  refine ⟨fun _ => ?_, fun hdelta => ?_, ?_⟩
  · rw [he]
    exact h.opened.mem
  · rw [he, ← h.marked]
    exact hi hdelta
  · rintro n text includeAudio status reason rfl
    cases hd

/-! ### Claims -/

theorem terminals_own {text : String} {includeAudio : Bool} {status : Status} {reason : String}
    {error : Option (String × String × String)} :
    ∀ e ∈ r.terminals text includeAudio status reason error,
      e.response = r.id ∧ e.isCreated = false ∧ e.isDelta = false := by
  intro e he
  simp only [Response.terminals, List.mem_append, List.mem_singleton, Option.mem_toList,
    Option.map_eq_some_iff] at he
  rcases he with ((he | he) | ⟨_, _, rfl⟩) | rfl
  · split at he
    · cases he
    · rw [List.mem_singleton.mp he]
      exact ⟨rfl, rfl, rfl⟩
  · split at he
    · rw [List.mem_singleton.mp he]
      exact ⟨rfl, rfl, rfl⟩
    · cases he
  · exact ⟨rfl, rfl, rfl⟩
  · exact ⟨rfl, rfl, rfl⟩

theorem terminals_status {text text' : String} {includeAudio includeAudio' : Bool}
    {status status' : Status} {reason reason' : String} {error : Option (String × String × String)}
    (h : .responseDone n text' includeAudio' status' reason' ∈
      r.terminals text includeAudio status reason error) : status' = status := by
  simp only [Response.terminals, List.mem_append, List.mem_singleton, Option.mem_toList,
    Option.map_eq_some_iff] at h
  rcases h with ((h | h) | ⟨_, _, he⟩) | he
  · split at h
    · cases h
    · cases List.mem_singleton.mp h
  · split at h
    · cases List.mem_singleton.mp h
    · cases h
  · cases he
  · cases he
    rfl

theorem terminals_counts (r : Response) (text : String) (includeAudio : Bool) (status : Status)
    (reason : String) (error : Option (String × String × String)) :
    r.textDone.toNat + (r.terminals text includeAudio status reason error).countP Event.isTextDone = 1 ∧
      (r.terminals text includeAudio status reason error).countP Event.isResponseDone = 1 := by
  unfold Response.terminals
  generalize r.textDone = textDone
  generalize (includeAudio && r.sawAudio && !r.audioDone) = hasAudio
  cases textDone <;> cases hasAudio <;> cases error <;> exact ⟨rfl, rfl⟩

theorem Streaming.claimed (h : Streaming s r r.textDone.toNat) {phase : Phase} {text : String}
    {includeAudio : Bool} {status : Status} {reason : String}
    {error : Option (String × String × String)}
    (hstatus : status = .cancelled ↔ s.cancelledResponse = some r.id) :
    Closing { s.claimTerminal r with phase := phase, isInterrupted := false } r
      (r.terminals text includeAudio status reason error) := by
  obtain ⟨htexts, hdones⟩ := terminals_counts r text includeAudio status reason error
  refine ⟨h.active, rfl, h.start, h.pending, rfl, ?_, ?_, terminals_own, ?_, ?_⟩
  · exact List.mem_append_right _ List.mem_cons_self
  · exact h.cancelled.imp_right fun hn => ⟨hn.1, hn.2.1⟩
  · intro n text' includeAudio' status' reason' hmem
    rw [terminals_status hmem, hstatus, h.marked]
    simp [Session.claimTerminal]
  · refine ⟨_, 0, ?_, htexts, by rw [hdones]⟩
    change Opened r.id _ _ (sentOf r.id (s.log ++ [Entry.claim r.id]))
    rw [sentOf_claim]
    exact h.opened

theorem Kept.claims {hasRaised : Bool} {text : String} {includeAudio : Bool} {status : Status}
    {reason : String} {error : Option (String × String × String)} (h : Kept s)
    (hstreaming : Streaming s r r.textDone.toNat) (hid : s.phase.runningId = some r.id)
    (hstatus : status = .cancelled ↔ s.cancelledResponse = some r.id) :
    Kept { s.claimTerminal r with
      phase := .terminals r (r.terminals text includeAudio status reason error) hasRaised
      isInterrupted := false } :=
  h.entry rfl rfl hid rfl rfl hstreaming.claim (hstreaming.claimed hstatus)

theorem eq_of_not_interrupted (hi : s.isInterrupted = false) (phase : Phase) :
    { s.claimTerminal r with phase := phase } =
      { s.claimTerminal r with phase := phase, isInterrupted := false } := by
  simp [Session.claimTerminal, hi]

theorem Kept.streamEnds (h : Kept s) (hs : s.streamEnds = some s') : Kept s' := by
  unfold Session.streamEnds at hs
  split at hs
  case h_2 => cases hs
  next r hp hi =>
  cases hs
  have hphase := h.phase
  rw [hp] at hphase
  have hstreaming : Streaming s r r.textDone.toNat := hphase
  have hid : s.phase.runningId = some r.id := by
    rw [hp]
    rfl
  rw [eq_of_not_interrupted hi]
  unfold Session.endTerminals
  split
  · next hc => exact h.claims hstreaming hid (iff_of_true rfl hc)
  · next hc =>
    split <;> exact h.claims hstreaming hid (iff_of_false (fun he => (by cases he)) hc)

theorem Kept.streamRaises (h : Kept s) (hs : s.streamRaises = some s') : Kept s' := by
  unfold Session.streamRaises at hs
  split at hs
  case h_2 => cases hs
  next r hp hi =>
  cases hs
  have hphase := h.phase
  rw [hp] at hphase
  have hstreaming : Streaming s r r.textDone.toNat := hphase
  have hid : s.phase.runningId = some r.id := by
    rw [hp]
    rfl
  rw [eq_of_not_interrupted hi]
  unfold Session.errorTerminals
  split
  · next hc => exact h.claims hstreaming hid (iff_of_true rfl hc)
  · next hc => exact h.claims hstreaming hid (iff_of_false (fun he => (by cases he)) hc)

theorem Streaming.cancelled_of_interrupted {texts : Nat} (h : Streaming s r texts)
    (hi : s.isInterrupted = true) : s.cancelledResponse = some r.id := by
  rcases h.cancelled with hc | ⟨-, -, hf⟩
  · exact hc
  · rw [hi] at hf
    cases hf

theorem Kept.interrupted (h : Kept s) (hi : s.isInterrupted = true) (hu : s.phase.unclaimed = some r) :
    Streaming s r r.textDone.toNat := by
  have hphase := h.phase
  cases hp : s.phase with
  | starting r' =>
    rw [hp] at hphase
    rw [hphase.1.interrupted] at hi
    cases hi
  | streaming r' =>
    rw [hp] at hphase hu
    cases hu
    exact hphase
  | sending r' send isWritten =>
    rw [hp] at hphase hu
    cases hu
    cases send with
    | created =>
      rw [hphase.1.interrupted] at hi
      cases hi
    | textDone =>
      obtain ⟨hstreaming, htext, -, hw⟩ := hphase
      cases isWritten with
      | true =>
        rw [hw rfl] at hi
        cases hi
      | false =>
        rw [htext]
        exact hstreaming
    | textDelta chunk => exact hphase.1
    | audioDelta chunk => exact hphase.1
    | audioDone => exact hphase.1
  | _ =>
    rw [hp] at hu
    cases hu

theorem Kept.throw (h : Kept s) (hs : s.throw = some s') : Kept s' := by
  have hclaims : ∀ r, s.phase.unclaimed = some r → s.isInterrupted = true →
      Kept { s.claimTerminal r with
        phase := .terminals r (s.cancelledTerminals r) true
        isInterrupted := false } := by
    intro r hu hi
    have hstreaming := h.interrupted hi hu
    exact h.claims hstreaming (runningId_of_unclaimed hu)
      (iff_of_true rfl (hstreaming.cancelled_of_interrupted hi))
  unfold Session.throw at hs
  split at hs
  · next r _ _ hp hi =>
    cases hs
    exact hclaims r (by rw [hp]; rfl) hi
  · next r hp hi =>
    cases hs
    exact hclaims r (by rw [hp]; rfl) hi
  · cases hs

theorem Kept.swallow (h : Kept s) (hs : s.swallow = some s') : Kept s' := by
  unfold Session.swallow at hs
  split at hs
  case h_2 => cases hs
  next r hp hi =>
  cases hs
  have hphase := h.phase
  rw [hp] at hphase
  have hstreaming : Streaming s r r.textDone.toNat := hphase
  have hc := hstreaming.cancelled_of_interrupted hi
  refine h.sameLog rfl rfl rfl ?_
  simp only [hp]
  exact ⟨hstreaming.active, hstreaming.finalized, hstreaming.start, hstreaming.pending,
    hstreaming.claim, .inl hc, hstreaming.marked, hstreaming.opened⟩

/-! ### Sends -/

theorem Starting.written (h : Starting s r) {phase : Phase} :
    Starting { s with phase := phase, log := s.log ++ [Entry.sent (.created r.id)] } r := by
  refine ⟨h.cancelled, h.reason, h.finalized, h.turnReason, h.start, ?_, h.interrupted, ?_, h.textDone⟩
  · simp [h.pending]
  · simp [h.claim]

theorem Kept.writeSend {send : Send} (h : Kept s) (hp : s.phase = .sending r send false)
    (hi : s.isInterrupted = false) :
    Kept { s with phase := .sending r send true, log := s.log ++ [Entry.sent (send.event r)] } := by
  have hphase := h.phase
  rw [hp] at hphase
  have hid : s.phase.runningId = some r.id := by
    rw [hp]
    rfl
  have hnot : ∀ {P : Prop}, (P → s.isInterrupted = true) → ¬ P := by
    intro P himp hP
    rw [himp hP] at hi
    cases hi
  cases send with
  | created =>
    obtain ⟨hstarting, hactive, hsent⟩ := hphase
    refine h.entry rfl rfl hid rfl rfl ⟨fun hc => (by cases hc), fun hd => (by cases hd), ?_⟩
      ⟨hstarting.written, hactive, ?_⟩
    · rintro n text includeAudio status reason he
      cases he
    · change sentOf r.id (s.log ++ [Entry.sent (.created r.id)]) = _
      rw [sentOf_sent, hsent]
      simp [Event.response]
  | textDone =>
    obtain ⟨hstreaming, htext, hcancel, -⟩ := hphase
    exact h.entry rfl rfl hid rfl rfl (hstreaming.legal rfl rfl fun hd => (by cases hd))
      ⟨hstreaming.sent rfl rfl rfl, htext, hcancel, fun _ => hi⟩
  | textDelta chunk =>
    obtain ⟨hstreaming, hcancel⟩ := hphase
    exact h.entry rfl rfl hid rfl rfl (hstreaming.legal rfl rfl fun _ => hnot hcancel)
      ⟨hstreaming.sent rfl rfl rfl, hcancel⟩
  | audioDelta chunk =>
    obtain ⟨hstreaming, hcancel⟩ := hphase
    exact h.entry rfl rfl hid rfl rfl (hstreaming.legal rfl rfl fun _ => hnot hcancel)
      ⟨hstreaming.sent rfl rfl rfl, hcancel⟩
  | audioDone =>
    obtain ⟨hstreaming, hcancel⟩ := hphase
    exact h.entry rfl rfl hid rfl rfl (hstreaming.legal rfl rfl fun hd => (by cases hd))
      ⟨hstreaming.sent rfl rfl rfl, hcancel⟩

theorem Closing.written {rest : List Event} {hasRaised : Bool} (h : Closing s r (e :: rest)) :
    Closing { s with phase := .terminals r rest hasRaised, log := s.log ++ [Entry.sent e] } r rest := by
  obtain ⟨he, hc, -⟩ := h.own e List.mem_cons_self
  obtain ⟨texts, dones, hopened, htexts, hdones⟩ := h.opened
  refine ⟨h.active, h.finalized, h.start, h.pending, h.interrupted, ?_, h.cancelled,
    fun e' he' => h.own e' (List.mem_cons_of_mem _ he'), ?_, ?_⟩
  · exact List.mem_append_left _ h.claim
  · intro n text includeAudio status reason hmem
    rw [h.status n text includeAudio status reason (List.mem_cons_of_mem _ hmem)]
    simp
  · refine ⟨texts + if e.isTextDone then 1 else 0, dones + if e.isResponseDone then 1 else 0, ?_, ?_, ?_⟩
    · change Opened r.id _ _ (sentOf r.id (s.log ++ [Entry.sent e]))
      rw [sentOf_sent, if_pos he]
      exact hopened.concat hc
    · rw [List.countP_cons] at htexts
      omega
    · rw [List.countP_cons] at hdones
      omega

theorem Closing.legal {rest : List Event} (h : Closing s r (e :: rest)) : Legal s.log (.sent e) := by
  obtain ⟨he, -, hd⟩ := h.own e List.mem_cons_self
  obtain ⟨texts, dones, hopened, -⟩ := h.opened
  refine ⟨fun _ => ?_, fun hdelta => ?_, ?_⟩
  · rw [he]
    exact hopened.mem
  · rw [hd] at hdelta
    cases hdelta
  · rintro n text includeAudio status reason rfl
    cases he
    exact ⟨h.claim, h.status _ _ _ _ _ List.mem_cons_self⟩

theorem Kept.write (h : Kept s) (hs : s.write = some s') : Kept s' := by
  unfold Session.write at hs
  split at hs
  · next r send hp hi =>
    cases hs
    exact h.writeSend hp hi
  · next _ r event rest hasRaised hp =>
    cases hs
    have hphase := h.phase
    rw [hp] at hphase
    have hclosing : Closing s r (event :: rest) := hphase
    exact h.entry rfl rfl (by rw [hp]; rfl) rfl (hclosing.own event List.mem_cons_self).1 hclosing.legal
      hclosing.written
  · cases hs

theorem Kept.afterCreated (h : Kept s) (hp : s.phase = .sending r .created true) :
    Kept (s.afterCreated r) := by
  have hphase := h.phase
  rw [hp] at hphase
  obtain ⟨hstarting, hactive, hsent⟩ := hphase
  have hid : s.phase.runningId = some r.id := by
    rw [hp]
    rfl
  have hopened : Opened r.id 0 0 (sentOf r.id s.log) := by
    refine ⟨[], ?_, rfl, rfl, fun e he => (by cases he)⟩
    rw [hsent]
    rfl
  unfold Session.afterCreated
  simp only
  cases hpending : s.pendingCancelReason with
  | some reason =>
    have hcancel := hstarting.pending.mp (by rw [hpending]; rfl)
    have hcounts := terminals_counts r "" false .cancelled reason.name none
    rw [hstarting.textDone] at hcounts
    refine h.entry rfl rfl hid rfl rfl hstarting.claim ?_
    refine ⟨hactive, rfl, rfl, rfl, hstarting.interrupted, ?_, .inl rfl, terminals_own, ?_, ?_⟩
    · exact List.mem_append_right _ List.mem_cons_self
    · intro n text includeAudio status reason' hmem
      rw [terminals_status hmem]
      exact iff_of_true rfl (List.mem_append_left _ hcancel)
    · refine ⟨0, 0, ?_, hcounts.1, by rw [hcounts.2]⟩
      change Opened r.id _ _ (sentOf r.id (s.log ++ [Entry.claim r.id]))
      rw [sentOf_claim]
      exact hopened
  | none =>
    have hcancel : Entry.cancel r.id ∉ s.log := by
      rw [← hstarting.pending, hpending]
      exact fun hn => (by cases hn)
    refine h.sameLog rfl rfl (by rw [hid]; rfl) ?_
    refine ⟨hactive, hstarting.finalized, rfl, rfl, hstarting.claim,
      .inr ⟨hstarting.cancelled, hstarting.reason, hstarting.interrupted⟩, ?_, ?_⟩
    · refine iff_of_false ?_ hcancel
      change ¬ s.cancelledResponse = some r.id
      rw [hstarting.cancelled]
      exact fun hn => (by cases hn)
    · rw [hstarting.textDone]
      exact hopened

theorem Kept.returns (h : Kept s) (hs : s.returns = some s') : Kept s' := by
  have hnot : ∀ {P : Prop}, s.isInterrupted = false → (P → s.isInterrupted = true) → ¬ P := by
    intro P hi himp hP
    rw [himp hP] at hi
    cases hi
  have hphase := h.phase
  unfold Session.returns at hs
  split at hs
  · next r hp hi =>
    cases hs
    exact h.afterCreated hp
  · next r c hp hi =>
    cases hs
    rw [hp] at hphase
    obtain ⟨hkept, hid⟩ := hphase.1.afterTextDelta (hnot hi hphase.2) c
    exact h.sameLog rfl rfl (by rw [hp]; exact hid) hkept
  · next r c hp hi =>
    cases hs
    rw [hp] at hphase
    obtain ⟨hkept, hid⟩ := hphase.1.afterDeltas (hnot hi hphase.2) c
    exact h.sameLog rfl rfl (by rw [hp]; exact hid) hkept
  · next r hp hi =>
    cases hs
    rw [hp] at hphase
    exact h.sameLog rfl rfl (by rw [hp]; rfl) (hphase.1.frame rfl)
  · next r hp hi =>
    cases hs
    rw [hp] at hphase
    exact h.sameLog rfl rfl (by rw [hp]; rfl) (hphase.1.frame rfl)
  · next _ r hasRaised hp =>
    cases hs
    exact h.release hp
  · cases hs

theorem Kept.step {a : Action} (h : Kept s) (ha : doneReturned s a) (hs : session.step s a = some s') :
    Kept s' := by
  cases a with
  | start wantsAudio => exact h.start hs
  | begins => exact h.begins hs
  | write => exact h.write hs
  | returns => exact h.returns hs
  | chunk c => exact h.chunk hs
  | streamEnds => exact h.streamEnds hs
  | streamRaises => exact h.streamRaises hs
  | throw => exact h.throw hs
  | swallow => exact h.swallow hs
  | resumes => exact h.resumes hs
  | turnEnds => exact h.turnEnds hs
  | cancel reason =>
    cases hs
    exact h.cancel reason ha

/-! ### The end of a turn is in reach -/

/-- The turn can come to its end by the steps that it takes by itself. -/
def Winds (s : Session) : Prop := ∃ s', session.Path winding s s' ∧ s'.phase = .idle

theorem Winds.of_step {a : Action} (hs : session.step s a = some s') (ha : winding s a)
    (h : Winds s') : Winds s := by
  obtain ⟨t, hpath, ht⟩ := h
  exact ⟨t, ((Machine.Path.refl s).tail ha hs).trans hpath, ht⟩

theorem winds_transcribing (hp : s.phase = .transcribing) : Winds s := by
  have hs : session.step s .turnEnds = some s.turnOver := by
    simp only [session, Session.step, Session.turnEnds, hp]
  exact Winds.of_step hs trivial ⟨_, Machine.Path.refl _, rfl⟩

theorem winds_ended {hasRaised : Bool} (hp : s.phase = .ended hasRaised) : Winds s := by
  by_cases hover : hasRaised ∧ s.responseCancelReason.isNone
  · have hs : session.step s .resumes =
        some (Session.turnOver { s with responseCancelReason := none }) := by
      simp only [session, Session.step, Session.resumes, hp, if_pos hover]
    exact Winds.of_step hs trivial ⟨_, Machine.Path.refl _, rfl⟩
  · have hs : session.step s .resumes =
        some { s with responseCancelReason := none, phase := .transcribing } := by
      simp only [session, Session.step, Session.resumes, hp, if_neg hover]
    exact Winds.of_step hs trivial (winds_transcribing rfl)

theorem winds_terminals {events : List Event} {hasRaised : Bool}
    (hp : s.phase = .terminals r events hasRaised) : Winds s := by
  induction events generalizing s with
  | nil =>
    have hs : session.step s .returns = some (s.release r hasRaised) := by
      simp only [session, Session.step, Session.returns, hp]
    exact Winds.of_step hs trivial (winds_ended rfl)
  | cons event rest ih =>
    have hs : session.step s .write =
        some { s with phase := .terminals r rest hasRaised, log := s.log ++ [Entry.sent event] } := by
      simp only [session, Session.step, Session.write, hp]
    exact Winds.of_step hs trivial (ih rfl)

theorem winds_interrupted (hi : s.isInterrupted = true)
    (hp : s.phase = .streaming r ∨ ∃ send isWritten, s.phase = .sending r send isWritten) : Winds s := by
  have hs : session.step s .throw = some { s.claimTerminal r with
      phase := .terminals r (s.cancelledTerminals r) true
      isInterrupted := false } := by
    rcases hp with hp | ⟨send, isWritten, hp⟩ <;>
      simp only [session, Session.step, Session.throw, hp, hi]
  exact Winds.of_step hs trivial (winds_terminals rfl)

theorem winds_streaming (hp : s.phase = .streaming r) : Winds s := by
  cases hi : s.isInterrupted with
  | true => exact winds_interrupted hi (.inl hp)
  | false =>
    have hs : session.step s .streamEnds =
        some { s.claimTerminal r with phase := .terminals r (s.endTerminals r) false } := by
      simp only [session, Session.step, Session.streamEnds, hp, hi]
    exact Winds.of_step hs trivial (winds_terminals rfl)

theorem winds_sending {send : Send} {isWritten : Bool} (hp : s.phase = .sending r send isWritten)
    (hreturns : ∀ s : Session, s.phase = .sending r send true → s.isInterrupted = false →
      ∃ s', s.returns = some s' ∧ Winds s') : Winds s := by
  cases hi : s.isInterrupted with
  | true => exact winds_interrupted hi (.inr ⟨send, isWritten, hp⟩)
  | false =>
    cases isWritten with
    | true =>
      obtain ⟨s', hs, hwinds⟩ := hreturns s hp hi
      have hs : session.step s .returns = some s' := hs
      exact Winds.of_step hs trivial hwinds
    | false =>
      have hw : session.step s .write =
          some { s with phase := .sending r send true, log := s.log ++ [Entry.sent (send.event r)] } := by
        simp only [session, Session.step, Session.write, hp, hi]
      obtain ⟨s', hs, hwinds⟩ := hreturns
        { s with phase := .sending r send true, log := s.log ++ [Entry.sent (send.event r)] } rfl hi
      have hs : session.step _ .returns = some s' := hs
      exact Winds.of_step hw trivial (Winds.of_step hs trivial hwinds)

theorem winds_sendingTo {send : Send} {isWritten : Bool} (next : Phase)
    (hp : s.phase = .sending r send isWritten)
    (hreturns : ∀ s : Session, s.phase = .sending r send true → s.isInterrupted = false →
      s.returns = some { s with phase := next })
    (hnext : ∀ s : Session, s.phase = next → Winds s) : Winds s :=
  winds_sending hp fun s hp hi => ⟨_, hreturns s hp hi, hnext _ rfl⟩

theorem winds_textDone {isWritten : Bool} (hp : s.phase = .sending r .textDone isWritten) : Winds s := by
  refine winds_sendingTo (.streaming { r with textDone := true }) hp (fun s hp hi => ?_)
    fun s hp => winds_streaming hp
  simp only [Session.returns, hp, hi]

theorem winds_audioDone {isWritten : Bool} (hp : s.phase = .sending r .audioDone isWritten) :
    Winds s := by
  refine winds_sendingTo (.streaming { r with audioDone := true }) hp (fun s hp hi => ?_)
    fun s hp => winds_streaming hp
  simp only [Session.returns, hp, hi]

theorem winds_afterDeltas {c : Chunk} (hp : s.phase = Session.afterDeltas r c) : Winds s := by
  unfold Session.afterDeltas at hp
  simp only at hp
  split at hp
  · exact winds_textDone hp
  · split at hp
    · exact winds_audioDone hp
    · exact winds_streaming hp

theorem winds_audioDelta {c : Chunk} {isWritten : Bool}
    (hp : s.phase = .sending r (.audioDelta c) isWritten) : Winds s := by
  refine winds_sendingTo (Session.afterDeltas r c) hp (fun s hp hi => ?_)
    fun s hp => winds_afterDeltas hp
  simp only [Session.returns, hp, hi]

theorem winds_afterTextDelta {c : Chunk} (hp : s.phase = Session.afterTextDelta r c) : Winds s := by
  unfold Session.afterTextDelta at hp
  split at hp
  · exact winds_audioDelta hp
  · exact winds_afterDeltas hp

theorem winds_textDelta {c : Chunk} {isWritten : Bool}
    (hp : s.phase = .sending r (.textDelta c) isWritten) : Winds s := by
  refine winds_sendingTo (Session.afterTextDelta r c) hp (fun s hp hi => ?_)
    fun s hp => winds_afterTextDelta hp
  simp only [Session.returns, hp, hi]

theorem winds_created {isWritten : Bool} (hp : s.phase = .sending r .created isWritten) : Winds s := by
  refine winds_sending hp fun s hp hi => ⟨s.afterCreated r, ?_, ?_⟩
  · simp only [Session.returns, hp, hi]
  · unfold Session.afterCreated
    simp only
    split
    · exact winds_terminals rfl
    · exact winds_streaming rfl

theorem winds (s : Session) : Winds s := by
  cases hp : s.phase with
  | idle => exact ⟨s, Machine.Path.refl s, hp⟩
  | starting r =>
    have hs : session.step s .begins =
        some { s with phase := .sending r .created false, activeResponse := some r.id } := by
      simp only [session, Session.step, Session.begins, hp]
    exact Winds.of_step hs trivial (winds_created rfl)
  | sending r send isWritten =>
    cases send with
    | created => exact winds_created hp
    | textDelta c => exact winds_textDelta hp
    | audioDelta c => exact winds_audioDelta hp
    | textDone => exact winds_textDone hp
    | audioDone => exact winds_audioDone hp
  | streaming r => exact winds_streaming hp
  | terminals r events hasRaised => exact winds_terminals hp
  | ended hasRaised => exact winds_ended hp
  | transcribing => exact winds_transcribing hp

/-! ### Every run -/

theorem kept_of_reaches (h : session.Reaches doneReturned s) : Kept s :=
  h.invariant kept_init fun _ _ _ hkept ha hs => hkept.step ha hs

theorem Opened.once {texts dones : Nat} {events : List Event} (h : Opened n texts dones events) :
    events.countP Event.isTextDone = texts ∧ events.countP Event.isResponseDone = dones := by
  obtain ⟨rest, rfl, rfl, rfl, -⟩ := h
  exact ⟨List.countP_cons_of_neg (by simp [Event.isTextDone]),
    List.countP_cons_of_neg (by simp [Event.isResponseDone])⟩

theorem Kept.once_running (h : Kept s) (hr : s.phase.running = some r) :
    (sentOf r.id s.log).countP Event.isTextDone ≤ 1 ∧
      (sentOf r.id s.log).countP Event.isResponseDone ≤ 1 := by
  have hstream : ∀ b : Bool, Streaming s r b.toNat →
      (sentOf r.id s.log).countP Event.isTextDone ≤ 1 ∧
        (sentOf r.id s.log).countP Event.isResponseDone ≤ 1 := by
    intro b hb
    rw [hb.opened.once.1, hb.opened.once.2]
    exact ⟨Bool.toNat_le b, Nat.zero_le 1⟩
  have hphase := h.phase
  cases hp : s.phase with
  | starting r' =>
    rw [hp] at hphase hr
    cases hr
    rw [hphase.2.2]
    exact ⟨Nat.zero_le 1, Nat.zero_le 1⟩
  | streaming r' =>
    rw [hp] at hphase hr
    cases hr
    exact hstream r.textDone hphase
  | sending r' send isWritten =>
    rw [hp] at hphase hr
    cases hr
    cases send with
    | created =>
      rw [hphase.2.2]
      cases isWritten <;> exact ⟨Nat.zero_le 1, Nat.zero_le 1⟩
    | textDone => exact hstream isWritten hphase.1
    | textDelta c => exact hstream r.textDone hphase.1
    | audioDelta c => exact hstream r.textDone hphase.1
    | audioDone => exact hstream r.textDone hphase.1
  | terminals r' events hasRaised =>
    rw [hp] at hphase hr
    cases hr
    obtain ⟨texts, dones, hopened, htexts, hdones⟩ := Closing.opened hphase
    rw [hopened.once.1, hopened.once.2]
    omega
  | _ =>
    rw [hp] at hr
    cases hr

theorem Kept.once (h : Kept s) (n : Nat) : (sentOf n s.log).countP Event.isTextDone ≤ 1 ∧
    (sentOf n s.log).countP Event.isResponseDone ≤ 1 := by
  by_cases hid : s.phase.runningId = some n
  · obtain ⟨r, hr, rfl⟩ := Option.map_eq_some_iff.mp hid
    exact h.once_running hr
  · by_cases hn : n < s.next
    · have hopened := h.past n hn hid
      rw [hopened.once.1, hopened.once.2]
      exact ⟨Nat.le_refl 1, Nat.le_refl 1⟩
    · rw [(h.future n (Nat.le_of_not_lt hn)).1]
      exact ⟨Nat.zero_le 1, Nat.zero_le 1⟩

theorem Kept.fresh (h : Kept s) (hp : s.phase = .idle) : s = { next := s.next, log := s.log } := by
  have hphase := h.phase
  rw [hp] at hphase
  obtain ⟨⟨hactive, hcancelled, hreason, hfinalized, hstart, hpending, hinterrupted⟩, hturn⟩ := hphase
  cases s
  simp_all

/-- In every run in which no cancel lands while a `response.text.done` of the stream is on the wire and
its send has not returned, each response gets its events as it should. -/
theorem responses_kept (h : session.Reaches doneReturned s) : ResponsesKept s := by
  have hkept := kept_of_reaches h
  exact ⟨hkept.past, hkept.once, hkept.order, hkept.fresh, winds s⟩

def doneReturnedCheck (s : Session) : Action → Bool
  | .cancel _ =>
    match s.phase with
    | .sending _ .textDone true => false
    | _ => true
  | _ => true

theorem doneReturned_of_check (s : Session) (a : Action) (h : doneReturnedCheck s a = true) :
    doneReturned s a := by
  cases a with
  | cancel reason =>
    intro r hp
    simp only [doneReturnedCheck, hp] at h
    cases h
  | _ => trivial

/-- The user speaks while a response streams, and again while it is about to start. -/
def bargeInRun : List Action :=
  [.start true, .begins, .write, .returns, .chunk { modality := .text, text := some "hi" }, .write,
    .returns, .cancel .turnDetected, .throw, .write, .write, .returns, .resumes, .turnEnds,
    .start true, .cancel .turnDetected, .begins, .write, .returns, .write, .write, .returns, .resumes,
    .turnEnds]

theorem responses_kept_barge_in : ∃ s, session.Reaches doneReturned s ∧
    s.log.filterMap Entry.event? = [.created 0, .textDelta 0 "hi", .textDone 0 "hi",
      .responseDone 0 "hi" false .cancelled "turn_detected", .created 1, .textDone 1 "",
      .responseDone 1 "" false .cancelled "turn_detected"] ∧ ResponsesKept s := by
  have hrun : (session.execWhere doneReturnedCheck {} bargeInRun).map
      (fun s => s.log.filterMap Entry.event?) =
      some [.created 0, .textDelta 0 "hi", .textDone 0 "hi",
        .responseDone 0 "hi" false .cancelled "turn_detected", .created 1, .textDone 1 "",
        .responseDone 1 "" false .cancelled "turn_detected"] := by
    decide +kernel
  obtain ⟨s, hs, hwire⟩ := Option.map_eq_some_iff.mp hrun
  have hreach : session.Reaches doneReturned s := Machine.path_of_execWhere doneReturned_of_check hs
  exact ⟨s, hreach, hwire, responses_kept hreach⟩

/-- A cancel lands when the socket has the `response.text.done` of the stream. -/
def lateCancelRun : List Action :=
  [.start true, .begins, .write, .returns,
    .chunk { modality := .text, text := some "hi", finishReason := some "stop" }, .write, .returns, .write,
    .cancel .turnDetected, .throw, .write, .write, .returns]

/-- The response gets a second `response.text.done`. -/
theorem second_text_done : ∃ s, session.Reaches Machine.anyAction s ∧
    sentOf 0 s.log = [.created 0, .textDelta 0 "hi", .textDone 0 "hi", .textDone 0 "hi",
      .responseDone 0 "hi" false .cancelled "turn_detected"] ∧ ¬ ResponsesKept s := by
  have hrun : (session.exec {} lateCancelRun).map (fun s => sentOf 0 s.log) =
      some [.created 0, .textDelta 0 "hi", .textDone 0 "hi", .textDone 0 "hi",
        .responseDone 0 "hi" false .cancelled "turn_detected"] := by
    decide +kernel
  obtain ⟨s, hs, hsent⟩ := Option.map_eq_some_iff.mp hrun
  refine ⟨s, Machine.path_of_exec hs, hsent, fun hkept => ?_⟩
  have honce := (hkept.once 0).1
  rw [hsent] at honce
  exact absurd honce (by decide)

end Turns
