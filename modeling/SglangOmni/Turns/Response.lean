import SglangOmni.Lib.Machine

/-! The turns of a turn-based `RealtimeSession`.  `drain_queue` runs one turn at a time; a turn runs its
response as a task of its own and then transcribes the audio.  `cancel_active_response` may be called at
any time: it leaves a reason for a response that is about to start, or marks the response and cancels its
task, so that a `CancelledError` waits where the task is suspended.  A send suspends before the socket takes
the event, after it, or both.  The ids of a response are all of its number, and `log` is history. -/

namespace Turns

open Lib

inductive Modality
  | text
  | audio
  | other
  deriving DecidableEq

/-- `CompletionStreamChunk`, as far as a response reads it. -/
structure Chunk where
  modality : Modality
  text : Option String := none
  audioB64 : Option String := none
  finishReason : Option String := none
  deriving DecidableEq

/-- What `if value:` says of a text that may be missing. -/
def truthy (value : Option String) : Bool := value.any (· ≠ "")

inductive CancelReason
  | turnDetected
  | clientCancelled
  deriving DecidableEq

def CancelReason.name : CancelReason → String
  | .turnDetected => "turn_detected"
  | .clientCancelled => "client_cancelled"

inductive Status
  | completed
  | cancelled
  | failed
  deriving DecidableEq

inductive Event
  | created (response : Nat)
  | textDelta (response : Nat) (delta : String)
  | audioDelta (response : Nat) (delta : String)
  | textDone (response : Nat) (text : String)
  | audioDone (response : Nat)
  | error (response : Nat) (type code message : String)
  | responseDone (response : Nat) (text : String) (includeAudio : Bool) (status : Status)
      (reason : String)
  deriving DecidableEq

namespace Event

def response : Event → Nat
  | .created n | .textDelta n _ | .audioDelta n _ | .textDone n _ | .audioDone n | .error n _ _ _
  | .responseDone n _ _ _ _ => n

def isCreated : Event → Bool
  | .created _ => true
  | _ => false

def isDelta : Event → Bool
  | .textDelta _ _ | .audioDelta _ _ => true
  | _ => false

def isTextDone : Event → Bool
  | .textDone _ _ => true
  | _ => false

def isResponseDone : Event → Bool
  | .responseDone _ _ _ _ _ => true
  | _ => false

end Event

/-- The history: what the socket took, the cancels that came before the terminal of their response was
claimed, and the claims. -/
inductive Entry
  | sent (event : Event)
  | cancel (response : Nat)
  | claim (response : Nat)
  deriving DecidableEq

def Entry.response : Entry → Nat
  | .sent event => event.response
  | .cancel n | .claim n => n

/-- The variables of `run_response`. -/
structure Response where
  id : Nat
  wantsAudio : Bool
  textAcc : List String := []
  finishReason : String := "stop"
  sawAudio : Bool := false
  textDone : Bool := false
  audioDone : Bool := false
  deriving DecidableEq

namespace Response

variable (r : Response)

def text : String := String.join r.textAcc

/-- The events of `emit_terminals`, in order. -/
def terminals (responseText : String) (includeAudio : Bool) (status : Status) (reason : String)
    (error : Option (String × String × String)) : List Event :=
  (if r.textDone then [] else [.textDone r.id responseText]) ++
    (if includeAudio && r.sawAudio && !r.audioDone then [.audioDone r.id] else []) ++
    (error.map fun e => Event.error r.id e.1 e.2.1 e.2.2).toList ++
    [.responseDone r.id responseText includeAudio status reason]

end Response

/-- The sends of `run_response` before its terminals. -/
inductive Send
  | created
  | textDelta (chunk : Chunk)
  | audioDelta (chunk : Chunk)
  | textDone
  | audioDone
  deriving DecidableEq

def Send.event (r : Response) : Send → Event
  | .created => .created r.id
  | .textDelta chunk => .textDelta r.id (chunk.text.getD "")
  | .audioDelta chunk => .audioDelta r.id (chunk.audioB64.getD "")
  | .textDone => .textDone r.id r.text
  | .audioDone => .audioDone r.id

inductive Phase
  /-- `drain_queue` waits for the next turn. -/
  | idle
  /-- The turn is scheduled and its response has not begun. -/
  | starting (r : Response)
  /-- In `send`; the socket has taken the event or not yet. -/
  | sending (r : Response) (send : Send) (isWritten : Bool)
  /-- At the next chunk of the engine. -/
  | streaming (r : Response)
  /-- The terminal is claimed and these events are still to be sent. -/
  | terminals (r : Response) (events : List Event) (hasRaised : Bool)
  /-- `run_response` is over and `run_turn` has not gone on. -/
  | ended (hasRaised : Bool)
  | transcribing
  deriving DecidableEq

namespace Phase

def running : Phase → Option Response
  | .starting r | .sending r _ _ | .streaming r | .terminals r _ _ => some r
  | _ => none

def runningId (phase : Phase) : Option Nat := phase.running.map Response.id

def unclaimed : Phase → Option Response
  | .starting r | .sending r _ _ | .streaming r => some r
  | _ => none

end Phase

/-- A `RealtimeSession`, as far as its responses go. -/
structure Session where
  phase : Phase := .idle
  responseStartPending : Bool := false
  pendingCancelReason : Option CancelReason := none
  activeResponse : Option Nat := none
  cancelledResponse : Option Nat := none
  cancelledReason : Option CancelReason := none
  finalizedResponse : Option Nat := none
  responseCancelReason : Option CancelReason := none
  /-- A `CancelledError` waits for the response's task. -/
  isInterrupted : Bool := false
  next : Nat := 0
  log : List Entry := []
  deriving DecidableEq

namespace Session

variable (s : Session)

def mark (id : Nat) (reason : CancelReason) : Session :=
  { s with
    cancelledResponse := some id
    cancelledReason := some reason
    responseCancelReason := some reason
    isInterrupted := s.phase.running.isSome }

def cancelActiveResponse (reason : CancelReason) : Session :=
  if s.responseStartPending then
    { s with pendingCancelReason := s.pendingCancelReason.or (some reason) }
  else
    match s.activeResponse with
    | none => s
    | some id =>
      if s.finalizedResponse = some id ∨ s.cancelledResponse = some id then s else s.mark id reason

/-- A call of `cancel_active_response`, with its history. -/
def cancel (reason : CancelReason) : Session :=
  { s.cancelActiveResponse reason with
    log := s.log ++ (s.phase.unclaimed.map fun r => Entry.cancel r.id).toList }

/-- `drain_queue` takes a turn off the queue. -/
def start (wantsAudio : Bool) : Option Session :=
  match s.phase with
  | .idle =>
    some { s with
      phase := .starting { id := s.next, wantsAudio := wantsAudio }
      responseStartPending := true
      next := s.next + 1 }
  | _ => none

/-- `run_response` up to its first send. -/
def begins : Option Session :=
  match s.phase with
  | .starting r =>
    some { s with phase := .sending r .created false, activeResponse := some r.id }
  | _ => none

def claimTerminal (r : Response) : Session :=
  { s with finalizedResponse := some r.id, log := s.log ++ [.claim r.id] }

def cancelledTerminals (r : Response) : List Event :=
  r.terminals r.text (r.wantsAudio && r.sawAudio) .cancelled
    (s.cancelledReason.getD .clientCancelled).name none

/-- What follows the send of `response.created`. -/
def afterCreated (r : Response) : Session :=
  let s' := { s with responseStartPending := false, pendingCancelReason := none }
  match s.pendingCancelReason with
  | some reason =>
    let s' := { s' with cancelledResponse := some r.id, cancelledReason := some reason }.claimTerminal r
    { s' with phase := .terminals r (r.terminals "" false .cancelled reason.name none) false }
  | none => { s' with phase := .streaming r }

def afterDeltas (r : Response) (chunk : Chunk) : Phase :=
  let r := { r with
    finishReason :=
      if chunk.modality = .text then chunk.finishReason.getD r.finishReason else r.finishReason }
  if chunk.modality = .text ∧ chunk.finishReason.isSome ∧ ¬ r.textDone then .sending r .textDone false
  else if r.wantsAudio ∧ chunk.modality = .audio ∧ chunk.finishReason.isSome ∧ r.sawAudio ∧
      ¬ r.audioDone then
    .sending r .audioDone false
  else .streaming r

def afterTextDelta (r : Response) (chunk : Chunk) : Phase :=
  if r.wantsAudio ∧ chunk.modality = .audio ∧ truthy chunk.audioB64 then
    .sending { r with sawAudio := true } (.audioDelta chunk) false
  else afterDeltas r chunk

def onChunk (r : Response) (chunk : Chunk) : Phase :=
  if s.cancelledResponse = some r.id then .streaming r
  else if truthy chunk.text ∧ (chunk.modality = .text ∨ r.textAcc = []) then
    .sending { r with textAcc := r.textAcc ++ [chunk.text.getD ""] } (.textDelta chunk) false
  else afterTextDelta r chunk

def endTerminals (r : Response) : List Event :=
  if s.cancelledResponse = some r.id then s.cancelledTerminals r
  else if r.wantsAudio ∧ ¬ r.sawAudio then
    r.terminals r.text false .failed "audio_output_missing"
      (some ("server_error", "audio_output_missing",
        "The configured pipeline completed without audio output."))
  else r.terminals r.text r.wantsAudio .completed r.finishReason none

def errorTerminals (r : Response) : List Event :=
  if s.cancelledResponse = some r.id then s.cancelledTerminals r
  else
    r.terminals r.text (r.wantsAudio && r.sawAudio) .failed "error"
      (some ("server_error", "response_generation_failed", "Realtime response generation failed."))

def chunk (c : Chunk) : Option Session :=
  match s.phase, s.isInterrupted with
  | .streaming r, false => some { s with phase := s.onChunk r c }
  | _, _ => none

def streamEnds : Option Session :=
  match s.phase, s.isInterrupted with
  | .streaming r, false =>
    some { s.claimTerminal r with phase := .terminals r (s.endTerminals r) false }
  | _, _ => none

def streamRaises : Option Session :=
  match s.phase, s.isInterrupted with
  | .streaming r, false =>
    some { s.claimTerminal r with phase := .terminals r (s.errorTerminals r) false }
  | _, _ => none

/-- The `CancelledError` reaches `run_response`.  A response that has not begun and one whose terminal is
claimed are not interrupted. -/
def throw : Option Session :=
  match s.phase, s.isInterrupted with
  | .sending r _ _, true | .streaming r, true =>
    some { s.claimTerminal r with
      phase := .terminals r (s.cancelledTerminals r) true
      isInterrupted := false }
  | _, _ => none

/-- The engine catches the `CancelledError`. -/
def swallow : Option Session :=
  match s.phase, s.isInterrupted with
  | .streaming _, true => some { s with isInterrupted := false }
  | _, _ => none

def write : Option Session :=
  match s.phase, s.isInterrupted with
  | .sending r send false, false =>
    some { s with phase := .sending r send true, log := s.log ++ [.sent (send.event r)] }
  | .terminals r (event :: rest) hasRaised, _ =>
    some { s with phase := .terminals r rest hasRaised, log := s.log ++ [.sent event] }
  | _, _ => none

/-- `run_response` resets the ids of its response. -/
def release (r : Response) (hasRaised : Bool) : Session :=
  { s with
    phase := .ended hasRaised
    activeResponse := if s.activeResponse = some r.id then none else s.activeResponse
    cancelledResponse := if s.cancelledResponse = some r.id then none else s.cancelledResponse
    cancelledReason := if s.cancelledResponse = some r.id then none else s.cancelledReason
    finalizedResponse := if s.finalizedResponse = some r.id then none else s.finalizedResponse }

def returns : Option Session :=
  match s.phase, s.isInterrupted with
  | .sending r .created true, false => some (s.afterCreated r)
  | .sending r (.textDelta c) true, false => some { s with phase := afterTextDelta r c }
  | .sending r (.audioDelta c) true, false => some { s with phase := afterDeltas r c }
  | .sending r .textDone true, false => some { s with phase := .streaming { r with textDone := true } }
  | .sending r .audioDone true, false => some { s with phase := .streaming { r with audioDone := true } }
  | .terminals r [] hasRaised, _ => some (s.release r hasRaised)
  | _, _ => none

/-- `drain_queue` after a turn. -/
def turnOver : Session :=
  { s with phase := .idle, responseStartPending := false, pendingCancelReason := none }

/-- `run_turn` goes on after the response; a `CancelledError` with no reason ends the turn. -/
def resumes : Option Session :=
  match s.phase with
  | .ended hasRaised =>
    let s' := { s with responseCancelReason := none }
    if hasRaised ∧ s.responseCancelReason.isNone then some s'.turnOver
    else some { s' with phase := .transcribing }
  | _ => none

def turnEnds : Option Session :=
  match s.phase with
  | .transcribing => some s.turnOver
  | _ => none

end Session

inductive Action
  | start (wantsAudio : Bool)
  | begins
  | write
  | returns
  | chunk (c : Chunk)
  | streamEnds
  | streamRaises
  | throw
  | swallow
  | resumes
  | turnEnds
  | cancel (reason : CancelReason)
  deriving DecidableEq

def Session.step (s : Session) : Action → Option Session
  | .start wantsAudio => s.start wantsAudio
  | .begins => s.begins
  | .write => s.write
  | .returns => s.returns
  | .chunk c => s.chunk c
  | .streamEnds => s.streamEnds
  | .streamRaises => s.streamRaises
  | .throw => s.throw
  | .swallow => s.swallow
  | .resumes => s.resumes
  | .turnEnds => s.turnEnds
  | .cancel reason => some (s.cancel reason)

def session : Machine Session Action := ⟨{}, Session.step⟩

end Turns
