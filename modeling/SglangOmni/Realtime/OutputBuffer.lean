import Mathlib.Algebra.Order.Ring.Rat
import SglangOmni.Lib.Dict

/-! The output buffer of a realtime session: the events that wait for the socket, with the bytes that they
will put on it, and what is known of each response.  A function that raises also returns the buffer that
it leaves behind. -/

namespace Realtime

open Lib

inductive Modality
  | text
  | audio
  deriving DecidableEq

inductive ResponseStatus
  | completed
  | cancelled
  | failed
  | incomplete
  deriving DecidableEq

inductive OutputEvent
  | responseStarted (responseId : String)
  | textDelta (responseId itemId text : String)
  | textFinished (responseId itemId text : String)
  | audioDelta (responseId itemId : String) (pcm : List UInt8)
  | responseProgress (responseId itemId : String) (textEnd : Int) (audioMs : ℚ)
  | responseHeard (responseId itemId : String) (textEnd : Int)
  | audioFinished (responseId itemId : String)
  | responseFinished (responseId itemId text : String) (hasAudio : Bool) (status : ResponseStatus)
      (reason : String)
  | turnFailure (errorType code message : String)
  | speechStarted (itemId : String) (audioStartMs : ℚ)
  | speechStopped (itemId : String) (audioEndMs : ℚ)
  | inputTranscription (itemId text : String) (isFinal : Bool)
  deriving DecidableEq

/-- The answers to commands and the ends of a session, less their data. -/
inductive ControlEvent
  | created
  | updated
  | accepted
  | imageAccepted
  | cleared
  | ended
  | drained
  | closed
  | failure
  | unitCompleted
  deriving DecidableEq

inductive Event
  | output (event : OutputEvent)
  | control (event : ControlEvent)
  deriving DecidableEq

namespace OutputEvent

def responseId? : OutputEvent → Option String
  | responseStarted id | textDelta id _ _ | textFinished id _ _ | audioDelta id _ _
  | responseProgress id _ _ _ | responseHeard id _ _ | audioFinished id _
  | responseFinished id _ _ _ _ _ => some id
  | _ => none

/-- The response and the item of an event that reports a part of a response. -/
def part? : OutputEvent → Option (String × String)
  | textDelta id item _ | textFinished id item _ | audioDelta id item _
  | responseProgress id item _ _ | audioFinished id item | responseFinished id item _ _ _ _ =>
    some (id, item)
  | _ => none

def isAudio : OutputEvent → Bool
  | audioDelta _ _ _ | responseProgress _ _ _ _ | audioFinished _ _ => true
  | _ => false

def withoutAudio : OutputEvent → OutputEvent
  | responseFinished id item text _ status reason => responseFinished id item text false status reason
  | event => event

end OutputEvent

namespace Event

def responseId? : Event → Option String
  | output event => event.responseId?
  | control _ => none

end Event

structure Envelope where
  event : Event
  isControl : Bool := false
  chunkIndex : Nat := 0
  outputModalities : Option (List Modality) := none
  deriving DecidableEq

def envelopeBytes : Nat := 256

def envelopeSizeBytes (envelope : Envelope) : Nat :=
  match envelope.event with
  | .output (.audioDelta _ _ pcm) => (pcm.length + 2) / 3 * 4 + envelopeBytes
  | .output (.textDelta _ _ text) | .output (.textFinished _ _ text)
  | .output (.responseFinished _ _ text _ _ _) | .output (.inputTranscription _ text _) =>
    text.utf8ByteSize + envelopeBytes
  | _ => envelopeBytes

/-- The part of `RuntimeLimits` that the buffer reads. -/
structure OutputLimits where
  maxOutputBytes : Nat
  maxHistoryChars : Nat

structure ResponseState where
  outputModalities : List Modality
  itemId : String := ""
  text : String := ""
  isTerminal : Bool := false
  isVisible : Bool := false
  isTerminalSent : Bool := false
  hasCloseTerminalsQueued : Bool := false
  isTextDoneSent : Bool := false
  isAudioDoneSent : Bool := false
  isAudioVisible : Bool := false

structure OutputBuffer where
  queuedEnvelopes : List (Envelope × Nat) := []
  queuedBytes : Nat := 0
  nextChunkIndex : Nat := 0
  responses : Dict String ResponseState := ∅

inductive EmitError
  | outputBudget
  | contextLimit
  | precedesCreation
  | duplicateCreation
  | secondItem
  | invalidPcm16
  deriving DecidableEq

/-- How `emit` goes on after it has noted an event: it raises, returns, or puts the event on the queue. -/
inductive Noted
  | raises (buffer : OutputBuffer) (error : EmitError)
  | returns (buffer : OutputBuffer)
  | queues (buffer : OutputBuffer)

namespace OutputBuffer

variable (limits : OutputLimits) (b : OutputBuffer)

def appendUnbounded (envelope : Envelope) (sizeBytes : Nat) : OutputBuffer :=
  { b with
    queuedEnvelopes := b.queuedEnvelopes ++ [(envelope, sizeBytes)]
    queuedBytes := b.queuedBytes + sizeBytes }

def enqueue (envelope : Envelope) : OutputBuffer × Option EmitError :=
  let sizeBytes := envelopeSizeBytes envelope
  if limits.maxOutputBytes < b.queuedBytes + sizeBytes then (b, some .outputBudget)
  else (b.appendUnbounded envelope sizeBytes, none)

def dequeue : Option (Envelope × OutputBuffer) :=
  match b.queuedEnvelopes with
  | [] => none
  | (envelope, sizeBytes) :: rest =>
    some (envelope, { b with queuedEnvelopes := rest, queuedBytes := b.queuedBytes - sizeBytes })

def clear : OutputBuffer := { b with queuedEnvelopes := [], queuedBytes := 0 }

def purge (keeps : Envelope → Bool) : OutputBuffer :=
  let kept := b.queuedEnvelopes.filter fun queued => keeps queued.1
  { b with queuedEnvelopes := kept, queuedBytes := (kept.map Prod.snd).sum }

def startResponse (responseId : String) (modalities : List Modality) : Noted :=
  if b.responses.contains responseId then .raises b .duplicateCreation
  else .queues { b with responses := b.responses.set responseId { outputModalities := modalities } }

def setResponse (responseId : String) (state : ResponseState) : OutputBuffer :=
  { b with responses := b.responses.set responseId state }

def isAudioOf (responseId : String) (envelope : Envelope) : Bool :=
  match envelope.event with
  | .output (.audioDelta id _ _) => id = responseId
  | _ => false

def noteText (responseId : String) (state : ResponseState) (text : String) : Noted :=
  if limits.maxHistoryChars < text.length then .raises (b.setResponse responseId state) .contextLimit
  else .queues (b.setResponse responseId { state with text := text })

def notePart (event : OutputEvent) (responseId : String) (state : ResponseState) : Noted :=
  match event with
  | .textDelta _ _ text => b.noteText limits responseId state (state.text ++ text)
  | .textFinished _ _ text => b.noteText limits responseId state text
  | .audioDelta _ _ pcm =>
    if pcm.length % 2 ≠ 0 then .raises (b.setResponse responseId state) .invalidPcm16
    else .queues (b.setResponse responseId state)
  | .responseFinished _ _ _ _ status _ =>
    let b := b.setResponse responseId { state with isTerminal := true }
    .queues (if status = .cancelled then b.purge fun e => !isAudioOf responseId e else b)
  | _ => .queues (b.setResponse responseId state)

def note (event : OutputEvent) (modalities : List Modality) : Noted :=
  match event with
  | .responseStarted responseId => b.startResponse responseId modalities
  | _ =>
    match event.part? with
    | none => .queues b
    | some (responseId, itemId) =>
      match b.responses.get? responseId with
      | none => .raises b .precedesCreation
      | some state =>
        if state.isTerminal then .returns b
        else if state.itemId ≠ "" ∧ itemId ≠ state.itemId then .raises b .secondItem
        else b.notePart limits event responseId { state with itemId := itemId }

def modalitiesOf (event : OutputEvent) (outputModalities : List Modality) : List Modality :=
  match event.responseId?.bind b.responses.get? with
  | some state => if state.outputModalities = [] then outputModalities else state.outputModalities
  | none => outputModalities

def queueOutput (event : OutputEvent) (modalities : List Modality) : OutputBuffer × Option EmitError :=
  match b.enqueue limits {
      event := .output event, chunkIndex := b.nextChunkIndex, outputModalities := some modalities } with
  | (b, some error) => (b, some error)
  | (b, none) => ({ b with nextChunkIndex := b.nextChunkIndex + 1 }, none)

def emit (event : OutputEvent) (outputModalities : List Modality) : OutputBuffer × Option EmitError :=
  let modalities := b.modalitiesOf event outputModalities
  if event.isAudio ∧ .audio ∉ modalities then (b, none)
  else
    let event := if .audio ∈ modalities then event else event.withoutAudio
    match b.note limits event modalities with
    | .raises b error => (b, some error)
    | .returns b => (b, none)
    | .queues b => b.queueOutput limits event modalities

end OutputBuffer

end Realtime
