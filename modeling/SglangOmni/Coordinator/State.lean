import Mathlib.Data.Finset.Basic
import Mathlib.Data.Finset.Dedup
import Mathlib.Data.List.Infix
import SglangOmni.Lib.Dict

/-! The data of the coordinator (`pipeline/coordinator.py`, `proto/request.py`, `admission.py`):
the messages that stages send it, the tables that own a request, and where each of its coroutines
is suspended.

Python compares futures, queues and request records by identity.  One accepted submission creates
one of each, so the number of the submission, its `Admission`, is the identity of all of them: the
tables hold admissions, and `infos`, `futures` and `queues` hold what the objects contain, also
after a table let go of them. -/

namespace Coordinator

open Lib

abbrev RequestId := String
abbrev StageName := String
abbrev Admission := Nat
abbrev TaskId := Nat

/-! ### Messages -/

inductive PayloadValue
  | bytes (data : List UInt8)
  | other (text : String)
  deriving DecidableEq

inductive Payload
  | dict (items : List (String × PayloadValue))
  | other (text : String)
  deriving DecidableEq

/-- The length of a value that is `bytes`, and 0 for any other. -/
def PayloadValue.byteLength : PayloadValue → Nat
  | .bytes data => data.length
  | .other _ => 0

/-- The binary bytes among the values of a dictionary, and 0 for any other payload. -/
def Payload.byteLength : Payload → Nat
  | .dict items => (items.map fun item => item.2.byteLength).sum
  | .other _ => 0

structure CompleteMessage where
  requestId : RequestId
  fromStage : StageName
  success : Bool
  result : Payload := .other "None"
  error : Option String := none
  deriving DecidableEq

structure StreamMessage where
  requestId : RequestId
  fromStage : StageName
  chunk : Payload
  stageName : Option StageName := none
  deriving DecidableEq

inductive QueueMessage
  | complete (msg : CompleteMessage)
  | stream (msg : StreamMessage)
  deriving DecidableEq

/-- `stream_message_payload_bytes`: the binary payload bytes a stream reader gets with a message. -/
def streamMessagePayloadBytes : QueueMessage → Nat
  | .complete msg => msg.result.byteLength
  | .stream msg => msg.chunk.byteLength

def QueueMessage.isFailure : QueueMessage → Bool
  | .complete msg => !msg.success
  | .stream _ => false

/-! ### Errors -/

def queueFullMessage : String := "The request queue is full."

def adminDroppedMessage : String := "The request was dropped by an admin action."

inductive Failure
  | queueFull (message : String)
  | runtime (message : String)
  | cancelled (message : String)
  deriving DecidableEq

/-- `QueueFullError.matches` on the error text of a message. -/
def queueFullMatches : Option String → Bool
  | none => false
  | some text => decide (queueFullMessage.toList <:+: text.toList)

/-- `QueueFullError.from_message`; an empty text counts as none. -/
def failureFromMessage (error : Option String) : Failure :=
  match error with
  | none => .runtime "Unknown error"
  | some text =>
    if queueFullMatches (some text) then .queueFull text
    else if text = "" then .runtime "Unknown error"
    else .runtime text

/-- `AdminDroppedRequestError.matches` on the error text of a message. -/
def adminDroppedMatches (error : Option String) : Bool := error = some adminDroppedMessage

/-! ### Tables -/

inductive RequestState
  | pending | running | completed | failed | aborted
  deriving DecidableEq

/-- What a completed request returns: the result of its one terminal stage, or the results of all
of them by stage. -/
inductive Outcome
  | single (result : Payload)
  | merged (partials : List (StageName × Payload))
  deriving DecidableEq

structure RequestInfo where
  requestId : RequestId
  state : RequestState
  terminalStages : Finset StageName
  countsTowardAdmission : Bool
  result : Option Outcome := none
  error : Option String := none

inductive FutureState
  | pending
  | result (value : Outcome)
  | exception (failure : Failure)
  | cancelled
  deriving DecidableEq

/-- Payload bytes queued for one stream reader that it has not taken yet.  `owner` is the admission
that created the record. -/
structure StreamBacklog where
  owner : Admission
  undeliveredBytes : Int
  readerIdleSince : Nat
  deriving DecidableEq

/-! ### Coroutines -/

inductive AbortStatus
  | running | succeeded | failed
  deriving DecidableEq

/-- A `run_abort` task.  `began` is the number of admissions made before it was created. -/
structure AbortTask where
  requestId : RequestId
  status : AbortStatus
  began : Nat

/-- Whether the caller of a submission awaits its future or reads its stream. -/
inductive CallerKind
  | plain | stream
  deriving DecidableEq

/-- Where the coroutine that made a submission is suspended: `submit`, a session operation or
`stream`. -/
inductive Caller
  /-- awaiting the send to the entry stage -/
  | submitting (kind : CallerKind)
  /-- awaiting the completion future -/
  | awaiting
  /-- awaiting the next message of the stream queue -/
  | reading (expected completed : Finset StageName)
  /-- holding the generator at `yield msg` -/
  | yielded (expected completed : Finset StageName) (msg : QueueMessage)
  /-- in `release_submission`, awaiting the abort -/
  | releasing (kind : CallerKind)
  /-- in the `finally` of `stream`, awaiting the abort -/
  | leaving (returned : Bool)
  /-- ended; `returned` when a stream ended by completing -/
  | ended (returned : Bool)

inductive LoopError
  | missingBacklog | missingFuture | missingQueue | minOfEmpty
  deriving DecidableEq

inductive Loop
  /-- awaiting the next event -/
  | idle
  /-- in `handle_completion`, awaiting the abort of an admin-dropped request -/
  | awaitingAbort (task : TaskId) (msg : CompleteMessage) (info : Admission)
  /-- in `handle_completion`, awaiting the abort broadcast of a failed request; `rest` are the
  streams that an enclosing `queue_stream_message` still has to fail, with their queues -/
  | broadcasting (msg : CompleteMessage) (info : Admission) (rest : List (RequestId × Admission))
  /-- ended by an exception -/
  | crashed (error : LoopError)
  /-- cancelled -/
  | stopped

structure State where
  requests : Dict RequestId Admission
  infos : Admission → RequestInfo
  completionFutures : Dict RequestId Admission
  futures : Admission → FutureState
  streamQueues : Dict RequestId Admission
  queues : Admission → List QueueMessage
  streamBacklogs : Dict RequestId StreamBacklog
  streamBacklogBytes : Int
  failedStreamCount : Nat
  partialResults : Dict RequestId (Dict StageName Payload)
  abortTasks : Dict RequestId TaskId
  tasks : TaskId → AbortTask
  nextTask : TaskId
  fatalError : Option String
  callers : Admission → Caller
  loop : Loop
  /-- the number of admissions made before the completion loop took its current event -/
  loopBegan : Nat
  nextAdmission : Admission
  /-- the messages that the reader of an admission has yielded, oldest first -/
  yields : Admission → List QueueMessage

/-- What a `terminal_stages_resolver` returns: nothing, something that is no sequence, or a
sequence in which an element that is no string is `none`. -/
inductive Resolved
  | none
  | notSequence
  | names (stages : List (Option StageName))

/-- The parameters of a coordinator whose requests are of type `ρ`. -/
structure Config (ρ : Type) where
  terminalStages : Finset StageName
  terminalStagesResolver : Option (ρ → Resolved)
  /-- `replica_topology.logical_name` -/
  logicalName : StageName → StageName
  stages : List StageName
  maxInFlight : Option Nat
  maxTotalBacklogBytes : Option Nat

def State.init : State where
  requests := ∅
  infos _ := ⟨"", .pending, ∅, false, none, none⟩
  completionFutures := ∅
  futures _ := .pending
  streamQueues := ∅
  queues _ := []
  streamBacklogs := ∅
  streamBacklogBytes := 0
  failedStreamCount := 0
  partialResults := ∅
  abortTasks := ∅
  tasks _ := ⟨"", .failed, 0⟩
  nextTask := 0
  fatalError := none
  callers _ := .ended false
  loop := .idle
  loopBegan := 0
  nextAdmission := 0
  yields _ := []

end Coordinator
