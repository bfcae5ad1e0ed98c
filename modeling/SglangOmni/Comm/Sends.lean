import SglangOmni.Lib.Dict
import SglangOmni.Lib.Machine

/-! The send jobs of a `CommEngine` over one relay with a bounded number of credits.  A job takes one
credit for each tensor that it writes, registers the operations in `pending`, and publishes its
`DataReady`; the watcher of the transfer completes the operations, which returns their credits. -/

namespace Comm

open Lib

/-- What a job sends: a payload, or a stream chunk with the tensors of its metadata. -/
inductive Content
  | payload (requestId fromStage toStage : String)
  | stream (requestId fromStage targetStage : String) (chunkId metadataTensors : Nat)

def Content.queueKey : Content → String
  | .payload _ _ toStage => toStage
  | .stream _ _ targetStage _ _ => targetStage

def Content.tensors : Content → Nat
  | .payload .. => 1
  | .stream _ _ _ _ metadataTensors => 1 + metadataTensors

/-- The object ID of the transfer; a stream chunk's has the next number of `stream_send_sequence`. -/
def Content.objectId (sequence : Nat) : Content → String
  | .payload requestId fromStage toStage => s!"{requestId}:payload:{fromStage}:{toStage}"
  | .stream requestId fromStage targetStage chunkId _ =>
    s!"{requestId}:stream:{fromStage}:{targetStage}:{chunkId}:{sequence}"

/-- How many numbers of `stream_send_sequence` the job takes. -/
def Content.sequenceNumbers : Content → Nat
  | .payload .. => 0
  | .stream .. => 1

/-- Where a job stands: in its queue, writing tensors, registered and publishing, or ended after it
was registered or not. -/
inductive JobPhase
  | queued
  | writing
  | publishing
  | ended (registered : Bool)
  deriving DecidableEq

/-- A send job.  `ops` are the operations that its puts returned; `readyDone` says that the caller no
longer waits for it. -/
structure Job where
  content : Content
  phase : JobPhase := .queued
  objectId : String := ""
  ops : List Nat := []
  readyDone : Bool := false

/-- The state of the future `PendingTransfer.ack`. -/
inductive Ack
  | waiting
  | succeeded
  | failed
  | cancelled
  deriving DecidableEq

/-- The task that watches a transfer: not created, waiting for the ack, or completing the operations. -/
inductive Watch
  | unarmed
  | waitingAck
  | completing
  deriving DecidableEq

structure PendingTransfer where
  ops : List Nat
  ack : Ack := .waiting
  watch : Watch := .unarmed

/-- The sending side of a `CommEngine`.  `sem` is the number of free credits of the relay, `held` are
the operations that are not completed, each of which holds one, and `nextOp` numbers the operations. -/
structure Sends where
  sem : Nat
  held : List Nat := []
  nextOp : Nat := 0
  jobs : List Job := []
  pending : Dict String PendingTransfer := ∅
  streamSendSequence : Nat := 0
  closed : Bool := false

def Sends.failPending (s : Sends) (objectId : String) : Sends :=
  match s.pending.get? objectId with
  | none => s
  | some p =>
    { s with
      pending := s.pending.set objectId
        { p with
          ack := if p.ack = .waiting then .failed else p.ack
          watch := if p.watch = .unarmed then .waitingAck else p.watch } }

def Sends.setJob (s : Sends) (j : Nat) (job : Job) : Sends := { s with jobs := s.jobs.set j job }

def Sends.takeCredit (s : Sends) (job : Job) : Sends × Job :=
  ({ s with sem := s.sem - 1, held := s.held ++ [s.nextOp], nextOp := s.nextOp + 1 },
    { job with ops := job.ops ++ [s.nextOp] })

/-- `register_pending`, from `publish_data_ready`; a job whose object ID is pending already fails, and
with it the transfer that is pending. -/
def Sends.register (s : Sends) (j : Nat) (job : Job) : Sends :=
  if s.pending.contains job.objectId then
    (s.failPending job.objectId).setJob j { job with phase := .ended false }
  else
    { s with pending := s.pending.set job.objectId { ops := job.ops } }.setJob j
      { job with phase := .publishing }

/-- A put of job `j` returns, and after the last one the job registers its transfer. -/
def Sends.put (s : Sends) (j : Nat) (job : Job) : Sends :=
  let (s, job) := s.takeCredit job
  if job.ops.length = job.content.tensors then s.register j job else s.setJob j job

/-- The rest of a send job after its message is sent: `arm_pending` raises if the transfer is gone or
has its watcher, and the job's `ready` may be done; either fails the transfer. -/
def Sends.published (s : Sends) (j : Nat) (job : Job) : Sends :=
  let job' := { job with phase := .ended true }
  match s.pending.get? job.objectId with
  | none => s.setJob j job'
  | some p =>
    if p.watch ≠ .unarmed then (s.failPending job.objectId).setJob j job'
    else
      let s :=
        { s with pending := s.pending.set job.objectId { p with watch := .waitingAck } }
      (if job.readyDone then s.failPending job.objectId else s).setJob j job'

def Sends.ackTransfer (s : Sends) (objectId : String) (success : Bool) : Sends :=
  match s.pending.get? objectId with
  | none => s
  | some p =>
    if p.ack = .waiting then
      { s with
        pending := s.pending.set objectId { p with ack := if success then .succeeded else .failed } }
    else s

/-- The next job of its queue can start: every job before it in the queue has ended. -/
def Sends.isNext (s : Sends) (j : Nat) (job : Job) : Bool :=
  (s.jobs.take j).all fun other =>
    other.content.queueKey ≠ job.content.queueKey || other.phase = .ended true ||
      other.phase = .ended false

/-- What can happen: a job is queued, its caller gives up, its worker starts it, a put returns, a put
returns and what is built from its operation raises, the job fails while it writes, its message is sent
or not; an ack arrives; a watcher stops waiting for it, completes an operation, or ends; the engine
closes. -/
inductive SendAction
  | enqueue (content : Content)
  | cancelReady (j : Nat)
  | start (j : Nat)
  | put (j : Nat)
  | putUnusable (j : Nat)
  | fail (j : Nat)
  | published (j : Nat)
  | publishFails (j : Nat)
  | ack (objectId : String) (success : Bool)
  | watch (objectId : String)
  | complete (objectId : String)
  | pop (objectId : String)
  | close

def Sends.whenJob (s : Sends) (j : Nat) (phase : JobPhase) (next : Job → Option Sends) :
    Option Sends :=
  match s.jobs[j]? with
  | some job => if job.phase = phase then next job else none
  | none => none

def Sends.whenWatch (s : Sends) (objectId : String) (watch : Watch)
    (next : PendingTransfer → Option Sends) : Option Sends :=
  match s.pending.get? objectId with
  | some p => if p.watch = watch then next p else none
  | none => none

/-- One step of the engine.  A put can return only while a credit is free. -/
def Sends.step (s : Sends) : SendAction → Option Sends
  | .enqueue content => some { s with jobs := s.jobs ++ [{ content := content }] }
  | .cancelReady j => s.jobs[j]?.map fun job => s.setJob j { job with readyDone := true }
  | .start j => s.whenJob j .queued fun job =>
    if s.closed || !s.isNext j job then none
    else
      some
        ({ s with
          streamSendSequence := s.streamSendSequence + job.content.sequenceNumbers }.setJob j
          { job with phase := .writing, objectId := job.content.objectId s.streamSendSequence })
  | .put j => s.whenJob j .writing fun job => if s.sem = 0 then none else some (s.put j job)
  | .putUnusable j => s.whenJob j .writing fun job =>
    if s.sem = 0 then none
    else
      let (s, job) := s.takeCredit job
      some (s.setJob j { job with phase := .ended false })
  | .fail j => s.whenJob j .writing fun job => some (s.setJob j { job with phase := .ended false })
  | .published j => s.whenJob j .publishing fun job => some (s.published j job)
  | .publishFails j => s.whenJob j .publishing fun job =>
    some ((s.failPending job.objectId).setJob j { job with phase := .ended true })
  | .ack objectId success => some (s.ackTransfer objectId success)
  | .watch objectId => s.whenWatch objectId .waitingAck fun p =>
    some { s with
      pending := s.pending.set objectId
        { p with
          ack := if p.ack = .waiting then .cancelled else p.ack
          watch := .completing } }
  | .complete objectId => s.whenWatch objectId .completing fun p =>
    (p.ops.find? (· ∈ s.held)).map fun op =>
      { s with sem := s.sem + 1, held := s.held.erase op }
  | .pop objectId => s.whenWatch objectId .completing fun p =>
    if p.ops.any (· ∈ s.held) then none else some { s with pending := s.pending.erase objectId }
  | .close => some (s.pending.keys.foldl Sends.failPending { s with closed := true })

/-- An engine over a relay with `credits` credits. -/
def sends (credits : Nat) : Machine Sends SendAction where
  init := { sem := credits }
  step := Sends.step

end Comm
