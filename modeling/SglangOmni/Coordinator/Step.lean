import Mathlib.Data.Finset.Card
import Mathlib.Data.List.MinMax
import SglangOmni.Coordinator.State
import SglangOmni.Lib.Machine

/-! The coroutines of the coordinator, cut where they can suspend: at the sends of the control
plane, at an awaited abort task, at an awaited future or queue, and at a `yield`.  Between two such
points a coroutine runs alone, so each function below is one uninterrupted segment.  `Action` names
every segment that can run next and `machine` runs it.

A coroutine that awaits an abort may also be cancelled there.  `release_submission` and the cleanup
of `stream` then go on as they do after the abort, so their segments have no precondition on it. -/

namespace Coordinator

open Lib

variable {ρ : Type}

/-! ### Objects -/

/-- Change the record of admission `a`. -/
def State.setInfo (s : State) (a : Admission) (change : RequestInfo → RequestInfo) : State :=
  { s with infos := Function.update s.infos a (change (s.infos a)) }

def State.settle (s : State) (a : Admission) (state : FutureState) : State :=
  { s with futures := Function.update s.futures a state }

/-- Put a message on the queue of admission `q`, which is unbounded. -/
def State.push (s : State) (q : Admission) (msg : QueueMessage) : State :=
  { s with queues := Function.update s.queues q (s.queues q ++ [msg]) }

def State.clearQueue (s : State) (q : Admission) : State :=
  { s with queues := Function.update s.queues q [] }

/-- Count `size` more bytes for the reader of `r`, whose backlog becomes `backlog`. -/
def State.countBytes (s : State) (r : RequestId) (backlog : StreamBacklog) (size : Int) : State :=
  { s with
    streamBacklogs := s.streamBacklogs.set r backlog
    streamBacklogBytes := s.streamBacklogBytes + size }

/-- Drop the backlog of `r` with the bytes it counts. -/
def State.popBacklog (s : State) (r : RequestId) (backlog : StreamBacklog) : State :=
  { s with
    streamBacklogs := s.streamBacklogs.erase r
    streamBacklogBytes := s.streamBacklogBytes - backlog.undeliveredBytes }

def State.popFuture (s : State) (r : RequestId) : State :=
  { s with
    completionFutures := s.completionFutures.erase r
    failedStreamCount := s.failedStreamCount + 1 }

/-- Move the coroutine of admission `a`. -/
def State.setCaller (s : State) (a : Admission) (caller : Caller) : State :=
  { s with callers := Function.update s.callers a caller }

def State.requestId (s : State) (a : Admission) : RequestId := (s.infos a).requestId

/-- Drop what a submission or a reader holds of `r`: its future, its stream queue and its backlog
with the bytes that the backlog counts. -/
def State.dropOwned (s : State) (r : RequestId) : State :=
  { s with
    completionFutures := s.completionFutures.erase r
    streamQueues := s.streamQueues.erase r
    streamBacklogs := s.streamBacklogs.erase r
    streamBacklogBytes := s.streamBacklogBytes -
      (s.streamBacklogs.get? r).elim 0 StreamBacklog.undeliveredBytes }

/-- `reject_completion_future`: a stream's future is cancelled, as nobody awaits it. -/
def rejectCompletionFuture (s : State) (r : RequestId) (failure : Failure) : State :=
  match s.completionFutures.get? r with
  | none => s
  | some a =>
    if s.futures a ≠ .pending then s
    else if s.streamQueues.contains r then s.settle a .cancelled
    else s.settle a (.exception failure)

/-! ### Submission -/

/-- What `resolve_terminal_stages` raises. -/
inductive ResolverError
  | notSequence
  | notNames
  | noStages
  | unknownStages (unknown : Finset StageName)

/-- What `submit_request` raises before it changes anything. -/
inductive SubmitError
  | fatal (message : String)
  | alreadyExists (requestId : RequestId)
  | queueFull
  | entryNotRegistered (entry : StageName)
  | resolver (error : ResolverError)

def resolveTerminalStages (cfg : Config ρ) (request : ρ) :
    Except ResolverError (Finset StageName) :=
  match cfg.terminalStagesResolver with
  | none => .ok cfg.terminalStages
  | some resolver =>
    match resolver request with
    | .none => .ok cfg.terminalStages
    | .notSequence => .error .notSequence
    | .names stages =>
      if stages.any Option.isNone then .error .notNames
      else
        let resolved := (stages.filterMap id).toFinset
        if resolved = ∅ then .error .noStages
        else if resolved \ cfg.terminalStages ≠ ∅ then
          .error (.unknownStages (resolved \ cfg.terminalStages))
        else .ok resolved

def expectedTerminalStages (cfg : Config ρ) (s : State) (r : RequestId) : Finset StageName :=
  match s.requests.get? r with
  | none => cfg.terminalStages
  | some a => (s.infos a).terminalStages

def requestIdIsReserved (s : State) (r : RequestId) : Bool :=
  s.requests.contains r || s.completionFutures.contains r || s.streamQueues.contains r ||
    s.abortTasks.contains r

def inFlight (s : State) : Nat :=
  (s.requests.entries.filter fun e => (s.infos e.2).countsTowardAdmission).length

/-- The arguments of a submission.  `entry` is the entry stage, or the replica of it that the
bindings name, and `now` the clock. -/
structure Submission (ρ : Type) where
  requestId : RequestId
  kind : CallerKind
  request : ρ
  terminalStages : Option (Finset StageName) := none
  entry : StageName
  shouldBypassAdmission : Bool := false
  now : Nat

def trackRequest (s : State) (sub : Submission ρ) (terminal : Finset StageName) : State :=
  let a := s.nextAdmission
  let tracked : State :=
    { s with
      requests := s.requests.set sub.requestId a
      infos := Function.update s.infos a
        ⟨sub.requestId, .pending, terminal, !sub.shouldBypassAdmission, none, none⟩
      completionFutures := s.completionFutures.set sub.requestId a
      futures := Function.update s.futures a .pending
      callers := Function.update s.callers a (.submitting sub.kind)
      nextAdmission := a + 1 }
  match sub.kind with
  | .plain => tracked
  | .stream =>
    { tracked with
      streamQueues := s.streamQueues.set sub.requestId a
      queues := Function.update s.queues a []
      streamBacklogs := s.streamBacklogs.set sub.requestId ⟨a, 0, sub.now⟩ }

/-- `submit_request` up to its send to the entry stage. -/
def submitRequest (cfg : Config ρ) (s : State) (sub : Submission ρ) : Except SubmitError State :=
  match s.fatalError with
  | some message => .error (.fatal message)
  | none =>
    if requestIdIsReserved s sub.requestId then .error (.alreadyExists sub.requestId)
    else if !sub.shouldBypassAdmission && cfg.maxInFlight.any fun cap => decide (cap ≤ inFlight s) then
      .error .queueFull
    else if sub.entry ∉ cfg.stages then .error (.entryNotRegistered sub.entry)
    else
      match sub.terminalStages with
      | some terminal => .ok (trackRequest s sub terminal)
      | none =>
        match resolveTerminalStages cfg sub.request with
        | .error error => .error (.resolver error)
        | .ok terminal => .ok (trackRequest s sub terminal)

/-! ### Abort -/

/-- `abort` up to the task that it awaits; without a task it returns `False`. -/
def abort (s : State) (r : RequestId) : State × Option TaskId :=
  match s.abortTasks.get? r with
  | some t => (s, some t)
  | none =>
    match s.requests.get? r with
    | none => (s, none)
    | some a =>
      if (s.infos a).state = .completed ∨ (s.infos a).state = .aborted then (s, none)
      else
        let t := s.nextTask
        ({ s with
            abortTasks := s.abortTasks.set r t
            tasks := Function.update s.tasks t ⟨r, .running, s.nextAdmission⟩
            nextTask := t + 1 }, some t)

def coordinatorFailure (r : RequestId) (error : String) : CompleteMessage :=
  { requestId := r, fromStage := "coordinator", success := false, error := some error }

def State.endTask (s : State) (t : TaskId) (status : AbortStatus) : State :=
  { s with tasks := Function.update s.tasks t { s.tasks t with status } }

/-- What `run_abort` does to the request of its ID once its broadcast was sent. -/
def endAborted (s : State) (r : RequestId) : State :=
  match s.requests.get? r with
  | none => s
  | some a =>
    let s := s.setInfo a fun info => { info with state := .aborted }
    let s := rejectCompletionFuture s r (.cancelled ("Request " ++ r ++ " aborted"))
    let s := match s.streamQueues.get? r with
      | some q => s.push q (.complete (coordinatorFailure r "aborted"))
      | none => s
    { s with requests := s.requests.erase r, partialResults := s.partialResults.erase r }

/-- `run_abort` after its broadcast was sent. -/
def runAbort (s : State) (t : TaskId) : State :=
  (endAborted s (s.tasks t).requestId).endTask t .succeeded

def onAbortTaskDone (s : State) (t : TaskId) : State :=
  let r := (s.tasks t).requestId
  if s.abortTasks.get? r = some t then { s with abortTasks := s.abortTasks.erase r } else s

/-! ### The callers -/

/-- The `finally` of `stream` once the abort is over. -/
def finishLeave (s : State) (a : Admission) (returned : Bool) : State :=
  let s := if s.streamQueues.get? (s.requestId a) = some a then s.dropOwned (s.requestId a) else s
  s.setCaller a (.ended returned)

/-- The `finally` of `stream` up to the abort it awaits. -/
def leaveStream (s : State) (a : Admission) (returned : Bool) : State :=
  let r := s.requestId a
  if s.streamQueues.get? r = some a then
    if s.requests.contains r then
      match abort s r with
      | (s', some _) => s'.setCaller a (.leaving returned)
      | (s', none) => finishLeave s' a returned
    else finishLeave s a returned
  else s.setCaller a (.ended returned)

/-- What a caller does when its `release_submission` returned: the exception leaves `submit`, or
leaves `stream` through its `finally`. -/
def afterRelease (s : State) (a : Admission) : CallerKind → State
  | .plain => s.setCaller a (.ended false)
  | .stream => leaveStream s a false

/-- `release_submission` once the abort is over. -/
def finishRelease (s : State) (a : Admission) (kind : CallerKind) : State :=
  let r := s.requestId a
  afterRelease (if s.completionFutures.get? r = some a then s.dropOwned r else s) a kind

/-- `release_submission` up to the abort it awaits. -/
def releaseSubmission (s : State) (a : Admission) (kind : CallerKind) : State :=
  let r := s.requestId a
  if s.completionFutures.get? r = some a then
    let s' := if s.futures a = .pending then s.settle a .cancelled else s
    match abort s' r with
    | (s'', some _) => s''.setCaller a (.releasing kind)
    | (s'', none) => finishRelease s'' a kind
  else afterRelease s a kind

/-- `submit_request` after its send returned, and what its caller does next. -/
def sendReturned (cfg : Config ρ) (s : State) (a : Admission) (kind : CallerKind) : State :=
  let r := s.requestId a
  let s := match s.requests.get? r with
    | some b => s.setInfo b fun info => { info with state := .running }
    | none => s
  match kind with
  | .plain => s.setCaller a .awaiting
  | .stream => s.setCaller a (.reading (expectedTerminalStages cfg s r) ∅)

/-- `submit_request` after its send raised an `Exception`: no stage holds the request. -/
def sendFailed (s : State) (a : Admission) (kind : CallerKind) : State :=
  releaseSubmission { s with requests := s.requests.erase (s.requestId a) } a kind

/-- The backlog once its reader took `msg`. -/
def StreamBacklog.shrink (backlog : StreamBacklog) (msg : QueueMessage) (now : Nat) :
    StreamBacklog :=
  { backlog with
    undeliveredBytes := backlog.undeliveredBytes - streamMessagePayloadBytes msg
    readerIdleSince := now }

/-- The reader of `a` takes `msg` from its queue, which then holds `rest`. -/
def takeMessage (s : State) (a : Admission) (expected completed : Finset StageName)
    (msg : QueueMessage) (rest : List QueueMessage) (now : Nat) : State :=
  let r := s.requestId a
  let s := { s with queues := Function.update s.queues a rest }
  if msg.isFailure then leaveStream s a false
  else
    match s.streamBacklogs.get? r with
    | none => leaveStream s a false
    | some backlog =>
      let s := s.countBytes r (backlog.shrink msg now) (-streamMessagePayloadBytes msg)
      { s with yields := Function.update s.yields a (s.yields a ++ [msg]) }.setCaller a
        (.yielded expected completed msg)

/-- `stream` after the `yield` of `msg`: it returns once every expected stage completed. -/
def resumeStream (cfg : Config ρ) (s : State) (a : Admission)
    (expected completed : Finset StageName) : QueueMessage → State
  | .complete msg =>
    let completed := insert (cfg.logicalName msg.fromStage) completed
    if expected = ∅ ∨ expected ⊆ completed then leaveStream s a true
    else s.setCaller a (.reading expected completed)
  | .stream _ => s.setCaller a (.reading expected completed)

/-! ### The completion loop -/

/-- The failure branch of `handle_completion` up to its broadcast. -/
def failBroadcast (s : State) (msg : CompleteMessage) (a : Admission)
    (rest : List (RequestId × Admission)) : State :=
  { s.setInfo a fun info => { info with state := .failed, error := msg.error } with
    loop := .broadcasting msg a rest }

/-- The last loop of `queue_stream_message`: fail the streams over the cap.  An active request goes
through `handle_completion`, whose failure branch its error leads to, as it is no admin drop. -/
def failStreams (cfg : Config ρ) : State → List (RequestId × Admission) → State
  | s, [] => { s with loop := .idle }
  | s, (r, q) :: rest =>
    let failure := coordinatorFailure r queueFullMessage
    match s.requests.get? r with
    | none => failStreams cfg (s.push q (.complete failure)) rest
    | some a =>
      if (s.infos a).state = .failed then failStreams cfg (s.push q (.complete failure)) rest
      else failBroadcast s { failure with fromStage := cfg.logicalName "coordinator" } a rest

/-- The stream with undelivered bytes whose reader has been idle longest, the oldest of them on a
tie. -/
def idlest (backlogs : Dict RequestId StreamBacklog) : Option (RequestId × StreamBacklog) :=
  (backlogs.entries.filter fun e => 0 < e.2.undeliveredBytes).argmin fun e => e.2.readerIdleSince

/-- The eviction loop of `queue_stream_message`, which collects the streams to fail.  Each round
deletes a backlog, so `fuel` above the number of backlogs is enough. -/
def evict (cap : Option Nat) : Nat → State → List (RequestId × Admission) →
    Except (LoopError × State) (State × List (RequestId × Admission))
  | 0, s, streams => .ok (s, streams)
  | fuel + 1, s, streams =>
    match cap with
    | none => .ok (s, streams)
    | some limit =>
      if s.streamBacklogBytes ≤ limit then .ok (s, streams)
      else
        match idlest s.streamBacklogs with
        | none => .error (.minOfEmpty, s)
        | some (r, backlog) =>
          if s.completionFutures.get? r = none then .error (.missingFuture, s.popBacklog r backlog)
          else
            match s.streamQueues.get? r with
            | none => .error (.missingQueue, (s.popBacklog r backlog).popFuture r)
            | some q =>
              evict cap fuel (((s.popBacklog r backlog).popFuture r).clearQueue q)
                (streams ++ [(r, q)])

/-- The backlog once `msg` is queued: a reader that had nothing to take is idle from `now` on. -/
def StreamBacklog.grow (backlog : StreamBacklog) (msg : QueueMessage) (now : Nat) : StreamBacklog :=
  { backlog with
    undeliveredBytes := backlog.undeliveredBytes + streamMessagePayloadBytes msg
    readerIdleSince := if backlog.undeliveredBytes = 0 then now else backlog.readerIdleSince }

/-- Count `msg` for the reader of `r` and put it on the queue `q`. -/
def State.enqueue (s : State) (r : RequestId) (backlog : StreamBacklog) (q : Admission)
    (msg : QueueMessage) (now : Nat) : State :=
  (s.countBytes r (backlog.grow msg now) (streamMessagePayloadBytes msg)).push q msg

/-- `queue_stream_message` up to the first broadcast it suspends in. -/
def queueStreamMessage (cfg : Config ρ) (s : State) (r : RequestId) (msg : QueueMessage)
    (now : Nat) : State :=
  match s.streamBacklogs.get? r with
  | none => { s with loop := .crashed .missingBacklog }
  | some backlog =>
    match s.streamQueues.get? r with
    | none =>
      { s.countBytes r (backlog.grow msg now) (streamMessagePayloadBytes msg) with
        loop := .crashed .missingQueue }
    | some q =>
      let queued := s.enqueue r backlog q msg now
      match evict cfg.maxTotalBacklogBytes (queued.streamBacklogs.size + 1) queued [] with
      | .error (error, s') => { s' with loop := .crashed error }
      | .ok (s', streams) => failStreams cfg s' streams

def resolveFuture (s : State) (r : RequestId) (value : Outcome) : State :=
  match s.completionFutures.get? r with
  | none => s
  | some a => if s.futures a = .pending then s.settle a (.result value) else s

def completeRequest (s : State) (r : RequestId) (a : Admission) (value : Outcome) : State :=
  let s := s.setInfo a fun info => { info with state := .completed, result := some value }
  let s := resolveFuture s r value
  { s with requests := s.requests.erase r }

/-- Queue a completion for the reader of its request, if the request has one. -/
def deliverCompletion (cfg : Config ρ) (s : State) (msg : CompleteMessage) (now : Nat) : State :=
  if s.streamQueues.contains msg.requestId then
    queueStreamMessage cfg s msg.requestId (.complete msg) now
  else s

def collectPartial (s : State) (msg : CompleteMessage) (a : Admission)
    (expected : Finset StageName) : State :=
  let r := msg.requestId
  let partials := ((s.partialResults.get? r).getD ∅).set msg.fromStage msg.result
  if expected ⊆ partials.keys.toFinset then
    completeRequest { s with partialResults := s.partialResults.erase r } r a
      (.merged partials.entries)
  else { s with partialResults := s.partialResults.set r partials }

/-- `handle_completion` for the active request of admission `a`; `msg` names a logical stage. -/
def handleActive (cfg : Config ρ) (s : State) (msg : CompleteMessage) (a : Admission) (now : Nat) :
    State :=
  let r := msg.requestId
  if !msg.success then
    if adminDroppedMatches msg.error then
      match abort s r with
      | (s, some t) => { s with loop := .awaitingAbort t msg a }
      | (s, none) => s
    else failBroadcast s msg a []
  else
    let expected := expectedTerminalStages cfg s r
    if expected ≠ ∅ ∧ msg.fromStage ∉ expected then s
    else if expected.card ≤ 1 then
      deliverCompletion cfg (completeRequest s r a (.single msg.result)) msg now
    else deliverCompletion cfg (collectPartial s msg a expected) msg now

/-- `handle_completion` up to the first await it suspends in. -/
def handleCompletion (cfg : Config ρ) (s : State) (msg : CompleteMessage) (now : Nat) : State :=
  match s.requests.get? msg.requestId with
  | none => s
  | some a =>
    if (s.infos a).state = .failed then s
    else handleActive cfg s { msg with fromStage := cfg.logicalName msg.fromStage } a now

/-- `handle_stream` for a request that is no session operation. -/
def handleStream (cfg : Config ρ) (s : State) (msg : StreamMessage) (now : Nat) : State :=
  if s.streamBacklogs.contains msg.requestId then
    queueStreamMessage cfg s msg.requestId
      (.stream { msg with
        fromStage := cfg.logicalName msg.fromStage
        stageName := msg.stageName.map cfg.logicalName }) now
  else s

/-- The failure branch of `handle_completion` after its broadcast, sent or not. -/
def failRequest (s : State) (msg : CompleteMessage) (sent : Bool) : State :=
  let r := msg.requestId
  let s := if sent then { s with requests := s.requests.erase r } else s
  let s := { s with partialResults := s.partialResults.erase r }
  let s := rejectCompletionFuture s r (failureFromMessage msg.error)
  match s.streamQueues.get? r with
  | some q => s.push q (.complete msg)
  | none => s

/-- The rest of `handle_completion` after its broadcast, and the rest of the streams that the
enclosing `queue_stream_message` fails. -/
def broadcastReturned (cfg : Config ρ) (s : State) (msg : CompleteMessage)
    (rest : List (RequestId × Admission)) (sent : Bool) : State :=
  failStreams cfg (failRequest s msg sent) rest

/-! ### Shutdown -/

/-- One round of the loop of `fail_pending_requests`. -/
def failPendingRequest (message : String) (s : State) (entry : RequestId × Admission) : State :=
  let s := s.setInfo entry.2 fun info => { info with state := .failed, error := some message }
  let s := rejectCompletionFuture s entry.1 (.runtime message)
  match s.streamQueues.get? entry.1 with
  | some q => s.push q (.complete (coordinatorFailure entry.1 message))
  | none => s

def failPendingRequests (s : State) (message : String) : State :=
  let s := s.requests.entries.foldl (failPendingRequest message) { s with fatalError := some message }
  { s with requests := ∅, partialResults := ∅ }

/-! ### The machine -/

inductive Action (ρ : Type)
  /-- a caller starts `submit_request` -/
  | submit (sub : Submission ρ)
  /-- the send to the entry stage returned, raised, or was cancelled -/
  | sendReturned (a : Admission)
  | sendFailed (a : Admission)
  | sendCancelled (a : Admission)
  /-- a plain caller wakes on its settled future, or stops waiting for it -/
  | futureDone (a : Admission)
  | stopWaiting (a : Admission)
  /-- a reader takes the next message, goes on after a `yield`, or is closed -/
  | takeMessage (a : Admission) (now : Nat)
  | resumeStream (a : Admission)
  | closeStream (a : Admission)
  /-- the abort that a release or a cleanup awaits is over -/
  | finishRelease (a : Admission)
  | finishLeave (a : Admission)
  /-- somebody calls `abort` -/
  | abort (r : RequestId)
  /-- the broadcast of an abort task was sent, or raised; its done callback runs -/
  | abortSent (t : TaskId)
  | abortFailed (t : TaskId)
  | abortTaskDone (t : TaskId)
  /-- the completion loop takes an event -/
  | completion (msg : CompleteMessage) (now : Nat)
  | streamChunk (msg : StreamMessage) (now : Nat)
  /-- the completion loop wakes from the abort it awaits, or from its broadcast -/
  | loopAbortDone
  | broadcastReturned (sent : Bool)
  | cancelLoop
  | failPendingRequests (message : String)

def step (cfg : Config ρ) (s : State) : Action ρ → Option State
  | .submit sub =>
    match submitRequest cfg s sub with
    | .ok s' => some s'
    | .error _ => some s
  | .sendReturned a =>
    match s.callers a with
    | .submitting kind => some (Coordinator.sendReturned cfg s a kind)
    | _ => none
  | .sendFailed a =>
    match s.callers a with
    | .submitting kind => some (Coordinator.sendFailed s a kind)
    | _ => none
  | .sendCancelled a =>
    match s.callers a with
    | .submitting kind => some (releaseSubmission s a kind)
    | _ => none
  | .futureDone a =>
    match s.callers a with
    | .awaiting => if s.futures a = .pending then none else some (releaseSubmission s a .plain)
    | _ => none
  | .stopWaiting a =>
    match s.callers a with
    | .awaiting => some (releaseSubmission s a .plain)
    | _ => none
  | .takeMessage a now =>
    match s.callers a, s.queues a with
    | .reading expected completed, msg :: rest =>
      some (Coordinator.takeMessage s a expected completed msg rest now)
    | _, _ => none
  | .resumeStream a =>
    match s.callers a with
    | .yielded expected completed msg =>
      some (Coordinator.resumeStream cfg s a expected completed msg)
    | _ => none
  | .closeStream a =>
    match s.callers a with
    | .reading _ _ => some (leaveStream s a false)
    | .yielded _ _ _ => some (leaveStream s a false)
    | _ => none
  | .finishRelease a =>
    match s.callers a with
    | .releasing kind => some (Coordinator.finishRelease s a kind)
    | _ => none
  | .finishLeave a =>
    match s.callers a with
    | .leaving returned => some (Coordinator.finishLeave s a returned)
    | _ => none
  | .abort r => some (Coordinator.abort s r).1
  | .abortSent t => if (s.tasks t).status = .running then some (runAbort s t) else none
  | .abortFailed t => if (s.tasks t).status = .running then some (s.endTask t .failed) else none
  | .abortTaskDone t => if (s.tasks t).status = .running then none else some (onAbortTaskDone s t)
  | .completion msg now =>
    match s.loop with
    | .idle => some (handleCompletion cfg { s with loopBegan := s.nextAdmission } msg now)
    | _ => none
  | .streamChunk msg now =>
    match s.loop with
    | .idle => some (handleStream cfg { s with loopBegan := s.nextAdmission } msg now)
    | _ => none
  | .loopAbortDone =>
    match s.loop with
    | .awaitingAbort t msg a =>
      match (s.tasks t).status with
      | .running => none
      | .succeeded => some { s with loop := .idle }
      | .failed => some (failBroadcast s msg a [])
    | _ => none
  | .broadcastReturned sent =>
    match s.loop with
    | .broadcasting msg _ rest => some (Coordinator.broadcastReturned cfg s msg rest sent)
    | _ => none
  | .cancelLoop => some { s with loop := .stopped }
  | .failPendingRequests message => some (Coordinator.failPendingRequests s message)

def machine (cfg : Config ρ) : Machine State (Action ρ) := ⟨.init, step cfg⟩

end Coordinator
