import SglangOmni.Lib.Machine
import SglangOmni.Proto.Graph
import SglangOmni.Session.Delivery

/-! One `Session`: a fixed route of stage owners, opened by the client or by a graph for one of its
nodes.  The pump sends its appends one at a time, controls hold barriers against them, one reader
takes its outputs, and a close ends all of it.  Every coroutine is cut where it can suspend, and a
waiting coroutine may look again at any time.  What the owners do is left open: they stream any chunk,
and finish or fail any operation.  `log` and the calls of `control_session` are history; the barriers
name a call by its place among them. -/

namespace Route

open Lib Proto Session

structure Config where
  isNode : Bool
  stages : List String
  logicalName : String → String
  limits : SessionLimits
  packer : Packer
  leadMs : ℚ
  identity : SessionIdentity

/-- `PendingSessionChunk`, less its request id. -/
structure PendingChunk where
  chunk : TimedChunk
  encodedBytes : Nat
  continues : Bool

inductive InFlight
  | accepted
  | submitted
  deriving DecidableEq

/-- Where the pump is: not created, at the head of its loop, with a chunk it took off `pending`, with
one whose operation failed, or over. -/
inductive Pump
  | unstarted
  | ready
  | holding (p : PendingChunk)
  | failing (p : PendingChunk)
  | ended

/-- The chunk that the pump took off `pending`. -/
def Pump.held : Pump → Option PendingChunk
  | .holding p | .failing p => some p
  | .unstarted | .ready | .ended => none

inductive Reader
  | absent
  | waiting
  | yielding
  deriving DecidableEq

/-- Where `cleanup_session` is suspended. -/
inductive Cleanup
  | absent
  | joiningRead
  | joiningPump
  | cancellingPump
  | closingOwners
  deriving DecidableEq

/-- Where a call of `control_session` is suspended: it waits for its turn among the appends, or sends
the event to the owners that are left. -/
inductive CallPhase
  | waiting
  | sending (left : List String)
  | ended
  deriving DecidableEq

/-- A call of `control_session` that has its barrier. -/
structure Call where
  arrivedAt : Nat
  owners : List String
  shouldPreempt : Bool
  isOrdered : Bool
  phase : CallPhase

/-- What happens to the appends, by their number, and to the controls, by the place of their call. -/
inductive Event
  | accepted (seq : Nat)
  | submitting (seq : Nat)
  | submitted (seq : Nat)
  | completed (seq : Nat)
  | dropped (seq : Nat)
  | called (i : Nat)
  | sent (i : Nat) (owner : String) (shouldPreempt isOrdered : Bool)
  | finished (i : Nat)
  deriving DecidableEq

/-- `Session` and its tasks.  `isOpening` says that `open_route` holds the lock. -/
structure State where
  pending : List PendingChunk := []
  pendingBytes : Int := 0
  pendingCount : Int := 0
  controlBarriers : List (Nat × Nat) := []
  inFlightAppend : Option InFlight := none
  outputs : List Budgeted := []
  outputBytes : Int := 0
  pacer : Pacer := {}
  nextInput : Nat := 0
  nextOutput : Nat := 0
  nextDelivered : Nat := 0
  modalityEndMs : Dict String ℚ := ∅
  endedModalities : List String := []
  isOpening : Bool := true
  isClosing : Bool := false
  isClosed : Bool := false
  pump : Pump := .unstarted
  reader : Reader := .absent
  cleanup : Cleanup := .absent
  calls : List Call := []
  log : List Event := []

namespace State

variable (cfg : Config) (s : State)

/-- `begin_session_close`. -/
def beginClose : State :=
  { s with
    isClosing := true
    outputs := []
    pacer := { s.pacer with items := [], unsent := [] }
    outputBytes := 0 }

def record (e : Event) : State := { s with log := s.log ++ [e] }

/-! ### Appends -/

/-- `check_timing`; a node keeps no timeline. -/
def timingOk (chunk : TimedChunk) : Bool :=
  0 ≤ chunk.durationMs &&
    (cfg.isNode || (s.modalityEndMs.get? chunk.modality).getD 0 ≤ chunk.tStartMs)

def admitsInput (chunk : TimedChunk) : Bool :=
  !s.endedModalities.contains chunk.modality &&
    cfg.packer.wireSize chunk ≤ cfg.limits.maxChunkBytes &&
    (s.modalityEndMs.contains chunk.modality || s.modalityEndMs.size < cfg.limits.maxModalities)

/-- Whether `append_session` has room for a chunk of so many bytes. -/
def hasRoom (encodedBytes : Nat) : Bool :=
  s.pendingCount < cfg.limits.maxPendingChunks &&
    s.pendingBytes + encodedBytes ≤ cfg.limits.maxPendingBytes

/-- `append_session`: nothing where it refuses the chunk. -/
def append (chunk : TimedChunk) (continues : Bool) : Option State :=
  let encodedBytes := cfg.packer.wireSize chunk
  if s.isClosing ∨ s.isClosed ∨ chunk.seq ≠ s.nextInput ∨ ¬ s.timingOk cfg chunk ∨
      ¬ s.admitsInput cfg chunk ∨ ¬ s.hasRoom cfg encodedBytes then none
  else
    some { s with
      pending := s.pending ++ [{ chunk, encodedBytes, continues }]
      pendingCount := s.pendingCount + 1
      pendingBytes := s.pendingBytes + encodedBytes
      nextInput := s.nextInput + 1
      modalityEndMs := s.modalityEndMs.set chunk.modality (chunk.tStartMs + chunk.durationMs)
      endedModalities :=
        if chunk.eos && !cfg.isNode then s.endedModalities.insert chunk.modality
        else s.endedModalities
      pacer := if chunk.eos && !cfg.isNode then s.pacer.endInput else s.pacer
      log := s.log ++ [.accepted chunk.seq] }

/-! ### Outputs -/

/-- The output that `emit_session_output` makes of a chunk. -/
def output (inputSeq : Nat) (chunk : TimedChunk) (kind : OutputKind) : OutputChunk where
  sessionIdentity := cfg.identity
  seq := s.nextOutput
  inputSeq := inputSeq
  modality := chunk.modality
  tStartMs := chunk.tStartMs
  durationMs := chunk.durationMs
  payload := chunk.payload
  format := chunk.format
  eos := chunk.eos
  turn := chunk.turn
  kind := kind

/-- `emit_session_output`: nothing where the budget has no room. -/
def emit (inputSeq : Nat) (chunk : TimedChunk) (kind : OutputKind) : Option State :=
  let output := s.output cfg inputSeq chunk kind
  let size := cfg.packer.outputSize output
  if s.isClosing then some s
  else if cfg.limits.maxOutputChunks ≤ s.outputs.length ∨
      s.outputBytes + size > cfg.limits.maxOutputBytes then none
  else
    some { s with
      outputs := s.outputs ++ [(output, size)]
      outputBytes := s.outputBytes + size
      nextOutput := s.nextOutput + 1 }

/-- The number that a streamed chunk is given: that of the append it belongs to, or of the latest input
where the read streams it.  Only an append has a handler for what it streams. -/
def streamedSeq (fromRead : Bool) : Option Nat :=
  if fromRead then some (s.nextInput - 1)
  else
    match s.pump with
    | .holding p => if p.continues then none else some p.chunk.seq
    | _ => none

/-- A chunk that an owner streams; one without room fails its operation, not the session. -/
def stream (fromRead : Bool) (chunk : TimedChunk) : Option State :=
  (s.streamedSeq fromRead).map fun inputSeq => (s.emit cfg inputSeq chunk .data).getD s

def readerEnds : State := { s.beginClose with reader := .absent }

/-- The end of one turn of the loop of `session_outputs`. -/
def passEnds : State := if s.isClosed then s.readerEnds else { s with reader := .waiting }

/-- The loop of `session_outputs` over the outputs of a session without a pacer. -/
def takeOutput : State :=
  match s.outputs with
  | [] => s.passEnds
  | (_, size) :: rest =>
    if s.isClosing then s.passEnds
    else { s with outputs := rest, outputBytes := s.outputBytes - size, reader := .yielding }

/-- The loop of `session_outputs` that sends what the pacer released. -/
def sendUnsent : State :=
  match s.pacer.unsent with
  | [] => s.passEnds
  | (_, size) :: rest =>
    if s.isClosing then s.passEnds
    else
      { s with
        pacer := { s.pacer with unsent := rest }
        outputBytes := s.outputBytes - size
        nextDelivered := s.nextDelivered + 1
        reader := .yielding }

/-- The loop of `session_outputs` that offers the outputs to the pacer; `offer` raises on a control
without a type. -/
def offerOutputs (pacer : Pacer) (outputBytes : Int) : List Budgeted → Option (Pacer × Int)
  | [] => some (pacer, outputBytes)
  | (output, size) :: rest =>
    if malformedControl output.format output.payload then none
    else offerOutputs (pacer.offer output size) (outputBytes - pacer.offered output) rest

/-- The outputs of an open session go to its pacer, which releases what may leave. -/
def pace (now : ℚ) : Option State :=
  match offerOutputs s.pacer s.outputBytes s.outputs with
  | none => none
  | some (pacer, outputBytes) =>
    match pacer.release cfg.packer cfg.leadMs now with
    | (_, none) => none
    | (pacer, some released) =>
      some { s with
        outputs := []
        outputBytes := outputBytes
        pacer := { pacer with unsent := pacer.unsent ++ released } }

/-- One turn of the loop of `session_outputs`, up to its first `yield` or its wait. -/
def readPass (now : ℚ) : State :=
  if cfg.isNode then s.takeOutput
  else if s.isClosing then s.sendUnsent
  else
    match s.pace cfg now with
    | none => s.readerEnds
    | some s => s.sendUnsent

/-- `session_outputs` after a `yield`. -/
def resumeRead : State := if cfg.isNode then s.takeOutput else s.sendUnsent

/-! ### The pump -/

def mayTake (p : PendingChunk) : Bool :=
  match s.controlBarriers with
  | [] => true
  | barrier :: _ => p.chunk.seq < barrier.1

def pumpTakes : Option State :=
  match s.pump, s.pending with
  | .ready, p :: rest =>
    if s.isClosing ∨ ¬ s.mayTake p then none
    else
      some { s with
        pending := rest
        pump := .holding p
        inFlightAppend := some .accepted
        log := s.log ++ [.submitting p.chunk.seq] }
  | _, _ => none

/-- The `finally` of the pump's turn. -/
def release (p : PendingChunk) (pump : Pump) : State :=
  { s with
    inFlightAppend := none
    pendingCount := s.pendingCount - 1
    pendingBytes := s.pendingBytes - p.encodedBytes
    pump := pump }

def pumpSubmits : Option State :=
  match s.pump with
  | .holding p =>
    if s.inFlightAppend = some .accepted then
      some { s with
        inFlightAppend := some .submitted
        log := s.log ++ [.submitted p.chunk.seq] }
    else none
  | _ => none

def submitFails : Option State :=
  match s.pump with
  | .holding p =>
    if s.inFlightAppend = some .accepted then some (s.beginClose.release p .ended) else none
  | _ => none

def operationEnds : Option State :=
  match s.pump with
  | .holding p =>
    if s.inFlightAppend = some .submitted then
      let s := s.record (.completed p.chunk.seq)
      match s.emit cfg p.chunk.seq { p.chunk with payload := .none } .inputDone with
      | none => some (s.beginClose.release p .ended)
      | some s => some (s.release p .ready)
    else none
  | _ => none

/-- The pump's operation fails or times out, which closes the session before the pump goes on. -/
def operationFails : Option State :=
  match s.pump with
  | .holding p =>
    if s.inFlightAppend = some .submitted then some { s.beginClose with pump := .failing p } else none
  | _ => none

def pumpFails : Option State :=
  match s.pump with
  | .failing p => some (s.release p .ended)
  | _ => none

def pumpExits (idle : Bool) : Option State :=
  match s.pump with
  | .ready =>
    if idle then some { s.beginClose with pump := .ended }
    else if s.isClosing then some { s with pump := .ended }
    else none
  | _ => none

def pumpCancelled : Option State :=
  if s.cleanup ≠ .cancellingPump then none
  else
    match s.pump with
    | .ready => some { s with pump := .ended }
    | .holding p | .failing p => some (s.release p .ended)
    | .unstarted | .ended => none

/-! ### Controls -/

def owners (stages : Option (List String)) : List String :=
  cfg.stages.filter fun owner =>
    match stages with
    | none => true
    | some stages => stages.contains (cfg.logicalName owner)

def offRoute (stages : Option (List String)) : Bool :=
  stages.any fun names => (owners cfg stages).length ≠ names.length

def purge (event : TimedChunk) : State :=
  if controlType event = some interrupt && !cfg.isNode then
    { s with
      pacer := s.pacer.purge event.turn
      outputBytes := s.outputBytes - s.pacer.purged event.turn }
  else s

def addBarrier (owners : List String) (shouldPreempt isOrdered : Bool) : State :=
  { s with
    controlBarriers := s.controlBarriers ++ [(s.nextInput, s.calls.length)]
    calls := s.calls ++ [{
      arrivedAt := s.nextInput
      owners := owners
      shouldPreempt := shouldPreempt
      isOrdered := isOrdered
      phase := if isOrdered then .waiting else .sending owners }]
    log := s.log ++ [.called s.calls.length] }

/-- `control_session` up to its wait.  It raises on stages off the route after the purge. -/
def control (event : TimedChunk) (stages : Option (List String)) (shouldPreempt isOrdered : Bool) :
    Option State :=
  if s.isClosing ∨ s.isClosed ∨ isMalformed event then none
  else
    let s := s.purge cfg event
    if offRoute cfg stages then some s
    else some (s.addBarrier (owners cfg stages) shouldPreempt isOrdered)

/-- Whether every append before a barrier is off `pending`. -/
def pendingAfter (seq : Nat) : Bool :=
  match s.pending with
  | [] => true
  | p :: _ => seq ≤ p.chunk.seq

def mayGo (i : Nat) (call : Call) : Bool :=
  s.controlBarriers.head? = some (call.arrivedAt, i) && s.pendingAfter call.arrivedAt &&
    (s.inFlightAppend = none || (call.shouldPreempt && s.inFlightAppend = some .submitted))

def setPhase (i : Nat) (call : Call) (phase : CallPhase) : State :=
  { s with calls := s.calls.set i { call with phase := phase } }

/-- The `finally` of `control_session`. -/
def endCall (i : Nat) (call : Call) : State :=
  { s.setPhase i call .ended with
    controlBarriers := s.controlBarriers.erase (call.arrivedAt, i)
    log := s.log ++ [.finished i] }

/-- A call that waits looks again: it raises in a session that closes, and goes out in its turn. -/
def controlLooks (i : Nat) (call : Call) : Option State :=
  if call.phase ≠ .waiting then none
  else if s.isClosing then some (s.endCall i call)
  else if s.mayGo i call then some (s.setPhase i call (.sending call.owners))
  else none

def controlSends (i : Nat) (call : Call) : Option State :=
  match call.phase with
  | .sending (owner :: rest) =>
    some ((s.setPhase i call (.sending rest)).record
      (.sent i owner call.shouldPreempt call.isOrdered))
  | _ => none

def controlEnds (i : Nat) (call : Call) : Option State :=
  if call.phase = .sending [] then some (s.endCall i call) else none

/-- A call raises: it is cancelled as it waits, or its operation fails, which closes the session. -/
def controlRaises (i : Nat) (call : Call) : Option State :=
  match call.phase with
  | .waiting => some (s.endCall i call)
  | .sending _ => some (s.beginClose.endCall i call)
  | .ended => none

def whenCall (i : Nat) (next : Call → Option State) : Option State := (s.calls[i]?).bind next

/-- The part of `fence_control_edge` that changes a node's session: it drops the unsent appends of the
turn other than the client's, which `isClient` tells apart, or raises. -/
def fence (turn : Turn) (isClient : Nat → Bool) : Option State :=
  let keep := fun p : PendingChunk =>
    !isInterruptedReply p.chunk turn || isClient p.chunk.seq
  let kept := s.pending.filter keep
  if ¬ cfg.isNode ∨
      (s.pending.any fun p => p.chunk.turn = some turn && isMalformed p.chunk) then none
  else
    some { s with
      pending := kept
      pendingCount := s.pendingCount - (s.pending.length - kept.length : Int)
      pendingBytes := s.pendingBytes -
        ((s.pending.map PendingChunk.encodedBytes).sum - (kept.map PendingChunk.encodedBytes).sum :
          Int)
      log := s.log ++
        (s.pending.filter fun p => !keep p).map fun p => .dropped p.chunk.seq }

/-! ### Closing -/

/-- `open_route` ends: it starts the pump, or closes the session it could not open. -/
def opens (fails : Bool) : Option State :=
  if ¬ s.isOpening then none
  else if fails then some { s.beginClose with isOpening := false }
  else some { s with isOpening := false, pump := .ready }

/-- `cleanup_session` once it has the lock. -/
def cleanupStarts : Option State :=
  if s.isOpening ∨ ¬ s.isClosing ∨ s.isClosed ∨ s.cleanup ≠ .absent then none
  else some { s.beginClose with cleanup := .joiningRead }

/-- `cleanup_session` once the pump is over. -/
def dropPending : State :=
  { s with pending := [], pendingCount := 0, pendingBytes := 0, cleanup := .closingOwners }

/-- `cleanup_session` once the read is over; a session that was not opened has no pump. -/
def readJoined : Option State :=
  if s.cleanup ≠ .joiningRead then none
  else
    match s.pump with
    | .unstarted => some s.dropPending
    | _ => some { s with cleanup := .joiningPump }

/-- The pump that `cleanup_session` waits for is over. -/
def pumpJoined : Option State :=
  match s.cleanup, s.pump with
  | .joiningPump, .ended => some s.dropPending
  | _, _ => none

def pumpTimeout : Option State :=
  if s.cleanup = .joiningPump then some { s with cleanup := .cancellingPump } else none

/-- The cancelled pump is over: `fail_session_cleanup`. -/
def failCleanup : Option State :=
  match s.cleanup, s.pump with
  | .cancellingPump, .ended => some { s with isClosed := true, cleanup := .absent }
  | _, _ => none

def ownersClosed : Option State :=
  if s.cleanup = .closingOwners then some { s with isClosed := true, cleanup := .absent } else none

end State

/-- What can happen next.  `close` is any call that begins a close: the client's, a failure's, the
coordinator's. -/
inductive Action
  | opens (fails : Bool)
  | append (chunk : TimedChunk) (continues : Bool)
  | stream (fromRead : Bool) (chunk : TimedChunk)
  | readOutputs (now : ℚ)
  | resumeRead
  | wakeRead (now : ℚ)
  | disconnect
  | pumpTakes
  | pumpSubmits
  | submitFails
  | operationEnds
  | operationFails
  | pumpFails
  | pumpExits (idle : Bool)
  | pumpCancelled
  | control (event : TimedChunk) (stages : Option (List String)) (shouldPreempt isOrdered : Bool)
  | controlLooks (i : Nat)
  | controlSends (i : Nat)
  | controlEnds (i : Nat)
  | controlRaises (i : Nat)
  | fence (turn : Turn) (isClient : Nat → Bool)
  | close
  | cleanupStarts
  | readJoined
  | pumpJoined
  | pumpTimeout
  | failCleanup
  | ownersClosed
  | cleanupCancelled

def State.step (cfg : Config) (s : State) : Action → Option State
  | .opens fails => s.opens fails
  | .append chunk continues => s.append cfg chunk continues
  | .stream fromRead chunk => s.stream cfg fromRead chunk
  | .readOutputs now => if s.reader = .absent then some (s.readPass cfg now) else none
  | .resumeRead => if s.reader = .yielding then some (s.resumeRead cfg) else none
  | .wakeRead now => if s.reader = .waiting then some (s.readPass cfg now) else none
  | .disconnect => if s.reader = .absent then none else some s.readerEnds
  | .pumpTakes => s.pumpTakes
  | .pumpSubmits => s.pumpSubmits
  | .submitFails => s.submitFails
  | .operationEnds => s.operationEnds cfg
  | .operationFails => s.operationFails
  | .pumpFails => s.pumpFails
  | .pumpExits idle => s.pumpExits idle
  | .pumpCancelled => s.pumpCancelled
  | .control event stages shouldPreempt isOrdered =>
    s.control cfg event stages shouldPreempt isOrdered
  | .controlLooks i => s.whenCall i (s.controlLooks i)
  | .controlSends i => s.whenCall i (s.controlSends i)
  | .controlEnds i => s.whenCall i (s.controlEnds i)
  | .controlRaises i => s.whenCall i (s.controlRaises i)
  | .fence turn isClient => s.fence cfg turn isClient
  | .close => some s.beginClose
  | .cleanupStarts => s.cleanupStarts
  | .readJoined => s.readJoined
  | .pumpJoined => s.pumpJoined
  | .pumpTimeout => s.pumpTimeout
  | .failCleanup => s.failCleanup
  | .ownersClosed => s.ownersClosed
  | .cleanupCancelled => if s.cleanup = .absent then none else some { s with cleanup := .absent }

def session (cfg : Config) : Machine State Action where
  init := {}
  step := State.step cfg

end Route
