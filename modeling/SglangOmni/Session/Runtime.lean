import SglangOmni.Lib.Machine
import SglangOmni.Proto.Fragments
import SglangOmni.Proto.Graph
import SglangOmni.Session.Delivery

/-! The state of an open session graph: `SessionGraphRuntime`, the node sessions it joins, and where
each of its tasks is suspended.  Some fields are history and are read by no code: what was handed to
each edge and taken from it, what each node emitted, what entered the client's queue and what the
client was given, and the turns whose fence ran to its end. -/

namespace Session

open Lib Proto

structure Config where
  graph : SessionGraph
  valid : graph.Valid
  limits : SessionLimits
  packer : Packer
  leadMs : ℚ
  identity : SessionIdentity
  nodeIdentity : String → SessionIdentity

/-- How a chunk came to an edge: the client appended it, the routing task of its source put it there
as its output `seq` came, the source's pacer released that output, or it reports an interruption. -/
inductive Emission
  | input
  | routed (seq : Nat)
  | released (seq : Nat)
  | report
  deriving DecidableEq

/-- An entry of an inbox.  `via` is history. -/
structure InboxItem where
  source : String
  chunk : TimedChunk
  clientSeq : Option Nat
  via : Emission

/-- `NodeInbox`, less its wake-up event.  `handed` and `accepted` are history: the chunks put on the
inbox, and those its node session took from it. -/
structure Inbox where
  queued : List InboxItem := []
  counts : String → Int := fun _ => 0
  handed : List InboxItem := []
  accepted : List InboxItem := []

/-- `PendingSessionChunk`.  `whole` is history: the entry of the inbox that the chunk is, or is a
fragment of. -/
structure PendingChunk where
  chunk : TimedChunk
  encodedBytes : Nat
  continues : Bool
  whole : InboxItem

/-- The `Session` of a node.  `modalities` are the keys of `modality_end_ms`; a node reads no other
part of that table.  `isClosed` says that the session has left `sessions`.  `emitted` is history. -/
structure NodeSession where
  pending : List PendingChunk := []
  pendingCount : Int := 0
  pendingBytes : Int := 0
  inFlight : Option PendingChunk := none
  outputs : List Budgeted := []
  outputBytes : Int := 0
  nextInput : Nat := 0
  nextOutput : Nat := 0
  modalities : List String := []
  isClosing : Bool := false
  isClosed : Bool := false
  emitted : List OutputChunk := []

/-- An entry of the client's queue.  `emission` is history: the node's own number of the output, which
an input confirmation has not. -/
structure QueuedOutput where
  output : OutputChunk
  size : Nat
  name : String
  emission : Option Nat

/-- A `reply.delivered` on its way to the readers that are left: the turn that was interrupted, and
how much of its audio the connection took. -/
structure Report where
  turn : Turn
  audioMs : ℚ
  readers : List String

/-- The chunk that `report_delivered` sends. -/
def deliveredChunk (turn : Turn) (audioMs : ℚ) : TimedChunk where
  modality := control
  tStartMs := 0
  durationMs := 0
  seq := 0
  payload := .dict [("type", .str replyDelivered), ("audio_ms", .float audioMs)]
  format := some sessionControl
  turn := some turn

abbrev Targets := List (String × ControlEdge)

def Targets.lastOf (targets : Targets) (left : Nat) : Targets :=
  targets.drop (targets.length - left)

inductive Router
  /-- It waits for the node's next output. -/
  | next
  /-- It holds an output until the control before it has reached its owners. -/
  | awaitDelivery (output : OutputChunk)
  /-- It reports the fence of a control at the first of the last `left` targets; `fenced` says that
  some target before takes it. -/
  | fencing (output : OutputChunk) (report : Report) (left : Nat) (fenced : Bool)
  /-- It waits for room on the edge to the first of these readers. -/
  | putting (output : OutputChunk) (readers : List String)
  /-- It waits for room on the client's queue. -/
  | publishing (item : QueuedOutput)
  | stopped

/-- The output that a routing task holds while it waits for a control's delivery or fences it. -/
def Router.held : Router → Option OutputChunk
  | .awaitDelivery output | .fencing output _ _ _ => some output
  | _ => none

inductive Delivery
  | none
  | running
  | done
  deriving DecidableEq

inductive Deliverer
  /-- It waits until something may leave the pacer. -/
  | waiting
  /-- It sends what was released, as the client's queue has room. -/
  | sending
  /-- It waits for room on the edge to the first of these readers of a released `turn.done`. -/
  | putting (output : OutputChunk) (readers : List String)
  | stopped

/-- Where the task that feeds a node is suspended; `seq` numbers the node's next input. -/
inductive Forwarder
  | ready (seq : Nat)
  /-- It appends a chunk as fragments, the present one not yet taken. -/
  | fragments (item : InboxItem) (fragment : Fragment)
  | stopped

/-- Where a client's control call is suspended: it reports the fence at the first of the last `left`
targets, or it delivers the control with `left` targets to go. -/
inductive ControlCall
  | reporting (event : TimedChunk) (report : Report) (left : Nat)
  | delivering (event : TimedChunk) (left : Nat)

/-- `SessionGraphRuntime`, its node sessions and its tasks. -/
structure State where
  inboxes : String → Inbox
  sessions : String → NodeSession
  pacers : String → Pacer
  routers : String → Router
  deliveries : String → Delivery
  deliverers : String → Deliverer
  forwarders : String → Forwarder
  outputs : List QueuedOutput
  outputBytes : Int
  interruptedTurns : String → List Turn
  clientSequences : String → Dict Nat Nat
  pendingInputDone : Dict Nat Int
  outputEndMs : ℚ
  replyStartMs : ℚ
  openTurns : List (Option Turn)
  eosConfirmed : List String
  endInput : Option TimedChunk
  drains : List (String × TimedChunk)
  modalityEndMs : Dict String ℚ
  endedModalities : List String
  nextInput : Nat
  nextOutput : Nat
  controls : Nat → Option ControlCall
  hasCloseTask : Bool
  isClosing : Bool
  /-- History: the turns named by an interrupt whose fence at the node ran to its end. -/
  fenced : String → List Turn
  /-- History: what entered the client's queue. -/
  entered : List QueuedOutput
  /-- History: what the client was given. -/
  yielded : List OutputChunk

/-- The state right after `open_graph`. -/
def State.initial : State where
  inboxes := fun _ => {}
  sessions := fun _ => {}
  pacers := fun _ => {}
  routers := fun _ => .next
  deliveries := fun _ => .none
  deliverers := fun _ => .waiting
  forwarders := fun _ => .ready 0
  outputs := []
  outputBytes := 0
  interruptedTurns := fun _ => []
  clientSequences := fun _ => ∅
  pendingInputDone := ∅
  outputEndMs := 0
  replyStartMs := 0
  openTurns := []
  eosConfirmed := []
  endInput := none
  drains := []
  modalityEndMs := ∅
  endedModalities := []
  nextInput := 0
  nextOutput := 0
  controls := fun _ => none
  hasCloseTask := false
  isClosing := false
  fenced := fun _ => []
  entered := []
  yielded := []

namespace State

def setInbox (s : State) (n : String) (inbox : Inbox) : State :=
  { s with inboxes := Function.update s.inboxes n inbox }

def setSession (s : State) (n : String) (session : NodeSession) : State :=
  { s with sessions := Function.update s.sessions n session }

def setPacer (s : State) (n : String) (pacer : Pacer) : State :=
  { s with pacers := Function.update s.pacers n pacer }

def setRouter (s : State) (n : String) (router : Router) : State :=
  { s with routers := Function.update s.routers n router }

def setDelivery (s : State) (n : String) (delivery : Delivery) : State :=
  { s with deliveries := Function.update s.deliveries n delivery }

def setDeliverer (s : State) (n : String) (deliverer : Deliverer) : State :=
  { s with deliverers := Function.update s.deliverers n deliverer }

def setForwarder (s : State) (n : String) (forwarder : Forwarder) : State :=
  { s with forwarders := Function.update s.forwarders n forwarder }

def setClientSequences (s : State) (n : String) (sequences : Dict Nat Nat) : State :=
  { s with clientSequences := Function.update s.clientSequences n sequences }

def setControl (s : State) (i : Nat) (call : Option ControlCall) : State :=
  { s with controls := Function.update s.controls i call }

/-- `begin_graph_close`. -/
def beginClose (s : State) : State := { s with hasCloseTask := true }

def failRouter (s : State) (n : String) : State := (s.setRouter n .stopped).beginClose

def failDeliverer (s : State) (n : String) : State := (s.setDeliverer n .stopped).beginClose

def failForwarder (s : State) (n : String) : State := (s.setForwarder n .stopped).beginClose

def isInterrupted (s : State) (target : String) (chunk : TimedChunk) : Bool :=
  (s.interruptedTurns target).any fun turn => isInterruptedReply chunk turn

/-- `outputs.full()`; a queue without a maximum is never full. -/
def outputsFull (cfg : Config) (s : State) : Bool :=
  0 < cfg.limits.maxOutputChunks && cfg.limits.maxOutputChunks ≤ s.outputs.length

def enqueue (s : State) (item : QueuedOutput) : State :=
  { s with outputs := s.outputs ++ [item], entered := s.entered ++ [item] }

end State

end Session
