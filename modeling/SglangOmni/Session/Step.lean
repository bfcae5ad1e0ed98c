import SglangOmni.Session.Runtime

/-! The coroutines of a session graph, cut where they can suspend: a put on a full edge or on a full
client queue, the wait for a control's delivery, a full node session, and the wait for work.  Between
two such points a coroutine runs alone, so each function below is one uninterrupted segment; a loop
that does not suspend between two turns is also cut there, which only adds interleavings.  A waiting
coroutine may look again at any time.

What the stages do is left open: a node session emits any output at any time, finishes its append at
any time and may fail.  So are the controls that reach a node's owners and the timeouts. -/

namespace Session

open Lib Proto

/-! ### Edges -/

inductive Put
  | waits
  | raises
  | done (s : State)

/-- What a row of puts comes to: it stops at the first reader whose edge is full. -/
inductive Puts
  | waits (s : State) (readers : List String)
  | raises (s : State)
  | done (s : State)

def edgeCapacity (cfg : Config) (target source : String) : Nat :=
  (((cfg.graph.node target).bound source).capacity).getD cfg.limits.maxPendingChunks

/-- How the edge from `source` into `target` treats a chunk it has no room for. -/
def edgeOverflow (cfg : Config) (target source : String) : Overflow :=
  ((cfg.graph.node target).bound source).overflow

namespace Inbox

def count (inbox : Inbox) (source : String) (change : Int) : Inbox :=
  { inbox with counts := Function.update inbox.counts source (inbox.counts source + change) }

/-- Append an item, which takes its place on the edge from its source. -/
def push (inbox : Inbox) (item : InboxItem) : Inbox :=
  { inbox.count item.source 1 with
    queued := inbox.queued ++ [item], handed := inbox.handed ++ [item] }

def oldest (inbox : Inbox) (source : String) : Option InboxItem :=
  inbox.queued.find? fun item => item.source = source

def dropOldest (inbox : Inbox) (source : String) : Inbox :=
  { inbox.count source (-1) with
    queued := inbox.queued.eraseP fun item => item.source = source }

def pop (inbox : Inbox) (item : InboxItem) : Inbox :=
  { inbox.count item.source (-1) with queued := inbox.queued.tail }

def accept (inbox : Inbox) (item : InboxItem) : Inbox :=
  { inbox with accepted := inbox.accepted ++ [item] }

/-- Drop what an interrupt of `turn` drops, and count again. -/
def fence (inbox : Inbox) (turn : Turn) : Inbox :=
  let queued := inbox.queued.filter fun item =>
    item.source = graphInput || !isInterruptedReply item.chunk turn
  { inbox with
    queued := queued
    counts := fun source => (queued.filter fun item => item.source = source).length }

end Inbox

/-- `put_graph_inbox`, up to its wait or to its end. -/
def putGraphInbox (cfg : Config) (s : State) (target source : String) (chunk : TimedChunk)
    (via : Emission) : Put :=
  let inbox := s.inboxes target
  let item : InboxItem := { source, chunk, clientSeq := none, via }
  let isFull := (edgeCapacity cfg target source : Int) ≤ inbox.counts source
  if s.isInterrupted target chunk then .done s
  else if ¬ isFull then .done (s.setInbox target (inbox.push item))
  else
    match edgeOverflow cfg target source with
    | .block => .waits
    | .dropOldest =>
      match inbox.oldest source with
      | none => .raises
      | some _ => .done (s.setInbox target ((inbox.dropOldest source).push item))

/-- Put a chunk on the edges to these readers, in order, until `stop` holds after a put. -/
def putEach (cfg : Config) (source : String) (chunk : TimedChunk) (via : Emission)
    (stop : State → Bool) : State → List String → Puts
  | s, [] => .done s
  | s, reader :: rest =>
    match putGraphInbox cfg s reader source chunk via with
    | .waits => .waits s (reader :: rest)
    | .raises => .raises s
    | .done s => if stop s then .done s else putEach cfg source chunk via stop s rest

/-! ### Fences -/

inductive Ran
  | ok (s : State)
  | raised (s : State)

/-- The part of a node session that an interrupt of `turn` drops: unsent appends of the turn that are
not the client's. -/
def NodeSession.fence (session : NodeSession) (sequences : Dict Nat Nat) (turn : Turn) :
    NodeSession :=
  let kept := session.pending.filter fun p =>
    !isInterruptedReply p.chunk turn || sequences.contains p.chunk.seq
  { session with
    pending := kept
    pendingCount := session.pendingCount - (session.pending.length - kept.length : Int)
    pendingBytes := session.pendingBytes -
      ((session.pending.map PendingChunk.encodedBytes).sum -
        (kept.map PendingChunk.encodedBytes).sum : Int) }

/-- Whether the fence of `turn` raises at a node session: it is gone, or `control_type` raises on an
unsent append. -/
def NodeSession.fenceRaises (session : NodeSession) (turn : Turn) : Bool :=
  session.isClosed || session.pending.any fun p => p.chunk.turn = some turn && isMalformed p.chunk

def State.interruptTurn (s : State) (target : String) (turn : Turn) : State :=
  { s.setInbox target ((s.inboxes target).fence turn) with
    interruptedTurns :=
      Function.update s.interruptedTurns target ((s.interruptedTurns target).insert turn) }

/-- An entry of the client's queue that an interrupt of `turn` at `target` drops: unread data. -/
def QueuedOutput.isStale (item : QueuedOutput) (target : String) (turn : Turn) : Bool :=
  item.name = target && item.output.turn = some turn && outputControlType item.output = none

def State.fenceOutputs (s : State) (target : String) (turn : Turn) : State :=
  let stale := s.outputs.filter fun item => item.isStale target turn
  { s.setPacer target ((s.pacers target).purge turn) with
    outputs := s.outputs.filter fun item => !item.isStale target turn
    outputBytes := s.outputBytes - (s.pacers target).purged turn -
      ((stale.map QueuedOutput.size).sum : Int) }

/-- The fence of `turn` at `target` ran to its end. -/
def State.markFenced (s : State) (target : String) (turn : Turn) : State :=
  { s with fenced := Function.update s.fenced target (turn :: s.fenced target) }

def fenceTurn (cfg : Config) (s : State) (target : String) (turn : Turn) : Ran :=
  let interrupted := s.interruptTurn target turn
  let session := s.sessions target
  if session.fenceRaises turn then .raised interrupted
  else
    let s := interrupted.setSession target (session.fence (s.clientSequences target) turn)
    .ok ((if cfg.graph.isPaced target then s.fenceOutputs target turn else s).markFenced target turn)

/-- What `fence_control_edge` comes to; `takes` says whether the event still goes to the owners. -/
inductive Fence
  | waits (s : State) (report : Report)
  | raises (s : State)
  | done (s : State) (takes : Bool)

/-- The puts of `report_delivered` that are left, on the edges from `target`. -/
def putReport (cfg : Config) (s : State) (target : String) (report : Report) : Fence :=
  match putEach cfg target (deliveredChunk report.turn report.audioMs) .report
    (fun _ => false) s report.readers with
  | .waits s readers => .waits s { report with readers := readers }
  | .raises s => .raises s
  | .done s => .done s true

def fenceControlEdge (cfg : Config) (s : State) (target : String) (event : TimedChunk) : Fence :=
  if controlType event = some interrupt then
    match event.turn with
    | none => .done s true
    | some turn =>
      match fenceTurn cfg s target turn with
      | .raised s => .raises s
      | .ok s =>
        if cfg.graph.isPaced target then
          putReport cfg s target {
            turn := turn
            audioMs := (s.pacers target).deliveredMs turn
            readers := cfg.graph.readingNodes target sessionControl }
        else .done s true
  else .done s (!(controlType event = none && s.isInterrupted target event))

/-! ### The client's queue -/

/-- Count `size` more bytes against the output budget. -/
def State.reserve (s : State) (size : Nat) : State := { s with outputBytes := s.outputBytes + size }

/-- `reserve_graph_output`: nothing where the budget has no room. -/
def reserveGraphOutput (cfg : Config) (s : State) (output : OutputChunk) : Option State :=
  let size := cfg.packer.outputSize output
  if s.outputBytes + size > cfg.limits.maxOutputBytes then none else some (s.reserve size)

/-- The entry that `publish_graph_output` puts on the client's queue. -/
def publishedOutput (cfg : Config) (s : State) (n : String) (output : OutputChunk) (size : Nat) :
    QueuedOutput where
  output := { output with
    sessionIdentity := cfg.identity, seq := s.nextOutput, inputSeq := s.nextInput - 1 }
  size := size
  name := n
  emission := some output.seq

/-- `publish_graph_output` up to its put: the turn opens or ends and the output has its number. -/
def State.numberOutput (s : State) (output : OutputChunk) : State :=
  let event := outputControlType output
  { s with
    openTurns :=
      if event = some turnQueued then s.openTurns.insert output.turn
      else if event = some turnDone ∨ event = some turnEmpty ∨ event = some turnInterrupted then
        s.openTurns.filter fun turn => turn ≠ output.turn
      else s.openTurns
    nextOutput := s.nextOutput + 1 }

def inputDone (cfg : Config) (s : State) (chunk : TimedChunk) : OutputChunk where
  sessionIdentity := cfg.identity
  seq := s.nextOutput
  inputSeq := chunk.seq
  modality := chunk.modality
  tStartMs := chunk.tStartMs
  durationMs := chunk.durationMs
  payload := .none
  format := chunk.format
  eos := chunk.eos
  kind := .inputDone

/-- The entry that `emit_graph_input_done` puts on the client's queue. -/
def confirmation (cfg : Config) (s : State) (name : String) (chunk : TimedChunk) :
    QueuedOutput where
  output := inputDone cfg s chunk
  size := cfg.packer.outputSize (inputDone cfg s chunk)
  name := name
  emission := none

/-- A numbered entry takes its place on the client's queue and its bytes of the budget. -/
def State.confirm (s : State) (item : QueuedOutput) : State :=
  { (s.reserve item.size).enqueue item with nextOutput := s.nextOutput + 1 }

def emitGraphInputDone (cfg : Config) (s : State) (name : String) (chunk : TimedChunk) : Ran :=
  if s.outputsFull cfg then .raised s
  else
    match reserveGraphOutput cfg s (inputDone cfg s chunk) with
    | none => .raised s
    | some _ => .ok (s.confirm (confirmation cfg s name chunk))

def confirmGraphInput (cfg : Config) (s : State) (name : String) (chunk : TimedChunk) : Ran :=
  let s := if chunk.eos then { s with eosConfirmed := s.eosConfirmed.insert name } else s
  match s.pendingInputDone.get? chunk.seq with
  | none => .raised s
  | some readers =>
    if readers - 1 = 0 then
      let s := { s with pendingInputDone := s.pendingInputDone.erase chunk.seq }
      if chunk.eos then .ok { s with drains := s.drains ++ [(name, chunk)] }
      else emitGraphInputDone cfg s name chunk
    else .ok { s with pendingInputDone := s.pendingInputDone.set chunk.seq (readers - 1) }

/-! ### The client -/

/-- What `append_graph` checks before it looks at the edges. -/
def inputAccepted (cfg : Config) (s : State) (chunk : TimedChunk) : Bool :=
  !s.isClosing && s.endInput.isNone && chunk.seq = s.nextInput && 0 ≤ chunk.durationMs &&
    (s.modalityEndMs.get? chunk.modality).getD 0 ≤ chunk.tStartMs &&
    !s.endedModalities.contains chunk.modality &&
    cfg.packer.wireSize chunk ≤ cfg.limits.maxChunkBytes &&
    (s.modalityEndMs.contains chunk.modality ||
      s.modalityEndMs.size < cfg.limits.maxModalities)

def fullReaders (cfg : Config) (s : State) (chunk : TimedChunk) : List String :=
  (cfg.graph.readingNodes graphInput chunk.format).filter fun name =>
    (edgeCapacity cfg name graphInput : Int) ≤ (s.inboxes name).counts graphInput

def droppedInput (s : State) (name : String) : Option Nat :=
  ((s.inboxes name).oldest graphInput).bind InboxItem.clientSeq

/-- Whether dropping `seq` at each of the full readers that hold it first ends its wait. -/
def dropConfirms (s : State) (full : List String) (seq : Nat) : Bool :=
  s.pendingInputDone.get? seq =
    some ((full.filter fun name => droppedInput s name = some seq).length : Int)

/-- The inputs that an append confirms: the dropped ones that no other reader holds, and its own
when no node reads it. -/
def confirmations (cfg : Config) (s : State) (chunk : TimedChunk) : Nat :=
  let full := fullReaders cfg s chunk
  let dropped := (full.filterMap (droppedInput s)).dedup
  (dropped.filter (dropConfirms s full)).length +
    if (cfg.graph.readingNodes graphInput chunk.format).isEmpty then 1 else 0

/-- Whether `append_graph` has room: every full edge may drop, and the client's queue has a slot for
every confirmation. -/
def appendHasRoom (cfg : Config) (s : State) (chunk : TimedChunk) : Bool :=
  (fullReaders cfg s chunk).all (fun name =>
    edgeOverflow cfg name graphInput = .dropOldest &&
      ((droppedInput s name).bind s.pendingInputDone.get?).isSome) &&
    (cfg.limits.maxOutputChunks = 0 ||
      s.outputs.length + confirmations cfg s chunk ≤ cfg.limits.maxOutputChunks)

def dropOldestInputs (cfg : Config) : State → List String → Ran
  | s, [] => .ok s
  | s, name :: rest =>
    match (s.inboxes name).oldest graphInput with
    | none => .raised s
    | some item =>
      let s := s.setInbox name ((s.inboxes name).dropOldest graphInput)
      match confirmGraphInput cfg s name item.chunk with
      | .raised s => .raised s
      | .ok s => dropOldestInputs cfg s rest

def clientItem (chunk : TimedChunk) : InboxItem where
  source := graphInput
  chunk := chunk
  clientSeq := some chunk.seq
  via := .input

def State.handInput (s : State) (readers : List String) (chunk : TimedChunk) : State :=
  { s with
    inboxes := fun name =>
      if readers.contains name then (s.inboxes name).push (clientItem chunk) else s.inboxes name }

/-- The end of `append_graph`. -/
def State.noteInput (s : State) (chunk : TimedChunk) : State :=
  { s with
    endInput := if chunk.eos then some chunk else s.endInput
    pacers := if chunk.eos then fun name => (s.pacers name).endInput else s.pacers
    modalityEndMs := s.modalityEndMs.set chunk.modality (chunk.tStartMs + chunk.durationMs)
    endedModalities :=
      if chunk.eos then s.endedModalities.insert chunk.modality else s.endedModalities
    nextInput := s.nextInput + 1 }

/-- An input waits for the nodes that read it; one that no node reads is confirmed at once. -/
def noteReaders (cfg : Config) (s : State) (chunk : TimedChunk) : Ran :=
  let readers := cfg.graph.readingNodes graphInput chunk.format
  if readers.isEmpty then emitGraphInputDone cfg s graphInput chunk
  else .ok { s with
    pendingInputDone := s.pendingInputDone.set chunk.seq (readers.length : Int) }

/-- `append_graph`: nothing where it refuses the input before it changes anything. -/
def appendGraph (cfg : Config) (s : State) (chunk : TimedChunk) : Option Ran :=
  if ¬ inputAccepted cfg s chunk ∨ ¬ appendHasRoom cfg s chunk then none
  else
    some (match noteReaders cfg s chunk with
      | .raised s => .raised s
      | .ok noted =>
        match dropOldestInputs cfg noted (fullReaders cfg s chunk) with
        | .raised s => .raised s
        | .ok s =>
          .ok ((s.handInput (cfg.graph.readingNodes graphInput chunk.format) chunk).noteInput chunk))

def clientTargets (cfg : Config) (event : TimedChunk) : Targets :=
  cfg.graph.controlTargets graphInput (controlType event)

/-- A control call goes to its targets, one after the other; `delivering` lasts until the target's
owners have the event. -/
def callTargets (cfg : Config) (i : Nat) (event : TimedChunk) : State → Targets → State
  | s, [] => s.setControl i none
  | s, (target, _) :: rest =>
    match fenceControlEdge cfg s target event with
    | .raises s => s.setControl i none
    | .waits s report => s.setControl i (some (.reporting event report (rest.length + 1)))
    | .done s true => s.setControl i (some (.delivering event rest.length))
    | .done s false => callTargets cfg i event s rest

def controlGraph (cfg : Config) (s : State) (i : Nat) (event : TimedChunk) : Option State :=
  if isMalformed event ∨ s.isClosing ∨ clientTargets cfg event = [] ∨ (s.controls i).isSome then none
  else some (callTargets cfg i event s (clientTargets cfg event))

def resumeControl (cfg : Config) (s : State) (i : Nat) : Option State :=
  match s.controls i with
  | none => none
  | some (.delivering event left) =>
    some (callTargets cfg i event s ((clientTargets cfg event).lastOf left))
  | some (.reporting event report left) =>
    match (clientTargets cfg event).lastOf left with
    | [] => none
    | (target, _) :: rest =>
      match putReport cfg s target report with
      | .raises s => some (s.setControl i none)
      | .waits s report => some (s.setControl i (some (.reporting event report left)))
      | .done s _ => some (s.setControl i (some (.delivering event rest.length)))

/-- One turn of `graph_outputs`: the client is given the head of its queue. -/
def readOutput (cfg : Config) (s : State) : Option State :=
  match s.outputs with
  | [] => none
  | item :: rest =>
    let s := { s with
      outputs := rest
      outputBytes := s.outputBytes - item.size
      yielded := s.yielded ++ [item.output] }
    some (if cfg.graph.isPaced item.name then
      s.setPacer item.name ((s.pacers item.name).sent item.output) else s)

/-! ### Node sessions -/

/-- What `append_session` comes to on a node session. -/
inductive Appended
  | raises
  | full
  | accepted (session : NodeSession)

def NodeSession.append (cfg : Config) (session : NodeSession) (chunk : TimedChunk)
    (continues : Bool) (whole : InboxItem) : Appended :=
  let encodedBytes := cfg.packer.wireSize chunk
  if session.isClosing ∨ chunk.seq ≠ session.nextInput ∨ chunk.durationMs < 0 ∨
      cfg.limits.maxChunkBytes < encodedBytes then .raises
  else if ¬ session.modalities.contains chunk.modality ∧
      cfg.limits.maxModalities ≤ session.modalities.length then .full
  else if (cfg.limits.maxPendingChunks : Int) ≤ session.pendingCount ∨
      session.pendingBytes + encodedBytes > cfg.limits.maxPendingBytes then .full
  else
    .accepted { session with
      pending := session.pending ++ [{ chunk, encodedBytes, continues, whole }]
      pendingCount := session.pendingCount + 1
      pendingBytes := session.pendingBytes + encodedBytes
      nextInput := session.nextInput + 1
      modalities := session.modalities.insert chunk.modality }

def NodeSession.output (cfg : Config) (n : String) (session : NodeSession) (inputSeq : Nat)
    (chunk : TimedChunk) (kind : OutputKind) : OutputChunk where
  sessionIdentity := cfg.nodeIdentity n
  seq := session.nextOutput
  inputSeq := inputSeq
  modality := chunk.modality
  tStartMs := chunk.tStartMs
  durationMs := chunk.durationMs
  payload := chunk.payload
  format := chunk.format
  eos := chunk.eos
  turn := chunk.turn
  kind := kind

/-- A node session's outputs after it emits one of `size` bytes. -/
def NodeSession.push (session : NodeSession) (output : OutputChunk) (size : Nat) : NodeSession :=
  { session with
    outputs := session.outputs ++ [(output, size)]
    outputBytes := session.outputBytes + size
    nextOutput := session.nextOutput + 1
    emitted := session.emitted ++ [output] }

/-- `emit_session_output` on an open node session: nothing where the session has no room. -/
def NodeSession.emit (cfg : Config) (session : NodeSession) (output : OutputChunk) :
    Option NodeSession :=
  let size := cfg.packer.outputSize output
  if cfg.limits.maxOutputChunks ≤ session.outputs.length ∨
      session.outputBytes + size > cfg.limits.maxOutputBytes then none
  else some (session.push output size)

/-- `begin_session_close` on a node session. -/
def NodeSession.fail (session : NodeSession) : NodeSession :=
  { session with isClosing := true, outputs := [], outputBytes := 0 }

def NodeSession.release (session : NodeSession) (p : PendingChunk) : NodeSession :=
  { session with
    inFlight := none
    pendingCount := session.pendingCount - 1
    pendingBytes := session.pendingBytes - p.encodedBytes }

/-- `pump_session` takes the next append. -/
def takeAppend (s : State) (n : String) : Option State :=
  let session := s.sessions n
  match session.pending, session.inFlight with
  | p :: rest, none =>
    if session.isClosing then none
    else some (s.setSession n { session with pending := rest, inFlight := some p })
  | _, _ => none

/-- `pump_session` finishes its append: the input is confirmed, and a session without room for the
confirmation fails. -/
def finishAppend (cfg : Config) (s : State) (n : String) : Option State :=
  let session := s.sessions n
  match session.inFlight with
  | none => none
  | some p =>
    if session.isClosing then some (s.setSession n (session.release p))
    else
      match session.emit cfg
        (session.output cfg n p.chunk.seq { p.chunk with payload := .none } .inputDone) with
      | none => some (s.setSession n (session.fail.release p))
      | some session => some (s.setSession n (session.release p))

def emitData (cfg : Config) (s : State) (n : String) (inputSeq : Nat) (chunk : TimedChunk) :
    Option State :=
  let session := s.sessions n
  if session.isClosing then none
  else (session.emit cfg (session.output cfg n inputSeq chunk .data)).map (s.setSession n)

/-- A node session that is closing gives up its appends and leaves `sessions`. -/
def cleanSession (s : State) (n : String) : Option State :=
  let session := s.sessions n
  if session.isClosing ∧ session.inFlight.isNone then
    some (s.setSession n
      { session with pending := [], pendingCount := 0, pendingBytes := 0, isClosed := true })
  else none

/-! ### Forwarding -/

/-- Whether the client's EOS waits: an earlier reader has not confirmed it, or a turn is open and
the node has a feedback edge. -/
def eosWaits (cfg : Config) (s : State) (n : String) (chunk : TimedChunk) : Bool :=
  let earlier := cfg.graph.order.takeWhile (· ≠ n)
  let node := cfg.graph.node n
  (earlier.any fun name =>
    (cfg.graph.readingNodes graphInput chunk.format).contains name &&
      !s.eosConfirmed.contains name) ||
    (!s.openTurns.isEmpty && node.sources.any fun source => (node.bound source).feedback)

/-- One turn of the loop of `append_fragments`. -/
def forwardFragment (cfg : Config) (s : State) (n : String) (item : InboxItem)
    (fragment : Fragment) : State :=
  if s.isInterrupted n item.chunk then s.setForwarder n (.ready fragment.chunk.seq)
  else
    match (s.sessions n).append cfg fragment.chunk fragment.continues item with
    | .raises => s.failForwarder n
    | .full => s
    | .accepted session =>
      let s := s.setSession n session
      if fragment.continues then
        match cfg.packer.fragmentFrom cfg.limits.maxChunkBytes item.chunk (fragment.chunk.seq + 1)
          fragment.next with
        | none => s.failForwarder n
        | some next => s.setForwarder n (.fragments item next)
      else
        (s.setInbox n ((s.inboxes n).accept item)).setForwarder n (.ready (fragment.chunk.seq + 1))

def forwardWhole (cfg : Config) (s : State) (n : String) (item : InboxItem) (seq : Nat) :
    Option State :=
  match (s.sessions n).append cfg { item.chunk with seq := seq } false item with
  | .raises => some (s.failForwarder n)
  | .full => none
  | .accepted session =>
    let s := (s.setSession n session).setInbox n (((s.inboxes n).pop item).accept item)
    let s := match item.clientSeq with
      | none => s
      | some clientSeq => s.setClientSequences n ((s.clientSequences n).set seq clientSeq)
    some (s.setForwarder n (.ready (seq + 1)))

/-- One turn of the loop of `forward_graph_inputs`. -/
def forwardGraphInputs (cfg : Config) (s : State) (n : String) : Option State :=
  match s.forwarders n with
  | .stopped => none
  | .fragments item fragment => some (forwardFragment cfg s n item fragment)
  | .ready seq =>
    let inbox := s.inboxes n
    match inbox.queued with
    | [] => none
    | item :: rest =>
      if item.chunk.eos ∧ item.clientSeq.isSome ∧ eosWaits cfg s n item.chunk then
        if rest.isEmpty then none
        else some (s.setInbox n { inbox with queued := rest ++ [item] })
      else if item.clientSeq = none ∧
          cfg.limits.maxChunkBytes < cfg.packer.wireSize { item.chunk with seq := seq } then
        let s := s.setInbox n (inbox.pop item)
        match cfg.packer.fragmentFrom cfg.limits.maxChunkBytes item.chunk seq 0 with
        | none => some (s.failForwarder n)
        | some fragment =>
          some (forwardFragment cfg (s.setForwarder n (.fragments item fragment)) n item fragment)
      else forwardWhole cfg s n item seq

/-! ### Routing -/

def isClientOutput (cfg : Config) (n : String) (chunk : TimedChunk) : Bool :=
  let event := controlType chunk
  cfg.graph.isPublished n chunk.format && !event.any nodeControls.contains &&
    (!event.any reportControls.contains || (cfg.graph.readingNodes n chunk.format).isEmpty)

/-- The start that `time_graph_output` gives an output on the shared clock; `none` leaves it. -/
def graphStart (s : State) (output : OutputChunk) : Option ℚ :=
  let inputEndMs := (s.modalityEndMs.get? audio).getD 0
  let event := outputControlType output
  if isAudioFormat output.format then some (max s.outputEndMs s.replyStartMs)
  else if event = some turnStarted then some (max s.outputEndMs inputEndMs)
  else if event = some turnDone then some (max s.outputEndMs s.replyStartMs)
  else if event = some speechStarted ∨ event = some speechStopped then none
  else some inputEndMs

/-- `time_graph_output`: the output on the graph's shared clock. -/
def timedOutput (s : State) (output : OutputChunk) : OutputChunk :=
  { output with tStartMs := (graphStart s output).getD output.tStartMs }

/-- `time_graph_output`: the shared clock afterwards. -/
def State.advanceClock (s : State) (output : OutputChunk) : State :=
  let start := (graphStart s output).getD 0
  let event := outputControlType output
  if isAudioFormat output.format then { s with outputEndMs := start + output.durationMs }
  else if event = some turnStarted then { s with replyStartMs := start }
  else if event = some turnInterrupted then { s with outputEndMs := start }
  else s

/-- The end of the routing loop: an output that is still wanted goes to the pacer or the client. -/
def routePublish (cfg : Config) (s : State) (n : String) (output : OutputChunk) : State :=
  if s.isInterrupted n (outputChunk output) ∨ ¬ isClientOutput cfg n (outputChunk output) then
    s.setRouter n .next
  else
    match reserveGraphOutput cfg s output with
    | none => s.failRouter n
    | some s =>
      let size := cfg.packer.outputSize output
      if cfg.graph.isPaced n then
        ({ s.setPacer n ((s.pacers n).offer output size) with
          outputBytes := s.outputBytes - (s.pacers n).offered output }).setRouter n .next
      else
        let item := publishedOutput cfg s n output size
        let s := s.numberOutput output
        if s.outputsFull cfg then s.setRouter n (.publishing item)
        else (s.enqueue item).setRouter n .next

def routeReaders (cfg : Config) (s : State) (n : String) (output : OutputChunk)
    (readers : List String) : State :=
  let chunk := outputChunk output
  match putEach cfg n chunk (.routed output.seq) (fun s => s.isInterrupted n chunk) s readers with
  | .waits s readers => s.setRouter n (.putting output readers)
  | .raises s => s.failRouter n
  | .done s => routePublish cfg s n output

def isTimed (cfg : Config) (n : String) (output : OutputChunk) : Bool :=
  isClientOutput cfg n (outputChunk output) && cfg.graph.sharedTimeline

def routedOutput (cfg : Config) (s : State) (n : String) (output : OutputChunk) : OutputChunk :=
  if isTimed cfg n output then timedOutput s output else output

def State.routeClock (cfg : Config) (s : State) (n : String) (output : OutputChunk) : State :=
  if isTimed cfg n output then s.advanceClock output else s

/-- The readers that the routing task hands an output to: none of a `turn.done` that the pacer
holds. -/
def routedReaders (cfg : Config) (n : String) (output : OutputChunk) : List String :=
  if holdsTurnEnd (outputChunk output) (cfg.graph.isPaced n)
      (isClientOutput cfg n (outputChunk output)) then []
  else cfg.graph.readingNodes n output.format

def routeData (cfg : Config) (s : State) (n : String) (output : OutputChunk) : State :=
  routeReaders cfg (s.routeClock cfg n output) n (routedOutput cfg s n output)
    (routedReaders cfg n output)

def outputTargets (cfg : Config) (n : String) (output : OutputChunk) : Targets :=
  cfg.graph.controlTargets n (edgeEvent (outputChunk output))

/-- An output whose control targets are fenced: its delivery starts in the background, and a control
is no data unless it is a published report. -/
def routeFenced (cfg : Config) (s : State) (n : String) (output : OutputChunk) (fenced : Bool) :
    State :=
  let chunk := outputChunk output
  let s := if fenced then s.setDelivery n .running else s
  if ¬ (outputTargets cfg n output).isEmpty ∧
      ¬ (isClientOutput cfg n chunk ∧ (controlType chunk).any reportControls.contains) then
    s.setRouter n .next
  else routeData cfg s n output

def routeTargets (cfg : Config) (n : String) (output : OutputChunk) :
    State → Bool → Targets → State
  | s, fenced, [] => routeFenced cfg s n output fenced
  | s, fenced, (target, _) :: rest =>
    match fenceControlEdge cfg s target (outputChunk output) with
    | .raises s => s.failRouter n
    | .waits s report => s.setRouter n (.fencing output report (rest.length + 1) fenced)
    | .done s takes => routeTargets cfg n output s (fenced || takes) rest

/-- Whether only the client hears an output, so that it need not wait for a control's delivery. -/
def isClientOnly (cfg : Config) (n : String) (output : OutputChunk) : Bool :=
  let chunk := outputChunk output
  isClientOutput cfg n chunk && (outputTargets cfg n output).isEmpty &&
    (cfg.graph.readingNodes n output.format).isEmpty && !cfg.graph.isPaced n &&
    controlType chunk ≠ some turnDone

/-- A data output of a node: one of an interrupted turn is dropped, and one that others than the
client hear waits for the control before it. -/
def routeOutput (cfg : Config) (s : State) (n : String) (output : OutputChunk) : State :=
  if isMalformed (outputChunk output) then s.failRouter n
  else if s.isInterrupted n (outputChunk output) then s
  else
    let s := s.setRouter n (.awaitDelivery output)
    if s.deliveries n = .none ∨ isClientOnly cfg n output then
      routeTargets cfg n output s false (outputTargets cfg n output)
    else if s.deliveries n = .done then
      routeTargets cfg n output (s.setDelivery n .none) false (outputTargets cfg n output)
    else s

def confirmedChunk (output : OutputChunk) (clientSeq : Nat) : TimedChunk where
  modality := output.modality
  tStartMs := output.tStartMs
  durationMs := output.durationMs
  seq := clientSeq
  payload := .none
  format := output.format
  eos := output.eos

def routeInputDone (cfg : Config) (s : State) (n : String) (output : OutputChunk) : State :=
  match (s.clientSequences n).get? output.inputSeq with
  | none => s
  | some clientSeq =>
    let s := s.setClientSequences n ((s.clientSequences n).erase output.inputSeq)
    match confirmGraphInput cfg s n (confirmedChunk output clientSeq) with
    | .raised s => s.failRouter n
    | .ok s => s

def State.popOutput (s : State) (n : String) (rest : List Budgeted) (size : Nat) : State :=
  let session := s.sessions n
  s.setSession n { session with outputs := rest, outputBytes := session.outputBytes - size }

/-- `route_graph_outputs` up to its next wait. -/
def routeGraphOutputs (cfg : Config) (s : State) (n : String) : Option State :=
  match s.routers n with
  | .stopped => none
  | .next =>
    match (s.sessions n).outputs with
    | [] => if (s.sessions n).isClosed then some (s.failRouter n) else none
    | (output, size) :: rest =>
      let s := s.popOutput n rest size
      some (match output.kind with
        | .inputDone => routeInputDone cfg s n output
        | .data => routeOutput cfg s n output)
  | .awaitDelivery output =>
    if s.deliveries n = .running then none
    else some (routeTargets cfg n output (s.setDelivery n .none) false (outputTargets cfg n output))
  | .fencing output report left fenced =>
    match (outputTargets cfg n output).lastOf left with
    | [] => none
    | (target, _) :: rest =>
      match putReport cfg s target report with
      | .raises s => some (s.failRouter n)
      | .waits s report => some (s.setRouter n (.fencing output report left fenced))
      | .done s _ => some (routeTargets cfg n output s true rest)
  | .putting output readers => some (routeReaders cfg s n output readers)
  | .publishing item =>
    if s.outputsFull cfg then none else some ((s.enqueue item).setRouter n .next)

/-! ### Paced delivery -/

/-- A released `turn.done` goes to these readers. -/
def deliverReaders (cfg : Config) (s : State) (n : String) (output : OutputChunk)
    (readers : List String) : State :=
  match putEach cfg n (outputChunk output) (.released output.seq) (fun _ => false) s readers with
  | .waits s readers => s.setDeliverer n (.putting output readers)
  | .raises s => s.failDeliverer n
  | .done s => s.setDeliverer n .sending

/-- The head of `unsent` leaves the pacer. -/
def State.popUnsent (s : State) (n : String) (rest : List Budgeted) : State :=
  s.setPacer n { s.pacers n with unsent := rest }

/-- `deliver_paced_outputs` up to its next wait, at the time `now`. -/
def deliverPacedOutputs (cfg : Config) (s : State) (n : String) (now : ℚ) : Option State :=
  match s.deliverers n with
  | .stopped => none
  | .waiting =>
    match (s.pacers n).release cfg.packer cfg.leadMs now with
    | (pacer, none) => some ((s.setPacer n pacer).failDeliverer n)
    | (pacer, some released) =>
      some ((s.setPacer n { pacer with unsent := pacer.unsent ++ released }).setDeliverer n .sending)
  | .sending =>
    match (s.pacers n).unsent with
    | [] => some (s.setDeliverer n .waiting)
    | (output, size) :: rest =>
      if s.outputsFull cfg then none
      else
        let s := s.popUnsent n rest
        if s.isInterrupted n (outputChunk output) then
          some { s with outputBytes := s.outputBytes - size }
        else
          let s := (s.numberOutput output).enqueue (publishedOutput cfg s n output size)
          if outputControlType output = some turnDone then
            some (deliverReaders cfg s n output (cfg.graph.readingNodes n output.format))
          else some s
  | .putting output readers => some (deliverReaders cfg s n output readers)

/-! ### The end of the input -/

/-- What `drain_graph` waits for. -/
def isDrained (cfg : Config) (s : State) : Bool :=
  s.openTurns.isEmpty && s.pendingInputDone.entries.isEmpty &&
    cfg.graph.names.all fun name =>
      (s.inboxes name).queued.isEmpty && (s.sessions name).pendingCount = 0 &&
        (s.sessions name).outputs.isEmpty && !(s.sessions name).isClosed &&
        (!cfg.graph.isPaced name || (s.pacers name).items.isEmpty)

/-- `drain_graph` looks again and, once the graph is drained, confirms the EOS. -/
def drainGraph (cfg : Config) (s : State) (i : Nat) : Option State :=
  match s.drains[i]? with
  | none => none
  | some (name, chunk) =>
    if ¬ isDrained cfg s then none
    else
      let s := { s with drains := s.drains.eraseIdx i }
      match emitGraphInputDone cfg s name chunk with
      | .raised s => some s.beginClose
      | .ok s => some s

/-! ### The machine -/

inductive Task
  | forwarder (n : String)
  | router (n : String)
  | deliverer (n : String)
  | drain (i : Nat)

inductive Action
  | append (chunk : TimedChunk)
  | control (i : Nat) (event : TimedChunk)
  | resumeControl (i : Nat)
  | read
  | forward (n : String)
  | route (n : String)
  | finishDelivery (n : String)
  | deliver (n : String) (now : ℚ)
  | drain (i : Nat)
  | takeAppend (n : String)
  | finishAppend (n : String)
  | emit (n : String) (inputSeq : Nat) (chunk : TimedChunk)
  | failSession (n : String)
  | cleanSession (n : String)
  | timeOut (task : Task)
  | beginClose
  | startClose
  | cancel (task : Task)
  | finishClose

def State.stopTask (s : State) : Task → State
  | .forwarder n => s.setForwarder n .stopped
  | .router n => s.setRouter n .stopped
  | .deliverer n => s.setDeliverer n .stopped
  | .drain i => { s with drains := s.drains.eraseIdx i }

/-- Whether a task has a deadline: a forwarder that its node refuses, and the drain. -/
def Task.hasDeadline : Task → Bool
  | .forwarder _ | .drain _ => true
  | .router _ | .deliverer _ => false

def Action.node : Action → Option String
  | .forward n | .route n | .finishDelivery n | .deliver n _ | .takeAppend n | .finishAppend n
  | .emit n _ _ | .failSession n | .cleanSession n => some n
  | _ => none

def perform (cfg : Config) (s : State) : Action → Option State
  | .append chunk => (appendGraph cfg s chunk).map fun
    | .ok s => s
    | .raised s => s
  | .control i event => controlGraph cfg s i event
  | .resumeControl i => resumeControl cfg s i
  | .read => readOutput cfg s
  | .forward n => forwardGraphInputs cfg s n
  | .route n => routeGraphOutputs cfg s n
  | .finishDelivery n =>
    if s.deliveries n = .running then some (s.setDelivery n .done) else none
  | .deliver n now => if cfg.graph.isPaced n then deliverPacedOutputs cfg s n now else none
  | .drain i => drainGraph cfg s i
  | .takeAppend n => takeAppend s n
  | .finishAppend n => finishAppend cfg s n
  | .emit n inputSeq chunk => emitData cfg s n inputSeq chunk
  | .failSession n => some (s.setSession n (s.sessions n).fail)
  | .cleanSession n => cleanSession s n
  | .timeOut task => if task.hasDeadline then some (s.stopTask task).beginClose else none
  | .beginClose => some s.beginClose
  | .startClose => if s.hasCloseTask then some { s with isClosing := true } else none
  | .cancel task => if s.isClosing then some (s.stopTask task) else none
  | .finishClose =>
    if s.isClosing then some { s with outputs := [], outputBytes := 0 } else none

def step (cfg : Config) (s : State) (a : Action) : Option State :=
  if a.node.all cfg.graph.names.contains then perform cfg s a else none

def machine (cfg : Config) : Machine State Action where
  init := .initial
  step := step cfg

end Session
