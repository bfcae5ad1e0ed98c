import SglangOmni.Session.Step

/-! What a step of a session graph can do, said once.  A segment of a task is a row of moves, each
small enough that the invariants hold after it: while a routing or a delivery task runs, its place
says what it has in hand.  Every invariant is then proved move by move. -/

namespace Session

open Lib Proto Relation

/-! ### Moves -/

inductive SessionMove (cfg : Config) (n : String) (session : NodeSession) : NodeSession → Prop
  | take {p : PendingChunk} {rest : List PendingChunk} (hpending : session.pending = p :: rest)
      (hidle : session.inFlight = none) (hopen : session.isClosing = false) :
      SessionMove cfg n session { session with pending := rest, inFlight := some p }
  | emit (inputSeq : Nat) (chunk : TimedChunk) {size : Nat} (hopen : session.isClosing = false) :
      SessionMove cfg n session (session.push (session.output cfg n inputSeq chunk .data) size)
  | finish {p : PendingChunk} {size : Nat} (hflight : session.inFlight = some p)
      (hopen : session.isClosing = false) :
      SessionMove cfg n session ((session.push (session.output cfg n p.chunk.seq
        { p.chunk with payload := .none } .inputDone) size).release p)
  | finishFails {p : PendingChunk} (hflight : session.inFlight = some p) :
      SessionMove cfg n session (session.fail.release p)
  | finishClosing {p : PendingChunk} (hflight : session.inFlight = some p)
      (hclosing : session.isClosing = true) : SessionMove cfg n session (session.release p)
  | fail : SessionMove cfg n session session.fail
  | clean (hclosing : session.isClosing = true) (hidle : session.inFlight = none) :
      SessionMove cfg n session
        { session with pending := [], pendingCount := 0, pendingBytes := 0, isClosed := true }

inductive ForwardMove (cfg : Config) (n : String) (s : State) : State → Prop
  | rotate {seq : Nat} {item : InboxItem} {rest : List InboxItem}
      (hplace : s.forwarders n = .ready seq) (hqueued : (s.inboxes n).queued = item :: rest)
      (heos : item.chunk.eos = true) (hclient : item.clientSeq.isSome = true) :
      ForwardMove cfg n s (s.setInbox n { s.inboxes n with queued := rest ++ [item] })
  | whole {seq : Nat} {item : InboxItem} {rest : List InboxItem} {session : NodeSession}
      (hplace : s.forwarders n = .ready seq) (hqueued : (s.inboxes n).queued = item :: rest)
      (haccept : (s.sessions n).append cfg { item.chunk with seq := seq } false item =
        .accepted session) {sequences : Dict Nat Nat}
      (hsequences : sequences = match item.clientSeq with
        | none => s.clientSequences n
        | some clientSeq => (s.clientSequences n).set seq clientSeq) :
      ForwardMove cfg n s ((((s.setSession n session).setInbox n
        (((s.inboxes n).pop item).accept item)).setClientSequences n sequences).setForwarder n
          (.ready (seq + 1)))
  | start {seq : Nat} {item : InboxItem} {rest : List InboxItem} {fragment : Fragment}
      (hplace : s.forwarders n = .ready seq) (hqueued : (s.inboxes n).queued = item :: rest)
      (hnode : item.clientSeq = none)
      (hfragment : cfg.packer.fragmentFrom cfg.limits.maxChunkBytes item.chunk seq 0 =
        some fragment) :
      ForwardMove cfg n s ((s.setInbox n ((s.inboxes n).pop item)).setForwarder n
        (.fragments item fragment))
  | startFails {item : InboxItem} {rest : List InboxItem}
      (hqueued : (s.inboxes n).queued = item :: rest) (hnode : item.clientSeq = none) :
      ForwardMove cfg n s ((s.setInbox n ((s.inboxes n).pop item)).failForwarder n)
  | cut {item : InboxItem} {fragment : Fragment} (hplace : s.forwarders n = .fragments item fragment)
      (hinterrupted : s.isInterrupted n item.chunk = true) :
      ForwardMove cfg n s (s.setForwarder n (.ready fragment.chunk.seq))
  | fragment {item : InboxItem} {fragment next : Fragment} {session : NodeSession}
      (hplace : s.forwarders n = .fragments item fragment)
      (hwanted : s.isInterrupted n item.chunk = false)
      (haccept : (s.sessions n).append cfg fragment.chunk fragment.continues item =
        .accepted session)
      (hnext : cfg.packer.fragmentFrom cfg.limits.maxChunkBytes item.chunk
        (fragment.chunk.seq + 1) fragment.next = some next) :
      ForwardMove cfg n s ((s.setSession n session).setForwarder n (.fragments item next))
  | fragmentFails {item : InboxItem} {fragment : Fragment} {session : NodeSession}
      (hplace : s.forwarders n = .fragments item fragment)
      (hwanted : s.isInterrupted n item.chunk = false)
      (haccept : (s.sessions n).append cfg fragment.chunk fragment.continues item =
        .accepted session) : ForwardMove cfg n s ((s.setSession n session).failForwarder n)
  | last {item : InboxItem} {fragment : Fragment} {session : NodeSession}
      (hplace : s.forwarders n = .fragments item fragment)
      (hwanted : s.isInterrupted n item.chunk = false)
      (haccept : (s.sessions n).append cfg fragment.chunk fragment.continues item =
        .accepted session) :
      ForwardMove cfg n s (((s.setSession n session).setInbox n
        ((s.inboxes n).accept item)).setForwarder n (.ready (fragment.chunk.seq + 1)))
  | fail : ForwardMove cfg n s (s.failForwarder n)

/-- Whether an output is a report that the client hears, which goes on to its readers where a control
edge takes it too. -/
def isReport (cfg : Config) (n : String) (output : OutputChunk) : Bool :=
  isClientOutput cfg n (outputChunk output) &&
    (controlType (outputChunk output)).any reportControls.contains

inductive RouteMove (cfg : Config) (n : String) (s : State) : State → Prop
  | take {output : OutputChunk} {size : Nat} {rest : List Budgeted}
      (hplace : s.routers n = .next) (houtputs : (s.sessions n).outputs = (output, size) :: rest)
      (hdata : output.kind = .data) (hwanted : s.isInterrupted n (outputChunk output) = false) :
      RouteMove cfg n s ((s.popOutput n rest size).setRouter n (.awaitDelivery output))
  | drop {output : OutputChunk} {size : Nat} {rest : List Budgeted}
      (hplace : s.routers n = .next) (houtputs : (s.sessions n).outputs = (output, size) :: rest)
      (hdata : output.kind = .data)
      (hstale : isMalformed (outputChunk output) = true ∨
        s.isInterrupted n (outputChunk output) = true) :
      RouteMove cfg n s (s.popOutput n rest size)
  | confirm {output : OutputChunk} {size : Nat} {rest : List Budgeted}
      (hplace : s.routers n = .next) (houtputs : (s.sessions n).outputs = (output, size) :: rest)
      (hdone : output.kind = .inputDone) :
      RouteMove cfg n s (routeInputDone cfg (s.popOutput n rest size) n output)
  | delivery (d : Delivery) : RouteMove cfg n s (s.setDelivery n d)
  | suspend {output : OutputChunk} {report : Report} {left : Nat} {fenced : Bool}
      (hplace : (s.routers n).held = some output) :
      RouteMove cfg n s (s.setRouter n (.fencing output report left fenced))
  | consume {output : OutputChunk} (hplace : (s.routers n).held = some output)
      (htargets : outputTargets cfg n output ≠ [])
      (hcontrol : isReport cfg n output = false) : RouteMove cfg n s (s.setRouter n .next)
  | data {output : OutputChunk} (hplace : (s.routers n).held = some output)
      (htargets : outputTargets cfg n output = [] ∨ outputControlType output ≠ none) :
      RouteMove cfg n s ((s.routeClock cfg n output).setRouter n
        (.putting (routedOutput cfg s n output) (routedReaders cfg n output)))
  | put {output : OutputChunk} {reader : String} {rest : List String} {s₁ : State}
      (hplace : s.routers n = .putting output (reader :: rest))
      (hput : putGraphInbox cfg s reader n (outputChunk output) (.routed output.seq) = .done s₁) :
      RouteMove cfg n s (s₁.setRouter n (.putting output
        (if s₁.isInterrupted n (outputChunk output) then [] else rest)))
  | discard {output : OutputChunk} (hplace : s.routers n = .putting output [])
      (hunwanted : s.isInterrupted n (outputChunk output) = true ∨
        isClientOutput cfg n (outputChunk output) = false) :
      RouteMove cfg n s (s.setRouter n .next)
  | offer {output : OutputChunk} (hplace : s.routers n = .putting output [])
      (hwanted : s.isInterrupted n (outputChunk output) = false)
      (hclient : isClientOutput cfg n (outputChunk output) = true)
      (hbudget : s.outputBytes + cfg.packer.outputSize output ≤ cfg.limits.maxOutputBytes)
      (hpaced : cfg.graph.isPaced n = true) :
      RouteMove cfg n s (({ s.setPacer n
        ((s.pacers n).offer output (cfg.packer.outputSize output)) with
          outputBytes := s.outputBytes + cfg.packer.outputSize output -
            (s.pacers n).offered output }).setRouter n .next)
  | publish {output : OutputChunk} (hplace : s.routers n = .putting output [])
      (hbudget : s.outputBytes + cfg.packer.outputSize output ≤ cfg.limits.maxOutputBytes)
      (hpaced : cfg.graph.isPaced n = false) (hroom : s.outputsFull cfg = false) :
      RouteMove cfg n s ((((s.reserve (cfg.packer.outputSize output)).numberOutput output).enqueue
        (publishedOutput cfg s n output (cfg.packer.outputSize output))).setRouter n .next)
  | block {output : OutputChunk} (hplace : s.routers n = .putting output [])
      (hbudget : s.outputBytes + cfg.packer.outputSize output ≤ cfg.limits.maxOutputBytes)
      (hpaced : cfg.graph.isPaced n = false) :
      RouteMove cfg n s (((s.reserve (cfg.packer.outputSize output)).numberOutput output).setRouter n
        (.publishing (publishedOutput cfg s n output (cfg.packer.outputSize output))))
  | unblock {item : QueuedOutput} (hplace : s.routers n = .publishing item)
      (hroom : s.outputsFull cfg = false) :
      RouteMove cfg n s ((s.enqueue item).setRouter n .next)
  | fail (hplace : ∀ item, s.routers n ≠ .publishing item) : RouteMove cfg n s (s.failRouter n)

inductive DeliverMove (cfg : Config) (n : String) (s : State) : State → Prop
  | release {now : ℚ} {pacer : Pacer} {released : List Budgeted}
      (hrelease : (s.pacers n).release cfg.packer cfg.leadMs now = (pacer, some released)) :
      DeliverMove cfg n s ((s.setPacer n
        { pacer with unsent := pacer.unsent ++ released }).setDeliverer n .sending)
  | releaseFails {now : ℚ} {pacer : Pacer}
      (hrelease : (s.pacers n).release cfg.packer cfg.leadMs now = (pacer, none)) :
      DeliverMove cfg n s ((s.setPacer n pacer).failDeliverer n)
  | wait (hunsent : (s.pacers n).unsent = []) : DeliverMove cfg n s (s.setDeliverer n .waiting)
  | discard {output : OutputChunk} {size : Nat} {rest : List Budgeted}
      (hplace : s.deliverers n = .sending) (hunsent : (s.pacers n).unsent = (output, size) :: rest)
      (hstale : s.isInterrupted n (outputChunk output) = true) :
      DeliverMove cfg n s { s.popUnsent n rest with outputBytes := s.outputBytes - size }
  | send {output : OutputChunk} {size : Nat} {rest : List Budgeted} {next : Deliverer}
      (hplace : s.deliverers n = .sending) (hunsent : (s.pacers n).unsent = (output, size) :: rest)
      (hwanted : s.isInterrupted n (outputChunk output) = false)
      (hroom : s.outputsFull cfg = false)
      (hnext : next = if outputControlType output = some turnDone then
        .putting output (cfg.graph.readingNodes n output.format) else .sending) :
      DeliverMove cfg n s ((((s.popUnsent n rest).numberOutput output).enqueue
        (publishedOutput cfg s n output size)).setDeliverer n next)
  | put {output : OutputChunk} {reader : String} {rest : List String} {s₁ : State}
      (hplace : s.deliverers n = .putting output (reader :: rest))
      (hput : putGraphInbox cfg s reader n (outputChunk output) (.released output.seq) = .done s₁) :
      DeliverMove cfg n s (s₁.setDeliverer n (.putting output rest))
  | sent {output : OutputChunk} (hplace : s.deliverers n = .putting output []) :
      DeliverMove cfg n s (s.setDeliverer n .sending)
  | fail : DeliverMove cfg n s (s.failDeliverer n)

inductive Move (cfg : Config) : Action → State → State → Prop
  | report {a : Action} {s s' : State} {reader target : String} {turn : Turn} {audioMs : ℚ}
      (hnode : target ∈ cfg.graph.names)
      (hput : putGraphInbox cfg s reader target (deliveredChunk turn audioMs) .report = .done s') :
      Move cfg a s s'
  | fence {a : Action} {s s' : State} {target : String} {turn : Turn}
      (hother : ∀ n, a = .route n → n ≠ target) (hnode : target ∈ cfg.graph.names)
      (hfence : fenceTurn cfg s target turn = .ok s') : Move cfg a s s'
  | fenceRaises {a : Action} {s s' : State} {target : String} {turn : Turn}
      (hfence : fenceTurn cfg s target turn = .raised s') : Move cfg a s s'
  | call {a : Action} {s : State} (i : Nat) (call : Option ControlCall) :
      Move cfg a s (s.setControl i call)
  | append {s s' : State} {chunk : TimedChunk}
      (happend : appendGraph cfg s chunk = some (.ok s')) : Move cfg (.append chunk) s s'
  | appendRaises {s s' : State} {chunk : TimedChunk}
      (happend : appendGraph cfg s chunk = some (.raised s')) : Move cfg (.append chunk) s s'
  | read {s s' : State} (hread : readOutput cfg s = some s') : Move cfg .read s s'
  | forward {s s' : State} {n : String} (hnode : n ∈ cfg.graph.names)
      (hmove : ForwardMove cfg n s s') : Move cfg (.forward n) s s'
  | route {s s' : State} {n : String} (hnode : n ∈ cfg.graph.names)
      (hmove : RouteMove cfg n s s') : Move cfg (.route n) s s'
  | finishDelivery {s : State} {n : String} (d : Delivery) :
      Move cfg (.finishDelivery n) s (s.setDelivery n d)
  | deliver {s s' : State} {n : String} {now : ℚ} (hnode : n ∈ cfg.graph.names)
      (hpaced : cfg.graph.isPaced n = true) (hmove : DeliverMove cfg n s s') :
      Move cfg (.deliver n now) s s'
  | session {a : Action} {s : State} {n : String} {session : NodeSession}
      (hnode : n ∈ cfg.graph.names) (hmove : SessionMove cfg n (s.sessions n) session) :
      Move cfg a s (s.setSession n session)
  | drain {s s' : State} {i : Nat} {name : String} {chunk : TimedChunk}
      (htask : s.drains[i]? = some (name, chunk)) (hdrained : isDrained cfg s = true)
      (hemit : emitGraphInputDone cfg { s with drains := s.drains.eraseIdx i } name chunk = .ok s') :
      Move cfg (.drain i) s s'
  | stopDrain {a : Action} {s : State} (i : Nat) :
      Move cfg a s { s with drains := s.drains.eraseIdx i, hasCloseTask := true }
  | stopForwarder {a : Action} {s : State} (n : String) : Move cfg a s (s.failForwarder n)
  | close {a : Action} {s : State} : Move cfg a s s.beginClose
  | startClose {s : State} (hbegun : s.hasCloseTask = true) :
      Move cfg .startClose s { s with isClosing := true }
  | cancel {s : State} {task : Task} (hclosing : s.isClosing = true) :
      Move cfg (.cancel task) s (s.stopTask task)
  | finishClose {s : State} (hclosing : s.isClosing = true) :
      Move cfg .finishClose s { s with outputs := [], outputBytes := 0 }

abbrev Moves (cfg : Config) (a : Action) : State → State → Prop := ReflTransGen (Move cfg a)

end Session
