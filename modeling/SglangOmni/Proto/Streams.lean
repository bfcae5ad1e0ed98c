import Mathlib.Data.Rat.Defs

/-! The chunks of a session and the stream vocabulary of its controls.  Times and durations are exact
rationals, so they are finite.  The encoder `msgpack.packb` is a parameter. -/

namespace Proto

inductive Value
  | null
  | bool (b : Bool)
  | int (n : Int)
  | float (x : ℚ)
  | str (s : String)
  | bytes (data : List UInt8)
  | array (items : List Value)
  | map (fields : List (String × Value))

inductive ChunkPayload
  | none
  | bytes (data : List UInt8)
  | dict (fields : List (String × Value))

abbrev Turn := Int

structure TimedChunk where
  modality : String
  tStartMs : ℚ
  durationMs : ℚ
  seq : Nat
  payload : ChunkPayload
  format : Option String := none
  eos : Bool := false
  turn : Option Turn := none

inductive OutputKind
  | data
  | inputDone
  deriving DecidableEq

structure SessionIdentity where
  id : String
  openIndex : Nat := 1
  deriving DecidableEq

structure OutputChunk where
  sessionIdentity : SessionIdentity
  seq : Nat
  inputSeq : Nat
  modality : String
  tStartMs : ℚ
  durationMs : ℚ
  payload : ChunkPayload
  format : Option String := none
  eos : Bool := false
  turn : Option Turn := none
  kind : OutputKind := .data

/-- `output_chunk`: a data output as the chunk that a reader or a control operation receives. -/
def outputChunk (output : OutputChunk) : TimedChunk where
  modality := output.modality
  tStartMs := output.tStartMs
  durationMs := output.durationMs
  seq := 0
  payload := output.payload
  format := output.format
  eos := output.eos
  turn := output.turn

/-! ### Stream vocabulary -/

/-- `GRAPH_INPUT`: the source that stands for the client's input. -/
def graphInput : String := "input"

def audio : String := "audio"
def control : String := "control"

def pcm16 : String := "pcm16"
def pcmF32 : String := "pcm_f32le"

def isAudioFormat (format : Option String) : Bool := format = some pcm16 || format = some pcmF32

def sessionControl : String := "session"

def interrupt : String := "interrupt"
def speechStarted : String := "speech.started"
def speechStopped : String := "speech.stopped"
def turnQueued : String := "turn.queued"
def turnStarted : String := "turn.started"
def turnDone : String := "turn.done"
def turnEmpty : String := "turn.empty"
def turnInterrupted : String := "turn.interrupted"
def replyProgress : String := "reply.progress"
def replyDelivered : String := "reply.delivered"
def replySentence : String := "reply.sentence"

/-- `NODE_CONTROLS`: the controls between nodes, which never reach the client. -/
def nodeControls : List String := [replyDelivered, replySentence]

/-- `REPORT_CONTROLS`: the reports that a node makes on its own output. -/
def reportControls : List String := [replyProgress]

/-- The string at `"type"` of an object. -/
def typeField (fields : List (String × Value)) : Option String :=
  match (fields.find? fun field => field.1 = "type").map Prod.snd with
  | some (.str s) => some s
  | _ => none

/-- What `control_type` reads of a chunk: its format and its payload. -/
def controlTypeOf (format : Option String) (payload : ChunkPayload) : Option String :=
  if format ≠ some sessionControl then none
  else
    match payload with
    | .dict fields => typeField fields
    | _ => none

/-- Where `control_type` raises: a control whose payload carries no string type. -/
def malformedControl (format : Option String) (payload : ChunkPayload) : Bool :=
  format = some sessionControl &&
    match payload with
    | .none => false
    | .bytes _ => true
    | .dict fields => (typeField fields).isNone

/-- `control_type` of a chunk for which it does not raise. -/
def controlType (chunk : TimedChunk) : Option String := controlTypeOf chunk.format chunk.payload

/-- `control_type` of an output for which it does not raise. -/
def outputControlType (output : OutputChunk) : Option String :=
  controlTypeOf output.format output.payload

def isMalformed (chunk : TimedChunk) : Bool := malformedControl chunk.format chunk.payload

/-- `edge_event`: a control edge takes a control by its type and any other chunk by its format. -/
def edgeEvent (chunk : TimedChunk) : Option String :=
  if chunk.format = some sessionControl then controlType chunk else chunk.format

def interruptionControls : List (Option String) :=
  [some interrupt, some turnInterrupted, some replyDelivered]

/-- `is_interrupted_reply`, of a chunk's turn and control type. -/
def interruptedReplyOf (chunkTurn : Option Turn) (event : Option String) (turn : Option Turn) :
    Bool :=
  chunkTurn = turn && !interruptionControls.contains event

/-- `is_interrupted_reply`: a chunk of the reply other than the controls about its interruption. -/
def isInterruptedReply (chunk : TimedChunk) (turn : Option Turn) : Bool :=
  interruptedReplyOf chunk.turn (controlType chunk) turn

def outputInterruptedReply (output : OutputChunk) (turn : Option Turn) : Bool :=
  interruptedReplyOf output.turn (outputControlType output) turn

/-- `holds_turn_end`: a node's `turn.done` waits until its published audio reached the client. -/
def holdsTurnEnd (chunk : TimedChunk) (publishesAudio isPublished : Bool) : Bool :=
  publishesAudio && isPublished && controlType chunk = some turnDone

@[simp] theorem controlType_outputChunk (output : OutputChunk) :
    controlType (outputChunk output) = outputControlType output := rfl

@[simp] theorem isInterruptedReply_outputChunk (output : OutputChunk) (turn : Option Turn) :
    isInterruptedReply (outputChunk output) turn = outputInterruptedReply output turn := rfl

/-! ### Wire sizes -/

/-- `msgpack.packb` of the chunks' objects. -/
structure Packer where
  packChunk : TimedChunk → List UInt8
  packOutput : OutputChunk → List UInt8

def headerGrowth (payloadSize : Nat) : Nat :=
  if payloadSize < 256 then 0 else if payloadSize < 65536 then 1 else 3

namespace Packer

variable (p : Packer)

/-- `wire_size` of an input chunk. -/
def wireSize (chunk : TimedChunk) : Nat :=
  match chunk.payload with
  | .bytes data =>
    (p.packChunk { chunk with payload := .bytes [] }).length + data.length +
      headerGrowth data.length
  | _ => (p.packChunk chunk).length

/-- `wire_size` of an output. -/
def outputSize (output : OutputChunk) : Nat :=
  match output.payload with
  | .bytes data =>
    (p.packOutput { output with payload := .bytes [] }).length + data.length +
      headerGrowth data.length
  | _ => (p.packOutput output).length

end Packer

end Proto
