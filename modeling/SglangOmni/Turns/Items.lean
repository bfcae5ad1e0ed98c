import SglangOmni.Turns.Response

/-! The conversation of a turn-based `RealtimeSession`.  A response with audio is pending from its first
step until its turn has put it into the conversation, and the client may truncate it at any time: a
pending item is remembered, a cancelled one is left as it is, and one in the conversation is removed. -/

namespace Turns

open Lib

/-- The item ids: of the audio of a turn, of the response of a turn, and others that a client may name. -/
inductive ItemId
  | input (turn : Nat)
  | output (turn : Nat)
  | other (name : String)
  deriving DecidableEq

inductive Role
  | user
  | assistant
  deriving DecidableEq

structure ConversationItem where
  role : Role
  text : String
  itemId : ItemId
  deriving DecidableEq

structure ResponseOutput where
  itemId : ItemId
  text : String
  deriving DecidableEq

/-- What the session tells about items: `conversation.item.truncated`, an error of the handler, and the
conversation that a request for a response is built from. -/
inductive Note
  | truncated (itemId : ItemId) (contentIndex audioEndMs : Int)
  | error (type code : String)
  | request (conversation : List ConversationItem)
  deriving DecidableEq

def maxCancelledAssistantItemIds : Nat := 64

/-- `set.add`, and a key set in a `dict`. -/
def addItem (itemId : ItemId) (items : List ItemId) : List ItemId :=
  if itemId ∈ items then items else items ++ [itemId]

def discardItem (itemId : ItemId) (items : List ItemId) : List ItemId :=
  items.filter (· ≠ itemId)

/-- A `RealtimeSession`.  `doneStatus` is the status of the turn's `response.done` once it is sent,
`terminalsOver` says that `emit_terminals` has returned, and `truncating` is the
`conversation.item.truncated` whose send has not returned. -/
structure RealtimeSession where
  session : Session := {}
  pendingAssistantItemIds : List ItemId := []
  truncatedAssistantItemIds : List ItemId := []
  cancelledAssistantItemIds : List ItemId := []
  conversation : List ConversationItem := []
  responseOutput : Option ResponseOutput := none
  doneStatus : Option Status := none
  terminalsOver : Bool := false
  truncating : Option (ItemId × Int × Int) := none
  notes : List Note := []
  deriving DecidableEq

namespace RealtimeSession

variable (s : RealtimeSession)

def rememberCancelledAssistantItem (itemId : ItemId) : RealtimeSession :=
  let items := addItem itemId s.cancelledAssistantItemIds
  { s with
    cancelledAssistantItemIds :=
      if maxCancelledAssistantItemIds < items.length then items.tail else items }

/-- `handle_conversation_item_truncate` up to its send. -/
def handleConversationItemTruncate (itemId : ItemId) (contentIndex audioEndMs : Int) :
    RealtimeSession :=
  let truncated : RealtimeSession := { s with truncating := some (itemId, contentIndex, audioEndMs) }
  if contentIndex ≠ 0 then
    { s with notes := s.notes ++ [Note.error "invalid_request_error" "invalid_content_index"] }
  else if itemId ∈ s.pendingAssistantItemIds then
    { truncated with truncatedAssistantItemIds := addItem itemId s.truncatedAssistantItemIds }
  else if itemId ∉ s.cancelledAssistantItemIds then
    match s.conversation.findIdx? fun item => item.itemId = itemId ∧ item.role = .assistant with
    | none => { s with notes := s.notes ++ [Note.error "invalid_request_error" "item_not_found"] }
    | some index => { truncated with conversation := s.conversation.eraseIdx index }
  else truncated

/-- `emit_terminals` after `send_response_done`. -/
def terminalsReturn (r : Response) (status : Status) : RealtimeSession :=
  let s : RealtimeSession := { s with terminalsOver := true }
  if r.wantsAudio ∧ status = .cancelled then s.rememberCancelledAssistantItem (.output r.id) else s

/-- `run_response` builds its request. -/
def begins (r : Response) (session : Session) : RealtimeSession :=
  { s with
    session := session
    pendingAssistantItemIds :=
      if r.wantsAudio then addItem (.output r.id) s.pendingAssistantItemIds
      else s.pendingAssistantItemIds
    notes := s.notes ++ [Note.request s.conversation] }

/-- `run_response` ends: only a completed response returns its text, and only then does the item of a
response with audio stay pending. -/
def responseReturns (r : Response) (hasRaised : Bool) (session : Session) : RealtimeSession :=
  let completed := !hasRaised && s.doneStatus = some .completed
  let dropped := r.wantsAudio && !completed
  { s with
    session := session
    responseOutput :=
      if hasRaised then none else some ⟨.output r.id, if completed then r.text else ""⟩
    pendingAssistantItemIds :=
      if dropped then discardItem (.output r.id) s.pendingAssistantItemIds
      else s.pendingAssistantItemIds
    truncatedAssistantItemIds :=
      if dropped then discardItem (.output r.id) s.truncatedAssistantItemIds
      else s.truncatedAssistantItemIds }

/-- The assistant item that `run_turn` appends, if it does. -/
def assistantItem : List ConversationItem :=
  match s.responseOutput with
  | none => []
  | some output =>
    if output.text ≠ "" ∧ output.itemId ∉ s.truncatedAssistantItemIds then
      [⟨.assistant, output.text, output.itemId⟩]
    else []

/-- `run_turn` after its transcription, which gave a text or raised. -/
def transcribed (transcript : Option String) (turn : Nat) (session : Session) : RealtimeSession :=
  let forget (items : List ItemId) : List ItemId :=
    match s.responseOutput with
    | none => items
    | some output => discardItem output.itemId items
  { s with
    session := session
    conversation :=
      match transcript with
      | none => s.conversation
      | some text =>
        s.conversation ++ (if text ≠ "" then [⟨.user, text, .input turn⟩] else []) ++ s.assistantItem
    pendingAssistantItemIds := forget s.pendingAssistantItemIds
    truncatedAssistantItemIds := forget s.truncatedAssistantItemIds
    responseOutput := none }

/-- A step of the turns.  The end of a turn is `transcribed`. -/
def turnStep (a : Action) : Option RealtimeSession :=
  match s.session.step a with
  | none => none
  | some session =>
    match a, s.session.phase with
    | .start _, _ =>
      some { s with
        session := session
        responseOutput := none
        doneStatus := none
        terminalsOver := false }
    | .begins, .starting r => some (s.begins r session)
    | .write, .terminals _ (.responseDone _ _ _ status _ :: _) _ =>
      some { s with session := session, doneStatus := some status }
    | .returns, .terminals r [] hasRaised =>
      if s.terminalsOver then some (s.responseReturns r hasRaised session) else none
    | .turnEnds, _ => none
    | _, _ => some { s with session := session }

end RealtimeSession

inductive TalkAction
  | turn (a : Action)
  | terminalsReturn
  | transcribed (transcript : Option String)
  | truncate (itemId : ItemId) (contentIndex audioEndMs : Int)
  | truncateSent
  deriving DecidableEq

def RealtimeSession.step (s : RealtimeSession) : TalkAction → Option RealtimeSession
  | .turn a => s.turnStep a
  | .terminalsReturn =>
    match s.session.phase, s.doneStatus, s.terminalsOver with
    | .terminals r [] _, some status, false => some (s.terminalsReturn r status)
    | _, _, _ => none
  | .transcribed transcript =>
    (s.session.step .turnEnds).map fun session =>
      s.transcribed transcript (s.session.next - 1) session
  | .truncate itemId contentIndex audioEndMs =>
    if s.truncating.isNone then
      some (s.handleConversationItemTruncate itemId contentIndex audioEndMs)
    else none
  | .truncateSent =>
    s.truncating.map fun t =>
      { s with truncating := none, notes := s.notes ++ [Note.truncated t.1 t.2.1 t.2.2] }

/-- A session with any interleaving of its turns and of what the client sends. -/
def talk : Machine RealtimeSession TalkAction := ⟨{}, RealtimeSession.step⟩

end Turns
