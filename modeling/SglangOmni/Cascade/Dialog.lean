import Mathlib.Algebra.GroupWithZero.Nat
import SglangOmni.Lib.Machine
import Mathlib.Data.List.Basic

/-! The dialog of a streaming cascade: the conversation history, the utterances that wait, the open
reply, and the ended reply that later reports still cut. -/

namespace Cascade

abbrev Text := List Char

inductive Role where
  | system
  | user
  | assistant
deriving DecidableEq, Repr

structure ChatMessage where
  role : Role
  content : Text := []
  uncertain : Bool := false
  isCut : Bool := false
deriving DecidableEq, Repr

structure Times (τ : Type) where
  zero : τ
  infinity : τ
  lt : τ → τ → Bool
  le : τ → τ → Bool
  isInf : τ → Bool

/-! ### Text -/

/-- The characters that `str.strip` drops. -/
def isSpace (c : Char) : Bool :=
  let n := c.toNat
  (9 ≤ n && n ≤ 13) || (28 ≤ n && n ≤ 32) || n == 0x85 || n == 0xa0 || n == 0x1680
    || (0x2000 ≤ n && n ≤ 0x200a) || n == 0x2028 || n == 0x2029 || n == 0x202f || n == 0x205f
    || n == 0x3000

def rstrip (text : Text) : Text := (text.reverse.dropWhile isSpace).reverse

def strip (text : Text) : Text := rstrip (text.dropWhile isSpace)

/-- The number of the words that `str.split` finds, counted at their last characters. -/
def wordCount : Text → Nat
  | [] => 0
  | c :: rest =>
    if isSpace c then wordCount rest
    else if rest.head?.all isSpace then wordCount rest + 1
    else wordCount rest

/-- The position that an index of a slice stands for: one below zero counts from the end. -/
def slicePosition (text : Text) (position : Int) : Nat :=
  if 0 ≤ position then position.toNat else text.length - (-position).toNat

def sliceTo (text : Text) (stop : Int) : Text := text.take (slicePosition text stop)

def sliceFrom (text : Text) (start : Int) : Text := text.drop (slicePosition text start)

def ellipsis : Char := '…'

def removeEllipsis (text : Text) : Text :=
  if text.getLast? = some ellipsis then text.dropLast else text

def isCjk (c : Char) : Bool :=
  let n := c.toNat
  (0x3040 ≤ n && n ≤ 0x30ff) || (0x4e00 ≤ n && n ≤ 0x9fff) || (0xac00 ≤ n && n ≤ 0xd7af)

def minLanguageWords : Nat := 3

def minLanguageCjkChars : Nat := 3

def shortUtteranceNote (language : Option String) : Text :=
  "Reply in ".toList ++ (language.getD "None").toList ++
    ", the language of this conversation; the user's last message is too short to tell their language.".toList

def cutReplyNote : Text :=
  "A reply of yours that ends with … was cut off when the user interrupted it; answer the latest message in full.".toList

/-! ### The model's prompt -/

def promptMessage (message : ChatMessage) : ChatMessage :=
  if message.isCut then
    { role := .assistant, content := removeEllipsis message.content ++ [ellipsis] }
  else if message.role = .assistant then
    { role := .assistant, content := removeEllipsis (rstrip message.content) }
  else message

def promptMessages (messages : List ChatMessage) : List ChatMessage :=
  let prompt := messages.map promptMessage
  if messages.any (·.isCut) then
    prompt.modify 0 fun head => { role := .system, content := head.content ++ [' '] ++ cutReplyNote }
  else prompt

/-! ### The cut of a reply -/

variable {τ : Type}

/-- Whether `q` comes after `p` in the order of tuples. -/
def Times.isLater (times : Times τ) (p q : Int × τ) : Bool :=
  if p.1 = q.1 then times.lt p.2 q.2 else p.1 < q.1

/-- `max` over boundaries, with its default. -/
def Times.latest (times : Times τ) : List (Int × τ) → Int × τ
  | [] => (0, times.zero)
  | p :: rest => rest.foldl (fun best q => if times.isLater best q then q else best) p

def Times.heardPrefix (times : Times τ) (progress : List (Int × τ)) (heardMs : τ) (text : Text) :
    Int × Bool :=
  let best := times.latest (progress.filter fun p => times.le p.2 heardMs)
  (best.1, times.lt best.2 heardMs && !(strip (sliceFrom text best.1)).isEmpty)

/-- `min` over the positions that are known, with its default. -/
def Times.earliest (times : Times τ) : List τ → τ
  | [] => times.zero
  | t :: rest => rest.foldl (fun best u => if times.lt u best then u else best) t

/-! ### The dialog -/

structure DialogConfig where
  systemPrompt : Text
  maxHistoryChars : Nat
  maxTextChars : Nat

inductive Output where
  | queued (turn : Nat)
  | empty (turn : Nat)
  | started (turn : Nat)
  | messages (prompt : List ChatMessage) (turn : Nat) (language : Option String)
  | interrupt (turn : Nat)
  | interrupted (turn : Nat)
  | heard (turn : Nat) (textEnd : Int)
deriving DecidableEq

/-- A moment of a dialog: a chunk that it emits, or the turn.done that ends its open reply. -/
inductive Moment where
  | emitted (output : Output)
  | replyDone (turn : Nat)
deriving DecidableEq

/-- An utterance that waits: its turn, its transcript and the language that the recognizer heard. -/
structure Utterance where
  turn : Nat
  text : Text
  language : Option String

/-- The state of a `Dialog`; `log` records its run. -/
structure Dialog (τ : Type) where
  awaitsDelivery : Bool
  messages : List ChatMessage
  waiting : List Utterance
  reply : Option (List Text)
  replyTurn : Nat
  turns : Nat
  progress : List (Int × τ)
  truncatable : Option (Nat × Nat)
  truncatableText : Text
  isTruncatableInterrupted : Bool
  truncatableProgress : List (Int × τ)
  deliveredMs : Option τ
  heardMs : Option τ
  language : Option String
  isUserSpeaking : Bool
  log : List Moment

def Dialog.initial (cfg : DialogConfig) (times : Times τ) (awaitsDelivery : Bool) : Dialog τ where
  awaitsDelivery := awaitsDelivery
  messages := [{ role := .system, content := cfg.systemPrompt }]
  waiting := []
  reply := none
  replyTurn := 0
  turns := 0
  progress := []
  truncatable := none
  truncatableText := []
  isTruncatableInterrupted := false
  truncatableProgress := []
  deliveredMs := some times.infinity
  heardMs := none
  language := none
  isUserSpeaking := false
  log := []

namespace Dialog

variable (cfg : DialogConfig) (times : Times τ) (s : Dialog τ)

def emit (output : Output) : Dialog τ := { s with log := s.log ++ [.emitted output] }

/-- `is_reply`, of a chunk's turn. -/
def isReply (turn : Option Int) : Bool := s.reply.isSome && turn == some (s.replyTurn : Int)

/-- Whether a report of a turn is one of the reply that can still be cut. -/
def isTruncatable (turn : Option Int) : Bool :=
  s.truncatable.any fun ended => turn == some (ended.1 : Int)

def joinAround (index : Nat) : Dialog τ :=
  let content (position : Nat) : Text := (s.messages[position]?.map (·.content)).getD []
  let joined := s.messages.set (index - 1)
    { role := .user, content := content (index - 1) ++ [' '] ++ content (index + 1) }
  { s with
    messages := joined.take index ++ joined.drop (index + 2)
    truncatable := s.truncatable.filter fun ended => ended.2 != index }

/-- What `truncate` hears of the reply. -/
def heardUpTo : τ := times.earliest (s.heardMs.toList ++ s.deliveredMs.toList)

/-- The entry of a reply of which `text_end` characters are kept. -/
def cutEntry (cut : Int × Bool) : ChatMessage :=
  let kept := rstrip (sliceTo s.truncatableText cut.1)
  { role := .assistant
    content := kept
    uncertain := cut.2
    isCut := s.isTruncatableInterrupted || kept != rstrip s.truncatableText }

/-- `truncate`, for the ended reply of `turn` at `index`. -/
def truncateAt (turn index : Nat) : Dialog τ :=
  let heardMs := s.heardUpTo times
  if times.isInf heardMs then s
  else
    let cut := times.heardPrefix s.truncatableProgress heardMs s.truncatableText
    let entry := s.cutEntry cut
    let s := { s with messages := s.messages.set index entry }
    let s := if s.heardMs.isSome then s.emit (.heard turn cut.1) else s
    if entry.content.isEmpty && index + 1 < s.messages.length then s.joinAround index else s

def truncate : Dialog τ :=
  match s.truncatable with
  | none => s
  | some (turn, index) => s.truncateAt times turn index

/-- The reply ends interrupted and leaves an entry that keeps none of it. -/
def keepNothing : Dialog τ := { s with messages := s.messages ++ [{ role := .assistant }] }

def becomeTruncatable (text : Text) : Dialog τ :=
  { s with
    truncatableText := text
    isTruncatableInterrupted := true
    truncatable := some (s.replyTurn, s.messages.length - 1)
    truncatableProgress := s.progress
    progress := []
    deliveredMs := none
    heardMs := none }

/-- `interrupt_reply`, of an open reply that has `parts`. -/
def interruptReply (parts : List Text) : Dialog τ :=
  let turn := s.replyTurn
  let s := s.keepNothing
  let s := if parts.flatten.isEmpty then s else (s.becomeTruncatable parts.flatten).truncate times
  (({ s with reply := none } : Dialog τ).emit (.interrupt turn)).emit (.interrupted turn)

/-- `interrupt_reply` where a reply is open. -/
def interruptOpen : Dialog τ :=
  match s.reply with
  | none => s
  | some parts => s.interruptReply times parts

def historyChars : Nat := (s.messages.map fun message => message.content.length).sum

def isClear (text : Text) : Bool :=
  minLanguageCjkChars ≤ (text.filter isCjk).length || minLanguageWords ≤ wordCount text

/-- The prompt's last message asks for a reply in the language of the session. -/
def withLanguageNote (prompt : List ChatMessage) (language : Option String) : List ChatMessage :=
  prompt.modify (prompt.length - 1) fun last =>
    { role := .user
      content := last.content ++ ['\n', '\n', '['] ++ shortUtteranceNote language ++ [']'] }

/-- The user message of an utterance joins the one before it when the reply between is empty. -/
def addUtterance (text : Text) : Dialog τ :=
  let s := { s with messages := s.messages ++ [{ role := .user, content := text }] }
  let index := s.messages.length - 2
  match s.messages[index]? with
  | some before =>
    if before.role = .assistant ∧ before.content = [] then s.joinAround index else s
  | none => s

/-- `respond`, with the emission of what it returns; none where it raises. -/
def respond (utterance : Utterance) : Option (Dialog τ) :=
  let ⟨turn, text, language⟩ := utterance
  if text.isEmpty then some (s.emit (.empty turn))
  else if cfg.maxTextChars < text.length then none
  else if cfg.maxHistoryChars < s.historyChars + text.length + cfg.maxTextChars then none
  else
    let isShortSwitch := !isClear text && language.isSome && s.language.isSome && language != s.language
    let s := s.addUtterance text
    let s := if language.isSome && isClear text then { s with language := language } else s
    let prompt := promptMessages s.messages
    let prompt := if isShortSwitch then withLanguageNote prompt s.language else prompt
    let s := { s with reply := some [], replyTurn := turn, progress := [] }
    some ((s.emit (.started turn)).emit (.messages prompt turn s.language))

/-- The condition of the loop of `respond_to_waiting`, apart from that an utterance waits. -/
def mayRespond : Bool :=
  s.reply.isNone && (!s.awaitsDelivery || s.deliveredMs.isSome || s.heardMs.isSome)

/-- The loop of `respond_to_waiting` over the utterances that wait. -/
def respondTo : List Utterance → Dialog τ → Option (Dialog τ)
  | [], s => some { s with waiting := [] }
  | utterance :: rest, s =>
    if s.mayRespond then do
      let s ← s.respond cfg utterance
      respondTo rest (if s.isUserSpeaking then s.interruptOpen times else s)
    else some { s with waiting := utterance :: rest }

def respondToWaiting : Option (Dialog τ) := respondTo cfg times s.waiting s

end Dialog

/-- A chunk of the dialog's input stream; `other` is one of a kind or form that it passes over. -/
inductive Input (τ : Type) where
  | transcript (text : Text) (isFinal : Bool) (language : Option String)
  | textDelta (turn : Option Int) (text : Text)
  | turnDone (turn : Option Int)
  | speechStarted
  | speechStopped
  | commit
  | replyDelivered (turn : Option Int) (audioMs : τ)
  | truncate (turn : Option Int) (tMs : τ)
  | other

inductive Control (τ : Type) where
  | interrupt
  | replyProgress (turn : Option Int) (textEnd : Int) (audioMs : τ)
  | other

namespace Dialog

variable (cfg : DialogConfig) (times : Times τ) (s : Dialog τ)

def queue (text : Text) (language : Option String) : Dialog τ :=
  ({ s with
    turns := s.turns + 1
    waiting := s.waiting ++ [⟨s.turns + 1, strip text, language⟩] } : Dialog τ).emit
      (.queued (s.turns + 1))

/-- The open reply ends with its `parts`, all of them in the history. -/
def finishReply (parts : List Text) : Dialog τ :=
  { s with
    messages := s.messages ++ [{ role := .assistant, content := parts.flatten }]
    truncatable := some (s.replyTurn, s.messages.length)
    truncatableText := parts.flatten
    isTruncatableInterrupted := false
    truncatableProgress := s.progress
    progress := []
    deliveredMs := some times.infinity
    heardMs := none
    reply := none
    log := s.log ++ [.replyDone s.replyTurn] }

def handle : Input τ → Option (Dialog τ)
  | .transcript text isFinal language => some (if isFinal then s.queue text language else s)
  | .textDelta turn text =>
    match s.reply with
    | none => some s
    | some parts =>
      if s.isReply turn then
        if cfg.maxTextChars < (parts ++ [text]).flatten.length then none
        else some { s with reply := some (parts ++ [text]) }
      else some s
  | .turnDone turn =>
    match s.reply with
    | none => some s
    | some parts => some (if s.isReply turn then s.finishReply times parts else s)
  | .speechStarted => some ({ s with isUserSpeaking := true }.interruptOpen times)
  | .speechStopped | .commit => some { s with isUserSpeaking := false }
  | .replyDelivered turn audioMs =>
    some (if s.isTruncatable turn then { s with deliveredMs := some audioMs }.truncate times else s)
  | .truncate turn tMs =>
    let turn := turn.getD s.replyTurn
    some (if s.isTruncatable (some turn) then { s with heardMs := some tMs }.truncate times else s)
  | .other => some s

def process (input : Input τ) : Option (Dialog τ) := do
  (← s.handle cfg times input).respondToWaiting cfg times

def control : Control τ → Option (Dialog τ)
  | .interrupt =>
    match s.reply with
    | none => some s
    | some parts => (s.interruptReply times parts).respondToWaiting cfg times
  | .replyProgress turn textEnd audioMs =>
    some (
      if s.isTruncatable turn then
        { s with truncatableProgress := s.truncatableProgress ++ [(textEnd, audioMs)] }.truncate times
      else if s.isReply turn then { s with progress := s.progress ++ [(textEnd, audioMs)] }
      else s)
  | .other => some s

end Dialog

inductive Event (τ : Type) where
  | input (chunk : Input τ)
  | control (event : Control τ)

def dialog (cfg : DialogConfig) (times : Times τ) (awaitsDelivery : Bool) :
    Lib.Machine (Dialog τ) (Event τ) where
  init := .initial cfg times awaitsDelivery
  step s
    | .input chunk => s.process cfg times chunk
    | .control event => s.control cfg times event

end Cascade
