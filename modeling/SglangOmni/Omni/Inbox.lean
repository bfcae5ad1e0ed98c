import SglangOmni.Lib.Machine
import Mathlib.Data.List.Basic

/-! The inbox of an `OmniScheduler`.  The Stage thread puts messages at any moment; the scheduler
thread drains them at the start of a pass, keeps one back from an idle wait, and empties and refills
the inbox in each abort.  Each `get` and each `put` is one step. -/

namespace Omni

open Lib

/-- `IncomingMessage.type`. -/
inductive MessageType where
  | newRequest
  | streamChunk
  | streamDone
  | abort
  | stop
  | admin
deriving DecidableEq, Repr

structure Incoming (δ : Type) where
  requestId : String
  type : MessageType
  data : δ
deriving DecidableEq, Repr

namespace Inbox

/-- Whether the scheduler has a session bridge, and `is_close_request`. -/
structure Config (δ : Type) where
  hasSessionBridge : Bool
  isCloseRequest : δ → Bool

inductive Phase where
  | start
  | receiving
  | handling
  | working
  | ended
deriving DecidableEq, Repr

/-- A call of `drain_inbox_for_request`: the messages to keep, and whether the inbox was found empty,
so that they are put back. -/
structure Removal (δ : Type) where
  requestId : String
  retained : List (Incoming δ)
  isRefilling : Bool
deriving DecidableEq, Repr

/-- The inbox and what the scheduler thread has in hand.  `aborts`, `puts` and `handled` record the
run. -/
structure State (δ : Type) where
  inbox : List (Incoming δ)
  idleWaitMessage : Option (Incoming δ)
  recvMsgs : List (Incoming δ)
  removal : Option (Removal δ)
  phase : Phase
  running : Bool
  abortedRequestIds : List String
  aborts : List String
  puts : List (Incoming δ)
  handled : List (Incoming δ)
deriving DecidableEq, Repr

inductive Action (δ : Type) where
  | put (msg : Incoming δ)
  | stop
  | abort (requestId : String)
  | get
  | putBack
  | receive
  | take
  | handle
  | pass
  | sleep

variable {δ : Type}

def State.initial : State δ where
  inbox := []
  idleWaitMessage := none
  recvMsgs := []
  removal := none
  phase := .start
  running := true
  abortedRequestIds := []
  aborts := []
  puts := []
  handled := []

def abortedRequestIdLimit : Nat := 10000

def abortedRequestIdRetained : Nat := 5000

def rememberAborted (ids : List String) (requestId : String) : List String :=
  if requestId ∈ ids then ids
  else if abortedRequestIdLimit ≤ ids.length then
    ids.drop (ids.length + 1 - abortedRequestIdRetained) ++ [requestId]
  else ids ++ [requestId]

/-- A message of the session close that `recv_requests` and `drain_inbox_for_request` let through. -/
def Config.isCleanup (cfg : Config δ) (msg : Incoming δ) : Bool :=
  cfg.hasSessionBridge && msg.type == .newRequest && cfg.isCloseRequest msg.data

/-- `abort` on the scheduler thread, up to the first `get` of `drain_inbox_for_request`. -/
def State.abort (s : State δ) (requestId : String) : State δ :=
  { s with
    abortedRequestIds := rememberAborted s.abortedRequestIds requestId
    aborts := s.aborts ++ [requestId]
    removal := some ⟨requestId, [], false⟩ }

/-- What `drain_inbox_for_request` does with a message that it took. -/
def Config.sortOut (cfg : Config δ) (removal : Removal δ) (msg : Incoming δ) :
    Removal δ :=
  if msg.requestId ≠ removal.requestId ∨ cfg.isCleanup msg = true then
    { removal with retained := removal.retained ++ [msg] }
  else removal

/-- One round of the loop of `recv_requests`. -/
def Config.handle (cfg : Config δ) (s : State δ) (msg : Incoming δ) : State δ :=
  match msg.type with
  | .stop => { s with running := false, handled := s.handled ++ [msg] }
  | .abort => { s.abort msg.requestId with handled := s.handled ++ [msg] }
  | .admin => { s with handled := s.handled ++ [msg] }
  | .newRequest | .streamChunk | .streamDone =>
    if msg.requestId ∈ s.abortedRequestIds ∧ cfg.isCleanup msg = false then s
    else { s with handled := s.handled ++ [msg] }

def State.loop (s : State δ) : State δ :=
  { s with phase := if s.running then .start else .ended }

/-- The scheduler thread calls `abort` outside of its own drain of the inbox. -/
def State.mayAbort (s : State δ) : Bool :=
  s.removal.isNone && (s.phase == .start || s.phase == .handling || s.phase == .working)

def step (cfg : Config δ) (s : State δ) : Action δ → Option (State δ)
  | .put msg => some { s with inbox := s.inbox ++ [msg], puts := s.puts ++ [msg] }
  | .stop => some { s with running := false }
  | .abort requestId => if s.mayAbort then some (s.abort requestId) else none
  | .get =>
    match s.removal with
    | none => none
    | some removal =>
      if removal.isRefilling then none
      else
        match s.inbox with
        | [] => some { s with removal := some { removal with isRefilling := true } }
        | msg :: rest => some { s with inbox := rest, removal := some (cfg.sortOut removal msg) }
  | .putBack =>
    match s.removal with
    | none => none
    | some removal =>
      if removal.isRefilling then
        match removal.retained with
        | [] => some { s with removal := none }
        | msg :: rest =>
          some { s with
            inbox := s.inbox ++ [msg]
            removal := some { removal with retained := rest } }
      else none
  | .receive =>
    if s.removal.isNone ∧ s.phase = .start then
      some { s with
        recvMsgs := s.idleWaitMessage.toList
        idleWaitMessage := none
        phase := .receiving }
    else none
  | .take =>
    if s.phase = .receiving then
      match s.inbox with
      | [] => some { s with phase := .handling }
      | msg :: rest => some { s with inbox := rest, recvMsgs := s.recvMsgs ++ [msg] }
    else none
  | .handle =>
    if s.removal.isNone ∧ s.phase = .handling then
      match s.recvMsgs with
      | [] => some { s with phase := .working }
      | msg :: rest => some (cfg.handle { s with recvMsgs := rest } msg)
    else none
  | .pass => if s.removal.isNone ∧ s.phase = .working then some s.loop else none
  | .sleep =>
    if s.removal.isNone ∧ s.phase = .working then
      some { s with inbox := s.inbox.tail, idleWaitMessage := s.inbox.head? }.loop
    else none

def machine (cfg : Config δ) : Machine (State δ) (Action δ) := ⟨.initial, step cfg⟩

end Inbox

end Omni
