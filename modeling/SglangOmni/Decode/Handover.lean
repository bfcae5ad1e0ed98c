import SglangOmni.Lib.Dict
import SglangOmni.Lib.Machine
import SglangOmni.Omni.Inbox

/-! The hand-over of transferred KV to a decode stage: `DecodeKVReceiver` reserves slots and queues an
admission when the copy commits, and `OmniDecodeScheduler` admits, defers or discards it.  Every
section under the lifecycle lock is one step. -/

namespace Decode

open Lib

/-- `DecodeContinuation`, as far as the hand-over reads it. -/
structure Continuation where
  requestId : String
  transferId : String
  originInputIds : List Int
  multimodalResume : Option (Option String)
deriving DecidableEq, Repr

inductive RawContinuation where
  | absent
  | undecodable
  | decoded (continuation : Continuation)
deriving DecidableEq, Repr

structure Prepare where
  transferId : String
  requestId : String
  targetPoolId : String
  decodeContinuation : RawContinuation
  sourcePageIndices : List Nat
  replicaBindings : List (String × String)
deriving DecidableEq, Repr

structure Destination where
  poolId : String
  pageIndices : List Nat
deriving DecidableEq, Repr

/-- `DecodeAdmission` with its `ReservedKV`.  `range` numbers the reservations. -/
structure Admission where
  range : Nat
  continuation : Continuation
  slots : List Nat
  seqLen : Nat
  replicaBindings : List (String × String)
deriving DecidableEq, Repr

/-- The "admitted" message.  `abortedAt` records the aborted requests at that moment. -/
structure Admitted where
  range : Nat
  requestId : String
  replicaBindings : List (String × String)
  abortedAt : List String
deriving DecidableEq, Repr

inductive ReserveError where
  | anotherPool
  | missingContinuation
  | undecodable
  | idsDiffer
  | unsupportedSchema
  | noPages
  | notOnePagePerToken
  | closed
  | notAccepting
  | duplicateTransfer (transferId : String)
  | exhausted (need available : Nat)
  | allocatorFailed (need : Nat)
deriving DecidableEq, Repr

/-- What `req_from_continuation` does: it returns a request, finds no request row, or raises. -/
inductive Install where
  | installed
  | exhausted
  | failed
deriving DecidableEq, Repr

structure Config where
  poolId : String
  resumeSchema : String
  pool : List Nat
  nodup : pool.Nodup

/-- The receiver, the decode scheduler and the allocator.  `popped` are reservations that an abort is
about to free, `taken` are requests that left the waiting queue, `released` those whose slots the
scheduler gave back since, and `freed` what was freed on the way to the waiting queue.  `queued`
records what was put into `pd_admissions`. -/
structure State where
  available : List Nat
  reservations : Dict String Admission
  transferTombstones : List String
  acceptingReservations : Bool
  closed : Bool
  pdAdmissions : List Admission
  pdDeferredAdmission : Option Admission
  waitingQueue : List Admission
  abortedRequestIds : List String
  isDiscarding : Bool
  isDiscarded : Bool
  popped : List Admission
  taken : List Admission
  released : List Admission
  freed : List Admission
  outbox : List Admitted
  errors : List String
  queued : List Nat
  nextRange : Nat

/-- One section under the lifecycle lock, or one `free` of the allocator. -/
inductive Action where
  | reserve (request : Prepare) (answer : Option (List Nat))
  | commit (request : Prepare) (destination : Destination)
  | abortTransfer (transferId : String)
  | freePopped (range : Nat)
  | setAccepting (accepting : Bool)
  | close
  | drain (install : Admission → Install)
  | abort (requestId : String)
  | schedule (range : Nat)
  | release (range : Nat)
  | discard
  | finishDiscard

def Config.initial (cfg : Config) : State where
  available := cfg.pool
  reservations := ∅
  transferTombstones := []
  acceptingReservations := true
  closed := false
  pdAdmissions := []
  pdDeferredAdmission := none
  waitingQueue := []
  abortedRequestIds := []
  isDiscarding := false
  isDiscarded := false
  popped := []
  taken := []
  released := []
  freed := []
  outbox := []
  errors := []
  queued := []
  nextRange := 0

/-! ### The receiver -/

def transferTombstoneLimit : Nat := 10000

/-- `remember_finished_transfer`: the oldest tombstone goes when there are too many. -/
def rememberFinishedTransfer (tombstones : List String) (transferId : String) : List String :=
  let tombstones := if transferId ∈ tombstones then tombstones else tombstones ++ [transferId]
  if transferTombstoneLimit < tombstones.length then tombstones.tail else tombstones

/-- The checks of `reserve` before it takes the lock. -/
def Config.checkPrepare (cfg : Config) (request : Prepare) : Except ReserveError Continuation :=
  if request.targetPoolId ≠ cfg.poolId then .error .anotherPool
  else
    match request.decodeContinuation with
    | .absent => .error .missingContinuation
    | .undecodable => .error .undecodable
    | .decoded continuation =>
      if continuation.requestId ≠ request.requestId ∨
          continuation.transferId ≠ request.transferId then .error .idsDiffer
      else if continuation.multimodalResume.any (· ≠ some cfg.resumeSchema) then
        .error .unsupportedSchema
      else if request.sourcePageIndices.length = 0 then .error .noPages
      else if continuation.originInputIds.length ≠ request.sourcePageIndices.length then
        .error .notOnePagePerToken
      else .ok continuation

/-- `DecodeKVReceiver.reserve`, with the answer of the allocator if it is asked. -/
def Config.reserve (cfg : Config) (s : State) (request : Prepare) (answer : Option (List Nat)) :
    State × Except ReserveError Destination :=
  match cfg.checkPrepare request with
  | .error e => (s, .error e)
  | .ok continuation =>
    let count := request.sourcePageIndices.length
    if s.closed then (s, .error .closed)
    else if !s.acceptingReservations then (s, .error .notAccepting)
    else if s.reservations.contains request.transferId ∨
        request.transferId ∈ s.transferTombstones then
      (s, .error (.duplicateTransfer request.transferId))
    else if s.available.length < count then (s, .error (.exhausted count s.available.length))
    else
      match answer with
      | none => (s, .error (.allocatorFailed count))
      | some slots =>
        ({ s with
          available := s.available.filter (· ∉ slots)
          reservations := s.reservations.set request.transferId
            ⟨s.nextRange, continuation, slots, continuation.originInputIds.length,
              request.replicaBindings⟩
          nextRange := s.nextRange + 1 }, .ok ⟨cfg.poolId, slots⟩)

/-- The allocator hands out free slots only, as many as it was asked for. -/
def State.handsOutFree (s : State) (request : Prepare) (answer : Option (List Nat)) : Bool :=
  answer.all fun slots => decide (slots.Nodup) && slots.all (· ∈ s.available) &&
    slots.length == request.sourcePageIndices.length

def State.free (s : State) (a : Admission) : State :=
  { s with available := s.available ++ a.slots, freed := s.freed ++ [a] }

def Config.commit (cfg : Config) (s : State) (request : Prepare) (destination : Destination) :
    State :=
  match s.reservations.get? request.transferId with
  | none => s
  | some reservation =>
    let popped := { s with
      reservations := s.reservations.erase request.transferId
      transferTombstones := rememberFinishedTransfer s.transferTombstones request.transferId }
    if s.closed ∨ request.requestId ≠ reservation.continuation.requestId ∨
        request.targetPoolId ≠ cfg.poolId ∨ destination.poolId ≠ cfg.poolId ∨
        reservation.slots ≠ destination.pageIndices then popped.free reservation
    else
      { popped with
        pdAdmissions := s.pdAdmissions ++ [reservation]
        queued := s.queued ++ [reservation.range] }

/-- The locked part of `DecodeKVReceiver.abort`. -/
def State.abortTransfer (s : State) (transferId : String) : State :=
  match s.reservations.get? transferId with
  | none => s
  | some reservation =>
    { s with
      reservations := s.reservations.erase transferId
      transferTombstones := rememberFinishedTransfer s.transferTombstones transferId
      popped := s.popped ++ [reservation] }

def State.close (s : State) : State := { s with acceptingReservations := false, closed := true }

/-! ### The decode scheduler -/

def State.admitted (s : State) (a : Admission) : Admitted :=
  ⟨a.range, a.continuation.requestId, a.replicaBindings, s.abortedRequestIds⟩

/-- One round of `drain_decode_admissions`, and whether the loop goes on. -/
def State.admission (s : State) (install : Install) (a : Admission) : State × Bool :=
  if a.continuation.requestId ∈ s.abortedRequestIds then
    ({ s with pdDeferredAdmission := none }.free a, true)
  else
    match install with
    | .exhausted => ({ s with pdDeferredAdmission := some a }, false)
    | .failed =>
      ({ s with
        pdDeferredAdmission := none
        outbox := s.outbox ++ [s.admitted a]
        errors := s.errors ++ [a.continuation.requestId] }.free a, true)
    | .installed =>
      ({ s with
        pdDeferredAdmission := none
        waitingQueue := s.waitingQueue ++ [a]
        outbox := s.outbox ++ [s.admitted a] }, true)

/-- `drain_decode_admissions` over the queue, with no deferred admission left. -/
def drainQueue (install : Admission → Install) : List Admission → State → State
  | [], s => { s with pdAdmissions := [] }
  | a :: rest, s =>
    let next := { s with pdAdmissions := rest }.admission (install a) a
    if next.2 then drainQueue install rest next.1 else next.1

/-- `drain_decode_admissions`: the deferred admission comes first. -/
def State.drain (s : State) (install : Admission → Install) : State :=
  match s.pdDeferredAdmission with
  | none => drainQueue install s.pdAdmissions s
  | some a =>
    let next := s.admission (install a) a
    if next.2 then drainQueue install next.1.pdAdmissions next.1 else next.1

def State.abort (s : State) (requestId : String) : State :=
  { s with
    abortedRequestIds := Omni.Inbox.rememberAborted s.abortedRequestIds requestId
    waitingQueue := s.waitingQueue.filter (·.continuation.requestId ≠ requestId)
    taken := s.taken ++ s.waitingQueue.filter (·.continuation.requestId = requestId) }

/-- The locked part of `discard_pending_request_admissions`, after the receiver was closed. -/
def State.finishDiscard (s : State) : State :=
  let dropped := s.pdDeferredAdmission.toList ++ s.pdAdmissions
  { s with
    pdDeferredAdmission := none
    pdAdmissions := []
    available := s.available ++ dropped.flatMap Admission.slots
    freed := s.freed ++ dropped
    isDiscarding := false
    isDiscarded := true }

def step (cfg : Config) (s : State) : Action → Option State
  | .reserve request answer =>
    if s.handsOutFree request answer then some (cfg.reserve s request answer).1 else none
  | .commit request destination => some (cfg.commit s request destination)
  | .abortTransfer transferId => some (s.abortTransfer transferId)
  | .freePopped range =>
    match s.popped.find? (·.range = range) with
    | none => none
    | some a => some ({ s with popped := s.popped.erase a }.free a)
  | .setAccepting accepting => some { s with acceptingReservations := accepting && !s.closed }
  | .close => some s.close
  | .drain install => some (s.drain install)
  | .abort requestId => some (s.abort requestId)
  | .schedule range =>
    match s.waitingQueue.find? (·.range = range) with
    | none => none
    | some a => some { s with waitingQueue := s.waitingQueue.erase a, taken := s.taken ++ [a] }
  | .release range =>
    match s.taken.find? (·.range = range) with
    | none => none
    | some a =>
      some { s with
        taken := s.taken.erase a
        available := s.available ++ a.slots
        released := s.released ++ [a] }
  | .discard => some { s.close with isDiscarding := true }
  | .finishDiscard => if s.isDiscarding then some s.finishDiscard else none

/-- The hand-over between the communication side and the decode scheduler. -/
def handover (cfg : Config) : Machine State Action := ⟨cfg.initial, step cfg⟩

end Decode
