import SglangOmni.Lib.Machine
import Mathlib.Data.List.Dedup

/-! Where a scheduler's live requests sit, and the lookups that go through those places: the data of a
request, the ids of the active ones, and what an abort reaches. -/

namespace Omni.Holders

structure Req where
  rid : String
  data : Option Nat
  finished : Bool := false
  toFinish : Bool := false
  claimed : Bool := false
  retracted : Bool := false
deriving DecidableEq

/-- A batch, as the objects in its `reqs`. -/
abbrev Batch := List Nat

/-- The scheduler's holders of requests. Objects are numbered; `enqueued` are those that were ever put
in the waiting queue. -/
structure State where
  req : Nat → Req
  running : Batch
  cur : Option Batch
  last : Option Batch
  lastIsExtend : Bool
  previousPendingDecode : Option Batch
  asyncPending : Option Batch
  resultQueue : List Batch
  waiting : List Nat
  chunked : Option Nat
  pendingBuilds : List String
  pendingAdmissions : List String
  backlogged : List String
  deferred : List String
  abortedIds : List String
  enqueued : List Nat

namespace State

variable (s : State)

def pendingBatches : List Batch :=
  s.previousPendingDecode.toList ++ s.asyncPending.toList ++ s.resultQueue

def scannedBatches : List Batch :=
  [s.running] ++ s.cur.toList ++ s.last.toList ++ s.pendingBatches

def scanned : List Nat := s.scannedBatches.flatten

/-! ### The lookups -/

def findRequestData (requestId : String) : Option Nat :=
  match s.scanned.find? fun o => (s.req o).rid == requestId with
  | some o => (s.req o).data
  | none =>
      match s.waiting.find? fun o => (s.req o).rid == requestId with
      | some o => (s.req o).data
      | none => none

/-- The ids that `active_request_ids` collects in a set. -/
def activeIds : List String :=
  s.pendingBuilds ++ s.pendingAdmissions
    ++ s.backlogged.filter (fun id => !s.abortedIds.contains id)
    ++ s.waiting.map (fun o => (s.req o).rid)
    ++ s.deferred
    ++ (s.scanned.filter fun o => !(s.req o).finished).map fun o => (s.req o).rid

def activeRequestIds : List String :=
  s.activeIds.dedup.mergeSort fun a b => decide (a ≤ b)

/-- Whether the scan of `mark_running_request_aborted` gets past its two `continue`s. -/
def abortable (requestId : String) (o : Nat) : Bool :=
  (s.req o).rid == requestId && !(s.req o).claimed
    && !((s.req o).finished || (s.req o).retracted)

def markRunningRequestAborted (requestId : String) : Bool × State :=
  (s.scanned.any fun o => s.abortable requestId o
      || ((s.req o).rid == requestId && (s.req o).claimed && (s.req o).data.isSome),
    { s with req := fun o =>
        if s.scanned.contains o && s.abortable requestId o then { s.req o with toFinish := true }
        else s.req o })

/-- The requests of an id in the scanned batches, which `update_finish_state` finishes. -/
def markRequestFinishedImmediately (requestId : String) : List Nat × State :=
  (s.scanned.filter fun o => (s.req o).rid == requestId,
    { s with req := fun o =>
        if s.scanned.contains o && (s.req o).rid == requestId then
          { s.req o with toFinish := true, finished := true }
        else s.req o })

/-- `detach_request_data` on each of `objects`. -/
def detach (objects : List Nat) : State :=
  { s with req := fun o => if objects.contains o then { s.req o with data := none } else s.req o }

/-- The waiting-queue scan of `abort`: the requests of the id are detached and leave the queue. -/
def abortWaiting (requestId : String) : State :=
  let matched := s.waiting.filter fun o => (s.req o).rid == requestId
  { s.detach matched with waiting := s.waiting.filter fun o => (s.req o).rid != requestId }

/-- The batch scans of `abort`: the running requests of the id are asked to finish, or else finished at
once and returned. -/
def abortScans (requestId : String) (deferRunningCleanup : Bool) : List Nat × State :=
  let marked := if deferRunningCleanup then s.markRunningRequestAborted requestId else (false, s)
  if marked.1 then ([], marked.2) else marked.2.markRequestFinishedImmediately requestId

def forget (requestId : String) : State :=
  { s with
    abortedIds := if s.abortedIds.contains requestId then s.abortedIds else s.abortedIds ++ [requestId]
    pendingBuilds := s.pendingBuilds.filter (· != requestId)
    pendingAdmissions := s.pendingAdmissions.filter (· != requestId)
    backlogged := s.backlogged.filter (· != requestId)
    deferred := s.deferred.filter (· != requestId) }

/-- `abort`, without sessions: what it does to the holders and their requests. -/
def abort (requestId : String) (deferRunningCleanup : Bool) : State :=
  let scans := s.abortScans requestId deferRunningCleanup
  ((scans.2.abortWaiting requestId).detach scans.1).forget requestId

/-! ### The other operations on the holders -/

/-- `filter_batch`, which leaves the unfinished requests. -/
def filterBatch (batch : Batch) : Batch := batch.filter fun o => !(s.req o).finished

def abortAllRequests : State :=
  let s := s.activeRequestIds.foldl (fun s id => s.abort id false) s
  { s with
    running := s.filterBatch s.running
    cur := s.cur.map s.filterBatch
    last := s.last.map s.filterBatch
    chunked := none }

/-- The unfinished requests that hold KV, the chunked one among them. -/
def retractable : List Nat :=
  let extending := if s.lastIsExtend then s.last.getD [] else []
  (s.running ++ extending ++ s.chunked.toList).dedup.filter fun o => !(s.req o).finished

def retractRunningRequests : State :=
  { s with
    req := fun o => if s.retractable.contains o then { s.req o with retracted := true } else s.req o
    running := []
    last := none
    chunked := none
    waiting := s.waiting ++ s.retractable }

/-- `handle_batch_failure` on a batch: its requests are claimed and aborted. -/
def handleBatchFailure (batch : Batch) : State :=
  let claimed : State := { s with
    req := fun o =>
      if batch.contains o then
        { s.req o with claimed := true, toFinish := (s.req o).toFinish || !(s.req o).finished }
      else s.req o
    chunked := s.chunked.filter fun o => !batch.contains o }
  batch.foldl (fun s o => s.abort (claimed.req o).rid false) claimed

/-- `enqueue_if_live`: a request of its own object joins the waiting queue with its data. -/
def enqueueBuilt (o : Nat) (rid : String) (data : Nat) : State :=
  { s with
    req := fun o' => if o' = o then { rid, data := some data } else s.req o'
    waiting := s.waiting ++ [o]
    enqueued := s.enqueued ++ [o] }

end State

/-- What SGLang's own code does between two operations: it rearranges the holders, finishes some
requests, and says which are retracted. -/
structure Upstream where
  running : Batch
  cur : Option Batch
  last : Option Batch
  lastIsExtend : Bool
  previousPendingDecode : Option Batch
  asyncPending : Option Batch
  resultQueue : List Batch
  waiting : List Nat
  chunked : Option Nat
  finish : List Nat
  retracted : List Nat

def State.upstream (s : State) (u : Upstream) : State :=
  { s with
    req := fun o => { s.req o with
      finished := (s.req o).finished || u.finish.contains o
      claimed := (s.req o).claimed || u.finish.contains o
      data := if u.finish.contains o then none else (s.req o).data
      retracted := u.retracted.contains o }
    running := u.running
    cur := u.cur
    last := u.last
    lastIsExtend := u.lastIsExtend
    previousPendingDecode := u.previousPendingDecode
    asyncPending := u.asyncPending
    resultQueue := u.resultQueue
    waiting := u.waiting
    chunked := u.chunked }

namespace State

def live (s : State) (o : Nat) : Bool :=
  s.enqueued.contains o && (s.req o).data.isSome && !(s.req o).finished && !(s.req o).claimed
    && !(s.req o).toFinish

def members (s : State) : List Nat := s.scanned ++ s.waiting ++ s.chunked.toList

/-- What is relied on of SGLang: a live request is in one of the holders, and in the waiting queue when
it is retracted. -/
def upstreamHolds (s : State) : Bool :=
  s.enqueued.all fun o => !s.live o
    || (s.members.contains o && (!(s.req o).retracted || s.waiting.contains o))

end State

inductive Action where
  | enqueue (o : Nat) (rid : String) (data : Nat)
  | upstream (u : Upstream)
  | abort (requestId : String) (deferRunningCleanup : Bool)
  | abortAll
  | retract
  | fail (batch : Batch)
  | queue (pendingBuilds pendingAdmissions backlogged deferred : List String)

def State.perform (s : State) : Action → Option State
  | .enqueue o rid data => if s.enqueued.contains o then none else some (s.enqueueBuilt o rid data)
  | .upstream u =>
      if (s.upstream u).members.all s.members.contains then some (s.upstream u) else none
  | .abort requestId deferRunningCleanup => some (s.abort requestId deferRunningCleanup)
  | .abortAll => some s.abortAllRequests
  | .retract => some s.retractRunningRequests
  | .fail batch => some (s.handleBatchFailure batch)
  | .queue pendingBuilds pendingAdmissions backlogged deferred =>
      some { s with pendingBuilds, pendingAdmissions, backlogged, deferred }

def State.initial : State where
  req _ := { rid := "", data := none }
  running := []
  cur := none
  last := none
  lastIsExtend := false
  previousPendingDecode := none
  asyncPending := none
  resultQueue := []
  waiting := []
  chunked := none
  pendingBuilds := []
  pendingAdmissions := []
  backlogged := []
  deferred := []
  abortedIds := []
  enqueued := []

/-- The scheduler loop, over every behaviour of SGLang that keeps its live requests in the holders. -/
def loop : Lib.Machine State Action where
  init := .initial
  step s a := (s.perform a).filter State.upstreamHolds

end Omni.Holders
