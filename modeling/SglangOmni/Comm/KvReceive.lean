import SglangOmni.Lib.Dict
import SglangOmni.Lib.Lists
import SglangOmni.Lib.Machine
import SglangOmni.Stage.Retired

/-! Inbound transfers of key-value pages: a destination that the receiver reserved is settled by a
commit or an abort, from the receiving task, from the cleanup of its request, or from the close of the
engine.  `reservation_settled_once` says that it is settled exactly once by the time the engine is
closed, never committed after the cleanup of its request, and never aborted during the copy, in every
run in which no new request ID is recorded in a full set; `commit_after_cleanup` is a run in which one
is. -/

namespace Comm.Inbound

open Lib Stage

/-- A call of `KVReceiver.commit` or `KVReceiver.abort` on a destination: whether the commit raised and
came after the cleanup of its request, and whether the pages were being copied at the abort. -/
inductive Settlement
  | commit (raised cleaned : Bool)
  | abort (copying : Bool)
  deriving DecidableEq

/-- The call settles the destination; a commit that raises is settled by the abort after it. -/
def Settlement.settles : Settlement → Bool
  | .commit raised _ => !raised
  | .abort _ => true

/-- A destination that `KVReceiver.reserve` returned, with its `InboundKVTransfer`.  `copying` says
that its pages are being copied, and `calls` are the calls that settle it. -/
structure Reservation where
  requestId : String
  transferId : String
  copyStarted : Bool := false
  abortError : Bool := false
  copying : Bool := false
  calls : List Settlement := []

def Reservation.settled (res : Reservation) : Nat := res.calls.countP Settlement.settles

/-- Where a task of `receive_rank_kv` stands: not started, in the copy for a reservation, or past it. -/
inductive TaskPhase
  | created
  | copying (reservation : Nat)
  | ended
  deriving DecidableEq

/-- A task of `receive_rank_kv`. -/
structure Task where
  requestId : String
  objectId : String
  phase : TaskPhase := .created

/-- How far `CommEngine.close` has come. -/
inductive Closing
  | no
  | stopping
  | done
  deriving DecidableEq

/-- The receiving side of a `CommEngine`.  `cleaned` are the requests cleaned up so far, and `announced`
the transfers for which a `DataReady` came. -/
structure Receiver where
  reservations : List Reservation := []
  inboundKv : Dict String Nat := ∅
  tasks : List Task := []
  abortedKvRequests : Finset String := ∅
  controlRunning : Bool := true
  closing : Closing := .no
  cleaned : List String := []
  announced : List String := []

def Receiver.modify (s : Receiver) (r : Nat) (f : Reservation → Reservation) : Receiver :=
  { s with reservations := s.reservations.modify r f }

/-- `KVReceiver.abort` on a reservation. -/
def Receiver.abort (s : Receiver) (r : Nat) : Receiver :=
  s.modify r fun res => { res with calls := res.calls ++ [.abort res.copying] }

/-- `KVReceiver.commit` on a reservation. -/
def Receiver.commit (s : Receiver) (r : Nat) (raised : Bool) : Receiver :=
  s.modify r fun res =>
    { res with calls := res.calls ++ [.commit raised (res.requestId ∈ s.cleaned)] }

def Receiver.setTask (s : Receiver) (k : Nat) (task : Task) : Receiver :=
  { s with tasks := s.tasks.set k task }

/-- One transfer of the loop of `cleanup`. -/
def Receiver.cleanupTransfer (requestId : String) (s : Receiver) (entry : String × Nat) : Receiver :=
  match s.reservations[entry.2]? with
  | none => s
  | some res =>
    if res.requestId ≠ requestId then s
    else if res.copyStarted then s.modify entry.2 fun res => { res with abortError := true }
    else { s.abort entry.2 with inboundKv := s.inboundKv.erase entry.1 }

/-- The inbound part of `CommEngine.cleanup`. -/
def Receiver.cleanup (s : Receiver) (it : Iteration) (requestId : String) : Receiver :=
  s.inboundKv.entries.foldl (Receiver.cleanupTransfer requestId)
    { s with
      abortedKvRequests := recordBoundedRequestId it s.abortedKvRequests requestId
      cleaned := requestId :: s.cleaned }

/-- What the receiver and the pools make of a `Prepare`: it is refused before a reservation, or the
reservation does not fit, or the transfer can begin. -/
inductive Preparation
  | refused
  | invalid
  | ready
  deriving DecidableEq

/-- `run_rank_control` at a `Prepare`.  A duplicate transfer ID ends it with an error. -/
def Receiver.prepare (s : Receiver) (requestId transferId : String) (outcome : Preparation) :
    Receiver :=
  if requestId ∈ s.abortedKvRequests then s
  else if s.inboundKv.contains transferId then { s with controlRunning := false }
  else
    match outcome with
    | .refused => s
    | .invalid =>
      { s with
        reservations := s.reservations ++
          [{ requestId := requestId, transferId := transferId, calls := [.abort false] }] }
    | .ready =>
      { s with
        reservations := s.reservations ++ [{ requestId := requestId, transferId := transferId }]
        inboundKv := s.inboundKv.set transferId s.reservations.length }

/-- The rest of `receive_rank_kv` after `read_kv_pages` raised an exception. -/
def Receiver.readFailed (s : Receiver) (k : Nat) (task : Task) (it : Iteration) : Receiver :=
  (s.cleanup it task.requestId).setTask k { task with phase := .ended }

/-- `read_kv_pages` drops the transfer. -/
def Receiver.pop (s : Receiver) (task : Task) : Receiver :=
  { s with inboundKv := s.inboundKv.erase task.objectId }

/-- What the relay makes of a read: the relay or the transport is missing, `get_kv_pages` raises, or
the copy begins. -/
inductive ReadStart
  | noRelay
  | raises
  | copies
  deriving DecidableEq

/-- `receive_rank_kv` up to its first suspension. -/
def Receiver.taskStart (s : Receiver) (k : Nat) (task : Task) (start : ReadStart) (it : Iteration) :
    Receiver :=
  if task.requestId ∈ s.abortedKvRequests then s.setTask k { task with phase := .ended }
  else
    match start, s.inboundKv.get? task.objectId with
    | .noRelay, _ | _, none => s.readFailed k task it
    | .raises, some r =>
      (((s.modify r fun res => { res with copyStarted := true }).abort r).pop task).readFailed k task it
    | .copies, some r =>
      (s.modify r fun res => { res with copyStarted := true, copying := true }).setTask k
        { task with phase := .copying r }

/-- How the wait for the copy ends: normally, by an exception or a timeout, or by a cancellation. -/
inductive WaitEnd
  | finished (commitRaises : Bool)
  | raised
  | cancelled
  deriving DecidableEq

/-- `receive_rank_kv` after its wait for the copy. -/
def Receiver.taskResume (s : Receiver) (k : Nat) (task : Task) (r : Nat) (res : Reservation)
    (outcome : WaitEnd) (it : Iteration) : Receiver :=
  match outcome with
  | .finished commitRaises =>
    if res.abortError then ((s.abort r).pop task).readFailed k task it
    else if commitRaises then (((s.commit r true).abort r).pop task).readFailed k task it
    else ((s.commit r false).pop task).setTask k { task with phase := .ended }
  | .raised => ((s.abort r).pop task).readFailed k task it
  | .cancelled => ((s.abort r).pop task).setTask k { task with phase := .ended }

/-- The end of `close`: what is left is aborted. -/
def Receiver.finishClose (s : Receiver) : Receiver :=
  { s.inboundKv.entries.foldl (fun s entry => s.abort entry.2) s with
    inboundKv := ∅
    abortedKvRequests := ∅
    closing := .done }

/-- What can happen: a `Prepare` or a `DataReady` arrives, a receiving task starts, is cancelled before
it starts, or goes on after its wait; a copy ends; a request is cleaned up; the control loop ends with
an error; the engine begins to close, or ends it once its tasks are over. -/
inductive Action
  | prepare (requestId transferId : String) (outcome : Preparation)
  | dataReady (requestId objectId : String)
  | taskStart (k : Nat) (start : ReadStart) (it : Iteration)
  | cancelUnstarted (k : Nat)
  | copyEnds (r : Nat)
  | taskResume (k : Nat) (outcome : WaitEnd) (it : Iteration)
  | cleanup (requestId : String) (it : Iteration)
  | stopControl
  | beginClose
  | finishClose

/-- One step of the receiving side.  The wait of `read_kv_pages` ends only after the copy: an
interrupted wait keeps waiting for it. -/
def Receiver.step (s : Receiver) : Action → Option Receiver
  | .prepare requestId transferId outcome =>
    if s.controlRunning then some (s.prepare requestId transferId outcome) else none
  | .dataReady requestId objectId =>
    if s.controlRunning then
      some { s with
        tasks := s.tasks ++ [{ requestId := requestId, objectId := objectId }]
        announced := objectId :: s.announced }
    else none
  | .taskStart k start it =>
    match s.tasks[k]? with
    | some task => if task.phase = .created then some (s.taskStart k task start it) else none
    | none => none
  | .cancelUnstarted k =>
    match s.tasks[k]? with
    | some task =>
      if task.phase = .created then some (s.setTask k { task with phase := .ended }) else none
    | none => none
  | .copyEnds r => some (s.modify r fun res => { res with copying := false })
  | .taskResume k outcome it =>
    match s.tasks[k]? with
    | some task =>
      match task.phase with
      | .copying r =>
        match s.reservations[r]? with
        | some res => if res.copying then none else some (s.taskResume k task r res outcome it)
        | none => none
      | _ => none
    | none => none
  | .cleanup requestId it => some (s.cleanup it requestId)
  | .stopControl => some { s with controlRunning := false }
  | .beginClose =>
    if s.closing = .no then some { s with closing := .stopping, controlRunning := false } else none
  | .finishClose =>
    if s.closing = .stopping ∧ s.tasks.all (·.phase = .ended) then some s.finishClose else none

def receiver : Machine Receiver Action where
  init := {}
  step := Receiver.step

structure SettledOnce (s : Receiver) (res : Reservation) : Prop where
  once : res.settled ≤ 1
  closed : s.closing = .done → res.settled = 1
  commits : ∀ raised cleaned, .commit raised cleaned ∈ res.calls → cleaned = false
  aborts : ∀ copying, .abort copying ∈ res.calls → copying = false

/-- At most one `DataReady` arrives for a transfer, and no new request ID is recorded in a full set. -/
def roomToCleanup (s : Receiver) : Action → Prop
  | .dataReady _ objectId => objectId ∉ s.announced
  | .taskStart k _ _ | .taskResume k _ _ => ∀ task, s.tasks[k]? = some task →
    HasRoom s.abortedKvRequests task.requestId
  | .cleanup requestId _ => HasRoom s.abortedKvRequests requestId
  | .prepare .. | .cancelUnstarted _ | .copyEnds _ | .stopControl | .beginClose | .finishClose => True

def Settlement.proper : Settlement → Bool
  | .commit _ cleaned => !cleaned
  | .abort copying => !copying

/-- What holds in every state of a run that `roomToCleanup` admits.  While a cleanup goes through the
transfers, `late` are the reservations that it has still to reach. -/
structure Inv (late : Reservation → Prop) (s : Receiver) : Prop where
  entry : ∀ {id : String} {r : Nat}, s.inboundKv.get? id = some r → ∃ res,
    s.reservations[r]? = some res ∧ res.transferId = id ∧ res.settled = 0
  entered : ∀ {r : Nat} {res : Reservation}, s.reservations[r]? = some res → res.settled = 0 →
    s.inboundKv.get? res.transferId = some r
  once : ∀ {r : Nat} {res : Reservation}, s.reservations[r]? = some res → res.settled ≤ 1
  calls : ∀ {r : Nat} {res : Reservation}, s.reservations[r]? = some res →
    ∀ c ∈ res.calls, c.proper = true
  task : ∀ {k r : Nat} {task : Task}, s.tasks[k]? = some task → task.phase = .copying r → ∃ res,
    s.reservations[r]? = some res ∧ res.settled = 0 ∧ res.copyStarted = true ∧
      res.transferId = task.objectId
  started : ∀ {r : Nat} {res : Reservation}, s.reservations[r]? = some res → res.settled = 0 →
    res.copyStarted = true → ∃ (k : Nat) (task : Task),
      s.tasks[k]? = some task ∧ task.phase = .copying r
  copying : ∀ {r : Nat} {res : Reservation}, s.reservations[r]? = some res → res.copying = true →
    res.settled = 0 ∧ res.copyStarted = true
  late : ∀ {r : Nat} {res : Reservation}, s.reservations[r]? = some res → res.settled = 0 →
    res.requestId ∈ s.cleaned → res.copyStarted = true ∧ res.abortError = true ∨ late res
  remembered : s.closing ≠ .done → ∀ id ∈ s.cleaned, id ∈ s.abortedKvRequests
  card : s.abortedKvRequests.card ≤ 10000
  announced : ∀ {k : Nat} {task : Task}, s.tasks[k]? = some task → task.objectId ∈ s.announced
  distinct : ∀ {k l : Nat} {task task' : Task}, s.tasks[k]? = some task → s.tasks[l]? = some task' →
    task.objectId = task'.objectId → k = l
  stopped : s.closing ≠ .no → s.controlRunning = false
  closed : s.closing = .done → ∀ {r : Nat} {res : Reservation}, s.reservations[r]? = some res →
    res.settled = 1

theorem modify_eq {s : Receiver} {r : Nat} {res : Reservation} (h : s.reservations[r]? = some res)
    (f : Reservation → Reservation) :
    s.modify r f = { s with reservations := s.reservations.set r (f res) } := by
  rw [Receiver.modify, modify_eq_set h]

theorem Inv.not_done {late : Reservation → Prop} {s : Receiver} {r : Nat} {res : Reservation}
    (h : Inv late s) (hr : s.reservations[r]? = some res) (h0 : res.settled = 0) :
    s.closing ≠ .done := by
  intro hdone
  have := h.closed hdone hr
  omega

theorem Inv.transferId_ne {late : Reservation → Prop} {s : Receiver} {r r' : Nat}
    {res other : Reservation} (h : Inv late s) (hr : s.reservations[r]? = some res)
    (h0 : res.settled = 0) (hr' : s.reservations[r']? = some other) (h0' : other.settled = 0)
    (hne : r' ≠ r) : other.transferId ≠ res.transferId := by
  intro he
  have h1 := h.entered hr' h0'
  rw [he, h.entered hr h0] at h1
  exact hne (Option.some.inj h1).symm

theorem Inv.mono {late late' : Reservation → Prop} {s : Receiver} (h : Inv late s)
    (himp : ∀ {r : Nat} {res : Reservation}, s.reservations[r]? = some res → res.settled = 0 →
      late res → late' res) : Inv late' s :=
  { h with late := fun hr h0 hin => (h.late hr h0 hin).imp_right (himp hr h0) }

theorem Inv.change {late late' : Reservation → Prop} {s : Receiver} {r : Nat}
    {res res' : Reservation} (h : Inv late s) (hr : s.reservations[r]? = some res)
    (hid : res'.transferId = res.transferId) (hcalls : res'.calls = res.calls)
    (hstarted : res'.copyStarted = res.copyStarted)
    (hcopying : res'.copying = true → res.copying = true)
    (hlate : res.settled = 0 → res'.requestId ∈ s.cleaned →
      res'.copyStarted = true ∧ res'.abortError = true ∨ late' res')
    (hothers : ∀ {r' : Nat} {other : Reservation}, r' ≠ r → s.reservations[r']? = some other →
      other.settled = 0 → late other → late' other) :
    Inv late' { s with reservations := s.reservations.set r res' } := by
  have hset : res'.settled = res.settled := by
    rw [Reservation.settled, hcalls]
    rfl
  have hnew : ∀ {r' : Nat} {old : Reservation}, s.reservations[r']? = some old →
      ∃ new, (s.reservations.set r res')[r']? = some new ∧ new.transferId = old.transferId ∧
        new.settled = old.settled ∧ new.copyStarted = old.copyStarted := by
    intro r' old hold
    rw [getElem?_set_of_some hr]
    by_cases he : r = r'
    · subst he
      cases hr.symm.trans hold
      exact ⟨res', if_pos rfl, hid, hset, hstarted⟩
    · exact ⟨old, (if_neg he).trans hold, rfl, rfl, rfl⟩
  constructor
  · intro id r' hget
    obtain ⟨old, hold, hid, h0⟩ := h.entry hget
    obtain ⟨new, hnew, hid', hset', -⟩ := hnew hold
    exact ⟨new, hnew, hid'.trans hid, hset'.trans h0⟩
  · intro r' new hnew h0
    obtain ⟨rfl, rfl⟩ | ⟨-, hold⟩ := of_getElem?_set hr hnew
    · rw [hid]
      exact h.entered hr (hset ▸ h0)
    · exact h.entered hold h0
  · intro r' new hnew
    obtain ⟨rfl, rfl⟩ | ⟨-, hold⟩ := of_getElem?_set hr hnew
    · rw [hset]
      exact h.once hr
    · exact h.once hold
  · intro r' new hnew
    obtain ⟨rfl, rfl⟩ | ⟨-, hold⟩ := of_getElem?_set hr hnew
    · rw [hcalls]
      exact h.calls hr
    · exact h.calls hold
  · intro k r' task hk hp
    obtain ⟨old, hold, h0, hst, hobj⟩ := h.task hk hp
    obtain ⟨new, hnew, hid', hset', hst'⟩ := hnew hold
    exact ⟨new, hnew, hset'.trans h0, hst'.trans hst, hid'.trans hobj⟩
  · intro r' new hnew h0 hst
    obtain ⟨rfl, rfl⟩ | ⟨-, hold⟩ := of_getElem?_set hr hnew
    · exact h.started hr (hset ▸ h0) (hstarted ▸ hst)
    · exact h.started hold h0 hst
  · intro r' new hnew hc
    obtain ⟨rfl, rfl⟩ | ⟨-, hold⟩ := of_getElem?_set hr hnew
    · rw [hset, hstarted]
      exact h.copying hr (hcopying hc)
    · exact h.copying hold hc
  · intro r' new hnew h0 hin
    obtain ⟨rfl, rfl⟩ | ⟨hne, hold⟩ := of_getElem?_set hr hnew
    · exact hlate (hset ▸ h0) hin
    · exact (h.late hold h0 hin).imp_right (hothers hne hold h0)
  · exact h.remembered
  · exact h.card
  · exact h.announced
  · exact h.distinct
  · exact h.stopped
  · intro hdone r' new hnew
    obtain ⟨rfl, rfl⟩ | ⟨-, hold⟩ := of_getElem?_set hr hnew
    · rw [hset]
      exact h.closed hdone hr
    · exact h.closed hdone hold

/-- `tasks'` are the tasks after those of reservation `r` have ended. -/
structure Released (s : Receiver) (r : Nat) (tasks' : List Task) : Prop where
  old : ∀ {k : Nat} {task : Task}, tasks'[k]? = some task → ∃ task₀, s.tasks[k]? = some task₀ ∧
    task.objectId = task₀.objectId ∧
      ∀ r', task.phase = .copying r' → task₀.phase = .copying r' ∧ r' ≠ r
  kept : ∀ {k r' : Nat} {task₀ : Task}, s.tasks[k]? = some task₀ → task₀.phase = .copying r' →
    r' ≠ r → ∃ task, tasks'[k]? = some task ∧ task.phase = .copying r'

theorem Inv.settle {late late' : Reservation → Prop} {s : Receiver} {r : Nat}
    {res res' : Reservation} {tasks' : List Task} (h : Inv late s)
    (hr : s.reservations[r]? = some res) (h0 : res.settled = 0)
    (hsettled : res'.settled = 1) (hcalls : ∀ c ∈ res'.calls, c.proper = true)
    (hcopying : res'.copying = false) (htasks : Released s r tasks')
    (hothers : ∀ {r' : Nat} {other : Reservation}, r' ≠ r → s.reservations[r']? = some other →
      other.settled = 0 → late other → late' other) :
    Inv late' { s with
      reservations := s.reservations.set r res'
      inboundKv := s.inboundKv.erase res.transferId
      tasks := tasks' } := by
  have hget : ∀ {r' : Nat} {old : Reservation}, r' ≠ r → s.reservations[r']? = some old →
      (s.reservations.set r res')[r']? = some old :=
    fun hne hold => (getElem?_set_of_some hr _ _).trans ((if_neg (Ne.symm hne)).trans hold)
  constructor
  · intro id r' hid
    obtain ⟨hne, hid⟩ := Dict.get?_erase_some hid
    obtain ⟨old, hold, hoid, hold0⟩ := h.entry hid
    have hrne : r' ≠ r := by
      rintro rfl
      cases hr.symm.trans hold
      exact hne hoid.symm
    exact ⟨old, hget hrne hold, hoid, hold0⟩
  · intro r' new hnew hnew0
    obtain ⟨rfl, rfl⟩ | ⟨hne, hold⟩ := of_getElem?_set hr hnew
    · omega
    · exact (Dict.get?_erase _ _ _).trans
        ((if_neg (h.transferId_ne hr h0 hold hnew0 hne)).trans (h.entered hold hnew0))
  · intro r' new hnew
    obtain ⟨rfl, rfl⟩ | ⟨-, hold⟩ := of_getElem?_set hr hnew
    · omega
    · exact h.once hold
  · intro r' new hnew
    obtain ⟨rfl, rfl⟩ | ⟨-, hold⟩ := of_getElem?_set hr hnew
    · exact hcalls
    · exact h.calls hold
  · intro k r' task hk hp
    obtain ⟨task₀, hk₀, hobj, hphase⟩ := htasks.old hk
    obtain ⟨hp₀, hne⟩ := hphase r' hp
    obtain ⟨old, hold, hold0, hst, hoid⟩ := h.task hk₀ hp₀
    exact ⟨old, hget hne hold, hold0, hst, hoid.trans hobj.symm⟩
  · intro r' new hnew hnew0 hst
    obtain ⟨rfl, rfl⟩ | ⟨hne, hold⟩ := of_getElem?_set hr hnew
    · omega
    · obtain ⟨k, task₀, hk₀, hp₀⟩ := h.started hold hnew0 hst
      obtain ⟨task, hk, hp⟩ := htasks.kept hk₀ hp₀ hne
      exact ⟨k, task, hk, hp⟩
  · intro r' new hnew hc
    obtain ⟨rfl, rfl⟩ | ⟨-, hold⟩ := of_getElem?_set hr hnew
    · rw [hcopying] at hc
      cases hc
    · exact h.copying hold hc
  · intro r' new hnew hnew0 hin
    obtain ⟨rfl, rfl⟩ | ⟨hne, hold⟩ := of_getElem?_set hr hnew
    · omega
    · exact (h.late hold hnew0 hin).imp_right (hothers hne hold hnew0)
  · exact h.remembered
  · exact h.card
  · intro k task hk
    obtain ⟨task₀, hk₀, hobj, -⟩ := htasks.old hk
    rw [hobj]
    exact h.announced hk₀
  · intro k l task task' hk hl he
    obtain ⟨task₀, hk₀, hobj, -⟩ := htasks.old hk
    obtain ⟨task₁, hl₁, hobj', -⟩ := htasks.old hl
    exact h.distinct hk₀ hl₁ (hobj.symm.trans (he.trans hobj'))
  · exact h.stopped
  · intro hdone
    exact absurd hdone (h.not_done hr h0)

theorem Inv.released_self {late : Reservation → Prop} {s : Receiver} {r : Nat} {res : Reservation}
    (h : Inv late s) (hr : s.reservations[r]? = some res) (hst : res.copyStarted = false) :
    Released s r s.tasks where
  old := by
    intro k task hk
    refine ⟨task, hk, rfl, fun r' hp => ⟨hp, ?_⟩⟩
    rintro rfl
    obtain ⟨res', hr', -, hst', -⟩ := h.task hk hp
    cases hr.symm.trans hr'
    rw [hst] at hst'
    cases hst'
  kept := fun hk hp _ => ⟨_, hk, hp⟩

theorem settled_append (res : Reservation) (c : Settlement) :
    ({ res with calls := res.calls ++ [c] } : Reservation).settled =
      res.settled + if c.settles then 1 else 0 := by
  simp only [Reservation.settled, List.countP_append, List.countP_singleton]

theorem proper_append {calls : List Settlement} {c : Settlement}
    (h : ∀ d ∈ calls, d.proper = true) (hc : c.proper = true) :
    ∀ d ∈ calls ++ [c], d.proper = true := by
  intro d hd
  obtain hd | hd := List.mem_append.mp hd
  · exact h d hd
  · rw [List.mem_singleton.mp hd]
    exact hc

theorem Inv.proper_abort {late : Reservation → Prop} {s : Receiver} {r : Nat} {res : Reservation}
    (h : Inv late s) (hr : s.reservations[r]? = some res) (hc : res.copying = false) :
    ∀ c ∈ res.calls ++ [.abort res.copying], c.proper = true := by
  refine proper_append (h.calls hr) ?_
  rw [hc]
  rfl

theorem Inv.cleanupLoop {requestId : String} (entries : List (String × Nat)) : ∀ {s : Receiver},
    Inv (fun res => res.requestId = requestId ∧ res.transferId ∈ entries.map Prod.fst) s →
    (∀ e ∈ entries, s.inboundKv.get? e.1 = some e.2) → (entries.map Prod.fst).Nodup →
    Inv (fun _ => False) (entries.foldl (Receiver.cleanupTransfer requestId) s) := by
  induction entries with
  | nil =>
    intro s h _ _
    exact h.mono fun _ _ hlate => absurd hlate.2 List.not_mem_nil
  | cons e rest ih =>
    intro s h hall hnodup
    obtain ⟨hnot, hnodup⟩ := List.nodup_cons.mp hnodup
    obtain ⟨res, hr, hid, h0⟩ := h.entry (hall e List.mem_cons_self)
    have hrest : ∀ e' ∈ rest, s.inboundKv.get? e'.1 = some e'.2 :=
      fun e' he' => hall e' (List.mem_cons_of_mem _ he')
    -- The reservations that are left are those of the other transfers.
    have hothers : ∀ {r' : Nat} {other : Reservation}, r' ≠ e.2 →
        s.reservations[r']? = some other → other.settled = 0 →
        other.requestId = requestId ∧ other.transferId ∈ (e :: rest).map Prod.fst →
        other.requestId = requestId ∧ other.transferId ∈ rest.map Prod.fst := by
      rintro r' other hne hr' h0' ⟨hreq, hmem⟩
      refine ⟨hreq, (List.mem_cons.mp hmem).resolve_left fun he => ?_⟩
      exact h.transferId_ne hr h0 hr' h0' hne (he.trans hid.symm)
    rw [List.foldl_cons]
    unfold Receiver.cleanupTransfer
    rw [hr]
    dsimp only
    split
    · next hreq =>
      refine ih (h.mono fun {r' other} hr' h0' hlate => ?_) hrest hnodup
      by_cases hne : r' = e.2
      · subst hne
        cases hr.symm.trans hr'
        exact absurd hlate.1 hreq
      · exact hothers hne hr' h0' hlate
    · split
      · next hst =>
        rw [modify_eq hr]
        refine ih ?_ hrest hnodup
        exact h.change hr rfl rfl rfl id (fun _ _ => .inl ⟨hst, rfl⟩) hothers
      · next hst =>
        have hst : res.copyStarted = false := by simpa using hst
        have hcopy : res.copying = false := by
          by_contra hc
          rw [(h.copying hr (by simpa using hc)).2] at hst
          cases hst
        rw [Receiver.abort, modify_eq hr]
        refine ih ?_ ?_ hnodup
        · rw [← hid]
          exact h.settle hr h0 (by rw [settled_append, h0]; rfl) (h.proper_abort hr hcopy) hcopy
            (h.released_self hr hst) hothers
        · intro e' he'
          refine (Dict.get?_erase _ _ _).trans ((if_neg fun he => ?_).trans (hrest e' he'))
          exact hnot (he ▸ List.mem_map_of_mem he')

theorem Inv.cleanup {s : Receiver} (h : Inv (fun _ => False) s) {requestId : String}
    (hroom : HasRoom s.abortedKvRequests requestId) (it : Iteration) :
    Inv (fun _ => False) (s.cleanup it requestId) := by
  have hrecord : recordBoundedRequestId it s.abortedKvRequests requestId =
      insert requestId s.abortedKvRequests := recordBoundedRequestId_of_room h.card hroom
  refine Inv.cleanupLoop s.inboundKv.entries ?_ ?_ s.inboundKv.nodup
  · rw [hrecord]
    refine { h with late := ?_, remembered := ?_, card := card_insert_of_room h.card hroom }
    · intro r res hr h0 hin
      obtain rfl | hin := List.mem_cons.mp hin
      · refine .inr ⟨rfl, ?_⟩
        exact (Dict.mem_keys_iff _ _).mpr ⟨r, h.entered hr h0⟩
      · exact (h.late hr h0 hin).imp_right False.elim
    · intro hdone id hid
      obtain rfl | hid := List.mem_cons.mp hid
      · exact Finset.mem_insert_self _ _
      · exact Finset.mem_insert_of_mem (h.remembered hdone id hid)
  · intro e he
    exact (Dict.mem_entries_iff _ _ _).mp he

/-! ### Receiving tasks -/

theorem cleanup_setTask (s : Receiver) (it : Iteration) (requestId : String) (k : Nat) (task : Task) :
    (s.cleanup it requestId).setTask k task = (s.setTask k task).cleanup it requestId := by
  have hstep : ∀ (s : Receiver) (e : String × Nat),
      (Receiver.cleanupTransfer requestId s e).setTask k task =
        Receiver.cleanupTransfer requestId (s.setTask k task) e := by
    intro s e
    unfold Receiver.cleanupTransfer
    show _ = match s.reservations[e.2]? with
      | none => _
      | some res => _
    split
    · rfl
    · split
      · rfl
      · split <;> rfl
  have hloop : ∀ (entries : List (String × Nat)) (s : Receiver),
      (entries.foldl (Receiver.cleanupTransfer requestId) s).setTask k task =
        entries.foldl (Receiver.cleanupTransfer requestId) (s.setTask k task) := by
    intro entries
    induction entries with
    | nil => exact fun _ => rfl
    | cons e rest ih =>
      intro s
      rw [List.foldl_cons, ih, hstep, List.foldl_cons]
  exact hloop s.inboundKv.entries _

theorem Inv.released_end {late : Reservation → Prop} {s : Receiver} {k r : Nat} {task : Task}
    {res : Reservation} (h : Inv late s) (hk : s.tasks[k]? = some task)
    (hr : s.reservations[r]? = some res) (h0 : res.settled = 0)
    (hobj : task.objectId = res.transferId) :
    Released s r (s.tasks.set k { task with phase := .ended }) where
  old := by
    intro l task' hl
    obtain ⟨rfl, rfl⟩ | ⟨hne, hl⟩ := of_getElem?_set hk hl
    · exact ⟨task, hk, rfl, fun r' hp => by cases hp⟩
    · refine ⟨task', hl, rfl, fun r' hp => ⟨hp, ?_⟩⟩
      rintro rfl
      obtain ⟨res', hr', -, -, hid⟩ := h.task hl hp
      cases hr.symm.trans hr'
      exact hne (h.distinct hl hk (hid.symm.trans hobj.symm))
  kept := by
    intro l r' task' hl hp hne
    refine ⟨task', ?_, hp⟩
    refine (getElem?_set_of_some hk _ _).trans ((if_neg ?_).trans hl)
    rintro rfl
    cases hk.symm.trans hl
    obtain ⟨res', hr', h0', -, hid⟩ := h.task hk hp
    exact h.transferId_ne hr h0 hr' h0' hne (hid.trans hobj)

theorem Inv.endTask {s : Receiver} {k r : Nat} {task : Task} {res : Reservation}
    (h : Inv (fun _ => False) s) (hk : s.tasks[k]? = some task)
    (hr : s.reservations[r]? = some res) (h0 : res.settled = 0)
    (hobj : task.objectId = res.transferId) {f : Reservation → Reservation}
    (hsettled : (f res).settled = 1) (hcalls : ∀ c ∈ (f res).calls, c.proper = true)
    (hcopying : (f res).copying = false) :
    Inv (fun _ => False) (((s.modify r f).pop task).setTask k { task with phase := .ended }) := by
  have hsettle : Inv (fun _ => False)
      { s with
        reservations := s.reservations.set r (f res)
        inboundKv := s.inboundKv.erase res.transferId
        tasks := s.tasks.set k { task with phase := .ended } } :=
    h.settle hr h0 hsettled hcalls hcopying (h.released_end hk hr h0 hobj)
      (fun _ _ _ hlate => hlate)
  rw [← hobj] at hsettle
  rw [modify_eq hr]
  exact hsettle

theorem Inv.failTask {s : Receiver} {k r : Nat} {task : Task} {res : Reservation}
    (h : Inv (fun _ => False) s) (hroom : HasRoom s.abortedKvRequests task.requestId)
    (hk : s.tasks[k]? = some task) (hr : s.reservations[r]? = some res) (h0 : res.settled = 0)
    (hobj : task.objectId = res.transferId) {f : Reservation → Reservation}
    (hsettled : (f res).settled = 1) (hcalls : ∀ c ∈ (f res).calls, c.proper = true)
    (hcopying : (f res).copying = false) (it : Iteration) :
    Inv (fun _ => False) (((s.modify r f).pop task).readFailed k task it) := by
  rw [Receiver.readFailed, cleanup_setTask]
  exact (h.endTask hk hr h0 hobj hsettled hcalls hcopying).cleanup hroom it

theorem objectId_set {tasks : List Task} {k l : Nat} {task task' new : Task}
    (hk : tasks[k]? = some task) (hl : (tasks.set k new)[l]? = some task')
    (hobj : new.objectId = task.objectId) :
    ∃ task₀, tasks[l]? = some task₀ ∧ task'.objectId = task₀.objectId := by
  obtain ⟨rfl, rfl⟩ | ⟨-, hl⟩ := of_getElem?_set hk hl
  · exact ⟨task, hk, hobj⟩
  · exact ⟨task', hl, rfl⟩

theorem Inv.endUnstarted {s : Receiver} {k : Nat} {task : Task} (h : Inv (fun _ => False) s)
    (hk : s.tasks[k]? = some task) (hp : task.phase = .created) :
    Inv (fun _ => False) (s.setTask k { task with phase := .ended }) := by
  refine { h with task := ?_, started := ?_, announced := ?_, distinct := ?_ }
  · intro l r task' hl hp'
    obtain ⟨rfl, rfl⟩ | ⟨-, hl⟩ := of_getElem?_set hk hl
    · cases hp'
    · exact h.task hl hp'
  · intro r res hr h0 hst
    obtain ⟨l, task', hl, hp'⟩ := h.started hr h0 hst
    refine ⟨l, task', (getElem?_set_of_some hk _ _).trans ((if_neg ?_).trans hl), hp'⟩
    rintro rfl
    cases hk.symm.trans hl
    rw [hp] at hp'
    cases hp'
  · intro l task' hl
    obtain ⟨task₀, hl, hobj'⟩ := objectId_set hk hl rfl
    exact hobj' ▸ h.announced hl
  · intro l m task' task'' hl hm he
    obtain ⟨task₀, hl, hobj₀⟩ := objectId_set hk hl rfl
    obtain ⟨task₁, hm, hobj₁⟩ := objectId_set hk hm rfl
    exact h.distinct hl hm (hobj₀.symm.trans (he.trans hobj₁))

theorem Inv.not_started {s : Receiver} {k r : Nat} {task : Task} {res : Reservation}
    (h : Inv (fun _ => False) s) (hk : s.tasks[k]? = some task) (hp : task.phase = .created)
    (hr : s.reservations[r]? = some res) (h0 : res.settled = 0)
    (hobj : task.objectId = res.transferId) : res.copyStarted = false := by
  by_contra hst
  obtain ⟨l, task', hl, hp'⟩ := h.started hr h0 (by simpa using hst)
  obtain ⟨res', hr', -, -, hid⟩ := h.task hl hp'
  cases hr.symm.trans hr'
  cases h.distinct hk hl (hobj.trans hid)
  cases hk.symm.trans hl
  rw [hp] at hp'
  cases hp'

theorem Inv.startCopy {s : Receiver} {k r : Nat} {task : Task} {res : Reservation}
    (h : Inv (fun _ => False) s) (hk : s.tasks[k]? = some task) (hp : task.phase = .created)
    (hr : s.reservations[r]? = some res) (h0 : res.settled = 0)
    (hobj : task.objectId = res.transferId) :
    Inv (fun _ => False)
      ((s.modify r fun res => { res with copyStarted := true, copying := true }).setTask k
        { task with phase := .copying r }) := by
  have hst := h.not_started hk hp hr h0 hobj
  rw [modify_eq hr, Receiver.setTask]
  have hget : ∀ {r' : Nat} {old : Reservation}, s.reservations[r']? = some old →
      ∃ new, (s.reservations.set r { res with copyStarted := true, copying := true })[r']? =
        some new ∧ new.transferId = old.transferId ∧ new.settled = old.settled ∧
        (old.copyStarted = true → new.copyStarted = true) := by
    intro r' old hold
    rw [getElem?_set_of_some hr]
    by_cases he : r = r'
    · subst he
      cases hr.symm.trans hold
      exact ⟨_, if_pos rfl, rfl, rfl, fun _ => rfl⟩
    · exact ⟨old, (if_neg he).trans hold, rfl, rfl, id⟩
  constructor
  · intro id r' hid
    obtain ⟨old, hold, hoid, hold0⟩ := h.entry hid
    obtain ⟨new, hnew, hid', hset', -⟩ := hget hold
    exact ⟨new, hnew, hid'.trans hoid, hset'.trans hold0⟩
  · intro r' new hnew hnew0
    have hent := h.entered hr h0
    obtain ⟨rfl, rfl⟩ | ⟨-, hold⟩ := of_getElem?_set hr hnew
    · exact hent
    · exact h.entered hold hnew0
  · intro r' new hnew
    have honce := h.once hr
    obtain ⟨rfl, rfl⟩ | ⟨-, hold⟩ := of_getElem?_set hr hnew
    · exact honce
    · exact h.once hold
  · intro r' new hnew
    have hcalls := h.calls hr
    obtain ⟨rfl, rfl⟩ | ⟨-, hold⟩ := of_getElem?_set hr hnew
    · exact hcalls
    · exact h.calls hold
  · intro l r' task' hl hp'
    obtain ⟨rfl, rfl⟩ | ⟨-, hl⟩ := of_getElem?_set hk hl
    · cases hp'
      exact ⟨_, (getElem?_set_of_some hr _ _).trans (if_pos rfl), h0, rfl, hobj.symm⟩
    · obtain ⟨old, hold, hold0, hst', hoid⟩ := h.task hl hp'
      obtain ⟨new, hnew, hid', hset', hstarted⟩ := hget hold
      exact ⟨new, hnew, hset'.trans hold0, hstarted hst', hid'.trans hoid⟩
  · intro r' new hnew hnew0 hst'
    obtain ⟨rfl, rfl⟩ | ⟨-, hold⟩ := of_getElem?_set hr hnew
    · exact ⟨k, _, (getElem?_set_of_some hk _ _).trans (if_pos rfl), rfl⟩
    · obtain ⟨l, task', hl, hp'⟩ := h.started hold hnew0 hst'
      refine ⟨l, task', (getElem?_set_of_some hk _ _).trans ((if_neg ?_).trans hl), hp'⟩
      rintro rfl
      cases hk.symm.trans hl
      rw [hp] at hp'
      cases hp'
  · intro r' new hnew hc
    obtain ⟨rfl, rfl⟩ | ⟨-, hold⟩ := of_getElem?_set hr hnew
    · exact ⟨h0, rfl⟩
    · exact h.copying hold hc
  · intro r' new hnew hnew0 hin
    have hlate := h.late hr h0
    obtain ⟨rfl, rfl⟩ | ⟨-, hold⟩ := of_getElem?_set hr hnew
    · obtain ⟨hst', -⟩ := (hlate hin).resolve_right id
      rw [hst] at hst'
      cases hst'
    · exact h.late hold hnew0 hin
  · exact h.remembered
  · exact h.card
  · intro l task' hl
    obtain ⟨task₀, hl, hobj'⟩ := objectId_set hk hl rfl
    exact hobj' ▸ h.announced hl
  · intro l m task' task'' hl hm he
    obtain ⟨task₀, hl, hobj₀⟩ := objectId_set hk hl rfl
    obtain ⟨task₁, hm, hobj₁⟩ := objectId_set hk hm rfl
    exact h.distinct hl hm (hobj₀.symm.trans (he.trans hobj₁))
  · exact h.stopped
  · intro hdone
    exact absurd hdone (h.not_done hr h0)

theorem modify_modify (s : Receiver) (r : Nat) (f g : Reservation → Reservation) :
    (s.modify r f).modify r g = s.modify r (g ∘ f) := by
  simp only [Receiver.modify, List.modify_modify_eq]

theorem Inv.taskStart {s : Receiver} {k : Nat} {task : Task} (h : Inv (fun _ => False) s)
    (hroom : HasRoom s.abortedKvRequests task.requestId) (hk : s.tasks[k]? = some task)
    (hp : task.phase = .created) (start : ReadStart) (it : Iteration) :
    Inv (fun _ => False) (s.taskStart k task start it) := by
  have hfail : Inv (fun _ => False) (s.readFailed k task it) := by
    rw [Receiver.readFailed, cleanup_setTask]
    exact (h.endUnstarted hk hp).cleanup hroom it
  unfold Receiver.taskStart
  split
  · exact h.endUnstarted hk hp
  split
  · exact hfail
  · exact hfail
  · next r hget =>
    obtain ⟨res, hr, hid, h0⟩ := h.entry hget
    have hst := h.not_started hk hp hr h0 hid.symm
    have hcopy : res.copying = false := by
      by_contra hc
      rw [(h.copying hr (by simpa using hc)).2] at hst
      cases hst
    rw [Receiver.abort, modify_modify]
    refine h.failTask hroom hk hr h0 hid.symm ?_ (h.proper_abort hr hcopy) hcopy it
    exact (settled_append res (.abort res.copying)).trans (by rw [h0]; rfl)
  · next r hget =>
    obtain ⟨res, hr, hid, h0⟩ := h.entry hget
    exact h.startCopy hk hp hr h0 hid.symm

theorem Inv.taskResume {s : Receiver} {k r : Nat} {task : Task} {res : Reservation}
    (h : Inv (fun _ => False) s) (hroom : HasRoom s.abortedKvRequests task.requestId)
    (hk : s.tasks[k]? = some task) (hp : task.phase = .copying r)
    (hr : s.reservations[r]? = some res) (hcopy : res.copying = false) (outcome : WaitEnd)
    (it : Iteration) : Inv (fun _ => False) (s.taskResume k task r res outcome it) := by
  obtain ⟨res', hr', h0, -, hid⟩ := h.task hk hp
  cases hr.symm.trans hr'
  have habort : ({ res with calls := res.calls ++ [.abort res.copying] } : Reservation).settled = 1 :=
    (settled_append res (.abort res.copying)).trans (by rw [h0]; rfl)
  have hproper := h.proper_abort hr hcopy
  have hcommit : res.abortError = false → ∀ raised,
      Settlement.proper (.commit raised (res.requestId ∈ s.cleaned)) = true := by
    intro hnone raised
    have hnot : res.requestId ∉ s.cleaned := by
      intro hin
      obtain ⟨-, herr⟩ := (h.late hr h0 hin).resolve_right id
      rw [hnone] at herr
      cases herr
    simp [Settlement.proper, hnot]
  unfold Receiver.taskResume
  split
  · next commitRaises =>
    split
    · exact h.failTask hroom hk hr h0 hid.symm habort hproper hcopy it
    · next hnone =>
      have hnone : res.abortError = false := by simpa using hnone
      split
      · rw [Receiver.abort, Receiver.commit, modify_modify]
        refine h.failTask hroom hk hr h0 hid.symm ?_ ?_ hcopy it
        · refine (settled_append
            { res with calls := res.calls ++ [.commit true (res.requestId ∈ s.cleaned)] }
            (.abort res.copying)).trans ?_
          rw [settled_append, h0]
          rfl
        · refine proper_append (proper_append (h.calls hr) (hcommit hnone true)) ?_
          rw [hcopy]
          rfl
      · refine h.endTask hk hr h0 hid.symm ?_ (proper_append (h.calls hr) (hcommit hnone false)) hcopy
        exact (settled_append res _).trans (by rw [h0]; rfl)
  · exact h.failTask hroom hk hr h0 hid.symm habort hproper hcopy it
  · exact h.endTask hk hr h0 hid.symm habort hproper hcopy

/-! ### Other steps -/

theorem Inv.reserve {s : Receiver} {inboundKv : Dict String Nat} {res : Reservation}
    (h : Inv (fun _ => False) s) (hopen : s.closing ≠ .done)
    (hget : ∀ id r, inboundKv.get? id = some r → s.inboundKv.get? id = some r ∨
      (r = s.reservations.length ∧ id = res.transferId ∧ res.settled = 0))
    (hkeep : ∀ id r, s.inboundKv.get? id = some r → inboundKv.get? id = some r)
    (hnew : res.settled = 0 → inboundKv.get? res.transferId = some s.reservations.length)
    (honce : res.settled ≤ 1) (hcalls : ∀ c ∈ res.calls, c.proper = true)
    (hst : res.copyStarted = false) (hcopy : res.copying = false)
    (hfresh : res.requestId ∉ s.abortedKvRequests) :
    Inv (fun _ => False)
      { s with reservations := s.reservations ++ [res], inboundKv := inboundKv } := by
  have hself : (s.reservations ++ [res])[s.reservations.length]? = some res := by simp
  refine { h with
    entry := ?_, entered := ?_, once := ?_, calls := ?_, task := ?_, started := ?_, copying := ?_,
    late := ?_, closed := fun hdone => absurd hdone hopen }
  · intro id r hid
    obtain hid | ⟨rfl, rfl, h0⟩ := hget id r hid
    · obtain ⟨old, hold, hoid, hold0⟩ := h.entry hid
      exact ⟨old, getElem?_concat_of_some hold _, hoid, hold0⟩
    · exact ⟨res, hself, rfl, h0⟩
  · intro r new hr h0
    obtain hold | ⟨rfl, rfl⟩ := of_getElem?_concat hr
    · exact hkeep _ _ (h.entered hold h0)
    · exact hnew h0
  · intro r new hr
    obtain hold | ⟨rfl, rfl⟩ := of_getElem?_concat hr
    · exact h.once hold
    · exact honce
  · intro r new hr
    obtain hold | ⟨rfl, rfl⟩ := of_getElem?_concat hr
    · exact h.calls hold
    · exact hcalls
  · intro k r task hk hp
    obtain ⟨old, hold, hrest⟩ := h.task hk hp
    exact ⟨old, getElem?_concat_of_some hold _, hrest⟩
  · intro r new hr h0 hst'
    obtain hold | ⟨rfl, rfl⟩ := of_getElem?_concat hr
    · exact h.started hold h0 hst'
    · rw [hst] at hst'
      cases hst'
  · intro r new hr hc
    obtain hold | ⟨rfl, rfl⟩ := of_getElem?_concat hr
    · exact h.copying hold hc
    · rw [hcopy] at hc
      cases hc
  · intro r new hr h0 hin
    obtain hold | ⟨rfl, rfl⟩ := of_getElem?_concat hr
    · exact h.late hold h0 hin
    · exact absurd (h.remembered hopen _ hin) hfresh

theorem Inv.prepare {s : Receiver} (h : Inv (fun _ => False) s) (hrun : s.controlRunning = true)
    (requestId transferId : String) (outcome : Preparation) :
    Inv (fun _ => False) (s.prepare requestId transferId outcome) := by
  have hopen : s.closing ≠ .done := by
    intro hdone
    have hstop := h.stopped (by rw [hdone]; decide)
    rw [hrun] at hstop
    cases hstop
  unfold Receiver.prepare
  split
  · exact h
  next hfresh =>
  split
  · exact { h with stopped := fun _ => rfl }
  next hdup =>
  have hnone : s.inboundKv.get? transferId = none := by simpa using hdup
  cases outcome with
  | refused => exact h
  | invalid =>
    refine h.reserve hopen (fun id r hid => .inl hid) (fun id r hid => hid) ?_ ?_ ?_ rfl rfl hfresh
    · intro h0
      cases h0
    · exact Nat.le_refl _
    · intro c hc
      rw [List.mem_singleton.mp hc]
      rfl
  | ready =>
    refine h.reserve hopen ?_ ?_ ?_ (Nat.zero_le _) (fun c hc => by cases hc) rfl rfl hfresh
    · intro id r hid
      rw [Dict.get?_set] at hid
      split at hid
      · next he =>
        cases hid
        exact .inr ⟨rfl, he, rfl⟩
      · exact .inl hid
    · intro id r hid
      have hne : id ≠ transferId := by
        rintro rfl
        rw [hnone] at hid
        cases hid
      exact (Dict.get?_set _ _ _ _).trans ((if_neg hne).trans hid)
    · exact fun _ => Dict.get?_set_self _ _ _

theorem Inv.dataReady {s : Receiver} (h : Inv (fun _ => False) s) {requestId objectId : String}
    (hnew : objectId ∉ s.announced) :
    Inv (fun _ => False) { s with
      tasks := s.tasks ++ [{ requestId := requestId, objectId := objectId }]
      announced := objectId :: s.announced } := by
  have hfresh : ∀ {k : Nat} {task : Task}, s.tasks[k]? = some task → task.objectId ≠ objectId :=
    fun hk he => hnew (he ▸ h.announced hk)
  refine { h with task := ?_, started := ?_, announced := ?_, distinct := ?_ }
  · intro k r task hk hp
    obtain hk | ⟨rfl, rfl⟩ := of_getElem?_concat hk
    · exact h.task hk hp
    · cases hp
  · intro r res hr h0 hst
    obtain ⟨k, task, hk, hp⟩ := h.started hr h0 hst
    exact ⟨k, task, getElem?_concat_of_some hk _, hp⟩
  · intro k task hk
    obtain hk | ⟨rfl, rfl⟩ := of_getElem?_concat hk
    · exact List.mem_cons_of_mem _ (h.announced hk)
    · exact List.mem_cons_self
  · intro k l task task' hk hl he
    obtain hk | ⟨rfl, rfl⟩ := of_getElem?_concat hk <;>
      obtain hl | ⟨rfl, rfl⟩ := of_getElem?_concat hl
    · exact h.distinct hk hl he
    · exact absurd he (hfresh hk)
    · exact absurd he.symm (hfresh hl)
    · rfl

theorem abortLoop_eq (entries : List (String × Nat)) (s : Receiver) :
    entries.foldl (fun s entry => s.abort entry.2) s =
      { s with
        reservations := (entries.foldl (fun s entry => s.abort entry.2) s).reservations } := by
  induction entries generalizing s with
  | nil => rfl
  | cons e rest ih =>
    rw [List.foldl_cons, ih]
    rfl

theorem abortLoop_get (entries : List (String × Nat)) (hnodup : (entries.map Prod.snd).Nodup)
    (s : Receiver) (r : Nat) :
    (entries.foldl (fun s entry => s.abort entry.2) s).reservations[r]? =
      s.reservations[r]?.map fun res =>
        if r ∈ entries.map Prod.snd then { res with calls := res.calls ++ [.abort res.copying] }
        else res := by
  induction entries generalizing s with
  | nil => simp
  | cons e rest ih =>
    obtain ⟨hnot, hnodup⟩ := List.nodup_cons.mp hnodup
    rw [List.foldl_cons, ih hnodup, Receiver.abort, Receiver.modify, List.getElem?_modify]
    cases s.reservations[r]? with
    | none => rfl
    | some res =>
      by_cases he : e.2 = r
      · subst he
        simp [hnot]
      · have hiff : r ∈ (e :: rest).map Prod.snd ↔ r ∈ rest.map Prod.snd := by
          rw [List.map_cons, List.mem_cons, or_iff_right (Ne.symm he)]
        simp only [Option.map_eq_map, Option.map_some, he, if_false]
        by_cases hin : r ∈ rest.map Prod.snd
        · rw [if_pos hin, if_pos (hiff.mpr hin)]
        · rw [if_neg hin, if_neg (fun hr => hin (hiff.mp hr))]

theorem Inv.finishClose {s : Receiver} (h : Inv (fun _ => False) s) (hclosing : s.closing = .stopping)
    (htasks : ∀ task ∈ s.tasks, task.phase = .ended) : Inv (fun _ => False) s.finishClose := by
  have hidle : ∀ {r : Nat} {res : Reservation}, s.reservations[r]? = some res → res.settled = 0 →
      res.copyStarted = false := by
    intro r res hr h0
    by_contra hst
    obtain ⟨k, task, hk, hp⟩ := h.started hr h0 (by simpa using hst)
    rw [htasks task (List.mem_of_getElem? hk)] at hp
    cases hp
  have hstill : ∀ {r : Nat} {res : Reservation}, s.reservations[r]? = some res →
      res.copying = false := by
    intro r res hr
    by_contra hc
    obtain ⟨h0, hst⟩ := h.copying hr (by simpa using hc)
    rw [hidle hr h0] at hst
    cases hst
  have hnodup : (s.inboundKv.entries.map Prod.snd).Nodup := by
    refine List.Nodup.map_on ?_ (List.Nodup.of_map _ s.inboundKv.nodup)
    rintro ⟨id, r⟩ he ⟨id', r'⟩ he' (rfl : r = r')
    obtain ⟨res, hr, hid, -⟩ := h.entry ((Dict.mem_entries_iff _ _ _).mp he)
    obtain ⟨res', hr', hid', -⟩ := h.entry ((Dict.mem_entries_iff _ _ _).mp he')
    cases hr.symm.trans hr'
    rw [← hid, ← hid']
  have hmem : ∀ {r : Nat} {res : Reservation}, s.reservations[r]? = some res →
      (r ∈ s.inboundKv.entries.map Prod.snd ↔ res.settled = 0) := by
    intro r res hr
    constructor
    · intro hin
      obtain ⟨⟨id, r'⟩, he, rfl⟩ := List.mem_map.mp hin
      obtain ⟨res', hr', -, h0⟩ := h.entry ((Dict.mem_entries_iff _ _ _).mp he)
      cases hr.symm.trans hr'
      exact h0
    · intro h0
      exact List.mem_map.mpr ⟨(res.transferId, r), (Dict.mem_entries_iff _ _ _).mpr (h.entered hr h0), rfl⟩
  -- Every reservation is settled now: those that were not have one abort more.
  have hall : ∀ {r : Nat} {res : Reservation}, s.finishClose.reservations[r]? = some res →
      res.settled = 1 ∧ (∀ c ∈ res.calls, c.proper = true) ∧ res.copying = false := by
    intro r res hr
    have hget := abortLoop_get s.inboundKv.entries hnodup s r
    have hr : (s.inboundKv.entries.foldl (fun s entry => s.abort entry.2) s).reservations[r]? =
      some res := hr
    rw [hget] at hr
    obtain ⟨old, hold, rfl⟩ := Option.map_eq_some_iff.mp hr
    have honce := h.once hold
    by_cases h0 : old.settled = 0
    · rw [if_pos ((hmem hold).mpr h0)]
      have hcopy := hstill hold
      refine ⟨?_, h.proper_abort hold hcopy, hcopy⟩
      exact (settled_append old _).trans (by rw [h0]; rfl)
    · rw [if_neg (fun hin => h0 ((hmem hold).mp hin))]
      exact ⟨by omega, h.calls hold, hstill hold⟩
  have hunsettled : ∀ {r : Nat} {res : Reservation}, s.finishClose.reservations[r]? = some res →
      res.settled ≠ 0 := by
    intro r res hr h0
    rw [(hall hr).1] at h0
    cases h0
  have htasks' : s.finishClose.tasks = s.tasks := by
    rw [Receiver.finishClose, abortLoop_eq]
  have hannounced : s.finishClose.announced = s.announced := by
    rw [Receiver.finishClose, abortLoop_eq]
  have hcontrol : s.finishClose.controlRunning = s.controlRunning := by
    rw [Receiver.finishClose, abortLoop_eq]
  constructor
  · intro id r hid
    cases hid
  · exact fun hr h0 => absurd h0 (hunsettled hr)
  · exact fun hr => Nat.le_of_eq (hall hr).1
  · exact fun hr => (hall hr).2.1
  · intro k r task hk hp
    rw [htasks'] at hk
    rw [htasks task (List.mem_of_getElem? hk)] at hp
    cases hp
  · exact fun hr h0 => absurd h0 (hunsettled hr)
  · intro r res hr hc
    rw [(hall hr).2.2] at hc
    cases hc
  · exact fun hr h0 => absurd h0 (hunsettled hr)
  · exact fun hdone => absurd rfl hdone
  · exact Nat.zero_le _
  · rw [htasks', hannounced]
    exact h.announced
  · rw [htasks']
    exact h.distinct
  · rw [hcontrol]
    exact fun _ => h.stopped (by rw [hclosing]; decide)
  · exact fun _ {r res} hr => (hall hr).1

theorem Inv.step {s s' : Receiver} {a : Action} (h : Inv (fun _ => False) s)
    (ha : roomToCleanup s a) (hs : s.step a = some s') : Inv (fun _ => False) s' := by
  cases a with
  | prepare requestId transferId outcome =>
    simp only [Receiver.step] at hs
    split at hs
    · next hrun =>
      cases hs
      exact h.prepare hrun requestId transferId outcome
    · cases hs
  | dataReady requestId objectId =>
    simp only [Receiver.step] at hs
    split at hs
    · cases hs
      exact h.dataReady ha
    · cases hs
  | taskStart k start it =>
    simp only [Receiver.step] at hs
    split at hs
    · next task hk =>
      split at hs
      · next hp =>
        cases hs
        exact h.taskStart (ha task hk) hk hp start it
      · cases hs
    · cases hs
  | cancelUnstarted k =>
    simp only [Receiver.step] at hs
    split at hs
    · next task hk =>
      split at hs
      · next hp =>
        cases hs
        exact h.endUnstarted hk hp
      · cases hs
    · cases hs
  | copyEnds r =>
    cases hs
    cases hr : s.reservations[r]? with
    | none =>
      have hsame : s.modify r (fun res => { res with copying := false }) = s := by
        have hlen := List.getElem?_eq_none_iff.mp hr
        rw [Receiver.modify, List.modify_eq_self hlen]
      rw [hsame]
      exact h
    | some res =>
      have hlate := h.late hr
      rw [modify_eq hr]
      exact h.change hr rfl rfl rfl (fun hf => by cases hf) hlate (fun _ _ _ hl => hl)
  | taskResume k outcome it =>
    simp only [Receiver.step] at hs
    split at hs
    · next task hk =>
      split at hs
      · next r hp =>
        split at hs
        · next res hr =>
          split at hs
          · cases hs
          · next hcopy =>
            cases hs
            exact h.taskResume (ha task hk) hk hp hr (by simpa using hcopy) outcome it
        · cases hs
      · cases hs
    · cases hs
  | cleanup requestId it =>
    cases hs
    exact h.cleanup ha it
  | stopControl =>
    cases hs
    exact { h with stopped := fun _ => rfl }
  | beginClose =>
    simp only [Receiver.step] at hs
    split at hs
    · next hno =>
      cases hs
      refine { h with
        remembered := fun _ => h.remembered (by rw [hno]; decide)
        stopped := fun _ => rfl
        closed := fun hdone => by cases hdone }
    · cases hs
  | finishClose =>
    simp only [Receiver.step] at hs
    split at hs
    · next hcond =>
      cases hs
      exact h.finishClose hcond.1 (by simpa using hcond.2)
    · cases hs

/-- In every state of every run that `roomToCleanup` admits, a reserved destination is settled at most
once, and exactly once when the engine is closed; no commit comes after the cleanup of its request and
no abort during the copy. -/
theorem reservation_settled_once {s : Receiver} (h : receiver.Reaches roomToCleanup s) {r : Nat}
    {res : Reservation} (hr : s.reservations[r]? = some res) : SettledOnce s res := by
  have hinv : Inv (fun _ => False) s := by
    refine h.invariant ?_ (fun _ _ _ hs ha hstep => Inv.step hs ha hstep)
    constructor <;> intros <;> simp_all [receiver]
  refine ⟨hinv.once hr, fun hdone => hinv.closed hdone hr, ?_, ?_⟩
  · intro raised cleaned hmem
    simpa [Settlement.proper] using hinv.calls hr _ hmem
  · intro copying hmem
    simpa [Settlement.proper] using hinv.calls hr _ hmem

def hasRoomToCleanup (s : Receiver) : Action → Bool
  | .dataReady _ objectId => objectId ∉ s.announced
  | .taskStart _ _ _ | .taskResume _ _ _ | .cleanup _ _ => s.abortedKvRequests.card < 10000
  | .prepare .. | .cancelUnstarted _ | .copyEnds _ | .stopControl | .beginClose | .finishClose => true

theorem roomToCleanup_of_test {s : Receiver} {a : Action} (h : hasRoomToCleanup s a = true) :
    roomToCleanup s a := by
  cases a with
  | dataReady requestId objectId => simpa [hasRoomToCleanup, roomToCleanup] using h
  | taskStart | taskResume => exact fun _ _ => .inr (by simpa [hasRoomToCleanup] using h)
  | cleanup => exact .inr (by simpa [hasRoomToCleanup] using h)
  | prepare | cancelUnstarted | copyEnds | stopControl | beginClose | finishClose => trivial

/-- Three reservations: one is committed, one is cleaned up during its copy, and one is left to the
close of the engine. -/
def threeReservations : List Action :=
  [.prepare "r" "t0" .ready, .prepare "q" "t1" .ready, .prepare "p" "t2" .ready,
    .dataReady "r" "t0", .dataReady "q" "t1", .taskStart 0 .copies (.from ""),
    .taskStart 1 .copies (.from ""), .cleanup "q" (.from ""), .copyEnds 0,
    .taskResume 0 (.finished false) (.from ""), .beginClose, .copyEnds 1,
    .taskResume 1 .cancelled (.from ""), .finishClose]

theorem reservation_settled_once_three_reservations :
    ∃ s res₀ res₁ res₂, s.reservations[0]? = some res₀ ∧ s.reservations[1]? = some res₁ ∧
      s.reservations[2]? = some res₂ ∧ res₀.calls = [.commit false false] ∧
      res₁.calls = [.abort false] ∧ res₂.calls = [.abort false] ∧ s.closing = .done ∧
      SettledOnce s res₀ ∧ SettledOnce s res₁ ∧ SettledOnce s res₂ := by
  obtain ⟨s, hs⟩ : ∃ s, receiver.execWhere hasRoomToCleanup receiver.init threeReservations = some s :=
    Option.isSome_iff_exists.mp (by decide +kernel)
  have hobs : ∀ {r : Nat} {calls : List Settlement},
      ((receiver.execWhere hasRoomToCleanup receiver.init threeReservations).bind
        (·.reservations[r]?)).map (·.calls) = some calls →
      ∃ res, s.reservations[r]? = some res ∧ res.calls = calls := by
    intro r calls hcalls
    rw [hs] at hcalls
    exact Option.map_eq_some_iff.mp hcalls
  have hclosing : (receiver.execWhere hasRoomToCleanup receiver.init threeReservations).map
      (·.closing) = some .done := by decide +kernel
  rw [hs] at hclosing
  obtain ⟨res₀, hr₀, hc₀⟩ := @hobs 0 [.commit false false] (by decide +kernel)
  obtain ⟨res₁, hr₁, hc₁⟩ := @hobs 1 [.abort false] (by decide +kernel)
  obtain ⟨res₂, hr₂, hc₂⟩ := @hobs 2 [.abort false] (by decide +kernel)
  have hreach : receiver.Reaches roomToCleanup s :=
    Machine.path_of_execWhere (fun _ _ => roomToCleanup_of_test) hs
  exact ⟨s, res₀, res₁, res₂, hr₀, hr₁, hr₂, hc₀, hc₁, hc₂, by simpa using hclosing,
    reservation_settled_once hreach hr₀, reservation_settled_once hreach hr₁,
    reservation_settled_once hreach hr₂⟩

/-- At most one `DataReady` arrives for a transfer. -/
def oneDataReady (s : Receiver) : Action → Prop
  | .dataReady _ objectId => objectId ∉ s.announced
  | _ => True

theorem reaches_cleaned (n : Nat) (hn : n ≤ 10000) :
    ∃ cleaned, receiver.Reaches oneDataReady
      ({ abortedKvRequests := fillers n, cleaned := cleaned } : Receiver) := by
  induction n with
  | zero => exact ⟨[], Machine.Path.refl _⟩
  | succ n ih =>
    obtain ⟨cleaned, hs⟩ := ih (by omega)
    have hrecord := record_fillers (show n < 10000 by omega) (.from (fillerId n))
    refine ⟨fillerId n :: cleaned, hs.tail (a := .cleanup (fillerId n) (.from (fillerId n))) trivial ?_⟩
    rw [← hrecord]
    rfl

theorem commits_forgotten {aborted : Finset String} (hnot : "late" ∉ aborted) (cleaned : List String) :
    ∃ s res, receiver.Path oneDataReady
        { abortedKvRequests := aborted, cleaned := "late" :: cleaned } s ∧
      s.reservations[0]? = some res ∧ res.requestId = "late" ∧
      .commit false true ∈ res.calls := by
  let s₀ : Receiver := { abortedKvRequests := aborted, cleaned := "late" :: cleaned }
  let s₁ : Receiver :=
    { s₀ with
      reservations := [{ requestId := "late", transferId := "t" }]
      inboundKv := Dict.set ∅ "t" 0 }
  let s₂ : Receiver :=
    { s₁ with tasks := [{ requestId := "late", objectId := "t" }], announced := ["t"] }
  let s₃ : Receiver :=
    { s₂ with
      reservations :=
        [{ requestId := "late", transferId := "t", copyStarted := true, copying := true }]
      tasks := [{ requestId := "late", objectId := "t", phase := .copying 0 }] }
  let s₄ : Receiver :=
    { s₃ with
      reservations := [{ requestId := "late", transferId := "t", copyStarted := true }] }
  have h₁ : receiver.step s₀ (.prepare "late" "t" .ready) = some s₁ := by
    simp [receiver, Receiver.step, Receiver.prepare, s₀, s₁, hnot]
  have h₃ : receiver.step s₂ (.taskStart 0 .copies (.from "")) = some s₃ := by
    simp [receiver, Receiver.step, Receiver.taskStart, Receiver.modify, Receiver.setTask, s₀, s₁, s₂,
      s₃, hnot]
  have h₂ : receiver.step s₁ (.dataReady "late" "t") = some s₂ := rfl
  have h₄ : receiver.step s₃ (.copyEnds 0) = some s₄ := rfl
  have h₅ : receiver.step s₄ (.taskResume 0 (.finished false) (.from "")) =
      some (s₄.taskResume 0 { requestId := "late", objectId := "t", phase := .copying 0 } 0
        { requestId := "late", transferId := "t", copyStarted := true } (.finished false)
        (.from "")) := rfl
  have hpath₂ : receiver.Path oneDataReady s₀ s₂ :=
    ((Machine.Path.refl s₀).tail (by trivial) h₁).tail (by exact List.not_mem_nil) h₂
  have hpath₄ : receiver.Path oneDataReady s₀ s₄ :=
    (hpath₂.tail (by trivial) h₃).tail (by trivial) h₄
  refine ⟨_, _, hpath₄.tail (by trivial) h₅, rfl, rfl, ?_⟩
  simp [s₀, s₁, s₂, s₃, s₄]

/-- After ten thousand cleanups, the cleanup of one more request may not be remembered; the transfer of
its pages that begins after it is committed. -/
theorem commit_after_cleanup :
    ∃ s res, receiver.Reaches oneDataReady s ∧ s.reservations[0]? = some res ∧
      .commit false true ∈ res.calls := by
  obtain ⟨cleaned, hs⟩ := reaches_cleaned 10000 le_rfl
  have hclean : receiver.Reaches oneDataReady
      { abortedKvRequests := recordBoundedRequestId (.from "late") (fillers 10000) "late",
        cleaned := "late" :: cleaned } :=
    hs.tail (a := .cleanup "late" (.from "late")) trivial rfl
  obtain ⟨s, res, hpath, hr, -, hcommit⟩ := commits_forgotten late_notMem_record_fillers cleaned
  exact ⟨s, res, hclean.trans hpath, hr, hcommit⟩

end Comm.Inbound
