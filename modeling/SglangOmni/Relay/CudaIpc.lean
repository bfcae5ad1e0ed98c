import SglangOmni.Lib.Machine
import SglangOmni.Relay.Slots

/-! The sending side of the CUDA-IPC relay: a put takes a range of slots and its operation returns the
range once the receiver has acknowledged it.  `slots_returned_once` says that a range is returned at
most once, only after an acknowledgement, and is handed to no other put before, in every run in which
no call of `wait_for_completion` wakes on an operation that another call has completed;
`overlapping_waits_free_other_put` is a run in which one does and frees the slots of another put. -/

namespace Relay

open Lib

/-- The two ways in which the sender learns what became of a transfer. -/
inductive Mark
  | done
  | failed
  deriving DecidableEq

/-- The state of the future `receiver_done`. -/
inductive Future
  | pending
  | result
  | exception
  | cancelled
  deriving DecidableEq

/-- Why a call of `wait_for_completion` stops waiting before its future is done. -/
inductive Interruption
  | timeout
  | cancellation
  deriving DecidableEq

/-- A call of `wait_for_completion` that got past the test of `completed`. -/
inductive Call
  | waiting
  | interrupted (why : Interruption)
  | ended
  deriving DecidableEq

/-- How the wait inside `wait_for_completion` ends. -/
inductive Outcome
  | acknowledged
  | raised
  | timedOut
  | cancelled
  deriving DecidableEq

/-- `CudaIpcPutOperation`.  `firstMark` is the first mark to reach it, and `returns` counts how often
its range was returned to the allocator. -/
structure PutOperation where
  receiverDone : Future := .pending
  completed : Bool := false
  hasTracedCancellation : Bool := false
  calls : List Call := []
  firstMark : Option Mark := none
  returns : Nat := 0

/-- How far a put has come: it has its slots, gave them back because it failed, ended without giving
them back, or returned an operation that owns them. -/
inductive Phase
  | acquired
  | givenBack
  | lost
  | operation (op : PutOperation)

structure Put where
  offset : Nat
  numSlots : Nat
  phase : Phase := .acquired

/-- The sending side of `CudaIpcRelay`: the puts in the order in which they got their slots. -/
structure CudaIpc where
  allocator : Allocator
  puts : List Put := []
  failed : Bool := false
  strandedSlotsTotal : Nat := 0

/-- The phase of put `i` is replaced. -/
def CudaIpc.setPhase (s : CudaIpc) (i : Nat) (phase : Phase) : CudaIpc :=
  { s with puts := s.puts.modify i (fun put => { put with phase := phase }) }

/-- `mark_receiver_done` and `mark_receiver_failed`. -/
def PutOperation.mark (op : PutOperation) (mark : Mark) : PutOperation :=
  { op with
    receiverDone :=
      if op.receiverDone = .pending then
        match mark with
        | .done => .result
        | .failed => .exception
      else op.receiverDone
    firstMark := op.firstMark.or (some mark) }

/-- The start of `wait_for_completion`. -/
def PutOperation.beginWait (op : PutOperation) : PutOperation :=
  if op.completed then op else { op with calls := op.calls ++ [.waiting] }

/-- A call times out or is cancelled while it waits.  It cancels the future unless that is done. -/
def PutOperation.interrupt (op : PutOperation) (call : Nat) (why : Interruption) : PutOperation :=
  { op with
    receiverDone := if op.receiverDone = .pending then .cancelled else op.receiverDone
    calls := op.calls.set call (.interrupted why) }

def Future.outcome : Future → Option Outcome
  | .pending => none
  | .result => some .acknowledged
  | .exception => some .raised
  | .cancelled => some .cancelled

def Interruption.outcome : Interruption → Outcome
  | .timeout => .timedOut
  | .cancellation => .cancelled

/-- How a suspended call ends when it runs again.  An interruption that meets a future already done
counts or not, depending on the version of `asyncio.wait_for`: `byFuture` says that it does not. -/
def Call.outcome (future : Future) (byFuture : Bool) : Call → Option Outcome
  | .waiting => future.outcome
  | .interrupted why => if byFuture then future.outcome else some why.outcome
  | .ended => none

def CudaIpc.recordStrandedSlots (s : CudaIpc) (numSlots : Nat) (markRelayFailed : Bool) : CudaIpc :=
  { s with
    strandedSlotsTotal := s.strandedSlotsTotal + numSlots
    failed := s.failed || markRelayFailed }

def CudaIpc.recordSenderCancellation (s : CudaIpc) (i numSlots : Nat) (op : PutOperation) : CudaIpc :=
  if op.completed || op.hasTracedCancellation then s.setPhase i (.operation op)
  else
    (s.recordStrandedSlots numSlots false).setPhase i
      (.operation { op with hasTracedCancellation := true })

/-- The rest of `wait_for_completion` after its wait. -/
def CudaIpc.finishWait (s : CudaIpc) (i : Nat) (put : Put) (op : PutOperation) : Outcome → CudaIpc
  | .acknowledged =>
    let op := { op with completed := true }
    match s.allocator.release put.offset put.numSlots with
    | .ok allocator =>
      { s with allocator := allocator }.setPhase i (.operation { op with returns := op.returns + 1 })
    | .error _ => s.setPhase i (.operation op)
  | .raised | .timedOut =>
    (s.recordStrandedSlots put.numSlots true).setPhase i (.operation { op with completed := true })
  | .cancelled => s.recordSenderCancellation i put.numSlots op

def CudaIpc.operation? (s : CudaIpc) (i : Nat) : Option (Put × PutOperation) :=
  match s.puts[i]? with
  | some put =>
    match put.phase with
    | .operation op => some (put, op)
    | _ => none
  | none => none

/-- What can happen: a put takes slots, fails and gives them back, is cancelled, or returns its
operation; an operation is marked; a call of `wait_for_completion` begins, is interrupted, or runs
again; the watcher of a transfer records its own cancellation. -/
inductive PutAction
  | acquire (numSlots : Nat)
  | giveBack (i : Nat)
  | lose (i : Nat)
  | createOperation (i : Nat)
  | mark (i : Nat) (mark : Mark)
  | wait (i : Nat)
  | interrupt (i call : Nat) (why : Interruption)
  | resume (i call : Nat) (byFuture : Bool)
  | recordSenderCancellation (i : Nat)

def CudaIpc.leaveAcquired (s : CudaIpc) (i : Nat) (next : Put → CudaIpc) : Option CudaIpc :=
  match s.puts[i]? with
  | some put =>
    match put.phase with
    | .acquired => some (next put)
    | _ => none
  | none => none

def CudaIpc.step (s : CudaIpc) : PutAction → Option CudaIpc
  | .acquire numSlots =>
    match s.allocator.acquire numSlots with
    | .ok (some (offset, allocator)) =>
      some { s with
        allocator := allocator
        puts := s.puts ++ [{ offset := offset, numSlots := numSlots }] }
    | _ => none
  | .giveBack i => s.leaveAcquired i fun put =>
    match s.allocator.release put.offset put.numSlots with
    | .ok allocator => { s with allocator := allocator }.setPhase i .givenBack
    | .error _ => s.setPhase i .lost
  | .lose i => s.leaveAcquired i fun _ => s.setPhase i .lost
  | .createOperation i => s.leaveAcquired i fun _ => s.setPhase i (.operation {})
  | .mark i mark => (s.operation? i).map fun (_, op) => s.setPhase i (.operation (op.mark mark))
  | .wait i => (s.operation? i).map fun (_, op) => s.setPhase i (.operation op.beginWait)
  | .interrupt i call why => (s.operation? i).bind fun (_, op) =>
    if op.calls[call]? = some .waiting then
      some (s.setPhase i (.operation (op.interrupt call why)))
    else none
  | .resume i call byFuture => (s.operation? i).bind fun (put, op) =>
    (op.calls[call]?.bind (·.outcome op.receiverDone byFuture)).map
      (s.finishWait i put { op with calls := op.calls.set call .ended })
  | .recordSenderCancellation i => (s.operation? i).map fun (put, op) =>
    s.recordSenderCancellation i put.numSlots op

/-- The relay over a pool of `slotCount` slots of `slotSize` bytes. -/
def puts (slotCount slotSize : Nat) (hcount : 0 < slotCount) (hsize : 0 < slotSize) :
    Machine CudaIpc PutAction where
  init := { allocator := Allocator.create slotCount slotSize hcount hsize }
  step := CudaIpc.step

def Put.Holds (put : Put) : Prop :=
  match put.phase with
  | .acquired | .lost => True
  | .givenBack => False
  | .operation op => op.returns = 0

def Put.Apart (slotSize : Nat) (put put' : Put) : Prop :=
  ∀ j, InRange slotSize put.offset put.numSlots j → ¬ InRange slotSize put'.offset put'.numSlots j

/-- What the relay promises of the operation of put `i`. -/
structure SlotsKept (s : CudaIpc) (i : Nat) (put : Put) (op : PutOperation) : Prop where
  once : op.returns ≤ 1
  acknowledged : op.returns ≠ 0 → op.firstMark = some .done
  taken : op.returns = 0 →
    ∀ j, InRange s.allocator.slotSize put.offset put.numSlots j → s.allocator.free[j]? = some false
  apart : op.returns = 0 → ∀ (k : Nat) (put' : Put), i < k → s.puts[k]? = some put' →
    put.Apart s.allocator.slotSize put'

/-- No call wakes to an acknowledgement of an operation that another call has completed. -/
def firstToComplete (s : CudaIpc) : PutAction → Prop
  | .resume i call byFuture => ∀ put op, s.operation? i = some (put, op) →
    op.calls[call]?.bind (·.outcome op.receiverDone byFuture) = some .acknowledged →
    op.completed = false
  | _ => True

/-- What holds of an operation in every run that `firstToComplete` admits. -/
structure OperationOk (op : PutOperation) : Prop where
  once : op.returns ≤ 1
  acknowledged : op.returns ≠ 0 → op.firstMark = some .done
  fresh : op.completed = false → op.returns = 0
  result : op.receiverDone = .result → op.firstMark = some .done
  pending : op.receiverDone = .pending → op.firstMark = none

structure RangeOk (allocator : Allocator) (put : Put) : Prop where
  pos : 0 < put.numSlots
  aligned : put.offset % allocator.slotSize = 0
  inside : put.offset / allocator.slotSize + put.numSlots ≤ allocator.slotCount

/-- The invariant of the runs that `firstToComplete` admits. -/
structure Inv (s : CudaIpc) : Prop where
  range : ∀ {i : Nat} {put : Put}, s.puts[i]? = some put → RangeOk s.allocator put
  taken : ∀ {i : Nat} {put : Put}, s.puts[i]? = some put → put.Holds →
    ∀ j, InRange s.allocator.slotSize put.offset put.numSlots j → s.allocator.free[j]? = some false
  apart : ∀ {i k : Nat} {put put' : Put}, i < k → s.puts[i]? = some put → s.puts[k]? = some put' → put.Holds →
    put.Apart s.allocator.slotSize put'
  operation : ∀ {i : Nat} {put : Put} {op : PutOperation}, s.puts[i]? = some put → put.phase = .operation op → OperationOk op

theorem OperationOk.initial : OperationOk {} where
  once := by decide
  acknowledged h := absurd rfl h
  fresh _ := rfl
  result h := by cases h
  pending _ := rfl

theorem OperationOk.mark {op : PutOperation} (h : OperationOk op) (mark : Mark) :
    OperationOk (op.mark mark) where
  once := h.once
  acknowledged hret := by
    simp only [PutOperation.mark, h.acknowledged hret]
    rfl
  fresh := h.fresh
  result hres := by
    simp only [PutOperation.mark] at hres ⊢
    split at hres
    · next hp =>
      cases mark with
      | done => rw [h.pending hp]; rfl
      | failed => cases hres
    · rw [h.result hres]
      rfl
  pending hpend := by
    simp only [PutOperation.mark] at hpend
    split at hpend
    · cases mark <;> cases hpend
    · next hp => exact absurd hpend hp

theorem OperationOk.beginWait {op : PutOperation} (h : OperationOk op) :
    OperationOk op.beginWait := by
  unfold PutOperation.beginWait
  split
  · exact h
  · exact { h with }

theorem OperationOk.interrupt {op : PutOperation} (h : OperationOk op) (call : Nat)
    (why : Interruption) : OperationOk (op.interrupt call why) where
  once := h.once
  acknowledged := h.acknowledged
  fresh := h.fresh
  result hres := by
    simp only [PutOperation.interrupt] at hres
    split at hres
    · cases hres
    · exact h.result hres
  pending hpend := by
    simp only [PutOperation.interrupt] at hpend
    split at hpend
    · cases hpend
    · exact h.pending hpend

theorem OperationOk.complete {op : PutOperation} (h : OperationOk op) :
    OperationOk { op with completed := true } where
  once := h.once
  acknowledged := h.acknowledged
  fresh hc := by cases hc
  result := h.result
  pending := h.pending

theorem getElem?_setPhase (s : CudaIpc) (i k : Nat) (phase : Phase) :
    (s.setPhase i phase).puts[k]? =
      if i = k then s.puts[k]?.map (fun put => { put with phase := phase }) else s.puts[k]? := by
  simp only [CudaIpc.setPhase, List.getElem?_modify]
  split <;> simp

theorem of_getElem?_setPhase {s : CudaIpc} {i k : Nat} {phase : Phase} {put : Put}
    (h : (s.setPhase i phase).puts[k]? = some put) :
    (k ≠ i ∧ s.puts[k]? = some put) ∨
      ∃ old, s.puts[k]? = some old ∧ k = i ∧ put = { old with phase := phase } := by
  rw [getElem?_setPhase] at h
  split at h
  · next hk =>
    obtain ⟨old, hold, rfl⟩ := Option.map_eq_some_iff.mp h
    exact .inr ⟨old, hold, hk.symm, rfl⟩
  · next hk => exact .inl ⟨fun e => hk e.symm, h⟩

/-- The allocator after a return of the range of put `i` serves as before to the others. -/
structure Served (s : CudaIpc) (i : Nat) (phase : Phase) (allocator : Allocator) : Prop where
  slotSize : allocator.slotSize = s.allocator.slotSize
  slotCount : allocator.slotCount = s.allocator.slotCount
  taken : ∀ {k : Nat} {put : Put}, ({ s with allocator := allocator }.setPhase i phase).puts[k]? = some put →
    put.Holds →
    ∀ j, InRange s.allocator.slotSize put.offset put.numSlots j → allocator.free[j]? = some false

theorem Inv.setPhase {s : CudaIpc} {i : Nat} {put : Put} {phase : Phase} {allocator : Allocator}
    (h : Inv s) (hput : s.puts[i]? = some put) (hserved : Served s i phase allocator)
    (hholds : { put with phase := phase }.Holds → put.Holds)
    (hop : ∀ op, phase = .operation op → OperationOk op) :
    Inv ({ s with allocator := allocator }.setPhase i phase) := by
  have hold : ∀ {k : Nat} {put' : Put}, ({ s with allocator := allocator }.setPhase i phase).puts[k]? = some put' →
      ∃ old, s.puts[k]? = some old ∧ put'.offset = old.offset ∧ put'.numSlots = old.numSlots ∧
        (put'.Holds → old.Holds) ∧ (∀ op, put'.phase = .operation op → OperationOk op) := by
    intro k put' hk
    obtain ⟨_, hk'⟩ | ⟨old, hk', rfl, rfl⟩ := of_getElem?_setPhase hk
    · exact ⟨put', hk', rfl, rfl, id, fun op => h.operation hk'⟩
    · cases hput.symm.trans hk'
      exact ⟨put, hput, rfl, rfl, hholds, hop⟩
  constructor
  · intro k put' hk
    obtain ⟨old, hold, hoff, hnum, -, -⟩ := hold hk
    have hr := h.range hold
    exact ⟨hnum ▸ hr.pos, by rw [hoff]; exact hserved.slotSize ▸ hr.aligned,
      by rw [hoff, hnum]; exact hserved.slotSize ▸ hserved.slotCount ▸ hr.inside⟩
  · intro k put' hk hh j hj
    exact hserved.taken hk hh j (hserved.slotSize ▸ hj)
  · intro a b put₁ put₂ hab h₁ h₂ hh
    obtain ⟨old₁, hold₁, hoff₁, hnum₁, hh₁, -⟩ := hold h₁
    obtain ⟨old₂, hold₂, hoff₂, hnum₂, -, -⟩ := hold h₂
    have := h.apart hab hold₁ hold₂ (hh₁ hh)
    simp only [Put.Apart, hoff₁, hnum₁, hoff₂, hnum₂]
    exact hserved.slotSize ▸ this
  · intro k put' op hk hph
    obtain ⟨-, -, -, -, -, hop'⟩ := hold hk
    exact hop' op hph

theorem Inv.keep {s : CudaIpc} {i : Nat} {put : Put} {phase : Phase} (h : Inv s)
    (hput : s.puts[i]? = some put) (hholds : { put with phase := phase }.Holds → put.Holds)
    (hop : ∀ op, phase = .operation op → OperationOk op) : Inv (s.setPhase i phase) := by
  refine h.setPhase hput ⟨rfl, rfl, fun {k put'} hk hh j hj => ?_⟩ hholds hop
  obtain ⟨_, hk'⟩ | ⟨old, hk', rfl, rfl⟩ := of_getElem?_setPhase hk
  · exact h.taken hk' hh j hj
  · cases hput.symm.trans hk'
    exact h.taken hput (hholds hh) j hj

theorem Inv.giveBack {s : CudaIpc} {i : Nat} {put : Put} (h : Inv s) (phase : Phase)
    (hput : s.puts[i]? = some put) (hh : put.Holds) (hnot : ¬ { put with phase := phase }.Holds)
    (hop : ∀ op, phase = .operation op → OperationOk op) :
    ∃ allocator, s.allocator.release put.offset put.numSlots = .ok allocator ∧
      Inv ({ s with allocator := allocator }.setPhase i phase) := by
  have hr := h.range hput
  obtain ⟨allocator, hrel, hsize, hcount, hfree⟩ :=
    release_spec hr.pos hr.aligned hr.inside (h.taken hput hh)
  refine ⟨allocator, hrel, h.setPhase hput ⟨hsize, hcount, fun {k put'} hk hh' j hj => ?_⟩
    (fun h => absurd h hnot) hop⟩
  obtain ⟨hne, hk'⟩ | ⟨old, hk', rfl, rfl⟩ := of_getElem?_setPhase hk
  · have hout : ¬ InRange s.allocator.slotSize put.offset put.numSlots j := by
      intro hin
      rcases Nat.lt_or_gt_of_ne hne with hlt | hgt
      · exact h.apart hlt hk' hput hh' j hj hin
      · exact h.apart hgt hput hk' hh j hin hj
    rw [hfree, if_neg hout]
    exact h.taken hk' hh' j hj
  · cases hput.symm.trans hk'
    exact absurd hh' hnot

theorem Inv.acquire {s : CudaIpc} {numSlots offset : Nat} {allocator : Allocator} (h : Inv s)
    (hacq : s.allocator.acquire numSlots = .ok (some (offset, allocator))) :
    Inv { s with
      allocator := allocator
      puts := s.puts ++ [{ offset := offset, numSlots := numSlots }] } := by
  obtain ⟨hpos, haligned, hinside, hwas, hsize, hcount, hfree⟩ := acquire_spec hacq
  have hget : ∀ {k : Nat} {put' : Put}, (s.puts ++ [{ offset := offset, numSlots := numSlots }])[k]? = some put' →
      s.puts[k]? = some put' ∨ k = s.puts.length ∧ put' = { offset := offset, numSlots := numSlots } := by
    intro k put' hk
    rw [List.getElem?_append] at hk
    split at hk
    · exact .inl hk
    · have hlen := (List.getElem?_eq_some_iff.mp hk).1
      simp only [List.length_singleton] at hlen
      have hk0 : k - s.puts.length = 0 := by omega
      rw [hk0] at hk
      cases hk
      exact .inr ⟨by omega, rfl⟩
  constructor
  · intro k put' hk
    obtain hk | ⟨-, rfl⟩ := hget hk
    · have hr := h.range hk
      exact ⟨hr.pos, hsize ▸ hr.aligned, hsize ▸ hcount ▸ hr.inside⟩
    · exact ⟨hpos, hsize ▸ haligned, hsize ▸ hcount ▸ hinside⟩
  · intro k put' hk hh j hj
    rw [hsize] at hj
    rw [hfree]
    obtain hk | ⟨-, rfl⟩ := hget hk
    · split
      · rfl
      · exact h.taken hk hh j hj
    · exact if_pos hj
  · intro a b put₁ put₂ hab h₁ h₂ hh
    rw [hsize]
    obtain h₁ | ⟨rfl, -⟩ := hget h₁
    · obtain h₂ | ⟨-, rfl⟩ := hget h₂
      · exact h.apart hab h₁ h₂ hh
      · intro j hj hj'
        have := (h.taken h₁ hh j hj).symm.trans (hwas j hj')
        cases this
    · have := (List.getElem?_eq_some_iff.mp h₂).1
      simp only [List.length_append, List.length_singleton] at this
      omega
  · intro k put' op hk hph
    obtain hk | ⟨-, rfl⟩ := hget hk
    · exact h.operation hk hph
    · cases hph

theorem Inv.recordStrandedSlots {s : CudaIpc} (h : Inv s) (numSlots : Nat) (failed : Bool) :
    Inv (s.recordStrandedSlots numSlots failed) :=
  ⟨h.range, h.taken, h.apart, h.operation⟩

theorem operation?_eq_some {s : CudaIpc} {i : Nat} {put : Put} {op : PutOperation}
    (h : s.operation? i = some (put, op)) :
    s.puts[i]? = some put ∧ put.phase = .operation op := by
  unfold CudaIpc.operation? at h
  split at h
  · split at h
    · next hput _ _ hph =>
      cases h
      exact ⟨hput, hph⟩
    · cases h
  · cases h

theorem Inv.setOperation {s : CudaIpc} {i : Nat} {put : Put} {op op' : PutOperation} (h : Inv s)
    (hput : s.puts[i]? = some put) (hph : put.phase = .operation op) (hop : OperationOk op')
    (hret : op'.returns = op.returns) : Inv (s.setPhase i (.operation op')) := by
  refine h.keep hput (fun hh => ?_) (fun _ he => by cases he; exact hop)
  simp only [Put.Holds, hph] at hh ⊢
  exact hret ▸ hh

theorem Inv.recordSenderCancellation {s : CudaIpc} {i numSlots : Nat} {put : Put}
    {op op' : PutOperation} (h : Inv s) (hput : s.puts[i]? = some put)
    (hph : put.phase = .operation op) (hop : OperationOk op') (hret : op'.returns = op.returns) :
    Inv (s.recordSenderCancellation i numSlots op') := by
  unfold CudaIpc.recordSenderCancellation
  split
  · exact h.setOperation hput hph hop hret
  · exact (h.recordStrandedSlots numSlots false).setOperation hput hph { hop with } hret

theorem Inv.finishWait {s : CudaIpc} {i call : Nat} {put : Put} {op : PutOperation}
    {outcome : Outcome} (h : Inv s) (hput : s.puts[i]? = some put)
    (hph : put.phase = .operation op)
    (hack : outcome = .acknowledged → op.completed = false ∧ op.firstMark = some .done) :
    Inv (s.finishWait i put { op with calls := op.calls.set call .ended } outcome) := by
  have hop : OperationOk { op with calls := op.calls.set call .ended } :=
    { h.operation hput hph with }
  cases outcome with
  | raised | timedOut =>
    exact (h.recordStrandedSlots put.numSlots true).setOperation hput hph hop.complete rfl
  | cancelled => exact h.recordSenderCancellation hput hph hop rfl
  | acknowledged =>
    obtain ⟨hc, hmark⟩ := hack rfl
    have hzero : op.returns = 0 := hop.fresh hc
    have hh : put.Holds := by
      simp only [Put.Holds, hph]
      exact hzero
    have hret : OperationOk
        { op with
          calls := op.calls.set call .ended
          completed := true
          returns := op.returns + 1 } :=
      { hop.complete with
        once := by simp [hzero]
        acknowledged := fun _ => hmark
        fresh := fun hc => by cases hc }
    obtain ⟨allocator, hrel, hinv⟩ := h.giveBack _ hput hh (by simp [Put.Holds])
      (fun _ he => Phase.operation.inj he ▸ hret)
    simp only [CudaIpc.finishWait, hrel]
    exact hinv

theorem leaveAcquired_eq_some {s s' : CudaIpc} {i : Nat} {next : Put → CudaIpc}
    (h : s.leaveAcquired i next = some s') :
    ∃ put, s.puts[i]? = some put ∧ put.phase = .acquired ∧ s' = next put := by
  unfold CudaIpc.leaveAcquired at h
  split at h
  · next put hput =>
    split at h
    · next hph =>
      cases h
      exact ⟨put, hput, hph, rfl⟩
    · cases h
  · cases h

theorem result_of_acknowledged {call : Call} {future : Future} {byFuture : Bool}
    (h : call.outcome future byFuture = some .acknowledged) : future = .result := by
  have hfut : ∀ {f : Future}, f.outcome = some .acknowledged → f = .result := by
    intro f hf
    cases f with
    | result => rfl
    | pending | exception | cancelled => cases hf
  cases call with
  | waiting => exact hfut h
  | ended => cases h
  | interrupted why =>
    simp only [Call.outcome] at h
    split at h
    · exact hfut h
    · cases why <;> cases h

theorem Inv.step {s s' : CudaIpc} {a : PutAction} (h : Inv s) (ha : firstToComplete s a)
    (hs : s.step a = some s') : Inv s' := by
  cases a with
  | acquire numSlots =>
    simp only [CudaIpc.step] at hs
    split at hs
    · next hacq =>
      cases hs
      exact h.acquire hacq
    · cases hs
  | giveBack i =>
    obtain ⟨put, hput, hph, rfl⟩ := leaveAcquired_eq_some hs
    have hh : put.Holds := by simp only [Put.Holds, hph]
    obtain ⟨allocator, hrel, hinv⟩ := h.giveBack .givenBack hput hh (by simp [Put.Holds])
      (fun _ he => by cases he)
    simp only [hrel]
    exact hinv
  | lose i =>
    obtain ⟨put, hput, hph, rfl⟩ := leaveAcquired_eq_some hs
    exact h.keep hput (fun _ => by simp only [Put.Holds, hph]) (fun _ he => by cases he)
  | createOperation i =>
    obtain ⟨put, hput, hph, rfl⟩ := leaveAcquired_eq_some hs
    refine h.keep hput (fun _ => by simp only [Put.Holds, hph]) (fun _ he => ?_)
    cases he
    exact OperationOk.initial
  | mark i mark =>
    obtain ⟨⟨put, op⟩, hop, rfl⟩ := Option.map_eq_some_iff.mp hs
    obtain ⟨hput, hph⟩ := operation?_eq_some hop
    exact h.setOperation hput hph ((h.operation hput hph).mark mark) rfl
  | wait i =>
    obtain ⟨⟨put, op⟩, hop, rfl⟩ := Option.map_eq_some_iff.mp hs
    obtain ⟨hput, hph⟩ := operation?_eq_some hop
    refine h.setOperation hput hph (h.operation hput hph).beginWait ?_
    unfold PutOperation.beginWait
    split <;> rfl
  | interrupt i call why =>
    obtain ⟨⟨put, op⟩, hop, hs⟩ := Option.bind_eq_some_iff.mp hs
    obtain ⟨hput, hph⟩ := operation?_eq_some hop
    dsimp only at hs
    split at hs
    · cases hs
      exact h.setOperation hput hph ((h.operation hput hph).interrupt call why) rfl
    · cases hs
  | resume i call byFuture =>
    obtain ⟨⟨put, op⟩, hop, hs⟩ := Option.bind_eq_some_iff.mp hs
    obtain ⟨hput, hph⟩ := operation?_eq_some hop
    obtain ⟨outcome, hout, rfl⟩ := Option.map_eq_some_iff.mp hs
    refine h.finishWait hput hph (fun hack => ?_)
    subst hack
    obtain ⟨c, -, hc⟩ := Option.bind_eq_some_iff.mp hout
    exact ⟨ha put op hop hout, (h.operation hput hph).result (result_of_acknowledged hc)⟩
  | recordSenderCancellation i =>
    obtain ⟨⟨put, op⟩, hop, rfl⟩ := Option.map_eq_some_iff.mp hs
    obtain ⟨hput, hph⟩ := operation?_eq_some hop
    exact h.recordSenderCancellation hput hph (h.operation hput hph) rfl

variable {slotCount slotSize : Nat} {hcount : 0 < slotCount} {hsize : 0 < slotSize}

/-- Every operation's range is returned at most once and only if the receiver's acknowledgement was
the first mark; until then its slots are taken and no later put gets any of them. -/
theorem slots_returned_once {s : CudaIpc}
    (h : (puts slotCount slotSize hcount hsize).Reaches firstToComplete s) {i : Nat} {put : Put}
    {op : PutOperation} (hop : s.operation? i = some (put, op)) : SlotsKept s i put op := by
  have hinv : Inv s := by
    refine h.invariant ?_ (fun s a s' hs ha hstep => Inv.step hs ha hstep)
    constructor <;> intros <;> simp_all [puts]
  obtain ⟨hput, hph⟩ := operation?_eq_some hop
  have hok := hinv.operation hput hph
  have hholds : op.returns = 0 → put.Holds := by
    intro hzero
    simp only [Put.Holds, hph]
    exact hzero
  exact ⟨hok.once, hok.acknowledged, fun hzero => hinv.taken hput (hholds hzero),
    fun hzero k put' hik hk => hinv.apart hik hput hk (hholds hzero)⟩

def isFirstToComplete (s : CudaIpc) : PutAction → Bool
  | .resume i call byFuture =>
    match s.operation? i with
    | some (_, op) =>
      op.calls[call]?.bind (·.outcome op.receiverDone byFuture) != some .acknowledged ||
        !op.completed
    | none => true
  | _ => true

theorem firstToComplete_of_test {s : CudaIpc} {a : PutAction} (h : isFirstToComplete s a = true) :
    firstToComplete s a := by
  cases a with
  | resume i call byFuture =>
    intro put op hop hout
    simp only [isFirstToComplete, hop, hout] at h
    simpa using h
  | acquire | giveBack | lose | createOperation | mark | wait | interrupt
  | recordSenderCancellation => trivial

/-- Two puts of one slot each: the first is acknowledged and awaited, the second times out. -/
def twoPuts : List PutAction :=
  [.acquire 1, .createOperation 0, .acquire 1, .createOperation 1, .wait 0, .mark 0 .done,
    .resume 0 0 false, .wait 1, .interrupt 1 0 .timeout, .mark 1 .done, .resume 1 0 false]

/-- The state after a list of actions that the test admits, or `none`. -/
def runTested (actions : List PutAction) : Option CudaIpc :=
  let M := puts 2 64 Nat.two_pos (by decide)
  M.execWhere isFirstToComplete M.init actions

theorem slots_returned_once_two_puts :
    ∃ s put₀ op₀ put₁ op₁, s.operation? 0 = some (put₀, op₀) ∧ s.operation? 1 = some (put₁, op₁) ∧
      op₀.returns = 1 ∧ op₁.returns = 0 ∧ SlotsKept s 0 put₀ op₀ ∧ SlotsKept s 1 put₁ op₁ := by
  obtain ⟨s, hs⟩ : ∃ s, runTested twoPuts = some s :=
    Option.isSome_iff_exists.mp (by decide +kernel)
  have hreach := Machine.path_of_execWhere (fun _ _ => firstToComplete_of_test) hs
  have h0 : ((runTested twoPuts).bind (·.operation? 0)).map (·.2.returns) = some 1 := by
    decide +kernel
  have h1 : ((runTested twoPuts).bind (·.operation? 1)).map (·.2.returns) = some 0 := by
    decide +kernel
  rw [hs] at h0 h1
  obtain ⟨⟨put₀, op₀⟩, hop₀, hret₀⟩ := Option.map_eq_some_iff.mp h0
  obtain ⟨⟨put₁, op₁⟩, hop₁, hret₁⟩ := Option.map_eq_some_iff.mp h1
  exact ⟨s, put₀, op₀, put₁, op₁, hop₀, hop₁, hret₀, hret₁, slots_returned_once hreach hop₀,
    slots_returned_once hreach hop₁⟩

/-- Two calls await one operation; between their two wake-ups its slot goes to another put. -/
def overlappingWaits : List PutAction :=
  [.acquire 1, .createOperation 0, .wait 0, .mark 0 .done, .wait 0, .resume 0 1 false, .acquire 1,
    .createOperation 1, .resume 0 0 false, .acquire 1]

/-- What `overlappingWaits` leads to on a pool of one slot. -/
def afterOverlappingWaits : Option CudaIpc :=
  let M := puts 1 64 Nat.one_pos (by decide)
  M.exec M.init overlappingWaits

/-- The first operation returns its range twice, and the slot of the second, which no receiver has
acknowledged, is handed to a third put. -/
theorem overlapping_waits_free_other_put :
    ∃ s put₀ op₀ put₁ op₁ put₂, (puts 1 64 (by decide) (by decide)).Reaches Machine.anyAction s ∧
      s.operation? 0 = some (put₀, op₀) ∧ op₀.returns = 2 ∧
      s.operation? 1 = some (put₁, op₁) ∧ op₁.returns = 0 ∧ op₁.firstMark = none ∧
      s.puts[2]? = some put₂ ∧ ¬ put₁.Apart s.allocator.slotSize put₂ := by
  obtain ⟨s, hs⟩ : ∃ s, afterOverlappingWaits = some s :=
    Option.isSome_iff_exists.mp (by decide +kernel)
  have h0 : (afterOverlappingWaits.bind (·.operation? 0)).map (·.2.returns) = some 2 := by
    decide +kernel
  have h1 : (afterOverlappingWaits.bind (·.operation? 1)).map
      (fun (put, op) => (put.offset, put.numSlots, op.returns, op.firstMark)) =
        some (0, 1, 0, none) := by
    decide +kernel
  have h2 : (afterOverlappingWaits.bind (·.puts[2]?)).map (fun put => (put.offset, put.numSlots)) =
      some (0, 1) := by
    decide +kernel
  rw [hs] at h0 h1 h2
  obtain ⟨⟨put₀, op₀⟩, hop₀, hret₀⟩ := Option.map_eq_some_iff.mp h0
  obtain ⟨⟨put₁, op₁⟩, hop₁, he₁⟩ := Option.map_eq_some_iff.mp h1
  obtain ⟨put₂, hput₂, he₂⟩ := Option.map_eq_some_iff.mp h2
  simp only [Prod.mk.injEq] at he₁ he₂
  obtain ⟨hoff₁, hnum₁, hret₁, hmark₁⟩ := he₁
  refine ⟨s, put₀, op₀, put₁, op₁, put₂, Machine.path_of_exec hs, hop₀, hret₀, hop₁, hret₁, hmark₁,
    hput₂, fun h => h 0 ?_ ?_⟩
  · simp [InRange, hoff₁, hnum₁]
  · simp [InRange, he₂]

end Relay
