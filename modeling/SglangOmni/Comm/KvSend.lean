import SglangOmni.Lib.Dict
import SglangOmni.Lib.Machine
import SglangOmni.Stage.Retired

/-! Outbound transfers of key-value pages: the lease on the source pages goes from the stage's launcher
to `send_kv_transfer`, to `send_kv_pages`, and from the registration of the transfer on to its watcher.
`lease_released_once` says that it is released at most once, and after the registration only once a
`DataAck` has come; otherwise the transfer is retained and its lease never released. -/

namespace Comm.Outbound

open Lib Stage

/-- Where the coroutines of a transfer stand: the task is created, `send_kv_transfer` reports an error,
or `send_kv_pages` sends its request to the receiver, waits for the reply, puts the pages, publishes
`DataReady`, waits for the watcher, or is over. -/
inductive Phase
  | launched
  | reporting
  | preparing
  | waitingReady
  | putting
  | publishing
  | watching
  | ended
  deriving DecidableEq

/-- The state of the future in `kv_ready`: a reply sets its result, and cleanup, close and a timeout
end it otherwise. -/
inductive Ready
  | waiting
  | replied (success : Bool)
  | failed
  deriving DecidableEq

/-- A transfer that `launch_kv_transfer` was given, with its lease.  `published` says that it was
registered for publication, `acked` that a `DataAck` came while it was pending, and `releases` counts
the calls of `lease.release`. -/
structure Transfer where
  requestId : String
  transferId : String
  phase : Phase := .launched
  ready : Ready := .waiting
  published : Bool := false
  acked : Bool := false
  releases : Nat := 0

/-- The state of the future `PendingTransfer.ack`: a failure may be the cancellation of the sender. -/
inductive Ack
  | waiting
  | succeeded
  | failed (cancelled : Bool)
  deriving DecidableEq

/-- The task that watches a transfer: not created, waiting for the ack, or completing the operation. -/
inductive Watch
  | unarmed
  | waitingAck
  | completing
  deriving DecidableEq

/-- `PendingTransfer` of the transfer `owner`, whose lease it has. -/
structure Pending where
  owner : Nat
  ack : Ack := .waiting
  watch : Watch := .unarmed
  receiverTerminal : Bool := false
  cleanupRequested : Bool := false

/-- The sending side of a stage and its `CommEngine`. -/
structure Sender where
  transfers : List Transfer := []
  kvReady : Dict String Nat := ∅
  outboundKvRequests : Dict String String := ∅
  pending : Dict String Pending := ∅
  retained : List Nat := []
  aborted : Finset String := ∅
  abortedKvRequests : Finset String := ∅
  closed : Bool := false

def Sender.setTransfer (s : Sender) (i : Nat) (t : Transfer) : Sender :=
  { s with transfers := s.transfers.set i t }

/-- The end of `send_kv_pages`: the transfer is no longer waited for. -/
def Sender.forget (s : Sender) (t : Transfer) : Sender :=
  { s with
    kvReady := s.kvReady.erase t.transferId
    outboundKvRequests := s.outboundKvRequests.erase t.transferId }

/-- `send_kv_pages` ends while it has the lease. -/
def Sender.endUnpublished (s : Sender) (i : Nat) (t : Transfer) : Sender :=
  (s.forget t).setTransfer i { t with phase := .ended, releases := t.releases + 1 }

/-- `send_kv_pages` ends after the transfer is registered. -/
def Sender.endPublished (s : Sender) (i : Nat) (t : Transfer) : Sender :=
  (s.forget t).setTransfer i { t with phase := .ended }

def Sender.failPending (s : Sender) (cancelled : Bool) (transferId : String) : Sender :=
  match s.pending.get? transferId with
  | none => s
  | some p =>
    { s with
      pending := s.pending.set transferId
        { p with
          ack := if p.ack = .waiting then .failed cancelled else p.ack
          watch := if p.watch = .unarmed then .waitingAck else p.watch } }

/-- `send_kv_transfer` up to its first suspension.  The target may not resolve, and the checks of
`send_kv_pages` on the pool, the transport and the target may fail. -/
def Sender.start (s : Sender) (i : Nat) (t : Transfer) (targetFails checksFail : Bool) : Sender :=
  if t.requestId ∈ s.aborted then
    s.setTransfer i { t with phase := .ended, releases := t.releases + 1 }
  else if targetFails then s.setTransfer i { t with phase := .reporting }
  else if t.requestId ∈ s.abortedKvRequests ∨ checksFail ∨ s.kvReady.contains t.transferId ∨
      s.pending.contains t.transferId then
    s.endUnpublished i t
  else
    { s with
      kvReady := s.kvReady.set t.transferId i
      outboundKvRequests := s.outboundKvRequests.set t.transferId t.requestId }.setTransfer i
      { t with phase := .preparing }

/-- `send_kv_pages` after its wait for the reply. -/
def Sender.proceed (s : Sender) (i : Nat) (t : Transfer) : Option Sender :=
  match t.ready with
  | .waiting => none
  | .replied true =>
    if t.requestId ∈ s.abortedKvRequests then some (s.endUnpublished i t)
    else some (s.setTransfer i { t with phase := .putting })
  | .replied false | .failed => some (s.endUnpublished i t)

/-- `send_kv_pages` after `put_kv_pages`: it registers the transfer, which has the lease from then on. -/
def Sender.putReturns (s : Sender) (i : Nat) (t : Transfer) : Sender :=
  if t.requestId ∈ s.abortedKvRequests ∨ s.pending.contains t.transferId then s.endUnpublished i t
  else
    { s with pending := s.pending.set t.transferId { owner := i } }.setTransfer i
      { t with phase := .publishing, published := true }

/-- `send_kv_pages` after `DataReady` is sent: `arm_pending` raises if the transfer is gone or has its
watcher. -/
def Sender.published (s : Sender) (i : Nat) (t : Transfer) : Sender :=
  match s.pending.get? t.transferId with
  | none => s.endPublished i t
  | some p =>
    if p.watch ≠ .unarmed then s.endPublished i t
    else
      { s with pending := s.pending.set t.transferId { p with watch := .waitingAck } }.setTransfer i
        { t with phase := .watching }

def Sender.replyReady (s : Sender) (ready : Ready) (transferId : String) : Sender :=
  match s.kvReady.get? transferId with
  | none => s
  | some i =>
    match s.transfers[i]? with
    | none => s
    | some t => if t.ready = .waiting then s.setTransfer i { t with ready := ready } else s

def Sender.ackTransfer (s : Sender) (transferId : String) (success : Bool) : Sender :=
  match s.pending.get? transferId with
  | none => s
  | some p =>
    { s with
      pending := s.pending.set transferId
        { p with
          receiverTerminal := true
          ack :=
            if p.ack = .waiting then (if success then .succeeded else .failed false) else p.ack }
      transfers := s.transfers.modify p.owner fun t => { t with acked := true } }

/-- The end of `watch_pending`: the transfer is dropped and its lease released. -/
def Sender.settle (s : Sender) (transferId : String) (p : Pending) : Sender :=
  { s with
    pending := s.pending.erase transferId
    transfers := s.transfers.modify p.owner fun t => { t with releases := t.releases + 1 } }

/-- `retain_pending_kv_transfer`. -/
def Sender.retain (s : Sender) (transferId : String) (p : Pending) : Sender :=
  { s with pending := s.pending.erase transferId, retained := s.retained ++ [p.owner] }

/-- The branch of `watch_pending` for an exception other than a cancellation. -/
def Sender.watchRaises (s : Sender) (transferId : String) (p : Pending) : Sender :=
  if p.receiverTerminal then
    { s with pending := s.pending.set transferId { p with watch := .completing } }
  else s.retain transferId p

/-- The branch of `watch_pending` for a cancellation. -/
def Sender.watchCancelled (s : Sender) (transferId : String) (p : Pending) : Sender :=
  if p.receiverTerminal then s.settle transferId p else s.retain transferId p

/-- `watch_pending` after its wait for the ack. -/
def Sender.watchAck (s : Sender) (transferId : String) (p : Pending) : Option Sender :=
  match p.ack with
  | .waiting => none
  | .succeeded => some { s with pending := s.pending.set transferId { p with watch := .completing } }
  | .failed false => some (s.watchRaises transferId p)
  | .failed true => some (s.watchCancelled transferId p)

/-- One transfer of the loop of `cleanup`. -/
def Sender.cleanupTransfer (requestId : String) (s : Sender) (entry : String × String) : Sender :=
  if entry.2 ≠ requestId then s
  else
    match s.pending.get? entry.1 with
    | some p => { s with pending := s.pending.set entry.1 { p with cleanupRequested := true } }
    | none => s.replyReady .failed entry.1

/-- The outbound part of `CommEngine.cleanup`. -/
def Sender.cleanup (s : Sender) (it : Iteration) (requestId : String) : Sender :=
  s.outboundKvRequests.entries.foldl (Sender.cleanupTransfer requestId)
    { s with abortedKvRequests := recordBoundedRequestId it s.abortedKvRequests requestId }

/-- The outbound part of `CommEngine.close`. -/
def Sender.close (s : Sender) : Sender :=
  if s.closed then s
  else
    let s := s.pending.keys.foldl (Sender.failPending · false) { s with closed := true }
    let s := s.kvReady.keys.foldl (Sender.replyReady · .failed) s
    { s with kvReady := ∅, outboundKvRequests := ∅, abortedKvRequests := ∅ }

/-- What can happen: a transfer is launched, its task is cancelled before it starts or starts, the
report of an error ends, a wait of `send_kv_pages` raises, times out or is cancelled, or goes on;
`DataReady` is sent or not; a reply or an ack arrives; the watcher goes on, times out, is cancelled, or
ends; requests are aborted or cleaned up; the engine closes. -/
inductive Action
  | launch (requestId transferId : String)
  | cancelUnstarted (i : Nat)
  | start (i : Nat) (targetFails checksFail : Bool)
  | reported (i : Nat)
  | interrupt (i : Nat)
  | prepared (i : Nat)
  | proceed (i : Nat)
  | putReturns (i : Nat)
  | published (i : Nat)
  | publishFails (i : Nat) (cancelled : Bool)
  | leave (i : Nat)
  | replyReady (transferId : String) (success : Bool)
  | ack (transferId : String) (success : Bool)
  | watchAck (transferId : String)
  | watchTimeout (transferId : String)
  | watchCancel (transferId : String)
  | watchEnds (transferId : String)
  | abort (requestId : String) (it : Iteration)
  | cleanup (requestId : String) (it : Iteration)
  | close

def Sender.whenPhase (s : Sender) (i : Nat) (phases : List Phase)
    (next : Transfer → Option Sender) : Option Sender :=
  match s.transfers[i]? with
  | some t => if t.phase ∈ phases then next t else none
  | none => none

def Sender.whenWatch (s : Sender) (transferId : String) (states : List Watch)
    (next : Pending → Option Sender) : Option Sender :=
  match s.pending.get? transferId with
  | some p => if p.watch ∈ states then next p else none
  | none => none

def Sender.step (s : Sender) : Action → Option Sender
  | .launch requestId transferId =>
    some { s with
      transfers := s.transfers ++ [{ requestId := requestId, transferId := transferId }] }
  | .cancelUnstarted i => s.whenPhase i [.launched] fun t =>
    some (s.setTransfer i { t with phase := .ended, releases := t.releases + 1 })
  | .start i targetFails checksFail => s.whenPhase i [.launched] fun t =>
    some (s.start i t targetFails checksFail)
  | .reported i => s.whenPhase i [.reporting] fun t =>
    some (s.setTransfer i { t with phase := .ended, releases := t.releases + 1 })
  | .interrupt i => s.whenPhase i [.preparing, .waitingReady, .putting] fun t =>
    some (s.endUnpublished i t)
  | .prepared i => s.whenPhase i [.preparing] fun t =>
    some (s.setTransfer i { t with phase := .waitingReady })
  | .proceed i => s.whenPhase i [.waitingReady] fun t => s.proceed i t
  | .putReturns i => s.whenPhase i [.putting] fun t => some (s.putReturns i t)
  | .published i => s.whenPhase i [.publishing] fun t => some (s.published i t)
  | .publishFails i cancelled => s.whenPhase i [.publishing] fun t =>
    some ((s.failPending cancelled t.transferId).endPublished i t)
  | .leave i => s.whenPhase i [.watching] fun t => some (s.endPublished i t)
  | .replyReady transferId success => some (s.replyReady (.replied success) transferId)
  | .ack transferId success => some (s.ackTransfer transferId success)
  | .watchAck transferId => s.whenWatch transferId [.waitingAck] fun p => s.watchAck transferId p
  | .watchTimeout transferId => s.whenWatch transferId [.waitingAck] fun p =>
    some (s.watchRaises transferId p)
  | .watchCancel transferId => s.whenWatch transferId [.waitingAck, .completing] fun p =>
    some (s.watchCancelled transferId p)
  | .watchEnds transferId => s.whenWatch transferId [.completing] fun p =>
    some (s.settle transferId p)
  | .abort requestId it =>
    some { s with aborted := recordBoundedRequestId it s.aborted requestId }
  | .cleanup requestId it => some (s.cleanup it requestId)
  | .close => some s.close

def sender : Machine Sender Action where
  init := {}
  step := Sender.step

structure LeaseKept (s : Sender) (i : Nat) (t : Transfer) : Prop where
  once : t.releases ≤ 1
  acked : t.published = true → t.releases ≠ 0 → t.acked = true
  kept : t.published = true → t.releases = 0 →
    i ∈ s.retained ∨ ∃ transferId p, s.pending.get? transferId = some p ∧ p.owner = i
  retained : i ∈ s.retained → t.releases = 0

def Phase.isActive : Phase → Bool
  | .launched | .reporting | .preparing | .waitingReady | .putting => true
  | .publishing | .watching | .ended => false

structure Inv (s : Sender) : Prop where
  active : ∀ {i : Nat} {t : Transfer}, s.transfers[i]? = some t → t.phase.isActive = true →
    t.published = false ∧ t.releases = 0
  once : ∀ {i : Nat} {t : Transfer}, s.transfers[i]? = some t → t.releases ≤ 1
  acked : ∀ {i : Nat} {t : Transfer}, s.transfers[i]? = some t → t.published = true →
    t.releases ≠ 0 → t.acked = true
  kept : ∀ {i : Nat} {t : Transfer}, s.transfers[i]? = some t → t.published = true →
    t.releases = 0 → i ∈ s.retained ∨ ∃ id p, s.pending.get? id = some p ∧ p.owner = i
  owner : ∀ {id : String} {p : Pending}, s.pending.get? id = some p → ∃ t,
    s.transfers[p.owner]? = some t ∧ t.published = true ∧ t.releases = 0 ∧
      (p.receiverTerminal = true → t.acked = true)
  terminal : ∀ {id : String} {p : Pending}, s.pending.get? id = some p →
    p.ack = .succeeded ∨ p.watch = .completing → p.receiverTerminal = true
  distinct : ∀ {id id' : String} {p p' : Pending}, s.pending.get? id = some p →
    s.pending.get? id' = some p' → p.owner = p'.owner → id = id'
  retained : ∀ {i : Nat}, i ∈ s.retained →
    ∃ t, s.transfers[i]? = some t ∧ t.published = true ∧ t.releases = 0
  apart : ∀ {i : Nat} {id : String} {p : Pending}, i ∈ s.retained →
    s.pending.get? id = some p → p.owner ≠ i

theorem Inv.of_eq {s s' : Sender} (h : Inv s) (ht : s'.transfers = s.transfers)
    (hp : s'.pending = s.pending) (hr : s'.retained = s.retained) : Inv s' := by
  constructor
  · rw [ht]
    exact h.active
  · rw [ht]
    exact h.once
  · rw [ht]
    exact h.acked
  · rw [ht, hp, hr]
    exact h.kept
  · rw [ht, hp]
    exact h.owner
  · rw [hp]
    exact h.terminal
  · rw [hp]
    exact h.distinct
  · rw [ht, hr]
    exact h.retained
  · rw [hp, hr]
    exact h.apart

theorem getElem?_setTransfer {s : Sender} {i : Nat} {t : Transfer} (hi : s.transfers[i]? = some t)
    (t' : Transfer) (k : Nat) :
    (s.setTransfer i t').transfers[k]? = if i = k then some t' else s.transfers[k]? := by
  simp only [Sender.setTransfer, List.getElem?_set]
  rw [if_pos (List.getElem?_eq_some_iff.mp hi).1]

theorem of_getElem?_setTransfer {s : Sender} {i k : Nat} {t t' u : Transfer}
    (hi : s.transfers[i]? = some t) (h : (s.setTransfer i t').transfers[k]? = some u) :
    (k = i ∧ u = t') ∨ (k ≠ i ∧ s.transfers[k]? = some u) := by
  rw [getElem?_setTransfer hi] at h
  split at h
  · next he =>
    cases h
    exact .inl ⟨he.symm, rfl⟩
  · next he => exact .inr ⟨fun e => he e.symm, h⟩

theorem Inv.setTransfer {s : Sender} {i : Nat} {t t' : Transfer} (h : Inv s)
    (hi : s.transfers[i]? = some t) (hpub : t'.published = t.published)
    (hacked : t.acked = true → t'.acked = true)
    (hactive : t'.phase.isActive = true → t'.published = false ∧ t'.releases = 0)
    (honce : t'.releases ≤ 1) (hrel : t.published = true → t'.releases = t.releases) :
    Inv (s.setTransfer i t') := by
  have hnew : ∀ {k : Nat} {u : Transfer}, s.transfers[k]? = some u → u.published = true →
      ∃ u', (s.setTransfer i t').transfers[k]? = some u' ∧ u'.published = true ∧
        u'.releases = u.releases ∧ (u.acked = true → u'.acked = true) := by
    intro k u hk hu
    rw [getElem?_setTransfer hi]
    by_cases he : i = k
    · subst he
      cases hi.symm.trans hk
      exact ⟨t', if_pos rfl, hpub.trans hu, hrel hu, hacked⟩
    · exact ⟨u, (if_neg he).trans hk, hu, rfl, id⟩
  constructor
  · intro k u hk hu
    obtain ⟨rfl, rfl⟩ | ⟨-, hk⟩ := of_getElem?_setTransfer hi hk
    · exact hactive hu
    · exact h.active hk hu
  · intro k u hk
    obtain ⟨rfl, rfl⟩ | ⟨-, hk⟩ := of_getElem?_setTransfer hi hk
    · exact honce
    · exact h.once hk
  · intro k u hk hu hr
    obtain ⟨rfl, rfl⟩ | ⟨-, hk⟩ := of_getElem?_setTransfer hi hk
    · have ht : t.published = true := hpub ▸ hu
      exact hacked (h.acked hi ht (hrel ht ▸ hr))
    · exact h.acked hk hu hr
  · intro k u hk hu hr
    obtain ⟨rfl, rfl⟩ | ⟨-, hk⟩ := of_getElem?_setTransfer hi hk
    · have ht : t.published = true := hpub ▸ hu
      exact h.kept hi ht (hrel ht ▸ hr)
    · exact h.kept hk hu hr
  · intro id p hp
    obtain ⟨u, hu, hpu, hru, hau⟩ := h.owner hp
    obtain ⟨u', hu', hpu', hru', hau'⟩ := hnew hu hpu
    exact ⟨u', hu', hpu', hru'.trans hru, fun ht => hau' (hau ht)⟩
  · exact h.terminal
  · exact h.distinct
  · intro k hk
    obtain ⟨u, hu, hpu, hru⟩ := h.retained hk
    obtain ⟨u', hu', hpu', hru', -⟩ := hnew hu hpu
    exact ⟨u', hu', hpu', hru'.trans hru⟩
  · exact h.apart

theorem Inv.release {s : Sender} {i : Nat} {t : Transfer} (h : Inv s)
    (hi : s.transfers[i]? = some t) (ha : t.phase.isActive = true) :
    Inv (s.setTransfer i { t with phase := .ended, releases := t.releases + 1 }) := by
  obtain ⟨hpub, hzero⟩ := h.active hi ha
  refine h.setTransfer hi rfl id (fun hf => by cases hf) ?_ (fun ht => ?_)
  · simp [hzero]
  · rw [hpub] at ht
    cases ht

theorem Inv.endUnpublished {s : Sender} {i : Nat} {t : Transfer} (h : Inv s)
    (hi : s.transfers[i]? = some t) (ha : t.phase.isActive = true) : Inv (s.endUnpublished i t) := by
  have hforget : Inv (s.forget t) := h.of_eq rfl rfl rfl
  exact hforget.release hi ha

theorem Inv.endPublished {s : Sender} {i : Nat} {t : Transfer} (h : Inv s)
    (hi : s.transfers[i]? = some t) : Inv (s.endPublished i t) := by
  have hforget : Inv (s.forget t) := h.of_eq rfl rfl rfl
  have honce := h.once hi
  exact hforget.setTransfer hi rfl id (fun hf => by cases hf) honce (fun _ => rfl)

theorem Inv.advance {s : Sender} {i : Nat} {t : Transfer} (h : Inv s)
    (hi : s.transfers[i]? = some t) (ha : t.phase.isActive = true) (phase : Phase) :
    Inv (s.setTransfer i { t with phase := phase }) := by
  have hleft := h.active hi ha
  have honce := h.once hi
  exact h.setTransfer hi rfl id (fun _ => hleft) honce (fun _ => rfl)

theorem Inv.replyReady {s : Sender} (h : Inv s) (ready : Ready) (id : String) :
    Inv (s.replyReady ready id) := by
  unfold Sender.replyReady
  split
  · exact h
  · next i _ =>
    split
    · exact h
    · next t hi =>
      split
      · have hactive := h.active hi
        have honce := h.once hi
        exact h.setTransfer hi rfl (fun ha => ha) hactive honce (fun _ => rfl)
      · exact h

theorem Inv.setPending {s : Sender} {id : String} {p p' : Pending} (h : Inv s)
    (hp : s.pending.get? id = some p) (howner : p'.owner = p.owner)
    (hterm : p'.receiverTerminal = true → p.receiverTerminal = true ∨
      ∀ t, s.transfers[p.owner]? = some t → t.acked = true)
    (hdone : p'.ack = .succeeded ∨ p'.watch = .completing → p'.receiverTerminal = true) :
    Inv { s with pending := s.pending.set id p' } := by
  have hold : ∀ {id' : String} {q : Pending}, (s.pending.set id p').get? id' = some q →
      ∃ q', s.pending.get? id' = some q' ∧ q.owner = q'.owner ∧
        (q.receiverTerminal = true → q'.receiverTerminal = true ∨
          ∀ t, s.transfers[q'.owner]? = some t → t.acked = true) := by
    intro id' q hq
    rw [Dict.get?_set] at hq
    split at hq
    · next he =>
      cases hq
      exact ⟨p, he ▸ hp, howner, hterm⟩
    · exact ⟨q, hq, rfl, .inl⟩
  refine ⟨h.active, h.once, h.acked, ?_, ?_, ?_, ?_, h.retained, ?_⟩
  · intro k u hk hu hr
    refine (h.kept hk hu hr).imp_right fun hpending => ?_
    obtain ⟨id', q, hq, hown⟩ := hpending
    simp only [Dict.get?_set]
    by_cases he : id' = id
    · subst he
      cases hp.symm.trans hq
      exact ⟨id', p', if_pos rfl, howner.trans hown⟩
    · exact ⟨id', q, (if_neg he).trans hq, hown⟩
  · intro id' q hq
    obtain ⟨q', hq', ho, ht⟩ := hold hq
    rw [ho]
    obtain ⟨u, hu, hpu, hru, hau⟩ := h.owner hq'
    exact ⟨u, hu, hpu, hru, fun hterm => (ht hterm).elim hau fun hall => hall u hu⟩
  · intro id' q hq hdone'
    simp only [Dict.get?_set] at hq
    split at hq
    · cases hq
      exact hdone hdone'
    · exact h.terminal hq hdone'
  · intro id₁ id₂ q₁ q₂ h₁ h₂ he
    obtain ⟨q₁', h₁', ho₁, -⟩ := hold h₁
    obtain ⟨q₂', h₂', ho₂, -⟩ := hold h₂
    exact h.distinct h₁' h₂' (ho₁.symm.trans (he.trans ho₂))
  · intro k id' q hk hq
    obtain ⟨q', hq', ho, -⟩ := hold hq
    rw [ho]
    exact h.apart hk hq'

theorem Inv.register {s : Sender} {i : Nat} {t : Transfer} (h : Inv s)
    (hi : s.transfers[i]? = some t) (ha : t.phase.isActive = true)
    (hnew : s.pending.get? t.transferId = none) :
    Inv ({ s with pending := s.pending.set t.transferId { owner := i } }.setTransfer i
      { t with phase := .publishing, published := true }) := by
  obtain ⟨hpub, hzero⟩ := h.active hi ha
  have hget : ∀ (k : Nat),
      ({ s with pending := s.pending.set t.transferId { owner := i } }.setTransfer i
        { t with phase := .publishing, published := true }).transfers[k]? =
      if i = k then some { t with phase := .publishing, published := true }
        else s.transfers[k]? :=
    getElem?_setTransfer
      (s := { s with pending := s.pending.set t.transferId { owner := i } }) hi _
  have hnot : ∀ {id : String} {p : Pending}, s.pending.get? id = some p → p.owner ≠ i := by
    rintro id p hp rfl
    obtain ⟨u, hu, hpu, -⟩ := h.owner hp
    cases hi.symm.trans hu
    rw [hpub] at hpu
    cases hpu
  have hold : ∀ {k : Nat} {u : Transfer},
      ({ s with pending := s.pending.set t.transferId { owner := i } }.setTransfer i
        { t with phase := .publishing, published := true }).transfers[k]? = some u →
      (k = i ∧ u = { t with phase := .publishing, published := true }) ∨
        (k ≠ i ∧ s.transfers[k]? = some u) :=
    fun hk => of_getElem?_setTransfer
      (s := { s with pending := s.pending.set t.transferId { owner := i } }) hi hk
  have hpend : ∀ {id : String} {p : Pending},
      (s.pending.set t.transferId { owner := i }).get? id = some p →
      (id = t.transferId ∧ p = { owner := i }) ∨ (id ≠ t.transferId ∧ s.pending.get? id = some p) := by
    intro id p hp
    rw [Dict.get?_set] at hp
    split at hp
    · next he =>
      cases hp
      exact .inl ⟨he, rfl⟩
    · next he => exact .inr ⟨he, hp⟩
  constructor
  · intro k u hk hu
    obtain ⟨rfl, rfl⟩ | ⟨-, hk⟩ := hold hk
    · cases hu
    · exact h.active hk hu
  · intro k u hk
    have honce := h.once hi
    obtain ⟨rfl, rfl⟩ | ⟨-, hk⟩ := hold hk
    · exact honce
    · exact h.once hk
  · intro k u hk hu hr
    obtain ⟨rfl, rfl⟩ | ⟨-, hk⟩ := hold hk
    · exact absurd hzero hr
    · exact h.acked hk hu hr
  · intro k u hk hu hr
    obtain ⟨rfl, rfl⟩ | ⟨-, hk⟩ := hold hk
    · exact .inr ⟨t.transferId, _, Dict.get?_set_self _ _ _, rfl⟩
    · refine (h.kept hk hu hr).imp_right fun hpending => ?_
      obtain ⟨id, p, hp, hown⟩ := hpending
      refine ⟨id, p, ?_, hown⟩
      have hne : id ≠ t.transferId := by
        rintro rfl
        rw [hnew] at hp
        cases hp
      exact (Dict.get?_set _ _ _ _).trans ((if_neg hne).trans hp)
  · intro id p hp
    obtain ⟨-, rfl⟩ | ⟨-, hp⟩ := hpend hp
    · exact ⟨_, (hget i).trans (if_pos rfl), rfl, hzero, fun hf => by cases hf⟩
    · obtain ⟨u, hu, hrest⟩ := h.owner hp
      exact ⟨u, (hget _).trans ((if_neg (Ne.symm (hnot hp))).trans hu), hrest⟩
  · intro id p hp hdone
    obtain ⟨-, rfl⟩ | ⟨-, hp⟩ := hpend hp
    · rcases hdone with hf | hf <;> cases hf
    · exact h.terminal hp hdone
  · intro id id' p p' hp hp' he
    obtain ⟨rfl, rfl⟩ | ⟨-, hp⟩ := hpend hp <;> obtain ⟨rfl, rfl⟩ | ⟨-, hp'⟩ := hpend hp'
    · rfl
    · exact absurd he.symm (hnot hp')
    · exact absurd he (hnot hp)
    · exact h.distinct hp hp' he
  · intro k hk
    obtain ⟨u, hu, hpu, hru⟩ := h.retained hk
    have hne : i ≠ k := by
      rintro rfl
      cases hi.symm.trans hu
      rw [hpub] at hpu
      cases hpu
    exact ⟨u, (hget k).trans ((if_neg hne).trans hu), hpu, hru⟩
  · intro k id p hk hp
    obtain ⟨-, rfl⟩ | ⟨-, hp⟩ := hpend hp
    · rintro rfl
      obtain ⟨u, hu, hpu, -⟩ := h.retained hk
      cases hi.symm.trans hu
      rw [hpub] at hpu
      cases hpu
    · exact h.apart hk hp

theorem Inv.setWatch {s : Sender} {id : String} {p p' : Pending} (h : Inv s)
    (hp : s.pending.get? id = some p) (howner : p'.owner = p.owner)
    (hterm : p'.receiverTerminal = p.receiverTerminal)
    (hdone : p'.ack = .succeeded ∨ p'.watch = .completing →
      p.ack = .succeeded ∨ p.watch = .completing ∨ p.receiverTerminal = true) :
    Inv { s with pending := s.pending.set id p' } := by
  refine h.setPending hp howner (fun ht => .inl (hterm ▸ ht)) fun hd => ?_
  rw [hterm]
  obtain hack | hwatch | ht := hdone hd
  · exact h.terminal hp (.inl hack)
  · exact h.terminal hp (.inr hwatch)
  · exact ht

theorem Inv.failPending {s : Sender} (h : Inv s) (cancelled : Bool) (id : String) :
    Inv (s.failPending cancelled id) := by
  unfold Sender.failPending
  split
  · exact h
  · next p hp =>
    refine h.setWatch hp rfl rfl ?_
    dsimp only
    rintro (hack | hwatch)
    · split at hack
      · cases hack
      · exact .inl hack
    · split at hwatch
      · cases hwatch
      · exact .inr (.inl hwatch)

theorem modify_eq_setTransfer {s : Sender} {i : Nat} {t : Transfer}
    (hi : s.transfers[i]? = some t) (f : Transfer → Transfer) :
    { s with transfers := s.transfers.modify i f } = s.setTransfer i (f t) := by
  have hlist : s.transfers.modify i f = s.transfers.set i (f t) := by
    refine List.ext_getElem? fun k => ?_
    rw [List.getElem?_modify, List.getElem?_set]
    by_cases he : i = k
    · subst he
      rw [if_pos rfl, if_pos (List.getElem?_eq_some_iff.mp hi).1, hi]
      simp
    · rw [if_neg he]
      simp [he]
  rw [hlist]
  rfl

theorem Inv.ackTransfer {s : Sender} (h : Inv s) (id : String) (success : Bool) :
    Inv (s.ackTransfer id success) := by
  unfold Sender.ackTransfer
  split
  · exact h
  next p hp =>
  obtain ⟨t, ht, hpub, hzero, -⟩ := h.owner hp
  have hactive := h.active ht
  have honce := h.once ht
  have hacked : Inv (s.setTransfer p.owner { t with acked := true }) :=
    h.setTransfer ht rfl (fun _ => rfl) hactive honce (fun _ => rfl)
  have hset := modify_eq_setTransfer ht fun t => { t with acked := true }
  have hmod : Inv { s with transfers := s.transfers.modify p.owner fun t => { t with acked := true } } := by
    rw [hset]
    exact hacked
  refine hmod.setPending hp rfl (fun _ => .inr fun u hu => ?_) (fun _ => rfl)
  rw [hset, getElem?_setTransfer ht, if_pos rfl] at hu
  cases hu
  rfl

theorem Inv.settle {s : Sender} {id : String} {p : Pending} (h : Inv s)
    (hp : s.pending.get? id = some p) (hterm : p.receiverTerminal = true) :
    Inv (s.settle id p) := by
  obtain ⟨t, ht, hpub, hzero, hacked⟩ := h.owner hp
  have hget : ∀ (k : Nat), (s.settle id p).transfers[k]? =
      if p.owner = k then some { t with releases := t.releases + 1 } else s.transfers[k]? := by
    intro k
    have hset := congrArg Sender.transfers
      (modify_eq_setTransfer ht fun t => { t with releases := t.releases + 1 })
    show (s.transfers.modify p.owner fun t => { t with releases := t.releases + 1 })[k]? = _
    rw [show (s.transfers.modify p.owner fun t => { t with releases := t.releases + 1 }) = _ from hset]
    exact getElem?_setTransfer ht _ k
  have hold : ∀ {k : Nat} {u : Transfer}, (s.settle id p).transfers[k]? = some u →
      (k = p.owner ∧ u = { t with releases := t.releases + 1 }) ∨
        (k ≠ p.owner ∧ s.transfers[k]? = some u) := by
    intro k u hk
    rw [hget] at hk
    split at hk
    · next he =>
      cases hk
      exact .inl ⟨he.symm, rfl⟩
    · next he => exact .inr ⟨fun e => he e.symm, hk⟩
  have hother : ∀ {id' : String} {q : Pending}, (s.settle id p).pending.get? id' = some q →
      s.pending.get? id' = some q ∧ q.owner ≠ p.owner := by
    intro id' q hq
    obtain ⟨hne, hq⟩ := Dict.get?_erase_some hq
    exact ⟨hq, fun he => hne (h.distinct hq hp he)⟩
  have hactive := h.active ht
  constructor
  · intro k u hk hu
    obtain ⟨rfl, rfl⟩ | ⟨-, hk⟩ := hold hk
    · have := (hactive hu).1
      rw [hpub] at this
      cases this
    · exact h.active hk hu
  · intro k u hk
    obtain ⟨rfl, rfl⟩ | ⟨-, hk⟩ := hold hk
    · simp [hzero]
    · exact h.once hk
  · intro k u hk hu hr
    obtain ⟨rfl, rfl⟩ | ⟨-, hk⟩ := hold hk
    · exact hacked hterm
    · exact h.acked hk hu hr
  · intro k u hk hu hr
    obtain ⟨rfl, rfl⟩ | ⟨hne, hk⟩ := hold hk
    · cases hr
    · refine (h.kept hk hu hr).imp_right fun ⟨id', q, hq, hown⟩ => ⟨id', q, ?_, hown⟩
      refine (Dict.get?_erase _ _ _).trans ((if_neg ?_).trans hq)
      rintro rfl
      cases hp.symm.trans hq
      exact hne hown.symm
  · intro id' q hq
    obtain ⟨hq, hne⟩ := hother hq
    obtain ⟨u, hu, hrest⟩ := h.owner hq
    exact ⟨u, (hget _).trans ((if_neg (Ne.symm hne)).trans hu), hrest⟩
  · exact fun hq hd => h.terminal (hother hq).1 hd
  · exact fun hq hq' he => h.distinct (hother hq).1 (hother hq').1 he
  · intro k hk
    obtain ⟨u, hu, hpu, hru⟩ := h.retained hk
    exact ⟨u, (hget k).trans ((if_neg (h.apart hk hp)).trans hu), hpu, hru⟩
  · exact fun hk hq => h.apart hk (hother hq).1

theorem Inv.retain {s : Sender} {id : String} {p : Pending} (h : Inv s)
    (hp : s.pending.get? id = some p) : Inv (s.retain id p) := by
  obtain ⟨t, ht, hpub, hzero, -⟩ := h.owner hp
  have hmem : ∀ {k : Nat}, k ∈ s.retained ++ [p.owner] ↔ k ∈ s.retained ∨ k = p.owner := by
    intro k
    rw [List.mem_append, List.mem_singleton]
  have hother : ∀ {id' : String} {q : Pending}, (s.retain id p).pending.get? id' = some q →
      s.pending.get? id' = some q ∧ q.owner ≠ p.owner := by
    intro id' q hq
    obtain ⟨hne, hq⟩ := Dict.get?_erase_some hq
    exact ⟨hq, fun he => hne (h.distinct hq hp he)⟩
  refine ⟨h.active, h.once, h.acked, ?_, fun hq => h.owner (hother hq).1,
    fun hq hd => h.terminal (hother hq).1 hd,
    fun hq hq' he => h.distinct (hother hq).1 (hother hq').1 he, ?_, ?_⟩
  · intro k u hk hu hr
    obtain hin | ⟨id', q, hq, hown⟩ := h.kept hk hu hr
    · exact .inl (hmem.mpr (.inl hin))
    · by_cases he : id' = id
      · subst he
        cases hp.symm.trans hq
        exact .inl (hmem.mpr (.inr hown.symm))
      · exact .inr ⟨id', q, (Dict.get?_erase _ _ _).trans ((if_neg he).trans hq), hown⟩
  · intro k hk
    obtain hk | rfl := hmem.mp hk
    · exact h.retained hk
    · exact ⟨t, ht, hpub, hzero⟩
  · intro k id' q hk hq
    obtain hk | rfl := hmem.mp hk
    · exact h.apart hk (hother hq).1
    · exact (hother hq).2

/-! ### Steps -/

theorem whenPhase_eq_some {s s' : Sender} {i : Nat} {phases : List Phase}
    {next : Transfer → Option Sender} (h : s.whenPhase i phases next = some s') :
    ∃ t, s.transfers[i]? = some t ∧ t.phase ∈ phases ∧ next t = some s' := by
  unfold Sender.whenPhase at h
  split at h
  · next t ht =>
    split at h
    · next hp => exact ⟨t, ht, hp, h⟩
    · cases h
  · cases h

theorem whenWatch_eq_some {s s' : Sender} {id : String} {states : List Watch}
    {next : Pending → Option Sender} (h : s.whenWatch id states next = some s') :
    ∃ p, s.pending.get? id = some p ∧ p.watch ∈ states ∧ next p = some s' := by
  unfold Sender.whenWatch at h
  split at h
  · next p hp =>
    split at h
    · next hw => exact ⟨p, hp, hw, h⟩
    · cases h
  · cases h

theorem Inv.start {s : Sender} {i : Nat} {t : Transfer} (h : Inv s)
    (hi : s.transfers[i]? = some t) (ha : t.phase.isActive = true) (targetFails checksFail : Bool) :
    Inv (s.start i t targetFails checksFail) := by
  unfold Sender.start
  split
  · exact h.release hi ha
  split
  · exact h.advance hi ha .reporting
  split
  · exact h.endUnpublished hi ha
  · have hset : Inv
        { s with
          kvReady := s.kvReady.set t.transferId i
          outboundKvRequests := s.outboundKvRequests.set t.transferId t.requestId } :=
      h.of_eq rfl rfl rfl
    exact hset.advance hi ha .preparing

theorem Inv.proceed {s s' : Sender} {i : Nat} {t : Transfer} (h : Inv s)
    (hi : s.transfers[i]? = some t) (ha : t.phase.isActive = true)
    (hs : s.proceed i t = some s') : Inv s' := by
  unfold Sender.proceed at hs
  split at hs
  · cases hs
  · split at hs
    · cases hs
      exact h.endUnpublished hi ha
    · cases hs
      exact h.advance hi ha .putting
  · cases hs
    exact h.endUnpublished hi ha
  · cases hs
    exact h.endUnpublished hi ha

theorem Inv.putReturns {s : Sender} {i : Nat} {t : Transfer} (h : Inv s)
    (hi : s.transfers[i]? = some t) (ha : t.phase.isActive = true) : Inv (s.putReturns i t) := by
  unfold Sender.putReturns
  split
  · exact h.endUnpublished hi ha
  · next hno =>
    simp only [not_or, Bool.not_eq_true, Dict.contains_eq_false] at hno
    exact h.register hi ha hno.2

theorem Inv.published {s : Sender} {i : Nat} {t : Transfer} (h : Inv s)
    (hi : s.transfers[i]? = some t) : Inv (s.published i t) := by
  unfold Sender.published
  split
  · exact h.endPublished hi
  · next p hp =>
    split
    · exact h.endPublished hi
    · have hset : Inv
          { s with pending := s.pending.set t.transferId { p with watch := .waitingAck } } := by
        refine h.setWatch hp rfl rfl ?_
        rintro (hack | hwatch)
        · exact .inl hack
        · cases hwatch
      have honce := h.once hi
      exact hset.setTransfer hi rfl id (fun hf => by cases hf) honce (fun _ => rfl)

theorem Inv.watchRaises {s : Sender} {id : String} {p : Pending} (h : Inv s)
    (hp : s.pending.get? id = some p) : Inv (s.watchRaises id p) := by
  unfold Sender.watchRaises
  split
  · next ht => exact h.setWatch hp rfl rfl (fun _ => .inr (.inr ht))
  · exact h.retain hp

theorem Inv.watchCancelled {s : Sender} {id : String} {p : Pending} (h : Inv s)
    (hp : s.pending.get? id = some p) : Inv (s.watchCancelled id p) := by
  unfold Sender.watchCancelled
  split
  · next ht => exact h.settle hp ht
  · exact h.retain hp

theorem Inv.watchAck {s s' : Sender} {id : String} {p : Pending} (h : Inv s)
    (hp : s.pending.get? id = some p) (hs : s.watchAck id p = some s') : Inv s' := by
  unfold Sender.watchAck at hs
  split at hs
  · cases hs
  · next hack =>
    cases hs
    exact h.setWatch hp rfl rfl (fun _ => .inl hack)
  · cases hs
    exact h.watchRaises hp
  · cases hs
    exact h.watchCancelled hp

theorem Inv.cleanup {s : Sender} (h : Inv s) (it : Iteration) (requestId : String) :
    Inv (s.cleanup it requestId) := by
  have hfold : ∀ (entries : List (String × String)) {s : Sender}, Inv s →
      Inv (entries.foldl (Sender.cleanupTransfer requestId) s) := by
    intro entries
    induction entries with
    | nil => exact id
    | cons entry rest ih =>
      intro s hs
      refine ih ?_
      unfold Sender.cleanupTransfer
      split
      · exact hs
      · split
        · next p hp =>
          refine hs.setWatch hp rfl rfl (fun hd => ?_)
          exact hd.imp_right .inl
        · exact hs.replyReady .failed entry.1
  exact hfold _ (h.of_eq rfl rfl rfl)

theorem Inv.close {s : Sender} (h : Inv s) : Inv s.close := by
  have hfail : ∀ (ids : List String) {s : Sender}, Inv s →
      Inv (ids.foldl (Sender.failPending · false) s) := by
    intro ids
    induction ids with
    | nil => exact id
    | cons id rest ih => exact fun hs => ih (hs.failPending false id)
  have hreply : ∀ (ids : List String) {s : Sender}, Inv s →
      Inv (ids.foldl (Sender.replyReady · .failed) s) := by
    intro ids
    induction ids with
    | nil => exact id
    | cons id rest ih => exact fun hs => ih (hs.replyReady .failed id)
  unfold Sender.close
  split
  · exact h
  · have hclosed : Inv { s with closed := true } := h.of_eq rfl rfl rfl
    exact (hreply _ (hfail _ hclosed)).of_eq rfl rfl rfl

theorem Inv.launch {s : Sender} (h : Inv s) (requestId transferId : String) :
    Inv { s with
      transfers := s.transfers ++ [{ requestId := requestId, transferId := transferId }] } := by
  have hold : ∀ {k : Nat} {u : Transfer},
      (s.transfers ++ [{ requestId := requestId, transferId := transferId }])[k]? = some u →
      s.transfers[k]? = some u ∨ u = { requestId := requestId, transferId := transferId } := by
    intro k u hk
    rw [List.getElem?_append] at hk
    split at hk
    · exact .inl hk
    · exact .inr (List.mem_singleton.mp (List.mem_of_getElem? hk))
  have hnew : ∀ {k : Nat} {u : Transfer}, s.transfers[k]? = some u →
      (s.transfers ++ [{ requestId := requestId, transferId := transferId }])[k]? = some u := by
    intro k u hk
    rw [List.getElem?_append_left (List.getElem?_eq_some_iff.mp hk).1, hk]
  constructor
  · intro k u hk hu
    obtain hk | rfl := hold hk
    · exact h.active hk hu
    · exact ⟨rfl, rfl⟩
  · intro k u hk
    obtain hk | rfl := hold hk
    · exact h.once hk
    · exact Nat.zero_le _
  · intro k u hk hu hr
    obtain hk | rfl := hold hk
    · exact h.acked hk hu hr
    · cases hu
  · intro k u hk hu hr
    obtain hk | rfl := hold hk
    · exact h.kept hk hu hr
    · cases hu
  · intro id p hp
    obtain ⟨u, hu, hrest⟩ := h.owner hp
    exact ⟨u, hnew hu, hrest⟩
  · exact h.terminal
  · exact h.distinct
  · intro k hk
    obtain ⟨u, hu, hrest⟩ := h.retained hk
    exact ⟨u, hnew hu, hrest⟩
  · exact h.apart

theorem Inv.step {s s' : Sender} {a : Action} (h : Inv s) (hs : s.step a = some s') : Inv s' := by
  cases a with
  | launch requestId transferId =>
    cases hs
    exact h.launch requestId transferId
  | cancelUnstarted i =>
    obtain ⟨t, ht, hp, hs⟩ := whenPhase_eq_some hs
    cases hs
    exact h.release ht (by rw [List.mem_singleton.mp hp]; rfl)
  | start i targetFails checksFail =>
    obtain ⟨t, ht, hp, hs⟩ := whenPhase_eq_some hs
    cases hs
    exact h.start ht (by rw [List.mem_singleton.mp hp]; rfl) targetFails checksFail
  | reported i =>
    obtain ⟨t, ht, hp, hs⟩ := whenPhase_eq_some hs
    cases hs
    exact h.release ht (by rw [List.mem_singleton.mp hp]; rfl)
  | interrupt i =>
    obtain ⟨t, ht, hp, hs⟩ := whenPhase_eq_some hs
    cases hs
    refine h.endUnpublished ht ?_
    simp only [List.mem_cons, List.not_mem_nil, or_false] at hp
    rcases hp with hp | hp | hp <;> rw [hp] <;> rfl
  | prepared i =>
    obtain ⟨t, ht, hp, hs⟩ := whenPhase_eq_some hs
    cases hs
    exact h.advance ht (by rw [List.mem_singleton.mp hp]; rfl) .waitingReady
  | proceed i =>
    obtain ⟨t, ht, hp, hs⟩ := whenPhase_eq_some hs
    exact h.proceed ht (by rw [List.mem_singleton.mp hp]; rfl) hs
  | putReturns i =>
    obtain ⟨t, ht, hp, hs⟩ := whenPhase_eq_some hs
    cases hs
    exact h.putReturns ht (by rw [List.mem_singleton.mp hp]; rfl)
  | published i =>
    obtain ⟨t, ht, -, hs⟩ := whenPhase_eq_some hs
    cases hs
    exact h.published ht
  | publishFails i cancelled =>
    obtain ⟨t, ht, -, hs⟩ := whenPhase_eq_some hs
    cases hs
    refine (h.failPending cancelled t.transferId).endPublished ?_
    unfold Sender.failPending
    split <;> exact ht
  | leave i =>
    obtain ⟨t, ht, -, hs⟩ := whenPhase_eq_some hs
    cases hs
    exact h.endPublished ht
  | replyReady id success =>
    cases hs
    exact h.replyReady _ id
  | ack id success =>
    cases hs
    exact h.ackTransfer id success
  | watchAck id =>
    obtain ⟨p, hp, -, hs⟩ := whenWatch_eq_some hs
    exact h.watchAck hp hs
  | watchTimeout id =>
    obtain ⟨p, hp, -, hs⟩ := whenWatch_eq_some hs
    cases hs
    exact h.watchRaises hp
  | watchCancel id =>
    obtain ⟨p, hp, -, hs⟩ := whenWatch_eq_some hs
    cases hs
    exact h.watchCancelled hp
  | watchEnds id =>
    obtain ⟨p, hp, hw, hs⟩ := whenWatch_eq_some hs
    cases hs
    exact h.settle hp (h.terminal hp (.inr (List.mem_singleton.mp hw)))
  | abort requestId it =>
    cases hs
    exact h.of_eq rfl rfl rfl
  | cleanup requestId it =>
    cases hs
    exact h.cleanup it requestId
  | close =>
    cases hs
    exact h.close

/-- In every state of every run, the lease of every transfer is released at most once; after the
transfer was registered for publication it is released only once a `DataAck` has come for it, and
until then the transfer is pending or retained, and one that is retained is never released. -/
theorem lease_released_once {s : Sender} (h : sender.Reaches Machine.anyAction s) {i : Nat}
    {t : Transfer} (ht : s.transfers[i]? = some t) : LeaseKept s i t := by
  have hinv : Inv s := by
    refine h.invariant ?_ (fun _ _ _ hs _ hstep => Inv.step hs hstep)
    constructor <;> intros <;> simp_all [sender]
  refine ⟨hinv.once ht, hinv.acked ht, hinv.kept ht, fun hin => ?_⟩
  obtain ⟨u, hu, -, hzero⟩ := hinv.retained hin
  cases ht.symm.trans hu
  exact hzero

/-- Three transfers: the first is acknowledged before its message is known to be sent, the second times
out, and the third finds its request cleaned up. -/
def threeTransfers : List Action :=
  [.launch "r" "t0", .launch "q" "t1", .launch "p" "t2", .start 0 false false, .prepared 0,
    .replyReady "t0" true, .proceed 0, .putReturns 0, .ack "t0" true, .published 0, .watchAck "t0",
    .start 1 false false, .prepared 1, .replyReady "t1" true, .proceed 1, .putReturns 1,
    .published 1, .watchTimeout "t1", .watchEnds "t0", .start 2 false true]

theorem lease_released_once_three_transfers :
    ∃ s t₀ t₁ t₂, s.transfers[0]? = some t₀ ∧ s.transfers[1]? = some t₁ ∧
      s.transfers[2]? = some t₂ ∧ (t₀.published, t₀.releases) = (true, 1) ∧
      (t₁.published, t₁.releases) = (true, 0) ∧ (t₂.published, t₂.releases) = (false, 1) ∧
      LeaseKept s 0 t₀ ∧ LeaseKept s 1 t₁ ∧ LeaseKept s 2 t₂ := by
  obtain ⟨s, hs⟩ : ∃ s, sender.exec sender.init threeTransfers = some s :=
    Option.isSome_iff_exists.mp (by decide +kernel)
  have hobs : ∀ {i : Nat} {o : Bool × Nat},
      ((sender.exec sender.init threeTransfers).bind (·.transfers[i]?)).map
        (fun t => (t.published, t.releases)) = some o →
      ∃ t, s.transfers[i]? = some t ∧ (t.published, t.releases) = o := by
    intro i o ho
    rw [hs] at ho
    exact Option.map_eq_some_iff.mp ho
  obtain ⟨t₀, ht₀, ho₀⟩ := @hobs 0 (true, 1) (by decide +kernel)
  obtain ⟨t₁, ht₁, ho₁⟩ := @hobs 1 (true, 0) (by decide +kernel)
  obtain ⟨t₂, ht₂, ho₂⟩ := @hobs 2 (false, 1) (by decide +kernel)
  have hreach : sender.Reaches Machine.anyAction s := Machine.path_of_exec hs
  exact ⟨s, t₀, t₁, t₂, ht₀, ht₁, ht₂, ho₀, ho₁, ho₂, lease_released_once hreach ht₀,
    lease_released_once hreach ht₁, lease_released_once hreach ht₂⟩

end Comm.Outbound
