import Mathlib.Algebra.Order.BigOperators.Group.List
import Mathlib.Algebra.Order.Ring.Nat
import Mathlib.Algebra.Order.Ring.Rat
import Mathlib.Data.List.Range
import SglangOmni.Lib.Machine
import SglangOmni.Simple.Message

/-! `StreamingSimpleScheduler`: the loop that takes a message and reads ahead for a batch.  Reading
ahead for non-streaming requests puts `stream_done`s aside that have no payload yet.  What the hooks
of a subclass do is left open: requests are aborted, completed and latched at any moment. -/

namespace Simple.Streaming

open Lib

variable {δ : Type}

structure Arrival (δ : Type) where
  seq : Nat
  msg : Incoming δ

/-- The fixed part of a `StreamingSimpleScheduler`.  A hook that raises has no value. -/
structure Config (δ : Type) where
  hasBatchFn : Bool
  maxBatchSize : Nat
  maxBatchSize_pos : 1 ≤ maxBatchSize
  maxBatchWaitS : ℚ
  requestCostFn : Option (δ → Option Int)
  maxBatchCost : Option Nat
  isStreamingPayload : δ → Option Bool
  isStreamItem : δ → Bool
  canBatchStreamChunks : Bool
  streamChunkBatchMax : Option Int
  streamChunkBatchDistinctRequests : Bool

def Config.messageCost (cfg : Config δ) (msg : Incoming δ) : Option Nat :=
  match cfg.requestCostFn with
  | none => some 0
  | some cost => if msg.type = .newRequest then (cost msg.data).map Int.toNat else some 0

def Config.totalCost (cfg : Config δ) (batch : List (Arrival δ)) : Nat :=
  (batch.map fun a => (cfg.messageCost a.msg).getD 0).sum

/-- The most chunks of one call of `collect_stream_chunk_batch`. -/
def Config.chunkCap (cfg : Config δ) : Int :=
  match cfg.streamChunkBatchMax with
  | none => max cfg.maxBatchSize 1
  | some most => if most = 0 then max cfg.maxBatchSize 1 else most

inductive Collecting (δ : Type)
  /-- `collect_new_request_batch`; `isWaiting` says that it waits until its deadline. -/
  | requests (batch : List (Arrival δ)) (batchCost : Nat) (deadline : ℚ)
      (deferred : List (Arrival δ)) (isWaiting : Bool)
  /-- `collect_stream_chunk_batch`; `seen` are the requests seen, where they must be distinct. -/
  | chunks (batch : List (Arrival δ)) (seen : Option (List String))

def Collecting.batch : Collecting δ → List (Arrival δ)
  | .requests batch _ _ _ _ => batch
  | .chunks batch _ => batch

def Collecting.deferred : Collecting δ → List (Arrival δ)
  | .requests _ _ _ deferred _ => deferred
  | .chunks _ _ => []

inductive Handled (δ : Type)
  | compute (batch : List (Arrival δ))
  | streaming (request : Arrival δ)
  | chunks (batch : List (Arrival δ))
  | streamDone (msg : Arrival δ)

def Handled.messages : Handled δ → List (Arrival δ)
  | .compute batch => batch
  | .streaming request => [request]
  | .chunks batch => batch
  | .streamDone msg => [msg]

/-- The scheduler's queues and sets.  The last five fields are history: what arrived, what the handlers
got, what was dropped, which requests were ever aborted, and the `stream_done`s that a collector found
without a payload. -/
structure State (δ : Type) where
  inbox : List (Arrival δ) := []
  pendingMessages : List (Arrival δ) := []
  collecting : Option (Collecting δ) := none
  abortedRequestIds : List String := []
  streamPayloads : List String := []
  arrivals : List (Arrival δ) := []
  handled : List (Handled δ) := []
  dropped : List (Arrival δ) := []
  everAborted : List String := []
  foundNoPayload : List Nat := []

namespace State

def isAborted (s : State δ) (a : Arrival δ) : Bool := s.abortedRequestIds.contains a.msg.requestId

def drop (s : State δ) (a : Arrival δ) : State δ := { s with dropped := s.dropped ++ [a] }

def abort (s : State δ) (requestId : String) : State δ :=
  { s with
    abortedRequestIds := requestId :: s.abortedRequestIds
    streamPayloads := s.streamPayloads.filter (· ≠ requestId)
    everAborted := requestId :: s.everAborted }

/-- `emit_error`, then `abort`. -/
def fail (s : State δ) (a : Arrival δ) : State δ := (s.drop a).abort a.msg.requestId

def handle (s : State δ) (call : Handled δ) : State δ := { s with handled := s.handled ++ [call] }

/-- `get_batch_message`: nothing where both queues are empty. -/
def getBatchMessage (s : State δ) : Option (Arrival δ × State δ) :=
  match s.pendingMessages with
  | a :: rest => some (a, { s with pendingMessages := rest })
  | [] =>
    match s.inbox with
    | a :: rest => some (a, { s with inbox := rest })
    | [] => none

/-! ### Handlers -/

def handleStreamingNewRequest (s : State δ) (a : Arrival δ) : State δ :=
  if s.isAborted a then s.drop a
  else
    { s.handle (.streaming a) with
      abortedRequestIds := s.abortedRequestIds.filter (· ≠ a.msg.requestId)
      streamPayloads := a.msg.requestId :: s.streamPayloads }

def runNonStreamingBatch (s : State δ) (batch : List (Arrival δ)) : State δ :=
  let active := batch.filter fun a => !s.isAborted a
  let s := (batch.filter s.isAborted).foldl drop s
  if active.isEmpty then s else s.handle (.compute active)

def handleNewRequestBatch (cfg : Config δ) (s : State δ) (batch : List (Arrival δ)) : State δ :=
  let kind (a : Arrival δ) := cfg.isStreamingPayload a.msg.data
  let s := (batch.filter fun a => kind a = none).foldl fail s
  let s := (batch.filter fun a => kind a = some true).foldl handleStreamingNewRequest s
  s.runNonStreamingBatch (batch.filter fun a => kind a = some false)

/-- The first loop of `handle_stream_chunk_batch`. -/
def chunkItems (cfg : Config δ) : State δ → List (Arrival δ) → State δ × List (Arrival δ)
  | s, [] => (s, [])
  | s, a :: rest =>
    if s.isAborted a then chunkItems cfg (s.drop a) rest
    else if !cfg.isStreamItem a.msg.data then chunkItems cfg (s.fail a) rest
    else
      let (s, items) := chunkItems cfg s rest
      (s, a :: items)

def handleStreamChunkBatch (cfg : Config δ) (s : State δ) (batch : List (Arrival δ)) : State δ :=
  let (s, items) := chunkItems cfg s batch
  let active := items.filter fun a => !s.isAborted a
  let s := (items.filter s.isAborted).foldl drop s
  if active.isEmpty then s else s.handle (.chunks active)

def handleStreamChunk (cfg : Config δ) (s : State δ) (a : Arrival δ) : State δ :=
  if cfg.isStreamItem a.msg.data then s.handle (.chunks [a]) else s.fail a

/-! ### Collectors -/

/-- The end of a collector: what it put aside goes back before what waits, and the batch is handled. -/
def finish (cfg : Config δ) (s : State δ) (c : Collecting δ) : State δ :=
  let s := { s with collecting := none, pendingMessages := c.deferred ++ s.pendingMessages }
  match c with
  | .requests batch _ _ _ _ => s.handleNewRequestBatch cfg batch
  | .chunks batch _ => s.handleStreamChunkBatch cfg batch

/-- What the loop of `collect_new_request_batch` does with a message. -/
def collectRequest (cfg : Config δ) (s : State δ) (batch : List (Arrival δ)) (batchCost : Nat)
    (deadline : ℚ) (deferred : List (Arrival δ)) (a : Arrival δ) : State δ :=
  let goOn (s : State δ) :=
    { s with collecting := some (.requests batch batchCost deadline deferred false) }
  let deferring := Collecting.requests batch batchCost deadline (deferred ++ [a]) false
  if s.isAborted a then goOn (s.drop a)
  else if a.msg.type ≠ .newRequest then
    if a.msg.type = .streamDone ∧ ¬ s.streamPayloads.contains a.msg.requestId then
      { s with
        collecting := some deferring
        foundNoPayload := a.seq :: s.foundNoPayload }
    else s.finish cfg deferring
  else
    match cfg.isStreamingPayload a.msg.data with
    | none => goOn (s.fail a)
    | some true => s.finish cfg deferring
    | some false =>
      match cfg.maxBatchCost with
      | none =>
        { s with
          collecting := some (.requests (batch ++ [a]) batchCost deadline deferred false) }
      | some maxBatchCost =>
        match cfg.messageCost a.msg with
        | none => goOn (s.fail a)
        | some msgCost =>
          if maxBatchCost < batchCost + msgCost then s.finish cfg deferring
          else
            { s with
              collecting :=
                some (.requests (batch ++ [a]) (batchCost + msgCost) deadline deferred false) }

/-- What the loop of `collect_stream_chunk_batch` does with a message. -/
def collectChunk (cfg : Config δ) (s : State δ) (batch : List (Arrival δ))
    (seen : Option (List String)) (a : Arrival δ) : State δ :=
  let back (s : State δ) := { s with pendingMessages := a :: s.pendingMessages }
  if a.msg.type ≠ .streamChunk then (back s).finish cfg (.chunks batch seen)
  else if s.isAborted a then { s.drop a with collecting := some (.chunks batch seen) }
  else if seen.any fun ids => ids.contains a.msg.requestId then
    (back s).finish cfg (.chunks batch seen)
  else
    { s with
      collecting := some (.chunks (batch ++ [a]) (seen.map fun ids => a.msg.requestId :: ids)) }

/-- One look of a collector at the queues: nothing while it waits for a message. -/
def look (cfg : Config δ) (s : State δ) (c : Collecting δ) (now : ℚ) : Option (State δ) :=
  match c with
  | .requests batch batchCost deadline deferred isWaiting =>
    if ¬ batch.length < cfg.maxBatchSize then some (s.finish cfg c)
    else
      match s.getBatchMessage with
      | some (a, s) => some (s.collectRequest cfg batch batchCost deadline deferred a)
      | none =>
        if isWaiting then none
        else if deadline - now ≤ 0 then some (s.finish cfg c)
        else
          some { s with collecting := some (.requests batch batchCost deadline deferred true) }
  | .chunks batch seen =>
    if ¬ (batch.length : Int) < cfg.chunkCap then some (s.finish cfg c)
    else
      match s.getBatchMessage with
      | some (a, s) => some (s.collectChunk cfg batch seen a)
      | none => some (s.finish cfg c)

/-! ### The loop -/

/-- The loop of `start` on a message, up to the first look of a collector. -/
def begin (cfg : Config δ) (s : State δ) (a : Arrival δ) (now : ℚ) : State δ :=
  if s.isAborted a then s.drop a
  else
    match a.msg.type with
    | .newRequest =>
      if !cfg.hasBatchFn || cfg.maxBatchSize ≤ 1 then s.handleNewRequestBatch cfg [a]
      else
        match cfg.isStreamingPayload a.msg.data with
        | none => s.fail a
        | some true => s.handleNewRequestBatch cfg [a]
        | some false =>
          match cfg.messageCost a.msg with
          | none => s.fail a
          | some cost =>
            { s with
              collecting := some (.requests [a] cost (now + cfg.maxBatchWaitS) [] false) }
    | .streamChunk =>
      if cfg.canBatchStreamChunks then
        if cfg.chunkCap ≤ 1 then s.handleStreamChunkBatch cfg [a]
        else
          { s with
            collecting := some (.chunks [a]
              (if cfg.streamChunkBatchDistinctRequests then some [a.msg.requestId] else none)) }
      else s.handleStreamChunk cfg a
    | .streamDone => s.handle (.streamDone a)
    | _ => s.fail a

end State

/-- What can happen next: a message arrives, a request is aborted, an abort is forgotten, a payload is
latched or cleared, the loop takes a message, a collector looks, or its wait times out. -/
inductive Action (δ : Type)
  | put (msg : Incoming δ)
  | abort (requestId : String)
  | forget (requestId : String)
  | setPayloads (requestIds : List String)
  | take (now : ℚ)
  | look (now : ℚ)
  | timeOut

def step (cfg : Config δ) (s : State δ) : Action δ → Option (State δ)
  | .put msg =>
    let a : Arrival δ := { seq := s.arrivals.length, msg := msg }
    some { s with inbox := s.inbox ++ [a], arrivals := s.arrivals ++ [a] }
  | .abort requestId => some (s.abort requestId)
  | .forget requestId =>
    some { s with abortedRequestIds := s.abortedRequestIds.filter (· ≠ requestId) }
  | .setPayloads requestIds => some { s with streamPayloads := requestIds }
  | .take now =>
    match s.collecting with
    | some _ => none
    | none => s.getBatchMessage.map fun (a, s) => s.begin cfg a now
  | .look now => s.collecting.bind fun c => s.look cfg c now
  | .timeOut =>
    match s.collecting, s.getBatchMessage with
    | some (.requests batch batchCost deadline deferred true), none =>
      some (s.finish cfg (.requests batch batchCost deadline deferred true))
    | _, _ => none

def machine (cfg : Config δ) : Machine (State δ) (Action δ) where
  init := {}
  step := step cfg

/-! ### What handlers do -/

structure Config.Fits (cfg : Config δ) (batch : List (Arrival δ)) : Prop where
  size : batch.length ≤ cfg.maxBatchSize
  cost : batch.length ≤ 1 ∨ ∀ maxBatchCost ∈ cfg.maxBatchCost, cfg.totalCost batch ≤ maxBatchCost

def State.Known (s : State δ) : Prop := ∀ requestId ∈ s.abortedRequestIds, requestId ∈ s.everAborted

/-- Handlers made `calls`, and dropped `lost` for requests that are aborted. -/
structure Settled (s s' : State δ) (calls : List (Handled δ)) (lost : List (Arrival δ)) : Prop where
  handled : s'.handled = s.handled ++ calls
  dropped : s'.dropped = s.dropped ++ lost
  aborted : ∀ a ∈ lost, a.msg.requestId ∈ s'.everAborted
  ever : ∀ requestId ∈ s.everAborted, requestId ∈ s'.everAborted
  known : s'.Known
  inbox : s'.inbox = s.inbox
  pending : s'.pendingMessages = s.pendingMessages
  collecting : s'.collecting = s.collecting
  arrivals : s'.arrivals = s.arrivals
  found : s'.foundNoPayload = s.foundNoPayload

variable {cfg : Config δ} {s s' t : State δ}

theorem Settled.refl (h : s.Known) : Settled s s [] [] where
  handled := (List.append_nil _).symm
  dropped := (List.append_nil _).symm
  aborted := fun a ha => (by cases ha)
  ever := fun _ hid => hid
  known := h
  inbox := rfl
  pending := rfl
  collecting := rfl
  arrivals := rfl
  found := rfl

theorem Settled.trans {calls calls' : List (Handled δ)} {lost lost' : List (Arrival δ)}
    (h : Settled s t calls lost) (h' : Settled t s' calls' lost') :
    Settled s s' (calls ++ calls') (lost ++ lost') where
  handled := by rw [h'.handled, h.handled, List.append_assoc]
  dropped := by rw [h'.dropped, h.dropped, List.append_assoc]
  aborted := fun a ha => by
    rcases List.mem_append.mp ha with hold | hnew
    · exact h'.ever _ (h.aborted a hold)
    · exact h'.aborted a hnew
  ever := fun requestId hid => h'.ever _ (h.ever _ hid)
  known := h'.known
  inbox := h'.inbox.trans h.inbox
  pending := h'.pending.trans h.pending
  collecting := h'.collecting.trans h.collecting
  arrivals := h'.arrivals.trans h.arrivals
  found := h'.found.trans h.found

theorem State.mem_of_isAborted {a : Arrival δ} (h : s.isAborted a = true) :
    a.msg.requestId ∈ s.abortedRequestIds :=
  List.contains_iff_mem.mp h

theorem settled_drop (hs : s.Known) {a : Arrival δ} (ha : s.isAborted a = true) :
    Settled s (s.drop a) [] [a] where
  handled := (List.append_nil _).symm
  dropped := rfl
  aborted := fun b hb => by
    rw [List.mem_singleton.mp hb]
    exact hs _ (s.mem_of_isAborted ha)
  ever := fun _ hid => hid
  known := hs
  inbox := rfl
  pending := rfl
  collecting := rfl
  arrivals := rfl
  found := rfl

theorem settled_fail (hs : s.Known) (a : Arrival δ) : Settled s (s.fail a) [] [a] where
  handled := (List.append_nil _).symm
  dropped := rfl
  aborted := fun b hb => by
    rw [List.mem_singleton.mp hb]
    exact List.mem_cons_self
  ever := fun _ hid => List.mem_cons_of_mem _ hid
  known := fun requestId hid => by
    rcases List.mem_cons.mp hid with rfl | hold
    · exact List.mem_cons_self
    · exact List.mem_cons_of_mem _ (hs _ hold)
  inbox := rfl
  pending := rfl
  collecting := rfl
  arrivals := rfl
  found := rfl

theorem settled_handle (hs : s.Known) (call : Handled δ) : Settled s (s.handle call) [call] [] where
  handled := rfl
  dropped := (List.append_nil _).symm
  aborted := fun a ha => (by cases ha)
  ever := fun _ hid => hid
  known := hs
  inbox := rfl
  pending := rfl
  collecting := rfl
  arrivals := rfl
  found := rfl

theorem settled_drops (messages : List (Arrival δ)) (hs : s.Known)
    (h : ∀ a ∈ messages, s.isAborted a = true) :
    Settled s (messages.foldl State.drop s) [] messages := by
  induction messages generalizing s with
  | nil => exact .refl hs
  | cons a rest ih =>
    have hfirst : Settled s (s.drop a) [] [a] := settled_drop hs (h a List.mem_cons_self)
    apply hfirst.trans (ih hfirst.known ?_)
    intro b hb
    exact h b (List.mem_cons_of_mem _ hb)

/-- Some messages went through the handlers: each is handled in its place or dropped, and each batch is
within the limits. -/
def Taken (cfg : Config δ) (s s' : State δ) (messages : List (Arrival δ)) : Prop :=
  ∃ calls lost, Settled s s' calls lost ∧ (calls.flatMap Handled.messages).Sublist messages ∧
    (calls.flatMap Handled.messages ++ lost).Perm messages ∧
    ∀ batch, Handled.compute batch ∈ calls → cfg.Fits batch

theorem taken_lost {messages : List (Arrival δ)} (h : Settled s s' [] messages) :
    Taken cfg s s' messages :=
  ⟨[], messages, h, List.nil_sublist _, List.Perm.refl _, fun _ hbatch => (by cases hbatch)⟩

theorem taken_handle (hs : s.Known) (call : Handled δ)
    (hcall : ∀ batch, call = .compute batch → cfg.Fits batch) :
    Taken cfg s (s.handle call) call.messages := by
  refine ⟨[call], [], settled_handle hs call, ?_, ?_, fun batch hbatch => ?_⟩
  · rw [List.flatMap_singleton]
  · rw [List.flatMap_singleton, List.append_nil]
  · exact hcall batch (List.mem_singleton.mp hbatch).symm

theorem filter_perm (p : Arrival δ → Bool) (messages : List (Arrival δ)) :
    (messages.filter (fun a => !p a) ++ messages.filter p).Perm messages := by
  refine List.perm_append_comm.trans ?_
  exact List.filter_append_perm p messages

theorem taken_active (hs : s.Known) (messages : List (Arrival δ)) (call : List (Arrival δ) → Handled δ)
    (hmessages : ∀ batch, (call batch).messages = batch)
    (hfits : ∀ batch active, call active = .compute batch → active.Sublist messages → cfg.Fits batch) :
    Taken cfg s
      (let active := messages.filter fun a => !s.isAborted a
        let s := (messages.filter s.isAborted).foldl State.drop s
        if active.isEmpty then s else s.handle (call active)) messages := by
  have hdrops : Settled s ((messages.filter s.isAborted).foldl State.drop s) []
      (messages.filter s.isAborted) :=
    settled_drops _ hs fun a ha => (List.mem_filter.mp ha).2
  have hperm := filter_perm s.isAborted messages
  simp only
  split
  · next hempty =>
    rw [List.isEmpty_iff.mp hempty, List.nil_append] at hperm
    exact ⟨[], _, hdrops, List.nil_sublist _, hperm, fun _ hbatch => (by cases hbatch)⟩
  · refine ⟨[call (messages.filter fun a => !s.isAborted a)], messages.filter s.isAborted, ?_, ?_, ?_, ?_⟩
    · have hall := hdrops.trans (settled_handle hdrops.known (call (messages.filter fun a => !s.isAborted a)))
      rw [List.nil_append, List.append_nil] at hall
      exact hall
    · rw [List.flatMap_singleton, hmessages]
      exact List.filter_sublist
    · rw [List.flatMap_singleton, hmessages]
      exact hperm
    · intro batch hbatch
      exact hfits batch _ (List.mem_singleton.mp hbatch).symm List.filter_sublist

theorem Config.Fits.single (a : Arrival δ) : cfg.Fits [a] where
  size := cfg.maxBatchSize_pos
  cost := .inl (Nat.le_refl 1)

theorem Config.Fits.sublist {batch active : List (Arrival δ)} (h : cfg.Fits batch)
    (hactive : active.Sublist batch) : cfg.Fits active where
  size := Nat.le_trans hactive.length_le h.size
  cost := by
    rcases h.cost with hone | hcost
    · exact .inl (Nat.le_trans hactive.length_le hone)
    · refine .inr fun maxBatchCost hmax => Nat.le_trans ?_ (hcost maxBatchCost hmax)
      apply (hactive.map fun a => (cfg.messageCost a.msg).getD 0).sum_le_sum
      intro cost _
      exact Nat.zero_le cost

theorem taken_runNonStreamingBatch (hs : s.Known) {batch : List (Arrival δ)} (h : cfg.Fits batch) :
    Taken cfg s (s.runNonStreamingBatch batch) batch := by
  apply taken_active hs batch Handled.compute (fun _ => rfl)
  intro batch' active hcall hactive
  cases hcall
  exact h.sublist hactive

theorem taken_handleStreamingNewRequest (hs : s.Known) (a : Arrival δ) :
    Taken cfg s (s.handleStreamingNewRequest a) [a] := by
  unfold State.handleStreamingNewRequest
  split
  · next haborted => exact taken_lost (settled_drop hs haborted)
  · have hhandle := settled_handle hs (.streaming a)
    have hknown : ∀ requestId ∈ s.abortedRequestIds.filter (· ≠ a.msg.requestId),
        requestId ∈ s.everAborted := fun requestId hid => hs _ (List.mem_of_mem_filter hid)
    refine ⟨[Handled.streaming a], [], ⟨hhandle.handled, hhandle.dropped, hhandle.aborted, hhandle.ever,
      hknown, rfl, rfl, rfl, rfl, rfl⟩, ?_, ?_, fun batch hbatch => ?_⟩
    · exact List.Sublist.refl [a]
    · exact List.Perm.refl [a]
    · cases List.mem_singleton.mp hbatch

theorem taken_handleNewRequest (hs : s.Known) (a : Arrival δ) :
    Taken cfg s (s.handleNewRequestBatch cfg [a]) [a] := by
  unfold State.handleNewRequestBatch
  rcases hkind : cfg.isStreamingPayload a.msg.data with _ | (_ | _)
  · have hfail : Taken cfg s (s.fail a) [a] := taken_lost (settled_fail hs a)
    simpa [hkind, State.runNonStreamingBatch] using hfail
  · simpa [hkind] using taken_runNonStreamingBatch hs (.single a)
  · have hstreaming : Taken cfg s (s.handleStreamingNewRequest a) [a] :=
      taken_handleStreamingNewRequest hs a
    simpa [hkind, State.runNonStreamingBatch] using hstreaming

theorem taken_handleNewRequestBatch (hs : s.Known) {batch : List (Arrival δ)} (h : cfg.Fits batch)
    (hkind : ∀ a ∈ batch, cfg.isStreamingPayload a.msg.data = some false) :
    Taken cfg s (s.handleNewRequestBatch cfg batch) batch := by
  have hnone : batch.filter (fun a => cfg.isStreamingPayload a.msg.data = none) = [] := by
    rw [List.filter_eq_nil_iff]
    intro a ha
    simp [hkind a ha]
  have htrue : batch.filter (fun a => cfg.isStreamingPayload a.msg.data = some true) = [] := by
    rw [List.filter_eq_nil_iff]
    intro a ha
    simp [hkind a ha]
  have hfalse : batch.filter (fun a => cfg.isStreamingPayload a.msg.data = some false) = batch := by
    rw [List.filter_eq_self]
    intro a ha
    simp [hkind a ha]
  unfold State.handleNewRequestBatch
  simp only [hnone, htrue, hfalse, List.foldl_nil]
  exact taken_runNonStreamingBatch hs h

theorem settled_chunkItems (cfg : Config δ) (messages : List (Arrival δ)) (hs : s.Known) : ∃ lost,
    Settled s (s.chunkItems cfg messages).1 [] lost ∧
      (s.chunkItems cfg messages).2.Sublist messages ∧
      ((s.chunkItems cfg messages).2 ++ lost).Perm messages := by
  induction messages generalizing s with
  | nil => exact ⟨[], .refl hs, List.Sublist.refl _, List.Perm.refl _⟩
  | cons a rest ih =>
    have hlost {t : State δ} (hfirst : Settled s t [] [a]) : ∃ lost,
        Settled s (t.chunkItems cfg rest).1 [] lost ∧
          (t.chunkItems cfg rest).2.Sublist (a :: rest) ∧
          ((t.chunkItems cfg rest).2 ++ lost).Perm (a :: rest) := by
      obtain ⟨lost, hrest, hsub, hperm⟩ := ih hfirst.known
      refine ⟨a :: lost, hfirst.trans hrest, hsub.cons a, ?_⟩
      exact List.perm_middle.trans (hperm.cons a)
    unfold State.chunkItems
    split
    · next haborted => exact hlost (settled_drop hs haborted)
    · split
      · exact hlost (settled_fail hs a)
      · obtain ⟨lost, hrest, hsub, hperm⟩ := ih hs
        exact ⟨lost, hrest, hsub.cons_cons a, hperm.cons a⟩

theorem taken_handleStreamChunkBatch (hs : s.Known) (batch : List (Arrival δ)) :
    Taken cfg s (s.handleStreamChunkBatch cfg batch) batch := by
  obtain ⟨lost, hitems, hsub, hperm⟩ := settled_chunkItems cfg batch hs
  have htaken : Taken cfg _ (s.handleStreamChunkBatch cfg batch) (s.chunkItems cfg batch).2 :=
    taken_active hitems.known _ Handled.chunks (fun _ => rfl) fun _ _ hcall => (by cases hcall)
  obtain ⟨calls, lost', hactive, hsub', hperm', hfits⟩ := htaken
  refine ⟨calls, lost ++ lost', hitems.trans hactive, hsub'.trans hsub, ?_, hfits⟩
  refine List.Perm.trans ?_ hperm
  refine List.Perm.trans ?_ (hperm'.append_right lost)
  rw [List.append_assoc]
  exact List.perm_append_comm.append_left _

theorem taken_handleStreamChunk (hs : s.Known) (a : Arrival δ) :
    Taken cfg s (s.handleStreamChunk cfg a) [a] := by
  unfold State.handleStreamChunk
  split
  · exact taken_handle hs (.chunks [a]) fun batch hbatch => (by cases hbatch)
  · exact taken_lost (settled_fail hs a)

/-! ### Invariants -/

/-- The messages that are not through yet, in the order in which they are due. -/
def waitingOf (c : Option (Collecting δ)) (pending inbox : List (Arrival δ)) : List (Arrival δ) :=
  (c.elim [] fun c => c.batch ++ c.deferred) ++ (pending ++ inbox)

def State.waiting (s : State δ) : List (Arrival δ) :=
  waitingOf s.collecting s.pendingMessages s.inbox

/-- The messages that handlers got, in order, and those that still wait. -/
def State.inOrder (s : State δ) : List (Arrival δ) :=
  s.handled.flatMap Handled.messages ++ s.waiting

/-- A non-streaming `new_request` before a `stream_done` that found no payload. -/
def Config.Overtakes (cfg : Config δ) (foundNoPayload : List Nat) (a b : Arrival δ) : Prop :=
  (a.msg.type = .newRequest ∧ cfg.isStreamingPayload a.msg.data = some false) ∧
    b.msg.type = .streamDone ∧ b.seq ∈ foundNoPayload

/-- What a call of `collect_new_request_batch` has: non-streaming requests within the limits, and
`stream_done`s that found no payload. -/
structure Config.Collects (cfg : Config δ) (foundNoPayload : List Nat) (batch : List (Arrival δ))
    (batchCost : Nat) (deferred : List (Arrival δ)) : Prop where
  requests : ∀ a ∈ batch,
    a.msg.type = .newRequest ∧ cfg.isStreamingPayload a.msg.data = some false
  fits : cfg.Fits batch
  cost : cfg.maxBatchCost.isSome = true → batchCost = cfg.totalCost batch
  dones : ∀ d ∈ deferred, d.msg.type = .streamDone ∧ d.seq ∈ foundNoPayload

/-- `Config.Collects` for a call that collects requests. -/
def Config.Hand (cfg : Config δ) (foundNoPayload : List Nat) : Option (Collecting δ) → Prop
  | some (.requests batch batchCost _ deferred _) =>
    cfg.Collects foundNoPayload batch batchCost deferred
  | _ => True

/-- Every arrival is handled, waits or was dropped for an aborted request, in the order of arrival up to
the `stream_done`s that may be overtaken. -/
structure Kept (cfg : Config δ) (s : State δ) : Prop where
  once : (s.inOrder ++ s.dropped).Perm s.arrivals
  numbered : s.arrivals.map Arrival.seq = List.range s.arrivals.length
  order : s.inOrder.Pairwise fun a b => a.seq < b.seq ∨ cfg.Overtakes s.foundNoPayload a b
  aborted : ∀ a ∈ s.dropped, a.msg.requestId ∈ s.everAborted
  known : s.Known
  fits : ∀ batch, Handled.compute batch ∈ s.handled → cfg.Fits batch
  hand : cfg.Hand s.foundNoPayload s.collecting

theorem Kept.initial : Kept cfg {} where
  once := List.Perm.refl _
  numbered := rfl
  order := List.Pairwise.nil
  aborted := fun a ha => (by cases ha)
  known := fun requestId hid => (by cases hid)
  fits := fun batch hbatch => (by cases hbatch)
  hand := trivial

theorem Kept.settle (h : Kept cfg s) {pending inbox : List (Arrival δ)} {c : Option (Collecting δ)}
    {calls : List (Handled δ)} {lost : List (Arrival δ)}
    (hs : Settled { s with inbox := inbox, pendingMessages := pending, collecting := c } s' calls lost)
    (hsub : (calls.flatMap Handled.messages ++ waitingOf c pending inbox).Sublist s.waiting)
    (hperm : (calls.flatMap Handled.messages ++ waitingOf c pending inbox ++ lost).Perm s.waiting)
    (hfits : ∀ batch, Handled.compute batch ∈ calls → cfg.Fits batch)
    (hhand : cfg.Hand s.foundNoPayload c) : Kept cfg s' := by
  have hwaiting : s'.waiting = waitingOf c pending inbox := by
    rw [State.waiting, hs.inbox, hs.pending, hs.collecting]
  have hinOrder : s'.inOrder = s.handled.flatMap Handled.messages ++
      (calls.flatMap Handled.messages ++ waitingOf c pending inbox) := by
    rw [State.inOrder, hwaiting, hs.handled, List.flatMap_append, List.append_assoc]
  refine ⟨?_, ?_, ?_, ?_, hs.known, ?_, ?_⟩
  · rw [hinOrder, hs.dropped, hs.arrivals]
    have hmoved : (calls.flatMap Handled.messages ++ waitingOf c pending inbox ++
        (s.dropped ++ lost)).Perm (s.waiting ++ s.dropped) := by
      refine List.Perm.trans ?_ (hperm.append_right s.dropped)
      rw [List.append_assoc _ lost]
      exact List.perm_append_comm.append_left _
    rw [List.append_assoc]
    refine (hmoved.append_left _).trans ?_
    rw [← List.append_assoc]
    exact h.once
  · rw [hs.arrivals]
    exact h.numbered
  · rw [hinOrder, hs.found]
    exact h.order.sublist (hsub.append_left _)
  · intro a ha
    rw [hs.dropped] at ha
    rcases List.mem_append.mp ha with hold | hnew
    · exact hs.ever _ (h.aborted a hold)
    · exact hs.aborted a hnew
  · intro batch hbatch
    rw [hs.handled] at hbatch
    rcases List.mem_append.mp hbatch with hold | hnew
    · exact h.fits batch hold
    · exact hfits batch hnew
  · rw [hs.found, hs.collecting]
    exact hhand

theorem Kept.taken (h : Kept cfg s) (pending inbox messages : List (Arrival δ))
    (hs : Taken cfg { s with inbox := inbox, pendingMessages := pending, collecting := none } s'
      messages) (hwaiting : s.waiting = messages ++ (pending ++ inbox)) : Kept cfg s' := by
  obtain ⟨calls, lost, hsettled, hsub, hperm, hfits⟩ := hs
  apply h.settle hsettled
  · rw [hwaiting]
    exact hsub.append_right _
  · rw [hwaiting]
    refine List.Perm.trans ?_ (hperm.append_right _)
    rw [List.append_assoc, List.append_assoc]
    exact List.perm_append_comm.append_left _
  · exact hfits
  · trivial

theorem Kept.lose (h : Kept cfg s) {pending inbox before after : List (Arrival δ)}
    {c : Option (Collecting δ)} {a : Arrival δ}
    (hs : Settled { s with inbox := inbox, pendingMessages := pending, collecting := c } s' [] [a])
    (hwaiting : s.waiting = before ++ a :: after) (hafter : waitingOf c pending inbox = before ++ after)
    (hhand : cfg.Hand s.foundNoPayload c) : Kept cfg s' := by
  apply h.settle hs
  · rw [hwaiting, hafter]
    exact (List.sublist_cons_self a after).append_left before
  · rw [hwaiting, hafter, List.flatMap_nil, List.nil_append, List.append_assoc]
    exact (List.perm_append_singleton a after).append_left before
  · exact fun batch hbatch => (by cases hbatch)
  · exact hhand

theorem Kept.move (h : Kept cfg s) {pending inbox : List (Arrival δ)} {c : Option (Collecting δ)}
    (hwaiting : waitingOf c pending inbox = s.waiting) (hhand : cfg.Hand s.foundNoPayload c) :
    Kept cfg { s with inbox := inbox, pendingMessages := pending, collecting := c } := by
  refine h.settle (Settled.refl h.known) ?_ ?_ (fun batch hbatch => (by cases hbatch)) hhand
  · rw [hwaiting]
    exact List.Sublist.refl _
  · rw [hwaiting, List.append_nil]
    exact List.Perm.refl _

theorem Kept.overtake (h : Kept cfg s) {pending inbox before dones after : List (Arrival δ)}
    {c : Option (Collecting δ)} {a : Arrival δ} (hwaiting : s.waiting = before ++ dones ++ a :: after)
    (hnew : waitingOf c pending inbox = before ++ [a] ++ dones ++ after)
    (hover : ∀ d ∈ dones, cfg.Overtakes s.foundNoPayload a d)
    (hhand : cfg.Hand s.foundNoPayload c) :
    Kept cfg { s with inbox := inbox, pendingMessages := pending, collecting := c } where
  once := by
    have hmoved : (waitingOf c pending inbox).Perm s.waiting := by
      rw [hwaiting, hnew, List.append_assoc, List.append_assoc, List.append_assoc]
      apply List.Perm.append_left
      show (a :: (dones ++ after)).Perm (dones ++ a :: after)
      exact List.perm_middle.symm
    exact ((hmoved.append_left _).append_right _).trans h.once
  numbered := h.numbered
  order := by
    have horder := h.order
    rw [State.inOrder, hwaiting] at horder
    show List.Pairwise _ (s.handled.flatMap Handled.messages ++ waitingOf c pending inbox)
    rw [hnew]
    simp only [List.pairwise_append, List.pairwise_cons, List.mem_append, List.mem_cons] at horder ⊢
    grind
  aborted := h.aborted
  known := h.known
  fits := h.fits
  hand := hhand

theorem Kept.find (h : Kept cfg s) (seq : Nat) :
    Kept cfg { s with foundNoPayload := seq :: s.foundNoPayload } where
  once := h.once
  numbered := h.numbered
  order := by
    refine h.order.imp fun {a b} hab => hab.imp_right fun hover => ?_
    exact ⟨hover.1, hover.2.1, List.mem_cons_of_mem _ hover.2.2⟩
  aborted := h.aborted
  known := h.known
  fits := h.fits
  hand := by
    have hhand := h.hand
    show cfg.Hand (seq :: s.foundNoPayload) s.collecting
    rcases hc : s.collecting with _ | (⟨batch, batchCost, deadline, deferred, isWaiting⟩ | _)
    · trivial
    · rw [hc] at hhand
      have hcollects : cfg.Collects s.foundNoPayload batch batchCost deferred := hhand
      refine ⟨hcollects.requests, hcollects.fits, hcollects.cost, fun d hd => ?_⟩
      exact (hcollects.dones d hd).imp_right (List.mem_cons_of_mem _)
    · trivial

theorem Kept.put (h : Kept cfg s) (msg : Incoming δ) : Kept cfg
    { s with
      inbox := s.inbox ++ [{ seq := s.arrivals.length, msg := msg }]
      arrivals := s.arrivals ++ [{ seq := s.arrivals.length, msg := msg }] } := by
  have hinOrder (a : Arrival δ) : s.handled.flatMap Handled.messages ++
      waitingOf s.collecting s.pendingMessages (s.inbox ++ [a]) = s.inOrder ++ [a] := by
    simp only [State.inOrder, State.waiting, waitingOf, List.append_assoc]
  refine ⟨?_, ?_, ?_, h.aborted, h.known, h.fits, h.hand⟩
  · show (s.handled.flatMap Handled.messages ++
      waitingOf s.collecting s.pendingMessages (s.inbox ++ [_]) ++ s.dropped).Perm _
    rw [hinOrder, List.append_assoc]
    refine List.Perm.trans ?_ (h.once.append_right _)
    rw [List.append_assoc]
    exact List.perm_append_comm.append_left _
  · show (s.arrivals ++ [_]).map Arrival.seq = List.range (s.arrivals ++ [_]).length
    rw [List.map_append, h.numbered, List.length_append, List.length_singleton, List.range_succ]
    rfl
  · show List.Pairwise _ (s.handled.flatMap Handled.messages ++
      waitingOf s.collecting s.pendingMessages (s.inbox ++ [_]))
    rw [hinOrder, List.pairwise_append]
    refine ⟨h.order, List.pairwise_singleton _ _, fun a ha b hb => .inl ?_⟩
    rw [List.mem_singleton.mp hb]
    have hmem : a.seq ∈ s.arrivals.map Arrival.seq :=
      List.mem_map_of_mem (h.once.subset (List.mem_append_left _ ha))
    rw [h.numbered] at hmem
    exact List.mem_range.mp hmem

theorem Kept.abort (h : Kept cfg s) (requestId : String) : Kept cfg (s.abort requestId) where
  once := h.once
  numbered := h.numbered
  order := h.order
  aborted := fun a ha => List.mem_cons_of_mem _ (h.aborted a ha)
  known := fun other hother => by
    rcases List.mem_cons.mp hother with rfl | hold
    · exact List.mem_cons_self
    · exact List.mem_cons_of_mem _ (h.known other hold)
  fits := h.fits
  hand := h.hand

theorem getBatchMessage_spec {a : Arrival δ} (h : s.getBatchMessage = some (a, s')) :
    ∃ pending inbox, s' = { s with pendingMessages := pending, inbox := inbox } ∧
      s.pendingMessages ++ s.inbox = a :: (pending ++ inbox) := by
  unfold State.getBatchMessage at h
  split at h
  · next first rest hpending =>
    cases h
    exact ⟨rest, s.inbox, rfl, by rw [hpending]; rfl⟩
  · next hpending =>
    split at h
    · next first rest hinbox =>
      cases h
      refine ⟨s.pendingMessages, rest, rfl, ?_⟩
      rw [hpending, hinbox]
      rfl
    · cases h

theorem Kept.finishRequests (h : Kept cfg s) {batch deferred pending inbox : List (Arrival δ)}
    (hfits : cfg.Fits batch)
    (hkind : ∀ a ∈ batch, cfg.isStreamingPayload a.msg.data = some false)
    (hwaiting : s.waiting = batch ++ (deferred ++ (pending ++ inbox)))
    (batchCost : Nat) (deadline : ℚ) (isWaiting : Bool) :
    Kept cfg (State.finish cfg { s with pendingMessages := pending, inbox := inbox }
      (.requests batch batchCost deadline deferred isWaiting)) := by
  apply h.taken (deferred ++ pending) inbox batch
  · refine taken_handleNewRequestBatch ?_ hfits hkind
    exact h.known
  · rw [hwaiting, List.append_assoc]

theorem Config.Collects.add {found : List Nat} {batch deferred : List (Arrival δ)}
    {batchCost : Nat} (h : cfg.Collects found batch batchCost deferred) {a : Arrival δ} (msgCost : Nat)
    (hnew : a.msg.type = .newRequest) (hkind : cfg.isStreamingPayload a.msg.data = some false)
    (hroom : batch.length < cfg.maxBatchSize)
    (hcost : ∀ maxBatchCost ∈ cfg.maxBatchCost,
      cfg.messageCost a.msg = some msgCost ∧ batchCost + msgCost ≤ maxBatchCost) :
    cfg.Collects found (batch ++ [a]) (batchCost + msgCost) deferred := by
  have htotal : ∀ maxBatchCost ∈ cfg.maxBatchCost,
      batchCost + msgCost = cfg.totalCost (batch ++ [a]) := by
    intro maxBatchCost hmax
    have hbatch := h.cost (by rw [Option.mem_def.mp hmax]; rfl)
    rw [Config.totalCost, List.map_append, List.sum_append, List.map_singleton, List.sum_singleton,
      (hcost maxBatchCost hmax).1, Option.getD_some, hbatch]
    rfl
  refine ⟨fun b hb => ?_, ⟨?_, .inr fun maxBatchCost hmax => ?_⟩, fun hsome => ?_, h.dones⟩
  · rcases List.mem_append.mp hb with hold | hlast
    · exact h.requests b hold
    · rw [List.mem_singleton.mp hlast]
      exact ⟨hnew, hkind⟩
  · rw [List.length_append, List.length_singleton]
    exact hroom
  · rw [← htotal maxBatchCost hmax]
    exact (hcost maxBatchCost hmax).2
  · obtain ⟨maxBatchCost, hmax⟩ := Option.isSome_iff_exists.mp hsome
    exact htotal maxBatchCost hmax

theorem Kept.collectRequest (h : Kept cfg s) {batch deferred pending inbox : List (Arrival δ)}
    {batchCost : Nat} {deadline : ℚ} {isWaiting : Bool} {a : Arrival δ}
    (hc : s.collecting = some (.requests batch batchCost deadline deferred isWaiting))
    (hroom : batch.length < cfg.maxBatchSize)
    (hqueues : s.pendingMessages ++ s.inbox = a :: (pending ++ inbox)) :
    Kept cfg (State.collectRequest cfg { s with pendingMessages := pending, inbox := inbox }
      batch batchCost deadline deferred a) := by
  have hwaiting : s.waiting = batch ++ deferred ++ a :: (pending ++ inbox) := by
    rw [State.waiting, waitingOf, hc, hqueues]
    rfl
  have hhand : cfg.Collects s.foundNoPayload batch batchCost deferred := by
    have hhand := h.hand
    rw [hc] at hhand
    exact hhand
  -- The message is dropped and the loop goes on.
  have hlose {t : State δ} (ht : Settled
      { s with
        inbox := inbox
        pendingMessages := pending
        collecting := some (.requests batch batchCost deadline deferred false) } t [] [a]) :
      Kept cfg t := h.lose ht hwaiting rfl hhand
  -- The message is put aside and the loop ends.
  have hfinish : Kept cfg (State.finish cfg { s with pendingMessages := pending, inbox := inbox }
      (.requests batch batchCost deadline (deferred ++ [a]) false)) := by
    refine h.finishRequests hhand.fits (fun b hb => (hhand.requests b hb).2) ?_ _ _ _
    rw [hwaiting, List.append_assoc, List.append_assoc]
    rfl
  -- The message joins the batch and overtakes what was put aside.
  have hjoin (hnew : a.msg.type = .newRequest)
      (hkind : cfg.isStreamingPayload a.msg.data = some false) {cost : Nat}
      (hcollects : cfg.Collects s.foundNoPayload (batch ++ [a]) cost deferred) :
      Kept cfg
        { s with
          inbox := inbox
          pendingMessages := pending
          collecting := some (.requests (batch ++ [a]) cost deadline deferred false) } :=
    h.overtake hwaiting rfl (fun d hd => ⟨⟨hnew, hkind⟩, hhand.dones d hd⟩) hcollects
  unfold State.collectRequest
  simp only
  split
  · next haborted =>
    refine hlose (settled_drop ?_ haborted)
    exact h.known
  · split
    · split
      · next hdone =>
        apply (h.find a.seq).move
        · show batch ++ (deferred ++ [a]) ++ (pending ++ inbox) = s.waiting
          rw [hwaiting, List.append_assoc, List.append_assoc, List.append_assoc]
          rfl
        · refine ⟨hhand.requests, hhand.fits, hhand.cost, fun d hd => ?_⟩
          rcases List.mem_append.mp hd with hold | hlast
          · exact (hhand.dones d hold).imp_right (List.mem_cons_of_mem _)
          · rw [List.mem_singleton.mp hlast]
            exact ⟨hdone.1, List.mem_cons_self⟩
      · exact hfinish
    · next hnew =>
      have hnew : a.msg.type = .newRequest := not_not.mp hnew
      split
      · refine hlose (settled_fail ?_ a)
        exact h.known
      · exact hfinish
      · next hkind =>
        split
        · next hmax =>
          apply hjoin hnew hkind
          refine hhand.add 0 hnew hkind hroom fun maxBatchCost hsome => ?_
          rw [hmax] at hsome
          cases hsome
        · next maxBatchCost hmax =>
          split
          · refine hlose (settled_fail ?_ a)
            exact h.known
          · next msgCost hcost =>
            split
            · exact hfinish
            · next hunder =>
              apply hjoin hnew hkind
              refine hhand.add msgCost hnew hkind hroom fun other hsome => ?_
              rw [hmax] at hsome
              cases hsome
              exact ⟨hcost, Nat.le_of_not_lt hunder⟩

theorem Kept.collectChunk (h : Kept cfg s) {batch pending inbox : List (Arrival δ)}
    {seen : Option (List String)} {a : Arrival δ} (hc : s.collecting = some (.chunks batch seen))
    (hqueues : s.pendingMessages ++ s.inbox = a :: (pending ++ inbox)) :
    Kept cfg (State.collectChunk cfg { s with pendingMessages := pending, inbox := inbox }
      batch seen a) := by
  have hwaiting : s.waiting = batch ++ a :: (pending ++ inbox) := by
    rw [State.waiting, waitingOf, hc, hqueues]
    show batch ++ [] ++ _ = _
    rw [List.append_nil]
  -- The message goes back to the front and the loop ends.
  have hback : Kept cfg (State.finish cfg
      { s with pendingMessages := a :: pending, inbox := inbox } (.chunks batch seen)) := by
    apply h.taken (a :: pending) inbox batch
    · refine taken_handleStreamChunkBatch ?_ batch
      exact h.known
    · exact hwaiting
  unfold State.collectChunk
  simp only
  split
  · exact hback
  · split
    · next haborted =>
      refine h.lose (c := some (.chunks batch seen)) (settled_drop (a := a) ?_ haborted) hwaiting ?_ trivial
      · exact h.known
      · show batch ++ [] ++ (pending ++ inbox) = batch ++ (pending ++ inbox)
        rw [List.append_nil]
    · split
      · exact hback
      · apply h.move
        · show batch ++ [a] ++ [] ++ (pending ++ inbox) = s.waiting
          rw [hwaiting, List.append_nil, List.append_assoc]
          rfl
        · trivial

theorem Kept.finish (h : Kept cfg s) {c : Collecting δ} (hc : s.collecting = some c) :
    Kept cfg (s.finish cfg c) := by
  have hhand := h.hand
  rw [hc] at hhand
  cases c with
  | requests batch batchCost deadline deferred isWaiting =>
    have hcollects : cfg.Collects s.foundNoPayload batch batchCost deferred := hhand
    refine h.finishRequests hcollects.fits (fun a ha => (hcollects.requests a ha).2) ?_ _ _ _
    rw [State.waiting, waitingOf, hc, ← List.append_assoc batch]
    rfl
  | chunks batch seen =>
    apply h.taken s.pendingMessages s.inbox batch
    · refine taken_handleStreamChunkBatch ?_ batch
      exact h.known
    · rw [State.waiting, waitingOf, hc]
      show batch ++ [] ++ _ = _
      rw [List.append_nil]

theorem Kept.look (h : Kept cfg s) {c : Collecting δ} (hc : s.collecting = some c) {now : ℚ}
    (hlook : s.look cfg c now = some s') : Kept cfg s' := by
  cases c with
  | requests batch batchCost deadline deferred isWaiting =>
    simp only [State.look] at hlook
    split at hlook
    · cases hlook
      exact h.finish hc
    · next hroom =>
      split at hlook
      · next a rest hnext =>
        cases hlook
        obtain ⟨pending, inbox, rfl, hqueues⟩ := getBatchMessage_spec hnext
        exact h.collectRequest hc (not_not.mp hroom) hqueues
      · split at hlook
        · cases hlook
        · split at hlook
          · cases hlook
            exact h.finish hc
          · cases hlook
            have hhand := h.hand
            rw [hc] at hhand
            apply h.move
            · rw [State.waiting, hc]
              rfl
            · exact hhand
  | chunks batch seen =>
    simp only [State.look] at hlook
    split at hlook
    · cases hlook
      exact h.finish hc
    · split at hlook
      · next a rest hnext =>
        cases hlook
        obtain ⟨pending, inbox, rfl, hqueues⟩ := getBatchMessage_spec hnext
        exact h.collectChunk hc hqueues
      · cases hlook
        exact h.finish hc

theorem Kept.begin (h : Kept cfg s) (hidle : s.collecting = none)
    {pending inbox : List (Arrival δ)} {a : Arrival δ}
    (hqueues : s.pendingMessages ++ s.inbox = a :: (pending ++ inbox)) (now : ℚ) :
    Kept cfg (State.begin cfg { s with pendingMessages := pending, inbox := inbox } a now) := by
  have hwaiting : s.waiting = [a] ++ (pending ++ inbox) := by
    rw [State.waiting, waitingOf, hidle, hqueues]
    rfl
  have hsame : { s with pendingMessages := pending, inbox := inbox } =
      { s with inbox := inbox, pendingMessages := pending, collecting := none } := by
    rw [← hidle]
  have htaken {t : State δ} (ht : Taken cfg
      { s with inbox := inbox, pendingMessages := pending, collecting := none } t [a]) :
      Kept cfg t := h.taken _ _ _ ht hwaiting
  have hcollect {c : Collecting δ} (hmessages : c.batch ++ c.deferred = [a])
      (hhand : cfg.Hand s.foundNoPayload (some c)) : Kept cfg
        { s with
          inbox := inbox
          pendingMessages := pending
          collecting := some c } := by
    refine h.move ?_ hhand
    rw [hwaiting, ← hmessages]
    rfl
  rw [hsame]
  unfold State.begin
  split
  · next haborted =>
    refine htaken (taken_lost (settled_drop ?_ haborted))
    exact h.known
  · split
    · next hnew =>
      split
      · refine htaken (taken_handleNewRequest ?_ a)
        exact h.known
      · split
        · refine htaken (taken_lost (settled_fail ?_ a))
          exact h.known
        · refine htaken (taken_handleNewRequest ?_ a)
          exact h.known
        · next hkind =>
          split
          · refine htaken (taken_lost (settled_fail ?_ a))
            exact h.known
          · next cost hcost =>
            refine hcollect rfl ⟨fun b hb => ?_, .single a, fun _ => ?_, fun d hd => (by cases hd)⟩
            · rw [List.mem_singleton.mp hb]
              exact ⟨hnew, hkind⟩
            · rw [Config.totalCost, List.map_singleton, List.sum_singleton, hcost, Option.getD_some]
    · split
      · split
        · refine htaken (taken_handleStreamChunkBatch ?_ [a])
          exact h.known
        · exact hcollect rfl trivial
      · refine htaken (taken_handleStreamChunk ?_ a)
        exact h.known
    · refine htaken (taken_handle ?_ (.streamDone a) fun batch hbatch => (by cases hbatch))
      exact h.known
    · refine htaken (taken_lost (settled_fail ?_ a))
      exact h.known

theorem Kept.step {action : Action δ} (h : Kept cfg s) (hs : step cfg s action = some s') :
    Kept cfg s' := by
  cases action with
  | put msg =>
    cases hs
    exact h.put msg
  | abort requestId =>
    cases hs
    exact h.abort requestId
  | forget requestId =>
    cases hs
    exact ⟨h.once, h.numbered, h.order, h.aborted,
      fun other hother => h.known other (List.mem_of_mem_filter hother), h.fits, h.hand⟩
  | setPayloads requestIds =>
    cases hs
    exact ⟨h.once, h.numbered, h.order, h.aborted, h.known, h.fits, h.hand⟩
  | take now =>
    simp only [Streaming.step] at hs
    split at hs
    · cases hs
    · next hidle =>
      obtain ⟨⟨a, rest⟩, hnext, rfl⟩ := Option.map_eq_some_iff.mp hs
      obtain ⟨pending, inbox, rfl, hqueues⟩ := getBatchMessage_spec hnext
      exact h.begin hidle hqueues now
  | look now =>
    obtain ⟨c, hc, hlook⟩ := Option.bind_eq_some_iff.mp hs
    exact h.look hc hlook
  | timeOut =>
    simp only [Streaming.step] at hs
    split at hs
    · next hc _ =>
      cases hs
      exact h.finish hc
    · cases hs

def Action.isLoop : Action δ → Bool
  | .take _ => true
  | .look _ => true
  | .timeOut => true
  | _ => false

theorem look_or_timeOut (cfg : Config δ) {c : Collecting δ} (hc : s.collecting = some c) (now : ℚ) :
    (step cfg s (.look now)).isSome = true ∨ (step cfg s .timeOut).isSome = true := by
  cases c with
  | requests batch batchCost deadline deferred isWaiting =>
    cases isWaiting with
    | false =>
      refine .inl ?_
      simp only [Streaming.step, hc, Option.bind_some, State.look]
      split
      · rfl
      · split
        · rfl
        · rw [if_neg Bool.false_ne_true]
          split <;> rfl
    | true =>
      cases hnext : s.getBatchMessage with
      | none =>
        refine .inr ?_
        simp only [Streaming.step, hc, hnext]
        rfl
      | some next =>
        refine .inl ?_
        simp only [Streaming.step, hc, Option.bind_some, State.look, hnext]
        split <;> rfl
  | chunks batch seen =>
    refine .inl ?_
    simp only [Streaming.step, hc, Option.bind_some, State.look]
    split
    · rfl
    · split <;> rfl

theorem not_stuck (h : s.waiting ≠ []) :
    ∃ action : Action δ, action.isLoop = true ∧ (step cfg s action).isSome = true := by
  cases hc : s.collecting with
  | some c =>
    rcases look_or_timeOut cfg hc 0 with hlook | htimeOut
    · exact ⟨.look 0, rfl, hlook⟩
    · exact ⟨.timeOut, rfl, htimeOut⟩
  | none =>
    refine ⟨.take 0, rfl, ?_⟩
    have hqueues : s.pendingMessages ++ s.inbox ≠ [] := by
      intro hempty
      apply h
      rw [State.waiting, waitingOf, hc, hempty]
      rfl
    simp only [Streaming.step, hc, Option.isSome_map, State.getBatchMessage]
    split
    · rfl
    · next hpending =>
      split
      · rfl
      · next hinbox =>
        rw [hpending, hinbox] at hqueues
        exact absurd rfl hqueues

/-- In every run each arrival is in one place: it was handled, waits, or was dropped for an aborted
request; while one waits the loop can go on.  Messages are handled in the order of arrival, except that a
non-streaming `new_request` may overtake `stream_done`s that found no payload, and every non-streaming
batch is within the limits. -/
theorem chunks_in_order (h : (machine cfg).Reaches Machine.anyAction s) :
    (s.handled.flatMap Handled.messages ++ s.waiting ++ s.dropped).Perm s.arrivals ∧
      s.arrivals.map Arrival.seq = List.range s.arrivals.length ∧
      (∀ a ∈ s.dropped, a.msg.requestId ∈ s.everAborted) ∧
      (s.waiting ≠ [] → ∃ action : Action δ, action.isLoop = true ∧ (step cfg s action).isSome = true) ∧
      ((s.handled.flatMap Handled.messages ++ s.waiting).Pairwise fun a b =>
        a.seq < b.seq ∨ cfg.Overtakes s.foundNoPayload a b) ∧
      ∀ batch, Handled.compute batch ∈ s.handled → cfg.Fits batch := by
  have hkept : Kept cfg s := h.invariant .initial fun _ _ _ hs _ hstep => hs.step hstep
  exact ⟨hkept.once, hkept.numbered, hkept.aborted, not_stuck, hkept.order, hkept.fits⟩

theorem three_in_batch : 1 ≤ 3 := by decide

/-- Batches of at most three requests that cost at most four together; data are costs, a request of cost
zero streams, and chunks are batched. -/
def threeRequests : Config Nat where
  hasBatchFn := true
  maxBatchSize := 3
  maxBatchSize_pos := three_in_batch
  maxBatchWaitS := 1
  requestCostFn := some fun cost => some cost
  maxBatchCost := some 4
  isStreamingPayload := fun cost => some (cost = 0)
  isStreamItem := fun _ => true
  canBatchStreamChunks := true
  streamChunkBatchMax := none
  streamChunkBatchDistinctRequests := true

/-- Three requests interleave: the `stream_done` of `c` is overtaken, and the chunk of `b` is not. -/
def interleaved : List (Action Nat) :=
  [.put ⟨"a", .newRequest, 1⟩, .put ⟨"c", .streamDone, 0⟩, .put ⟨"c", .newRequest, 2⟩,
    .put ⟨"b", .streamChunk, 0⟩, .put ⟨"d", .newRequest, 1⟩, .take 0, .look 0, .look 0, .look 0,
    .take 0, .take 0, .look 0, .take 0, .abort "d", .look 2]

def afterInterleaved : Option (State Nat) := (machine threeRequests).exec {} interleaved

theorem chunks_in_order_interleaved : ∃ s, afterInterleaved = some s ∧
    s.handled.map (fun call => call.messages.map Arrival.seq) = [[0, 2], [1], [3]] ∧
    s.dropped.map Arrival.seq = [4] ∧
    (s.handled.flatMap Handled.messages ++ s.waiting ++ s.dropped).Perm s.arrivals := by
  obtain ⟨s, hs⟩ : ∃ s, afterInterleaved = some s := Option.isSome_iff_exists.mp (by decide +kernel)
  have hrun : afterInterleaved.map (fun s =>
      (s.handled.map fun call => call.messages.map Arrival.seq, s.dropped.map Arrival.seq)) =
      some ([[0, 2], [1], [3]], [4]) := by
    decide +kernel
  rw [hs] at hrun
  obtain ⟨hhandled, hdropped⟩ := Prod.mk.inj (Option.some.inj hrun)
  exact ⟨s, hs, hhandled, hdropped, (chunks_in_order (Machine.path_of_exec hs)).1⟩

end Simple.Streaming
