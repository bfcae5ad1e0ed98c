import Mathlib.Algebra.GroupWithZero.Nat
import Mathlib.Algebra.Order.Ring.Rat
import SglangOmni.Lib.Machine
import SglangOmni.Simple.Message

/-! `SimpleScheduler`: the serial loop that takes a message and collects a batch with it.  Messages
arrive at any moment, and so a look at the inbox is a step of its own; times are those of
`time.monotonic`. -/

namespace Simple

open Lib

variable {δ : Type}

/-- The fixed part of a `SimpleScheduler`. -/
structure Config (δ : Type) where
  hasBatchFn : Bool
  maxBatchSize : Nat
  maxBatchSize_pos : 1 ≤ maxBatchSize
  maxBatchWaitS : ℚ
  batchWaitWhenIdle : Bool
  requestCostFn : Option (δ → Int)
  maxBatchCost : Option Nat

def Config.messageCost (cfg : Config δ) (msg : Incoming δ) : Nat :=
  match cfg.requestCostFn with
  | none => 0
  | some cost => if msg.type = .newRequest then (cost msg.data).toNat else 0

def Config.totalCost (cfg : Config δ) (messages : List (Incoming δ)) : Nat :=
  (messages.map cfg.messageCost).sum

/-- A call of `collect_batch` under way; `isWaiting` says that it waits for a message until its
deadline. -/
structure Collecting (δ : Type) where
  batch : List (Incoming δ)
  batchCost : Nat
  deadline : Option ℚ
  isWaiting : Bool := false

/-- What the loop made of a `new_request`: it ran a batch, or dropped an aborted request. -/
inductive Turn (δ : Type)
  | ran (batch : List (Incoming δ))
  | dropped (msg : Incoming δ)

def Turn.messages : Turn δ → List (Incoming δ)
  | .ran batch => batch
  | .dropped msg => [msg]

/-- The scheduler's queues and the call under way.  `arrivals` and `turns` are history: what was put in
the inbox, and what the loop made of it. -/
structure State (δ : Type) where
  inbox : List (Incoming δ) := []
  pendingMessages : List (Incoming δ) := []
  collecting : Option (Collecting δ) := none
  arrivals : List (Incoming δ) := []
  turns : List (Turn δ) := []

/-- The end of `collect_batch`. -/
def State.finish (s : State δ) (batch : List (Incoming δ)) : State δ :=
  { s with collecting := none, turns := s.turns ++ [.ran batch] }

/-- What the loop of `collect_batch` does with a message. -/
def State.collect (cfg : Config δ) (s : State δ) (c : Collecting δ) (msg : Incoming δ) (now : ℚ) :
    State δ :=
  if msg.type = .newRequest then
    let msgCost := cfg.messageCost msg
    if cfg.maxBatchCost.any fun maxBatchCost => maxBatchCost < c.batchCost + msgCost then
      { s with pendingMessages := msg :: s.pendingMessages }.finish c.batch
    else
      { s with
        collecting := some {
          batch := c.batch ++ [msg]
          batchCost := if cfg.maxBatchCost.isSome then c.batchCost + msgCost else c.batchCost
          deadline := some (c.deadline.getD (now + cfg.maxBatchWaitS)) } }
  else
    { s with
      pendingMessages := s.pendingMessages ++ [msg]
      collecting := some { c with isWaiting := false } }

/-- One look of `collect_batch` at the inbox: nothing while it waits for a message. -/
def State.look (cfg : Config δ) (s : State δ) (c : Collecting δ) (now : ℚ) : Option (State δ) :=
  if ¬ c.batch.length < cfg.maxBatchSize then some (s.finish c.batch)
  else
    match s.inbox with
    | msg :: rest => some ({ s with inbox := rest }.collect cfg c msg now)
    | [] =>
      if c.isWaiting then none
      else
        match c.deadline with
        | none => some (s.finish c.batch)
        | some deadline =>
          if deadline - now ≤ 0 then some (s.finish c.batch)
          else some { s with collecting := some { c with isWaiting := true } }

/-- `next_message`: nothing while there is none. -/
def State.nextMessage (s : State δ) : Option (Incoming δ × State δ) :=
  match s.pendingMessages with
  | msg :: rest => some (msg, { s with pendingMessages := rest })
  | [] =>
    match s.inbox with
    | msg :: rest => some (msg, { s with inbox := rest })
    | [] => none

/-- The loop of `start_serial` on a message, up to the first look of `collect_batch`. -/
def State.begin (cfg : Config δ) (s : State δ) (msg : Incoming δ) (isAborted : Bool) (now : ℚ) :
    State δ :=
  if msg.type = .newRequest then
    if isAborted then { s with turns := s.turns ++ [.dropped msg] }
    else if !cfg.hasBatchFn || cfg.maxBatchSize ≤ 1 then s.finish [msg]
    else
      { s with
        collecting := some {
          batch := [msg]
          batchCost := cfg.messageCost msg
          deadline := if cfg.batchWaitWhenIdle then some (now + cfg.maxBatchWaitS) else none } }
  else s

/-- What can happen next: a message arrives, the loop takes a message, `collect_batch` looks at the
inbox, or its wait times out. -/
inductive Action (δ : Type)
  | put (msg : Incoming δ)
  | next (isAborted : Bool) (now : ℚ)
  | look (now : ℚ)
  | timeOut

def step (cfg : Config δ) (s : State δ) : Action δ → Option (State δ)
  | .put msg => some { s with inbox := s.inbox ++ [msg], arrivals := s.arrivals ++ [msg] }
  | .next isAborted now =>
    match s.collecting with
    | some _ => none
    | none => s.nextMessage.map fun (msg, s) => s.begin cfg msg isAborted now
  | .look now => s.collecting.bind fun c => s.look cfg c now
  | .timeOut =>
    match s.collecting, s.inbox with
    | some c, [] => if c.isWaiting then some (s.finish c.batch) else none
    | _, _ => none

def machine (cfg : Config δ) : Machine (State δ) (Action δ) where
  init := {}
  step := step cfg

/-! ### Invariants -/

/-- A batch of `new_request`s within the limits: one alone may be over the cost. -/
structure Config.Fits (cfg : Config δ) (batch : List (Incoming δ)) : Prop where
  nonempty : batch ≠ []
  requests : ∀ msg ∈ batch, msg.isNewRequest = true
  size : batch.length ≤ cfg.maxBatchSize
  cost : batch.length = 1 ∨
    ∀ maxBatchCost ∈ cfg.maxBatchCost, cfg.totalCost batch ≤ maxBatchCost

/-- The batch that a call of `collect_batch` has collected. -/
def State.inHand (s : State δ) : List (Incoming δ) :=
  match s.collecting with
  | none => []
  | some c => c.batch

/-- Every `new_request` is in a turn, in hand or waits, in the order of arrival, and only the first
pending message may be one. -/
structure Kept (cfg : Config δ) (s : State δ) : Prop where
  order : s.turns.flatMap Turn.messages ++ s.inHand ++
    newRequests (s.pendingMessages ++ s.inbox) = newRequests s.arrivals
  front : ∀ msg ∈ s.pendingMessages.tail, msg.isNewRequest = false
  fits : ∀ batch, Turn.ran batch ∈ s.turns → cfg.Fits batch
  hand : ∀ c, s.collecting = some c → cfg.Fits c.batch ∧
    (cfg.maxBatchCost.isSome = true → c.batchCost = cfg.totalCost c.batch) ∧
    ∀ msg ∈ s.pendingMessages, msg.isNewRequest = false

variable {cfg : Config δ} {s s' : State δ}

theorem Kept.initial : Kept cfg {} where
  order := rfl
  front := fun msg hmsg => (by cases hmsg)
  fits := fun batch hbatch => (by cases hbatch)
  hand := fun c hc => (by cases hc)

theorem Kept.put (h : Kept cfg s) (msg : Incoming δ) :
    Kept cfg { s with inbox := s.inbox ++ [msg], arrivals := s.arrivals ++ [msg] } where
  order := by
    show s.turns.flatMap Turn.messages ++ s.inHand ++
      newRequests (s.pendingMessages ++ (s.inbox ++ [msg])) = newRequests (s.arrivals ++ [msg])
    have hlast (messages : List (Incoming δ)) :
        newRequests (messages ++ [msg]) = newRequests messages ++ newRequests [msg] :=
      newRequests_append
    rw [← List.append_assoc s.pendingMessages, hlast, hlast, ← List.append_assoc, h.order]
  front := h.front
  fits := h.fits
  hand := h.hand

theorem Kept.ran (h : Kept cfg s) {batch : List (Incoming δ)} (hbatch : cfg.Fits batch)
    (pending inbox : List (Incoming δ))
    (horder : batch ++ newRequests (pending ++ inbox) =
      s.inHand ++ newRequests (s.pendingMessages ++ s.inbox))
    (hfront : ∀ msg ∈ pending.tail, msg.isNewRequest = false) :
    Kept cfg (State.finish { s with pendingMessages := pending, inbox := inbox } batch) where
  order := by
    show (s.turns ++ [Turn.ran batch]).flatMap Turn.messages ++ [] ++ newRequests (pending ++ inbox) =
      newRequests s.arrivals
    rw [List.flatMap_append, List.append_nil, List.flatMap_singleton, List.append_assoc,
      show Turn.messages (Turn.ran batch) = batch from rfl, horder, ← List.append_assoc, h.order]
  front := hfront
  fits := fun other hother => by
    rcases List.mem_append.mp hother with hold | hnew
    · exact h.fits other hold
    · cases List.mem_singleton.mp hnew
      exact hbatch
  hand := fun c hc => nomatch hc

theorem Kept.finish (h : Kept cfg s) {c : Collecting δ} (hc : s.collecting = some c) :
    Kept cfg (s.finish c.batch) := by
  refine h.ran (h.hand c hc).1 s.pendingMessages s.inbox ?_ h.front
  rw [State.inHand, hc]

theorem newRequests_none_append {pending messages : List (Incoming δ)}
    (h : ∀ msg ∈ pending, msg.isNewRequest = false) :
    newRequests (pending ++ messages) = newRequests messages := by
  rw [newRequests_append, newRequests_eq_nil h, List.nil_append]

theorem Config.Fits.add {batch : List (Incoming δ)} (h : cfg.Fits batch) {msg : Incoming δ}
    (hnew : msg.isNewRequest = true) (hroom : batch.length < cfg.maxBatchSize)
    (hcost : ∀ maxBatchCost ∈ cfg.maxBatchCost,
      cfg.totalCost batch + cfg.messageCost msg ≤ maxBatchCost) : cfg.Fits (batch ++ [msg]) where
  nonempty := List.append_ne_nil_of_right_ne_nil _ (List.cons_ne_nil _ _)
  requests := fun other hother => by
    rcases List.mem_append.mp hother with hold | hlast
    · exact h.requests other hold
    · rw [List.mem_singleton.mp hlast]
      exact hnew
  size := by
    rw [List.length_append, List.length_singleton]
    exact hroom
  cost := .inr fun maxBatchCost hmax => by
    rw [Config.totalCost, List.map_append, List.sum_append, List.map_singleton, List.sum_singleton]
    exact hcost maxBatchCost hmax

theorem Kept.collect (h : Kept cfg s) {c : Collecting δ} (hc : s.collecting = some c)
    (hroom : c.batch.length < cfg.maxBatchSize) {msg : Incoming δ} {rest : List (Incoming δ)}
    (hinbox : s.inbox = msg :: rest) (now : ℚ) :
    Kept cfg ({ s with inbox := rest }.collect cfg c msg now) := by
  obtain ⟨hfits, hcost, hpending⟩ := h.hand c hc
  have horder := h.order
  rw [State.inHand, hc, hinbox, newRequests_none_append hpending] at horder
  unfold State.collect
  by_cases hnew : msg.type = .newRequest
  · have hmsg : msg.isNewRequest = true := decide_eq_true hnew
    rw [if_pos hnew]
    simp only
    split
    · refine h.ran hfits (msg :: s.pendingMessages) rest ?_ hpending
      rw [State.inHand, hc, hinbox, newRequests_none_append hpending, List.cons_append,
        newRequests_cons hmsg, newRequests_cons hmsg, newRequests_none_append hpending]
    · next hunder =>
      refine ⟨?_, h.front, h.fits, fun c' hc' => ?_⟩
      · show s.turns.flatMap Turn.messages ++ (c.batch ++ [msg]) ++
          newRequests (s.pendingMessages ++ rest) = newRequests s.arrivals
        rw [newRequests_none_append hpending, ← horder, newRequests_cons hmsg]
        simp
      · cases hc'
        have hadds : ∀ maxBatchCost ∈ cfg.maxBatchCost,
            cfg.totalCost c.batch + cfg.messageCost msg ≤ maxBatchCost := by
          intro maxBatchCost hmax
          rw [← hcost (by rw [hmax]; rfl)]
          rw [hmax] at hunder
          simpa using hunder
        refine ⟨hfits.add hmsg hroom hadds, fun hsome => ?_, hpending⟩
        rw [if_pos hsome, hcost hsome]
        simp [Config.totalCost]
  · have hmsg : msg.isNewRequest = false := decide_eq_false hnew
    rw [if_neg hnew]
    have hall : ∀ other ∈ s.pendingMessages ++ [msg], other.isNewRequest = false := by
      intro other hother
      rcases List.mem_append.mp hother with hold | hlast
      · exact hpending other hold
      · rw [List.mem_singleton.mp hlast]
        exact hmsg
    refine ⟨?_, fun other hother => hall other (List.mem_of_mem_tail hother), h.fits, fun c' hc' => ?_⟩
    · show s.turns.flatMap Turn.messages ++ c.batch ++
        newRequests (s.pendingMessages ++ [msg] ++ rest) = newRequests s.arrivals
      rw [newRequests_none_append hall, ← horder, newRequests_cons_other hmsg]
    · cases hc'
      exact ⟨hfits, hcost, hall⟩

theorem Kept.look (h : Kept cfg s) {c : Collecting δ} (hc : s.collecting = some c) {now : ℚ}
    (hlook : s.look cfg c now = some s') : Kept cfg s' := by
  unfold State.look at hlook
  split at hlook
  · cases hlook
    exact h.finish hc
  · next hroom =>
    have hroom : c.batch.length < cfg.maxBatchSize := not_not.mp hroom
    split at hlook
    · next msg rest hinbox =>
      cases hlook
      exact h.collect hc hroom hinbox now
    · split at hlook
      · cases hlook
      · split at hlook
        · cases hlook
          exact h.finish hc
        · split at hlook
          · cases hlook
            exact h.finish hc
          · cases hlook
            have horder := h.order
            rw [State.inHand, hc] at horder
            refine ⟨horder, h.front, h.fits, fun c' hc' => ?_⟩
            cases hc'
            exact h.hand c hc

theorem nextMessage_spec (h : Kept cfg s) {msg : Incoming δ} {rest : State δ}
    (hnext : s.nextMessage = some (msg, rest)) : ∃ pending inbox,
    rest = { s with pendingMessages := pending, inbox := inbox } ∧
      (∀ other ∈ pending, other.isNewRequest = false) ∧
      newRequests (s.pendingMessages ++ s.inbox) =
        newRequests [msg] ++ newRequests (pending ++ inbox) := by
  unfold State.nextMessage at hnext
  split at hnext
  · next first pending hpending =>
    cases hnext
    refine ⟨pending, s.inbox, rfl, fun other hother => h.front other ?_, ?_⟩
    · rw [hpending]
      exact hother
    · rw [hpending, ← newRequests_append]
      rfl
  · next hpending =>
    split at hnext
    · next first inbox hinbox =>
      cases hnext
      refine ⟨s.pendingMessages, inbox, rfl, fun other hother => ?_, ?_⟩
      · rw [hpending] at hother
        cases hother
      · rw [hpending, hinbox, ← newRequests_append]
        rfl
    · cases hnext

theorem Config.Fits.single {msg : Incoming δ} (h : msg.isNewRequest = true) : cfg.Fits [msg] where
  nonempty := List.cons_ne_nil _ _
  requests := fun other hother => by rw [List.mem_singleton.mp hother]; exact h
  size := cfg.maxBatchSize_pos
  cost := .inl rfl

theorem Kept.next (h : Kept cfg s) (hidle : s.collecting = none) {msg : Incoming δ} {rest : State δ}
    (hnext : s.nextMessage = some (msg, rest)) (isAborted : Bool) (now : ℚ) :
    Kept cfg (rest.begin cfg msg isAborted now) := by
  obtain ⟨pending, inbox, rfl, hpending, hmessages⟩ := nextMessage_spec h hnext
  have horder := h.order
  rw [State.inHand, hidle, List.append_nil, hmessages] at horder
  have hfront : ∀ other ∈ pending.tail, other.isNewRequest = false := fun other hother =>
    hpending other (List.mem_of_mem_tail hother)
  unfold State.begin
  by_cases hnew : msg.type = .newRequest
  · have hmsg : msg.isNewRequest = true := decide_eq_true hnew
    rw [if_pos hnew]
    rw [newRequests_cons hmsg, newRequests_nil] at horder hmessages
    split
    · refine ⟨?_, hfront, fun batch hbatch => ?_, fun c hc => ?_⟩
      · show (s.turns ++ [Turn.dropped msg]).flatMap Turn.messages ++ _ ++
          newRequests (pending ++ inbox) = newRequests s.arrivals
        rw [List.flatMap_append, List.flatMap_singleton, State.inHand]
        simp only [hidle, List.append_nil]
        rw [← horder, List.append_assoc]
        rfl
      · rcases List.mem_append.mp hbatch with hold | hlast
        · exact h.fits batch hold
        · cases List.mem_singleton.mp hlast
      · rw [show s.collecting = some c from hc] at hidle
        cases hidle
    · split
      · refine h.ran (.single hmsg) pending inbox ?_ hfront
        rw [hmessages, State.inHand, hidle]
        rfl
      · refine ⟨?_, hfront, h.fits, fun c hc => ?_⟩
        · show s.turns.flatMap Turn.messages ++ [msg] ++ newRequests (pending ++ inbox) = _
          rw [List.append_assoc]
          exact horder
        · cases hc
          refine ⟨.single hmsg, fun _ => ?_, hpending⟩
          simp [Config.totalCost]
  · have hmsg : msg.isNewRequest = false := decide_eq_false hnew
    rw [if_neg hnew]
    rw [newRequests_cons_other hmsg, newRequests_nil, List.nil_append] at horder
    refine ⟨?_, hfront, h.fits, fun c hc => ?_⟩
    · show s.turns.flatMap Turn.messages ++ _ ++ newRequests (pending ++ inbox) = _
      rw [State.inHand]
      simp only [hidle, List.append_nil]
      exact horder
    · rw [show s.collecting = some c from hc] at hidle
      cases hidle

theorem Kept.step {a : Action δ} (h : Kept cfg s) (hs : step cfg s a = some s') : Kept cfg s' := by
  cases a with
  | put msg =>
    cases hs
    exact h.put msg
  | next isAborted now =>
    simp only [Simple.step] at hs
    split at hs
    · cases hs
    · next hidle =>
      obtain ⟨⟨msg, rest⟩, hnext, rfl⟩ := Option.map_eq_some_iff.mp hs
      exact h.next hidle hnext isAborted now
  | look now =>
    obtain ⟨c, hc, hlook⟩ := Option.bind_eq_some_iff.mp hs
    exact h.look hc hlook
  | timeOut =>
    simp only [Simple.step] at hs
    split at hs
    · next c hc hinbox =>
      split at hs
      · cases hs
        exact h.finish hc
      · cases hs
    · cases hs

/-- In every run each `new_request` is in one turn, in hand or still waits, in the order of arrival;
every batch is within the limits, and only the first pending message may be a `new_request`. -/
theorem batches_in_order (h : (machine cfg).Reaches Machine.anyAction s) :
    s.turns.flatMap Turn.messages ++ s.inHand ++ newRequests (s.pendingMessages ++ s.inbox) =
        newRequests s.arrivals ∧
      (∀ batch, Turn.ran batch ∈ s.turns → cfg.Fits batch) ∧
      ∀ msg ∈ s.pendingMessages.tail, msg.isNewRequest = false := by
  have hkept : Kept cfg s := h.invariant .initial fun _ _ _ hs _ hstep => hs.step hstep
  exact ⟨hkept.order, hkept.fits, hkept.front⟩

def threeRequests : Config Nat where
  hasBatchFn := true
  maxBatchSize := 3
  maxBatchSize_pos := by decide
  maxBatchWaitS := 1
  batchWaitWhenIdle := false
  requestCostFn := some fun cost => cost
  maxBatchCost := some 4

/-- A `new_request` of this cost. -/
def request (cost : Nat) : Incoming Nat := ⟨"r", .newRequest, cost⟩

/-- The third request is over the cost and a wake-up waits beside it. -/
def overCost : List (Action Nat) :=
  [.put (request 1), .put (request 2), .put ⟨"", .wakeup, 0⟩, .next false 0, .look 0, .look 0,
    .put (request 3), .look 0, .put (request 1), .next false 0, .look 0, .look 0]

def afterOverCost : Option (State Nat) := (machine threeRequests).exec {} overCost

theorem batches_in_order_overCost : ∃ s, afterOverCost = some s ∧
    s.turns.map Turn.messages = [[request 1, request 2]] ∧
    s.turns.flatMap Turn.messages ++ s.inHand ++ newRequests (s.pendingMessages ++ s.inbox) =
      [request 1, request 2, request 3, request 1] := by
  obtain ⟨s, hs⟩ : ∃ s, afterOverCost = some s := Option.isSome_iff_exists.mp (by decide +kernel)
  have hturns : afterOverCost.map (fun s => (s.turns.map Turn.messages, newRequests s.arrivals)) =
      some ([[request 1, request 2]], [request 1, request 2, request 3, request 1]) := by
    decide +kernel
  rw [hs] at hturns
  obtain ⟨hbatches, harrivals⟩ := Prod.mk.inj (Option.some.inj hturns)
  refine ⟨s, hs, hbatches, ?_⟩
  rw [(batches_in_order (Machine.path_of_exec hs)).1]
  exact harrivals

end Simple
