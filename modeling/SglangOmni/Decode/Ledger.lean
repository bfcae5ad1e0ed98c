import SglangOmni.Decode.Handover
import Mathlib.Algebra.BigOperators.Group.List.Lemmas
import Mathlib.Data.List.Perm.Basic

/-! The ledger of the hand-over: every step moves admissions from one holder to another, or frees
them.  It is kept for an arbitrary weight of admissions, so that one argument counts both the ranges
and the slots. -/

namespace Decode

open Lib

variable {cfg : Config} {s s' s'' : State} {a : Admission}

def weigh (w : Admission → Int) (l : List Admission) : Int := (l.map w).sum

section

variable (w : Admission → Int)

@[simp] theorem weigh_nil : weigh w [] = 0 := rfl

@[simp] theorem weigh_cons (l : List Admission) : weigh w (a :: l) = w a + weigh w l :=
  List.sum_cons

@[simp] theorem weigh_append (l l' : List Admission) : weigh w (l ++ l') = weigh w l + weigh w l' := by
  simp [weigh]

theorem weigh_erase {l : List Admission} (h : a ∈ l) : weigh w (l.erase a) = weigh w l - w a := by
  have hsum := List.sum_map_erase w h
  simp only [weigh]
  omega

theorem weigh_filter (p : Admission → Bool) (l : List Admission) :
    weigh w (l.filter p) + weigh w (l.filter fun b => !p b) = weigh w l := by
  induction l with
  | nil => rfl
  | cons b rest ih =>
    cases hp : p b with
    | true =>
      rw [List.filter_cons_of_pos hp, List.filter_cons_of_neg (by simp [hp]), weigh_cons, weigh_cons]
      omega
    | false =>
      rw [List.filter_cons_of_neg (by simp [hp]), List.filter_cons_of_pos (by simp [hp]), weigh_cons,
        weigh_cons]
      omega

def State.live (s : State) : Int :=
  s.reservations.total w + weigh w s.pdAdmissions + weigh w s.pdDeferredAdmission.toList +
    weigh w s.waitingQueue + weigh w s.taken + weigh w s.popped

end

/-- Admissions change hands from `s` to `s'`, but for those that are freed on the way and those that
are released after they were scheduled. -/
structure Moved (s s' : State) (lost gone : List Admission) : Prop where
  live : ∀ w, s.live w = s'.live w + weigh w lost + weigh w gone
  freed : s'.freed = s.freed ++ lost
  released : s'.released = s.released ++ gone
  available : s'.available = s.available ++ (lost ++ gone).flatMap Admission.slots
  nextRange : s'.nextRange = s.nextRange

theorem Moved.same (hlive : ∀ w, s.live w = s'.live w) (hfreed : s'.freed = s.freed)
    (hreleased : s'.released = s.released) (havailable : s'.available = s.available)
    (hnext : s'.nextRange = s.nextRange) : Moved s s' [] [] := by
  refine ⟨fun w => ?_, ?_, ?_, ?_, hnext⟩
  · simp [hlive w]
  · simp [hfreed]
  · simp [hreleased]
  · simp [havailable]

theorem Moved.refl (s : State) : Moved s s [] [] := .same (fun _ => rfl) rfl rfl rfl rfl

/-! ### Each step moves -/

variable (cfg) in
theorem commit_moved (request : Prepare) (destination : Destination) :
    ∃ lost, Moved s (cfg.commit s request destination) lost [] := by
  unfold Config.commit
  split
  · exact ⟨[], .refl s⟩
  · next reservation hget =>
    simp only
    split
    · refine ⟨[reservation], fun w => ?_, ?_, ?_, ?_, ?_⟩
      · have herase := Dict.total_erase w s.reservations request.transferId
        rw [hget, Option.elim_some] at herase
        simp only [State.live, State.free, herase, weigh_cons, weigh_nil]
        omega
      · rfl
      · simp [State.free]
      · simp [State.free]
      · rfl
    · refine ⟨[], .same (fun w => ?_) rfl rfl rfl rfl⟩
      have herase := Dict.total_erase w s.reservations request.transferId
      rw [hget, Option.elim_some] at herase
      simp only [State.live, herase, weigh_append, weigh_cons, weigh_nil]
      omega

theorem abortTransfer_moved (transferId : String) : Moved s (s.abortTransfer transferId) [] [] := by
  unfold State.abortTransfer
  split
  · exact .refl s
  · next reservation hget =>
    refine .same (fun w => ?_) rfl rfl rfl rfl
    have herase := Dict.total_erase w s.reservations transferId
    rw [hget, Option.elim_some] at herase
    simp only [State.live, herase, weigh_append, weigh_cons, weigh_nil]
    omega

theorem freePopped_moved (ha : a ∈ s.popped) :
    Moved s ({ s with popped := s.popped.erase a }.free a) [a] [] := by
  refine ⟨fun w => ?_, ?_, ?_, ?_, ?_⟩
  · have herase := weigh_erase w ha
    simp only [State.live, State.free, herase, weigh_cons, weigh_nil]
    omega
  · rfl
  · simp [State.free]
  · simp [State.free]
  · rfl

theorem abort_moved (requestId : String) : Moved s (s.abort requestId) [] [] := by
  refine .same (fun w => ?_) rfl rfl rfl rfl
  have hsplit := weigh_filter w (fun b => decide (b.continuation.requestId = requestId))
    s.waitingQueue
  simp only [State.live, State.abort, weigh_append, decide_not, ne_eq]
  omega

theorem schedule_moved (ha : a ∈ s.waitingQueue) :
    Moved s { s with waitingQueue := s.waitingQueue.erase a, taken := s.taken ++ [a] } [] [] := by
  refine .same (fun w => ?_) rfl rfl rfl rfl
  have herase := weigh_erase w ha
  simp only [State.live, herase, weigh_append, weigh_cons, weigh_nil]
  omega

theorem release_moved (ha : a ∈ s.taken) :
    Moved s { s with
      taken := s.taken.erase a
      available := s.available ++ a.slots
      released := s.released ++ [a] } [] [a] := by
  refine ⟨fun w => ?_, ?_, rfl, ?_, rfl⟩
  · have herase := weigh_erase w ha
    simp only [State.live, herase, weigh_cons, weigh_nil]
    omega
  · simp
  · simp

theorem finishDiscard_moved :
    Moved s s.finishDiscard (s.pdDeferredAdmission.toList ++ s.pdAdmissions) [] := by
  refine ⟨fun w => ?_, rfl, ?_, ?_, rfl⟩
  · simp only [State.live, State.finishDiscard, weigh_append, Option.toList_none, weigh_nil]
    omega
  · simp [State.finishDiscard]
  · simp [State.finishDiscard]

/-! ### The ranges and the slots -/

def hasRange (n : Nat) (a : Admission) : Int := if a.range = n then 1 else 0

def hasSlot (slot : Nat) (a : Admission) : Int := (a.slots.count slot : Int)

theorem weigh_hasSlot (slot : Nat) (l : List Admission) :
    weigh (hasSlot slot) l = ((l.flatMap Admission.slots).count slot : Int) := by
  induction l with
  | nil => rfl
  | cons b rest ih =>
    rw [weigh_cons, ih, List.flatMap_cons, List.count_append, hasSlot]
    push_cast
    rfl

/-- Every range that was reserved has one holder or was freed or released once, and the slots of the
live ranges and the free slots make up the pool. -/
structure Balanced (cfg : Config) (s : State) : Prop where
  ranges : ∀ n, s.live (hasRange n) + weigh (hasRange n) s.freed + weigh (hasRange n) s.released =
    if n < s.nextRange then 1 else 0
  slots : ∀ slot, (s.available.count slot : Int) + s.live (hasSlot slot) = cfg.pool.count slot

theorem Balanced.movedTo (lost gone : List Admission) (h : Balanced cfg s)
    (hmoved : Moved s s' lost gone) : Balanced cfg s' := by
  constructor
  · intro n
    have hlive := hmoved.live (hasRange n)
    have hranges := h.ranges n
    rw [hmoved.freed, hmoved.released, hmoved.nextRange, weigh_append, weigh_append]
    omega
  · intro slot
    have hlive := hmoved.live (hasSlot slot)
    have hslots := h.slots slot
    rw [hmoved.available, List.count_append, List.flatMap_append, List.count_append]
    rw [weigh_hasSlot, weigh_hasSlot] at hlive
    push_cast
    omega

theorem Balanced.moved {lost gone : List Admission} (h : Balanced cfg s)
    (hmoved : Moved s s' lost gone) : Balanced cfg s' :=
  h.movedTo lost gone hmoved

theorem initial_balanced : Balanced cfg cfg.initial where
  ranges n := by simp [State.live, Config.initial]
  slots slot := by simp [State.live, Config.initial]

theorem weigh_nonneg {w : Admission → Int} (h : ∀ b, 0 ≤ w b) (l : List Admission) :
    0 ≤ weigh w l := by
  induction l with
  | nil => exact le_rfl
  | cons b rest ih =>
    rw [weigh_cons]
    have := h b
    omega

theorem live_nonneg {w : Admission → Int} (h : ∀ b, 0 ≤ w b) (s : State) : 0 ≤ s.live w := by
  have hreservations := Dict.total_nonneg (d := s.reservations) fun _ b _ => h b
  have hrest := fun l => weigh_nonneg h l
  unfold State.live
  have h1 := hrest s.pdAdmissions
  have h2 := hrest s.pdDeferredAdmission.toList
  have h3 := hrest s.waitingQueue
  have h4 := hrest s.taken
  have h5 := hrest s.popped
  omega

theorem hasRange_nonneg (n : Nat) (b : Admission) : 0 ≤ hasRange n b := by
  unfold hasRange
  split <;> decide

theorem hasSlot_nonneg (slot : Nat) (b : Admission) : 0 ≤ hasSlot slot b := Int.natCast_nonneg _

theorem Balanced.available_nodup (h : Balanced cfg s) : s.available.Nodup := by
  rw [List.nodup_iff_count_le_one]
  intro slot
  have hslots := h.slots slot
  have hlive := live_nonneg (hasSlot_nonneg slot) s
  have hpool := List.nodup_iff_count_le_one.mp cfg.nodup slot
  omega

/-- What `reserve` adds when it does not raise. -/
def State.reserved (s : State) (transferId : String) (a : Admission) : State :=
  { s with
    available := s.available.filter (· ∉ a.slots)
    reservations := s.reservations.set transferId a
    nextRange := s.nextRange + 1 }

variable (cfg) in
theorem reserve_cases (request : Prepare) (answer : Option (List Nat)) :
    (∃ e, cfg.reserve s request answer = (s, .error e)) ∨
      ∃ a, answer = some a.slots ∧ a.range = s.nextRange ∧
        s.reservations.get? request.transferId = none ∧ s.closed = false ∧
        cfg.reserve s request answer = (s.reserved request.transferId a, .ok ⟨cfg.poolId, a.slots⟩) := by
  unfold Config.reserve
  split
  · next e _ => exact .inl ⟨e, rfl⟩
  next continuation _ =>
  simp only
  split
  · exact .inl ⟨_, rfl⟩
  next hopen =>
  split
  · exact .inl ⟨_, rfl⟩
  split
  · exact .inl ⟨_, rfl⟩
  next hnew =>
  split
  · exact .inl ⟨_, rfl⟩
  split
  · exact .inl ⟨_, rfl⟩
  next slots =>
  have hget : s.reservations.get? request.transferId = none := by
    rw [not_or] at hnew
    exact (Dict.contains_eq_false ..).mp (Bool.not_eq_true _ ▸ hnew.1)
  exact .inr ⟨⟨s.nextRange, continuation, slots, continuation.originInputIds.length,
    request.replicaBindings⟩, rfl, rfl, hget, Bool.not_eq_true _ ▸ hopen, rfl⟩

theorem reserved_balanced (h : Balanced cfg s) {transferId : String} {request : Prepare}
    (hget : s.reservations.get? transferId = none) (hrange : a.range = s.nextRange)
    (hfree : s.handsOutFree request (some a.slots) = true) :
    Balanced cfg (s.reserved transferId a) := by
  simp only [State.handsOutFree, Option.all_some, Bool.and_eq_true, decide_eq_true_eq,
    List.all_eq_true] at hfree
  obtain ⟨⟨hnodup, hsub⟩, -⟩ := hfree
  have hset := fun w => Dict.total_set w s.reservations transferId a
  simp only [hget, Option.elim_none] at hset
  constructor
  · intro n
    have hranges := h.ranges n
    have hone : hasRange n a = if s.nextRange = n then 1 else 0 := by rw [hasRange, hrange]
    simp only [State.live, State.reserved, hset, hone] at hranges ⊢
    split_ifs at hranges ⊢ <;> omega
  · intro slot
    have hslots := h.slots slot
    -- What is handed out and what stays free make up what was free.
    have hsplit : (s.available.filter (· ∉ a.slots)).count slot + a.slots.count slot =
        s.available.count slot := by
      by_cases hmem : slot ∈ a.slots
      · rw [List.count_eq_zero.mpr (by simp [hmem]), List.count_eq_one_of_mem hnodup hmem,
          List.count_eq_one_of_mem h.available_nodup (hsub slot hmem)]
      · rw [List.count_filter (by simpa using hmem), List.count_eq_zero.mpr hmem, Nat.add_zero]
    have hone : hasSlot slot a = (a.slots.count slot : Int) := rfl
    simp only [State.live, State.reserved, hset, hone] at hslots ⊢
    omega

end Decode
