import SglangOmni.Lib.Recency
import SglangOmni.Router.Select
import SglangOmni.Router.Validate

/-! The recency order of the selector over a whole run: which candidate a selection takes, and how long
a worker that stays a candidate can be passed over. -/

namespace Router

open Lib

/-- The ordinals of all `MAX_WORKERS` workers; those of the `workerCount` workers there are come
first. -/
structure RecencyOrder where
  ordinals : List Nat
  workerCount : Nat
  length_eq : ordinals.length = maxWorkers
  count_le : workerCount ≤ maxWorkers

/-- `Selector::new`. -/
def RecencyOrder.new (workerCount : Nat) (h : workerCount ≤ maxWorkers) : RecencyOrder where
  ordinals := List.range maxWorkers
  workerCount
  length_eq := List.length_range
  count_le := h

def rotateSlice (ordinals : List Nat) (position count : Nat) : List Nat :=
  ordinals.take position ++ ((ordinals.take count).drop position).rotateLeft 1 ++ ordinals.drop count

theorem rotateLeft_cons (x : Nat) (rest : List Nat) : (x :: rest).rotateLeft 1 = rest ++ [x] := by
  cases rest with
  | nil => rfl
  | cons y rest =>
    simp only [List.rotateLeft, List.length_cons]
    rw [if_neg (by omega), Nat.mod_eq_of_lt (by omega)]
    rfl

theorem length_rotateLeft (l : List Nat) : (l.rotateLeft 1).length = l.length := by
  cases l with
  | nil => rfl
  | cons x rest => rw [rotateLeft_cons, List.length_append, List.length_singleton, List.length_cons]

theorem length_rotateSlice (ordinals : List Nat) (position count : Nat) (h : position ≤ count) :
    (rotateSlice ordinals position count).length = ordinals.length := by
  simp only [rotateSlice, List.length_append, List.length_take, List.length_drop, length_rotateLeft]
  omega

namespace RecencyOrder

def front (order : RecencyOrder) : List Nat := order.ordinals.take order.workerCount

theorem length_front (order : RecencyOrder) : order.front.length = order.workerCount := by
  rw [front, List.length_take, order.length_eq, Nat.min_eq_left order.count_le]

def select (order : RecencyOrder) (candidates : Nat → Bool) : Option Nat × RecencyOrder :=
  match h : order.front.findIdx? candidates with
  | none => (none, order)
  | some position =>
    (order.ordinals[position]?,
      { order with
        ordinals := rotateSlice order.ordinals position order.workerCount
        length_eq := by
          have hlt := (List.findIdx?_eq_some_iff_getElem.mp h).1
          rw [length_front] at hlt
          rw [length_rotateSlice _ _ _ (Nat.le_of_lt hlt), order.length_eq] })

/-- The results of a sequence of selections, and the order they leave. -/
def run (order : RecencyOrder) : List (Nat → Bool) → List (Option Nat) × RecencyOrder
  | [] => ([], order)
  | candidates :: calls =>
    let (result, order) := order.select candidates
    let (results, order) := order.run calls
    (result :: results, order)

theorem select_cases (order : RecencyOrder) (candidates : Nat → Bool) :
    (order.select candidates = (none, order) ∧ ∀ worker ∈ order.front, candidates worker = false) ∨
      ∃ worker order', order.select candidates = (some worker, order') ∧
        order'.workerCount = order.workerCount ∧
        MovesBack candidates order.front worker order'.front := by
  unfold select
  split
  · next hnone =>
    refine .inl ⟨rfl, fun worker hworker => ?_⟩
    exact Bool.eq_false_iff.mpr (List.findIdx?_eq_none_iff.mp hnone worker hworker ▸ by decide)
  · next position hposition =>
    obtain ⟨hlt, hcandidate, hbefore⟩ := List.findIdx?_eq_some_iff_getElem.mp hposition
    have hlength := order.length_front
    have hget : order.ordinals[position]? = some order.front[position] := by
      rw [← List.getElem?_eq_getElem hlt, front, List.getElem?_take_of_lt (by omega)]
    refine .inr ⟨order.front[position], _, Prod.ext hget rfl, rfl, ?_, hcandidate⟩
    have hdrop : order.front.drop position = order.front[position] :: order.front.drop (position + 1) :=
      List.drop_eq_getElem_cons hlt
    refine ⟨order.front.take position, order.front.drop (position + 1), ?_, ?_, ?_⟩
    · rw [← hdrop, List.take_append_drop]
    · have htake : order.ordinals.take position = order.front.take position := by
        rw [front, List.take_take, Nat.min_eq_left (by omega)]
      show (rotateSlice order.ordinals position order.workerCount).take order.workerCount = _
      rw [rotateSlice, htake, ← front, hdrop, rotateLeft_cons, ← List.append_assoc,
        List.take_left' ?_]
      simp only [List.length_append, List.length_take, List.length_drop, List.length_singleton]
      omega
    · intro worker hworker
      obtain ⟨i, hi, rfl⟩ := List.mem_take_iff_getElem.mp hworker
      exact Bool.eq_false_iff.mpr (hbefore i (by omega))

end RecencyOrder

/-! ### Runs -/

/-- Whether a worker was selected less recently than another; of two that were never selected the first
at startup counts as less recent. -/
def SelectedBefore (history : List Nat) (worker other : Nat) : Prop :=
  LessRecent (· < ·) history worker other

structure Ordered (history : List Nat) (order : RecencyOrder) : Prop where
  perm : order.front.Perm (List.range order.workerCount)
  recent : order.front.Pairwise (SelectedBefore history)

namespace Ordered

variable {history : List Nat} {order : RecencyOrder}

theorem new (n : Nat) (h : n ≤ maxWorkers) : Ordered [] (RecencyOrder.new n h) := by
  have hfront : (RecencyOrder.new n h).front = List.range n := by
    simp only [RecencyOrder.front, RecencyOrder.new]
    rw [List.take_range, Nat.min_eq_left h]
  constructor
  · rw [hfront]
    exact List.Perm.refl _
  · rw [hfront]
    refine List.pairwise_lt_range.imp fun hlt => ?_
    exact .bothUnused List.not_mem_nil List.not_mem_nil hlt

theorem mem_iff (h : Ordered history order) {worker : Nat} :
    worker ∈ order.front ↔ worker < order.workerCount := by
  rw [h.perm.mem_iff, List.mem_range]

theorem nodup (h : Ordered history order) : order.front.Nodup :=
  h.perm.nodup_iff.mpr List.nodup_range

theorem select (h : Ordered history order) (candidates : Nat → Bool) :
    Ordered (history ++ (order.select candidates).1.toList) (order.select candidates).2 := by
  rcases order.select_cases candidates with ⟨hselect, -⟩ | ⟨worker, order', hselect, hcount, hmoved⟩
  · rw [hselect]
    simpa using h
  · rw [hselect]
    constructor
    · rw [hcount]
      exact hmoved.perm.trans h.perm
    · exact hmoved.pairwise h.nodup h.recent

theorem select_least (h : Ordered history order) (candidates : Nat → Bool) :
    ((order.select candidates).1.isSome ↔ ∃ worker < order.workerCount, candidates worker = true) ∧
      ∀ worker, (order.select candidates).1 = some worker →
        worker < order.workerCount ∧ candidates worker = true ∧
        ∀ other < order.workerCount, candidates other = true → other ≠ worker →
          SelectedBefore history worker other := by
  rcases order.select_cases candidates with ⟨hselect, hnone⟩ | ⟨worker, order', hselect, -, hmoved⟩
  · rw [hselect]
    refine ⟨⟨fun hsome => (by cases hsome), ?_⟩, fun worker hworker => (by cases hworker)⟩
    rintro ⟨worker, hlt, hcandidate⟩
    rw [hnone worker (h.mem_iff.mpr hlt)] at hcandidate
    cases hcandidate
  · rw [hselect]
    have hlt : worker < order.workerCount := h.mem_iff.mp hmoved.mem
    refine ⟨⟨fun _ => ⟨worker, hlt, hmoved.qualifies⟩, fun _ => rfl⟩, ?_⟩
    intro selected hselected
    obtain rfl : worker = selected := Option.some.inj hselected
    refine ⟨hlt, hmoved.qualifies, fun other hother hcandidate hne => ?_⟩
    exact hmoved.least h.recent (h.mem_iff.mpr hother) hcandidate hne

end Ordered

theorem select_workerCount (order : RecencyOrder) (candidates : Nat → Bool) :
    (order.select candidates).2.workerCount = order.workerCount := by
  rcases order.select_cases candidates with ⟨hselect, -⟩ | ⟨worker, order', hselect, hcount, -⟩
  · rw [hselect]
  · rw [hselect]
    exact hcount

theorem run_workerCount (order : RecencyOrder) (calls : List (Nat → Bool)) :
    (order.run calls).2.workerCount = order.workerCount := by
  induction calls generalizing order with
  | nil => rfl
  | cons candidates calls ih => exact (ih _).trans (select_workerCount order candidates)

theorem Ordered.run {history : List Nat} {order : RecencyOrder} (h : Ordered history order)
    (calls : List (Nat → Bool)) :
    Ordered (history ++ (order.run calls).1.reduceOption) (order.run calls).2 := by
  induction calls generalizing history order with
  | nil =>
    show Ordered (history ++ []) order
    rw [List.append_nil]
    exact h
  | cons candidates calls ih =>
    have hrest := ih (h.select candidates)
    rw [List.append_assoc] at hrest
    have hresults : (order.run (candidates :: calls)).1.reduceOption =
        (order.select candidates).1.toList ++
          ((order.select candidates).2.run calls).1.reduceOption := by
      show ((order.select candidates).1 :: ((order.select candidates).2.run calls).1).reduceOption = _
      cases (order.select candidates).1 with
      | none => rfl
      | some worker => rfl
    rw [hresults]
    exact hrest

theorem run_selects {worker : Nat} (calls : List (Nat → Bool)) (order : RecencyOrder)
    (hmem : worker ∈ order.front) (hcalls : ∀ candidates ∈ calls, candidates worker = true)
    (hlength : order.front.idxOf worker < calls.length) :
    some worker ∈ (order.run calls).1 := by
  induction calls generalizing order with
  | nil => cases hlength
  | cons candidates calls ih =>
    have hcandidate : candidates worker = true := hcalls candidates List.mem_cons_self
    show some worker ∈ (order.select candidates).1 :: ((order.select candidates).2.run calls).1
    rcases order.select_cases candidates with ⟨-, hnone⟩ | ⟨selected, order', hselect, -, hmoved⟩
    · rw [hnone worker hmem] at hcandidate
      cases hcandidate
    · rw [hselect]
      by_cases heq : worker = selected
      · rw [heq]
        exact List.mem_cons_self
      · have hlt := hmoved.idxOf_lt hmem hcandidate heq
        refine List.mem_cons_of_mem _ (ih order' ?_ ?_ ?_)
        · exact hmoved.perm.mem_iff.mpr hmem
        · exact fun other hother => hcalls other (List.mem_cons_of_mem _ hother)
        · rw [List.length_cons] at hlength
          omega

/-- The selector after any selections among `n` workers: the first `n` ordinals are the workers, a
selection takes the candidate selected least recently, and a worker that is a candidate `n` times in a
row is selected. -/
theorem select_fair (n : Nat) (h : n ≤ maxWorkers) (calls : List (Nat → Bool)) :
    (((RecencyOrder.new n h).run calls).2.ordinals.take n).Perm (List.range n) ∧
    (∀ candidates : Nat → Bool,
      let result := (((RecencyOrder.new n h).run calls).2.select candidates).1
      (result.isSome ↔ ∃ worker < n, candidates worker = true) ∧
      ∀ worker, result = some worker → worker < n ∧ candidates worker = true ∧
        ∀ other < n, candidates other = true → other ≠ worker →
          SelectedBefore ((RecencyOrder.new n h).run calls).1.reduceOption worker other) ∧
    ∀ (next : List (Nat → Bool)) (worker : Nat), next.length = n → worker < n →
      (∀ candidates ∈ next, candidates worker = true) →
      some worker ∈ (((RecencyOrder.new n h).run calls).2.run next).1 := by
  have hordered := (Ordered.new n h).run calls
  have hcount : ((RecencyOrder.new n h).run calls).2.workerCount = n := run_workerCount _ calls
  rw [List.nil_append] at hordered
  have hperm := hordered.perm
  rw [RecencyOrder.front, hcount] at hperm
  refine ⟨hperm, fun candidates => ?_, fun next worker hlength hlt hnext => ?_⟩
  · have hleast := hordered.select_least candidates
    rw [hcount] at hleast
    exact hleast
  · have hmem : worker ∈ ((RecencyOrder.new n h).run calls).2.front := by
      rw [hordered.mem_iff, hcount]
      exact hlt
    apply run_selects next _ hmem hnext
    have hidx := List.idxOf_lt_length_of_mem hmem
    rw [RecencyOrder.length_front, hcount] at hidx
    rw [hlength]
    exact hidx

theorem select_fair_three :
    some 2 ∈ (((RecencyOrder.new 3 (by decide)).run
      [fun worker => worker == 1, fun _ => true]).2.run (List.replicate 3 fun _ => true)).1 :=
  (select_fair 3 (by decide) [fun worker => worker == 1, fun _ => true]).2.2
    (List.replicate 3 fun _ => true) 2 rfl (by decide) (by simp)

example : ((RecencyOrder.new 4 (by decide)).run
    (List.replicate 3 fun worker => worker == 0 || worker == 2)).1 = [some 0, some 2, some 0] := by
  decide +kernel

end Router
