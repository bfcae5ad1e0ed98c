import Mathlib.Data.Bool.Count
import Mathlib.Data.Nat.Basic
import Mathlib.Order.Basic
import Mathlib.Tactic.Common

/-! The slot allocator of the CUDA-IPC relay: a pool of equal slots of which a put takes the first run
of free ones that is long enough.  `acquire_spec` says what a successful attempt takes and
`release_spec` when a range can be returned. -/

namespace Relay

/-- `ContiguousSlotAllocator`, with the checks of its constructor as fields. -/
structure Allocator where
  slotCount : Nat
  slotSize : Nat
  free : List Bool
  freeSlots : Nat
  slotCount_pos : 0 < slotCount
  slotSize_pos : 0 < slotSize
  length_free : free.length = slotCount

/-- `ContiguousSlotAllocator.__init__`. -/
def Allocator.create (slotCount slotSize : Nat) (hcount : 0 < slotCount) (hsize : 0 < slotSize) :
    Allocator where
  slotCount := slotCount
  slotSize := slotSize
  free := List.replicate slotCount true
  freeSlots := slotCount
  slotCount_pos := hcount
  slotSize_pos := hsize
  length_free := List.length_replicate

/-- The loop of `find_contiguous` from slot `index` on, with the run of free slots before it. -/
def findRun (numSlots : Nat) : List Bool → Nat → Nat → Nat → Option Nat
  | [], _, _, _ => none
  | true :: rest, index, runStart, runLen =>
    let runStart := if runLen = 0 then index else runStart
    if runLen + 1 = numSlots then some runStart
    else findRun numSlots rest (index + 1) runStart (runLen + 1)
  | false :: rest, index, runStart, _ => findRun numSlots rest (index + 1) runStart 0

def Allocator.findContiguous (a : Allocator) (numSlots : Nat) : Option Nat :=
  findRun numSlots a.free 0 0 0

/-- Write `value` at the slots from `start` on. -/
def setRange (value : Bool) (start count : Nat) (free : List Bool) : List Bool :=
  (List.range' start count).foldl (fun free index => free.set index value) free

@[simp] theorem length_setRange (value : Bool) (start count : Nat) (free : List Bool) :
    (setRange value start count free).length = free.length := by
  induction count generalizing start free with
  | zero => rfl
  | succ count ih => exact (ih (start + 1) (free.set start value)).trans List.length_set

theorem getElem?_setRange (value : Bool) (start count : Nat) (free : List Bool) (j : Nat) :
    (setRange value start count free)[j]? =
      if start ≤ j ∧ j < start + count then free[j]?.map (fun _ => value) else free[j]? := by
  induction count generalizing start free with
  | zero =>
    rw [if_neg (by omega)]
    rfl
  | succ count ih =>
    have h := ih (start + 1) (free.set start value)
    rw [List.getElem?_set] at h
    rw [show setRange value start (count + 1) free =
      setRange value (start + 1) count (free.set start value) from rfl, h]
    by_cases hj : start = j
    · subst hj
      have hin : start ≤ start ∧ start < start + (count + 1) := by omega
      rw [if_neg (by omega), if_pos rfl, if_pos hin]
      by_cases hlt : start < free.length
      · rw [if_pos hlt, List.getElem?_eq_getElem hlt]
        rfl
      · rw [if_neg hlt, List.getElem?_eq_none (by omega)]
        rfl
    · by_cases hin : start + 1 ≤ j ∧ j < start + 1 + count
      · rw [if_pos hin, if_neg hj, if_pos (by omega)]
      · rw [if_neg hin, if_neg hj, if_neg (by omega)]

/-- Why `acquire_async` or `release` refuses a range. -/
inductive SlotError
  | numSlotsNotPositive
  | poolTooSmall (numSlots slotCount : Nat)
  | offsetNotAligned
  | outsidePool
  | releasedTwice
  deriving DecidableEq

def SlotError.text : SlotError → String
  | .numSlotsNotPositive => "num_slots must be positive"
  | .poolTooSmall numSlots slotCount =>
    s!"allocation requires {numSlots} slots, but pool has {slotCount}"
  | .offsetNotAligned => "offset must be slot aligned"
  | .outsidePool => "slot range is outside the pool"
  | .releasedTwice => "cuda_ipc slot released twice"

/-- The slots from `start` on are marked as free or not and `freeSlots` is replaced. -/
def Allocator.mark (a : Allocator) (value : Bool) (start count freeSlots : Nat) : Allocator :=
  { a with
    free := setRange value start count a.free
    freeSlots := freeSlots
    length_free := (length_setRange value start count a.free).trans a.length_free }

/-- One round of the loop of `acquire_async`: the offset of the range it takes, or nothing where the
call has to wait for a release. -/
def Allocator.acquire (a : Allocator) (numSlots : Nat) : Except SlotError (Option (Nat × Allocator)) :=
  if numSlots = 0 then .error .numSlotsNotPositive
  else if a.slotCount < numSlots then .error (.poolTooSmall numSlots a.slotCount)
  else
    match a.findContiguous numSlots with
    | none => .ok none
    | some slotIndex =>
      .ok (some (slotIndex * a.slotSize,
        a.mark false slotIndex numSlots (a.freeSlots - numSlots)))

def Allocator.release (a : Allocator) (offset numSlots : Nat) : Except SlotError Allocator :=
  if numSlots = 0 then .error .numSlotsNotPositive
  else if offset % a.slotSize ≠ 0 then .error .offsetNotAligned
  else
    let slotIndex := offset / a.slotSize
    if a.slotCount < slotIndex + numSlots then .error .outsidePool
    else if (List.range' slotIndex numSlots).any (fun index => a.free[index]?.getD false) then
      .error .releasedTwice
    else .ok (a.mark true slotIndex numSlots (a.freeSlots + numSlots))

def InRange (slotSize offset numSlots index : Nat) : Prop :=
  offset / slotSize ≤ index ∧ index < offset / slotSize + numSlots

instance (slotSize offset numSlots index : Nat) :
    Decidable (InRange slotSize offset numSlots index) :=
  inferInstanceAs (Decidable (_ ∧ _))

theorem of_cons_eq_drop {free rest : List Bool} {bit : Bool} {index : Nat} (h : bit :: rest = free.drop index) :
    free[index]? = some bit ∧ rest = free.drop (index + 1) := by
  constructor
  · have hbit := congrArg (·[0]?) h
    simpa [List.getElem?_drop] using hbit.symm
  · rw [← List.tail_drop, ← h, List.tail_cons]

theorem findRun_free {numSlots : Nat} {free rest : List Bool} {index runStart runLen found : Nat}
    (hrest : rest = free.drop index) (hrun : runLen ≠ 0 → runStart + runLen = index)
    (hfree : ∀ j, index < runLen + (j + 1) → j < index → free[j]? = some true)
    (h : findRun numSlots rest index runStart runLen = some found) :
    ∀ j, found ≤ j → j < found + numSlots → free[j]? = some true := by
  induction rest generalizing index runStart runLen with
  | nil => cases h
  | cons bit rest ih =>
    obtain ⟨hbit, hdrop⟩ := of_cons_eq_drop hrest
    cases bit with
    | false =>
      refine ih hdrop (fun h => absurd rfl h) (fun j h1 h2 => ?_) h
      omega
    | true =>
      simp only [findRun] at h
      split at h
      · next hlen =>
        cases h
        intro j h1 h2
        by_cases hj : j = index
        · rw [hj]
          exact hbit
        · by_cases h0 : runLen = 0
          · rw [if_pos h0] at h1 h2
            omega
          · rw [if_neg h0] at h1 h2
            have := hrun h0
            exact hfree j (by omega) (by omega)
      · refine ih hdrop (fun _ => ?_) (fun j h1 h2 => ?_) h
        · split
          · omega
          · next h0 =>
            have := hrun h0
            omega
        · by_cases hj : j = index
          · rw [hj]
            exact hbit
          · exact hfree j (by omega) (by omega)

/-! ### First fit -/

def IsRun (free : List Bool) (start numSlots : Nat) : Prop :=
  ∀ j, start ≤ j → j < start + numSlots → free[j]? = some true

theorem IsRun.lt_length {free : List Bool} {start numSlots : Nat} (h : IsRun free start numSlots)
    (hpos : 0 < numSlots) : start + numSlots ≤ free.length := by
  have hlast := (List.getElem?_eq_some_iff.mp (h (start + numSlots - 1) (by omega) (by omega))).1
  omega

theorem findRun_first {numSlots : Nat} {free rest : List Bool} {index runStart runLen : Nat}
    (hrest : rest = free.drop index) (hrun : runLen ≠ 0 → runStart + runLen = index)
    (hlen : runLen < numSlots)
    (hnone : ∀ start, start + runLen < index → ¬ IsRun free start numSlots) :
    match findRun numSlots rest index runStart runLen with
    | none => ∀ start, ¬ IsRun free start numSlots
    | some found => ∀ start, start < found → ¬ IsRun free start numSlots := by
  induction rest generalizing index runStart runLen with
  | nil =>
    have hend : free.length ≤ index := List.drop_eq_nil_iff.mp hrest.symm
    intro start hstart
    have hle := hstart.lt_length (by omega)
    exact hnone start (by omega) hstart
  | cons bit rest ih =>
    obtain ⟨hbit, hdrop⟩ := of_cons_eq_drop hrest
    cases bit with
    | true =>
      have hstart : (if runLen = 0 then index else runStart) + runLen = index := by
        split
        · omega
        · next h0 => exact hrun h0
      simp only [findRun]
      generalize (if runLen = 0 then index else runStart) = found at hstart ⊢
      by_cases hlast : runLen + 1 = numSlots
      · rw [if_pos hlast]
        intro start hlt
        exact hnone start (by omega)
      · rw [if_neg hlast]
        refine ih hdrop (fun _ => ?_) (by omega) fun start hlt => hnone start (by omega)
        omega
    | false =>
      simp only [findRun]
      refine ih hdrop (fun h => absurd rfl h) (by omega) fun start hlt hstart => ?_
      by_cases hearly : start + runLen < index
      · exact hnone start hearly hstart
      · rw [hstart index (by omega) (by omega)] at hbit
        cases hbit

theorem findContiguous_some {a : Allocator} {numSlots start : Nat} (hpos : 0 < numSlots)
    (h : a.findContiguous numSlots = some start) :
    IsRun a.free start numSlots ∧ ∀ earlier < start, ¬ IsRun a.free earlier numSlots := by
  have hfree := @findRun_free numSlots a.free a.free 0 0 0 start rfl (fun h => absurd rfl h)
    (fun j _ h => absurd h (by omega)) h
  have hfirst := @findRun_first numSlots a.free a.free 0 0 0 rfl (fun h => absurd rfl h) hpos
    (fun _ h => absurd h (by omega))
  rw [show findRun numSlots a.free 0 0 0 = some start from h] at hfirst
  exact ⟨hfree, hfirst⟩

theorem findContiguous_none {a : Allocator} {numSlots : Nat} (hpos : 0 < numSlots)
    (h : a.findContiguous numSlots = none) (start : Nat) : ¬ IsRun a.free start numSlots := by
  have hfirst := @findRun_first numSlots a.free a.free 0 0 0 rfl (fun h => absurd rfl h) hpos
    (fun _ h => absurd h (by omega))
  rw [show findRun numSlots a.free 0 0 0 = none from h] at hfirst
  exact hfirst start

theorem count_setRange {value : Bool} {start numSlots : Nat} {free : List Bool}
    (h : ∀ j, start ≤ j → j < start + numSlots → free[j]? = some (!value)) :
    (setRange value start numSlots free).count value = free.count value + numSlots := by
  induction numSlots generalizing start free with
  | zero => rfl
  | succ numSlots ih =>
    have hfirst := h start (by omega) (by omega)
    obtain ⟨hlt, hget⟩ := List.getElem?_eq_some_iff.mp hfirst
    have hrest : ∀ j, start + 1 ≤ j → j < start + 1 + numSlots →
        (free.set start value)[j]? = some (!value) := by
      intro j hj hlast
      rw [List.getElem?_set_ne (by omega)]
      exact h j (by omega) (by omega)
    have hset : (free.set start value).count value = free.count value + 1 := by
      rw [List.count_set hlt, hget]
      cases value <;> simp
    calc (setRange value (start + 1) numSlots (free.set start value)).count value
        = (free.set start value).count value + numSlots := ih hrest
      _ = free.count value + (numSlots + 1) := by omega

theorem count_not_setRange {value : Bool} {start numSlots : Nat} {free : List Bool}
    (h : ∀ j, start ≤ j → j < start + numSlots → free[j]? = some (!value)) :
    (setRange value start numSlots free).count (!value) + numSlots = free.count (!value) := by
  have hcount := count_setRange h
  have hbefore := List.count_not_add_count free value
  have hafter := List.count_not_add_count (setRange value start numSlots free) value
  rw [length_setRange] at hafter
  omega

theorem acquire_spec {a a' : Allocator} {numSlots offset : Nat}
    (h : a.acquire numSlots = .ok (some (offset, a'))) :
    0 < numSlots ∧ offset % a.slotSize = 0 ∧ offset / a.slotSize + numSlots ≤ a.slotCount ∧
      (∀ j, InRange a.slotSize offset numSlots j → a.free[j]? = some true) ∧
      a'.slotSize = a.slotSize ∧ a'.slotCount = a.slotCount ∧
      ∀ j, a'.free[j]? = if InRange a.slotSize offset numSlots j then some false else a.free[j]? := by
  unfold Allocator.acquire at h
  split at h
  · cases h
  next hpos =>
  split at h
  · cases h
  split at h
  · cases h
  next slotIndex hfind =>
  simp only [Except.ok.injEq, Option.some.injEq, Prod.mk.injEq] at h
  obtain ⟨rfl, rfl⟩ := h
  have hdiv : slotIndex * a.slotSize / a.slotSize = slotIndex :=
    Nat.mul_div_cancel _ a.slotSize_pos
  have hall := @findRun_free numSlots a.free a.free 0 0 0 slotIndex rfl (fun h => absurd rfl h)
    (fun j _ h => absurd h (by omega)) hfind
  have hlast := hall (slotIndex + numSlots - 1) (by omega) (by omega)
  have hlt := (List.getElem?_eq_some_iff.mp hlast).1
  have hlen := a.length_free
  simp only [InRange, hdiv]
  refine ⟨by omega, Nat.mul_mod_left _ _, by omega, fun j hj => hall j hj.1 hj.2, rfl, rfl, ?_⟩
  intro j
  simp only [Allocator.mark, getElem?_setRange]
  split
  · next hj =>
    rw [hall j hj.1 hj.2]
    rfl
  · rfl

theorem release_spec {a : Allocator} {offset numSlots : Nat} (hpos : 0 < numSlots)
    (haligned : offset % a.slotSize = 0) (hpool : offset / a.slotSize + numSlots ≤ a.slotCount)
    (htaken : ∀ j, InRange a.slotSize offset numSlots j → a.free[j]? = some false) :
    ∃ a', a.release offset numSlots = .ok a' ∧ a'.slotSize = a.slotSize ∧
      a'.slotCount = a.slotCount ∧
      ∀ j, a'.free[j]? = if InRange a.slotSize offset numSlots j then some true else a.free[j]? := by
  have hnone : (List.range' (offset / a.slotSize) numSlots).any
      (fun index => a.free[index]?.getD false) = false := by
    simp only [List.any_eq_false, List.mem_range'_1]
    intro j hj
    rw [htaken j hj]
    simp
  refine ⟨a.mark true (offset / a.slotSize) numSlots (a.freeSlots + numSlots), ?_, rfl, rfl, ?_⟩
  · unfold Allocator.release
    rw [if_neg (by omega), if_neg (by simp [haligned]), if_neg (by omega), hnone]
    rfl
  · intro j
    simp only [Allocator.mark, getElem?_setRange]
    by_cases hj : InRange a.slotSize offset numSlots j
    · rw [if_pos hj, htaken j hj]
      exact if_pos hj
    · rw [if_neg hj]
      exact if_neg hj

theorem release_ok {a a' : Allocator} {offset numSlots : Nat} (h : a.release offset numSlots = .ok a') :
    0 < numSlots ∧ offset / a.slotSize + numSlots ≤ a.slotCount ∧
      (∀ j, InRange a.slotSize offset numSlots j → a.free[j]? = some false) ∧
      a' = a.mark true (offset / a.slotSize) numSlots (a.freeSlots + numSlots) := by
  unfold Allocator.release at h
  split at h
  · cases h
  next hpos =>
  split at h
  · cases h
  simp only at h
  split at h
  · cases h
  next hpool =>
  split at h
  · cases h
  next hnone =>
  cases h
  refine ⟨Nat.pos_of_ne_zero hpos, not_lt.mp hpool, fun j hj => ?_, rfl⟩
  have hlt : j < a.free.length := by
    rw [a.length_free]
    exact hj.2.trans_le (not_lt.mp hpool)
  have hnot : a.free[j]?.getD false = false := by
    refine Bool.eq_false_iff.mpr fun hfree => hnone ?_
    exact List.any_eq_true.mpr ⟨j, List.mem_range'_1.mpr hj, hfree⟩
  rw [List.getElem?_eq_getElem hlt] at hnot ⊢
  exact congrArg some hnot

end Relay
