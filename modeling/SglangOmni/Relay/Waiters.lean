import Mathlib.Data.List.Flatten
import SglangOmni.Lib.Machine
import SglangOmni.Relay.Slots

/-! The slot allocator under concurrent calls: calls of `acquire_async` sleep on the allocator's event
until a release sets it, and each round of a call, like each release, runs without a suspension.
`live` records the ranges that calls took and releases have not given back. -/

namespace Relay

open Lib

structure SlotLayout where
  slotIndex : Option Nat
  freeSlots : Nat
  largestFreeRun : Nat
  freeRuns : Nat

/-- The loop of `find_contiguous_with_layout` under way. -/
structure LayoutScan where
  runStart : Nat := 0
  runLen : Nat := 0
  inRun : Bool := false
  layout : SlotLayout := ⟨none, 0, 0, 0⟩

/-- One slot of the loop of `find_contiguous_with_layout`. -/
def LayoutScan.slot (numSlots index : Nat) (scan : LayoutScan) (isFree : Bool) : LayoutScan :=
  if isFree then
    let runStart := if scan.inRun then scan.runStart else index
    let runLen := (if scan.inRun then scan.runLen else 0) + 1
    { runStart := runStart
      runLen := runLen
      inRun := true
      layout := {
        slotIndex :=
          if scan.layout.slotIndex.isNone ∧ numSlots ≤ runLen then some runStart
          else scan.layout.slotIndex
        freeSlots := scan.layout.freeSlots + 1
        largestFreeRun := max scan.layout.largestFreeRun runLen
        freeRuns := scan.layout.freeRuns + if scan.inRun then 0 else 1 } }
  else { scan with inRun := false, runLen := 0 }

/-- The loop of `find_contiguous_with_layout` from slot `index` on. -/
def LayoutScan.slots (numSlots : Nat) : LayoutScan → Nat → List Bool → LayoutScan
  | scan, _, [] => scan
  | scan, index, isFree :: rest => slots numSlots (scan.slot numSlots index isFree) (index + 1) rest

def Allocator.findContiguousWithLayout (a : Allocator) (numSlots : Nat) : SlotLayout :=
  (LayoutScan.slots numSlots {} 0 a.free).layout

structure SlotAllocation where
  offset : Nat
  waitRounds : Nat
  freeSlotsBefore : Nat
  largestFreeRunBefore : Int
  freeRunsBefore : Int
  lastFailedFreeSlots : Nat
  lastFailedLargestFreeRun : Nat
  lastFailedFreeRuns : Nat

/-- Where a call of `acquire_async` is: it is about to run a round, it sleeps until the event is set,
it returned, it raised, or its task was cancelled. -/
inductive AcquirePhase
  | running
  | asleep
  | took (allocation : SlotAllocation)
  | raised (error : SlotError)
  | cancelled

/-- A call of `acquire_async` with its local variables. -/
structure Acquire where
  numSlots : Int
  captureLayout : Bool
  waitRounds : Nat := 0
  lastFailedFreeSlots : Nat := 0
  lastFailedLargestFreeRun : Nat := 0
  lastFailedFreeRuns : Nat := 0
  phase : AcquirePhase := .running

/-- The slots from `first` to before `stop`. -/
structure Span where
  first : Nat
  stop : Nat
  deriving DecidableEq

/-- The parts of a span outside the `count` slots from `start` on. -/
def Span.without (start count : Nat) (span : Span) : List Span :=
  [⟨span.first, min span.stop start⟩, ⟨max span.first (start + count), span.stop⟩].filter
    fun part => part.first < part.stop

structure Pool where
  allocator : Allocator
  changed : Bool := true
  calls : List Acquire := []
  live : List Span := []

def waitChanged (changed : Bool) : AcquirePhase := if changed then .running else .asleep

def Acquire.allocation (call : Acquire) (offset freeSlotsBefore : Nat) : SlotAllocation where
  offset := offset
  waitRounds := call.waitRounds
  freeSlotsBefore := freeSlotsBefore
  largestFreeRunBefore := -1
  freeRunsBefore := -1
  lastFailedFreeSlots := call.lastFailedFreeSlots
  lastFailedLargestFreeRun := call.lastFailedLargestFreeRun
  lastFailedFreeRuns := call.lastFailedFreeRuns

/-- One round of the loop of `acquire_async`, after the two checks before the loop. -/
def Pool.round (s : Pool) (call : Acquire) : Pool × Acquire :=
  if call.numSlots ≤ 0 then (s, { call with phase := .raised .numSlotsNotPositive })
  else
    let numSlots := call.numSlots.toNat
    match s.allocator.acquire numSlots with
    | .error error => (s, { call with phase := .raised error })
    | .ok (some (offset, allocator)) =>
      ({ s with
          allocator := allocator
          changed := if allocator.freeSlots = 0 then false else s.changed
          live := s.live ++
            [⟨offset / allocator.slotSize, offset / allocator.slotSize + numSlots⟩] },
        { call with
          phase := .took (call.allocation offset s.allocator.freeSlots) })
    | .ok none =>
      let layout := s.allocator.findContiguousWithLayout numSlots
      let failed := if call.captureLayout then
          { call with
            lastFailedFreeSlots := s.allocator.freeSlots
            lastFailedLargestFreeRun := layout.largestFreeRun
            lastFailedFreeRuns := layout.freeRuns }
        else call
      let s := { s with changed := false }
      (s, { failed with waitRounds := call.waitRounds + 1, phase := waitChanged s.changed })

/-- `changed.set()` wakes every sleeping call. -/
def Acquire.notified (call : Acquire) : Acquire :=
  match call.phase with
  | .asleep => { call with phase := .running }
  | _ => call

/-- `release`: the pool at its end or where it raises.  A negative offset that is aligned has a
negative slot index. -/
def Pool.release (s : Pool) (offset numSlots : Int) : Pool × Option SlotError :=
  if numSlots ≤ 0 then (s, some .numSlotsNotPositive)
  else if offset % s.allocator.slotSize ≠ 0 then (s, some .offsetNotAligned)
  else if offset < 0 then (s, some .outsidePool)
  else
    match s.allocator.release offset.toNat numSlots.toNat with
    | .error error => (s, some error)
    | .ok allocator =>
      ({ s with
          allocator := allocator
          changed := true
          calls := s.calls.map Acquire.notified
          live := s.live.flatMap
            (Span.without (offset.toNat / allocator.slotSize) numSlots.toNat) }, none)

/-- What can happen next: a new call runs its first round, a call that was notified runs the next one,
a call that has not returned is cancelled, or a range is released. -/
inductive PoolAction
  | acquire (numSlots : Int) (captureLayout : Bool)
  | resume (i : Nat)
  | cancel (i : Nat)
  | release (offset numSlots : Int)

def Pool.step (s : Pool) : PoolAction → Option Pool
  | .acquire numSlots captureLayout =>
    let (s', call) := s.round { numSlots, captureLayout }
    some { s' with calls := s.calls ++ [call] }
  | .resume i =>
    match s.calls[i]? with
    | none => none
    | some call =>
      match call.phase with
      | .running =>
        let (s', call) := s.round call
        some { s' with calls := s.calls.set i call }
      | _ => none
  | .cancel i =>
    match s.calls[i]? with
    | none => none
    | some call =>
      match call.phase with
      | .running | .asleep =>
        some { s with calls := s.calls.set i { call with phase := .cancelled } }
      | _ => none
  | .release offset numSlots => some (s.release offset numSlots).1

def pool (allocator : Allocator) : Machine Pool PoolAction where
  init := { allocator := allocator }
  step := Pool.step

/-! ### Spans -/

def Span.Has (span : Span) (j : Nat) : Prop := span.first ≤ j ∧ j < span.stop

def Span.Apart (span span' : Span) : Prop := span.stop ≤ span'.first ∨ span'.stop ≤ span.first

theorem Span.mem_without {start count : Nat} {span part : Span} :
    part ∈ span.without start count ↔ part.first < part.stop ∧
      (part = ⟨span.first, min span.stop start⟩ ∨
        part = ⟨max span.first (start + count), span.stop⟩) := by
  simp [Span.without, and_comm]

theorem Span.within_of_mem_without {start count : Nat} {span part : Span}
    (h : part ∈ span.without start count) :
    part.first < part.stop ∧ span.first ≤ part.first ∧ part.stop ≤ span.stop := by
  obtain ⟨hlt, rfl | rfl⟩ := Span.mem_without.mp h
  · exact ⟨hlt, le_rfl, min_le_left _ _⟩
  · exact ⟨hlt, le_max_left _ _, le_rfl⟩

theorem Span.has_without {start count j : Nat} (span : Span) :
    (∃ part ∈ span.without start count, part.Has j) ↔
      span.Has j ∧ ¬ (start ≤ j ∧ j < start + count) := by
  constructor
  · rintro ⟨part, hpart, hhas⟩
    obtain ⟨-, rfl | rfl⟩ := Span.mem_without.mp hpart
    · simp only [Span.Has] at hhas ⊢
      omega
    · simp only [Span.Has] at hhas ⊢
      omega
  · rintro ⟨hhas, hout⟩
    simp only [Span.Has] at hhas
    by_cases hj : j < start
    · refine ⟨⟨span.first, min span.stop start⟩, Span.mem_without.mpr ⟨?_, .inl rfl⟩, ?_⟩
      · show span.first < min span.stop start
        omega
      · show span.first ≤ j ∧ j < min span.stop start
        omega
    · refine ⟨⟨max span.first (start + count), span.stop⟩, Span.mem_without.mpr ⟨?_, .inr rfl⟩, ?_⟩
      · show max span.first (start + count) < span.stop
        omega
      · show max span.first (start + count) ≤ j ∧ j < span.stop
        omega

theorem Span.Apart.mono {span span' part part' : Span} (h : span.Apart span')
    (hfirst : span.first ≤ part.first) (hstop : part.stop ≤ span.stop)
    (hfirst' : span'.first ≤ part'.first) (hstop' : part'.stop ≤ span'.stop) :
    part.Apart part' := by
  unfold Span.Apart at *
  omega

theorem Span.without_pairwise (start count : Nat) (span : Span) :
    (span.without start count).Pairwise Span.Apart := by
  refine List.Pairwise.filter _ (List.pairwise_pair.mpr (.inl ?_))
  change min span.stop start ≤ max span.first (start + count)
  omega

theorem without_apart {live : List Span} (start count : Nat) (h : live.Pairwise Span.Apart) :
    (live.flatMap (Span.without start count)).Pairwise Span.Apart := by
  refine List.pairwise_flatMap.mpr ⟨fun span _ => span.without_pairwise start count, ?_⟩
  refine h.imp fun hapart part hpart part' hpart' => ?_
  obtain ⟨-, hfirst, hstop⟩ := Span.within_of_mem_without hpart
  obtain ⟨-, hfirst', hstop'⟩ := Span.within_of_mem_without hpart'
  exact hapart.mono hfirst hstop hfirst' hstop'

/-! ### Rounds -/

def IsFirstRun (free : List Bool) (start numSlots : Nat) : Prop :=
  IsRun free start numSlots ∧ ∀ earlier < start, ¬ IsRun free earlier numSlots

theorem Pool.round_cases (s : Pool) (call : Acquire) :
    ((s.round call).1 = s ∧ (∃ error, (s.round call).2.phase = .raised error) ∧
      (call.numSlots ≤ 0 ∨ (s.allocator.slotCount : Int) < call.numSlots)) ∨
    (0 < call.numSlots ∧ ∃ start, IsFirstRun s.allocator.free start call.numSlots.toNat ∧
      (s.round call).2.phase =
        .took (call.allocation (start * s.allocator.slotSize) s.allocator.freeSlots) ∧
      (s.round call).1.allocator = s.allocator.mark false start call.numSlots.toNat
        (s.allocator.freeSlots - call.numSlots.toNat) ∧
      (s.round call).1.calls = s.calls ∧
      (s.round call).1.live = s.live ++ [⟨start, start + call.numSlots.toNat⟩]) ∨
    (0 < call.numSlots ∧ (∀ start, ¬ IsRun s.allocator.free start call.numSlots.toNat) ∧
      (s.round call).1 = { s with changed := false } ∧ (s.round call).2.phase = .asleep ∧
      (s.round call).2.numSlots = call.numSlots) := by
  by_cases hpos : call.numSlots ≤ 0
  · have hround : s.round call = (s, { call with phase := .raised .numSlotsNotPositive }) := by
      simp only [Pool.round, if_pos hpos]
    rw [hround]
    exact .inl ⟨rfl, ⟨_, rfl⟩, .inl hpos⟩
  have hcall : 0 < call.numSlots := by omega
  have hnat : 0 < call.numSlots.toNat := by omega
  by_cases hlarge : s.allocator.slotCount < call.numSlots.toNat
  · have hround : s.round call = (s, { call with
        phase := .raised (.poolTooSmall call.numSlots.toNat s.allocator.slotCount) }) := by
      simp only [Pool.round, if_neg hpos, Allocator.acquire, if_neg hnat.ne', if_pos hlarge]
    rw [hround]
    exact .inl ⟨rfl, ⟨_, rfl⟩, .inr (by omega)⟩
  cases hfind : s.allocator.findContiguous call.numSlots.toNat with
  | none =>
    have hacquire : s.allocator.acquire call.numSlots.toNat = .ok none := by
      simp only [Allocator.acquire, if_neg hnat.ne', if_neg hlarge, hfind]
    refine .inr (.inr ⟨hcall, findContiguous_none hnat hfind, ?_, ?_, ?_⟩)
    · simp only [Pool.round, if_neg hpos, hacquire]
    · simp only [Pool.round, if_neg hpos, hacquire]
      rfl
    · simp only [Pool.round, if_neg hpos, hacquire]
      split <;> rfl
  | some start =>
    have hdiv : start * s.allocator.slotSize / s.allocator.slotSize = start :=
      Nat.mul_div_cancel _ s.allocator.slotSize_pos
    have hacquire : s.allocator.acquire call.numSlots.toNat =
        .ok (some (start * s.allocator.slotSize, s.allocator.mark false start call.numSlots.toNat
          (s.allocator.freeSlots - call.numSlots.toNat))) := by
      simp only [Allocator.acquire, if_neg hnat.ne', if_neg hlarge, hfind]
    refine .inr (.inl ⟨hcall, start, findContiguous_some hnat hfind, ?_⟩)
    simp only [Pool.round, if_neg hpos, hacquire, Allocator.mark, hdiv, and_self]

/-! ### The pool -/

/-- The live ranges lie in the pool, apart from one another, and hold its taken slots; the free ones
are counted; and no call sleeps while there is a run that fits it. -/
structure Pool.Kept (s : Pool) : Prop where
  inside : ∀ span ∈ s.live, span.first < span.stop ∧ span.stop ≤ s.allocator.slotCount
  apart : s.live.Pairwise Span.Apart
  taken : ∀ j < s.allocator.slotCount,
    s.allocator.free[j]? = some false ↔ ∃ span ∈ s.live, span.Has j
  counted : s.allocator.freeSlots = s.allocator.free.count true
  asleep : ∀ call ∈ s.calls, call.phase = .asleep →
    ∀ start, ¬ IsRun s.allocator.free start call.numSlots.toNat

theorem Pool.Kept.create (slotCount slotSize : Nat) (hcount : 0 < slotCount) (hsize : 0 < slotSize) :
    Pool.Kept { allocator := Allocator.create slotCount slotSize hcount hsize } where
  inside := fun span hspan => (by cases hspan)
  apart := .nil
  taken := fun j hj => by
    constructor
    · intro hfree
      rw [show (Allocator.create slotCount slotSize hcount hsize).free[j]? = _ from
        List.getElem?_replicate] at hfree
      split at hfree <;> cases hfree
    · rintro ⟨span, hspan, -⟩
      cases hspan
  counted := (List.count_replicate_self).symm
  asleep := fun call hcall => (by cases hcall)

theorem Pool.Kept.calls {s : Pool} (h : s.Kept) (calls : List Acquire)
    (hcalls : ∀ call ∈ calls, call.phase = .asleep →
      ∀ start, ¬ IsRun s.allocator.free start call.numSlots.toNat) :
    Pool.Kept { s with calls := calls } :=
  ⟨h.inside, h.apart, h.taken, h.counted, hcalls⟩

theorem Pool.Kept.round {s : Pool} (h : s.Kept) (call : Acquire) :
    (s.round call).1.Kept ∧ (s.round call).1.calls = s.calls ∧
      ((s.round call).2.phase = .asleep →
        ∀ start, ¬ IsRun (s.round call).1.allocator.free start (s.round call).2.numSlots.toNat) := by
  rcases s.round_cases call with ⟨hsame, ⟨error, hraised⟩, -⟩ |
    ⟨hpos, start, hfirst, hphase, hallocator, hcalls, hlive⟩ | ⟨hpos, hnone, hsame, hphase, hnum⟩
  · rw [hsame, hraised]
    exact ⟨h, rfl, fun hasleep => nomatch hasleep⟩
  · rw [hphase]
    refine ⟨?_, hcalls, fun hasleep => nomatch hasleep⟩
    have hnum : 0 < call.numSlots.toNat := by omega
    have hpool : start + call.numSlots.toNat ≤ s.allocator.slotCount := by
      rw [← s.allocator.length_free]
      exact hfirst.1.lt_length hnum
    have hget : ∀ j, (s.round call).1.allocator.free[j]? =
        if start ≤ j ∧ j < start + call.numSlots.toNat then some false
        else s.allocator.free[j]? := by
      intro j
      rw [hallocator]
      refine (getElem?_setRange false start call.numSlots.toNat s.allocator.free j).trans ?_
      split
      · next hj =>
        rw [hfirst.1 j hj.1 hj.2]
        rfl
      · rfl
    -- no slot of the run was taken
    have hnot : ∀ span ∈ s.live, ∀ j, span.Has j →
        ¬ (start ≤ j ∧ j < start + call.numSlots.toNat) := by
      intro span hspan j hhas hj
      have hfalse := (h.taken j (by omega)).mpr ⟨span, hspan, hhas⟩
      rw [hfirst.1 j hj.1 hj.2] at hfalse
      cases hfalse
    refine ⟨fun span hspan => ?_, ?_, fun j hj => ?_, ?_, fun other hother hasleep first hruns => ?_⟩
    · rw [hlive] at hspan
      rw [hallocator]
      rcases List.mem_append.mp hspan with hold | hnew
      · exact h.inside span hold
      · rw [List.mem_singleton.mp hnew]
        exact ⟨Nat.lt_add_of_pos_right hnum, hpool⟩
    · rw [hlive, List.pairwise_append]
      refine ⟨h.apart, List.pairwise_singleton _ _, fun span hspan new hnew => ?_⟩
      rw [List.mem_singleton.mp hnew]
      by_contra hmeet
      simp only [Span.Apart, not_or, not_le] at hmeet
      have hlt := (h.inside span hspan).1
      apply hnot span hspan (max span.first start)
      · show span.first ≤ max span.first start ∧ max span.first start < span.stop
        omega
      · omega
    · rw [hallocator] at hj
      rw [hget j, hlive]
      constructor
      · intro hfalse
        split at hfalse
        · next hin => exact ⟨_, List.mem_append_right _ (List.mem_singleton.mpr rfl), hin⟩
        · obtain ⟨span, hspan, hhas⟩ := (h.taken j hj).mp hfalse
          exact ⟨span, List.mem_append_left _ hspan, hhas⟩
      · rintro ⟨span, hspan, hhas⟩
        rcases List.mem_append.mp hspan with hold | hnew
        · rw [if_neg (hnot span hold j hhas)]
          exact (h.taken j hj).mpr ⟨span, hold, hhas⟩
        · rw [List.mem_singleton.mp hnew] at hhas
          exact if_pos hhas
    · have hcount := @count_not_setRange false _ _ _ hfirst.1
      have hcounted := h.counted
      rw [hallocator]
      show s.allocator.freeSlots - call.numSlots.toNat = (setRange false start _ _).count true
      rw [Bool.not_false] at hcount
      omega
    · rw [hcalls] at hother
      refine h.asleep other hother hasleep first fun j hj hlast => ?_
      have htrue := hruns j hj hlast
      rw [hget j] at htrue
      split at htrue
      · cases htrue
      · exact htrue
  · rw [hsame, hphase, hnum]
    exact ⟨⟨h.inside, h.apart, h.taken, h.counted, h.asleep⟩, rfl, fun _ => hnone⟩

theorem Pool.Kept.release {s : Pool} (h : s.Kept) (offset numSlots : Int) :
    (s.release offset numSlots).1.Kept := by
  unfold Pool.release
  split
  · exact h
  split
  · exact h
  split
  · exact h
  cases hrelease : s.allocator.release offset.toNat numSlots.toNat with
  | error error => exact h
  | ok allocator =>
    obtain ⟨hnum, hpool, htaken, rfl⟩ := release_ok hrelease
    simp only [InRange] at htaken
    generalize hstart : offset.toNat / s.allocator.slotSize = start at hpool htaken
    have hget : ∀ j, (setRange true start numSlots.toNat s.allocator.free)[j]? =
        if start ≤ j ∧ j < start + numSlots.toNat then some true else s.allocator.free[j]? := by
      intro j
      refine (getElem?_setRange true start numSlots.toNat s.allocator.free j).trans ?_
      split
      · next hj =>
        rw [htaken j hj]
        rfl
      · rfl
    have hdiv : offset.toNat / (s.allocator.mark true start numSlots.toNat
        (s.allocator.freeSlots + numSlots.toNat)).slotSize = start := hstart
    simp only [hdiv]
    refine ⟨fun span hspan => ?_, without_apart _ _ h.apart, fun j hj => ?_, ?_,
      fun call hcall hasleep => ?_⟩
    · obtain ⟨whole, hwhole, hpart⟩ := List.mem_flatMap.mp hspan
      obtain ⟨hlt, -, hstop⟩ := Span.within_of_mem_without hpart
      exact ⟨hlt, hstop.trans (h.inside whole hwhole).2⟩
    · show (setRange true start numSlots.toNat s.allocator.free)[j]? = _ ↔ _
      rw [hget j]
      constructor
      · intro hfalse
        split at hfalse
        · cases hfalse
        · next hout =>
          obtain ⟨span, hspan, hhas⟩ := (h.taken j hj).mp hfalse
          obtain ⟨part, hpart, hin⟩ := (Span.has_without span).mpr ⟨hhas, hout⟩
          exact ⟨part, List.mem_flatMap.mpr ⟨span, hspan, hpart⟩, hin⟩
      · rintro ⟨part, hpart, hin⟩
        obtain ⟨span, hspan, hpart⟩ := List.mem_flatMap.mp hpart
        obtain ⟨hhas, hout⟩ := (Span.has_without span).mp ⟨part, hpart, hin⟩
        rw [if_neg hout]
        exact (h.taken j hj).mpr ⟨span, hspan, hhas⟩
    · have hcount := @count_setRange true _ _ _ fun j hj hlast => htaken j ⟨hj, hlast⟩
      have hcounted := h.counted
      show s.allocator.freeSlots + numSlots.toNat = (setRange true start _ _).count true
      omega
    · obtain ⟨old, -, rfl⟩ := List.mem_map.mp hcall
      unfold Acquire.notified at hasleep
      split at hasleep
      · cases hasleep
      · next hnot => exact absurd hasleep (by simpa using hnot)

theorem Pool.Kept.step {s s' : Pool} {a : PoolAction} (h : s.Kept) (hs : s.step a = some s') :
    s'.Kept := by
  cases a with
  | acquire numSlots captureLayout =>
    cases hs
    obtain ⟨hkept, hcalls, hasleep⟩ := h.round { numSlots, captureLayout }
    refine hkept.calls _ fun call hcall => ?_
    rcases List.mem_append.mp hcall with hold | hnew
    · exact hkept.asleep call (hcalls ▸ hold)
    · rw [List.mem_singleton.mp hnew]
      exact hasleep
  | resume i =>
    simp only [Pool.step] at hs
    split at hs
    · cases hs
    · next call hcall =>
      split at hs
      · cases hs
        obtain ⟨hkept, hcalls, hasleep⟩ := h.round call
        refine hkept.calls _ fun other hother => ?_
        rcases List.mem_or_eq_of_mem_set hother with hold | rfl
        · exact hkept.asleep other (hcalls ▸ hold)
        · exact hasleep
      · cases hs
  | cancel i =>
    simp only [Pool.step] at hs
    split at hs
    · cases hs
    · next call hcall =>
      split at hs
      · cases hs
        refine h.calls _ fun other hother hasleep => ?_
        rcases List.mem_or_eq_of_mem_set hother with hold | rfl
        · exact h.asleep other hold hasleep
        · cases hasleep
      · cases hs
        refine h.calls _ fun other hother hasleep => ?_
        rcases List.mem_or_eq_of_mem_set hother with hold | rfl
        · exact h.asleep other hold hasleep
        · cases hasleep
      · cases hs
  | release offset numSlots =>
    cases hs
    exact h.release offset numSlots

theorem step_size {s s' : Pool} {a : PoolAction} (hs : s.step a = some s') :
    s'.allocator.slotCount = s.allocator.slotCount ∧ s'.allocator.slotSize = s.allocator.slotSize := by
  have hround : ∀ call, (s.round call).1.allocator.slotCount = s.allocator.slotCount ∧
      (s.round call).1.allocator.slotSize = s.allocator.slotSize := by
    intro call
    rcases s.round_cases call with ⟨hsame, -⟩ | ⟨-, start, -, -, hallocator, -⟩ | ⟨-, -, hsame, -⟩
    · rw [hsame]
      exact ⟨rfl, rfl⟩
    · rw [hallocator]
      exact ⟨rfl, rfl⟩
    · rw [hsame]
      exact ⟨rfl, rfl⟩
  cases a with
  | acquire numSlots captureLayout =>
    cases hs
    exact hround _
  | resume i =>
    simp only [Pool.step] at hs
    split at hs
    · cases hs
    · split at hs
      · cases hs
        exact hround _
      · cases hs
  | cancel i =>
    simp only [Pool.step] at hs
    split at hs
    · cases hs
    · split at hs
      · cases hs
        exact ⟨rfl, rfl⟩
      · cases hs
        exact ⟨rfl, rfl⟩
      · cases hs
  | release offset numSlots =>
    cases hs
    unfold Pool.release
    split
    · exact ⟨rfl, rfl⟩
    split
    · exact ⟨rfl, rfl⟩
    split
    · exact ⟨rfl, rfl⟩
    cases hrelease : s.allocator.release offset.toNat numSlots.toNat with
    | error error => exact ⟨rfl, rfl⟩
    | ok allocator =>
      obtain ⟨-, -, -, rfl⟩ := release_ok hrelease
      exact ⟨rfl, rfl⟩

theorem Pool.Kept.release_live {s : Pool} (h : s.Kept) {span : Span} (hspan : span ∈ s.live) :
    (s.release ((span.first * s.allocator.slotSize : Nat) : Int)
      ((span.stop - span.first : Nat) : Int)).2 = none := by
  obtain ⟨hlt, hstop⟩ := h.inside span hspan
  have hpos : 0 < span.stop - span.first := by omega
  have hdiv : span.first * s.allocator.slotSize / s.allocator.slotSize = span.first :=
    Nat.mul_div_cancel _ s.allocator.slotSize_pos
  have haligned : ((span.first * s.allocator.slotSize : Nat) : Int) % s.allocator.slotSize = 0 := by
    rw [← Int.natCast_emod, Nat.mul_mod_left]
    rfl
  obtain ⟨allocator, hrelease, -⟩ := @release_spec s.allocator
    (span.first * s.allocator.slotSize) _ hpos (Nat.mul_mod_left _ _)
    (by rw [hdiv]; omega) (fun j hj => by
      simp only [InRange, hdiv] at hj
      refine (h.taken j (by omega)).mpr ⟨span, hspan, hj.1, ?_⟩
      omega)
  unfold Pool.release
  rw [if_neg (by omega), if_neg (by rw [haligned]; exact fun hne => hne rfl),
    if_neg (not_lt.mpr (Int.natCast_nonneg _)), Int.toNat_natCast, Int.toNat_natCast, hrelease]

theorem Pool.release_raises (s : Pool) {offset numSlots : Int} {error : SlotError}
    (h : (s.release offset numSlots).2 = some error) : (s.release offset numSlots).1 = s := by
  unfold Pool.release at h ⊢
  split
  · rfl
  · next hpos =>
    rw [if_neg hpos] at h
    split
    · rfl
    · next haligned =>
      rw [if_neg haligned] at h
      split
      · rfl
      · next hpool =>
        rw [if_neg hpool] at h
        cases hrelease : s.allocator.release offset.toNat numSlots.toNat with
        | error error => rfl
        | ok allocator =>
          rw [hrelease] at h
          cases h

/-- What holds of the allocator between any two steps of its callers. -/
structure Pool.Served (s : Pool) (slotCount slotSize : Nat) : Prop where
  inside : ∀ span ∈ s.live, span.first < span.stop ∧ span.stop ≤ slotCount
  apart : s.live.Pairwise Span.Apart
  taken : ∀ j < slotCount, s.allocator.free[j]? = some false ↔ ∃ span ∈ s.live, span.Has j
  counted : s.allocator.freeSlots = s.allocator.free.count true
  acquires : ∀ call : Acquire, 0 < call.numSlots → call.numSlots ≤ slotCount →
    (∃ start allocation, IsFirstRun s.allocator.free start call.numSlots.toNat ∧
      (s.round call).2.phase = .took allocation ∧ allocation.offset = start * slotSize ∧
      (s.round call).1.live = s.live ++ [⟨start, start + call.numSlots.toNat⟩]) ∨
    (∀ start, ¬ IsRun s.allocator.free start call.numSlots.toNat) ∧
      (s.round call).2.phase = .asleep
  asleep : ∀ call ∈ s.calls, call.phase = .asleep →
    ∀ start, ¬ IsRun s.allocator.free start call.numSlots.toNat
  releases : ∀ span ∈ s.live,
    (s.release ((span.first * slotSize : Nat) : Int) ((span.stop - span.first : Nat) : Int)).2 = none
  raises : ∀ offset numSlots error, (s.release offset numSlots).2 = some error →
    (s.release offset numSlots).1 = s

variable {slotCount slotSize : Nat} {hcount : 0 < slotCount} {hsize : 0 < slotSize}

/-- Live ranges are disjoint, an acquire takes the first run that fits it and sleeps only where there
is none, no call sleeps on while there is one, and a live range can be released. -/
theorem slots_first_fit {s : Pool}
    (h : (pool (Allocator.create slotCount slotSize hcount hsize)).Reaches Machine.anyAction s) :
    s.Served slotCount slotSize := by
  obtain ⟨hkept, hslots, hbytes⟩ : s.Kept ∧ s.allocator.slotCount = slotCount ∧
      s.allocator.slotSize = slotSize := by
    refine h.invariant (P := fun s => s.Kept ∧ s.allocator.slotCount = slotCount ∧
      s.allocator.slotSize = slotSize) ⟨.create slotCount slotSize hcount hsize, rfl, rfl⟩ ?_
    rintro s a s' ⟨hkept, hslots, hbytes⟩ - hs
    obtain ⟨hcount', hsize'⟩ := step_size hs
    exact ⟨hkept.step hs, hcount'.trans hslots, hsize'.trans hbytes⟩
  subst hslots hbytes
  refine ⟨hkept.inside, hkept.apart, hkept.taken, hkept.counted, fun call hpos hle => ?_,
    hkept.asleep, fun span hspan => hkept.release_live hspan, fun offset numSlots error hraise =>
    s.release_raises hraise⟩
  rcases s.round_cases call with ⟨-, -, hout⟩ | ⟨-, start, hfirst, hphase, -, -, hlive⟩ |
    ⟨-, hnone, -, hphase, -⟩
  · omega
  · exact .inl ⟨start, _, hfirst, hphase, rfl, hlive⟩
  · exact .inr ⟨hnone, hphase⟩

/-- Two calls share a pool of four slots, and a third one sleeps until two slots in a row are free. -/
def fragmented : List PoolAction :=
  [.acquire 1 false, .acquire 2 false, .acquire 2 true, .release 0 1, .resume 2, .release 8 2,
    .resume 2]

theorem four_slots : 0 < 4 := by decide

def afterFragmented : Option Pool :=
  let M := pool (Allocator.create 4 8 four_slots (by decide))
  M.exec M.init fragmented

theorem slots_first_fit_fragmented : ∃ s, afterFragmented = some s ∧ s.live = [⟨0, 2⟩] ∧
    s.calls.map Acquire.waitRounds = [0, 0, 2] ∧ s.Served 4 8 := by
  obtain ⟨s, hs⟩ : ∃ s, afterFragmented = some s :=
    Option.isSome_iff_exists.mp (by decide +kernel)
  have hlive : afterFragmented.map Pool.live = some [⟨0, 2⟩] := by decide +kernel
  have hrounds : afterFragmented.map (fun s => s.calls.map Acquire.waitRounds) =
      some [0, 0, 2] := by
    decide +kernel
  rw [hs] at hlive hrounds
  exact ⟨s, hs, Option.some.inj hlive, Option.some.inj hrounds,
    slots_first_fit (Machine.path_of_exec hs)⟩

end Relay
