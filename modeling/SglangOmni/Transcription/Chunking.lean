import Mathlib.Algebra.Order.Ring.Rat
import Mathlib.Data.List.MinMax
import Mathlib.Tactic.Ring

/-! Long audio is split into chunks before it is transcribed.  The splitter cuts at the quietest window
before each boundary and keeps the last chunk from being too short. -/

namespace Transcription

/-! ### Spans -/

/-- Spans that follow one another from `start` to `stop`, none of them empty. -/
structure Tiles (start stop : ℤ) (spans : List (ℤ × ℤ)) : Prop where
  head_eq : spans.head?.map Prod.fst = some start
  chain : spans.IsChain fun span next => span.2 = next.1
  last_eq : spans.getLast?.map Prod.snd = some stop
  lt : ∀ span ∈ spans, span.1 < span.2

namespace Tiles

variable {start cut stop : ℤ} {spans : List (ℤ × ℤ)}

theorem single (h : start < stop) : Tiles start stop [(start, stop)] :=
  ⟨rfl, List.IsChain.singleton _, rfl, fun span hspan => by
    obtain rfl := List.mem_singleton.mp hspan
    exact h⟩

theorem ne_nil (h : Tiles start stop spans) : spans ≠ [] := by
  intro hnil
  have hhead := h.head_eq
  rw [hnil] at hhead
  cases hhead

theorem cons (hlt : start < cut) (h : Tiles cut stop spans) :
    Tiles start stop ((start, cut) :: spans) := by
  obtain ⟨span, rest, rfl⟩ := List.exists_cons_of_ne_nil h.ne_nil
  refine ⟨rfl, List.isChain_cons_cons.mpr ⟨?_, h.chain⟩, ?_, fun other hother => ?_⟩
  · have hhead := h.head_eq
    simpa using hhead.symm
  · rw [List.getLast?_cons_cons]
    exact h.last_eq
  · rcases List.mem_cons.mp hother with rfl | hother
    · exact hlt
    · exact h.lt other hother

end Tiles

/-! ### The splitter -/

/-- Python's `int` of a number, which rounds towards zero. -/
def truncate (q : ℚ) : ℤ := q.num.tdiv q.den

/-- The samples `waveform[start:stop]`, for bounds that are not negative. -/
def slice {α : Type} (waveform : List α) (start stop : ℤ) : List α :=
  (waveform.drop start.toNat).take (stop - start).toNat

structure RMSSplitter where
  searchWindowS : ℚ
  energyWindowSamples : ℕ
  search_nonneg : 0 ≤ searchWindowS
  window_pos : 1 ≤ energyWindowSamples

/-- The `ValueError`s of the constructor. -/
inductive SplitterError where
  | searchWindowNegative
  | energyWindowTooSmall
  deriving DecidableEq, Repr

namespace RMSSplitter

def init (searchWindowS : ℚ) (energyWindowSamples : ℤ) : Except SplitterError RMSSplitter :=
  if hsearch : searchWindowS < 0 then .error .searchWindowNegative
  else if hwindow : energyWindowSamples < 1 then .error .energyWindowTooSmall
  else .ok {
    searchWindowS := searchWindowS
    energyWindowSamples := energyWindowSamples.toNat
    search_nonneg := not_lt.mp hsearch
    window_pos := by omega }

section Split

variable {α ε : Type} [LinearOrder ε] (meanSquare : List α → ε) (splitter : RMSSplitter)
  (waveform : List α) (sampleRate maxChunkSamples : ℤ) (minTailS : ℚ)

def findSplitPoint (searchStart searchEnd : ℤ) : ℤ :=
  let region := slice waveform searchStart searchEnd
  let window := splitter.energyWindowSamples
  let windowCount := region.length / window
  if windowCount < 1 then searchEnd
  else
    let energies := fun i => meanSquare ((region.drop (i * window)).take window)
    let quietest := ((List.range windowCount).argmin energies).getD 0
    searchStart + quietest * window + (window / 2 : ℕ)

def chunkSamples : ℤ := max maxChunkSamples 1

def searchSamples : ℤ := max (truncate (splitter.searchWindowS * sampleRate)) 0

/-- Where the search for a cut begins: never back at `start`. -/
def searchStart (start : ℤ) : ℤ :=
  max (start + chunkSamples maxChunkSamples - splitter.searchSamples sampleRate) (start + 1)

/-- The cut that the energies give for the chunk at `start`. -/
def splitPoint (start : ℤ) : ℤ :=
  splitter.findSplitPoint meanSquare waveform (splitter.searchStart sampleRate maxChunkSamples start)
    (start + chunkSamples maxChunkSamples)

def minTail : ℤ := truncate (minTailS * sampleRate)

/-- The cut at `cut` would leave a last chunk below the minimum. -/
def LeavesShortTail (cut : ℤ) : Prop :=
  0 < waveform.length - cut ∧ waveform.length - cut < minTail sampleRate minTailS ∧
    minTail sampleRate minTailS ≤ chunkSamples maxChunkSamples

instance (cut : ℤ) :
    Decidable (LeavesShortTail waveform sampleRate maxChunkSamples minTailS cut) := by
  unfold LeavesShortTail
  infer_instance

/-- The cut of the chunk at `start`, which is pulled back where it would leave a short tail. -/
def cutAt (start : ℤ) : ℤ :=
  let cut := splitter.splitPoint meanSquare waveform sampleRate maxChunkSamples start
  if LeavesShortTail waveform sampleRate maxChunkSamples minTailS cut then
    max (waveform.length - minTail sampleRate minTailS) (start + 1)
  else cut

end Split

section Bounds

variable {α ε : Type} [LinearOrder ε] {meanSquare : List α → ε} {splitter : RMSSplitter}
  {waveform : List α} {sampleRate maxChunkSamples : ℤ} {minTailS : ℚ} {start stop : ℤ}

variable (maxChunkSamples) in
theorem chunkSamples_pos : 1 ≤ chunkSamples maxChunkSamples := le_max_right _ _

variable (splitter) in
theorem fits_iff (hstart : 0 ≤ start) (hle : start ≤ stop) (hstop : stop ≤ waveform.length) (i : ℕ) :
    i < (slice waveform start stop).length / splitter.energyWindowSamples ↔
      start + (i + 1) * splitter.energyWindowSamples ≤ stop := by
  have hpos := splitter.window_pos
  have hlen : ((slice waveform start stop).length : ℤ) = stop - start := by
    rw [slice, List.length_take, List.length_drop]
    omega
  rw [Nat.lt_iff_add_one_le, Nat.le_div_iff_mul_le hpos]
  have hcast : (((i + 1) * splitter.energyWindowSamples : ℕ) : ℤ) =
      (i + 1) * splitter.energyWindowSamples := by
    push_cast
    rfl
  omega

def windowAt (splitter : RMSSplitter) (waveform : List α) (searchStart : ℤ) (i : ℕ) : List α :=
  slice waveform (searchStart + i * splitter.energyWindowSamples)
    (searchStart + (i + 1) * splitter.energyWindowSamples)

/-- A cut in the middle of a window that has the lowest energy of all windows that fit. -/
def CutsQuietest (meanSquare : List α → ε) (splitter : RMSSplitter) (waveform : List α)
    (searchStart searchEnd cut : ℤ) : Prop :=
  ∃ i : ℕ, searchStart + (i + 1) * splitter.energyWindowSamples ≤ searchEnd ∧
    cut = searchStart + i * splitter.energyWindowSamples + (splitter.energyWindowSamples / 2 : ℕ) ∧
    ∀ j : ℕ, searchStart + (j + 1) * splitter.energyWindowSamples ≤ searchEnd →
      meanSquare (splitter.windowAt waveform searchStart i) ≤
        meanSquare (splitter.windowAt waveform searchStart j)

theorem drop_take_slice (hstart : 0 ≤ start) {i : ℕ}
    (hfits : start + (i + 1) * splitter.energyWindowSamples ≤ stop) :
    ((slice waveform start stop).drop (i * splitter.energyWindowSamples)).take
      splitter.energyWindowSamples = splitter.windowAt waveform start i := by
  have hcast : ((i * splitter.energyWindowSamples : ℕ) : ℤ) = i * splitter.energyWindowSamples := by
    push_cast
    rfl
  have hnext : ((i : ℤ) + 1) * splitter.energyWindowSamples =
      i * splitter.energyWindowSamples + splitter.energyWindowSamples := by ring
  rw [slice, List.drop_take, List.drop_drop, List.take_take, windowAt, slice]
  congr 1
  · omega
  · congr 1
    omega

theorem argmin_range {n : ℕ} (hpos : 0 < n) (f : ℕ → ε) :
    ((List.range n).argmin f).getD 0 < n ∧
      ∀ j < n, f (((List.range n).argmin f).getD 0) ≤ f j := by
  cases hmin : (List.range n).argmin f with
  | none =>
    have hnil := List.range_eq_nil.mp (List.argmin_eq_none.mp hmin)
    omega
  | some i =>
    have hmem : i ∈ (List.range n).argmin f := hmin
    refine ⟨List.mem_range.mp (List.argmin_mem hmem), fun j hj => ?_⟩
    exact List.le_of_mem_argmin (List.mem_range.mpr hj) hmem

theorem findSplitPoint_mem (hle : start ≤ stop) :
    start ≤ splitter.findSplitPoint meanSquare waveform start stop ∧
      splitter.findSplitPoint meanSquare waveform start stop ≤ stop := by
  unfold findSplitPoint
  simp only
  split
  · exact ⟨hle, le_refl stop⟩
  · next hcount =>
    have hlast := (argmin_range (not_lt.mp hcount) fun i => meanSquare (((slice waveform start stop).drop
      (i * splitter.energyWindowSamples)).take splitter.energyWindowSamples)).1
    generalize @Option.getD ℕ _ 0 = quietest at hlast ⊢
    have hfits : (quietest + 1) * splitter.energyWindowSamples ≤ (slice waveform start stop).length :=
      (Nat.le_div_iff_mul_le splitter.window_pos).mp hlast
    have hlen : (slice waveform start stop).length ≤ (stop - start).toNat := List.length_take_le _ _
    have hnext : (quietest + 1) * splitter.energyWindowSamples =
        quietest * splitter.energyWindowSamples + splitter.energyWindowSamples := Nat.succ_mul _ _
    have hcast : ((quietest * splitter.energyWindowSamples : ℕ) : ℤ) =
        quietest * splitter.energyWindowSamples := Nat.cast_mul _ _
    omega

theorem findSplitPoint_cuts (hstart : 0 ≤ start) (hle : start ≤ stop)
    (hstop : stop ≤ waveform.length) :
    splitter.findSplitPoint meanSquare waveform start stop = stop ∨
      CutsQuietest meanSquare splitter waveform start stop
        (splitter.findSplitPoint meanSquare waveform start stop) := by
  have hwindow (i : ℕ) := fits_iff splitter hstart hle hstop i
  unfold findSplitPoint
  simp only
  split
  · exact .inl rfl
  · next hcount =>
    obtain ⟨hlast, hmin⟩ := argmin_range (not_lt.mp hcount) fun i => meanSquare
      (((slice waveform start stop).drop (i * splitter.energyWindowSamples)).take
        splitter.energyWindowSamples)
    refine .inr ⟨_, (hwindow _).mp hlast, rfl, fun j hfits => ?_⟩
    rw [← drop_take_slice hstart ((hwindow _).mp hlast), ← drop_take_slice hstart hfits]
    exact hmin j ((hwindow j).mpr hfits)

variable (splitter sampleRate maxChunkSamples start) in
theorem searchStart_mem :
    start + 1 ≤ splitter.searchStart sampleRate maxChunkSamples start ∧
      splitter.searchStart sampleRate maxChunkSamples start ≤ start + chunkSamples maxChunkSamples := by
  have hchunk := chunkSamples_pos maxChunkSamples
  have hsearch : 0 ≤ splitter.searchSamples sampleRate := le_max_right _ _
  unfold searchStart
  omega

variable (meanSquare splitter waveform sampleRate maxChunkSamples start) in
theorem splitPoint_mem :
    start + 1 ≤ splitter.splitPoint meanSquare waveform sampleRate maxChunkSamples start ∧
      splitter.splitPoint meanSquare waveform sampleRate maxChunkSamples start ≤
        start + chunkSamples maxChunkSamples := by
  obtain ⟨hlow, hhigh⟩ := searchStart_mem splitter sampleRate maxChunkSamples start
  have hmem : splitter.searchStart sampleRate maxChunkSamples start ≤
        splitter.splitPoint meanSquare waveform sampleRate maxChunkSamples start ∧
      splitter.splitPoint meanSquare waveform sampleRate maxChunkSamples start ≤
        start + chunkSamples maxChunkSamples := findSplitPoint_mem hhigh
  omega

variable (meanSquare splitter waveform sampleRate maxChunkSamples minTailS start) in
theorem lt_cutAt :
    start < splitter.cutAt meanSquare waveform sampleRate maxChunkSamples minTailS start := by
  have hmem := splitPoint_mem meanSquare splitter waveform sampleRate maxChunkSamples start
  unfold cutAt
  simp only
  split <;> omega

theorem cutAt_short (hlong : chunkSamples maxChunkSamples < waveform.length - start)
    (hshort : LeavesShortTail waveform sampleRate maxChunkSamples minTailS
      (splitter.splitPoint meanSquare waveform sampleRate maxChunkSamples start)) :
    splitter.cutAt meanSquare waveform sampleRate maxChunkSamples minTailS start =
      waveform.length - minTail sampleRate minTailS := by
  have hmin := hshort.2.2
  rw [cutAt, if_pos hshort]
  omega

variable (meanSquare splitter sampleRate minTailS) in
theorem cutAt_mem (hlong : chunkSamples maxChunkSamples < waveform.length - start) :
    splitter.cutAt meanSquare waveform sampleRate maxChunkSamples minTailS start ≤
        start + chunkSamples maxChunkSamples ∧
      splitter.cutAt meanSquare waveform sampleRate maxChunkSamples minTailS start <
        waveform.length := by
  have hmem := splitPoint_mem meanSquare splitter waveform sampleRate maxChunkSamples start
  by_cases hshort : LeavesShortTail waveform sampleRate maxChunkSamples minTailS
      (splitter.splitPoint meanSquare waveform sampleRate maxChunkSamples start)
  · rw [cutAt_short hlong hshort]
    obtain ⟨hpos, hlt, hmin⟩ := hshort
    omega
  · rw [cutAt, if_neg hshort]
    omega

variable (meanSquare splitter) in
theorem minTail_le (hlong : chunkSamples maxChunkSamples < waveform.length - start)
    (hmin : minTail sampleRate minTailS ≤ chunkSamples maxChunkSamples) :
    minTail sampleRate minTailS ≤
      waveform.length - splitter.cutAt meanSquare waveform sampleRate maxChunkSamples minTailS start := by
  have hmem := splitPoint_mem meanSquare splitter waveform sampleRate maxChunkSamples start
  by_cases hshort : LeavesShortTail waveform sampleRate maxChunkSamples minTailS
      (splitter.splitPoint meanSquare waveform sampleRate maxChunkSamples start)
  · rw [cutAt_short hlong hshort]
    omega
  · rw [cutAt, if_neg hshort]
    unfold LeavesShortTail at hshort
    omega

end Bounds

/-! ### The loop -/

section Split

variable {α ε : Type} [LinearOrder ε] (meanSquare : List α → ε) (splitter : RMSSplitter)
  (waveform : List α) (sampleRate maxChunkSamples : ℤ) (minTailS : ℚ)

/-- The spans of the loop from `start` on. -/
def splitFrom (start : ℤ) : List (ℤ × ℤ) :=
  if start < waveform.length then
    if waveform.length - start ≤ chunkSamples maxChunkSamples then [(start, waveform.length)]
    else
      let cut := splitter.cutAt meanSquare waveform sampleRate maxChunkSamples minTailS start
      (start, cut) :: splitFrom cut
  else []
termination_by (waveform.length - start).toNat
decreasing_by
  have hlt := lt_cutAt meanSquare splitter waveform sampleRate maxChunkSamples minTailS start
  omega

def split : List (ℤ × ℤ) :=
  let totalSamples : ℤ := waveform.length
  if totalSamples ≤ 0 then []
  else if totalSamples ≤ chunkSamples maxChunkSamples then [(0, totalSamples)]
  else splitter.splitFrom meanSquare waveform sampleRate maxChunkSamples minTailS 0

/-- A cut that the tail guard leaves alone is the boundary or the middle of a quietest window before it,
and the guard moves a cut only to lengthen the last chunk to the minimum. -/
structure Cut (span : ℤ × ℤ) : Prop where
  kept : ¬LeavesShortTail waveform sampleRate maxChunkSamples minTailS
      (splitter.splitPoint meanSquare waveform sampleRate maxChunkSamples span.1) →
    span.2 = span.1 + chunkSamples maxChunkSamples ∨
      CutsQuietest meanSquare splitter waveform (splitter.searchStart sampleRate maxChunkSamples span.1)
        (span.1 + chunkSamples maxChunkSamples) span.2
  moved : LeavesShortTail waveform sampleRate maxChunkSamples minTailS
      (splitter.splitPoint meanSquare waveform sampleRate maxChunkSamples span.1) →
    span.2 = waveform.length - minTail sampleRate minTailS

structure Splits (start : ℤ) (spans : List (ℤ × ℤ)) : Prop where
  tiles : Tiles start waveform.length spans
  le_chunk : ∀ span ∈ spans, span.2 - span.1 ≤ max maxChunkSamples 1
  cut : ∀ span ∈ spans, span.2 < waveform.length →
    Cut meanSquare splitter waveform sampleRate maxChunkSamples minTailS span
  tail : truncate (minTailS * sampleRate) ≤ maxChunkSamples → ∀ last ∈ spans.getLast?,
    min (truncate (minTailS * sampleRate)) (waveform.length - start) ≤ last.2 - last.1

end Split

section Run

variable {α ε : Type} [LinearOrder ε] {meanSquare : List α → ε} {splitter : RMSSplitter}
  {waveform : List α} {sampleRate maxChunkSamples : ℤ} {minTailS : ℚ} {start : ℤ}

theorem Splits.last (hlt : start < waveform.length)
    (hle : waveform.length - start ≤ chunkSamples maxChunkSamples) :
    Splits meanSquare splitter waveform sampleRate maxChunkSamples minTailS start
      [(start, waveform.length)] := by
  refine ⟨.single hlt, fun span hspan => ?_, fun span hspan hcut => ?_, fun _ last hlast => ?_⟩
  · obtain rfl := List.mem_singleton.mp hspan
    exact hle
  · obtain rfl := List.mem_singleton.mp hspan
    exact absurd hcut (lt_irrefl _)
  · obtain rfl := Option.some.inj hlast
    exact min_le_right _ _

variable (meanSquare splitter sampleRate minTailS) in
theorem cut_cutAt (hstart : 0 ≤ start)
    (hlong : chunkSamples maxChunkSamples < waveform.length - start) :
    Cut meanSquare splitter waveform sampleRate maxChunkSamples minTailS
      (start, splitter.cutAt meanSquare waveform sampleRate maxChunkSamples minTailS start) := by
  obtain ⟨hlow, hhigh⟩ := searchStart_mem splitter sampleRate maxChunkSamples start
  refine ⟨fun hkept => ?_, fun hshort => cutAt_short hlong hshort⟩
  show splitter.cutAt meanSquare waveform sampleRate maxChunkSamples minTailS start = _ ∨
    CutsQuietest meanSquare splitter waveform _ _
      (splitter.cutAt meanSquare waveform sampleRate maxChunkSamples minTailS start)
  rw [cutAt, if_neg hkept]
  exact findSplitPoint_cuts (by omega) hhigh (by omega)

theorem Splits.next (hstart : 0 ≤ start)
    (hlong : chunkSamples maxChunkSamples < waveform.length - start) {spans : List (ℤ × ℤ)}
    (h : Splits meanSquare splitter waveform sampleRate maxChunkSamples minTailS
      (splitter.cutAt meanSquare waveform sampleRate maxChunkSamples minTailS start) spans) :
    Splits meanSquare splitter waveform sampleRate maxChunkSamples minTailS start
      ((start, splitter.cutAt meanSquare waveform sampleRate maxChunkSamples minTailS start) :: spans) := by
  have hlt := lt_cutAt meanSquare splitter waveform sampleRate maxChunkSamples minTailS start
  obtain ⟨hle, -⟩ := cutAt_mem meanSquare splitter sampleRate minTailS hlong
  refine ⟨.cons hlt h.tiles, fun span hspan => ?_, fun span hspan hcut => ?_, fun hmin last hlast => ?_⟩
  · rcases List.mem_cons.mp hspan with rfl | hspan
    · show splitter.cutAt meanSquare waveform sampleRate maxChunkSamples minTailS start - start ≤
        chunkSamples maxChunkSamples
      omega
    · exact h.le_chunk span hspan
  · rcases List.mem_cons.mp hspan with rfl | hspan
    · exact cut_cutAt meanSquare splitter sampleRate minTailS hstart hlong
    · exact h.cut span hspan hcut
  · have hrest := minTail_le meanSquare splitter hlong (hmin.trans (le_max_left _ 1))
    obtain ⟨span, rest, rfl⟩ := List.exists_cons_of_ne_nil h.tiles.ne_nil
    rw [List.getLast?_cons_cons] at hlast
    have hlast := h.tail hmin last hlast
    unfold minTail at hrest
    omega

theorem splits_splitFrom (hstart : 0 ≤ start) (hlt : start < waveform.length) :
    Splits meanSquare splitter waveform sampleRate maxChunkSamples minTailS start
      (splitter.splitFrom meanSquare waveform sampleRate maxChunkSamples minTailS start) := by
  induction start using splitFrom.induct meanSquare splitter waveform sampleRate maxChunkSamples minTailS
  case case1 start _ hle =>
    rw [splitFrom, if_pos hlt, if_pos hle]
    exact .last hlt hle
  case case2 start _ hlong cut ih =>
    have hlong := not_le.mp hlong
    have hmem := cutAt_mem meanSquare splitter sampleRate minTailS hlong
    have hnext := lt_cutAt meanSquare splitter waveform sampleRate maxChunkSamples minTailS start
    rw [splitFrom, if_pos hlt, if_neg (not_le.mpr hlong)]
    apply Splits.next hstart hlong
    exact ih (by omega) hmem.2
  case case3 start hge => exact absurd hlt hge

variable (meanSquare splitter waveform sampleRate maxChunkSamples minTailS) in
/-- The splitter ends for every waveform, and its spans split the waveform: they follow one another from the
first sample to the last, none is empty and none longer than a chunk, each cut is at the boundary or in the
middle of a quietest window before it unless it was moved for the last chunk, and the last chunk is not
shorter than the minimum. -/
theorem split_splits :
    (waveform = [] → splitter.split meanSquare waveform sampleRate maxChunkSamples minTailS = []) ∧
      (waveform ≠ [] → Splits meanSquare splitter waveform sampleRate maxChunkSamples minTailS 0
        (splitter.split meanSquare waveform sampleRate maxChunkSamples minTailS)) := by
  refine ⟨fun hnil => ?_, fun hne => ?_⟩
  · rw [hnil]
    rfl
  · have hpos : (0 : ℤ) < waveform.length := Int.natCast_pos.mpr (List.length_pos_iff.mpr hne)
    unfold split
    simp only
    rw [if_neg (not_le.mpr hpos)]
    split
    · next hle => exact .last hpos (by omega)
    · exact splits_splitFrom (le_refl 0) hpos

/-- The first cut is in the quiet window, and the second is pulled back for the last chunk. -/
example : split (fun frame : List ℤ => (frame.map (· ^ 2)).sum)
    { searchWindowS := 2, energyWindowSamples := 2, search_nonneg := by decide +kernel,
      window_pos := by decide } [5, 5, 5, 0, 0, 5, 5, 5, 5, 5, 5] 2 6 3 =
    [(0, 3), (3, 5), (5, 11)] := by
  decide +kernel

end Run

end RMSSplitter

end Transcription
