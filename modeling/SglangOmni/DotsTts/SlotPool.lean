import Mathlib.Data.Finset.Basic
import SglangOmni.DotsTts.Window
import SglangOmni.Lib.Dict

/-! The slots of the streaming vocoder.  Each holds one causal stream with counters of its own, and a step decodes
the slots of a batch together. -/

namespace DotsTts

open Lib

/-- The decoder below the pool.  Its kernels treat the rows of a batch apart and are given for one row. -/
structure VocoderInference (Latent Hidden Frame Sample : Type) where
  initHidden : Hidden
  windowSize : ℕ
  lookahead : ℕ
  hopSize : ℕ
  decodeStreamLatents : List Latent → Hidden → List Frame × Hidden
  decodeStreamWindow : List Frame → List Sample
  length_decodeStreamLatents : ∀ latents hidden,
    (decodeStreamLatents latents hidden).1.length = latents.length
  length_decodeStreamWindow : ∀ window,
    (decodeStreamWindow window).length = window.length * hopSize

/-- What the tensors and the counters of the pool hold for one slot. -/
structure SlotRow (Hidden Frame : Type) where
  hidden : Hidden
  window : List Frame
  totalFrames : ℕ
  emittedFrames : ℕ

structure DotsVocoderSlotPool (Hidden Frame : Type) where
  numSlots : ℕ
  rows : ℕ → SlotRow Hidden Frame
  freeSlots : List ℕ
  inUse : Finset ℕ

variable {Latent Hidden Frame Sample : Type} [Zero Frame]
  (vae : VocoderInference Latent Hidden Frame Sample)

def SlotRow.zero : SlotRow Hidden Frame :=
  ⟨vae.initHidden, List.replicate vae.windowSize 0, 0, 0⟩

def SlotRow.sliceAudio (row : SlotRow Hidden Frame) (audioWindow : List Sample) (final : Bool) :
    Except String (List Sample) × SlotRow Hidden Frame :=
  let total := row.totalFrames
  let emitted := row.emittedFrames
  let stableEnd := if final then total else total - vae.lookahead
  if stableEnd ≤ emitted then (.ok [], row)
  else
    let validFrames := min total vae.windowSize
    let windowStart := total - validFrames
    if emitted < windowStart then
      (.error "Decoder stream window is too short for fixed-graph decoding.", row)
    else
      let localStart := emitted - windowStart
      let localEnd := stableEnd - windowStart
      (.ok ((audioWindow.take (localEnd * vae.hopSize)).drop (localStart * vae.hopSize)),
        { row with emittedFrames := stableEnd })

namespace DotsVocoderSlotPool

def init (numSlots chunkSize : ℤ) : Except String (DotsVocoderSlotPool Hidden Frame) :=
  if numSlots < 1 then .error s!"num_slots must be >= 1, got {numSlots}"
  else if chunkSize < 1 then .error s!"chunk_size must be >= 1, got {chunkSize}"
  else .ok ⟨numSlots.toNat, fun _ => .zero vae, (List.range numSlots.toNat).reverse, ∅⟩

variable (pool : DotsVocoderSlotPool Hidden Frame)

def setRow (slot : ℕ) (row : SlotRow Hidden Frame) : DotsVocoderSlotPool Hidden Frame :=
  { pool with rows := Function.update pool.rows slot row }

omit [Zero Frame] in
@[simp] theorem rows_setRow_self (slot : ℕ) (row : SlotRow Hidden Frame) :
    (pool.setRow slot row).rows slot = row := by
  simp [setRow]

omit [Zero Frame] in
theorem rows_setRow_ne {slot other : ℕ} (row : SlotRow Hidden Frame) (h : other ≠ slot) :
    (pool.setRow slot row).rows other = pool.rows other := by
  simp [setRow, h]

def resetSlot (slot : ℕ) : DotsVocoderSlotPool Hidden Frame := pool.setRow slot (.zero vae)

def acquire : Except String (ℕ × DotsVocoderSlotPool Hidden Frame) :=
  match pool.freeSlots.getLast? with
  | none =>
    .error s!"dots.tts streaming vocoder admission failed: ran out of slots (num_slots={pool.numSlots})"
  | some slot =>
    let pool := { pool with freeSlots := pool.freeSlots.dropLast }.resetSlot vae slot
    .ok (slot, { pool with inUse := insert slot pool.inUse })

def release (slot : ℕ) : DotsVocoderSlotPool Hidden Frame :=
  if slot ∉ pool.inUse then pool
  else
    let pool := pool.resetSlot vae slot
    { pool with inUse := pool.inUse.erase slot, freeSlots := pool.freeSlots ++ [slot] }

/-- The checks of `step`, up to its uniform length. -/
def checkStep (slotLatents : Dict ℕ (List Latent)) : Except String ℕ := do
  let stepLengths := (slotLatents.entries.map fun entry => entry.2.length).dedup
  match stepLengths with
  | [stepT] =>
    if stepT < 1 then throw "dots.tts streaming step length must be positive"
    if stepT ≥ vae.windowSize then
      throw s!"streaming step length {stepT} must be < window size {vae.windowSize}"
    slotLatents.keys.forM fun slot =>
      if slot ∉ pool.inUse then throw s!"dots.tts streaming step referenced free slot {slot}" else pure ()
    return stepT
  | _ =>
    throw s!"dots.tts streaming step requires a uniform latent length, got {stepLengths.mergeSort}"

def forward (packed : List (List Latent)) (hidden : List Hidden) (window : List (List Frame))
    (valid : List ℤ) : Except String (List (List Sample) × List Hidden × List (List Frame)) := do
  let decoded := (packed.zip hidden).map fun row => vae.decodeStreamLatents row.1 row.2
  let newWindow ← appendDecoderInputPerRow (decoded.map Prod.fst) window valid
  return (newWindow.map vae.decodeStreamWindow, decoded.map Prod.snd, newWindow)

def writeRows : List (ℕ × Hidden × List Frame) → DotsVocoderSlotPool Hidden Frame →
    DotsVocoderSlotPool Hidden Frame
  | [], pool => pool
  | (slot, hidden, window) :: rest, pool =>
    writeRows rest (pool.setRow slot { pool.rows slot with hidden, window })

/-- The last loop of `step`: the counters of each row and its piece of the audio. -/
def sliceRows (stepT : ℕ) : List (ℕ × List Sample) → Dict ℕ (List Sample) →
    DotsVocoderSlotPool Hidden Frame →
    Except String (Dict ℕ (List Sample)) × DotsVocoderSlotPool Hidden Frame
  | [], out, pool => (.ok out, pool)
  | (slot, audioWindow) :: rest, out, pool =>
    let row := pool.rows slot
    match { row with totalFrames := row.totalFrames + stepT }.sliceAudio vae audioWindow false with
    | (.error e, row) => (.error e, pool.setRow slot row)
    | (.ok piece, row) => sliceRows stepT rest (out.set slot piece) (pool.setRow slot row)

def step (slotLatents : Dict ℕ (List Latent)) :
    Except String (Dict ℕ (List Sample)) × DotsVocoderSlotPool Hidden Frame :=
  if slotLatents.entries.isEmpty then (.ok ∅, pool)
  else
    match pool.checkStep vae slotLatents with
    | .error e => (.error e, pool)
    | .ok stepT =>
      let slots := slotLatents.keys
      let rows := slots.map pool.rows
      match forward vae (slotLatents.entries.map Prod.snd) (rows.map (·.hidden))
          (rows.map (·.window))
          (rows.map fun row => (min row.totalFrames vae.windowSize : ℕ)) with
      | .error e => (.error e, pool)
      | .ok (audioWindow, hidden, newWindow) =>
        sliceRows vae stepT (slots.zip audioWindow) ∅
          (writeRows (slots.zip (hidden.zip newWindow)) pool)

def flush (slot : ℕ) : Except String (List Sample) × DotsVocoderSlotPool Hidden Frame :=
  if slot ∉ pool.inUse then
    (.error s!"dots.tts streaming flush referenced free slot {slot}", pool)
  else
    let row := pool.rows slot
    let sliced := row.sliceAudio vae (vae.decodeStreamWindow row.window) true
    (sliced.1, pool.setRow slot sliced.2)

/-! ### Slots -/

def slots : ℕ × List ℕ × Finset ℕ := (pool.numSlots, pool.freeSlots, pool.inUse)

/-- Every slot is free or in use, and not both. -/
structure SlotsKept : Prop where
  nodup : pool.freeSlots.Nodup
  mem_free : ∀ slot, slot ∈ pool.freeSlots ↔ slot < pool.numSlots ∧ slot ∉ pool.inUse
  lt_of_use : ∀ slot ∈ pool.inUse, slot < pool.numSlots

variable {vae} {pool} {pool' : DotsVocoderSlotPool Hidden Frame}

omit [Zero Frame] in
@[simp] theorem slots_writeRows (l : List (ℕ × Hidden × List Frame)) :
    (writeRows l pool).slots = pool.slots := by
  induction l generalizing pool with
  | nil => rfl
  | cons w rest ih => exact ih

omit [Zero Frame] in
@[simp] theorem slots_sliceRows (stepT : ℕ) (l : List (ℕ × List Sample))
    (out : Dict ℕ (List Sample)) : (sliceRows vae stepT l out pool).2.slots = pool.slots := by
  induction l generalizing out pool with
  | nil => rfl
  | cons w rest ih =>
    rw [sliceRows]
    split
    · rfl
    · exact ih _

theorem slots_step (vae : VocoderInference Latent Hidden Frame Sample)
    (pool : DotsVocoderSlotPool Hidden Frame) (slotLatents : Dict ℕ (List Latent)) :
    (pool.step vae slotLatents).2.slots = pool.slots := by
  unfold step
  split
  · rfl
  split
  · rfl
  dsimp only
  split
  · rfl
  · rw [slots_sliceRows, slots_writeRows]

omit [Zero Frame] in
theorem slots_flush (vae : VocoderInference Latent Hidden Frame Sample)
    (pool : DotsVocoderSlotPool Hidden Frame) (slot : ℕ) : (pool.flush vae slot).2.slots = pool.slots := by
  unfold flush
  split <;> rfl

theorem SlotsKept.init {numSlots chunkSize : ℤ}
    (h : DotsVocoderSlotPool.init vae numSlots chunkSize = .ok pool) : pool.SlotsKept := by
  unfold DotsVocoderSlotPool.init at h
  split at h
  · cases h
  split at h
  · cases h
  cases h
  exact ⟨List.nodup_reverse.mpr List.nodup_range, by simp, nofun⟩

omit [Zero Frame] in
theorem SlotsKept.congr (h : pool.SlotsKept) (hslots : pool'.slots = pool.slots) : pool'.SlotsKept := by
  obtain ⟨hnum, hfree, huse⟩ : _ ∧ _ ∧ _ := by simpa [slots] using hslots
  constructor
  · rw [hfree]
    exact h.nodup
  · rw [hfree, hnum, huse]
    exact h.mem_free
  · rw [hnum, huse]
    exact h.lt_of_use

theorem SlotsKept.acquire (h : pool.SlotsKept) {slot : ℕ}
    (heq : pool.acquire vae = .ok (slot, pool')) : pool'.SlotsKept := by
  unfold DotsVocoderSlotPool.acquire at heq
  split at heq
  · cases heq
  · next last hlast =>
    have hfree := List.dropLast_append_getLast? last hlast
    have hnodup := h.nodup
    have hmem := h.mem_free
    rw [← hfree] at hnodup hmem
    obtain ⟨hrest, -, hnot⟩ := List.nodup_append.mp hnodup
    cases heq
    refine ⟨hrest, fun other => ?_, fun other hother => ?_⟩
    · have hother := hmem other
      by_cases heq : other = slot
      · have hnot : slot ∉ pool.freeSlots.dropLast := fun hmem =>
          hnot slot hmem slot (List.mem_singleton_self slot) rfl
        simp [DotsVocoderSlotPool.resetSlot, setRow, heq, hnot]
      · simpa [DotsVocoderSlotPool.resetSlot, setRow, heq] using hother
    · rcases Finset.mem_insert.mp hother with rfl | hother
      · exact ((hmem other).mp (by simp)).1
      · exact h.lt_of_use other hother

theorem SlotsKept.release (h : pool.SlotsKept) (slot : ℕ) : (pool.release vae slot).SlotsKept := by
  unfold DotsVocoderSlotPool.release
  split
  · exact h
  · next huse =>
    have huse := not_not.mp huse
    have hlt := h.lt_of_use slot huse
    have hfree : slot ∉ pool.freeSlots := fun hmem => ((h.mem_free slot).mp hmem).2 huse
    refine ⟨List.nodup_append.mpr ⟨h.nodup, List.nodup_singleton slot, ?_⟩, fun other => ?_,
      fun other hother => h.lt_of_use other (Finset.mem_of_mem_erase hother)⟩
    · rintro other hmem _ hslot rfl
      exact hfree (List.mem_singleton.mp hslot ▸ hmem)
    · have hother := h.mem_free other
      by_cases heq : other = slot
      · subst heq
        simp [DotsVocoderSlotPool.resetSlot, setRow, hlt]
      · simpa [DotsVocoderSlotPool.resetSlot, setRow, heq] using hother

end DotsVocoderSlotPool

end DotsTts
