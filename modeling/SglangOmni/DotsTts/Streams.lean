import SglangOmni.DotsTts.SlotPool
import SglangOmni.Lib.Except

/-! The streams that the slots hold.  A stream by itself is its frames in order and the number of them that have
gone out as audio; the rows of the pool show the streams through windows of a fixed size. -/

namespace DotsTts

open Lib

/-- A stream without the pool: all its frames, and how many of them are out as audio. -/
structure StreamState (Hidden Frame : Type) where
  hidden : Hidden
  frames : List Frame
  emitted : ℕ

variable {Latent Hidden Frame Sample : Type} [Zero Frame]
  (vae : VocoderInference Latent Hidden Frame Sample)

/-- The samples of the frames from `first` up to `last`, as the window that shows `frames` gives them. -/
def VocoderInference.samples (frames : List Frame) (first last : ℕ) : List Sample :=
  let start := frames.length - vae.windowSize
  ((vae.decodeStreamWindow (shown vae.windowSize frames)).take
    ((last - start) * vae.hopSize)).drop ((first - start) * vae.hopSize)

namespace StreamState

variable (s : StreamState Hidden Frame)

def fresh : StreamState Hidden Frame := ⟨vae.initHidden, [], 0⟩

def feed (latents : List Latent) : StreamState Hidden Frame :=
  let decoded := vae.decodeStreamLatents latents s.hidden
  { s with hidden := decoded.2, frames := s.frames ++ decoded.1 }

def stableEnd (final : Bool) : ℕ :=
  if final then s.frames.length else s.frames.length - vae.lookahead

def piece (final : Bool) : List Sample :=
  vae.samples s.frames s.emitted (s.stableEnd vae final)

def emit (final : Bool) : StreamState Hidden Frame :=
  { s with emitted := max s.emitted (s.stableEnd vae final) }

/-- The row of the pool that shows the stream. -/
def row : SlotRow Hidden Frame :=
  ⟨s.hidden, shown vae.windowSize s.frames, s.frames.length, s.emitted⟩

/-- All but the frames that the decoder still looks at are out. -/
structure Sound : Prop where
  emitted_le : s.emitted ≤ s.frames.length
  le_emitted : s.frames.length ≤ s.emitted + vae.lookahead

variable {vae s}

theorem row_fresh : (fresh vae).row vae = .zero vae := by
  simp [fresh, row, SlotRow.zero, shown]

omit [Zero Frame] in
theorem length_feed (vae : VocoderInference Latent Hidden Frame Sample)
    (s : StreamState Hidden Frame) (latents : List Latent) :
    (s.feed vae latents).frames.length = s.frames.length + latents.length := by
  rw [feed, List.length_append, vae.length_decodeStreamLatents]

theorem sliceAudio_row (h : s.frames.length - vae.windowSize ≤ s.emitted) (final : Bool) :
    (s.row vae).sliceAudio vae
      (vae.decodeStreamWindow (shown vae.windowSize s.frames)) final =
      (.ok (s.piece vae final), (s.emit vae final).row vae) := by
  have hstart : s.frames.length - min s.frames.length vae.windowSize =
      s.frames.length - vae.windowSize := by omega
  have hend : (if final then s.frames.length else s.frames.length - vae.lookahead) =
      s.stableEnd vae final := rfl
  simp only [SlotRow.sliceAudio, row, hstart, hend]
  by_cases hend : s.stableEnd vae final ≤ s.emitted
  · rw [if_pos hend, emit, max_eq_left hend, piece, VocoderInference.samples, List.drop_eq_nil_of_le]
    rw [List.length_take]
    exact (Nat.min_le_left _ _).trans (Nat.mul_le_mul_right _ (by omega))
  · rw [if_neg hend, if_neg (by omega), emit, max_eq_right (by omega)]
    rfl

omit [Zero Frame] in
theorem Sound.emit (hle : s.emitted ≤ s.frames.length) (final : Bool) :
    (s.emit vae final).Sound vae := by
  cases final <;> constructor <;> simp [StreamState.emit, stableEnd] <;> omega

omit [Zero Frame] in
theorem Sound.fed (h : s.Sound vae) (latents : List Latent) :
    ((s.feed vae latents).emit vae false).Sound vae := by
  apply Sound.emit
  rw [length_feed]
  exact h.emitted_le.trans (Nat.le_add_right _ _)

end StreamState

namespace DotsVocoderSlotPool

variable {vae} {pool : DotsVocoderSlotPool Hidden Frame}

/-! ### A batch, row by row -/

def withRows (pool : DotsVocoderSlotPool Hidden Frame) (slots : List ℕ)
    (next : ℕ → SlotRow Hidden Frame) : DotsVocoderSlotPool Hidden Frame :=
  { pool with rows := fun slot => if slot ∈ slots then next slot else pool.rows slot }

omit [Zero Frame] in
theorem setRow_withRows {slot : ℕ} {slots : List ℕ} {next : ℕ → SlotRow Hidden Frame}
    (h : slot ∉ slots) :
    (pool.setRow slot (next slot)).withRows slots next = pool.withRows (slot :: slots) next := by
  simp only [withRows, setRow, DotsVocoderSlotPool.mk.injEq, true_and, and_true]
  funext other
  by_cases hother : other = slot
  · subst hother
    simp [h]
  · simp [hother]

omit [Zero Frame] in
theorem withRows_withRows (slots : List ℕ) (next next' : ℕ → SlotRow Hidden Frame) :
    (pool.withRows slots next).withRows slots next' = pool.withRows slots next' := by
  simp only [withRows, DotsVocoderSlotPool.mk.injEq, true_and, and_true]
  funext slot
  by_cases hslot : slot ∈ slots <;> simp [hslot]

omit [Zero Frame] in
theorem writeRows_eq (next : ℕ → SlotRow Hidden Frame) {l : List (ℕ × Hidden × List Frame)}
    (hl : (l.map Prod.fst).Nodup)
    (h : ∀ w ∈ l, next w.1 = { pool.rows w.1 with hidden := w.2.1, window := w.2.2 }) :
    writeRows l pool = pool.withRows (l.map Prod.fst) next := by
  induction l generalizing pool with
  | nil => simp [writeRows, withRows]
  | cons w rest ih =>
    obtain ⟨hhead, hrest⟩ := List.nodup_cons.mp hl
    rw [writeRows, ← h w List.mem_cons_self, ih hrest, setRow_withRows hhead, List.map_cons]
    intro w' hw'
    have hne : w'.1 ≠ w.1 := fun heq => hhead (heq ▸ List.mem_map_of_mem hw')
    rw [h w' (List.mem_cons_of_mem _ hw'), rows_setRow_ne _ _ hne]

omit [Zero Frame] in
theorem sliceRows_eq (piece : ℕ → List Sample) (next : ℕ → SlotRow Hidden Frame) {stepT : ℕ}
    {l : List (ℕ × List Sample)} (hl : (l.map Prod.fst).Nodup) {out : Dict ℕ (List Sample)}
    (h : ∀ w ∈ l, { pool.rows w.1 with totalFrames := (pool.rows w.1).totalFrames + stepT }.sliceAudio
      vae w.2 false = (.ok (piece w.1), next w.1)) :
    sliceRows vae stepT l out pool =
      (.ok ((l.map Prod.fst).foldl (fun out slot => out.set slot (piece slot)) out),
        pool.withRows (l.map Prod.fst) next) := by
  induction l generalizing pool out with
  | nil => simp [sliceRows, withRows]
  | cons w rest ih =>
    obtain ⟨hhead, hrest⟩ := List.nodup_cons.mp hl
    rw [sliceRows, h w List.mem_cons_self]
    dsimp only
    rw [ih hrest, setRow_withRows hhead, List.map_cons, List.foldl_cons]
    intro w' hw'
    have hne : w'.1 ≠ w.1 := fun heq => hhead (heq ▸ List.mem_map_of_mem hw')
    rw [rows_setRow_ne _ _ hne]
    exact h w' (List.mem_cons_of_mem _ hw')

/-! ### A step over rows that show streams -/

omit [Zero Frame] in
theorem of_checkStep {slotLatents : Dict ℕ (List Latent)} {stepT : ℕ}
    (h : pool.checkStep vae slotLatents = .ok stepT) :
    slotLatents.entries ≠ [] ∧ 1 ≤ stepT ∧ stepT < vae.windowSize ∧
      (∀ e ∈ slotLatents.entries, e.2.length = stepT) ∧ ∀ slot ∈ slotLatents.keys, slot ∈ pool.inUse := by
  unfold checkStep at h
  simp only at h
  split at h
  · next t hlengths =>
    by_cases hpos : t < 1
    · rw [if_pos hpos] at h
      cases h
    rw [if_neg hpos] at h
    by_cases hlt : t ≥ vae.windowSize
    · rw [if_pos hlt] at h
      cases h
    rw [if_neg hlt] at h
    obtain ⟨u, hslots, h⟩ := bind_eq_ok.mp h
    cases h
    refine ⟨fun hnil => ?_, by omega, by omega, fun e he => ?_, fun slot hslot => ?_⟩
    · rw [hnil] at hlengths
      cases hlengths
    · have hmem := List.mem_dedup.mpr (List.mem_map_of_mem (f := fun e => e.2.length) he)
      rw [hlengths] at hmem
      exact List.mem_singleton.mp hmem
    · by_contra hnot
      have hslot := forM_eq_ok.mp hslots slot hslot
      rw [if_pos hnot] at hslot
      cases hslot
  · cases h

theorem forward_row {entries : List (ℕ × List Latent)} {stream : ℕ → StreamState Hidden Frame}
    (h : ∀ e ∈ entries, e.2.length < vae.windowSize) :
    forward vae (entries.map Prod.snd) (entries.map fun e => ((stream e.1).row vae).hidden)
      (entries.map fun e => ((stream e.1).row vae).window)
      (entries.map fun e =>
        ((min ((stream e.1).row vae).totalFrames vae.windowSize : ℕ) : ℤ)) =
      .ok (entries.map fun e => vae.decodeStreamWindow
          (shown vae.windowSize ((stream e.1).feed vae e.2).frames),
        entries.map fun e => ((stream e.1).feed vae e.2).hidden,
        entries.map fun e =>
          shown vae.windowSize ((stream e.1).feed vae e.2).frames) := by
  have hrows : (entries.map fun e => (((vae.decodeStreamLatents e.2 (stream e.1).hidden).1,
      shown vae.windowSize (stream e.1).frames,
      ((min (stream e.1).frames.length vae.windowSize : ℕ) : ℤ)))).mapM
        (fun row => appendRow row.1 row.2.1 row.2.2) =
      .ok (entries.map fun e =>
        shown vae.windowSize ((stream e.1).feed vae e.2).frames) := by
    refine mapM_of_forall_ok fun e he => appendRow_shown _ ?_
    rw [vae.length_decodeStreamLatents]
    exact h e he
  simp only [StreamState.row, forward, appendDecoderInputPerRow, List.zip_map', List.map_map, List.length_map,
    ne_eq, not_true_eq_false, if_false, Function.comp_def, hrows]
  refine congrArg Except.ok ?_
  rw [List.map_map]
  rfl

/-- A step that passes the checks feeds every stream of the batch and lets out its next piece. -/
theorem step_row {slotLatents : Dict ℕ (List Latent)} {stepT : ℕ}
    {stream : ℕ → StreamState Hidden Frame} (hcheck : pool.checkStep vae slotLatents = .ok stepT)
    (hrow : ∀ slot ∈ pool.inUse, pool.rows slot = (stream slot).row vae)
    (hsound : ∀ slot ∈ pool.inUse, (stream slot).Sound vae)
    (hfits : stepT + vae.lookahead ≤ vae.windowSize) :
    pool.step vae slotLatents =
      (.ok (slotLatents.keys.foldl (fun out slot => out.set slot
          (((stream slot).feed vae ((slotLatents.get? slot).getD [])).piece vae false)) ∅),
        pool.withRows slotLatents.keys fun slot =>
          (((stream slot).feed vae ((slotLatents.get? slot).getD [])).emit vae
            false).row vae) := by
  obtain ⟨hne, -, hlt, hlength, huse⟩ := of_checkStep hcheck
  have hkeys : ∀ e ∈ slotLatents.entries, e.1 ∈ slotLatents.keys := fun e he =>
    List.mem_map_of_mem he
  have hget : ∀ e ∈ slotLatents.entries, slotLatents.get? e.1 = some e.2 := fun e he =>
    (slotLatents.mem_entries_iff e.1 e.2).mp he
  let fed slot := (stream slot).feed vae ((slotLatents.get? slot).getD [])
  have hfed : ∀ e ∈ slotLatents.entries, (stream e.1).feed vae e.2 = fed e.1 := fun e he => by
    simp only [fed, hget e he, Option.getD_some]
  have hrows : ∀ e ∈ slotLatents.entries, pool.rows e.1 = (stream e.1).row vae := fun e he =>
    hrow e.1 (huse e.1 (hkeys e he))
  have hcolumn {γ : Type} (f : SlotRow Hidden Frame → γ) : (slotLatents.keys.map pool.rows).map f =
      slotLatents.entries.map fun e => f ((stream e.1).row vae) := by
    rw [Dict.keys, List.map_map, List.map_map]
    exact List.map_congr_left fun e he => congrArg f (hrows e he)
  rw [step, if_neg (by simpa using hne), hcheck]
  dsimp only
  rw [hcolumn, hcolumn, hcolumn, forward_row fun e he => (hlength e he).trans_lt hlt]
  dsimp only
  rw [Dict.keys, List.zip_map', List.zip_map', List.zip_map']
  let written slot := { pool.rows slot with
    hidden := (fed slot).hidden, window := shown vae.windowSize (fed slot).frames }
  have hfst {γ : Type} (f : ℕ × List Latent → γ) :
      (slotLatents.entries.map fun e => (e.1, f e)).map Prod.fst = slotLatents.keys := by
    rw [List.map_map]
    rfl
  rw [writeRows_eq written (by rw [hfst]; exact slotLatents.nodup), hfst,
    sliceRows_eq (fun slot => (fed slot).piece vae false)
      (fun slot => ((fed slot).emit vae false).row vae)
      (by rw [hfst]; exact slotLatents.nodup), hfst, withRows_withRows]
  · rfl
  · intro w hw
    obtain ⟨e, he, rfl⟩ := List.mem_map.mp hw
    have hsound := (hsound e.1 (huse e.1 (hkeys e he))).le_emitted
    have hgrown : (fed e.1).frames.length = (stream e.1).frames.length + stepT := by
      rw [← hfed e he, StreamState.length_feed, hlength e he]
    have hemitted : (fed e.1).emitted = (stream e.1).emitted := rfl
    have hrow' : (pool.withRows slotLatents.keys written).rows e.1 = written e.1 := if_pos (hkeys e he)
    dsimp only
    rw [hrow', hfed e he, ← StreamState.sliceAudio_row (by omega)]
    simp only [written, hrows e he, StreamState.row, hgrown, hemitted]
  · intro w hw
    obtain ⟨e, he, rfl⟩ := List.mem_map.mp hw
    dsimp only [written]
    rw [← hfed e he]

end DotsVocoderSlotPool

end DotsTts
