import SglangOmni.DotsTts.Streams

/-! Runs of the slot pool.  Whatever the calls and however the slots are batched, what is heard from a slot is what
its own chunks give in a stream alone. -/

namespace DotsTts

open Lib

/-- What a slot was asked for since it was acquired. -/
inductive StreamEvent (Latent : Type)
  | fed (latents : List Latent)
  | flushed

inductive PoolCall (Latent : Type)
  | acquire
  | release (slot : ℕ)
  | step (slotLatents : Dict ℕ (List Latent))
  | flush (slot : ℕ)

/-- The pool, with what was asked of each slot and the audio it gave. -/
structure Service (Latent Hidden Frame Sample : Type) where
  pool : DotsVocoderSlotPool Hidden Frame
  asked : ℕ → List (StreamEvent Latent) := fun _ => []
  heard : ℕ → List (List Sample) := fun _ => []

variable {Latent Hidden Frame Sample : Type} [Zero Frame]
  (vae : VocoderInference Latent Hidden Frame Sample)

namespace StreamState

def next (s : StreamState Hidden Frame) : StreamEvent Latent → StreamState Hidden Frame
  | .fed latents => (s.feed vae latents).emit vae false
  | .flushed => s.emit vae true

def gives (s : StreamState Hidden Frame) : StreamEvent Latent → List Sample
  | .fed latents => (s.feed vae latents).piece vae false
  | .flushed => s.piece vae true

/-- The stream that the events leave when no other stream is there. -/
def replay (events : List (StreamEvent Latent)) : StreamState Hidden Frame :=
  events.foldl (next vae) (fresh vae)

/-- The audio of a stream alone. -/
def pieces : StreamState Hidden Frame → List (StreamEvent Latent) → List (List Sample)
  | _, [] => []
  | s, event :: rest => s.gives vae event :: pieces (s.next vae event) rest

variable {vae}

omit [Zero Frame] in
theorem replay_concat (events : List (StreamEvent Latent)) (event : StreamEvent Latent) :
    replay vae (events ++ [event]) = (replay vae events).next vae event :=
  List.foldl_concat _ _ _ _

theorem pieces_concat (s : StreamState Hidden Frame) (events : List (StreamEvent Latent))
    (event : StreamEvent Latent) : pieces vae s (events ++ [event]) =
      pieces vae s events ++ [(events.foldl (next vae) s).gives vae event] := by
  induction events generalizing s with
  | nil => rfl
  | cons first rest ih => simp only [List.cons_append, pieces, ih, List.foldl_cons]

end StreamState

namespace Service

open StreamState

def serve (service : Service Latent Hidden Frame Sample) :
    PoolCall Latent → Service Latent Hidden Frame Sample
  | .acquire =>
    match service.pool.acquire vae with
    | .error _ => service
    | .ok (slot, pool) =>
      ⟨pool, Function.update service.asked slot [], Function.update service.heard slot []⟩
  | .release slot => { service with pool := service.pool.release vae slot }
  | .step slotLatents =>
    match service.pool.step vae slotLatents with
    | (.error _, pool) => { service with pool }
    | (.ok out, pool) =>
      ⟨pool, fun slot => service.asked slot ++ ((slotLatents.get? slot).map .fed).toList,
        fun slot => service.heard slot ++ (out.get? slot).toList⟩
  | .flush slot =>
    match service.pool.flush vae slot with
    | (.error _, pool) => { service with pool }
    | (.ok piece, pool) =>
      ⟨pool, Function.update service.asked slot (service.asked slot ++ [.flushed]),
        Function.update service.heard slot (service.heard slot ++ [piece])⟩

def run (pool : DotsVocoderSlotPool Hidden Frame) (calls : List (PoolCall Latent)) :
    Service Latent Hidden Frame Sample :=
  calls.foldl (serve vae) { pool }

/-- The step of a call leaves room in the window for the frames that the decoder still looks at, and for
`context` more. -/
def Fits (context : ℕ) : PoolCall Latent → Prop
  | .step slotLatents => ∀ e ∈ slotLatents.entries,
      e.2.length + vae.lookahead + context ≤ vae.windowSize
  | _ => True

/-- `service` is what some calls with steps that fit leave of a new pool. -/
def Reached (context : ℕ) (service : Service Latent Hidden Frame Sample) : Prop :=
  ∃ (numSlots chunkSize : ℤ) (pool : DotsVocoderSlotPool Hidden Frame) (calls : List (PoolCall Latent)),
    DotsVocoderSlotPool.init vae numSlots chunkSize = .ok pool ∧
      (∀ call ∈ calls, Fits vae context call) ∧ run vae pool calls = service

/-- The row holds the stream that the events leave, and the audio is that of the stream alone. -/
structure Held (context : ℕ) (row : SlotRow Hidden Frame) (asked : List (StreamEvent Latent))
    (heard : List (List Sample)) : Prop where
  row_eq : row = (replay vae asked).row vae
  sound : (replay vae asked).Sound vae
  near : (replay vae asked).frames.length ≤ (replay vae asked).emitted + vae.windowSize
  heard_eq : heard = pieces vae (fresh vae) asked
  fits : ∀ latents, .fed latents ∈ asked →
    latents.length + vae.lookahead + context ≤ vae.windowSize

def Apart (context : ℕ) (service : Service Latent Hidden Frame Sample) : Prop :=
  ∀ slot ∈ service.pool.inUse,
    Held vae context (service.pool.rows slot) (service.asked slot) (service.heard slot)

variable {vae} {service : Service Latent Hidden Frame Sample} {row : SlotRow Hidden Frame}
  {asked : List (StreamEvent Latent)} {heard : List (List Sample)} {context : ℕ}

theorem Held.zero : Held vae context (.zero vae) [] [] :=
  ⟨row_fresh.symm, ⟨Nat.le_refl 0, Nat.zero_le _⟩, Nat.zero_le _, rfl, nofun⟩

theorem Held.next (h : Held vae context row asked heard) (event : StreamEvent Latent)
    (hfits : ∀ latents, event = .fed latents →
      latents.length + vae.lookahead + context ≤ vae.windowSize) :
    Held vae context (((replay vae asked).next vae event).row vae) (asked ++ [event])
      (heard ++ [(replay vae asked).gives vae event]) where
  row_eq := by rw [replay_concat]
  sound := by
    rw [replay_concat]
    cases event with
    | fed latents => exact h.sound.fed latents
    | flushed => exact .emit h.sound.emitted_le true
  near := by
    have hle := h.sound.le_emitted
    have hnear := h.near
    rw [replay_concat]
    cases event with
    | fed latents =>
      have hfits := hfits latents rfl
      have hlength := length_feed vae (replay vae asked) latents
      have hmax : (replay vae asked).emitted ≤
          ((replay vae asked).next vae (.fed latents)).emitted := Nat.le_max_left _ _
      have hframes : ((replay vae asked).next vae (.fed latents)).frames.length =
          ((replay vae asked).feed vae latents).frames.length := rfl
      omega
    | flushed => exact (Nat.le_max_right _ _).trans (Nat.le_add_right _ _)
  heard_eq := by
    rw [h.heard_eq, pieces_concat]
    rfl
  fits latents hmem := by
    rcases List.mem_append.mp hmem with hmem | hmem
    · exact h.fits latents hmem
    · exact hfits latents (List.mem_singleton.mp hmem).symm

theorem apart_acquire (h : Apart vae context service) : Apart vae context (service.serve vae .acquire) := by
  simp only [serve, DotsVocoderSlotPool.acquire]
  split
  · exact h
  · next slot pool hpool =>
    split at hpool
    · cases hpool
    · cases hpool
      intro other hother
      by_cases heq : other = slot
      · subst heq
        simpa [DotsVocoderSlotPool.resetSlot] using Held.zero
      · have hother := Finset.mem_of_mem_insert_of_ne hother heq
        simpa [DotsVocoderSlotPool.resetSlot, DotsVocoderSlotPool.setRow, heq] using h other hother

theorem apart_release (h : Apart vae context service) (slot : ℕ) :
    Apart vae context (service.serve vae (.release slot)) := by
  simp only [serve, DotsVocoderSlotPool.release]
  split
  · exact h
  · intro other hother
    obtain ⟨hne, hother⟩ := Finset.mem_erase.mp hother
    simpa [DotsVocoderSlotPool.resetSlot, DotsVocoderSlotPool.setRow, hne] using h other hother

theorem flush_eq (h : Apart vae context service) {slot : ℕ} (hslot : slot ∈ service.pool.inUse) :
    service.pool.flush vae slot =
      (.ok ((replay vae (service.asked slot)).gives vae .flushed),
        service.pool.setRow slot
          (((replay vae (service.asked slot)).next vae .flushed).row vae)) := by
  have hheld := h slot hslot
  have hnear := hheld.near
  simp only [DotsVocoderSlotPool.flush, not_not.mpr hslot, if_false, hheld.row_eq]
  rw [show ((replay vae (service.asked slot)).row vae).window =
    shown vae.windowSize (replay vae (service.asked slot)).frames from rfl,
    sliceAudio_row (by omega)]
  rfl

theorem apart_flush (h : Apart vae context service) (slot : ℕ) :
    Apart vae context (service.serve vae (.flush slot)) := by
  by_cases hslot : slot ∈ service.pool.inUse
  · simp only [serve, flush_eq h hslot]
    intro other hother
    by_cases heq : other = slot
    · subst heq
      simpa using (h other hother).next .flushed nofun
    · simpa [DotsVocoderSlotPool.setRow, heq] using h other hother
  · simp only [serve, DotsVocoderSlotPool.flush, if_pos hslot]
    exact h

theorem get?_foldl_set (piece : ℕ → List Sample) (slots : List ℕ) (out : Dict ℕ (List Sample)) (slot : ℕ) :
    (slots.foldl (fun out slot => out.set slot (piece slot)) out).get? slot =
      if slot ∈ slots then some (piece slot) else out.get? slot := by
  induction slots generalizing out with
  | nil => rfl
  | cons first rest ih =>
    rw [List.foldl_cons, ih, Dict.get?_set]
    by_cases hfirst : slot = first <;> by_cases hrest : slot ∈ rest <;> simp [hfirst, hrest]

theorem step_eq (h : Apart vae context service) {slotLatents : Dict ℕ (List Latent)} {stepT : ℕ}
    (hfits : Fits vae context (.step slotLatents))
    (hcheck : service.pool.checkStep vae slotLatents = .ok stepT) :
    service.pool.step vae slotLatents =
      (.ok (slotLatents.keys.foldl (fun out slot => out.set slot
          ((replay vae (service.asked slot)).gives vae
            (.fed ((slotLatents.get? slot).getD [])))) ∅),
        service.pool.withRows slotLatents.keys fun slot =>
          ((replay vae (service.asked slot)).next vae
            (.fed ((slotLatents.get? slot).getD []))).row vae) := by
  obtain ⟨hne, -, -, hlength, -⟩ := DotsVocoderSlotPool.of_checkStep hcheck
  obtain ⟨e, he⟩ := List.exists_mem_of_ne_nil _ hne
  have hfits : _ ≤ _ := hfits e he
  rw [hlength e he] at hfits
  exact DotsVocoderSlotPool.step_row hcheck (fun slot hslot => (h slot hslot).row_eq)
    (fun slot hslot => (h slot hslot).sound) (by omega)

theorem apart_step (h : Apart vae context service) {slotLatents : Dict ℕ (List Latent)}
    (hfits : Fits vae context (.step slotLatents)) :
    Apart vae context (service.serve vae (.step slotLatents)) := by
  by_cases hempty : slotLatents.entries.isEmpty = true
  · have hnone : ∀ slot, slotLatents.get? slot = none := fun slot => by
      simp [Dict.get?, List.isEmpty_iff.mp hempty]
    simp only [serve, DotsVocoderSlotPool.step, if_pos hempty, hnone]
    simpa using h
  cases hcheck : service.pool.checkStep vae slotLatents with
  | error e =>
    simp only [serve, DotsVocoderSlotPool.step, if_neg hempty, hcheck]
    exact h
  | ok stepT =>
    simp only [serve, step_eq h hfits hcheck]
    intro slot hslot
    have hheld := h slot hslot
    by_cases hkey : slot ∈ slotLatents.keys
    · obtain ⟨latents, hlatents⟩ := (slotLatents.mem_keys_iff slot).mp hkey
      simpa [DotsVocoderSlotPool.withRows, hkey, hlatents, get?_foldl_set] using
        hheld.next (.fed latents) fun _ heq => by
          cases heq
          exact hfits (slot, latents) ((slotLatents.mem_entries_iff slot latents).mpr hlatents)
    · have hnone : slotLatents.get? slot = none := by
        by_contra hsome
        obtain ⟨latents, hlatents⟩ := Option.ne_none_iff_exists'.mp hsome
        exact hkey ((slotLatents.mem_keys_iff slot).mpr ⟨latents, hlatents⟩)
      simpa [DotsVocoderSlotPool.withRows, hkey, hnone, get?_foldl_set] using hheld

theorem apart_of_reached (h : Reached vae context service) :
    Apart vae context service := by
  obtain ⟨numSlots, chunkSize, pool, calls, hinit, hfits, rfl⟩ := h
  have hpool : Apart vae context ({ pool } : Service Latent Hidden Frame Sample) := by
    unfold DotsVocoderSlotPool.init at hinit
    split at hinit
    · cases hinit
    split at hinit
    · cases hinit
    cases hinit
    intro slot hslot
    cases hslot
  refine List.foldlRecOn calls (serve vae) hpool fun service hservice call hcall => ?_
  have hcall := hfits call hcall
  cases call with
  | acquire => exact apart_acquire hservice
  | release slot => exact apart_release hservice slot
  | step slotLatents => exact apart_step hservice hcall
  | flush slot => exact apart_flush hservice slot

theorem slotsKept_run {pool : DotsVocoderSlotPool Hidden Frame} (h : pool.SlotsKept)
    (calls : List (PoolCall Latent)) :
    (run vae pool calls).pool.SlotsKept := by
  have hpool : ({ pool } : Service Latent Hidden Frame Sample).pool.SlotsKept := h
  refine List.foldlRecOn (motive := fun service => service.pool.SlotsKept) calls (serve vae) hpool
    fun service hservice call _ => ?_
  cases call with
  | acquire =>
    simp only [serve]
    split
    · exact hservice
    · next heq => exact hservice.acquire heq
  | release slot => exact hservice.release slot
  | step slotLatents =>
    simp only [serve]
    have hslots := DotsVocoderSlotPool.slots_step vae service.pool slotLatents
    split <;> next heq => exact hservice.congr (by rw [← hslots, heq])
  | flush slot =>
    simp only [serve]
    have hslots := DotsVocoderSlotPool.slots_flush vae service.pool slot
    split <;> next heq => exact hservice.congr (by rw [← hslots, heq])

/-! ### Results -/

/-- In every run each slot is free or in use, and not both. -/
theorem slots_partition {numSlots chunkSize : ℤ} {pool : DotsVocoderSlotPool Hidden Frame}
    (hinit : DotsVocoderSlotPool.init vae numSlots chunkSize = .ok pool)
    (calls : List (PoolCall Latent)) (hrun : run vae pool calls = service) :
    service.pool.freeSlots.Nodup ∧
      (∀ slot, slot ∈ service.pool.freeSlots ↔ slot < service.pool.numSlots ∧ slot ∉ service.pool.inUse) ∧
      (∀ slot ∈ service.pool.inUse, slot < service.pool.numSlots) := by
  have h : service.pool.SlotsKept := hrun ▸ slotsKept_run (.init hinit) calls
  exact ⟨h.nodup, h.mem_free, h.lt_of_use⟩

/-- A decoder that gives every latent as one frame and every frame as one sample. -/
def echo : VocoderInference ℕ Unit ℕ ℕ where
  initHidden := ()
  windowSize := 4
  lookahead := 1
  hopSize := 1
  decodeStreamLatents latents _ := (latents, ())
  decodeStreamWindow window := window
  length_decodeStreamLatents _ _ := rfl
  length_decodeStreamWindow _ := (Nat.mul_one _).symm

def echoPool : DotsVocoderSlotPool Unit ℕ := ⟨2, fun _ => .zero echo, [1, 0], ∅⟩

/-- Two streams, of which the first is a step ahead and is flushed. -/
def echoCalls : List (PoolCall ℕ) :=
  [.acquire, .acquire, .step ⟨[(0, [1, 2])], by decide⟩,
    .step ⟨[(0, [3, 4]), (1, [7, 8])], by decide⟩, .flush 0]

theorem slots_partition_echo :
    (run echo echoPool (echoCalls ++ [.release 0])).pool.freeSlots = [0] ∧
    (run echo echoPool (echoCalls ++ [.release 0])).pool.freeSlots.Nodup :=
  ⟨by decide +kernel, (slots_partition
    (show DotsVocoderSlotPool.init echo 2 1 = .ok echoPool from rfl) _ rfl).1⟩

theorem reached_echo : Reached echo 0 (run echo echoPool echoCalls) := by
  refine ⟨2, 1, echoPool, echoCalls, rfl, ?_, rfl⟩
  simp only [echoCalls, List.forall_mem_cons, Fits]
  simp [echo]

/-- In every run each slot in use holds, in its window, the last frames of its own stream, the audio heard from it is
that of the stream alone, and neither a step that passes the checks nor a flush fails. -/
theorem heard_alone (h : Reached vae context service) :
    (∀ slot ∈ service.pool.inUse,
      (service.pool.rows slot).window =
          shown vae.windowSize (replay vae (service.asked slot)).frames ∧
        (service.pool.rows slot).totalFrames = (replay vae (service.asked slot)).frames.length ∧
        service.heard slot = pieces vae (fresh vae) (service.asked slot) ∧
        (service.pool.flush vae slot).1.isOk = true) ∧
      ∀ slotLatents, Fits vae context (.step slotLatents) →
        (service.pool.checkStep vae slotLatents).isOk = true →
        (service.pool.step vae slotLatents).1.isOk = true := by
  have hapart := apart_of_reached h
  refine ⟨fun slot hslot => ?_, fun slotLatents hfits hcheck => ?_⟩
  · have hheld := hapart slot hslot
    refine ⟨by rw [hheld.row_eq]; rfl, by rw [hheld.row_eq]; rfl, hheld.heard_eq, ?_⟩
    rw [flush_eq hapart hslot]
    rfl
  · obtain ⟨stepT, hstepT⟩ := exists_of_isOk hcheck
    rw [step_eq hapart hfits hstepT]
    rfl

theorem heard_alone_echo :
    (run echo echoPool echoCalls).heard 1 = [[7]] ∧
    (run echo echoPool echoCalls).heard 1 =
      pieces echo (fresh echo) ((run echo echoPool echoCalls).asked 1) :=
  ⟨by decide +kernel, ((heard_alone reached_echo).1 1 (by decide +kernel)).2.2.1⟩

section Decoded

variable {decode : List Frame → List Sample}

/-- `decode` gives the audio of whole streams: the samples of a frame do not depend on frames past the
lookahead, and a window gives those of the frames that have `context` frames before them in it. -/
structure Decodes (vae : VocoderInference Latent Hidden Frame Sample) (context : ℕ)
    (decode : List Frame → List Sample) : Prop where
  room : vae.lookahead + context ≤ vae.windowSize
  length_decode : ∀ frames, (decode frames).length = frames.length * vae.hopSize
  causal : ∀ frames more n, n + vae.lookahead ≤ frames.length →
    (decode (frames ++ more)).take (n * vae.hopSize) = (decode frames).take (n * vae.hopSize)
  window : ∀ frames first last, frames.length + context ≤ first + vae.windowSize →
    last ≤ frames.length → vae.samples frames first last =
      ((decode frames).take (last * vae.hopSize)).drop (first * vae.hopSize)

omit [Zero Frame] in
theorem take_append_drop_take {samples : List Sample} {m n : ℕ} (h : m ≤ n) :
    samples.take m ++ (samples.take n).drop m = samples.take n := by
  rw [← min_eq_left h, ← List.take_take, min_eq_left h, List.take_append_drop]

theorem pieces_fed (hd : Decodes vae context decode) (chunks : List (List Latent))
    (hfits : ∀ latents ∈ chunks,
      latents.length + vae.lookahead + context ≤ vae.windowSize) :
    (replay vae (chunks.map .fed)).emitted =
        (replay vae (chunks.map .fed)).frames.length - vae.lookahead ∧
      (pieces vae (fresh vae) (chunks.map .fed)).flatten =
        (decode (replay vae (chunks.map .fed)).frames).take
          ((replay vae (chunks.map .fed)).emitted * vae.hopSize) := by
  induction chunks using List.reverseRecOn with
  | nil => simp [replay, pieces, fresh]
  | append_singleton chunks latents ih =>
    obtain ⟨hemitted, hheard⟩ := ih fun l hl => hfits l (List.mem_append_left _ hl)
    have hfit := hfits latents (List.mem_append_right _ (List.mem_singleton_self latents))
    rw [List.map_append, List.map_singleton, replay_concat, pieces_concat, List.flatten_append, hheard,
      List.flatten_singleton]
    change _ ∧ _ ++ (replay vae (chunks.map .fed)).gives vae (.fed latents) = _
    generalize replay vae (chunks.map .fed) = s at hemitted ⊢
    have hlength := length_feed vae s latents
    have hend : ((s.next vae (.fed latents)).emitted) =
        (s.feed vae latents).frames.length - vae.lookahead := by
      show max s.emitted ((s.feed vae latents).frames.length - _) = _
      omega
    refine ⟨hend, ?_⟩
    have hold : (decode s.frames).take (s.emitted * vae.hopSize) =
        (decode (s.feed vae latents).frames).take (s.emitted * vae.hopSize) := by
      by_cases hlook : s.emitted = 0
      · simp [hlook]
      · exact (hd.causal s.frames _ s.emitted (by omega)).symm
    have hpiece := hd.window (s.feed vae latents).frames s.emitted
      ((s.feed vae latents).frames.length - vae.lookahead) (by omega) (by omega)
    rw [hend, hold]
    change _ ++ vae.samples (s.feed vae latents).frames s.emitted
      ((s.feed vae latents).frames.length - vae.lookahead) = _
    rw [hpiece, take_append_drop_take (Nat.mul_le_mul_right _ (by omega))]
    rfl

/-- The audio of a stream that was flushed at its end is that of decoding its frames as a whole. -/
theorem heard_eq_decode (h : Reached vae context service) (hd : Decodes vae context decode)
    {slot : ℕ} (hslot : slot ∈ service.pool.inUse) {chunks : List (List Latent)}
    (hasked : service.asked slot = chunks.map .fed ++ [.flushed]) :
    (service.heard slot).flatten = decode (replay vae (service.asked slot)).frames := by
  have hheld := apart_of_reached h slot hslot
  obtain ⟨hemitted, hheard⟩ := pieces_fed hd chunks fun latents hmem => hheld.fits latents (by
    rw [hasked]
    exact List.mem_append_left _ (List.mem_map_of_mem hmem))
  rw [hheld.heard_eq, hasked, pieces_concat, replay_concat, List.flatten_append, hheard,
    List.flatten_singleton]
  change _ ++ (replay vae (chunks.map .fed)).gives vae .flushed =
    decode (replay vae (chunks.map .fed)).frames
  generalize replay vae (chunks.map .fed) = s at hemitted ⊢
  have hroom := hd.room
  have hpiece := hd.window s.frames s.emitted s.frames.length (by omega) (Nat.le_refl _)
  change _ ++ vae.samples s.frames s.emitted s.frames.length = _
  rw [hpiece, take_append_drop_take (Nat.mul_le_mul_right _ (by omega)), ← hd.length_decode,
    List.take_length]

end Decoded

theorem decodes_echo : Decodes echo 0 id where
  room := by decide
  length_decode frames := (Nat.mul_one _).symm
  causal frames more n h := by
    simp only [echo, id_eq, Nat.mul_one] at h ⊢
    exact List.take_append_of_le_length (by omega)
  window frames first last h hlast := by
    simp only [VocoderInference.samples, echo, id_eq, Nat.mul_one, Nat.add_zero, shown] at h ⊢
    by_cases hstart : frames.length - 4 ≤ last
    · rw [List.take_append_of_le_length (by rw [List.length_drop]; omega), List.take_drop,
        List.drop_drop]
      congr 2 <;> omega
    · rw [show last - (frames.length - 4) = 0 by omega, List.take_zero, List.drop_nil,
        List.drop_eq_nil_of_le (by rw [List.length_take]; omega)]

theorem heard_eq_decode_echo : ((run echo echoPool echoCalls).heard 0).flatten = [1, 2, 3, 4] :=
  heard_eq_decode reached_echo decodes_echo (by decide +kernel)
    (show (run echo echoPool echoCalls).asked 0 = [[1, 2], [3, 4]].map .fed ++ [.flushed] from rfl)

end Service

end DotsTts
