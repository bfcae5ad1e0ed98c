import Mathlib.Data.List.Induction
import SglangOmni.AudioStream.Vocoder
import SglangOmni.Lib.Blocks
import SglangOmni.Lib.Lists

/-! The windows that a stream decodes: no frame and no sample is lost or repeated, whatever the chunks. -/

namespace AudioStream

open Lib

variable {cfg : StreamOptions} {codec : AudioCodec} {s : StreamVocoderState} {frames : List Frame}

/-! ### Retained codes -/

theorem trimLoop_spec (codes : List (List Frame)) (codeStartToken : ℕ) {discardFrameCount : ℕ}
    (h : discardFrameCount ≤ codes.flatten.length) :
    (trimLoop codes codeStartToken discardFrameCount).1.flatten =
        codes.flatten.drop discardFrameCount ∧
      (trimLoop codes codeStartToken discardFrameCount).2 = codeStartToken + discardFrameCount := by
  induction codes generalizing codeStartToken discardFrameCount with
  | nil =>
    obtain rfl : discardFrameCount = 0 := Nat.le_zero.mp h
    exact ⟨rfl, rfl⟩
  | cons firstChunk rest ih =>
    rw [List.flatten_cons, List.length_append] at h
    rw [trimLoop]
    split
    · next hzero =>
      subst hzero
      exact ⟨rfl, rfl⟩
    · split
      · next hall =>
        obtain ⟨hcodes, hstart⟩ := ih (codeStartToken + firstChunk.length)
          (show discardFrameCount - firstChunk.length ≤ rest.flatten.length by omega)
        rw [hcodes, hstart, List.flatten_cons, List.drop_append, List.drop_eq_nil_of_le hall]
        exact ⟨rfl, by omega⟩
      · next hpart =>
        rw [List.flatten_cons, List.flatten_cons, List.drop_append_of_le_length (by omega)]
        exact ⟨rfl, rfl⟩

structure Retains (frames : List Frame) (s : StreamVocoderState) : Prop where
  total_eq : s.totalTokens = frames.length
  codes_eq : s.codes.flatten = frames.drop s.codeStartToken
  start_le : s.codeStartToken ≤ frames.length

@[simp] theorem trim_lastVocodeTokens (keepFromToken : ℕ) :
    (trimRetainedStreamCodes s keepFromToken).lastVocodeTokens = s.lastVocodeTokens := by
  unfold trimRetainedStreamCodes
  split
  · rfl
  · split <;> rfl

@[simp] theorem trim_pendingTail (keepFromToken : ℕ) :
    (trimRetainedStreamCodes s keepFromToken).pendingTail = s.pendingTail := by
  unfold trimRetainedStreamCodes
  split
  · rfl
  · split <;> rfl

theorem trim_retains (h : Retains frames s) {keepFromToken : ℕ} (hkeep : keepFromToken ≤ frames.length)
    (hstart : s.codeStartToken ≤ keepFromToken) :
    Retains frames (trimRetainedStreamCodes s keepFromToken) ∧
      (trimRetainedStreamCodes s keepFromToken).codeStartToken ≤ keepFromToken := by
  unfold trimRetainedStreamCodes
  split
  · exact ⟨h, hstart⟩
  · split
    · exact ⟨h, hstart⟩
    · next hmore =>
      have hlength : keepFromToken - s.codeStartToken ≤ s.codes.flatten.length := by
        rw [h.codes_eq, List.length_drop]
        omega
      obtain ⟨hcodes, hcount⟩ := trimLoop_spec s.codes s.codeStartToken hlength
      have hto : s.codeStartToken + (keepFromToken - s.codeStartToken) = keepFromToken := by omega
      rw [hto] at hcount
      refine ⟨⟨h.total_eq, ?_, ?_⟩, ?_⟩
      · simp only
        rw [hcodes, hcount, h.codes_eq, List.drop_drop, hto]
      · simp only
        omega
      · simp only
        omega

@[simp] theorem vocoded_lastVocodeTokens (totalTokens : ℕ) (trim : Bool) :
    (vocoded cfg s totalTokens trim).lastVocodeTokens = totalTokens := by
  cases trim with
  | false => rfl
  | true => exact trim_lastVocodeTokens _

@[simp] theorem vocoded_heldTail (totalTokens : ℕ) (trim : Bool) :
    (vocoded cfg s totalTokens trim).heldTail = s.heldTail := by
  cases trim with
  | false => rfl
  | true => exact congrArg (·.getD []) (trim_pendingTail _)

variable (cfg) in
theorem vocoded_retains (h : Retains frames s)
    (hstart : s.codeStartToken ≤ frames.length - cfg.streamOverlapTokens) (trim : Bool) :
    Retains frames (vocoded cfg s frames.length trim) ∧
      (vocoded cfg s frames.length trim).codeStartToken ≤
        frames.length - cfg.streamOverlapTokens := by
  have hnow : Retains frames { s with lastVocodeTokens := frames.length } :=
    ⟨h.total_eq, h.codes_eq, h.start_le⟩
  cases trim with
  | false => exact ⟨hnow, hstart⟩
  | true => exact trim_retains hnow (Nat.sub_le _ _) hstart

/-! ### Crossfade -/

theorem length_joinTail (pendingTail : List ℚ) {audioTensor : List ℚ} {overlapSamples : ℕ}
    (crossfade : ℕ)
    (h : overlapSamples ≤ audioTensor.length) :
    (joinTail pendingTail audioTensor overlapSamples crossfade).length =
      pendingTail.length + (audioTensor.length - overlapSamples) := by
  unfold joinTail
  simp only
  split
  · next hnil =>
    rw [hnil, List.length_drop, List.length_nil, Nat.zero_add]
  · split
    · next hpos =>
      simp only [linspace, List.length_append, List.length_take, List.length_zipWith,
        List.length_drop, List.length_map, List.length_range]
      omega
    · rw [List.length_append, List.length_drop]

/-- The samples that are put out and those that are held are the held ones before and the new ones. -/
structure Conserves (s s' : StreamVocoderState) (deltaAudio : Option (List ℚ)) (new : ℕ) : Prop where
  state_eq : s' = { s with pendingTail := s'.pendingTail }
  samples : (deltaAudio.getD []).length + s'.heldTail.length = s.heldTail.length + new

theorem crossfade_conserves {audioTensor : List ℚ} {overlapSamples : ℕ} (crossfade : ℕ)
    (isFinal : Bool) (h : overlapSamples ≤ audioTensor.length) :
    Conserves s (applyStreamCrossfade s audioTensor overlapSamples crossfade isFinal).1
      (applyStreamCrossfade s audioTensor overlapSamples crossfade isFinal).2
      (audioTensor.length - overlapSamples) := by
  have hjoin := length_joinTail s.heldTail crossfade h
  unfold applyStreamCrossfade
  cases isFinal with
  | true => exact ⟨rfl, hjoin⟩
  | false =>
    generalize joinTail s.heldTail audioTensor overlapSamples crossfade = deltaAudio at hjoin ⊢
    refine ⟨rfl, ?_⟩
    simp only [Bool.false_eq_true, if_false, StreamVocoderState.heldTail]
    have hput : (if deltaAudio.take (deltaAudio.length - min crossfade deltaAudio.length) = [] then
        none else some (deltaAudio.take (deltaAudio.length - min crossfade deltaAudio.length))).getD
          [] = deltaAudio.take (deltaAudio.length - min crossfade deltaAudio.length) := by
      split
      · next hnil => exact hnil.symm
      · rfl
    have hheld : (if 0 < min crossfade deltaAudio.length then
        some (deltaAudio.drop (deltaAudio.length - min crossfade deltaAudio.length)) else none).getD
          [] = deltaAudio.drop (deltaAudio.length - min crossfade deltaAudio.length) := by
      split
      · rfl
      · rw [List.drop_eq_nil_of_le (by omega)]
        rfl
    rw [hput, hheld, ← List.length_append, List.take_append_drop]
    exact hjoin

variable (cfg) in
theorem windowDelta_conserves {audioTensor : List ℚ} {overlapSamples : ℕ} (isFinal : Bool)
    (h : overlapSamples ≤ audioTensor.length) :
    Conserves s (windowDelta cfg s audioTensor overlapSamples isFinal).1
      (windowDelta cfg s audioTensor overlapSamples isFinal).2
      (audioTensor.length - overlapSamples) := by
  unfold windowDelta
  split
  · exact crossfade_conserves _ isFinal h
  · exact ⟨rfl, by simp only [Option.getD_some, List.length_drop]; omega⟩

theorem windowDelta_plain (hplain : cfg.streamCrossfadeSamples = 0) (audioTensor : List ℚ)
    (overlapSamples : ℕ) (isFinal : Bool) :
    windowDelta cfg s audioTensor overlapSamples isFinal =
      (s, some (audioTensor.drop overlapSamples)) := by
  rw [windowDelta, hplain]
  rfl

theorem windowDelta_final (hheld : cfg.streamCrossfadeSamples = 0 → s.heldTail = [])
    (audioTensor : List ℚ) (overlapSamples : ℕ) :
    (windowDelta cfg s audioTensor overlapSamples true).1.heldTail = [] := by
  unfold windowDelta
  split
  · rfl
  · exact hheld (by omega)

/-! ### A codec whose samples of a frame depend on few frames -/

/-- Frame `i` and the `overlap` frames before it. -/
def context (overlap : ℕ) (codebooks : List (List ℤ)) (i : ℕ) : List (List ℤ) :=
  (codebooks.take (i + 1)).drop (i - overlap)

/-- The samples of a frame depend only on that frame and the `overlap` frames before it. -/
def AudioCodec.Local (codec : AudioCodec) (overlap : ℕ) : Prop :=
  ∀ (codebooks others : List (List ℤ)) (i j : ℕ), i < codebooks.length → j < others.length →
    context overlap codebooks i = context overlap others j →
      block codec.frameLength (codec.fromIndices codebooks) i =
        block codec.frameLength (codec.fromIndices others) j

theorem AudioCodec.Local.extend {overlap : ℕ} (h : codec.Local overlap)
    (codebooks : List (List ℤ)) {decoded : ℕ} (hle : decoded ≤ codebooks.length) :
    codec.fromIndices (codebooks.take decoded) ++
        (codec.fromIndices (codebooks.drop (decoded - overlap))).drop
          ((decoded - (decoded - overlap)) * codec.frameLength) =
      codec.fromIndices codebooks := by
  have hfirst : (codec.fromIndices (codebooks.take decoded)).length =
      decoded * codec.frameLength := by
    rw [codec.length_fromIndices, List.length_take, Nat.min_eq_left hle]
  have hwindow := codec.length_fromIndices (codebooks.drop (decoded - overlap))
  rw [List.length_drop] at hwindow
  apply eq_of_blocks (n := codebooks.length) (k := codec.frameLength) _
    (codec.length_fromIndices codebooks)
  · intro i hi
    rcases Nat.lt_or_ge i decoded with hbefore | hafter
    · rw [block_append_left (by rw [hfirst]; exact Nat.mul_le_mul_right _ hbefore)]
      apply h _ _ i i (by rw [List.length_take]; omega) hi
      rw [context, context, List.take_take, Nat.min_eq_left (by omega)]
    · rw [block_append_right hfirst hafter, block_drop]
      apply h _ _ _ i (by rw [List.length_drop]; omega) hi
      rw [context, context, List.take_drop, List.drop_drop]
      congr 1
      · omega
      · congr 1
        omega
  · rw [List.length_append, hfirst, List.length_drop, hwindow, ← Nat.sub_mul, ← Nat.add_mul]
    congr 1
    omega

/-! ### The stream -/

def codebooksOf (frames : List Frame) : List (List ℤ) := frames.map List.tail

/-- The window is the frames from the overlap with the decoded ones up to those received. -/
structure Window.Exact (cfg : StreamOptions) (frames : List Frame) (w : Window) : Prop where
  le : w.totalTokens ≤ frames.length
  codebooks_eq : w.codebooks = codebooksOf ((frames.take w.totalTokens).drop
    (w.decodedTokens - min cfg.streamOverlapTokens w.decodedTokens))

def lastDecoded (windows : List Window) : ℕ := (windows.getLast?.map (·.totalTokens)).getD 0

/-- A stream of `frames`, whatever the chunks they came in. -/
structure Kept (cfg : StreamOptions) (codec : AudioCodec) (frames : List Frame) (r : Stream) :
    Prop where
  retains : Retains frames r.state
  start_le : r.state.codeStartToken ≤ r.state.lastVocodeTokens - cfg.streamOverlapTokens
  last_le : r.state.lastVocodeTokens ≤ frames.length
  samples : r.audio.length + r.state.heldTail.length =
    r.state.lastVocodeTokens * codec.frameLength
  windows : ∀ w ∈ r.windows, w.Exact cfg frames
  decoded : 0 < codec.frameLength → r.state.lastVocodeTokens = lastDecoded r.windows ∧
    Along (fun before w => w.decodedTokens = lastDecoded before) r.windows
  plain : cfg.streamCrossfadeSamples = 0 → r.state.heldTail = []
  exact : cfg.streamCrossfadeSamples = 0 → codec.Local cfg.streamOverlapTokens →
    r.audio = codec.fromIndices (codebooksOf (frames.take r.state.lastVocodeTokens))

namespace Kept

variable {r : Stream}

theorem initial : Kept cfg codec [] {} where
  retains := ⟨rfl, rfl, le_refl 0⟩
  start_le := Nat.zero_le _
  last_le := le_refl 0
  samples := (Nat.zero_mul _).symm
  windows := nofun
  decoded := fun _ => ⟨rfl, .nil⟩
  plain := fun _ => rfl
  exact := fun _ _ => by
    have hlength := codec.length_fromIndices []
    rw [List.length_nil, Nat.zero_mul] at hlength
    exact (List.length_eq_zero_iff.mp hlength).symm

theorem receive (h : Kept cfg codec frames r) (codes : List Frame) :
    Kept cfg codec (frames ++ codes) { r with state := { r.state with
      codes := r.state.codes ++ [codes]
      totalTokens := r.state.totalTokens + codes.length } } where
  retains := by
    refine ⟨?_, ?_, ?_⟩
    · simp only
      rw [h.retains.total_eq, List.length_append]
    · simp only
      rw [List.flatten_append, h.retains.codes_eq, List.flatten_singleton,
        List.drop_append_of_le_length h.retains.start_le]
    · simp only
      rw [List.length_append]
      exact Nat.le_add_right_of_le h.retains.start_le
  start_le := h.start_le
  last_le := by
    rw [List.length_append]
    exact Nat.le_add_right_of_le h.last_le
  samples := h.samples
  windows := fun w hw => by
    obtain ⟨hle, heq⟩ := h.windows w hw
    refine ⟨by rw [List.length_append]; omega, ?_⟩
    rw [List.take_append_of_le_length hle]
    exact heq
  decoded := h.decoded
  plain := h.plain
  exact := fun hplain hlocal => by
    rw [List.take_append_of_le_length h.last_le]
    exact h.exact hplain hlocal

theorem wait (h : Kept cfg codec frames r) (nextVocodeTokens : ℕ) :
    Kept cfg codec frames { r with state := { r.state with
      nextVocodeTokens := nextVocodeTokens } } :=
  ⟨⟨h.retains.total_eq, h.retains.codes_eq, h.retains.start_le⟩, h.start_le, h.last_le, h.samples,
    h.windows, h.decoded, h.plain, h.exact⟩

theorem after_idle (r : Stream) : r.after { state := r.state } = r := by
  simp [Stream.after]

theorem putTail (h : Kept cfg codec frames r) :
    Kept cfg codec frames (r.after {
      state := { r.state with pendingTail := none }
      payload := some (buildAudioChunkPayload r.state.heldTail codec.sampleRate) }) := by
  have hwindows : r.windows ++ [] = r.windows := List.append_nil _
  refine ⟨⟨h.retains.total_eq, h.retains.codes_eq, h.retains.start_le⟩, h.start_le, h.last_le, ?_, ?_,
    ?_, fun _ => rfl, fun hplain hlocal => ?_⟩
  · show (r.audio ++ r.state.heldTail).length + 0 = _
    rw [List.length_append]
    exact h.samples
  · show ∀ w ∈ r.windows ++ [], _
    rw [hwindows]
    exact h.windows
  · show 0 < codec.frameLength → r.state.lastVocodeTokens = lastDecoded (r.windows ++ []) ∧
      Along _ (r.windows ++ [])
    rw [hwindows]
    exact h.decoded
  · show r.audio ++ r.state.heldTail = _
    rw [h.plain hplain, List.append_nil]
    exact h.exact hplain hlocal

theorem windowStart_eq (h : Kept cfg codec frames r) :
    windowStartToken cfg r.state = r.state.lastVocodeTokens - cfg.streamOverlapTokens :=
  Nat.max_eq_right h.start_le

theorem codebookCodes_eq (h : Kept cfg codec frames r) :
    codebookCodes cfg r.state =
      codebooksOf (frames.drop (r.state.lastVocodeTokens - cfg.streamOverlapTokens)) := by
  have hstart := h.start_le
  have hto : r.state.codeStartToken +
      (r.state.lastVocodeTokens - cfg.streamOverlapTokens - r.state.codeStartToken) =
        r.state.lastVocodeTokens - cfg.streamOverlapTokens := by omega
  rw [codebookCodes, h.windowStart_eq, h.retains.codes_eq, List.drop_drop, hto, codebooksOf]

theorem window_exact (h : Kept cfg codec frames r) :
    Window.Exact cfg frames
      ⟨r.state.lastVocodeTokens, r.state.totalTokens, codebookCodes cfg r.state⟩ := by
  refine ⟨h.retains.total_eq.le, ?_⟩
  have hmin : r.state.lastVocodeTokens - min cfg.streamOverlapTokens r.state.lastVocodeTokens =
      r.state.lastVocodeTokens - cfg.streamOverlapTokens := by omega
  simp only
  rw [h.codebookCodes_eq, h.retains.total_eq, List.take_length, hmin]

theorem deliver (h : Kept cfg codec frames r)
    (hmore : r.state.lastVocodeTokens < r.state.totalTokens) {s' : StreamVocoderState}
    {deltaAudio : Option (List ℚ)}
    (hconserves : Conserves r.state s' deltaAudio
      ((frames.length - r.state.lastVocodeTokens) * codec.frameLength))
    (hplain : cfg.streamCrossfadeSamples = 0 → s' = r.state ∧
      deltaAudio = some ((codec.fromIndices (codebookCodes cfg r.state)).drop
        ((r.state.lastVocodeTokens - windowStartToken cfg r.state) * codec.frameLength)))
    (trim : Bool) :
    Kept cfg codec frames (r.after {
      state := vocoded cfg s' r.state.totalTokens trim
      payload := deltaAudio.map (buildAudioChunkPayload · codec.sampleRate)
      window := some (codebookCodes cfg r.state) }) := by
  have htotal := h.retains.total_eq
  have hlast := h.last_le
  have hstart := h.start_le
  rw [htotal] at hmore
  have hretains : Retains frames s' := by
    rw [hconserves.state_eq]
    exact ⟨htotal, h.retains.codes_eq, h.retains.start_le⟩
  have hcode : s'.codeStartToken ≤ frames.length - cfg.streamOverlapTokens := by
    rw [hconserves.state_eq]
    simp only
    omega
  obtain ⟨hretains', hstart'⟩ := vocoded_retains cfg hretains hcode trim
  rw [← htotal] at hretains' hstart'
  have hrest : frames.take r.state.totalTokens = frames := by
    rw [htotal, List.take_length]
  have hputs : (((deltaAudio.map (buildAudioChunkPayload · codec.sampleRate)).map
      (·.audioWaveform)).getD []) = deltaAudio.getD [] := by
    cases deltaAudio <;> rfl
  have hwindow : Window.Exact cfg frames ⟨r.state.lastVocodeTokens,
      (vocoded cfg s' r.state.totalTokens trim).totalTokens, codebookCodes cfg r.state⟩ := by
    rw [hretains'.total_eq, ← htotal]
    exact h.window_exact
  simp only [Stream.after, hputs, Option.toList_some, List.map_cons, List.map_nil]
  refine ⟨hretains', ?_, ?_, ?_, ?_, ?_, ?_, ?_⟩
  · simp only [vocoded_lastVocodeTokens]
    omega
  · simp only [vocoded_lastVocodeTokens]
    omega
  · have hsamples := h.samples
    have hnew := hconserves.samples
    have hadd : r.state.lastVocodeTokens * codec.frameLength +
        (frames.length - r.state.lastVocodeTokens) * codec.frameLength =
          r.state.totalTokens * codec.frameLength := by
      rw [← Nat.add_mul]
      congr 1
      omega
    simp only [vocoded_heldTail, vocoded_lastVocodeTokens, List.length_append]
    omega
  · intro w hw
    rcases List.mem_append.mp hw with hw | hw
    · exact h.windows w hw
    · obtain rfl := List.mem_singleton.mp hw
      exact hwindow
  · intro hpos
    obtain ⟨hdecoded, halong⟩ := h.decoded hpos
    refine ⟨?_, halong.concat hdecoded⟩
    simp only [vocoded_lastVocodeTokens, lastDecoded, List.getLast?_concat, Option.map_some,
      Option.getD_some]
    rw [hretains'.total_eq, htotal]
  · intro hzero
    simp only [vocoded_heldTail]
    rw [(hplain hzero).1]
    exact h.plain hzero
  · intro hzero hlocal
    have hextend := hlocal.extend (codebooksOf frames)
      (show r.state.lastVocodeTokens ≤ (codebooksOf frames).length by
        rw [codebooksOf, List.length_map]
        exact hlast)
    simp only [vocoded_lastVocodeTokens]
    rw [hrest, (hplain hzero).2, Option.getD_some, h.exact hzero hlocal, h.codebookCodes_eq,
      h.windowStart_eq, ← hextend, codebooksOf, codebooksOf, List.map_take, List.map_drop]
    rfl

theorem silent (h : Kept cfg codec frames r) (hzero : codec.frameLength = 0) :
    Kept cfg codec frames (r.after {
      state := r.state
      window := some (codebookCodes cfg r.state) }) := by
  refine ⟨h.retains, h.start_le, h.last_le, ?_, ?_, ?_, h.plain, fun hplain hlocal => ?_⟩
  · show (r.audio ++ []).length + _ = _
    rw [List.append_nil]
    exact h.samples
  · intro w hw
    rcases List.mem_append.mp hw with hw | hw
    · exact h.windows w hw
    · obtain rfl := List.mem_singleton.mp hw
      exact h.window_exact
  · intro hpos
    omega
  · show r.audio ++ [] = _
    rw [List.append_nil]
    exact h.exact hplain hlocal

theorem length_audio (h : Kept cfg codec frames r) :
    (codec.fromIndices (codebookCodes cfg r.state)).length =
      (r.state.lastVocodeTokens - windowStartToken cfg r.state) * codec.frameLength +
        (frames.length - r.state.lastVocodeTokens) * codec.frameLength := by
  have hlast := h.last_le
  rw [codec.length_fromIndices, h.codebookCodes_eq, h.windowStart_eq, codebooksOf, List.length_map,
    List.length_drop, ← Nat.add_mul]
  congr 1
  omega

theorem decode (h : Kept cfg codec frames r) (isFinal : Bool) :
    Kept cfg codec frames (r.after (decodeStreamWindow cfg codec r.state isFinal)) ∧
      (isFinal = true → r.state.codes ≠ [] →
        (r.after (decodeStreamWindow cfg codec r.state isFinal)).state.heldTail = [] ∧
        (r.after (decodeStreamWindow cfg codec r.state isFinal)).state.lastVocodeTokens *
          codec.frameLength = frames.length * codec.frameLength) := by
  have htotal := h.retains.total_eq
  have hlast := h.last_le
  unfold decodeStreamWindow
  split
  · next hnil =>
    rw [after_idle]
    exact ⟨h, fun _ hcodes => absurd hnil hcodes⟩
  · split
    · next hall =>
      have hsame : r.state.lastVocodeTokens = frames.length := by omega
      split
      · next hmore =>
        rw [after_idle]
        exact ⟨h, fun hfinal => by simp [hfinal] at hmore⟩
      · split
        · next hheld =>
          rw [after_idle]
          exact ⟨h, fun _ _ => ⟨hheld, by rw [hsame]⟩⟩
        · exact ⟨h.putTail, fun _ _ => ⟨rfl, congrArg (· * codec.frameLength) hsame⟩⟩
    · next hmore =>
      have hmore := not_le.mp hmore
      have haudio := h.length_audio
      simp only
      split
      · next hshort =>
        have hzero : codec.frameLength = 0 := by
          have hmul : (frames.length - r.state.lastVocodeTokens) * codec.frameLength = 0 := by omega
          rcases Nat.mul_eq_zero.mp hmul with hnone | hzero
          · omega
          · exact hzero
        refine ⟨h.silent hzero, fun _ _ => ⟨?_, by rw [hzero, Nat.mul_zero, Nat.mul_zero]⟩⟩
        have hsamples := h.samples
        rw [hzero, Nat.mul_zero] at hsamples
        exact List.length_eq_zero_iff.mp (Nat.eq_zero_of_add_eq_zero_left hsamples)
      · next hlong =>
        have hconserves := windowDelta_conserves cfg (s := r.state) isFinal (not_le.mp hlong).le
        rw [haudio, Nat.add_sub_cancel_left] at hconserves
        have hplain := fun hzero : cfg.streamCrossfadeSamples = 0 => windowDelta_plain
          (s := r.state) hzero (codec.fromIndices (codebookCodes cfg r.state))
          ((r.state.lastVocodeTokens - windowStartToken cfg r.state) * codec.frameLength) isFinal
        have hfinal := windowDelta_final h.plain (codec.fromIndices (codebookCodes cfg r.state))
          ((r.state.lastVocodeTokens - windowStartToken cfg r.state) * codec.frameLength)
        have hall : r.state.totalTokens * codec.frameLength = frames.length * codec.frameLength :=
          congrArg (· * codec.frameLength) htotal
        generalize hdelta : windowDelta cfg r.state _ _ isFinal = delta at hconserves hplain
        obtain ⟨s', deltaAudio⟩ := delta
        have hheld : isFinal = true → s'.heldTail = [] := by
          rintro rfl
          rw [hdelta] at hfinal
          exact hfinal
        cases deltaAudio with
        | none =>
          refine ⟨h.deliver hmore hconserves (fun hzero => Prod.mk.inj (hplain hzero)) true,
            fun hlast _ => ⟨?_, ?_⟩⟩
          · exact (vocoded_heldTail _ _).trans (hheld hlast)
          · exact (congrArg (· * _) (vocoded_lastVocodeTokens _ _)).trans hall
        | some deltaAudio =>
          refine ⟨h.deliver hmore hconserves (fun hzero => Prod.mk.inj (hplain hzero)) (!isFinal),
            fun hlast _ => ⟨?_, ?_⟩⟩
          · exact (vocoded_heldTail _ _).trans (hheld hlast)
          · exact (congrArg (· * _) (vocoded_lastVocodeTokens _ _)).trans hall

theorem feed (h : Kept cfg codec frames r) (codes : List Frame) :
    Kept cfg codec (frames ++ codes) (r.feed cfg codec codes) := by
  have hreceived := h.receive codes
  unfold Stream.feed buildStreamVocoderChunk
  simp only
  generalize (if r.state.nextVocodeTokens = 0 then cfg.streamStride
    else r.state.nextVocodeTokens) = nextVocodeTokens
  split
  · rw [Stream.after]
    simpa using hreceived.wait nextVocodeTokens
  · exact (hreceived.decode false).1.wait
      (r.state.totalTokens + codes.length + cfg.streamFollowupStride)

theorem flush (h : Kept cfg codec frames r) :
    Kept cfg codec frames (r.flush cfg codec) ∧ (r.flush cfg codec).state.heldTail = [] ∧
      (r.flush cfg codec).state.lastVocodeTokens * codec.frameLength =
        frames.length * codec.frameLength := by
  have htotal := h.retains.total_eq
  have hlast := h.last_le
  have hstart := h.start_le
  have hempty (hnil : r.state.codes = []) : r.state.lastVocodeTokens = frames.length := by
    have hcodes := congrArg List.length h.retains.codes_eq
    rw [hnil, List.flatten_nil, List.length_nil, List.length_drop] at hcodes
    omega
  unfold Stream.flush flushStreamVocoderChunk
  split
  · next hnone =>
    rw [after_idle]
    exact ⟨h, hnone.2, congrArg (· * codec.frameLength) (hempty hnone.1)⟩
  · split
    · next hnil =>
      exact ⟨h.putTail, rfl, congrArg (· * codec.frameLength) (hempty hnil)⟩
    · next hcodes =>
      split
      · next hdone =>
        rw [after_idle]
        refine ⟨h, hdone.2, congrArg (· * codec.frameLength) ?_⟩
        omega
      · obtain ⟨hkept, hends⟩ := h.decode true
        exact ⟨hkept, hends rfl hcodes⟩

end Kept

variable (cfg codec) in
theorem kept_streamOf (chunks : List (List Frame)) :
    Kept cfg codec chunks.flatten (streamOf cfg codec chunks) := by
  induction chunks using List.reverseRecOn with
  | nil => exact .initial
  | append_singleton chunks codes ih =>
    rw [streamOf, List.foldl_concat, List.flatten_append, List.flatten_singleton]
    exact ih.feed codes

structure Counted (cfg : StreamOptions) (codec : AudioCodec) (frames : List Frame) (r : Stream) :
    Prop where
  total_eq : r.state.totalTokens = frames.length
  retained : r.state.codeStartToken + r.state.codes.flatten.length = r.state.totalTokens
  windows : ∀ w ∈ r.windows, w.Exact cfg frames
  decoded : 0 < codec.frameLength → r.state.lastVocodeTokens = lastDecoded r.windows ∧
    Along (fun before w => w.decodedTokens = lastDecoded before) r.windows
  samples : r.audio.length + r.state.heldTail.length =
    r.state.lastVocodeTokens * codec.frameLength

theorem Kept.counted {r : Stream} (h : Kept cfg codec frames r) : Counted cfg codec frames r where
  total_eq := h.retains.total_eq
  retained := by
    have hstart := h.retains.start_le
    rw [h.retains.codes_eq, List.length_drop, h.retains.total_eq]
    omega
  windows := h.windows
  decoded := h.decoded
  samples := h.samples

variable (cfg codec) in
/-- A stream keeps count of its frames and samples whatever the chunks are, its windows follow one another
with their overlap, and the flush puts out the samples of every frame.  Without a crossfade they are the
samples of all frames decoded at once if the overlap is all that the codec looks back on. -/
theorem stream_decodes (chunks : List (List Frame)) :
    Counted cfg codec chunks.flatten (streamOf cfg codec chunks) ∧
      Counted cfg codec chunks.flatten ((streamOf cfg codec chunks).flush cfg codec) ∧
      ((streamOf cfg codec chunks).flush cfg codec).audio.length =
        chunks.flatten.length * codec.frameLength ∧
      (cfg.streamCrossfadeSamples = 0 → codec.Local cfg.streamOverlapTokens →
        ((streamOf cfg codec chunks).flush cfg codec).audio =
          codec.fromIndices (codebooksOf chunks.flatten)) := by
  have hkept := kept_streamOf cfg codec chunks
  obtain ⟨hflushed, hheld, hall⟩ := hkept.flush
  have hsamples := hflushed.samples
  rw [hheld, hall] at hsamples
  refine ⟨hkept.counted, hflushed.counted, hsamples, fun hplain hlocal => ?_⟩
  rw [hflushed.exact hplain hlocal]
  rcases Nat.eq_zero_or_pos codec.frameLength with hzero | hpos
  · have hnone (codebooks : List (List ℤ)) : codec.fromIndices codebooks = [] := by
      apply List.length_eq_zero_iff.mp
      rw [codec.length_fromIndices, hzero, Nat.mul_zero]
    rw [hnone, hnone]
  · rw [Nat.eq_of_mul_eq_mul_right hpos hall, List.take_length]

end AudioStream
