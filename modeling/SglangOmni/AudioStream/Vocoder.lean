import Mathlib.Algebra.Order.Ring.Rat

/-! The vocoder of streamed speech: codes arrive in chunks, a codec decodes them in windows that overlap, and
the samples at the seams may be crossfaded with a tail held back from the window before. -/

namespace AudioStream

/-- The codes of one frame: the row of the semantic codes first, then those of the codebooks. -/
abbrev Frame := List ℤ

structure AudioCodec where
  sampleRate : ℕ
  frameLength : ℕ
  fromIndices : List (List ℤ) → List ℚ
  length_fromIndices : ∀ codebooks, (fromIndices codebooks).length = codebooks.length * frameLength

structure StreamOptions where
  streamStride : ℕ
  streamFollowupStride : ℕ
  streamOverlapTokens : ℕ
  streamCrossfadeSamples : ℕ

structure StreamVocoderState where
  codes : List (List Frame) := []
  codeStartToken : ℕ := 0
  lastVocodeTokens : ℕ := 0
  nextVocodeTokens : ℕ := 0
  pendingTail : Option (List ℚ) := none
  totalTokens : ℕ := 0

def StreamVocoderState.heldTail (s : StreamVocoderState) : List ℚ := s.pendingTail.getD []

structure AudioChunk where
  audioWaveform : List ℚ
  sampleRate : ℕ

def buildAudioChunkPayload (audioData : List ℚ) (sampleRate : ℕ) : AudioChunk :=
  ⟨audioData, sampleRate⟩

/-! ### Retained codes -/

/-- The loop that discards frames: the chunks that are left and the number of their first frame. -/
def trimLoop : List (List Frame) → ℕ → ℕ → List (List Frame) × ℕ
  | [], codeStartToken, _ => ([], codeStartToken)
  | firstChunk :: rest, codeStartToken, discardFrameCount =>
    if discardFrameCount = 0 then (firstChunk :: rest, codeStartToken)
    else if firstChunk.length ≤ discardFrameCount then
      trimLoop rest (codeStartToken + firstChunk.length) (discardFrameCount - firstChunk.length)
    else (firstChunk.drop discardFrameCount :: rest, codeStartToken + discardFrameCount)

def trimRetainedStreamCodes (s : StreamVocoderState) (keepFromToken : ℕ) : StreamVocoderState :=
  if s.codes = [] then s
  else if keepFromToken ≤ s.codeStartToken then s
  else
    let (codes, codeStartToken) :=
      trimLoop s.codes s.codeStartToken (keepFromToken - s.codeStartToken)
    { s with codes := codes, codeStartToken := codeStartToken }

/-! ### Crossfade -/

/-- `torch.linspace(0.0, 1.0, count)`. -/
def linspace (count : ℕ) : List ℚ :=
  (List.range count).map fun i : ℕ => (i : ℚ) / ((count - 1 : ℕ) : ℚ)

/-- The held tail, blended at its end into the samples of the overlap that were decoded again, and the new
samples behind it. -/
def joinTail (pendingTail audioTensor : List ℚ) (overlapSamples streamCrossfadeSamples : ℕ) :
    List ℚ :=
  let deltaAudio := audioTensor.drop overlapSamples
  if pendingTail = [] then deltaAudio
  else
    let crossfadeSampleCount := min streamCrossfadeSamples (min pendingTail.length overlapSamples)
    if 0 < crossfadeSampleCount then
      let fadeIn := linspace crossfadeSampleCount
      let refreshedOverlapAudio :=
        (audioTensor.take overlapSamples).drop (overlapSamples - crossfadeSampleCount)
      let tailEnd := pendingTail.drop (pendingTail.length - crossfadeSampleCount)
      let blendedAudio := List.zipWith (· + ·)
        (List.zipWith (fun sample fade => sample * (1 - fade)) tailEnd fadeIn)
        (List.zipWith (· * ·) refreshedOverlapAudio fadeIn)
      pendingTail.take (pendingTail.length - crossfadeSampleCount) ++ (blendedAudio ++ deltaAudio)
    else pendingTail ++ deltaAudio

def applyStreamCrossfade (s : StreamVocoderState) (audioTensor : List ℚ)
    (overlapSamples streamCrossfadeSamples : ℕ) (isFinal : Bool) :
    StreamVocoderState × Option (List ℚ) :=
  let deltaAudio := joinTail s.heldTail audioTensor overlapSamples streamCrossfadeSamples
  if isFinal then ({ s with pendingTail := none }, some deltaAudio)
  else
    let heldSampleCount := min streamCrossfadeSamples deltaAudio.length
    let keptCount := deltaAudio.length - heldSampleCount
    let pendingTail := if 0 < heldSampleCount then some (deltaAudio.drop keptCount) else none
    let deltaAudio := deltaAudio.take keptCount
    ({ s with pendingTail := pendingTail }, if deltaAudio = [] then none else some deltaAudio)

/-! ### Windows -/

/-- What a call does: the state it leaves, the payload it returns and the codes it has the codec decode. -/
structure Step where
  state : StreamVocoderState
  payload : Option AudioChunk := none
  window : Option (List (List ℤ)) := none

variable (cfg : StreamOptions) (codec : AudioCodec)

def windowStartToken (s : StreamVocoderState) : ℕ :=
  max s.codeStartToken (s.lastVocodeTokens - cfg.streamOverlapTokens)

def codebookCodes (s : StreamVocoderState) : List (List ℤ) :=
  (s.codes.flatten.drop (windowStartToken cfg s - s.codeStartToken)).map List.tail

def windowDelta (s : StreamVocoderState) (audioTensor : List ℚ) (overlapSamples : ℕ)
    (isFinal : Bool) : StreamVocoderState × Option (List ℚ) :=
  if 0 < cfg.streamCrossfadeSamples then
    applyStreamCrossfade s audioTensor overlapSamples cfg.streamCrossfadeSamples isFinal
  else (s, some (audioTensor.drop overlapSamples))

/-- All frames have been decoded, and the codes before the next overlap are discarded. -/
def vocoded (s : StreamVocoderState) (totalTokens : ℕ) (trim : Bool) : StreamVocoderState :=
  let s := { s with lastVocodeTokens := totalTokens }
  if trim then trimRetainedStreamCodes s (totalTokens - cfg.streamOverlapTokens) else s

def decodeStreamWindow (s : StreamVocoderState) (isFinal : Bool) : Step :=
  if s.codes = [] then { state := s }
  else if s.totalTokens ≤ s.lastVocodeTokens then
    if !isFinal then { state := s }
    else if s.heldTail = [] then { state := s }
    else {
      state := { s with pendingTail := none }
      payload := some (buildAudioChunkPayload s.heldTail codec.sampleRate) }
  else
    let audioTensor := codec.fromIndices (codebookCodes cfg s)
    let overlapTokenCount := s.lastVocodeTokens - windowStartToken cfg s
    let overlapSamples := overlapTokenCount * codec.frameLength
    if audioTensor.length ≤ overlapSamples then
      { state := s, window := some (codebookCodes cfg s) }
    else
      match windowDelta cfg s audioTensor overlapSamples isFinal with
      | (s', none) => {
          state := vocoded cfg s' s.totalTokens true
          window := some (codebookCodes cfg s) }
      | (s', some deltaAudio) => {
          state := vocoded cfg s' s.totalTokens (!isFinal)
          payload := some (buildAudioChunkPayload deltaAudio codec.sampleRate)
          window := some (codebookCodes cfg s) }

def buildStreamVocoderChunk (s : StreamVocoderState) (codes : List Frame) : Step :=
  let s := { s with codes := s.codes ++ [codes], totalTokens := s.totalTokens + codes.length }
  let nextVocodeTokens := if s.nextVocodeTokens = 0 then cfg.streamStride else s.nextVocodeTokens
  if s.totalTokens < nextVocodeTokens then
    { state := { s with nextVocodeTokens := nextVocodeTokens } }
  else
    let step := decodeStreamWindow cfg codec s false
    { step with
      state := { step.state with nextVocodeTokens := s.totalTokens + cfg.streamFollowupStride } }

def flushStreamVocoderChunk (s : StreamVocoderState) : Step :=
  if s.codes = [] ∧ s.heldTail = [] then { state := s }
  else if s.codes = [] then {
    state := { s with pendingTail := none }
    payload := some (buildAudioChunkPayload s.heldTail codec.sampleRate) }
  else if s.totalTokens ≤ s.lastVocodeTokens ∧ s.heldTail = [] then { state := s }
  else decodeStreamWindow cfg codec s true

/-! ### Runs -/

/-- A call of the codec: the frames decoded before it, those received and the codes it decodes. -/
structure Window where
  decodedTokens : ℕ
  totalTokens : ℕ
  codebooks : List (List ℤ)

/-- A stream: its state, the samples of all its payloads and its calls of the codec. -/
structure Stream where
  state : StreamVocoderState := {}
  audio : List ℚ := []
  windows : List Window := []

def Stream.after (r : Stream) (step : Step) : Stream where
  state := step.state
  audio := r.audio ++ (step.payload.map (·.audioWaveform)).getD []
  windows := r.windows ++
    step.window.toList.map fun codebooks =>
      Window.mk r.state.lastVocodeTokens step.state.totalTokens codebooks

def Stream.feed (r : Stream) (codes : List Frame) : Stream :=
  r.after (buildStreamVocoderChunk cfg codec r.state codes)

def streamOf (chunks : List (List Frame)) : Stream :=
  chunks.foldl (Stream.feed cfg codec) {}

def Stream.flush (r : Stream) : Stream := r.after (flushStreamVocoderChunk cfg codec r.state)

end AudioStream
