import SglangOmni.Audio.Turns
import SglangOmni.Lib.Machine

/-! The input audio of a realtime session.  The buffer holds PCM16 bytes and loses a prefix with every
committed utterance; the offsets of the turn detector count from its last reset. -/

namespace Audio

def bytesPerSample : Nat := 2

def maxBufferBytes : Nat := 60 * sampleRate * bytesPerSample

/-- A WAV file, as `pcm_to_wav_bytes` writes it. -/
structure Wav where
  channels : Nat := 1
  sampleWidth : Nat := bytesPerSample
  frameRate : Nat := sampleRate
  frames : List UInt8
  deriving DecidableEq

/-- `RealtimeAudioBuffer` of one channel. -/
structure RealtimeAudioBuffer where
  buf : List UInt8 := []
  startSample : Nat := 0
  deriving DecidableEq

structure BufferOverflow where
  maxBytes : Nat

namespace RealtimeAudioBuffer

variable (b : RealtimeAudioBuffer)

def numBytes : Nat := b.buf.length

def numSamples : Nat := b.buf.length / bytesPerSample

def appendBytes (chunk : List UInt8) : Except BufferOverflow RealtimeAudioBuffer :=
  if maxBufferBytes < b.buf.length + chunk.length then .error ⟨maxBufferBytes⟩
  else .ok { b with buf := b.buf ++ chunk }

def dropPrefix (numBytes : Nat) : RealtimeAudioBuffer :=
  let numBytes := min numBytes b.buf.length
  { buf := b.buf.drop numBytes
    startSample := b.startSample + numBytes / bytesPerSample }

def clear : RealtimeAudioBuffer := b.dropPrefix b.buf.length

def toSlicedWav (startByte endByte : Nat) : Wav :=
  { frames := (b.buf.take endByte).drop startByte }

end RealtimeAudioBuffer

inductive SessionEvent
  | speechStarted (audioStartMs itemId : Nat)
  | speechStopped (audioEndMs itemId : Nat)
  | committed (itemId : Nat)
  | cleared
  deriving DecidableEq

def offsetsToMs (samples : Nat) : Nat := samples * 1000 / sampleRate

/-- The audio side of `RealtimeSession`.  `responseQueue` has every utterance put on the queue, and
`newId` is the next fresh item id. -/
structure AudioInput where
  audioBuffer : RealtimeAudioBuffer := {}
  vadOriginSamples : Nat := 0
  bufferOriginSamples : Nat := 0
  utteranceStartByte : Option Nat := none
  utteranceItemId : Option Nat := none
  speechIdle : Bool := true
  responseQueue : List (Nat × Wav) := []
  sent : List SessionEvent := []
  newId : Nat := 0
  deriving DecidableEq

namespace AudioInput

variable (s : AudioInput)

def send (event : SessionEvent) : AudioInput := { s with sent := s.sent ++ [event] }

def absoluteSample (sampleOffset : Nat) : Nat := s.vadOriginSamples + sampleOffset

def sampleOffsetToBufferByte (sampleOffset : Nat) : Nat :=
  let relSamples : Int := s.absoluteSample sampleOffset - s.bufferOriginSamples
  (max 0 (relSamples * 2)).toNat

/-- `self.utterance_item_id or new_id("item")`. -/
def itemOrNew : Nat × AudioInput :=
  match s.utteranceItemId with
  | some itemId => (itemId, s)
  | none => (s.newId, { s with newId := s.newId + 1 })

def dropBufferAndResetVad : AudioInput :=
  let origin := s.bufferOriginSamples + s.audioBuffer.numSamples
  { s with
    bufferOriginSamples := origin
    vadOriginSamples := origin
    audioBuffer := s.audioBuffer.clear
    utteranceStartByte := none
    utteranceItemId := none }

def consumeCommittedPrefix (endByte : Nat) : AudioInput :=
  { s with
    audioBuffer := s.audioBuffer.dropPrefix endByte
    bufferOriginSamples := s.bufferOriginSamples + endByte / 2
    utteranceStartByte := none
    utteranceItemId := none }

def autoCommitUtterance (endSampleOffset : Nat) : AudioInput :=
  let startByte := s.utteranceStartByte.getD 0
  let endByte := min (s.sampleOffsetToBufferByte endSampleOffset) s.audioBuffer.numBytes
  if s.audioBuffer.numSamples = 0 ∨ endByte ≤ startByte then s
  else
    let payload := s.audioBuffer.toSlicedWav startByte endByte
    let (itemId, s) := s.itemOrNew
    let s := (s.consumeCommittedPrefix endByte).send (.committed itemId)
    { s with responseQueue := s.responseQueue ++ [(itemId, payload)] }

def handleVadEmit (emit : Emit) : AudioInput :=
  let timestampMs := offsetsToMs (s.absoluteSample emit.sampleOffset)
  match emit.eventType with
  | .speechStarted =>
    let vadByte := s.sampleOffsetToBufferByte emit.sampleOffset
    { s with
      speechIdle := false
      utteranceStartByte := some (min vadByte s.audioBuffer.numBytes)
      utteranceItemId := some s.newId
      newId := s.newId + 1
      sent := s.sent ++ [SessionEvent.speechStarted timestampMs s.newId] }
  | .speechStopped =>
    let (itemId, s) := s.itemOrNew
    let s := (s.send (.speechStopped timestampMs itemId)).autoCommitUtterance emit.sampleOffset
    { s with speechIdle := true }

def handleAudioClear : AudioInput :=
  { s.dropBufferAndResetVad with speechIdle := true }.send .cleared

/-- `handle_session_update` with another turn detector. -/
def replaceVad : AudioInput :=
  let hadPendingAudio := s.audioBuffer.numSamples ≠ 0 ∨ s.utteranceItemId.isSome
  let s := { s.dropBufferAndResetVad with speechIdle := true }
  if hadPendingAudio then s.send .cleared else s

end AudioInput

end Audio
