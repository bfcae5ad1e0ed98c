import SglangOmni.Lib.Machine

/-! A `RealtimeTranscriptionSession`: the buffer of the audio that is not decoded yet, the segment that is
open, and the finals that are queued.  A segment is opened by audio, by the VAD or by a cut at the longest
segment, and closed by the VAD, a commit, a cut or the end of the session.  The handlers run one after the
other; the decode worker runs between and inside them, and all that they read of its work is whether it has
reported a text for the open segment.  `finals`, `accepted`, `sawVad` and `sawClear` are history. -/

namespace Transcription

open Lib

def pcmSampleRate : Int := 16000

def vadFrameSamples : Nat := 512

def vadFrameMs : Int := vadFrameSamples * 1000 / pcmSampleRate

def offsetsToMs (samples : Int) : Int := samples * 1000 / pcmSampleRate

/-! ### The audio buffer -/

/-- `RealtimeAudioBuffer` with one channel. -/
structure AudioBuffer where
  buf : List UInt8 := []
  startSample : Nat := 0

namespace AudioBuffer

variable (b : AudioBuffer)

def numSamples : Nat := b.buf.length / 2

def endSample : Int := b.startSample + b.numSamples

def isEmpty : Bool := b.numSamples = 0

def appendBytes (maxBytes : Nat) (chunk : List UInt8) : Option AudioBuffer :=
  if b.buf.length + chunk.length > maxBytes then none else some { b with buf := b.buf ++ chunk }

def dropPrefix (numBytes : Nat) : AudioBuffer :=
  let numBytes := min numBytes b.buf.length
  { buf := b.buf.drop numBytes, startSample := b.startSample + numBytes / 2 }

def clear : AudioBuffer := b.dropPrefix b.buf.length

def byteOffset (sample : Int) : Nat :=
  (min (max sample b.startSample) b.endSample - b.startSample).toNat * 2

def slice (startSample endSample : Int) : List UInt8 :=
  (b.buf.drop (b.byteOffset startSample)).take (b.byteOffset endSample - b.byteOffset startSample)

def dropBefore (sample : Int) : AudioBuffer := b.dropPrefix (b.byteOffset sample)

end AudioBuffer

/-! ### The VAD -/

/-- `VADConfig`; what passes its threshold is decided with the model. -/
structure VadConfig where
  prefixPaddingMs : Int := 300
  silenceDurationMs : Int := 500
  deriving DecidableEq

def VadConfig.error? (config : VadConfig) : Option String :=
  if config.prefixPaddingMs < 0 then some "prefix_padding_ms must not be negative."
  else if config.silenceDurationMs ≤ 0 then some "silence_duration_ms must be positive."
  else if config.prefixPaddingMs + vadFrameMs > config.silenceDurationMs then
    some "prefix_padding_ms must be at most silence_duration_ms minus 32 ms."
  else none

def VadConfig.prefixPaddingSamples (config : VadConfig) : Int :=
  config.prefixPaddingMs * pcmSampleRate / 1000

def VadConfig.silenceSamples (config : VadConfig) : Int :=
  config.silenceDurationMs * pcmSampleRate / 1000

structure Vad where
  config : VadConfig := {}
  leftoverPcm : List UInt8 := []
  silenceRunSamples : Int := 0
  lastSpeechSample : Int := 0
  deriving DecidableEq

/-- A frame with what the model says of it, and the text that the decode worker has reported for the open
segment just before the frame is looked at. -/
structure ScoredFrame where
  startSample : Int
  isSpeech : Bool
  reported : Option String := none

structure Boundary where
  started : Bool
  sample : Int

namespace Vad

variable (vad : Vad)

/-- `score`: the whole frames of the audio that is left over and the new audio. -/
def score (pcm : List UInt8) (startSample : Int) (speech : Nat → Bool)
    (reported : Nat → Option String) : Vad × List ScoredFrame :=
  let frameStart := startSample - (vad.leftoverPcm.length / 2 : Nat)
  let audio := vad.leftoverPcm ++ pcm
  let frames := audio.length / (vadFrameSamples * 2)
  ({ vad with leftoverPcm := audio.drop (frames * (vadFrameSamples * 2)) },
    (List.range frames).map fun i => ⟨frameStart + (i * vadFrameSamples : Nat), speech i, reported i⟩)

def step (frame : ScoredFrame) (inSpeech : Bool) : Vad × Option Boundary :=
  let vad :=
    if frame.isSpeech then
      { vad with silenceRunSamples := 0, lastSpeechSample := frame.startSample + vadFrameSamples }
    else { vad with silenceRunSamples := vad.silenceRunSamples + vadFrameSamples }
  if frame.isSpeech ∧ ¬ inSpeech then
    (vad, some ⟨true, frame.startSample - vad.config.prefixPaddingSamples⟩)
  else if ¬ frame.isSpeech ∧ inSpeech ∧ vad.silenceRunSamples ≥ vad.config.silenceSamples then
    (vad, some ⟨false, vad.lastSpeechSample⟩)
  else (vad, none)

def reset : Vad := { vad with leftoverPcm := [], silenceRunSamples := 0, lastSpeechSample := 0 }

end Vad

/-! ### The session -/

structure Segment where
  segmentId : Nat
  startSample : Int
  nextRefreshSample : Int
  lastText : String := ""
  deriving DecidableEq

structure Final where
  segmentId : Nat
  startSample : Int
  endSample : Int
  pcm : List UInt8
  deriving DecidableEq

inductive ServerEvent
  | updated
  | speechStarted (audioStartMs : Int) (segmentId : Nat)
  | speechStopped (audioEndMs : Int) (segmentId : Option Nat)
  | committed (segmentId : Nat)
  | cleared
  | error (type code message : String)
  deriving DecidableEq

/-- What `RealtimeTranscriptionConfig` comes to: `max_segment_samples` is none, or what is left of a
positive number of seconds, and the buffer holds at least four seconds. -/
structure Config where
  serverVad : Bool
  decodeIntervalMs : Int
  maxSegmentSamples : Option Nat
  maxBufferBytes : Nat
  holds : 4 * 32000 ≤ maxBufferBytes

structure Session where
  isInputDone : Bool := false
  decodeIntervalMs : Int
  audioBuffer : AudioBuffer := {}
  vad : Option Vad
  activeSegment : Option Segment := none
  nextSegmentId : Nat := 0
  lastClosedSegmentId : Option Nat := none
  sent : List ServerEvent := []
  /-- Every final that was queued. -/
  finals : List Final := []
  /-- The audio that was accepted. -/
  accepted : List UInt8 := []
  /-- Audio was accepted with a VAD. -/
  sawVad : Bool := false
  sawClear : Bool := false

structure TurnDetection where
  isServerVad : Bool
  config : VadConfig

/-- The keys of a `session.update` that are set. -/
structure Update where
  language : Option (Option String) := none
  decodeIntervalMs : Option (Option Int) := none
  turnDetection : Option (Option TurnDetection) := none

def Config.session (cfg : Config) : Session where
  decodeIntervalMs := cfg.decodeIntervalMs
  vad := if cfg.serverVad then some {} else none

namespace Session

variable (cfg : Config) (s : Session)

def send (event : ServerEvent) : Session := { s with sent := s.sent ++ [event] }

def refreshIntervalSamples : Int := s.decodeIntervalMs * pcmSampleRate / 1000

def startSegment (startSample : Int) : Session :=
  { s with
    activeSegment := some {
      segmentId := s.nextSegmentId
      startSample := startSample
      nextRefreshSample := startSample + s.refreshIntervalSamples }
    nextSegmentId := s.nextSegmentId + 1 }

def queueFinal (endSample : Int) : Session :=
  match s.activeSegment with
  | none => s
  | some segment =>
    if endSample ≤ segment.startSample then s
    else
      let final : Final := {
        segmentId := segment.segmentId
        startSample := segment.startSample
        endSample := endSample
        pcm := s.audioBuffer.slice segment.startSample endSample }
      { s with
        finals := s.finals ++ [final]
        audioBuffer := s.audioBuffer.dropBefore endSample
        activeSegment := none
        lastClosedSegmentId := some segment.segmentId
        sent := s.sent ++ [.committed segment.segmentId] }

/-- The loop of `finalize_through`, which has not ended where there is no fuel left. -/
def cutSegments (maxSamples : Nat) (endSample : Int) : Nat → Session → Option Session
  | 0, _ => none
  | fuel + 1, s =>
    match s.activeSegment with
    | none => some s
    | some segment =>
      if endSample - segment.startSample > maxSamples then
        let cut := segment.startSample + maxSamples
        cutSegments maxSamples endSample fuel ((s.queueFinal cut).startSegment cut)
      else some s

def finalizeThrough (fuel : Nat) (endSample : Int) : Option Session :=
  match s.activeSegment with
  | none => some s
  | some _ =>
    let endSample := min endSample s.audioBuffer.endSample
    match cfg.maxSegmentSamples with
    | none => some (s.queueFinal endSample)
    | some maxSamples => (cutSegments maxSamples endSample fuel s).map fun s => s.queueFinal endSample

def vadOnStarted (sample : Int) : Session :=
  let startSample := max (s.audioBuffer.startSample : Int) sample
  (s.startSegment startSample).send (.speechStarted (offsetsToMs startSample) s.nextSegmentId)

def vadOnStopped (fuel : Nat) (endSample : Int) : Option Session :=
  match s.activeSegment with
  | none => some s
  | some segment =>
    let hasSpeech := endSample > segment.startSample
    let s := s.send (.speechStopped (offsetsToMs endSample)
      (if hasSpeech then some segment.segmentId else s.lastClosedSegmentId))
    if hasSpeech then s.finalizeThrough cfg fuel endSample
    else if segment.lastText ≠ "" then s.finalizeThrough cfg fuel s.audioBuffer.endSample
    else some { s with activeSegment := none }

def report (text : Option String) : Session :=
  match text, s.activeSegment with
  | some text, some segment => { s with activeSegment := some { segment with lastText := text } }
  | _, _ => s

/-- The frames of `StatelessVAD.process`. -/
def processFrames (fuel : Nat) : List ScoredFrame → Session → Option Session
  | [], s => some s
  | frame :: frames, s =>
    let s := s.report frame.reported
    match s.vad with
    | none => some s
    | some vad =>
      let (vad, boundary) := vad.step frame s.activeSegment.isSome
      let s := { s with vad := some vad }
      match boundary with
      | none => processFrames fuel frames s
      | some ⟨true, sample⟩ => processFrames fuel frames (s.vadOnStarted sample)
      | some ⟨false, sample⟩ => (s.vadOnStopped cfg fuel sample).bind (processFrames fuel frames)

def trimIdlePrefix : Session :=
  match s.vad, s.activeSegment with
  | some vad, none =>
    let keepSamples := vad.config.prefixPaddingSamples + 2 * vadFrameSamples
    { s with audioBuffer := s.audioBuffer.dropBefore (s.audioBuffer.endSample - keepSamples) }
  | _, _ => s

def internalError (event : String) : Session :=
  s.send (.error "server_error" "internal_error"
    (String.join ["Internal error while handling ", event, "."]))

/-- `enforce_hard_limit` and what follows it in `handle_audio_append`; a limit of no samples divides by
zero. -/
def enforceHardLimit (fuel : Nat) : Option Session :=
  match s.activeSegment, cfg.maxSegmentSamples with
  | some segment, some maxSamples =>
    if maxSamples = 0 then some (s.internalError "input_audio_buffer.append")
    else
      let fullBlocks := (s.audioBuffer.endSample - segment.startSample) / maxSamples
      if fullBlocks = 0 then some s.trimIdlePrefix
      else
        let cut := segment.startSample + fullBlocks * maxSamples
        (s.finalizeThrough cfg fuel cut).map fun s => (s.startSegment cut).trimIdlePrefix
  | _, _ => some s.trimIdlePrefix

/-- `handle_audio_append` of the decoded audio, if it could be decoded. -/
def handleAudioAppend (fuel : Nat) (pcm : Option (List UInt8)) (speech : Nat → Bool)
    (reported : Nat → Option String) : Option Session :=
  match pcm with
  | none =>
    some (s.send (.error "invalid_request_error" "invalid_audio" "Audio must be base64 PCM16."))
  | some pcm =>
    if pcm.length % 2 ≠ 0 then
      some (s.send (.error "invalid_request_error" "invalid_audio"
        "PCM16 audio must contain complete 16-bit samples."))
    else
      let appendStartSample := s.audioBuffer.endSample
      match s.audioBuffer.appendBytes cfg.maxBufferBytes pcm with
      | none =>
        some (s.send (.error "invalid_request_error" "audio_buffer_overflow"
          (String.join ["Realtime audio buffer exceeded max_bytes=", toString cfg.maxBufferBytes])))
      | some buffer =>
        let s := { s with audioBuffer := buffer, accepted := s.accepted ++ pcm }
        match s.vad with
        | none =>
          let s := if s.activeSegment.isNone ∧ pcm ≠ [] then s.startSegment appendStartSample else s
          s.enforceHardLimit cfg fuel
        | some vad =>
          let (vad, frames) := vad.score pcm appendStartSample speech reported
          let s := { s with vad := some vad, sawVad := true }
          (s.processFrames cfg fuel frames).bind fun s => s.enforceHardLimit cfg fuel

def commitBuffer (fuel : Nat) (isSessionEnd : Bool) : Option Session :=
  let endSample := s.audioBuffer.endSample
  if s.activeSegment.isNone ∧ ¬ s.audioBuffer.isEmpty then
    if isSessionEnd ∧ s.vad.isSome then
      some { s with audioBuffer := s.audioBuffer.clear, vad := s.vad.map Vad.reset }
    else
      ((s.startSegment s.audioBuffer.startSample).finalizeThrough cfg fuel endSample).map fun s =>
        { s with vad := s.vad.map Vad.reset }
  else
    (s.finalizeThrough cfg fuel endSample).map fun s => { s with vad := s.vad.map Vad.reset }

def handleAudioClear : Session :=
  { s with
    audioBuffer := s.audioBuffer.clear
    activeSegment := none
    vad := s.vad.map Vad.reset
    sawClear := true }.send .cleared

/-- `handle_transcription_done` up to its wait for the finals. -/
def handleTranscriptionDone (fuel : Nat) : Option Session :=
  { s with isInputDone := true }.commitBuffer cfg fuel true

def turnDetectionError (turnDetection : TurnDetection) : Option (String × String) :=
  if ¬ turnDetection.isServerVad then
    some ("unsupported_turn_detection", "Realtime transcription supports only server_vad or null.")
  else if ¬ cfg.serverVad then
    some ("unsupported_turn_detection", "This model does not support server-side turn detection.")
  else turnDetection.config.error?.map fun problem => ("invalid_turn_detection", problem)

/-- `handle_session_update`; the language is not kept here. -/
def handleSessionUpdate (update : Update) : Session :=
  if ¬ s.audioBuffer.isEmpty ∧
      (update.language.isSome ∨ update.decodeIntervalMs.isSome ∨ update.turnDetection.isSome) then
    s.send (.error "invalid_request_error" "session_active"
      (String.join ["Language, decode interval and VAD settings cannot change ",
        "while uncommitted audio is buffered."]))
  else
    let s := { s with
      decodeIntervalMs := match update.decodeIntervalMs with
        | none => s.decodeIntervalMs
        | some interval => interval.getD cfg.decodeIntervalMs }
    match update.turnDetection with
    | none => s.send .updated
    | some none => { s with vad := none }.send .updated
    | some (some turnDetection) =>
      match turnDetectionError cfg turnDetection with
      | some (code, message) => s.send (.error "invalid_request_error" code message)
      | none => { s with vad := some { config := turnDetection.config } }.send .updated

end Session

/-- The client's events, with what the model says of the frames of an append. -/
inductive ClientEvent
  | update (update : Update)
  | append (pcm : Option (List UInt8)) (speech : Nat → Bool) (reported : Nat → Option String)
  | clear
  | commit
  | done

namespace ClientEvent

def type : ClientEvent → String
  | .update _ => "session.update"
  | .append _ _ _ => "input_audio_buffer.append"
  | .clear => "input_audio_buffer.clear"
  | .commit => "input_audio_buffer.commit"
  | .done => "transcription.done"

end ClientEvent

/-- `dispatch`: the state after the handler of an event, if it ends with the fuel. -/
def Session.handle (cfg : Config) (fuel : Nat) (s : Session) (event : ClientEvent) : Option Session :=
  if s.isInputDone then
    some (s.send (.error "invalid_request_error" "input_already_done"
      (String.join [event.type, " is not accepted after transcription.done."])))
  else
    match event with
    | .update update => some (s.handleSessionUpdate cfg update)
    | .append pcm speech reported => s.handleAudioAppend cfg fuel pcm speech reported
    | .clear => some s.handleAudioClear
    | .commit => s.commitBuffer cfg fuel false
    | .done => s.handleTranscriptionDone cfg fuel

/-- What happens next: an event of the client, or a text of the decode worker. -/
inductive Action
  | handle (fuel : Nat) (event : ClientEvent)
  | report (text : String)

def Session.step (cfg : Config) (s : Session) : Action → Option Session
  | .handle fuel event => s.handle cfg fuel event
  | .report text => some (s.report (some text))

def transcription (cfg : Config) : Machine Session Action := ⟨cfg.session, Session.step cfg⟩

end Transcription
