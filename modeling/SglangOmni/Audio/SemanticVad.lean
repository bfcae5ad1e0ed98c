import SglangOmni.Audio.Vad

/-! `SemanticTurnDetector`: a turn ends after a silence whose length depends on how likely the end-of-turn
model finds its end; where that model raises, a fixed silence ends it. -/

namespace Audio.Semantic

open Lib Vad

/-- The end-of-turn model: the probability for the samples of an utterance, or nothing where it raises. -/
abbrev EouModel := List UInt8 → Option ℚ

structure Config where
  speechThreshold : ℚ := 1 / 2
  prefixPaddingMs : Int := 300
  candidatePauseMs : Int := 160
  maxUtteranceSeconds : Int := 8
  confidenceThreshold : ℚ := 88 / 100
  immediateConfidenceThreshold : ℚ := 97 / 100
  confidenceSilenceMs : Int := 640
  immediateSilenceMs : Int := 250
  maxPauseMs : Int := 2000
  fallbackSilenceMs : Int := 640

def Config.requiredSilenceMs (config : Config) : Option ℚ → Int
  | none => config.maxPauseMs
  | some probability =>
    if config.immediateConfidenceThreshold ≤ probability then
      max config.candidatePauseMs config.immediateSilenceMs
    else if config.confidenceThreshold ≤ probability then
      max config.candidatePauseMs config.confidenceSilenceMs
    else config.maxPauseMs

/-- `end_of_turn_probability`: the model gets the last samples of the utterance. -/
def endOfTurnProbability (model : EouModel) (pcm16 : List UInt8) (maxUtteranceSeconds : Int) :
    Option ℚ :=
  let samples := maxUtteranceSeconds * sampleRate
  -- A slice from `-samples` drops that many samples from the front where `samples` is not positive.
  let dropped := if 0 < samples then pcm16.length / 2 - samples.toNat else (-samples).toNat
  model (pcm16.drop (2 * dropped))

/-- The state of a `SemanticTurnDetector` without its leftover bytes; `seen` is the state of the speech
model. -/
structure State where
  track : Track := {}
  silenceRunSamples : Nat := 0
  candidateProbability : Option ℚ := none
  utteranceAudio : List UInt8 := []
  eouBroken : Bool := false
  seen : List Frame := []

variable (speechModel : SpeechModel) (eouModel : EouModel) (config : Config)

def State.endTurn (s : State) : State × List Emit :=
  ({ s with
      track := { s.track with
        isSpeech := false
        samplesConsumed := s.track.samplesConsumed + frameSamples }
      silenceRunSamples := 0
      candidateProbability := none
      utteranceAudio := [] },
    [{ eventType := .speechStopped, sampleOffset := s.track.lastSpeechOffset }])

def State.goOn (s : State) : State × List Emit :=
  ({ s with track := { s.track with
      samplesConsumed := s.track.samplesConsumed + frameSamples } }, [])

def State.endAfter (s : State) (silenceMs requiredMs : Int) : State × List Emit :=
  if requiredMs ≤ silenceMs then s.endTurn else s.goOn

def State.hearSpeech (s : State) (frame : Frame) : State × List Emit :=
  let consumed := s.track.samplesConsumed + frameSamples
  let s := { s with silenceRunSamples := 0, candidateProbability := none }
  if s.track.isSpeech then
    ({ s with
        track := { s.track with samplesConsumed := consumed, lastSpeechOffset := consumed }
        utteranceAudio := s.utteranceAudio ++ frame }, [])
  else
    let startedAt := (s.track.samplesConsumed - samplesOf config.prefixPaddingMs).toNat
    ({ s with
        track := {
          isSpeech := true
          samplesConsumed := consumed
          lastSpeechOffset := consumed
          firstFrames := s.track.firstFrames ++ [s.track.samplesConsumed] }
        utteranceAudio := frame },
      [{ eventType := .speechStarted, sampleOffset := startedAt }])

def State.hearSilence (s : State) (frame : Frame) : State × List Emit :=
  if !s.track.isSpeech then s.goOn
  else
    let s := { s with
      utteranceAudio := s.utteranceAudio ++ frame
      silenceRunSamples := s.silenceRunSamples + frameSamples }
    let silenceMs : Int := s.silenceRunSamples * 1000 / sampleRate
    if s.eouBroken then s.endAfter silenceMs config.fallbackSilenceMs
    else if s.candidateProbability = none ∧ config.candidatePauseMs ≤ silenceMs then
      match endOfTurnProbability eouModel s.utteranceAudio config.maxUtteranceSeconds with
      | none => { s with eouBroken := true }.endAfter silenceMs config.fallbackSilenceMs
      | some probability =>
        { s with candidateProbability := some probability }.endAfter silenceMs
          (config.requiredSilenceMs (some probability))
    else s.endAfter silenceMs (config.requiredSilenceMs s.candidateProbability)

/-- One turn of the loop of `process`. -/
def State.step (s : State) (frame : Frame) : Option (State × List Emit) :=
  (speechModel (s.seen ++ [frame])).map fun probability =>
    let s := { s with seen := s.seen ++ [frame] }
    if config.speechThreshold ≤ probability then s.hearSpeech config frame
    else s.hearSilence eouModel config frame

def process (f : Framed State UInt8) (pcm : List UInt8) : Option (Framed State UInt8 × List Emit) :=
  feed frameBytes (State.step speechModel eouModel config) f pcm

/-- Calls of `process` in a row, with all that they return. -/
def processAll (f : Framed State UInt8) (calls : List (List UInt8)) :
    Option (Framed State UInt8 × List Emit) :=
  feedAll frameBytes (State.step speechModel eouModel config) f calls

/-- A detector that is new or after `reset`. -/
def resetDetector : Framed State UInt8 := { state := {}, leftover := [] }

/-! ### Steps -/

variable {speechModel eouModel config} {s : State}

theorem step_endAfter {t : Track} (h : t.isSpeech = true) (htrack : s.track = t)
    (silenceMs requiredMs : Int) :
    t.Step (s.endAfter silenceMs requiredMs).1.track (s.endAfter silenceMs requiredMs).2 := by
  subst htrack
  unfold State.endAfter
  split
  · exact .stop h
  · exact .silence

theorem step_hearSpeech (s : State) (frame : Frame) :
    s.track.Step (s.hearSpeech config frame).1.track (s.hearSpeech config frame).2 := by
  unfold State.hearSpeech
  simp only
  split
  · exact .speech
  · next hspeech => exact .start (Bool.not_eq_true _ ▸ hspeech) _

theorem step_hearSilence (s : State) (frame : Frame) :
    s.track.Step (s.hearSilence eouModel config frame).1.track
      (s.hearSilence eouModel config frame).2 := by
  unfold State.hearSilence
  split
  · exact .silence
  · next hspeech =>
    have hspeech : s.track.isSpeech = true := by simpa using hspeech
    simp only
    split
    · apply step_endAfter hspeech
      rfl
    · split
      · split
        · apply step_endAfter hspeech
          rfl
        · apply step_endAfter hspeech
          rfl
      · apply step_endAfter hspeech
        rfl

theorem step_track {frame : Frame} {r : State × List Emit}
    (h : s.step speechModel eouModel config frame = some r) : s.track.Step r.1.track r.2 := by
  obtain ⟨probability, -, rfl⟩ := Option.map_eq_some_iff.mp h
  simp only
  split
  · exact step_hearSpeech { s with seen := s.seen ++ [frame] } frame
  · exact step_hearSilence { s with seen := s.seen ++ [frame] } frame

theorem processAll_eq (calls : List (List UInt8)) :
    processAll speechModel eouModel config resetDetector calls =
      process speechModel eouModel config resetDetector calls.flatten := by
  have hleft : resetDetector.leftover.length < frameBytes := frameBytes_pos
  exact feedAll_eq_feed frameBytes_pos hleft calls

theorem orderly_of_process {pcm : List UInt8} {r : Framed State UInt8 × List Emit}
    (h : process speechModel eouModel config resetDetector pcm = some r) :
    Orderly r.1.state.track.firstFrames r.2 := by
  have hspoken : Spoken r.1.state.track r.2 := by
    have hleft : resetDetector.leftover.length < frameBytes := frameBytes_pos
    refine feed_invariant (P := fun s events => Spoken s.track events) frameBytes_pos ?_ hleft ?_ h
    · intro s events frame r hs hstep
      exact hs.step (step_track hstep)
    · exact .initial rfl rfl (Nat.le_refl 0)
  exact hspoken.orderly

end Audio.Semantic

namespace Audio

open Lib

/-- Both detectors, new or after a reset, return the same events however the bytes are cut into calls, and
raise alike.  Starts and stops take turns, stops move on, and each is at least a frame behind the start of
the first speech frame of its utterance. -/
theorem detectors_ignore_cuts :
    (∀ {φ δ : Type} (levels : Vad.Levels φ δ) (model : Vad.SpeechModel) (config : Vad.Config)
      (s : Vad.State φ δ) (calls : List (List UInt8)),
      Vad.processAll levels model config (Vad.resetDetector s) calls =
          Vad.process levels model config (Vad.resetDetector s) calls.flatten ∧
        ∀ r, Vad.processAll levels model config (Vad.resetDetector s) calls = some r →
          Orderly r.1.state.track.firstFrames r.2) ∧
      ∀ (speechModel : Vad.SpeechModel) (eouModel : Semantic.EouModel) (config : Semantic.Config)
        (calls : List (List UInt8)),
        Semantic.processAll speechModel eouModel config Semantic.resetDetector calls =
            Semantic.process speechModel eouModel config Semantic.resetDetector calls.flatten ∧
          ∀ r, Semantic.processAll speechModel eouModel config Semantic.resetDetector calls = some r →
            Orderly r.1.state.track.firstFrames r.2 := by
  constructor
  · intro φ δ levels model config s calls
    refine ⟨Vad.processAll_eq s calls, fun r hr => ?_⟩
    rw [Vad.processAll_eq] at hr
    exact Vad.orderly_of_process hr
  · intro speechModel eouModel config calls
    refine ⟨Semantic.processAll_eq calls, fun r hr => ?_⟩
    rw [Semantic.processAll_eq] at hr
    exact Semantic.orderly_of_process hr

def loudFrames : Vad.SpeechModel := fun seen =>
  some (if (seen.getLast?.bind List.head?).any (· ≠ 0) then 1 else 0)

def noLevels : Vad.Levels Nat Nat where
  power := fun _ => 0
  zero := 0
  add := fun power more => power + more
  meanDb := fun power frames => power / frames
  isBelow := fun _ _ _ => false

/-- A speech frame, a silent one and half a frame, in three calls that cut the frames. -/
def threeCalls : List (List UInt8) :=
  [List.replicate 700 1, List.replicate 324 1 ++ List.replicate 900 0, List.replicate 636 0]

/-- The events that `threeCalls` lead to. -/
def threeCallsEvents : Option (List Emit) :=
  (Vad.processAll noLevels loudFrames { silenceDurationMs := 32 }
    (Vad.resetDetector { utterancePower := 0 }) threeCalls).map Prod.snd

theorem detectors_ignore_cuts_threeCalls : ∃ r,
    Vad.processAll noLevels loudFrames { silenceDurationMs := 32 }
        (Vad.resetDetector { utterancePower := 0 }) threeCalls = some r ∧
      r.2 = [⟨.speechStarted, 0⟩, ⟨.speechStopped, 512⟩] ∧
      Orderly r.1.state.track.firstFrames r.2 := by
  have hevents : threeCallsEvents = some [⟨.speechStarted, 0⟩, ⟨.speechStopped, 512⟩] := by
    decide +kernel
  obtain ⟨r, hr, hsnd⟩ := Option.map_eq_some_iff.mp hevents
  exact ⟨r, hr, hsnd, (detectors_ignore_cuts.1 noLevels loudFrames _ _ threeCalls).2 r hr⟩

end Audio
