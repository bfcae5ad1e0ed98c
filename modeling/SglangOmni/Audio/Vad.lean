import Mathlib.Algebra.Order.Ring.Rat
import SglangOmni.Audio.Turns
import SglangOmni.Lib.Framing

/-! `StreamingVAD`: speech starts and stops by the probability of each frame.  The model is a function of
the frames that it saw since its reset and may raise; levels are abstract. -/

namespace Audio.Vad

open Lib

abbrev Frame := List UInt8

/-- The speech model: the probability of the last of the frames seen, or nothing where it raises. -/
abbrev SpeechModel := List Frame → Option ℚ

/-- The arithmetic of levels: the mean square of a frame, sums of these, the decibels of a mean, and
whether a power lies more than the margin below a reference. -/
structure Levels (φ δ : Type) where
  power : Frame → φ
  zero : φ
  add : φ → φ → φ
  meanDb : φ → Nat → δ
  isBelow : φ → δ → ℚ → Bool

structure Config where
  threshold : ℚ := 1 / 2
  prefixPaddingMs : Int := 300
  silenceDurationMs : Int := 500
  backgroundMarginDb : Option ℚ := none

/-- The state of a `StreamingVAD` without its leftover bytes.  `seen` is the state of the model: the frames
since its reset. -/
structure State (φ δ : Type) where
  track : Track := {}
  silenceRunSamples : Nat := 0
  runStartOffset : Option Nat := none
  utterancePower : φ
  utteranceFrames : Nat := 0
  referenceDb : Option δ := none
  seen : List Frame := []

variable {φ δ : Type} (levels : Levels φ δ) (model : SpeechModel) (config : Config)

def State.isBackground (s : State φ δ) (power : φ) : Bool :=
  match config.backgroundMarginDb, s.referenceDb with
  | some margin, some reference => levels.isBelow power reference margin
  | _, _ => false

def samplesOf (ms : Int) : Int := ms * sampleRate / 1000

def State.startSpeech (s : State φ δ) (runStart : Nat) : State φ δ × List Emit :=
  let startedAt := (runStart - samplesOf config.prefixPaddingMs).toNat
  ({ s with
      track := {
        isSpeech := true
        samplesConsumed := s.track.samplesConsumed + frameSamples
        lastSpeechOffset := s.track.samplesConsumed + frameSamples
        firstFrames := s.track.firstFrames ++ [s.track.samplesConsumed] }
      utterancePower := levels.zero
      utteranceFrames := 0 },
    [{ eventType := .speechStarted, sampleOffset := startedAt }])

def State.countPower (s : State φ δ) (power : φ) : State φ δ :=
  if s.track.isSpeech then
    { s with
      utterancePower := levels.add s.utterancePower power
      utteranceFrames := s.utteranceFrames + 1 }
  else s

def State.hearSpeech (s : State φ δ) (power : φ) : State φ δ × List Emit :=
  let runStart := s.runStartOffset.getD s.track.samplesConsumed
  let s := { s with silenceRunSamples := 0, runStartOffset := some runStart }
  let heard :=
    if s.track.isSpeech || s.isBackground levels config power then
      ({ s with
          track := { s.track with
            samplesConsumed := s.track.samplesConsumed + frameSamples
            lastSpeechOffset := s.track.samplesConsumed + frameSamples } }, [])
    else s.startSpeech levels config runStart
  (heard.1.countPower levels power, heard.2)

def State.hearSilence (s : State φ δ) : State φ δ × List Emit :=
  let s := { s with
    runStartOffset := none
    silenceRunSamples := s.silenceRunSamples + frameSamples }
  let consumed := s.track.samplesConsumed + frameSamples
  if s.track.isSpeech ∧ samplesOf config.silenceDurationMs ≤ s.silenceRunSamples then
    ({ s with
        track := { s.track with isSpeech := false, samplesConsumed := consumed }
        referenceDb := some (levels.meanDb s.utterancePower s.utteranceFrames) },
      [{ eventType := .speechStopped, sampleOffset := s.track.lastSpeechOffset }])
  else ({ s with track := { s.track with samplesConsumed := consumed } }, [])

/-- One turn of the loop of `process`. -/
def State.step (s : State φ δ) (frame : Frame) : Option (State φ δ × List Emit) :=
  (model (s.seen ++ [frame])).map fun probability =>
    let s := { s with seen := s.seen ++ [frame] }
    if config.threshold ≤ probability then s.hearSpeech levels config (levels.power frame)
    else s.hearSilence levels config

def frameBytes : Nat := frameSamples * 2

def process (f : Framed (State φ δ) UInt8) (pcm : List UInt8) :
    Option (Framed (State φ δ) UInt8 × List Emit) :=
  feed frameBytes (State.step levels model config) f pcm

/-- Calls of `process` in a row, with all that they return. -/
def processAll (f : Framed (State φ δ) UInt8) (calls : List (List UInt8)) :
    Option (Framed (State φ δ) UInt8 × List Emit) :=
  feedAll frameBytes (State.step levels model config) f calls

/-- `reset`: the level of the last utterance is kept. -/
def State.reset (s : State φ δ) : State φ δ where
  utterancePower := s.utterancePower
  utteranceFrames := s.utteranceFrames
  referenceDb := s.referenceDb

/-- A detector that is new or after `reset`. -/
def resetDetector (s : State φ δ) : Framed (State φ δ) UInt8 := { state := s.reset, leftover := [] }

/-! ### Steps -/

variable {levels model config} {s : State φ δ}

@[simp] theorem track_countPower (s : State φ δ) (power : φ) :
    (s.countPower levels power).track = s.track := by
  unfold State.countPower
  split <;> rfl

theorem step_hearSpeech (s : State φ δ) (power : φ) :
    s.track.Step (s.hearSpeech levels config power).1.track (s.hearSpeech levels config power).2 := by
  unfold State.hearSpeech
  simp only
  rw [track_countPower]
  split
  · exact .speech
  · next hloud =>
    have hspeech : s.track.isSpeech = false := by
      cases h : s.track.isSpeech with
      | false => rfl
      | true =>
        rw [h, Bool.true_or] at hloud
        exact absurd rfl hloud
    exact .start hspeech _

theorem step_hearSilence (s : State φ δ) :
    s.track.Step (s.hearSilence levels config).1.track (s.hearSilence levels config).2 := by
  unfold State.hearSilence
  simp only
  split
  · next hstop => exact .stop hstop.1
  · exact .silence

theorem step_track {frame : Frame} {r : State φ δ × List Emit}
    (h : s.step levels model config frame = some r) : s.track.Step r.1.track r.2 := by
  obtain ⟨probability, -, rfl⟩ := Option.map_eq_some_iff.mp h
  simp only
  split
  · exact step_hearSpeech { s with seen := s.seen ++ [frame] } _
  · exact step_hearSilence { s with seen := s.seen ++ [frame] }

theorem frameBytes_pos : 0 < frameBytes := by decide

theorem processAll_eq (s : State φ δ) (calls : List (List UInt8)) :
    processAll levels model config (resetDetector s) calls =
      process levels model config (resetDetector s) calls.flatten := by
  have hleft : (resetDetector s).leftover.length < frameBytes := frameBytes_pos
  exact feedAll_eq_feed frameBytes_pos hleft calls

theorem orderly_of_process {pcm : List UInt8} {r : Framed (State φ δ) UInt8 × List Emit}
    (h : process levels model config (resetDetector s) pcm = some r) :
    Orderly r.1.state.track.firstFrames r.2 := by
  have hspoken : Spoken r.1.state.track r.2 := by
    have hleft : (resetDetector s).leftover.length < frameBytes := frameBytes_pos
    refine feed_invariant (P := fun s events => Spoken s.track events) frameBytes_pos ?_ hleft ?_ h
    · intro s events frame r hs hstep
      exact hs.step (step_track hstep)
    · exact .initial rfl rfl (Nat.le_refl 0)
  exact hspoken.orderly

end Audio.Vad
