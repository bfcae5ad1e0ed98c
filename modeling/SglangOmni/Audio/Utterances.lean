import SglangOmni.Audio.Buffer

/-! Every committed utterance holds the samples of the input between its start and its stop.  The input
is recorded beside the session: the bytes since the last clear, and the whole samples before it, for a
clear drops the first byte of a sample whose second has not come. -/

namespace Audio

open Lib

/-- A committed utterance, with the samples at which the detector saw it start and stop and the sample
at which the commit or the clear before it ended. -/
structure Utterance where
  started : Nat
  stopped : Nat
  previousEnd : Nat
  payload : Wav
  deriving DecidableEq

/-- The session with a record of its input.  `started` is the sample of a start whose stop has not come,
and `previousEnd` the sample at which the last commit or clear ended. -/
structure Recorded where
  session : AudioInput := {}
  earlier : List UInt8 := []
  segment : List UInt8 := []
  started : Option Nat := none
  previousEnd : Nat := 0
  utterances : List Utterance := []
  deriving DecidableEq

namespace Recorded

def stream (s : Recorded) : List UInt8 := s.earlier ++ s.segment

def resetAt (s : Recorded) : Nat := s.earlier.length / 2

def received (s : Recorded) : Nat := s.resetAt + s.segment.length / 2

/-- The bytes of the samples from `a` up to `b`. -/
def samples (s : Recorded) (a b : Nat) : List UInt8 := (s.stream.drop (2 * a)).take (2 * (b - a))

def handleVadEmit (s : Recorded) (emit : Emit) : Recorded :=
  let session := s.session.handleVadEmit emit
  let offset := s.resetAt + emit.sampleOffset
  match emit.eventType with
  | .speechStarted => { s with session := session, started := some offset }
  | .speechStopped =>
    let committed := session.responseQueue.drop s.session.responseQueue.length
    { s with
      session := session
      started := none
      previousEnd := if committed = [] then s.previousEnd else offset
      utterances := s.utterances ++
        committed.map fun item => ⟨s.started.getD 0, offset, s.previousEnd, item.2⟩ }

/-- `handle_audio_append`, where the detector answers the chunk by `emits`. -/
def handleAudioAppend (s : Recorded) (chunk : List UInt8) (emits : List Emit) : Recorded :=
  match s.session.audioBuffer.appendBytes chunk with
  | .error _ => s
  | .ok audioBuffer =>
    emits.foldl handleVadEmit
      { s with
        session := { s.session with audioBuffer := audioBuffer }
        segment := s.segment ++ chunk }

def cleared (s : Recorded) (session : AudioInput) : Recorded :=
  { s with
    session := session
    earlier := s.earlier ++ s.segment.take (2 * (s.segment.length / 2))
    segment := []
    started := none
    previousEnd := s.received }

end Recorded

inductive AudioAction
  | append (chunk : List UInt8) (emits : List Emit)
  | clear
  | replaceVad

def audioInput : Machine Recorded AudioAction where
  init := {}
  step s a :=
    match a with
    | .append chunk emits => some (s.handleAudioAppend chunk emits)
    | .clear => some (s.cleared s.session.handleAudioClear)
    | .replaceVad => some (s.cleared s.session.replaceVad)

def TakeTurns : Bool → List Emit → Prop
  | _, [] => True
  | speaking, emit :: rest =>
    emit.eventType = (if speaking then .speechStopped else .speechStarted) ∧
    TakeTurns (!speaking) rest

instance decidableTakeTurns : ∀ speaking emits, Decidable (TakeTurns speaking emits)
  | _, [] => isTrue trivial
  | speaking, emit :: rest =>
    have := decidableTakeTurns (!speaking) rest
    inferInstanceAs (Decidable (emit.eventType =
      (if speaking then .speechStopped else .speechStarted) ∧ TakeTurns (!speaking) rest))

/-- The detector's events take turns since its last reset, at offsets within the audio that it was given
since. -/
def Detects (s : Recorded) : AudioAction → Prop
  | .append chunk emits => TakeTurns s.started.isSome emits ∧
      ∀ emit ∈ emits, emit.sampleOffset ≤ (s.segment.length + chunk.length) / 2
  | _ => True

instance (s : Recorded) (a : AudioAction) : Decidable (Detects s a) :=
  match a with
  | .append chunk emits => inferInstanceAs (Decidable (TakeTurns s.started.isSome emits ∧
      ∀ emit ∈ emits, emit.sampleOffset ≤ (s.segment.length + chunk.length) / 2))
  | .clear => isTrue trivial
  | .replaceVad => isTrue trivial

structure Utterance.Holds (s : Recorded) (u : Utterance) : Prop where
  nonempty : max u.started u.previousEnd < u.stopped
  within : u.stopped ≤ s.received
  frames : u.payload.frames = s.samples (max u.started u.previousEnd) u.stopped

/-- The two origins against the input, and the utterance under way against the buffer. -/
structure Recorded.Kept (s : Recorded) : Prop where
  whole : s.earlier.length = 2 * s.session.vadOriginSamples
  low : s.session.vadOriginSamples ≤ s.session.bufferOriginSamples
  high : s.session.bufferOriginSamples ≤ s.received
  buffered : s.session.audioBuffer.buf = s.stream.drop (2 * s.session.bufferOriginSamples)
  start : s.session.audioBuffer.startSample = s.session.bufferOriginSamples
  ended : s.previousEnd = s.session.bufferOriginSamples
  speaking : ∀ started, s.started = some started →
    s.session.utteranceStartByte = some (2 * (started - s.session.bufferOriginSamples))
  queue : s.session.responseQueue.map Prod.snd = s.utterances.map Utterance.payload
  holds : ∀ u ∈ s.utterances, u.Holds s

theorem Utterance.Holds.mono {s s' : Recorded} {u : Utterance} (h : u.Holds s)
    (hle : s.received ≤ s'.received)
    (hsame : ∀ a b, b ≤ s.received → s'.samples a b = s.samples a b) : u.Holds s' :=
  ⟨h.nonempty, Nat.le_trans h.within hle, by rw [h.frames, hsame _ _ h.within]⟩

namespace Recorded

variable {s : Recorded}

theorem Kept.resetAt (h : s.Kept) : s.resetAt = s.session.vadOriginSamples := by
  have hwhole := h.whole
  unfold Recorded.resetAt
  omega

theorem length_stream (s : Recorded) : s.stream.length = s.earlier.length + s.segment.length :=
  List.length_append

theorem Kept.numBytes (h : s.Kept) : s.session.audioBuffer.numBytes =
    s.stream.length - 2 * s.session.bufferOriginSamples := by
  unfold RealtimeAudioBuffer.numBytes
  rw [h.buffered, List.length_drop]

theorem Kept.numSamples (h : s.Kept) :
    s.session.bufferOriginSamples + s.session.audioBuffer.numSamples = s.received := by
  have hbytes := h.numBytes
  have hhigh := h.high
  have hwhole := h.whole
  unfold RealtimeAudioBuffer.numBytes at hbytes
  unfold RealtimeAudioBuffer.numSamples bytesPerSample
  rw [length_stream] at hbytes
  unfold received Recorded.resetAt at *
  omega

theorem sampleOffsetToBufferByte_eq (session : AudioInput) (offset : Nat) :
    session.sampleOffsetToBufferByte offset =
      2 * (session.vadOriginSamples + offset - session.bufferOriginSamples) := by
  unfold AudioInput.sampleOffsetToBufferByte AudioInput.absoluteSample
  simp only
  omega

theorem samples_append (s : Recorded) (chunk : List UInt8) (session : AudioInput) {a b : Nat}
    (hb : 2 * b ≤ s.stream.length) :
    samples { s with session := session, segment := s.segment ++ chunk } a b = s.samples a b := by
  show (((s.earlier ++ (s.segment ++ chunk)).drop (2 * a)).take (2 * (b - a))) = _
  rw [← List.append_assoc]
  show (((s.stream ++ chunk).drop (2 * a)).take (2 * (b - a))) = _
  by_cases ha : 2 * a ≤ s.stream.length
  · rw [List.drop_append_of_le_length ha, List.take_append_of_le_length]
    · rfl
    · rw [List.length_drop]
      omega
  · have hzero : b - a = 0 := by omega
    rw [samples, hzero, Nat.mul_zero, List.take_zero, List.take_zero]

theorem autoCommitUtterance_cases (session : AudioInput) (offset : Nat) :
    let startByte := session.utteranceStartByte.getD 0
    let endByte := min (session.sampleOffsetToBufferByte offset) session.audioBuffer.numBytes
    session.autoCommitUtterance offset = session ∨
    startByte < endByte ∧ ∃ itemId sent newId, session.autoCommitUtterance offset =
      { session with
        audioBuffer := session.audioBuffer.dropPrefix endByte
        bufferOriginSamples := session.bufferOriginSamples + endByte / 2
        utteranceStartByte := none
        utteranceItemId := none
        responseQueue := session.responseQueue ++
          [(itemId, session.audioBuffer.toSlicedWav startByte endByte)]
        sent := sent
        newId := newId } := by
  intro startByte endByte
  unfold AudioInput.autoCommitUtterance
  simp only
  split
  · exact Or.inl rfl
  · next hmore =>
    refine Or.inr ⟨Nat.not_le.mp fun hle => hmore (Or.inr hle), ?_⟩
    unfold AudioInput.itemOrNew
    split <;> exact ⟨_, _, _, rfl⟩

theorem handleVadEmit_stopped (session : AudioInput) {emit : Emit}
    (hstop : emit.eventType = .speechStopped) :
    let startByte := session.utteranceStartByte.getD 0
    let endByte := min (session.sampleOffsetToBufferByte emit.sampleOffset)
      session.audioBuffer.numBytes
    (∃ sent newId, session.handleVadEmit emit =
      { session with speechIdle := true, sent := sent, newId := newId }) ∨
    startByte < endByte ∧ ∃ itemId sent newId, session.handleVadEmit emit =
      { session with
        audioBuffer := session.audioBuffer.dropPrefix endByte
        bufferOriginSamples := session.bufferOriginSamples + endByte / 2
        utteranceStartByte := none
        utteranceItemId := none
        speechIdle := true
        responseQueue := session.responseQueue ++
          [(itemId, session.audioBuffer.toSlicedWav startByte endByte)]
        sent := sent
        newId := newId } := by
  intro startByte endByte
  have hitem : ∃ newId, session.itemOrNew.2 = { session with newId := newId } := by
    unfold AudioInput.itemOrNew
    split
    · exact ⟨session.newId, rfl⟩
    · exact ⟨_, rfl⟩
  obtain ⟨newId, hnew⟩ := hitem
  have hemit : session.handleVadEmit emit =
      { (AudioInput.send { session with newId := newId } (.speechStopped
          (offsetsToMs (session.absoluteSample emit.sampleOffset))
          session.itemOrNew.1)).autoCommitUtterance emit.sampleOffset with speechIdle := true } := by
    unfold AudioInput.handleVadEmit
    rw [hstop]
    simp only
    rw [hnew]
  rw [hemit]
  rcases autoCommitUtterance_cases (AudioInput.send { session with newId := newId } (.speechStopped
      (offsetsToMs (session.absoluteSample emit.sampleOffset)) session.itemOrNew.1))
      emit.sampleOffset with hnone | ⟨hlt, itemId, sent, newId', hcommit⟩
  · left
    rw [hnone]
    exact ⟨_, newId, rfl⟩
  · right
    rw [hcommit]
    exact ⟨hlt, itemId, sent, newId', rfl⟩

theorem Kept.slice (h : s.Kept) {a b : Nat}
    (ha : a - s.session.bufferOriginSamples < b - s.session.bufferOriginSamples) :
    (s.session.audioBuffer.toSlicedWav (2 * (a - s.session.bufferOriginSamples))
      (2 * (b - s.session.bufferOriginSamples))).frames =
      s.samples (max a s.session.bufferOriginSamples) b := by
  show (s.session.audioBuffer.buf.take _).drop _ = _
  rw [h.buffered, List.drop_take, List.drop_drop]
  unfold samples
  congr 2 <;> omega

theorem Kept.handleVadEmit (h : s.Kept) {emit : Emit}
    (hturn : emit.eventType = if s.started.isSome then .speechStopped else .speechStarted)
    (hwithin : emit.sampleOffset ≤ s.segment.length / 2) : (s.handleVadEmit emit).Kept := by
  have hreset := h.resetAt
  have hbytes := h.numBytes
  have hwhole := h.whole
  have hhigh := h.high
  have hlow := h.low
  have hoffset := sampleOffsetToBufferByte_eq s.session emit.sampleOffset
  rw [length_stream] at hbytes
  cases hstarted : s.started with
  | none =>
    rw [hstarted] at hturn
    have hemit : s.handleVadEmit emit =
        { s with
          session := s.session.handleVadEmit emit
          started := some (s.resetAt + emit.sampleOffset) } := by
      unfold Recorded.handleVadEmit
      rw [hturn]
      rfl
    have hsession : s.session.handleVadEmit emit =
        { s.session with
          speechIdle := false
          utteranceStartByte := some (min (s.session.sampleOffsetToBufferByte emit.sampleOffset)
            s.session.audioBuffer.numBytes)
          utteranceItemId := some s.session.newId
          newId := s.session.newId + 1
          sent := s.session.sent ++ [SessionEvent.speechStarted
            (offsetsToMs (s.session.absoluteSample emit.sampleOffset)) s.session.newId] } := by
      unfold AudioInput.handleVadEmit
      rw [hturn]
      rfl
    rw [hemit, hsession]
    refine ⟨hwhole, hlow, hhigh, h.buffered, h.start, h.ended, ?_, h.queue, ?_⟩
    · intro started hs
      cases hs
      show some (min _ _) =
        some (2 * (s.resetAt + emit.sampleOffset - s.session.bufferOriginSamples))
      rw [hoffset, hbytes, hreset]
      congr 1
      unfold received Recorded.resetAt at hhigh
      omega
    · intro u hu
      exact (h.holds u hu).mono (Nat.le_refl _) fun _ _ _ => rfl
  | some started =>
    rw [hstarted] at hturn
    have hemit : s.handleVadEmit emit =
        { s with
          session := s.session.handleVadEmit emit
          started := none
          previousEnd :=
            if (s.session.handleVadEmit emit).responseQueue.drop s.session.responseQueue.length = []
            then s.previousEnd else s.resetAt + emit.sampleOffset
          utterances := s.utterances ++
            ((s.session.handleVadEmit emit).responseQueue.drop
              s.session.responseQueue.length).map fun item =>
                ⟨started, s.resetAt + emit.sampleOffset, s.previousEnd, item.2⟩ } := by
      unfold Recorded.handleVadEmit
      rw [hturn, hstarted]
      rfl
    have hbyte : min (s.session.sampleOffsetToBufferByte emit.sampleOffset)
        s.session.audioBuffer.numBytes =
        2 * (s.resetAt + emit.sampleOffset - s.session.bufferOriginSamples) := by
      rw [hoffset, hbytes, hreset]
      unfold received Recorded.resetAt at hhigh
      omega
    rw [hemit]
    rcases handleVadEmit_stopped s.session hturn with
      ⟨sent, newId, hsession⟩ | ⟨hlt, itemId, sent, newId, hsession⟩
    · rw [hsession]
      simp only [List.drop_length, List.map_nil, List.append_nil, if_true]
      refine ⟨hwhole, hlow, hhigh, h.buffered, h.start, h.ended, ?_, h.queue, ?_⟩
      · intro _ hs
        cases hs
      · intro u hu
        exact (h.holds u hu).mono (Nat.le_refl _) fun _ _ _ => rfl
    · rw [hbyte] at hsession hlt
      rw [h.speaking started hstarted, Option.getD_some] at hsession hlt
      rw [hsession]
      simp only [List.drop_left, List.map_singleton]
      have hend : s.session.bufferOriginSamples +
          2 * (s.resetAt + emit.sampleOffset - s.session.bufferOriginSamples) / 2 =
          s.resetAt + emit.sampleOffset := by omega
      have hreceived : s.resetAt + emit.sampleOffset ≤ s.received := by
        unfold received
        omega
      have hheld : 2 * (s.resetAt + emit.sampleOffset - s.session.bufferOriginSamples) ≤
          s.session.audioBuffer.buf.length := by
        have hlength : s.session.audioBuffer.buf.length = _ := hbytes
        rw [hlength]
        unfold received Recorded.resetAt at hreceived
        omega
      have hdrop : s.session.audioBuffer.dropPrefix
          (2 * (s.resetAt + emit.sampleOffset - s.session.bufferOriginSamples)) =
          { buf := s.stream.drop (2 * (s.resetAt + emit.sampleOffset))
            startSample := s.resetAt + emit.sampleOffset } := by
        have hskip : 2 * s.session.bufferOriginSamples +
            2 * (s.resetAt + emit.sampleOffset - s.session.bufferOriginSamples) =
            2 * (s.resetAt + emit.sampleOffset) := by omega
        unfold RealtimeAudioBuffer.dropPrefix bytesPerSample
        rw [Nat.min_eq_left hheld]
        simp only
        rw [h.buffered, List.drop_drop, h.start, hskip, hend]
      rw [hend, hdrop]
      refine ⟨hwhole, ?_, hreceived, rfl, rfl, ?_, ?_, ?_, ?_⟩
      · show s.session.vadOriginSamples ≤ s.resetAt + emit.sampleOffset
        omega
      · simp
      · intro _ hs
        cases hs
      · show (s.session.responseQueue ++ [_]).map _ = _
        rw [List.map_append, List.map_append, h.queue]
        rfl
      · intro u hu
        rcases List.mem_append.mp hu with hold | hnew
        · exact (h.holds u hold).mono (Nat.le_refl _) fun _ _ _ => rfl
        · rw [List.mem_singleton.mp hnew]
          have hlt : started - s.session.bufferOriginSamples <
              s.resetAt + emit.sampleOffset - s.session.bufferOriginSamples := by omega
          refine ⟨?_, hreceived, ?_⟩
          · show max started s.previousEnd < s.resetAt + emit.sampleOffset
            rw [h.ended]
            omega
          · show (s.session.audioBuffer.toSlicedWav _ _).frames = s.samples (max started s.previousEnd) _
            rw [h.ended]
            exact h.slice hlt

theorem handleVadEmit_input {emit : Emit}
    (hturn : emit.eventType = if s.started.isSome then .speechStopped else .speechStarted) :
    (s.handleVadEmit emit).earlier = s.earlier ∧ (s.handleVadEmit emit).segment = s.segment ∧
    (s.handleVadEmit emit).started.isSome = !s.started.isSome := by
  unfold Recorded.handleVadEmit
  cases hstarted : s.started with
  | none =>
    rw [hstarted] at hturn
    rw [hturn]
    exact ⟨rfl, rfl, rfl⟩
  | some started =>
    rw [hstarted] at hturn
    rw [hturn]
    exact ⟨rfl, rfl, rfl⟩

theorem Kept.handleVadEmits (emits : List Emit) (h : s.Kept)
    (hturns : TakeTurns s.started.isSome emits)
    (hwithin : ∀ emit ∈ emits, emit.sampleOffset ≤ s.segment.length / 2) :
    (emits.foldl Recorded.handleVadEmit s).Kept := by
  induction emits generalizing s with
  | nil => exact h
  | cons emit rest ih =>
    obtain ⟨-, hsegment, hnext⟩ := handleVadEmit_input hturns.1
    apply ih (h.handleVadEmit hturns.1 (hwithin emit List.mem_cons_self))
    · rw [hnext]
      exact hturns.2
    · intro e he
      rw [hsegment]
      exact hwithin e (List.mem_cons_of_mem _ he)

theorem Kept.appendBytes (h : s.Kept) {chunk : List UInt8} {audioBuffer : RealtimeAudioBuffer}
    (happend : s.session.audioBuffer.appendBytes chunk = .ok audioBuffer) :
    Kept { s with
      session := { s.session with audioBuffer := audioBuffer }
      segment := s.segment ++ chunk } := by
  have hlength := length_stream s
  have hwhole := h.whole
  have hhigh := h.high
  have hreceived : s.received ≤ s.resetAt + (s.segment ++ chunk).length / 2 := by
    rw [List.length_append]
    unfold received
    omega
  have hbytes : 2 * s.received ≤ s.stream.length := by
    rw [hlength]
    unfold received Recorded.resetAt
    omega
  unfold RealtimeAudioBuffer.appendBytes at happend
  split at happend
  · cases happend
  · cases happend
    refine ⟨hwhole, h.low, Nat.le_trans hhigh hreceived, ?_, h.start, h.ended, h.speaking, h.queue,
      ?_⟩
    · show s.session.audioBuffer.buf ++ chunk = (s.earlier ++ (s.segment ++ chunk)).drop _
      rw [h.buffered, ← List.append_assoc]
      exact (List.drop_append_of_le_length (by omega)).symm
    · intro u hu
      exact (h.holds u hu).mono hreceived fun a b hb => samples_append s chunk _ (by omega)

theorem Kept.cleared (h : s.Kept) {session : AudioInput}
    (hsession : session.audioBuffer = s.session.audioBuffer.clear ∧
      session.bufferOriginSamples = s.received ∧ session.vadOriginSamples = s.received ∧
      session.responseQueue = s.session.responseQueue) : (s.cleared session).Kept := by
  obtain ⟨hbuffer, horigin, hvad, hqueue⟩ := hsession
  have hwhole := h.whole
  have hlength := length_stream s
  have hwholes : 2 * s.received = s.earlier.length + 2 * (s.segment.length / 2) := by
    unfold received Recorded.resetAt
    omega
  have hstream : (s.cleared session).stream = s.stream.take (2 * s.received) := by
    show s.earlier ++ s.segment.take (2 * (s.segment.length / 2)) ++ [] = _
    rw [List.append_nil, hwholes]
    exact (List.take_length_add_append _).symm
  have hearlier : (s.cleared session).earlier.length = 2 * s.received := by
    show (s.earlier ++ s.segment.take _).length = _
    rw [List.length_append, List.length_take]
    omega
  have hreceived : (s.cleared session).received = s.received := by
    show (s.cleared session).earlier.length / 2 + 0 / 2 = s.received
    rw [hearlier]
    omega
  have hempty : s.session.audioBuffer.clear.buf = [] := by
    unfold RealtimeAudioBuffer.clear RealtimeAudioBuffer.dropPrefix
    simp
  have hstart : s.session.audioBuffer.clear.startSample = s.received := by
    rw [← h.numSamples, ← h.start]
    unfold RealtimeAudioBuffer.clear RealtimeAudioBuffer.dropPrefix RealtimeAudioBuffer.numSamples
    simp
  refine ⟨?_, ?_, ?_, ?_, ?_, horigin.symm, ?_, ?_, ?_⟩
  · show _ = 2 * session.vadOriginSamples
    rw [hearlier, hvad]
  · show session.vadOriginSamples ≤ session.bufferOriginSamples
    exact Nat.le_of_eq (hvad.trans horigin.symm)
  · show session.bufferOriginSamples ≤ (s.cleared session).received
    exact Nat.le_of_eq (horigin.trans hreceived.symm)
  · show session.audioBuffer.buf = _
    rw [hbuffer, hempty, hstream]
    show [] = (s.stream.take (2 * s.received)).drop (2 * session.bufferOriginSamples)
    rw [horigin, List.drop_take_self]
  · show session.audioBuffer.startSample = session.bufferOriginSamples
    rw [hbuffer, hstart, horigin]
  · intro _ hs
    cases hs
  · show session.responseQueue.map _ = _
    rw [hqueue]
    exact h.queue
  · intro u hu
    refine (h.holds u hu).mono (Nat.le_of_eq hreceived.symm) ?_
    intro a b hb
    unfold samples
    rw [hstream, List.drop_take, List.take_take]
    congr 1
    omega

theorem Kept.dropBuffer (h : s.Kept) : s.session.dropBufferAndResetVad =
    { s.session with
      bufferOriginSamples := s.received
      vadOriginSamples := s.received
      audioBuffer := s.session.audioBuffer.clear
      utteranceStartByte := none
      utteranceItemId := none } := by
  unfold AudioInput.dropBufferAndResetVad
  rw [h.numSamples]

theorem Kept.step (h : s.Kept) {s' : Recorded} {a : AudioAction} (ha : Detects s a)
    (hs : audioInput.step s a = some s') : s'.Kept := by
  cases a with
  | append chunk emits =>
    cases hs
    unfold Recorded.handleAudioAppend
    split
    · exact h
    · next audioBuffer happend =>
      apply Kept.handleVadEmits emits (h.appendBytes happend) ha.1
      intro emit hemit
      show emit.sampleOffset ≤ (s.segment ++ chunk).length / 2
      rw [List.length_append]
      exact ha.2 emit hemit
  | clear =>
    cases hs
    apply h.cleared
    unfold AudioInput.handleAudioClear
    rw [h.dropBuffer]
    exact ⟨rfl, rfl, rfl, rfl⟩
  | replaceVad =>
    cases hs
    apply h.cleared
    unfold AudioInput.replaceVad
    rw [h.dropBuffer]
    simp only
    split <;> exact ⟨rfl, rfl, rfl, rfl⟩

theorem kept_of_reaches (hs : audioInput.Reaches Detects s) : s.Kept := by
  apply hs.invariant (P := Kept)
  · refine ⟨rfl, Nat.le_refl _, Nat.le_refl _, rfl, rfl, rfl, ?_, rfl, ?_⟩
    · intro _ h
      cases h
    · intro u hu
      cases hu
  · intro s a s' h ha hstep
    exact h.step ha hstep

end Recorded

/-- In every state reached, each utterance put on the queue holds the samples of the input from its
start, or from the end of the commit or clear before it, up to its stop; and the buffer's origin with
the buffered samples makes up the samples received. -/
theorem utterances_hold_samples {s : Recorded} (hs : audioInput.Reaches Detects s) :
    s.session.responseQueue.map Prod.snd = s.utterances.map Utterance.payload ∧
    (∀ u ∈ s.utterances, max u.started u.previousEnd < u.stopped ∧
      u.payload.frames = s.samples (max u.started u.previousEnd) u.stopped) ∧
    s.session.bufferOriginSamples + s.session.audioBuffer.numSamples = s.received := by
  have h := Recorded.kept_of_reaches hs
  exact ⟨h.queue, fun u hu => ⟨(h.holds u hu).nonempty, (h.holds u hu).frames⟩, h.numSamples⟩

/-- Chunks of any size: a commit, an utterance that starts in the audio committed, a clear in the middle
of a sample, and an utterance behind it. -/
def audioActions : List AudioAction :=
  [.append [1, 2, 3] [], .append [4, 5, 6, 7, 8] [⟨.speechStarted, 1⟩, ⟨.speechStopped, 3⟩],
    .append [9] [⟨.speechStarted, 2⟩, ⟨.speechStopped, 4⟩], .clear,
    .append [10, 11, 12, 13] [⟨.speechStarted, 0⟩], .append [14, 15] [⟨.speechStopped, 3⟩]]

def audioFinal : Recorded :=
  (audioInput.execWhere (fun s a => decide (Detects s a)) audioInput.init audioActions).getD {}

theorem utterances_hold_samples_acrossClear :
    audioFinal.utterances.map (fun u => u.payload.frames) =
      [[3, 4, 5, 6], [7, 8], [10, 11, 12, 13, 14, 15]] ∧
    audioFinal.session.responseQueue.map Prod.snd = audioFinal.utterances.map Utterance.payload ∧
    (∀ u ∈ audioFinal.utterances, max u.started u.previousEnd < u.stopped ∧
      u.payload.frames = audioFinal.samples (max u.started u.previousEnd) u.stopped) ∧
    audioFinal.session.bufferOriginSamples + audioFinal.session.audioBuffer.numSamples =
      audioFinal.received :=
  ⟨by decide +kernel,
    utterances_hold_samples (Machine.path_of_execWhere (fun _ _ h => of_decide_eq_true h)
      (show audioInput.execWhere (fun s a => decide (Detects s a)) audioInput.init audioActions =
        some audioFinal by decide +kernel))⟩

end Audio
