import SglangOmni.Transcription.Handlers

/-! A transcription session over whole runs: the finals are the audio, in order and within the limit, and
every handler ends, exactly when the longest segment has at least one sample. -/

namespace Transcription

open Lib

variable {cfg : Config} {s s' : Session} {segment : Segment} {fuel : Nat} {enough : Prop}

theorem isEmpty_iff {b : AudioBuffer} : b.isEmpty = true ↔ b.numSamples = 0 := by
  simp [AudioBuffer.isEmpty]

/-! ### Commits -/

theorem Kept.resetVad (h : Kept cfg s) : Kept cfg { s with vad := s.vad.map Vad.reset } := by
  refine h.congr rfl rfl rfl rfl rfl (fun v hv => ?_) id id
  obtain ⟨vad, hvad, rfl⟩ := Option.map_eq_some_iff.mp hv
  exact h.padding vad hvad

structure Committed (cfg : Config) (s s' : Session) : Prop where
  kept : Kept cfg s'
  frame : Frame s s'
  empty : s'.audioBuffer.numSamples = 0 ∨
    ∃ segment, s'.activeSegment = some segment ∧ segment.startSample = s'.audioBuffer.endSample

theorem Committed.rest (h : Committed cfg s s') : Rest s' := by
  have hkept := h.kept
  rcases h.empty with hempty | ⟨segment, ha, hend⟩
  · have hbuf := hkept.holds.nil hempty
    exact ⟨Idle.of_empty hkept hempty, fun _ _ => hbuf, fun _ _ _ => hbuf⟩
  · refine ⟨Idle.of_active ha, fun _ hnone => ?_, fun _ hv hc => ?_⟩
    · rw [ha] at hnone
      cases hnone
    · have hstart := (hkept.whole hv hc).2 segment ha
      refine hkept.holds.nil ?_
      rw [hstart, AudioBuffer.endSample] at hend
      omega

theorem Kept.finalizeAll (h : Kept cfg s) (hpos : cfg.maxSegmentSamples ≠ some 0)
    (hfuel : enough → s.accepted.length < fuel) (ha : s.activeSegment = some segment) :
    Ends enough ((s.finalizeThrough cfg fuel s.audioBuffer.endSample).map fun s =>
      { s with vad := s.vad.map Vad.reset }) (Committed cfg s) := by
  refine (h.finalizeThrough hpos hfuel _).map fun s₁ ⟨hkept, hclosed⟩ => ?_
  have hhigh := (h.active segment ha).2.1
  have hframe : Frame s { s₁ with vad := s₁.vad.map Vad.reset } := by
    refine hclosed.frame.trans ⟨rfl, rfl, rfl, rfl, ?_⟩
    rw [Option.isSome_map]
  refine ⟨hkept.resetVad, hframe, ?_⟩
  by_cases hlt : segment.startSample < s.audioBuffer.endSample
  · obtain ⟨-, hstart⟩ := hclosed.early segment ha (by omega)
    have hend := h.endSample_eq hkept hclosed.frame
    refine .inl ?_
    change s₁.audioBuffer.numSamples = 0
    simp only [AudioBuffer.endSample] at hend hstart
    omega
  · obtain rfl := hclosed.late segment ha (by omega)
    exact .inr ⟨segment, ha, by change segment.startSample = s₁.audioBuffer.endSample; omega⟩

theorem Kept.commit (h : Kept cfg s) (hpos : cfg.maxSegmentSamples ≠ some 0)
    (hquiet : s.sawVad = false → s.activeSegment = none → s.audioBuffer.buf = [])
    (hfuel : enough → s.accepted.length < fuel) (isSessionEnd : Bool) :
    Ends enough (s.commitBuffer cfg fuel isSessionEnd) (Committed cfg s) := by
  unfold Session.commitBuffer
  simp only
  split
  · next hheld =>
    have hnone : s.activeSegment = none := Option.isNone_iff_eq_none.mp hheld.1
    have hfull : s.audioBuffer.numSamples ≠ 0 := fun h0 => hheld.2 (isEmpty_iff.mpr h0)
    -- without a VAD no audio is held here
    have hsaw : s.sawVad = true := by
      cases hv : s.sawVad with
      | true => rfl
      | false =>
        have hbuf := hquiet hv hnone
        simp [AudioBuffer.numSamples, hbuf] at hfull
    split
    · obtain ⟨hholds, hnil⟩ := h.holds.clear
      have hkept := (h.dropped hholds (Nat.le_add_right _ _) (.inl hsaw)).resetVad
      have hframe : Frame s { s with
          audioBuffer := s.audioBuffer.clear, activeSegment := none, vad := s.vad.map Vad.reset } :=
        ⟨rfl, rfl, rfl, rfl, Option.isSome_map⟩
      rw [hnone]
      refine Ends.some ⟨hkept, hframe, .inl ?_⟩
      change s.audioBuffer.clear.buf.length / 2 = 0
      rw [hnil]
      rfl
    · have hstart := h.startSegment (Int.le_refl s.audioBuffer.startSample)
        (by unfold AudioBuffer.endSample; omega) fun _ _ => rfl
      refine (hstart.finalizeAll hpos hfuel rfl).imp fun s' hs => ?_
      exact ⟨hs.kept, (Frame.startSegment s _).trans hs.frame, hs.empty⟩
  · next hheld =>
    rcases ha : s.activeSegment with _ | segment
    · have hempty : s.audioBuffer.numSamples = 0 := Classical.byContradiction fun hfull =>
        hheld ⟨by rw [ha]; rfl, fun he => hfull (isEmpty_iff.mp he)⟩
      refine (h.finalizeThrough hpos hfuel _).map fun s₁ hs => ?_
      obtain ⟨hkept, hclosed⟩ := hs
      obtain rfl := hclosed.none ha
      exact ⟨hkept.resetVad, ⟨rfl, rfl, rfl, rfl, Option.isSome_map⟩, .inl hempty⟩
    · exact h.finalizeAll hpos hfuel ha

/-! ### The other handlers -/

theorem Handled.clear (h : Handled cfg s) : Handled cfg s.handleAudioClear := by
  obtain ⟨hholds, hnil⟩ := h.kept.holds.clear
  have hcleared : Kept cfg { s with sawClear := true } :=
    h.kept.congr rfl rfl rfl rfl rfl h.kept.padding id fun hc => (by cases hc)
  have hkept := (hcleared.dropped hholds (Nat.le_add_right _ _) (.inr rfl)).resetVad
  have hempty : s.audioBuffer.clear.numSamples = 0 := by
    rw [AudioBuffer.numSamples, hnil]
    rfl
  have hsent := hkept.send .cleared
  exact ⟨hsent, Idle.of_empty hsent hempty, fun _ _ => hnil, fun _ _ _ => hnil⟩

theorem VadConfig.padding_of_accepted {config : VadConfig} (h : config.error? = none) :
    0 ≤ config.prefixPaddingMs := by
  unfold VadConfig.error? at h
  split at h
  · cases h
  · omega

theorem Handled.update (h : Handled cfg s) (update : Update) :
    Handled cfg (s.handleSessionUpdate cfg update) := by
  unfold Session.handleSessionUpdate
  split
  · exact ⟨h.kept.send _, h.rest.send _⟩
  next hactive =>
  simp only
  have hkept : ∀ interval, Kept cfg { s with decodeIntervalMs := interval } := fun _ =>
    h.kept.congr rfl rfl rfl rfl rfl h.kept.padding id id
  have hrest : ∀ interval, Rest { s with decodeIntervalMs := interval } := fun _ =>
    ⟨h.rest.idle, h.rest.quiet, h.rest.done⟩
  split
  · exact ⟨(hkept _).send _, (hrest _).send _⟩
  · refine ⟨Kept.send ?_ _, fun v hv => (by cases hv), h.rest.quiet, h.rest.done⟩
    exact h.kept.congr rfl rfl rfl rfl rfl (fun v hv => by cases hv) id id
  · next turnDetection hset =>
    have hempty : s.audioBuffer.numSamples = 0 := Classical.byContradiction fun hfull =>
      hactive ⟨fun he => hfull (isEmpty_iff.mp he), .inr (.inr (by rw [hset]; rfl))⟩
    split
    · exact ⟨(hkept _).send _, (hrest _).send _⟩
    · next hok =>
      have hpad : 0 ≤ turnDetection.config.prefixPaddingMs := by
        unfold Session.turnDetectionError at hok
        split at hok
        · cases hok
        · split at hok
          · cases hok
          · exact VadConfig.padding_of_accepted (Option.map_eq_none_iff.mp hok)
      have hvad : ∀ interval, Handled cfg ({ s with
          decodeIntervalMs := interval
          vad := some { config := turnDetection.config } }.send .updated) := fun interval =>
        have hsent := ((hkept interval).withVad { config := turnDetection.config } hpad).send .updated
        ⟨hsent, Idle.of_empty hsent hempty, h.rest.quiet, h.rest.done⟩
      exact hvad _

theorem Handled.initial (cfg : Config) : Handled cfg cfg.session := by
  have hkept : Kept cfg cfg.session := by
    refine ⟨⟨rfl, Nat.le_refl 0, rfl⟩, fun _ hseg => (by cases hseg), List.Pairwise.nil,
      List.Pairwise.nil, fun _ hf => (by cases hf), fun vad hvad => ?_,
      fun _ _ => ⟨rfl, fun _ hseg => (by cases hseg)⟩⟩
    unfold Config.session at hvad
    split at hvad
    · cases hvad
      decide
    · cases hvad
  exact ⟨hkept, Idle.of_empty hkept (by simp [Config.session, AudioBuffer.numSamples]), fun _ _ => rfl, fun _ _ _ => rfl⟩

/-! ### Whole runs -/

def ClientEvent.audio : ClientEvent → List UInt8
  | .append (some pcm) _ _ => pcm
  | _ => []

theorem Handled.handle (h : Handled cfg s) (hpos : cfg.maxSegmentSamples ≠ some 0)
    {event : ClientEvent} (hfuel : enough → s.accepted.length + event.audio.length < fuel) :
    Ends enough (s.handle cfg fuel event) (Handled cfg) := by
  unfold Session.handle
  cases hopen : s.isInputDone with
  | true =>
    rw [if_pos rfl]
    exact Ends.some ⟨h.kept.send _, h.rest.send _⟩
  | false =>
    rw [if_neg (by decide)]
    cases event with
    | update update => exact Ends.some (h.update update)
    | append pcm speech reported =>
      refine h.append hpos hopen fun he => ?_
      have := hfuel he
      cases pcm <;> exact this
    | clear => exact Ends.some h.clear
    | commit =>
      exact (h.kept.commit hpos h.rest.quiet hfuel false).imp fun s' hs => ⟨hs.kept, hs.rest⟩
    | done =>
      have hdone : Kept cfg { s with isInputDone := true } :=
        h.kept.congr rfl rfl rfl rfl rfl h.kept.padding id id
      exact (hdone.commit hpos h.rest.quiet hfuel true).imp fun s' hs => ⟨hs.kept, hs.rest⟩

theorem Handled.of_reaches (hpos : cfg.maxSegmentSamples ≠ some 0)
    (h : (transcription cfg).Reaches Machine.anyAction s) : Handled cfg s := by
  refine h.invariant (Handled.initial cfg) fun s a s' hs _ hstep => ?_
  cases a with
  | handle fuel event =>
    exact (hs.handle hpos fun he : False => he.elim).post s' hstep
  | report text =>
    cases hstep
    exact ⟨hs.kept.report _, hs.rest.report _⟩

/-- Every handler ends; the queued finals have growing ids and ranges that follow one another, each within
the limit and with the samples of its range; without a VAD and without clears they are all the audio once
the input is done; and a VAD that waits keeps its padding and two frames at most. -/
structure SegmentsKept (cfg : Config) (s : Session) : Prop where
  ends : ∀ event, ∃ fuel, (s.handle cfg fuel event).isSome = true
  ids : s.finals.Pairwise fun f g => f.segmentId < g.segmentId
  disjoint : s.finals.Pairwise fun f g => f.endSample ≤ g.startSample
  finals : ∀ f ∈ s.finals, FinalKept cfg s.accepted f
  whole : s.isInputDone = true → s.sawVad = false → s.sawClear = false →
    s.finals.flatMap Final.pcm = s.accepted
  idle : Idle s

theorem Handled.segmentsKept (h : Handled cfg s) (hpos : cfg.maxSegmentSamples ≠ some 0) :
    SegmentsKept cfg s where
  ends event := ⟨s.accepted.length + event.audio.length + 1,
    (h.handle hpos fun _ : True => Nat.lt_succ_self _).isSome trivial⟩
  ids := h.kept.ids
  disjoint := h.kept.disjoint
  finals f hf := (h.kept.finals f hf).1
  whole hdone hv hc := by
    have hbuf := h.rest.done hdone hv hc
    rw [h.kept.holds.audio] at hbuf
    rw [(h.kept.whole hv hc).1, List.take_of_length_le (List.drop_eq_nil_iff.mp hbuf)]
  idle := h.rest.idle

/-! ### A limit of no samples -/

theorem cutSegments_zero {last : Int} (ha : s.activeSegment = some segment)
    (hlt : segment.startSample < last) (fuel : Nat) : Session.cutSegments 0 last fuel s = none := by
  induction fuel generalizing s segment with
  | zero => rfl
  | succ fuel ih =>
    unfold Session.cutSegments
    simp only [ha]
    rw [if_pos (by omega)]
    exact ih rfl (by change segment.startSample + ((0 : Nat) : Int) < last; omega)

theorem finalizeThrough_zero (hmax : cfg.maxSegmentSamples = some 0)
    (ha : s.activeSegment = some segment) (hlt : segment.startSample < s.audioBuffer.endSample)
    (fuel : Nat) : s.finalizeThrough cfg fuel s.audioBuffer.endSample = none := by
  unfold Session.finalizeThrough
  simp only [ha, hmax]
  rw [cutSegments_zero ha (by omega) fuel]
  rfl

/-- The VAD is switched off and one sample is appended, which opens a segment. -/
def oneSample : List Action :=
  [.handle 0 (.update { turnDetection := some none }),
    .handle 0 (.append (some [0, 0]) (fun _ => false) fun _ => none)]

theorem oneSample_open (hmax : cfg.maxSegmentSamples = some 0) :
    ∃ s, (transcription cfg).exec cfg.session oneSample = some s ∧ s.isInputDone = false ∧
      ∃ segment, s.activeSegment = some segment ∧ segment.startSample < s.audioBuffer.endSample := by
  have hroom : ¬ 2 > cfg.maxBufferBytes := by
    have := cfg.holds
    omega
  simp [Machine.exec, Machine.execWhere, oneSample, transcription, Session.step, Session.handle,
    Config.session, Session.handleSessionUpdate, AudioBuffer.isEmpty, AudioBuffer.numSamples,
    Session.send, Session.handleAudioAppend, AudioBuffer.appendBytes, hroom, Session.startSegment,
    Session.enforceHardLimit, hmax, Session.internalError, AudioBuffer.endSample]

theorem commit_endless (hmax : cfg.maxSegmentSamples = some 0) (hopen : s.isInputDone = false)
    (ha : s.activeSegment = some segment) (hlt : segment.startSample < s.audioBuffer.endSample)
    (fuel : Nat) : s.handle cfg fuel .commit = none := by
  simp only [Session.handle, hopen, Session.commitBuffer, ha]
  simp [finalizeThrough_zero hmax ha hlt]

theorem segments_kept :
    (∀ s, (transcription cfg).Reaches Machine.anyAction s → SegmentsKept cfg s) ↔
      cfg.maxSegmentSamples ≠ some 0 := by
  constructor
  · intro h hmax
    obtain ⟨s, hrun, hopen, segment, ha, hlt⟩ := oneSample_open hmax
    obtain ⟨fuel, hsome⟩ := (h s (Machine.path_of_exec hrun)).ends .commit
    rw [commit_endless hmax hopen ha hlt] at hsome
    cases hsome
  · intro hpos s hreach
    exact (Handled.of_reaches hpos hreach).segmentsKept hpos

def tenMicroseconds : Config where
  serverVad := false
  decodeIntervalMs := 500
  maxSegmentSamples := some 0
  maxBufferBytes := 4 * 32000
  holds := Nat.le_refl _

/-- After one sample no commit ends. -/
theorem segments_kept_tiny_limit :
    ∃ s, (transcription tenMicroseconds).exec tenMicroseconds.session oneSample = some s ∧
      (∀ fuel, s.handle tenMicroseconds fuel .commit = none) ∧ ¬ SegmentsKept tenMicroseconds s := by
  have hmax : tenMicroseconds.maxSegmentSamples = some 0 := rfl
  obtain ⟨s, hrun, hopen, segment, ha, hlt⟩ := oneSample_open hmax
  have hstuck := commit_endless hmax hopen ha hlt
  refine ⟨s, hrun, hstuck, fun h => ?_⟩
  obtain ⟨fuel, hsome⟩ := h.ends .commit
  rw [hstuck] at hsome
  cases hsome

end Transcription
