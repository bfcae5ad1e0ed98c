import SglangOmni.Transcription.Segments

/-! The handlers keep the finals, whatever the VAD says of the frames, and end with enough fuel unless the
longest segment has no samples.  Then a commit cuts the same empty segment for ever. -/

namespace Transcription

open Lib

variable {cfg : Config} {s s' : Session} {segment : Segment} {last sample : Int}
  {fuel : Nat} {enough : Prop}

/-! ### Moves that touch no segment -/

theorem Kept.send (h : Kept cfg s) (event : ServerEvent) : Kept cfg (s.send event) :=
  h.congr rfl rfl rfl rfl rfl h.padding id id

theorem Frame.send (s : Session) (event : ServerEvent) : Frame s (s.send event) :=
  ⟨rfl, rfl, rfl, rfl, rfl⟩

theorem Kept.report (h : Kept cfg s) (text : Option String) : Kept cfg (s.report text) := by
  unfold Session.report
  split
  · next text' segment ha =>
    obtain ⟨hholds, hact, hids, hdisjoint, hfin, hpad, hwhole⟩ := h
    refine ⟨hholds, fun seg hseg => ?_, hids, hdisjoint, hfin, hpad, fun hv hc => ?_⟩
    · cases hseg
      exact hact segment ha
    · refine ⟨(hwhole hv hc).1, fun seg hseg => ?_⟩
      cases hseg
      exact (hwhole hv hc).2 segment ha
  · exact h

theorem Frame.report (s : Session) (text : Option String) : Frame s (s.report text) := by
  unfold Session.report
  split <;> exact ⟨rfl, rfl, rfl, rfl, rfl⟩

theorem report_audioBuffer (s : Session) (text : Option String) :
    (s.report text).audioBuffer = s.audioBuffer := by
  unfold Session.report
  split <;> rfl

theorem Kept.dropped {b : AudioBuffer} (h : Kept cfg s) (hholds : Holds b s.accepted)
    (hle : s.audioBuffer.startSample ≤ b.startSample)
    (hlost : s.sawVad = true ∨ s.sawClear = true) :
    Kept cfg { s with audioBuffer := b, activeSegment := none } := by
  refine ⟨hholds, fun seg hseg => (by cases hseg), h.ids, h.disjoint, fun f hf => ?_, h.padding,
    fun hv hc => ?_⟩
  · obtain ⟨hkept, hend, hid⟩ := h.finals f hf
    refine ⟨hkept, ?_, hid⟩
    change f.endSample ≤ (b.startSample : Int)
    omega
  · have hv' : s.sawVad = false := hv
    have hc' : s.sawClear = false := hc
    simp [hv', hc'] at hlost

theorem Kept.noSegment (h : Kept cfg s) : Kept cfg { s with activeSegment := none } :=
  ⟨h.holds, fun seg hseg => (by cases hseg), h.ids, h.disjoint, h.finals, h.padding,
    fun hv hc => ⟨(h.whole hv hc).1, fun seg hseg => (by cases hseg)⟩⟩

/-! ### The VAD -/

theorem Vad.step_config (vad : Vad) (frame : ScoredFrame) (inSpeech : Bool) :
    (vad.step frame inSpeech).1.config = vad.config := by
  unfold Vad.step
  cases frame.isSpeech <;> cases inSpeech <;> simp <;> split <;> rfl

theorem Vad.step_started {vad : Vad} {frame : ScoredFrame} {inSpeech : Bool}
    (h : (vad.step frame inSpeech).2 = some ⟨true, sample⟩) :
    sample = frame.startSample - vad.config.prefixPaddingSamples := by
  unfold Vad.step at h
  cases hs : frame.isSpeech with
  | false =>
    simp only [hs, Bool.false_eq_true, false_and, if_false] at h
    split at h <;> simp at h
  | true =>
    simp only [hs, true_and, if_true, not_true, false_and, if_false] at h
    split at h
    · cases h
      rfl
    · cases h

theorem VadConfig.prefixPaddingSamples_nonneg {config : VadConfig} (h : 0 ≤ config.prefixPaddingMs) :
    0 ≤ config.prefixPaddingSamples := by
  unfold VadConfig.prefixPaddingSamples pcmSampleRate
  omega

theorem Vad.score_start {vad : Vad} {pcm : List UInt8} {speech : Nat → Bool}
    {reported : Nat → Option String} {frame : ScoredFrame} (heven : pcm.length % 2 = 0)
    (h : frame ∈ (vad.score pcm sample speech reported).2) :
    frame.startSample ≤ sample + (pcm.length / 2 : Nat) := by
  obtain ⟨i, hi, rfl⟩ := List.mem_map.mp h
  have hlt := List.mem_range.mp hi
  rw [List.length_append] at hlt
  simp only [vadFrameSamples] at hlt ⊢
  omega

theorem Kept.withVad (h : Kept cfg s) (vad : Vad) (hpad : 0 ≤ vad.config.prefixPaddingMs) :
    Kept cfg { s with vad := some vad } :=
  h.congr rfl rfl rfl rfl rfl (fun v hv => by cases hv; exact hpad) id id

theorem Kept.vadOnStarted (h : Kept cfg s) (hsaw : s.sawVad = true)
    (hhigh : sample ≤ s.audioBuffer.endSample) : Kept cfg (s.vadOnStarted sample) := by
  have hend : (s.audioBuffer.startSample : Int) ≤ s.audioBuffer.endSample := by
    unfold AudioBuffer.endSample
    omega
  refine Kept.send (h.startSegment (by omega) (by omega) fun hv => ?_) _
  rw [hsaw] at hv
  cases hv

theorem Kept.vadOnStopped (h : Kept cfg s) (hpos : cfg.maxSegmentSamples ≠ some 0)
    (hfuel : enough → s.accepted.length < fuel) (last : Int) :
    Ends enough (s.vadOnStopped cfg fuel last) fun s' => Kept cfg s' ∧ Frame s s' := by
  unfold Session.vadOnStopped
  rcases ha : s.activeSegment with _ | segment
  · exact Ends.some ⟨h, Frame.refl s⟩
  · simp only
    -- `speech_stopped` is sent first; only the events change
    generalize (ServerEvent.speechStopped _ _) = event
    have hsent := h.send event
    have hframe := Frame.send s event
    split
    · exact (hsent.finalizeThrough hpos hfuel last).imp fun s' hs => ⟨hs.1, hframe.trans hs.2.frame⟩
    · split
      · exact (hsent.finalizeThrough hpos hfuel _).imp fun s' hs =>
          ⟨hs.1, hframe.trans hs.2.frame⟩
      · exact Ends.some ⟨hsent.noSegment, rfl, rfl, rfl, rfl, rfl⟩

theorem Kept.processFrames {frames : List ScoredFrame} (h : Kept cfg s)
    (hpos : cfg.maxSegmentSamples ≠ some 0) (hsaw : s.sawVad = true)
    (hfuel : enough → s.accepted.length < fuel)
    (hframes : ∀ f ∈ frames, f.startSample ≤ s.audioBuffer.endSample) :
    Ends enough (Session.processFrames cfg fuel frames s) fun s' => Kept cfg s' ∧ Frame s s' := by
  induction frames generalizing s with
  | nil => exact Ends.some ⟨h, Frame.refl s⟩
  | cons frame frames ih =>
    have hrep := h.report frame.reported
    have hframe := Frame.report s frame.reported
    have hbuffer := report_audioBuffer s frame.reported
    unfold Session.processFrames
    generalize s.report frame.reported = s₀ at hrep hframe hbuffer ⊢
    rcases hvad : s₀.vad with _ | vad
    · simp only [hvad]
      exact Ends.some ⟨hrep, hframe⟩
    have hpad := hrep.padding vad hvad
    have hconfig := Vad.step_config vad frame s₀.activeSegment.isSome
    simp only [hvad]
    generalize hstepped : vad.step frame s₀.activeSegment.isSome = stepped at hconfig ⊢
    obtain ⟨vad', boundary⟩ := stepped
    have hstep := hrep.withVad vad' (hconfig ▸ hpad)
    have hframe' : Frame s { s₀ with vad := some vad' } :=
      hframe.trans ⟨rfl, rfl, rfl, rfl, by rw [hvad]; rfl⟩
    -- what follows a state with the same audio
    have hrest : ∀ s₁, Kept cfg s₁ → Frame s s₁ →
        Ends enough (Session.processFrames cfg fuel frames s₁) fun s' => Kept cfg s' ∧ Frame s s' := by
      intro s₁ hk hf
      refine (ih hk (hf.sawVad.trans hsaw) (fun he => ?_) fun f hf' => ?_).imp fun s' hs =>
        ⟨hs.1, hf.trans hs.2⟩
      · rw [hf.accepted]
        exact hfuel he
      · rw [h.endSample_eq hk hf]
        exact hframes f (List.mem_cons_of_mem _ hf')
    rcases boundary with _ | ⟨_ | _, sample⟩
    · exact hrest _ hstep hframe'
    · refine Ends.bind (hstep.vadOnStopped hpos (fun he => ?_) sample) fun s₁ hs =>
        hrest s₁ hs.1 (hframe'.trans hs.2)
      rw [hframe'.accepted]
      exact hfuel he
    · have hsample : sample = frame.startSample - vad.config.prefixPaddingSamples :=
        Vad.step_started (congrArg Prod.snd hstepped)
      have hpadding := VadConfig.prefixPaddingSamples_nonneg hpad
      have hstart := hframes frame List.mem_cons_self
      have hhigh : sample ≤ s₀.audioBuffer.endSample := by
        rw [hbuffer]
        omega
      exact hrest _ (hstep.vadOnStarted (hframe.sawVad.trans hsaw) hhigh)
        (hframe'.trans ⟨rfl, rfl, rfl, rfl, rfl⟩)

/-! ### The hard limit -/

def Idle (s : Session) : Prop :=
  ∀ vad, s.vad = some vad → s.activeSegment = none →
    (s.audioBuffer.numSamples : Int) ≤ vad.config.prefixPaddingSamples + 2 * vadFrameSamples

theorem Idle.of_active (ha : s.activeSegment = some segment) : Idle s := by
  intro vad _ hnone
  rw [ha] at hnone
  cases hnone

theorem Idle.of_empty (h : Kept cfg s) (hempty : s.audioBuffer.numSamples = 0) : Idle s := by
  intro vad hvad _
  have hpad := VadConfig.prefixPaddingSamples_nonneg (h.padding vad hvad)
  rw [hempty]
  omega

structure Limited (s s' : Session) : Prop where
  frame : Frame s s'
  active : s'.activeSegment.isSome = s.activeSegment.isSome
  idle : Idle s'
  quiet : s.activeSegment = none → s.vad = none → s' = s

theorem trimIdlePrefix_active (ha : s.activeSegment = some segment) : s.trimIdlePrefix = s := by
  unfold Session.trimIdlePrefix
  rw [ha]
  split <;> simp_all

theorem trimIdlePrefix_noVad (hvad : s.vad = none) : s.trimIdlePrefix = s := by
  unfold Session.trimIdlePrefix
  rw [hvad]

theorem Kept.trimIdlePrefix (h : Kept cfg s) (hsaw : s.vad.isSome = true → s.sawVad = true) :
    Kept cfg s.trimIdlePrefix ∧ Limited s s.trimIdlePrefix := by
  rcases ha : s.activeSegment with _ | segment
  · rcases hvad : s.vad with _ | vad
    · rw [trimIdlePrefix_noVad hvad]
      refine ⟨h, Frame.refl s, rfl, fun v hv => ?_, fun _ _ => rfl⟩
      rw [hvad] at hv
      cases hv
    · have hkeep := VadConfig.prefixPaddingSamples_nonneg (h.padding vad hvad)
      have heq : s.trimIdlePrefix = { s with
          audioBuffer := s.audioBuffer.dropBefore (s.audioBuffer.endSample -
            (vad.config.prefixPaddingSamples + 2 * vadFrameSamples))
          activeSegment := none } := by
        unfold Session.trimIdlePrefix
        simp [hvad, ha]
      have hhigh : s.audioBuffer.endSample - (vad.config.prefixPaddingSamples + 2 * vadFrameSamples) ≤
          s.audioBuffer.endSample := by
        omega
      generalize hsample : s.audioBuffer.endSample -
        (vad.config.prefixPaddingSamples + 2 * vadFrameSamples) = sample at heq hhigh
      obtain ⟨hholds, hle, hlow⟩ := h.holds.dropBefore_le hhigh
      have hkept := h.dropped hholds hle (.inl (hsaw (by rw [hvad]; rfl)))
      have hend := hholds.endSample
      have hend' := h.holds.endSample
      rw [heq]
      refine ⟨hkept, ⟨rfl, rfl, rfl, rfl, rfl⟩, by rw [ha], fun v hv _ => ?_, fun _ hnone => ?_⟩
      · rw [show s.vad = some v from hv] at hvad
        cases hvad
        unfold AudioBuffer.endSample at hend
        change ((s.audioBuffer.dropBefore sample).numSamples : Int) ≤ _
        omega
      · rw [hvad] at hnone
        cases hnone
  · rw [trimIdlePrefix_active ha]
    exact ⟨h, Frame.refl s, rfl, Idle.of_active ha, fun _ _ => rfl⟩

theorem Kept.enforceHardLimit (h : Kept cfg s) (hpos : cfg.maxSegmentSamples ≠ some 0)
    (hfuel : enough → s.accepted.length < fuel) (hsaw : s.vad.isSome = true → s.sawVad = true) :
    Ends enough (s.enforceHardLimit cfg fuel) fun s' => Kept cfg s' ∧ Limited s s' := by
  unfold Session.enforceHardLimit
  split
  · next segment maxSamples ha hmax =>
    have h0 : maxSamples ≠ 0 := fun h0 => hpos (h0 ▸ hmax)
    obtain ⟨hlow, hhigh, -, -⟩ := h.active segment ha
    rw [if_neg h0]
    simp only
    split
    · exact Ends.some (h.trimIdlePrefix hsaw)
    · next hblocks =>
      -- whole blocks are cut off, and what is left of the audio is a new segment
      have hdiv := Int.mul_ediv_add_emod (s.audioBuffer.endSample - segment.startSample) maxSamples
      have hmod := Int.emod_nonneg (s.audioBuffer.endSample - segment.startSample)
        (b := (maxSamples : Int)) (by omega)
      have hblocks' : 0 ≤ (s.audioBuffer.endSample - segment.startSample) / (maxSamples : Int) :=
        Int.ediv_nonneg (by omega) (by omega)
      have hcut : (maxSamples : Int) ≤
          (s.audioBuffer.endSample - segment.startSample) / (maxSamples : Int) * maxSamples := by
        have hone := Int.mul_le_mul_of_nonneg_right (a := 1)
          (b := (s.audioBuffer.endSample - segment.startSample) / (maxSamples : Int)) (by omega)
          (Int.natCast_nonneg maxSamples)
        omega
      generalize (s.audioBuffer.endSample - segment.startSample) / (maxSamples : Int) = blocks at *
      rw [Int.mul_comm] at hdiv
      refine (h.finalizeThrough hpos hfuel _).map fun s₁ ⟨hkept, hclosed⟩ => ?_
      obtain ⟨-, hstart⟩ := hclosed.early segment ha (by omega)
      have hend := h.endSample_eq hkept hclosed.frame
      have hcut' : ((s₁.audioBuffer.startSample : Int) = segment.startSample + blocks * maxSamples) := by
        omega
      have hnew := hkept.startSegment (Int.le_of_eq hcut') (by omega) fun _ _ => hcut'.symm
      have hframe := hclosed.frame.trans
        (Frame.startSegment s₁ (segment.startSample + blocks * maxSamples))
      rw [trimIdlePrefix_active (s := s₁.startSegment _) rfl]
      refine ⟨hnew, hframe, by rw [ha]; rfl, Idle.of_active rfl, fun hnone => ?_⟩
      rw [ha] at hnone
      cases hnone
  · exact Ends.some (h.trimIdlePrefix hsaw)

/-! ### The handlers -/

structure Rest (s : Session) : Prop where
  idle : Idle s
  /-- Without a VAD held audio belongs to a segment. -/
  quiet : s.sawVad = false → s.activeSegment = none → s.audioBuffer.buf = []
  done : s.isInputDone = true → s.sawVad = false → s.sawClear = false → s.audioBuffer.buf = []

theorem Rest.send (h : Rest s) (event : ServerEvent) : Rest (s.send event) := ⟨h.idle, h.quiet, h.done⟩

theorem Rest.report (h : Rest s) (text : Option String) : Rest (s.report text) := by
  unfold Session.report
  split
  · exact ⟨Idle.of_active rfl, fun _ hnone => (by cases hnone), h.done⟩
  · exact h

theorem Kept.appended {pcm : List UInt8} (h : Kept cfg s) (heven : pcm.length % 2 = 0) :
    Kept cfg { s with
      audioBuffer := { s.audioBuffer with buf := s.audioBuffer.buf ++ pcm }
      accepted := s.accepted ++ pcm } := by
  have hstart := h.holds.start
  refine ⟨h.holds.append heven, fun seg hseg => ?_, h.ids, h.disjoint, fun f hf => ?_, h.padding,
    fun hv hc => ?_⟩
  · obtain ⟨hlow, hhigh, hid, hless⟩ := h.active seg hseg
    refine ⟨hlow, Int.le_trans hhigh ?_, hid, hless⟩
    simp only [AudioBuffer.endSample, AudioBuffer.numSamples, List.length_append]
    omega
  · obtain ⟨⟨hfirst, hne, hwithin, hshort, hpcm⟩, hend, hid⟩ := h.finals f hf
    refine ⟨⟨hfirst, hne, ?_, hshort, ?_⟩, hend, hid⟩
    · rw [List.length_append]
      omega
    · rw [hpcm, List.drop_append_of_le_length (by omega), List.take_append_of_le_length]
      rw [List.length_drop]
      omega
  · obtain ⟨hfinals, hseg⟩ := h.whole hv hc
    refine ⟨?_, hseg⟩
    change s.finals.flatMap Final.pcm = (s.accepted ++ pcm).take (2 * s.audioBuffer.startSample)
    rw [hfinals, List.take_append_of_le_length hstart]

theorem Holds.nil {b : AudioBuffer} {accepted : List UInt8} (h : Holds b accepted)
    (hempty : b.numSamples = 0) : b.buf = [] := by
  have hlen := h.length
  have heven := h.even
  have hstart := h.start
  unfold AudioBuffer.numSamples at hempty
  exact List.eq_nil_of_length_eq_zero (by omega)

theorem appendBytes_eq {b b' : AudioBuffer} {maxBytes : Nat} {chunk : List UInt8}
    (h : b.appendBytes maxBytes chunk = some b') : b' = { b with buf := b.buf ++ chunk } := by
  unfold AudioBuffer.appendBytes at h
  split at h
  · cases h
  · exact (Option.some.inj h).symm

structure Handled (cfg : Config) (s : Session) : Prop where
  kept : Kept cfg s
  rest : Rest s

theorem Kept.limited (h : Kept cfg s) (hpos : cfg.maxSegmentSamples ≠ some 0)
    (hopen : s.isInputDone = false) (hfuel : enough → s.accepted.length < fuel)
    (hsaw : s.vad.isSome = true → s.sawVad = true)
    (hquiet : s.sawVad = false → s.activeSegment = none → s.audioBuffer.buf = []) :
    Ends enough (s.enforceHardLimit cfg fuel) (Handled cfg) := by
  refine (h.enforceHardLimit hpos hfuel hsaw).imp fun s' ⟨hkept, hlimited⟩ => ?_
  refine ⟨hkept, hlimited.idle, fun hv hnone => ?_, fun hdone => ?_⟩
  · have hv' : s.sawVad = false := hlimited.frame.sawVad ▸ hv
    have hnone' : s.activeSegment = none := by
      rw [← Option.isNone_iff_eq_none, ← Option.not_isSome, ← hlimited.active, hnone]
      rfl
    have hvad : s.vad = none := by
      rcases hvad : s.vad with _ | vad
      · rfl
      · rw [hsaw (by rw [hvad]; rfl)] at hv'
        cases hv'
    rw [hlimited.quiet hnone' hvad]
    exact hquiet hv' hnone'
  · rw [hlimited.frame.isInputDone, hopen] at hdone
    cases hdone

theorem Handled.appendQuiet {pcm : List UInt8} (h : Handled cfg s)
    (hpos : cfg.maxSegmentSamples ≠ some 0) (hopen : s.isInputDone = false)
    (heven : pcm.length % 2 = 0) (hvad : s.vad = none)
    (hfuel : enough → (s.accepted ++ pcm).length < fuel) {s₁ : Session}
    (hs₁ : s₁ = { s with
      audioBuffer := { s.audioBuffer with buf := s.audioBuffer.buf ++ pcm }
      accepted := s.accepted ++ pcm }) :
    Ends enough ((if s₁.activeSegment.isNone ∧ pcm ≠ [] then
      s₁.startSegment s.audioBuffer.endSample else s₁).enforceHardLimit cfg fuel) (Handled cfg) := by
  have hkept : Kept cfg s₁ := hs₁ ▸ h.kept.appended heven
  have hvad₁ : s₁.vad.isSome = true → s₁.sawVad = true := by
    intro hsome
    rw [hs₁, hvad] at hsome
    cases hsome
  split
  · next hnew =>
    have hnone : s.activeSegment = none := by
      rw [hs₁] at hnew
      exact Option.isNone_iff_eq_none.mp hnew.1
    have hlow : (s₁.audioBuffer.startSample : Int) ≤ s.audioBuffer.endSample := by
      rw [hs₁]
      change (s.audioBuffer.startSample : Int) ≤ s.audioBuffer.startSample + s.audioBuffer.numSamples
      omega
    have hhigh : s.audioBuffer.endSample ≤ s₁.audioBuffer.endSample := by
      rw [hs₁]
      simp only [AudioBuffer.endSample, AudioBuffer.numSamples, List.length_append]
      omega
    have hstart := hkept.startSegment hlow hhigh fun hv _ => by
      rw [hs₁] at hv ⊢
      simp [AudioBuffer.endSample, AudioBuffer.numSamples, h.rest.quiet hv hnone]
    refine hstart.limited hpos ?_ ?_ hvad₁ fun _ hnone' => (by cases hnone')
    · rw [hs₁]
      exact hopen
    · rw [hs₁]
      exact hfuel
  · next hold =>
    refine hkept.limited hpos ?_ ?_ hvad₁ fun hv hnone => ?_
    · rw [hs₁]
      exact hopen
    · rw [hs₁]
      exact hfuel
    · have hpcm : pcm = [] := by
        by_cases hp : pcm = []
        · exact hp
        · exact absurd ⟨Option.isNone_iff_eq_none.mpr hnone, hp⟩ hold
      rw [hs₁] at hv hnone ⊢
      simp [h.rest.quiet hv hnone, hpcm]

theorem Handled.appendVad {pcm : List UInt8} {vad : Vad} {speech : Nat → Bool}
    {reported : Nat → Option String} (h : Handled cfg s)
    (hpos : cfg.maxSegmentSamples ≠ some 0) (hopen : s.isInputDone = false)
    (heven : pcm.length % 2 = 0) (hvad : s.vad = some vad)
    (hfuel : enough → (s.accepted ++ pcm).length < fuel) {s₁ : Session}
    (hs₁ : s₁ = { s with
      audioBuffer := { s.audioBuffer with buf := s.audioBuffer.buf ++ pcm }
      accepted := s.accepted ++ pcm
      vad := some (vad.score pcm s.audioBuffer.endSample speech reported).1
      sawVad := true }) :
    Ends enough ((Session.processFrames cfg fuel
      (vad.score pcm s.audioBuffer.endSample speech reported).2 s₁).bind fun s =>
        s.enforceHardLimit cfg fuel) (Handled cfg) := by
  have hkept : Kept cfg s₁ := by
    rw [hs₁]
    refine (h.kept.appended heven).congr rfl rfl rfl rfl rfl (fun v hv => ?_) (fun hv => ?_) id
    · cases hv
      exact h.kept.padding vad hvad
    · cases hv
  have hsaw : s₁.sawVad = true := by rw [hs₁]
  have hfuel₁ : enough → s₁.accepted.length < fuel := by
    rw [hs₁]
    exact hfuel
  have hframes : ∀ f ∈ (vad.score pcm s.audioBuffer.endSample speech reported).2,
      f.startSample ≤ s₁.audioBuffer.endSample := by
    intro f hf
    have hle := Vad.score_start heven hf
    rw [hs₁]
    simp only [AudioBuffer.endSample, AudioBuffer.numSamples, List.length_append] at hle ⊢
    omega
  refine (hkept.processFrames hpos hsaw hfuel₁ hframes).bind fun s₂ ⟨hkept₂, hframe⟩ => ?_
  refine hkept₂.limited hpos ?_ ?_ (fun _ => hframe.sawVad.trans hsaw) fun hv => ?_
  · rw [hframe.isInputDone, hs₁]
    exact hopen
  · rw [hframe.accepted]
    exact hfuel₁
  · rw [hframe.sawVad, hsaw] at hv
    cases hv

theorem Handled.append {pcm : Option (List UInt8)} {speech : Nat → Bool}
    {reported : Nat → Option String} (h : Handled cfg s) (hpos : cfg.maxSegmentSamples ≠ some 0)
    (hopen : s.isInputDone = false)
    (hfuel : enough → s.accepted.length + (pcm.getD []).length < fuel) :
    Ends enough (s.handleAudioAppend cfg fuel pcm speech reported) (Handled cfg) := by
  unfold Session.handleAudioAppend
  rcases pcm with _ | pcm
  · exact Ends.some ⟨h.kept.send _, h.rest.send _⟩
  simp only
  split
  · exact Ends.some ⟨h.kept.send _, h.rest.send _⟩
  next heven =>
  have heven : pcm.length % 2 = 0 := by omega
  have hfuel' : enough → (s.accepted ++ pcm).length < fuel := by
    rw [List.length_append]
    exact hfuel
  split
  · exact Ends.some ⟨h.kept.send _, h.rest.send _⟩
  next buffer hbuffer =>
  obtain rfl := appendBytes_eq hbuffer
  split
  · next hvad => exact h.appendQuiet hpos hopen heven hvad hfuel' rfl
  · next vad hvad => exact h.appendVad hpos hopen heven hvad hfuel' rfl

end Transcription
