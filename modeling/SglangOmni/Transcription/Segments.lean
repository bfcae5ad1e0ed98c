import Mathlib.Tactic.Cases
import SglangOmni.Lib.Fuel
import SglangOmni.Transcription.Session

/-! The finals of a transcription session: their ids grow, their ranges follow one another without overlap,
each holds the samples of its range and none is longer than the longest segment.  Without a VAD and without
clears they are the whole audio once the session has ended, and a VAD that waits keeps no more than its
padding and two frames. -/

namespace Transcription

open Lib

variable {cfg : Config} {s s' : Session} {segment : Segment} {last sample : Int}
  {fuel maxSamples : Nat} {enough : Prop}

/-! ### The audio buffer -/

structure Holds (b : AudioBuffer) (accepted : List UInt8) : Prop where
  even : accepted.length % 2 = 0
  start : 2 * b.startSample ≤ accepted.length
  audio : b.buf = accepted.drop (2 * b.startSample)

namespace Holds

variable {b : AudioBuffer} {accepted : List UInt8}

theorem length (h : Holds b accepted) : b.buf.length = accepted.length - 2 * b.startSample := by
  rw [h.audio, List.length_drop]

theorem endSample (h : Holds b accepted) : 2 * b.endSample = accepted.length := by
  have hlen := h.length
  have heven := h.even
  have hstart := h.start
  unfold AudioBuffer.endSample AudioBuffer.numSamples
  omega

theorem byteOffset (hlow : b.startSample ≤ sample) (hhigh : sample ≤ b.endSample) :
    b.byteOffset sample = 2 * (sample.toNat - b.startSample) := by
  unfold AudioBuffer.byteOffset
  omega

theorem dropBefore (h : Holds b accepted) (hlow : b.startSample ≤ sample)
    (hhigh : sample ≤ b.endSample) :
    Holds (b.dropBefore sample) accepted ∧ ((b.dropBefore sample).startSample : Int) = sample := by
  have hlen := h.length
  have hend := h.endSample
  have hbytes : min (b.byteOffset sample) b.buf.length = 2 * (sample.toNat - b.startSample) := by
    rw [byteOffset hlow hhigh]
    omega
  have hstart : (b.dropBefore sample).startSample = sample.toNat := by
    simp only [AudioBuffer.dropBefore, AudioBuffer.dropPrefix, hbytes]
    omega
  refine ⟨⟨h.even, by rw [hstart]; omega, ?_⟩, by rw [hstart]; omega⟩
  rw [hstart]
  simp only [AudioBuffer.dropBefore, AudioBuffer.dropPrefix, hbytes]
  rw [h.audio, List.drop_drop]
  congr 1
  omega

theorem dropBefore_low (hlow : sample ≤ b.startSample) : b.dropBefore sample = b := by
  have hoffset : b.byteOffset sample = 0 := by
    have hend : (b.startSample : Int) ≤ b.endSample := by
      unfold AudioBuffer.endSample
      omega
    unfold AudioBuffer.byteOffset
    omega
  simp [AudioBuffer.dropBefore, AudioBuffer.dropPrefix, hoffset]

theorem dropBefore_le (h : Holds b accepted) (hhigh : sample ≤ b.endSample) :
    Holds (b.dropBefore sample) accepted ∧ b.startSample ≤ (b.dropBefore sample).startSample ∧
      sample ≤ (b.dropBefore sample).startSample := by
  by_cases hlow : sample ≤ b.startSample
  · rw [dropBefore_low hlow]
    exact ⟨h, Nat.le_refl _, hlow⟩
  · obtain ⟨hholds, hstart⟩ := h.dropBefore (by omega) hhigh
    exact ⟨hholds, by omega, by omega⟩

theorem clear (h : Holds b accepted) : Holds b.clear accepted ∧ b.clear.buf = [] := by
  have hlen := h.length
  have heven := h.even
  have hstart := h.start
  refine ⟨⟨h.even, ?_, ?_⟩, ?_⟩
  · simp only [AudioBuffer.clear, AudioBuffer.dropPrefix, Nat.min_self]
    omega
  · simp only [AudioBuffer.clear, AudioBuffer.dropPrefix, Nat.min_self, List.drop_length]
    rw [List.drop_eq_nil_of_le]
    omega
  · simp [AudioBuffer.clear, AudioBuffer.dropPrefix]

theorem slice (h : Holds b accepted) {first last : Int} (hlow : b.startSample ≤ first)
    (hle : first ≤ last) (hhigh : last ≤ b.endSample) :
    b.slice first last =
      (accepted.drop (2 * first.toNat)).take (2 * (last - first).toNat) := by
  unfold AudioBuffer.slice
  rw [byteOffset hlow (by omega), byteOffset (by omega) hhigh, h.audio, List.drop_drop]
  congr 1
  · omega
  · congr 1
    omega

theorem append (h : Holds b accepted) {pcm : List UInt8} (hpcm : pcm.length % 2 = 0) :
    Holds { b with buf := b.buf ++ pcm } (accepted ++ pcm) := by
  have heven := h.even
  have hstart := h.start
  refine ⟨?_, ?_, ?_⟩
  · rw [List.length_append]
    omega
  · rw [List.length_append]
    change 2 * b.startSample ≤ _
    omega
  · change b.buf ++ pcm = (accepted ++ pcm).drop (2 * b.startSample)
    rw [List.drop_append_of_le_length h.start, h.audio]

end Holds

/-! ### What holds inside the handlers -/

/-- A final that holds the samples of its range, which is not longer than the longest segment. -/
structure FinalKept (cfg : Config) (accepted : List UInt8) (f : Final) : Prop where
  start : 0 ≤ f.startSample
  nonempty : f.startSample < f.endSample
  within : 2 * f.endSample ≤ accepted.length
  short : ∀ maxSamples, cfg.maxSegmentSamples = some maxSamples →
    f.endSample - f.startSample ≤ maxSamples
  pcm : f.pcm = (accepted.drop (2 * f.startSample.toNat)).take
    (2 * (f.endSample - f.startSample).toNat)

structure Kept (cfg : Config) (s : Session) : Prop where
  holds : Holds s.audioBuffer s.accepted
  active : ∀ segment, s.activeSegment = some segment →
    s.audioBuffer.startSample ≤ segment.startSample ∧
    segment.startSample ≤ s.audioBuffer.endSample ∧ segment.segmentId < s.nextSegmentId ∧
    ∀ f ∈ s.finals, f.segmentId < segment.segmentId
  ids : s.finals.Pairwise fun f g => f.segmentId < g.segmentId
  disjoint : s.finals.Pairwise fun f g => f.endSample ≤ g.startSample
  finals : ∀ f ∈ s.finals, FinalKept cfg s.accepted f ∧
    f.endSample ≤ s.audioBuffer.startSample ∧ f.segmentId < s.nextSegmentId
  padding : ∀ vad, s.vad = some vad → 0 ≤ vad.config.prefixPaddingMs
  /-- Without a VAD and without clears the finals are the audio before the buffer. -/
  whole : s.sawVad = false → s.sawClear = false →
    s.finals.flatMap Final.pcm = s.accepted.take (2 * s.audioBuffer.startSample) ∧
    ∀ segment, s.activeSegment = some segment → segment.startSample = s.audioBuffer.startSample

structure Frame (s s' : Session) : Prop where
  accepted : s'.accepted = s.accepted
  sawVad : s'.sawVad = s.sawVad
  sawClear : s'.sawClear = s.sawClear
  isInputDone : s'.isInputDone = s.isInputDone
  hasVad : s'.vad.isSome = s.vad.isSome

theorem Frame.refl (s : Session) : Frame s s := ⟨rfl, rfl, rfl, rfl, rfl⟩

theorem Frame.trans {s₁ s₂ s₃ : Session} (h : Frame s₁ s₂) (h' : Frame s₂ s₃) : Frame s₁ s₃ :=
  ⟨h'.accepted.trans h.accepted, h'.sawVad.trans h.sawVad, h'.sawClear.trans h.sawClear,
    h'.isInputDone.trans h.isInputDone, h'.hasVad.trans h.hasVad⟩

theorem Kept.endSample_eq (h : Kept cfg s) (h' : Kept cfg s') (hframe : Frame s s') :
    s'.audioBuffer.endSample = s.audioBuffer.endSample := by
  have hend := h.holds.endSample
  have hend' := h'.holds.endSample
  rw [hframe.accepted] at hend'
  omega

theorem Kept.congr (h : Kept cfg s) (hbuffer : s'.audioBuffer = s.audioBuffer)
    (haccepted : s'.accepted = s.accepted) (hactive : s'.activeSegment = s.activeSegment)
    (hnext : s'.nextSegmentId = s.nextSegmentId) (hfinals : s'.finals = s.finals)
    (hvad : ∀ vad, s'.vad = some vad → 0 ≤ vad.config.prefixPaddingMs)
    (hsaw : s'.sawVad = false → s.sawVad = false) (hclear : s'.sawClear = false → s.sawClear = false) :
    Kept cfg s' := by
  obtain ⟨hholds, hact, hids, hdisjoint, hfin, -, hwhole⟩ := h
  rw [← hbuffer, ← haccepted] at hholds
  rw [← hactive, ← hbuffer, ← hnext, ← hfinals] at hact
  rw [← hfinals] at hids hdisjoint
  rw [← hfinals, ← haccepted, ← hbuffer, ← hnext] at hfin
  rw [← hfinals, ← haccepted, ← hbuffer, ← hactive] at hwhole
  exact ⟨hholds, hact, hids, hdisjoint, hfin, hvad, fun h₁ h₂ => hwhole (hsaw h₁) (hclear h₂)⟩

/-! ### Segments are opened and closed -/

theorem Kept.startSegment (h : Kept cfg s) (hlow : s.audioBuffer.startSample ≤ sample)
    (hhigh : sample ≤ s.audioBuffer.endSample)
    (hwhole : s.sawVad = false → s.sawClear = false → sample = s.audioBuffer.startSample) :
    Kept cfg (s.startSegment sample) := by
  refine ⟨h.holds, fun seg hseg => ?_, h.ids, h.disjoint, fun f hf => ?_, h.padding, fun hv hc => ?_⟩
  · cases hseg
    exact ⟨hlow, hhigh, Nat.lt_succ_self _, fun f hf => (h.finals f hf).2.2⟩
  · obtain ⟨hkept, hend, hid⟩ := h.finals f hf
    exact ⟨hkept, hend, Nat.lt_succ_of_lt hid⟩
  · refine ⟨(h.whole hv hc).1, fun seg hseg => ?_⟩
    cases hseg
    exact hwhole hv hc

theorem queueFinal_eq (ha : s.activeSegment = some segment) (hlt : segment.startSample < last) :
    s.queueFinal last = { s with
      finals := s.finals ++ [⟨segment.segmentId, segment.startSample, last,
        s.audioBuffer.slice segment.startSample last⟩]
      audioBuffer := s.audioBuffer.dropBefore last
      activeSegment := none
      lastClosedSegmentId := some segment.segmentId
      sent := s.sent ++ [.committed segment.segmentId] } := by
  unfold Session.queueFinal
  simp only [ha]
  rw [if_neg (by omega)]

theorem queueFinal_low (ha : s.activeSegment = some segment) (hle : last ≤ segment.startSample) :
    s.queueFinal last = s := by
  unfold Session.queueFinal
  simp only [ha]
  rw [if_pos hle]

theorem Frame.queueFinal (s : Session) (last : Int) : Frame s (s.queueFinal last) := by
  unfold Session.queueFinal
  split
  · exact Frame.refl s
  · split <;> exact ⟨rfl, rfl, rfl, rfl, rfl⟩

theorem Kept.queueFinal (h : Kept cfg s) (ha : s.activeSegment = some segment)
    (hlt : segment.startSample < last) (hhigh : last ≤ s.audioBuffer.endSample)
    (hshort : ∀ maxSamples, cfg.maxSegmentSamples = some maxSamples →
      last - segment.startSample ≤ maxSamples) :
    Kept cfg (s.queueFinal last) ∧ (s.queueFinal last).activeSegment = none ∧
      ((s.queueFinal last).audioBuffer.startSample : Int) = last := by
  obtain ⟨hlow, hhigh', hid, hless⟩ := h.active segment ha
  have hend := h.holds.endSample
  obtain ⟨hdrop, hstart⟩ := h.holds.dropBefore (by omega) hhigh
  have hslice := h.holds.slice hlow (by omega) hhigh
  rw [queueFinal_eq ha hlt]
  refine ⟨⟨hdrop, fun seg hseg => (by cases hseg), ?_, ?_, fun f hf => ?_, h.padding, fun hv hc => ?_⟩, rfl,
    hstart⟩
  · refine List.pairwise_append.mpr ⟨h.ids, List.pairwise_singleton _ _, fun f hf g hg => ?_⟩
    cases List.mem_singleton.mp hg
    exact hless f hf
  · refine List.pairwise_append.mpr ⟨h.disjoint, List.pairwise_singleton _ _, fun f hf g hg => ?_⟩
    cases List.mem_singleton.mp hg
    have hfend := (h.finals f hf).2.1
    change f.endSample ≤ segment.startSample
    omega
  · rcases List.mem_append.mp hf with hf | hf
    · obtain ⟨hkept, hfend, hfid⟩ := h.finals f hf
      refine ⟨hkept, ?_, hfid⟩
      change f.endSample ≤ ((s.audioBuffer.dropBefore last).startSample : Int)
      rw [hstart]
      omega
    · cases List.mem_singleton.mp hf
      refine ⟨⟨by change 0 ≤ segment.startSample; omega, hlt, ?_, hshort, hslice⟩, ?_, hid⟩
      · change 2 * last ≤ (s.accepted.length : Int)
        omega
      · change last ≤ ((s.audioBuffer.dropBefore last).startSample : Int)
        omega
  · obtain ⟨hfinals, hseg⟩ := h.whole hv hc
    refine ⟨?_, fun seg hseg => (by cases hseg)⟩
    have hsegstart := hseg segment ha
    change (s.finals ++ [_]).flatMap Final.pcm =
      s.accepted.take (2 * (s.audioBuffer.dropBefore last).startSample)
    rw [List.flatMap_append, hfinals, List.flatMap_singleton, hslice, hsegstart]
    have hlast : 2 * (s.audioBuffer.dropBefore last).startSample =
        2 * s.audioBuffer.startSample + 2 * (last - s.audioBuffer.startSample).toNat := by
      omega
    rw [hlast, List.take_add, Int.toNat_natCast]

theorem Frame.startSegment (s : Session) (sample : Int) : Frame s (s.startSegment sample) :=
  ⟨rfl, rfl, rfl, rfl, rfl⟩

theorem Kept.cutSegments (h : Kept cfg s) (hmax : cfg.maxSegmentSamples = some maxSamples)
    (hpos : maxSamples ≠ 0) (ha : s.activeSegment = some segment)
    (hhigh : last ≤ s.audioBuffer.endSample)
    (hfuel : enough → (last - segment.startSample).toNat < fuel) :
    Ends enough (Session.cutSegments maxSamples last fuel s) fun s' =>
      Kept cfg s' ∧ Frame s s' ∧ (last ≤ segment.startSample → s' = s) ∧
      ∃ segment', s'.activeSegment = some segment' ∧ last - segment'.startSample ≤ maxSamples ∧
        (segment.startSample < last → segment'.startSample < last) := by
  induction fuel generalizing s segment with
  | zero => exact ⟨fun he => absurd (hfuel he) (Nat.not_lt_zero _), fun _ hs => (by cases hs)⟩
  | succ fuel ih =>
    unfold Session.cutSegments
    simp only [ha]
    split
    · next hlong =>
      have hcut : segment.startSample + (maxSamples : Int) < last := by omega
      have hstep : segment.startSample < segment.startSample + (maxSamples : Int) := by omega
      obtain ⟨hq, hnone, hstart⟩ := h.queueFinal ha hstep (by omega) fun m hm => by
        rw [hmax] at hm
        cases hm
        omega
      have hframe := (Frame.queueFinal s (segment.startSample + maxSamples)).trans
        (Frame.startSegment _ (segment.startSample + maxSamples))
      have hend := h.endSample_eq hq (Frame.queueFinal s (segment.startSample + maxSamples))
      have hkept := hq.startSegment (Int.le_of_eq hstart) (by omega) fun _ _ => hstart.symm
      have hfuel' : enough → (last - (segment.startSample + maxSamples)).toNat < fuel := fun he => by
        have := hfuel he
        omega
      have hrest := ih hkept rfl (by rw [h.endSample_eq hkept hframe]; exact hhigh) hfuel'
      refine hrest.imp fun s' ⟨hk, hf, _, seg, hseg, hshort, hlt⟩ => ?_
      exact ⟨hk, hframe.trans hf, fun hle => by omega, seg, hseg, hshort, fun _ => hlt hcut⟩
    · exact Ends.some ⟨h, Frame.refl s, fun _ => rfl, segment, ha, by omega, id⟩

/-- The finals up to a sample: the open segment ends there, unless it starts later. -/
structure Closed (s s' : Session) (last : Int) : Prop where
  frame : Frame s s'
  early : ∀ segment, s.activeSegment = some segment →
    segment.startSample < min last s.audioBuffer.endSample →
    s'.activeSegment = none ∧
      (s'.audioBuffer.startSample : Int) = min last s.audioBuffer.endSample
  late : ∀ segment, s.activeSegment = some segment →
    min last s.audioBuffer.endSample ≤ segment.startSample → s' = s
  none : s.activeSegment = none → s' = s

theorem Kept.closes (h : Kept cfg s) (ha : s.activeSegment = some segment) {s₁ : Session}
    {segment₁ : Segment} (hkept : Kept cfg s₁) (hframe : Frame s s₁)
    (ha₁ : s₁.activeSegment = some segment₁)
    (hlate : min last s.audioBuffer.endSample ≤ segment.startSample → s₁ = s)
    (hearly : segment.startSample < min last s.audioBuffer.endSample →
      segment₁.startSample < min last s.audioBuffer.endSample)
    (hshort : ∀ maxSamples, cfg.maxSegmentSamples = some maxSamples →
      min last s.audioBuffer.endSample - segment₁.startSample ≤ maxSamples) :
    Kept cfg (s₁.queueFinal (min last s.audioBuffer.endSample)) ∧
      Closed s (s₁.queueFinal (min last s.audioBuffer.endSample)) last := by
  have hend := h.endSample_eq hkept hframe
  have hframe' := hframe.trans (Frame.queueFinal s₁ (min last s.audioBuffer.endSample))
  by_cases hlt : segment.startSample < min last s.audioBuffer.endSample
  · obtain ⟨hq, hnone, hstart⟩ := hkept.queueFinal ha₁ (hearly hlt) (by omega) hshort
    refine ⟨hq, hframe', fun _ _ _ => ⟨hnone, hstart⟩, fun seg hseg hle => ?_, fun hn => ?_⟩
    · rw [ha] at hseg
      cases hseg
      omega
    · rw [ha] at hn
      cases hn
  · obtain rfl := hlate (by omega)
    rw [queueFinal_low ha (by omega)] at hframe' ⊢
    refine ⟨h, hframe', fun seg hseg hlt' => ?_, fun _ _ _ => rfl, fun _ => rfl⟩
    rw [ha] at hseg
    cases hseg
    exact absurd hlt' hlt

theorem Kept.finalizeThrough (h : Kept cfg s) (hpos : cfg.maxSegmentSamples ≠ some 0)
    (hfuel : enough → s.accepted.length < fuel) (last : Int) :
    Ends enough (s.finalizeThrough cfg fuel last) fun s' => Kept cfg s' ∧ Closed s s' last := by
  unfold Session.finalizeThrough
  rcases ha : s.activeSegment with _ | segment
  · exact Ends.some ⟨h, Frame.refl s, fun _ hseg => (by rw [ha] at hseg; cases hseg),
      fun _ _ _ => rfl, fun _ => rfl⟩
  have hend := h.holds.endSample
  have hlow := (h.active segment ha).1
  rcases hmax : cfg.maxSegmentSamples with _ | maxSamples
  · exact Ends.some (h.closes ha h (Frame.refl s) ha (fun _ => rfl) id fun m hm => (by
      rw [hmax] at hm
      cases hm))
  · have hfuel' : enough →
        (min last s.audioBuffer.endSample - segment.startSample).toNat < fuel := fun he => by
      have := hfuel he
      omega
    have hcut := h.cutSegments hmax (fun h0 => hpos (h0 ▸ hmax)) ha (by omega) hfuel'
    refine hcut.map fun s₁ ⟨hkept, hframe, hlate, segment₁, ha₁, hshort, hlt⟩ => ?_
    refine h.closes ha hkept hframe ha₁ hlate hlt fun m hm => ?_
    rw [hmax] at hm
    cases hm
    exact hshort

end Transcription
