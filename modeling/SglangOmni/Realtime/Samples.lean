import SglangOmni.Lib.Ranges
import SglangOmni.Realtime.Moves

/-! The samples of an open session: every accepted sample is pending, in flight, cleared, or was handed
to the adapter, in the order of the stream.  `samples_accounted` is the result. -/

namespace Realtime

open Lib

variable {cfg : Config} {s s' : State}

def State.inFlightSamples (s : State) : Nat :=
  match s.pump with
  | .processing unit _ => unit.realSamples
  | _ => 0

structure Carries (cfg : Config) (stream : List UInt8) (u : MediaUnit) : Prop where
  audio : u.pcm.take (u.realSamples * bytesPerSample) =
    (stream.drop (u.startSample * bytesPerSample)).take (u.realSamples * bytesPerSample)
  whole : u.realSamples * bytesPerSample ≤ u.pcm.length
  silence : ∀ b ∈ u.pcm.drop (u.realSamples * bytesPerSample), b = 0
  size : u.pcm.length ≤ cfg.nativeUnitBytes

/-- Where the pump stands with the end of the input: no unit before the last has `eos`, the unit that
has it ends the pump, and the pump that waits after the end of the input has work. -/
inductive EndKept (s : State) : Prop
  | waiting (hpump : s.pump = .waiting) (hready : s.isInputEnded = true → s.inputReady = true)
    (hnone : ∀ u ∈ s.handed, u.eos = false)
  | committing (hpump : s.pump = .committing) (hnone : ∀ u ∈ s.handed, u.eos = false)
  | processing {units : List MediaUnit} {u : MediaUnit} {receipt : Option MediaUnit}
    (hpump : s.pump = .processing u receipt) (hhanded : s.handed = units ++ [u])
    (hnone : ∀ v ∈ units, v.eos = false)
    (heos : u.eos = true → s.isInputEnded = true ∧ s.pendingPcm = [])
  | returned {units : List MediaUnit} {u : MediaUnit} (hpump : s.pump = .returned)
    (hhanded : s.handed = units ++ [u]) (hnone : ∀ v ∈ units, v.eos = false) (heos : u.eos = true)
    (hended : s.isInputEnded = true) (hdone : s.drained.isSome = true ∨ s.hasCloseTask = true)

structure SamplesKept (cfg : Config) (s : State) : Prop where
  stream : s.stream.length = s.acceptedSamples * bytesPerSample
  whole : s.pendingPcm.length % bytesPerSample = 0
  le : s.pendingSamples ≤ s.acceptedSamples
  pending : s.pendingPcm = s.stream.drop ((s.acceptedSamples - s.pendingSamples) * bytesPerSample)
  balance : s.acceptedSamples =
    s.consumedSamples + s.discardedSamples + s.pendingSamples + s.inFlightSamples
  budget : s.acceptedSamples * bytesPerSample ≤
    cfg.maxInputBytes + (s.consumedSamples + s.discardedSamples) * bytesPerSample
  covers : Covers Taken.start Taken.count 0 s.taken (s.acceptedSamples - s.pendingSamples)
  inside : ∀ u ∈ s.handed, u.startSample + u.realSamples ≤ s.acceptedSamples - s.pendingSamples
  carries : ∀ u ∈ s.handed, Carries cfg s.stream u
  clearing : ∀ n, s.clearing = some n → n = s.pendingSamples
  ended : EndKept s
  drained : ∀ r, s.drained = some r → s.pump = .returned ∧ r.accepted = r.consumed + r.discarded

theorem handed_unit (s : State) (u : MediaUnit) :
    (s.taken ++ [Taken.unit u]).filterMap Taken.unit? = s.handed ++ [u] := by
  rw [List.filterMap_append]
  rfl

theorem handed_cleared (s : State) (start count : Nat) :
    (s.taken ++ [Taken.cleared start count]).filterMap Taken.unit? = s.handed := by
  rw [List.filterMap_append]
  exact List.append_nil _

theorem Carries.append {stream : List UInt8} {u : MediaUnit} (h : Carries cfg stream u)
    (hle : (u.startSample + u.realSamples) * bytesPerSample ≤ stream.length) (pcm : List UInt8) :
    Carries cfg (stream ++ pcm) u := by
  refine ⟨?_, h.whole, h.silence, h.size⟩
  rw [Nat.add_mul] at hle
  rw [h.audio, List.drop_append_of_le_length (by omega), List.take_append_of_le_length]
  rw [List.length_drop]
  omega

theorem EndKept.frame (h : EndKept s) (hpump : s'.pump = s.pump) (hhanded : s'.handed = s.handed)
    (hended : s'.isInputEnded = s.isInputEnded)
    (hready : s.inputReady = true → s'.inputReady = true)
    (hpending : s.pendingPcm = [] → s'.pendingPcm = []) (hdrained : s'.drained = s.drained)
    (hclose : s.hasCloseTask = true → s'.hasCloseTask = true) : EndKept s' := by
  cases h with
  | waiting hp hr hn =>
    refine .waiting (hpump.trans hp) (fun he => hready (hr (hended.symm.trans he))) ?_
    rw [hhanded]
    exact hn
  | committing hp hn =>
    refine .committing (hpump.trans hp) ?_
    rw [hhanded]
    exact hn
  | processing hp hh hn he =>
    refine .processing (hpump.trans hp) (hhanded.trans hh) hn fun heos => ?_
    obtain ⟨hend, hpend⟩ := he heos
    exact ⟨hended.trans hend, hpending hpend⟩
  | returned hp hh hn he hend hdone =>
    refine .returned (hpump.trans hp) (hhanded.trans hh) hn he (hended.trans hend) ?_
    rw [hdrained]
    exact hdone.imp_right hclose

theorem SamplesKept.frame (h : SamplesKept cfg s) (hstream : s'.stream = s.stream)
    (hpending : s'.pendingPcm = s.pendingPcm) (haccepted : s'.acceptedSamples = s.acceptedSamples)
    (hconsumed : s'.consumedSamples = s.consumedSamples)
    (hdiscarded : s'.discardedSamples = s.discardedSamples) (htaken : s'.taken = s.taken)
    (hflight : s'.inFlightSamples = s.inFlightSamples) (hdrained : s'.drained = s.drained)
    (hreturned : s.pump = .returned → s'.pump = .returned)
    (hclearing : ∀ n, s'.clearing = some n → n = s.pendingSamples) (hended : EndKept s') :
    SamplesKept cfg s' := by
  have hsamples : s'.pendingSamples = s.pendingSamples := by
    rw [State.pendingSamples, hpending, State.pendingSamples]
  have hhanded : s'.handed = s.handed := by rw [State.handed, htaken, State.handed]
  constructor
  · rw [hstream, haccepted]
    exact h.stream
  · rw [hpending]
    exact h.whole
  · rw [hsamples, haccepted]
    exact h.le
  · rw [hpending, hstream, haccepted, hsamples]
    exact h.pending
  · rw [haccepted, hconsumed, hdiscarded, hsamples, hflight]
    exact h.balance
  · rw [haccepted, hconsumed, hdiscarded]
    exact h.budget
  · rw [htaken, haccepted, hsamples]
    exact h.covers
  · rw [hhanded, haccepted, hsamples]
    exact h.inside
  · rw [hhanded, hstream]
    exact h.carries
  · rw [hsamples]
    exact hclearing
  · exact hended
  · rw [hdrained]
    exact fun r hr => (h.drained r hr).imp_left hreturned

/-! ### Moves -/

theorem SamplesKept.accept (h : SamplesKept cfg s) {pcm : List UInt8} (hlock : s.clearing = none)
    (hended : s.isInputEnded = false) (heven : pcm.length % bytesPerSample = 0)
    (hroom : ((s.acceptedSamples : Int) - s.consumedSamples - s.discardedSamples) * bytesPerSample +
      pcm.length ≤ cfg.maxInputBytes) : SamplesKept cfg (s.accept pcm) := by
  have hwhole := h.whole
  have hbalance := h.balance
  have hle := h.le
  have hstream := h.stream
  simp only [bytesPerSample] at heven hwhole hroom
  have hsamples : (s.accept pcm).pendingSamples =
      s.pendingSamples + pcm.length / bytesPerSample := by
    simp only [State.pendingSamples, State.accept, bytesPerSample, List.length_append]
    omega
  have hsame : (s.accept pcm).acceptedSamples - (s.accept pcm).pendingSamples =
      s.acceptedSamples - s.pendingSamples := by
    rw [hsamples]
    simp only [State.accept]
    omega
  have htaken : (s.acceptedSamples - s.pendingSamples) * bytesPerSample ≤ s.stream.length := by
    rw [hstream]
    exact Nat.mul_le_mul_right _ (Nat.sub_le _ _)
  constructor
  · simp only [State.accept, List.length_append, bytesPerSample] at hstream ⊢
    omega
  · simp only [State.accept, List.length_append, bytesPerSample]
    omega
  · rw [hsamples]
    simp only [State.accept]
    omega
  · rw [hsame]
    show s.pendingPcm ++ pcm = (s.stream ++ pcm).drop _
    rw [List.drop_append_of_le_length htaken]
    exact congrArg (· ++ pcm) h.pending
  · rw [hsamples]
    show s.acceptedSamples + pcm.length / bytesPerSample = s.consumedSamples + s.discardedSamples +
      (s.pendingSamples + pcm.length / bytesPerSample) + s.inFlightSamples
    omega
  · simp only [State.accept, bytesPerSample]
    omega
  · rw [hsame]
    exact h.covers
  · rw [hsame]
    exact h.inside
  · intro u hu
    exact (h.carries u hu).append ((Nat.mul_le_mul_right _ (h.inside u hu)).trans htaken) pcm
  · intro n hn
    cases hlock.symm.trans hn
  · have hnot : s.isInputEnded ≠ true := Bool.eq_false_iff.mp hended
    cases h.ended with
    | waiting hp hr hn => exact .waiting hp (fun _ => rfl) hn
    | committing hp hn => exact .committing hp hn
    | processing hp hh hn he => exact .processing hp hh hn fun heos => absurd (he heos).1 hnot
    | returned hp hh hn he hend hdone => exact absurd hend hnot
  · exact h.drained

theorem cleared_eq (s : State) (clearedSamples : Nat) :
    ∃ index samples receipt completed, s.cleared clearedSamples =
      { s.dropPending with
        nextUnitIndex := index
        openUnitSamples := samples
        clearedUnitReceipt := receipt
        completed := completed
        discardedSamples := s.discardedSamples + clearedSamples } := by
  unfold State.cleared State.endOpenUnit
  split
  · exact ⟨_, _, _, _, rfl⟩
  · simp only
    split
    · exact ⟨_, _, _, _, rfl⟩
    · exact ⟨_, _, _, _, rfl⟩

theorem SamplesKept.cleared (h : SamplesKept cfg s) {clearedSamples : Nat}
    (hclearing : s.clearing = some clearedSamples) : SamplesKept cfg (s.cleared clearedSamples) := by
  have hcount : clearedSamples = s.pendingSamples := h.clearing _ hclearing
  subst hcount
  have hbalance := h.balance
  have hbudget := h.budget
  have hle := h.le
  obtain ⟨index, samples, receipt, completed, heq⟩ := cleared_eq s s.pendingSamples
  have hhanded : (s.cleared s.pendingSamples).handed = s.handed := by
    rw [heq]
    exact handed_cleared s _ _
  have hnone : (s.cleared s.pendingSamples).pendingSamples = 0 := by
    rw [heq]
    exact Nat.zero_div _
  have haccepted : (s.cleared s.pendingSamples).acceptedSamples = s.acceptedSamples := by rw [heq]; rfl
  have hflight : (s.cleared s.pendingSamples).inFlightSamples = s.inFlightSamples := by rw [heq]; rfl
  have hstream : (s.cleared s.pendingSamples).stream = s.stream := by rw [heq]; rfl
  have hpending : (s.cleared s.pendingSamples).pendingPcm = [] := by rw [heq]; rfl
  have hconsumed : (s.cleared s.pendingSamples).consumedSamples = s.consumedSamples := by rw [heq]; rfl
  have hdiscarded : (s.cleared s.pendingSamples).discardedSamples =
      s.discardedSamples + s.pendingSamples := by rw [heq]
  have htaken : (s.cleared s.pendingSamples).taken =
      s.taken ++ [Taken.cleared (s.acceptedSamples - s.pendingSamples) s.pendingSamples] := by
    rw [heq]
    rfl
  constructor
  · rw [hstream, haccepted]
    exact h.stream
  · rw [hpending]
    rfl
  · rw [hnone]
    exact Nat.zero_le _
  · rw [hpending, hstream, haccepted, hnone, Nat.sub_zero, ← h.stream, List.drop_length]
  · rw [haccepted, hconsumed, hdiscarded, hnone, hflight]
    omega
  · rw [haccepted, hconsumed, hdiscarded]
    simp only [bytesPerSample] at hbudget ⊢
    omega
  · rw [htaken, haccepted, hnone]
    have hcovers := h.covers.concat
      (a := Taken.cleared (s.acceptedSamples - s.pendingSamples) s.pendingSamples) rfl
    have hend : s.acceptedSamples - s.pendingSamples +
        (Taken.cleared (s.acceptedSamples - s.pendingSamples) s.pendingSamples).count =
          s.acceptedSamples - 0 := by
      simp only [Taken.count]
      omega
    rw [hend] at hcovers
    exact hcovers
  · rw [hhanded, haccepted, hnone]
    exact fun u hu => (h.inside u hu).trans (Nat.sub_le_sub_left (Nat.zero_le _) _)
  · rw [hhanded, hstream]
    exact h.carries
  · intro n hn
    rw [heq] at hn
    cases hn
  · refine h.ended.frame ?_ hhanded ?_ ?_ (fun _ => hpending) ?_ ?_
    · rw [heq]
      rfl
    · rw [heq]
      rfl
    · rw [heq]
      exact id
    · rw [heq]
      rfl
    · rw [heq]
      exact id
  · rw [heq]
    exact h.drained

theorem cutNextUnit_eq (cfg : Config) (s : State) :
    ∃ index samples start receipt, s.cutNextUnit cfg =
      { s with
        pendingPcm := s.pendingPcm.drop (s.unitPcmBytes cfg)
        paddingSamples := s.paddingSamples + s.paddingBytes cfg / bytesPerSample
        pendingFrames := Function.update s.pendingFrames s.nextUnitIndex []
        taken := s.taken ++ [Taken.unit (s.nextUnit cfg)]
        isUnitInFlight := true
        nextUnitIndex := index
        openUnitSamples := samples
        openUnitStartSample := start
        pump := .processing (s.nextUnit cfg) receipt } := by
  unfold State.cutNextUnit
  simp only
  split
  · exact ⟨_, _, _, _, rfl⟩
  · exact ⟨_, _, _, _, rfl⟩

theorem unitPcmBytes_le (cfg : Config) (s : State) :
    s.unitPcmBytes cfg ≤ s.pendingPcm.length ∧ s.unitPcmBytes cfg ≤ cfg.nativeUnitBytes := by
  unfold State.unitPcmBytes
  omega

theorem unitPcmBytes_even (cfg : Config) (hwhole : s.pendingPcm.length % bytesPerSample = 0) :
    s.unitPcmBytes cfg / bytesPerSample * bytesPerSample = s.unitPcmBytes cfg := by
  simp only [State.unitPcmBytes, Config.nativeUnitBytes, bytesPerSample] at hwhole ⊢
  omega

theorem SamplesKept.nextUnit_carries (h : SamplesKept cfg s) :
    Carries cfg s.stream (s.nextUnit cfg) := by
  obtain ⟨hpending, hnative⟩ := unitPcmBytes_le cfg s
  have heven := unitPcmBytes_even cfg h.whole
  have htake : (s.pendingPcm.take (s.unitPcmBytes cfg)).length = s.unitPcmBytes cfg := by
    rw [List.length_take, Nat.min_eq_left hpending]
  constructor
  · simp only [State.nextUnit, heven]
    rw [List.take_append_of_le_length htake.ge, List.take_take, Nat.min_self, ← h.pending]
  · simp only [State.nextUnit, heven, List.length_append]
    omega
  · simp only [State.nextUnit, heven]
    rw [List.drop_append_of_le_length htake.ge, List.drop_eq_nil_of_le htake.le, List.nil_append]
    exact fun b hb => (List.mem_replicate.mp hb).2
  · simp only [State.nextUnit, List.length_append, htake, List.length_replicate, State.paddingBytes]
    split <;> omega

theorem SamplesKept.cut (h : SamplesKept cfg s) (hlock : s.clearing = none)
    (hpump : s.pump = .waiting) : SamplesKept cfg (s.noted.cutNextUnit cfg) := by
  obtain ⟨index, samples, start, receipt, heq⟩ := cutNextUnit_eq cfg s.noted
  obtain ⟨hpending, -⟩ := unitPcmBytes_le cfg s
  have heven := unitPcmBytes_even cfg h.whole
  have hwhole := h.whole
  have hbalance := h.balance
  have hle := h.le
  have hflight : s.inFlightSamples = 0 := by rw [State.inFlightSamples, hpump]
  have hreal : (s.nextUnit cfg).realSamples = s.unitPcmBytes cfg / bytesPerSample := rfl
  have hsamples : (s.noted.cutNextUnit cfg).pendingSamples =
      s.pendingSamples - (s.nextUnit cfg).realSamples := by
    rw [heq, hreal]
    show (s.pendingPcm.drop (s.unitPcmBytes cfg)).length / bytesPerSample = _
    simp only [State.pendingSamples, List.length_drop, bytesPerSample] at heven ⊢
    omega
  have hreal_le : (s.nextUnit cfg).realSamples ≤ s.pendingSamples :=
    Nat.div_le_div_right hpending
  have haccepted : (s.noted.cutNextUnit cfg).acceptedSamples = s.acceptedSamples := by rw [heq]; rfl
  have hstream : (s.noted.cutNextUnit cfg).stream = s.stream := by rw [heq]; rfl
  have htaken : (s.noted.cutNextUnit cfg).taken = s.taken ++ [Taken.unit (s.nextUnit cfg)] := by
    rw [heq]
    rfl
  have hhanded : (s.noted.cutNextUnit cfg).handed = s.handed ++ [s.nextUnit cfg] := by
    rw [State.handed, htaken]
    exact handed_unit s _
  have hnext : (s.noted.cutNextUnit cfg).acceptedSamples - (s.noted.cutNextUnit cfg).pendingSamples =
      s.acceptedSamples - s.pendingSamples + (s.nextUnit cfg).realSamples := by
    rw [haccepted, hsamples]
    omega
  have hstart : (s.nextUnit cfg).startSample = s.acceptedSamples - s.pendingSamples := rfl
  have hpcm : (s.noted.cutNextUnit cfg).pendingPcm = s.pendingPcm.drop (s.unitPcmBytes cfg) := by
    rw [heq]
    rfl
  constructor
  · rw [hstream, haccepted]
    exact h.stream
  · rw [hpcm, List.length_drop]
    simp only [bytesPerSample] at heven hwhole ⊢
    omega
  · rw [hsamples, haccepted]
    omega
  · rw [hpcm, hnext, hstream, Nat.add_mul, ← List.drop_drop, ← h.pending, hreal, heven]
  · have hflight' : (s.noted.cutNextUnit cfg).inFlightSamples = (s.nextUnit cfg).realSamples := by
      rw [heq]
      rfl
    have hconsumed : (s.noted.cutNextUnit cfg).consumedSamples = s.consumedSamples := by rw [heq]; rfl
    have hdiscarded : (s.noted.cutNextUnit cfg).discardedSamples = s.discardedSamples := by
      rw [heq]
      rfl
    rw [haccepted, hconsumed, hdiscarded, hsamples, hflight']
    omega
  · rw [heq]
    exact h.budget
  · rw [htaken, hnext]
    exact h.covers.concat (a := Taken.unit (s.nextUnit cfg)) rfl
  · rw [hhanded, hnext]
    intro u hu
    rcases List.mem_append.mp hu with hu | hu
    · exact (h.inside u hu).trans (Nat.le_add_right _ _)
    · rw [List.mem_singleton.mp hu, hstart]
  · rw [hhanded, hstream]
    intro u hu
    rcases List.mem_append.mp hu with hu | hu
    · exact h.carries u hu
    · rw [List.mem_singleton.mp hu]
      exact h.nextUnit_carries
  · intro n hn
    rw [heq] at hn
    cases hlock.symm.trans hn
  · have hpump' : (s.noted.cutNextUnit cfg).pump = .processing (s.nextUnit cfg) receipt := by
      rw [heq]
      rfl
    refine .processing hpump' hhanded ?_ fun heos => ?_
    · cases h.ended with
      | waiting _ _ hn => exact hn
      | committing hp => cases hpump.symm.trans hp
      | processing hp => cases hpump.symm.trans hp
      | returned hp => cases hpump.symm.trans hp
    · simp only [State.nextUnit, Bool.and_eq_true, List.isEmpty_iff] at heos
      rw [hpcm, heq]
      exact heos
  · intro r hr
    rw [heq] at hr
    cases hpump.symm.trans (h.drained r hr).1

theorem processed_cases (s : State) (unit : MediaUnit) (receipt : Option MediaUnit) (consumed : Nat) :
    let t := { s with
      isUnitInFlight := false
      consumedSamples := s.consumedSamples + consumed
      discardedSamples := s.discardedSamples + (unit.realSamples - consumed)
      completed := s.completed ++ (s.dueReceipt receipt).toList
      clearedUnitReceipt := none }
    (unit.eos = false ∧
      s.processed unit receipt consumed = { t with inputReady := true, pump := .waiting }) ∨
    (unit.eos = true ∧ s.hasCloseTask = true ∧
      s.processed unit receipt consumed = { t with pump := .returned }) ∨
    (unit.eos = true ∧ s.processed unit receipt consumed =
      { t with
        pump := .returned
        drained := some {
          accepted := t.acceptedSamples
          consumed := t.consumedSamples
          discarded := t.discardedSamples
          padding := t.paddingSamples } }) := by
  intro t
  have heq : s.processed unit receipt consumed = t.afterUnit unit true := rfl
  rw [heq]
  unfold State.afterUnit
  by_cases heos : unit.eos = true
  · rw [if_neg (not_not.mpr heos)]
    by_cases hclose : t.hasCloseTask = true
    · rw [if_pos hclose]
      exact .inr (.inl ⟨heos, hclose, rfl⟩)
    · rw [if_neg hclose, if_neg (by decide)]
      exact .inr (.inr ⟨heos, rfl⟩)
  · rw [if_pos heos]
    exact .inl ⟨Bool.eq_false_iff.mpr heos, rfl⟩

theorem SamplesKept.finish (h : SamplesKept cfg s) {unit : MediaUnit} {receipt : Option MediaUnit}
    {consumed : Nat} (hpump : s.pump = .processing unit receipt) (hle : consumed ≤ unit.realSamples)
    (hstream : s'.stream = s.stream) (hpending : s'.pendingPcm = s.pendingPcm)
    (haccepted : s'.acceptedSamples = s.acceptedSamples)
    (hconsumed : s'.consumedSamples = s.consumedSamples + consumed)
    (hdiscarded : s'.discardedSamples = s.discardedSamples + (unit.realSamples - consumed))
    (htaken : s'.taken = s.taken) (hflight : s'.inFlightSamples = 0)
    (hclearing : s'.clearing = s.clearing) (hended : EndKept s')
    (hdrained : ∀ r, s'.drained = some r → s'.pump = .returned ∧ r.accepted = r.consumed + r.discarded) :
    SamplesKept cfg s' := by
  have hsamples : s'.pendingSamples = s.pendingSamples := by
    rw [State.pendingSamples, hpending, State.pendingSamples]
  have hhanded : s'.handed = s.handed := by rw [State.handed, htaken, State.handed]
  have hbalance := h.balance
  have hbudget := h.budget
  have hunit : s.inFlightSamples = unit.realSamples := by rw [State.inFlightSamples, hpump]
  constructor
  · rw [hstream, haccepted]
    exact h.stream
  · rw [hpending]
    exact h.whole
  · rw [hsamples, haccepted]
    exact h.le
  · rw [hpending, hstream, haccepted, hsamples]
    exact h.pending
  · rw [haccepted, hconsumed, hdiscarded, hsamples, hflight]
    omega
  · rw [haccepted, hconsumed, hdiscarded]
    simp only [bytesPerSample] at hbudget ⊢
    omega
  · rw [htaken, haccepted, hsamples]
    exact h.covers
  · rw [hhanded, haccepted, hsamples]
    exact h.inside
  · rw [hhanded, hstream]
    exact h.carries
  · rw [hclearing, hsamples]
    exact h.clearing
  · exact hended
  · exact hdrained

theorem SamplesKept.processed (h : SamplesKept cfg s) {unit : MediaUnit}
    {receipt : Option MediaUnit} {consumed : Nat} (hpump : s.pump = .processing unit receipt)
    (hle : consumed ≤ unit.realSamples) : SamplesKept cfg (s.processed unit receipt consumed) := by
  have hlast : ∃ units, s.handed = units ++ [unit] ∧ (∀ v ∈ units, v.eos = false) ∧
      (unit.eos = true → s.isInputEnded = true ∧ s.pendingPcm = []) := by
    cases h.ended with
    | waiting hp => cases hpump.symm.trans hp
    | committing hp => cases hpump.symm.trans hp
    | processing hp hh hn he =>
      cases hpump.symm.trans hp
      exact ⟨_, hh, hn, he⟩
    | returned hp => cases hpump.symm.trans hp
  obtain ⟨units, hhanded, hnone, hend⟩ := hlast
  have hundrained : s.drained = none := by
    by_contra hsome
    obtain ⟨r, hr⟩ := Option.ne_none_iff_exists'.mp hsome
    cases hpump.symm.trans (h.drained r hr).1
  have hbalance := h.balance
  have hunit : s.inFlightSamples = unit.realSamples := by rw [State.inFlightSamples, hpump]
  rcases processed_cases s unit receipt consumed with ⟨heos, heq⟩ | ⟨heos, hclose, heq⟩ | ⟨heos, heq⟩
  · rw [heq]
    refine h.finish hpump hle rfl rfl rfl rfl rfl rfl rfl rfl (.waiting rfl (fun _ => rfl) ?_)
      fun r hr => by cases hundrained.symm.trans hr
    intro v hv
    have hv : v ∈ s.handed := hv
    rw [hhanded] at hv
    rcases List.mem_append.mp hv with hv | hv
    · exact hnone v hv
    · rw [List.mem_singleton.mp hv]
      exact heos
  · rw [heq]
    exact h.finish hpump hle rfl rfl rfl rfl rfl rfl rfl rfl
      (.returned rfl hhanded hnone heos (hend heos).1 (.inr hclose))
      fun r hr => by cases hundrained.symm.trans hr
  · rw [heq]
    refine h.finish hpump hle rfl rfl rfl rfl rfl rfl rfl rfl
      (.returned rfl hhanded hnone heos (hend heos).1 (.inl rfl)) fun r hr => ?_
    cases hr
    refine ⟨rfl, ?_⟩
    have hpending : s.pendingSamples = 0 := by
      rw [State.pendingSamples, (hend heos).2]
      exact Nat.zero_div _
    simp only
    omega

theorem SamplesKept.move {a : Action} (h : SamplesKept cfg s) (hmove : Move cfg s a s') :
    SamplesKept cfg s' := by
  cases hmove with
  | append hlock hended hne heven hroom => exact h.accept hlock hended heven hroom
  | image hlock =>
    exact h.frame rfl rfl rfl rfl rfl rfl rfl rfl id (fun _ hn => h.clearing _ hn)
      (h.ended.frame rfl rfl rfl id id rfl id)
  | clearStarts =>
    refine h.frame rfl rfl rfl rfl rfl rfl rfl rfl id (fun n hn => ?_)
      (h.ended.frame rfl rfl rfl id id rfl id)
    cases hn
    rfl
  | clears hclearing => exact h.cleared hclearing
  | commit hlock =>
    exact h.frame rfl rfl rfl rfl rfl rfl rfl rfl id (fun _ hn => h.clearing _ hn)
      (h.ended.frame rfl rfl rfl (fun _ => rfl) id rfl id)
  | ends hlock hended =>
    refine h.frame rfl rfl rfl rfl rfl rfl rfl rfl id (fun _ hn => h.clearing _ hn) ?_
    cases h.ended with
    | waiting hp hr hn => exact .waiting hp (fun _ => rfl) hn
    | committing hp hn => exact .committing hp hn
    | processing hp hh hn he => exact .processing hp hh hn fun heos => ⟨rfl, (he heos).2⟩
    | returned hp hh hn he hend hdone => exact .returned hp hh hn he rfl hdone
  | idles hpump hidle =>
    refine h.frame rfl rfl rfl rfl rfl rfl rfl rfl id (fun _ hn => h.clearing _ hn) ?_
    simp only [State.pumpIdles, Bool.and_eq_true, Bool.not_eq_true'] at hidle
    cases h.ended with
    | waiting hp hr hn =>
      exact .waiting hp (fun he => by cases hidle.1.1.symm.trans he) hn
    | committing hp => cases hpump.symm.trans hp
    | processing hp => cases hpump.symm.trans hp
    | returned hp => cases hpump.symm.trans hp
  | callsCommit hlock hpump =>
    have hflight : s.inFlightSamples = 0 := by rw [State.inFlightSamples, hpump]
    refine h.frame rfl rfl rfl rfl rfl rfl hflight.symm rfl (fun hp => by cases hpump.symm.trans hp)
      (fun _ hn => h.clearing _ hn) ?_
    cases h.ended with
    | waiting hp hr hn => exact .committing rfl hn
    | committing hp => cases hpump.symm.trans hp
    | processing hp => cases hpump.symm.trans hp
    | returned hp => cases hpump.symm.trans hp
  | cuts hlock hpump => exact h.cut hlock hpump
  | processed hpump hle => exact h.processed hpump hle
  | commitReturns hpump =>
    have hflight : s.inFlightSamples = 0 := by rw [State.inFlightSamples, hpump]
    refine h.frame rfl rfl rfl rfl rfl rfl hflight.symm rfl (fun hp => by cases hpump.symm.trans hp)
      (fun _ hn => h.clearing _ hn) ?_
    cases h.ended with
    | waiting hp => cases hpump.symm.trans hp
    | committing hp hn => exact .waiting rfl (fun _ => rfl) hn
    | processing hp => cases hpump.symm.trans hp
    | returned hp => cases hpump.symm.trans hp
  | close =>
    exact h.frame rfl rfl rfl rfl rfl rfl rfl rfl id (fun _ hn => h.clearing _ hn)
      (h.ended.frame rfl rfl rfl id id rfl fun _ => rfl)

theorem samplesKept_of_reaches (h : (runtime cfg).Reaches Machine.anyAction s)
    (hopen : s.isOpen = true) : SamplesKept cfg s := by
  refine h.invariant (P := fun s => s.isOpen = true → SamplesKept cfg s) ?_ ?_ hopen
  · intro _
    have hnone : (runtime cfg).init.pendingSamples = 0 := Nat.zero_div _
    refine ⟨rfl, rfl, hnone.le, ?_, ?_, Nat.zero_le _, ?_, ?_, ?_, ?_, ?_, ?_⟩
    · exact List.drop_nil.symm
    · rw [hnone]
      rfl
    · rw [hnone]
      exact rfl
    · exact fun u hu => by cases hu
    · exact fun u hu => by cases hu
    · exact fun n hn => by cases hn
    · exact .waiting rfl (fun he => by cases he) fun u hu => by cases hu
    · exact fun r hr => by cases hr
  · intro s a s' hs _ hstep hopen'
    obtain ⟨hopen, hmove⟩ := step_move hstep hopen'
    exact (hs hopen).move hmove

/-- How the input ends: only the last unit can have `eos`, and only once the input has ended; what is
drained has it.  Once the input has ended, the pump has work or is at work until it is drained. -/
structure EndsOnce (s : State) : Prop where
  last : ∀ u ∈ s.handed.dropLast, u.eos = false
  ended : ∀ u ∈ s.handed, u.eos = true → s.isInputEnded = true
  drained : s.drained.isSome = true → ∃ u, s.handed.getLast? = some u ∧ u.eos = true
  waits : s.isInputEnded = true → s.pump = .waiting → s.inputReady = true
  returns : s.pump = .returned → s.drained.isSome = true ∨ s.hasCloseTask = true

theorem EndKept.once (h : EndKept s) (hdrained : s.drained.isSome = true → s.pump = .returned) :
    EndsOnce s := by
  cases h with
  | waiting hp hr hn =>
    refine ⟨fun u hu => hn u ((List.dropLast_sublist _).subset hu), fun u hu he => ?_, fun hd => ?_,
      fun he _ => hr he, fun hret => by cases hp.symm.trans hret⟩
    · cases (hn u hu).symm.trans he
    · cases hp.symm.trans (hdrained hd)
  | committing hp hn =>
    refine ⟨fun u hu => hn u ((List.dropLast_sublist _).subset hu), fun u hu he => ?_, fun hd => ?_,
      (fun _ hw => by cases hp.symm.trans hw), fun hret => by cases hp.symm.trans hret⟩
    · cases (hn u hu).symm.trans he
    · cases hp.symm.trans (hdrained hd)
  | processing hp hh hn he =>
    refine ⟨?_, fun u hu heos => ?_, fun hd => ?_,
      (fun _ hw => by cases hp.symm.trans hw), fun hret => by cases hp.symm.trans hret⟩
    · rw [hh, List.dropLast_concat]
      exact hn
    · rw [hh] at hu
      rcases List.mem_append.mp hu with hu | hu
      · cases (hn u hu).symm.trans heos
      · rw [List.mem_singleton.mp hu] at heos
        exact (he heos).1
    · cases hp.symm.trans (hdrained hd)
  | returned hp hh hn he hend hdone =>
    refine ⟨?_, fun _ _ _ => hend, fun _ => ⟨_, ?_, he⟩, (fun _ hw => by cases hp.symm.trans hw),
      fun _ => hdone⟩
    · rw [hh, List.dropLast_concat]
      exact hn
    · rw [hh, List.getLast?_concat]

/-- In every state of an open session: every accepted sample is consumed, discarded, pending or in
flight; what is not consumed or discarded is within the input budget; the units handed to the adapter
and the cleared ranges follow one another through the accepted samples up to the pending ones, and each
unit carries the audio of its range, with no more than a native unit; exactly the last unit after the
end of the input has `eos`, and what is drained was consumed or discarded. -/
theorem samples_accounted (h : (runtime cfg).Reaches Machine.anyAction s) (hopen : s.isOpen = true) :
    s.acceptedSamples =
        s.consumedSamples + s.discardedSamples + s.pendingSamples + s.inFlightSamples ∧
      ((s.acceptedSamples : Int) - s.consumedSamples - s.discardedSamples) * bytesPerSample ≤
        cfg.maxInputBytes ∧
      Covers Taken.start Taken.count 0 s.taken (s.acceptedSamples - s.pendingSamples) ∧
      (∀ u ∈ s.handed, Carries cfg s.stream u) ∧ EndsOnce s ∧
      ∀ r, s.drained = some r → r.accepted = r.consumed + r.discarded := by
  have hkept := samplesKept_of_reaches h hopen
  refine ⟨hkept.balance, ?_, hkept.covers, hkept.carries, hkept.ended.once fun hd => ?_,
    fun r hr => (hkept.drained r hr).2⟩
  · have hbudget := hkept.budget
    simp only [bytesPerSample] at hbudget ⊢
    omega
  · obtain ⟨r, hr⟩ := Option.isSome_iff_exists.mp hd
    exact (hkept.drained r hr).1

/-- A turn-based session with units of four samples that flushes its tail. -/
def turnBased : Config where
  inputSampleRateHz := 1000
  nativeUnitMs := 4
  rate_pos := by decide
  unit_pos := by decide
  whole_samples := by decide
  forwardsPartialUnits := true
  tailPolicy := .flush
  hasImageInput := true
  maxImageBytes := 1024
  maxFramesPerUnit := 1
  clientCommit := true
  maxInputBytes := 64

/-- A piece of the first unit, a clear as the adapter processes it, and the rest of the input. -/
def clearedPieceRun : List Action :=
  [.append [1, 0, 2, 0] 0 none true, .pumpTurn, .append [3, 0] 1 none true, .clearStarts,
    .clearEnds true true, .processReturns 1 true true, .append [4, 0] 2 none true, .endInput true,
    .pumpTurn, .processReturns 1 true true]

theorem samples_accounted_cleared_piece : ∃ s, (runtime turnBased).Reaches Machine.anyAction s ∧
    s.isOpen = true ∧ (s.acceptedSamples, s.consumedSamples, s.discardedSamples,
      s.drained.isSome) = (4, 2, 2, true) ∧
    s.acceptedSamples =
        s.consumedSamples + s.discardedSamples + s.pendingSamples + s.inFlightSamples ∧
      ((s.acceptedSamples : Int) - s.consumedSamples - s.discardedSamples) * bytesPerSample ≤
        turnBased.maxInputBytes ∧
      Covers Taken.start Taken.count 0 s.taken (s.acceptedSamples - s.pendingSamples) ∧
      (∀ u ∈ s.handed, Carries turnBased s.stream u) ∧ EndsOnce s ∧
      ∀ r, s.drained = some r → r.accepted = r.consumed + r.discarded := by
  have hrun : ((runtime turnBased).exec {} clearedPieceRun).map (fun s =>
      (s.isOpen, s.acceptedSamples, s.consumedSamples, s.discardedSamples, s.drained.isSome)) =
      some (true, 4, 2, 2, true) := by
    decide +kernel
  obtain ⟨s, hs, hobs⟩ := Option.map_eq_some_iff.mp hrun
  obtain ⟨hopen, hobs⟩ := Prod.mk.inj hobs
  have hreach : (runtime turnBased).Reaches Machine.anyAction s := Machine.path_of_exec hs
  exact ⟨s, hreach, hopen, hobs, samples_accounted hreach hopen⟩

end Realtime
