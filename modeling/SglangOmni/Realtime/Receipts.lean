import SglangOmni.Realtime.Pieces

/-! The receipts of an open session.  A unit is handed to the adapter in one or more pieces, and the
piece that ends it, a commit behind it, the end of the input or a clear produces its receipt.  The
receipts that reach the output buffer before the session closes are those of unit 0, 1, 2, … in order,
each with the range of the pieces of its unit. -/

namespace Realtime

open Lib

variable {cfg : Config} {s s' : State}

/-! ### Units of pieces -/

structure UnitsKept (handed receipts : List MediaUnit) (next start samples : Nat) : Prop where
  indices : receipts.map MediaUnit.index = List.range next
  covers : ∀ r ∈ receipts, Covers MediaUnit.startSample MediaUnit.realSamples r.startSample
    (handed.filter fun u => u.index = r.index) (r.startSample + r.realSamples)
  sorted : receipts.Pairwise fun r r' => r.startSample + r.realSamples ≤ r'.startSample
  below : ∀ r ∈ receipts, r.startSample + r.realSamples ≤ start
  current : Covers MediaUnit.startSample MediaUnit.realSamples start
    (handed.filter fun u => u.index = next) (start + samples)

namespace UnitsKept

variable {handed receipts : List MediaUnit} {next start samples : Nat} {u r : MediaUnit}

theorem index_lt (h : UnitsKept handed receipts next start samples) (hr : r ∈ receipts) :
    r.index < next := by
  have hmem := List.mem_map_of_mem (f := MediaUnit.index) hr
  rw [h.indices] at hmem
  exact List.mem_range.mp hmem

theorem hand (h : UnitsKept handed receipts next start samples) (hindex : u.index = next)
    (hstart : u.startSample = start + samples) :
    UnitsKept (handed ++ [u]) receipts next start (samples + u.realSamples) := by
  refine ⟨h.indices, fun r hr => ?_, h.sorted, h.below, ?_⟩
  · have hne : u.index ≠ r.index := by
      have hlt := h.index_lt hr
      omega
    rw [List.filter_append, List.filter_singleton, decide_eq_false hne, cond_false, List.append_nil]
    exact h.covers r hr
  · rw [List.filter_append, List.filter_singleton, decide_eq_true hindex, cond_true, ← Nat.add_assoc]
    exact h.current.concat hstart

theorem close (h : UnitsKept handed receipts next start samples) {start' : Nat}
    (hbounded : ∀ u ∈ handed, u.index ≤ next) (hindex : r.index = next)
    (hstart : r.startSample = start) (hsamples : r.realSamples = samples)
    (hle : start + samples ≤ start') : UnitsKept handed (receipts ++ [r]) (next + 1) start' 0 := by
  refine ⟨?_, fun q hq => ?_, ?_, fun q hq => ?_, ?_⟩
  · rw [List.map_append, h.indices, List.range_succ]
    exact congrArg (fun i => List.range next ++ [i]) hindex
  · rcases List.mem_append.mp hq with hq | hq
    · exact h.covers q hq
    · rw [List.mem_singleton.mp hq, hindex, hstart, hsamples]
      exact h.current
  · refine List.pairwise_append.mpr ⟨h.sorted, List.pairwise_singleton _ _, fun q hq q' hq' => ?_⟩
    rw [List.mem_singleton.mp hq', hstart]
    exact h.below q hq
  · rcases List.mem_append.mp hq with hq | hq
    · exact ((h.below q hq).trans (Nat.le_add_right _ _)).trans hle
    · rw [List.mem_singleton.mp hq, hstart, hsamples]
      exact hle
  · have hnone : handed.filter (fun u => u.index = next + 1) = [] := by
      refine List.filter_eq_nil_iff.mpr fun v hv he => ?_
      have hle := hbounded v hv
      have heq := of_decide_eq_true he
      omega
    rw [hnone]
    exact rfl

theorem skip (h : UnitsKept handed receipts next start samples) {start' : Nat}
    (hnone : ∀ u ∈ handed, u.index ≠ next) (hle : start ≤ start') :
    UnitsKept handed receipts next start' 0 := by
  refine ⟨h.indices, h.covers, h.sorted, fun r hr => (h.below r hr).trans hle, ?_⟩
  have hnil : handed.filter (fun u => u.index = next) = [] :=
    List.filter_eq_nil_iff.mpr fun v hv he => hnone v hv (of_decide_eq_true he)
  rw [hnil]
  exact rfl

end UnitsKept

/-! ### The receipts of a session -/

def State.waitingReceipts (s : State) : List MediaUnit :=
  match s.pump with
  | .processing _ receipt => (receipt.or s.clearedUnitReceipt).toList
  | _ => []

/-- The pump, the unit in flight and its receipt: no second one is made before the first is put on the
output buffer. -/
inductive FlightKept (s : State) : Prop
  | waiting (hpump : s.pump = .waiting) (hflight : s.isUnitInFlight = false)
    (hcleared : s.clearedUnitReceipt = none)
  | returned (hpump : s.pump = .returned) (hflight : s.isUnitInFlight = false)
    (hcleared : s.clearedUnitReceipt = none)
  | committing (hpump : s.pump = .committing) (hcleared : s.clearedUnitReceipt = none)
    (hwhole : s.openUnitSamples = 0)
  | ends {unit receipt : MediaUnit} (hpump : s.pump = .processing unit (some receipt))
    (hcleared : s.clearedUnitReceipt = none) (hwhole : s.openUnitSamples = 0)
  | piece {unit : MediaUnit} (hpump : s.pump = .processing unit none)
    (hflight : s.isUnitInFlight = true)
    (hcleared : s.clearedUnitReceipt = none ∨ s.openUnitSamples = 0)

/-- What is known of the units of an open session that is not closing. -/
structure ReceiptsKept (s : State) : Prop where
  units : UnitsKept s.handed (s.completed ++ s.waitingReceipts) s.nextUnitIndex s.unitStartSample
    s.openUnitSamples
  frontier : s.unitStartSample + s.openUnitSamples = s.acceptedSamples - s.pendingSamples
  flight : FlightKept s

theorem unitStartSample_whole (hwhole : s.openUnitSamples = 0) :
    s.unitStartSample = s.acceptedSamples - s.pendingSamples := by
  rw [State.unitStartSample, if_neg (not_not.mpr hwhole)]

theorem unitStartSample_open (hopen : s.openUnitSamples ≠ 0) :
    s.unitStartSample = s.openUnitStartSample := by
  rw [State.unitStartSample, if_pos hopen]

theorem ReceiptsKept.frame (h : ReceiptsKept s) (htaken : s'.taken = s.taken)
    (hcompleted : s'.completed = s.completed) (hnext : s'.nextUnitIndex = s.nextUnitIndex)
    (hsamples : s'.openUnitSamples = s.openUnitSamples)
    (hstart : s'.openUnitStartSample = s.openUnitStartSample)
    (hfrontier : s'.acceptedSamples - s'.pendingSamples = s.acceptedSamples - s.pendingSamples)
    (hcleared : s'.clearedUnitReceipt = s.clearedUnitReceipt)
    (hflight : s'.isUnitInFlight = s.isUnitInFlight) (hpump : s'.pump = s.pump) :
    ReceiptsKept s' := by
  have hhanded : s'.handed = s.handed := by rw [State.handed, htaken, State.handed]
  have hwaiting : s'.waitingReceipts = s.waitingReceipts := by
    rw [State.waitingReceipts, hpump, hcleared, State.waitingReceipts]
  have hunit : s'.unitStartSample = s.unitStartSample := by
    rw [State.unitStartSample, hsamples, hstart, hfrontier, State.unitStartSample]
  constructor
  · rw [hhanded, hcompleted, hwaiting, hnext, hunit, hsamples]
    exact h.units
  · rw [hunit, hsamples, hfrontier]
    exact h.frontier
  · cases h.flight with
    | waiting hp hf hc => exact .waiting (hpump.trans hp) (hflight.trans hf) (hcleared.trans hc)
    | returned hp hf hc => exact .returned (hpump.trans hp) (hflight.trans hf) (hcleared.trans hc)
    | committing hp hc hw => exact .committing (hpump.trans hp) (hcleared.trans hc) (hsamples.trans hw)
    | ends hp hc hw => exact .ends (hpump.trans hp) (hcleared.trans hc) (hsamples.trans hw)
    | piece hp hf hc =>
      refine .piece (hpump.trans hp) (hflight.trans hf) ?_
      rw [hcleared, hsamples]
      exact hc

theorem ReceiptsKept.accept (h : ReceiptsKept s) (hsamples : SamplesKept cfg s)
    {pcm : List UInt8} (heven : pcm.length % bytesPerSample = 0) : ReceiptsKept (s.accept pcm) := by
  refine h.frame rfl rfl rfl rfl rfl ?_ rfl rfl rfl
  have hwhole := hsamples.whole
  have hle := hsamples.le
  simp only [State.accept, State.pendingSamples, bytesPerSample, List.length_append] at *
  omega

/-! ### The pump -/

theorem frontier_after_cut (cfg : Config) (hsamples : SamplesKept cfg s) :
    (s.noted.cutNextUnit cfg).acceptedSamples - (s.noted.cutNextUnit cfg).pendingSamples =
      s.acceptedSamples - s.pendingSamples + (s.nextUnit cfg).realSamples := by
  obtain ⟨index, samples, start, receipt, heq⟩ := cutNextUnit_eq cfg s.noted
  obtain ⟨hpending, -⟩ := unitPcmBytes_le cfg s
  have heven := unitPcmBytes_even cfg hsamples.whole
  have hwhole := hsamples.whole
  have hle := hsamples.le
  have hreal : (s.nextUnit cfg).realSamples = s.unitPcmBytes cfg / bytesPerSample := rfl
  rw [heq, hreal]
  show s.acceptedSamples - (s.pendingPcm.drop (s.unitPcmBytes cfg)).length / bytesPerSample = _
  simp only [State.pendingSamples, List.length_drop, bytesPerSample] at *
  omega

theorem waitingReceipts_waiting (hpump : s.pump = .waiting) : s.waitingReceipts = [] := by
  rw [State.waitingReceipts, hpump]

theorem UnitsKept.cut (cfg : Config) (h : ReceiptsKept s) (hpump : s.pump = .waiting) :
    UnitsKept (s.handed ++ [s.nextUnit cfg]) s.completed s.nextUnitIndex s.unitStartSample
      (s.unitSamples cfg) := by
  have hunits := h.units
  rw [waitingReceipts_waiting hpump, List.append_nil] at hunits
  exact hunits.hand rfl h.frontier.symm

theorem ReceiptsKept.cut (h : ReceiptsKept s) (hsamples : SamplesKept cfg s)
    (hpieces : PiecesKept cfg s) (hpump : s.pump = .waiting) (hidle : s.pumpIdles cfg = false) :
    ReceiptsKept (s.noted.cutNextUnit cfg) := by
  have hfrontier := h.frontier
  have hcut := UnitsKept.cut cfg h hpump
  have hafter := frontier_after_cut cfg hsamples
  have hhanded := handed_cut cfg s
  have hbounded : ∀ u ∈ s.handed ++ [s.nextUnit cfg], u.index ≤ s.nextUnitIndex := by
    intro u hu
    rcases List.mem_append.mp hu with hu | hu
    · exact hpieces.bounded u hu
    · rw [List.mem_singleton.mp hu]
      exact Nat.le_refl _
  have hcleared : s.clearedUnitReceipt = none := by
    cases h.flight with
    | waiting _ _ hc => exact hc
    | returned hp => cases hpump.symm.trans hp
    | committing hp => cases hpump.symm.trans hp
    | ends hp => cases hpump.symm.trans hp
    | piece hp => cases hpump.symm.trans hp
  have hsum : s.unitSamples cfg = s.openUnitSamples + (s.nextUnit cfg).realSamples := rfl
  by_cases hends : s.endsUnit cfg = true
  · have heq := cutNextUnit_ends hends
    have hstart : (s.noted.cutNextUnit cfg).unitStartSample =
        s.acceptedSamples - s.pendingSamples + (s.nextUnit cfg).realSamples := by
      rw [unitStartSample_whole (by rw [heq]), hafter]
    refine ⟨?_, ?_, ?_⟩
    · rw [hhanded, hstart, heq]
      exact hcut.close hbounded rfl rfl rfl (by omega)
    · rw [hstart, hafter, heq]
      rfl
    · rw [heq]
      exact .ends rfl hcleared rfl
  · have heq := cutNextUnit_open hends
    obtain ⟨hpos, -⟩ := hpieces.unitSamples_open hsamples hidle hends
    have hstart : (s.noted.cutNextUnit cfg).unitStartSample = s.unitStartSample := by
      rw [unitStartSample_open (by rw [heq]; exact hpos), heq]
    have hwaiting : (s.noted.cutNextUnit cfg).waitingReceipts = [] := by
      rw [heq]
      show (none.or s.clearedUnitReceipt).toList = []
      rw [hcleared]
      rfl
    have hopen : (s.noted.cutNextUnit cfg).openUnitSamples = s.unitSamples cfg := by rw [heq]
    refine ⟨?_, ?_, ?_⟩
    · rw [hhanded, hstart, hwaiting, List.append_nil, hopen, heq]
      exact hcut
    · rw [hstart, hopen, hafter]
      omega
    · rw [heq]
      exact .piece rfl rfl (.inl hcleared)

/-! ### Clears and the adapter -/

theorem frontier_after_clear (s : State) (clearedSamples : Nat) :
    (s.cleared clearedSamples).acceptedSamples - (s.cleared clearedSamples).pendingSamples =
      s.acceptedSamples := by
  obtain ⟨index, samples, receipt, completed, heq⟩ := cleared_eq s clearedSamples
  rw [heq]
  show s.acceptedSamples - 0 / bytesPerSample = s.acceptedSamples
  rw [Nat.zero_div, Nat.sub_zero]

theorem ReceiptsKept.endOpenUnit (h : ReceiptsKept s) (hpieces : PiecesKept cfg s)
    (hopen : s.openUnitSamples ≠ 0)
    (hhanded : s'.handed = s.handed)
    (hreceipts : s'.completed ++ s'.waitingReceipts =
      (s.completed ++ s.waitingReceipts) ++ [s.openReceipt])
    (hnext : s'.nextUnitIndex = s.nextUnitIndex + 1) (hwhole : s'.openUnitSamples = 0)
    (hfrontier : s'.acceptedSamples - s'.pendingSamples = s.acceptedSamples)
    (hflight : FlightKept s') : ReceiptsKept s' := by
  have hle := h.frontier
  have hstart : s'.unitStartSample = s.acceptedSamples := by
    rw [unitStartSample_whole hwhole, hfrontier]
  refine ⟨?_, ?_, hflight⟩
  · rw [hhanded, hreceipts, hnext, hstart, hwhole]
    exact h.units.close hpieces.bounded rfl (unitStartSample_open hopen).symm rfl (by omega)
  · rw [hstart, hwhole, hfrontier]
    rfl

theorem ReceiptsKept.skip (h : ReceiptsKept s) (hpieces : PiecesKept cfg s)
    (hwhole : s.openUnitSamples = 0)
    (hhanded : s'.handed = s.handed) (hcompleted : s'.completed = s.completed)
    (hwaiting : s'.waitingReceipts = s.waitingReceipts) (hnext : s'.nextUnitIndex = s.nextUnitIndex)
    (hsamples : s'.openUnitSamples = 0)
    (hfrontier : s'.acceptedSamples - s'.pendingSamples = s.acceptedSamples)
    (hflight : FlightKept s') : ReceiptsKept s' := by
  have hle := h.frontier
  have hstart : s'.unitStartSample = s.acceptedSamples := by
    rw [unitStartSample_whole hsamples, hfrontier]
  refine ⟨?_, ?_, hflight⟩
  · rw [hhanded, hcompleted, hwaiting, hnext, hstart, hsamples]
    exact h.units.skip (hpieces.fresh hwhole) (by omega)
  · rw [hstart, hsamples, hfrontier]
    rfl

theorem ReceiptsKept.cleared (h : ReceiptsKept s) (hpieces : PiecesKept cfg s)
    (clearedSamples : Nat) : ReceiptsKept (s.cleared clearedSamples) := by
  have hhanded := handed_after_clear s clearedSamples
  have hfrontier := frontier_after_clear s clearedSamples
  by_cases hwhole : s.openUnitSamples = 0
  · have heq : s.cleared clearedSamples =
        { s.dropPending with discardedSamples := s.discardedSamples + clearedSamples } := by
      unfold State.cleared State.endOpenUnit
      rw [if_pos (show s.dropPending.openUnitSamples = 0 from hwhole)]
    rw [heq] at hhanded hfrontier ⊢
    refine h.skip hpieces hwhole hhanded rfl rfl rfl hwhole hfrontier ?_
    cases h.flight with
    | waiting hp hf hc => exact .waiting hp hf hc
    | returned hp hf hc => exact .returned hp hf hc
    | committing hp hc hw => exact .committing hp hc hw
    | ends hp hc hw => exact .ends hp hc hw
    | piece hp hf hc => exact .piece hp hf hc
  · have hopen : ¬ s.dropPending.openUnitSamples = 0 := hwhole
    by_cases hflight : s.isUnitInFlight = true
    · have heq : s.cleared clearedSamples = { s.dropPending with
          nextUnitIndex := s.nextUnitIndex + 1
          openUnitSamples := 0
          clearedUnitReceipt := some s.openReceipt
          discardedSamples := s.discardedSamples + clearedSamples } := by
        unfold State.cleared State.endOpenUnit
        rw [if_neg hopen]
        simp only
        rw [if_pos (show s.dropPending.isUnitInFlight = true from hflight)]
        rfl
      rw [heq] at hhanded hfrontier ⊢
      cases h.flight with
      | waiting _ hf => cases hf.symm.trans hflight
      | returned _ hf => cases hf.symm.trans hflight
      | committing _ _ hw => exact absurd hw hwhole
      | ends _ _ hw => exact absurd hw hwhole
      | piece hp hf hc =>
        have hcleared := hc.resolve_right hwhole
        refine h.endOpenUnit hpieces hwhole hhanded ?_ rfl rfl hfrontier (.piece hp hf (.inr rfl))
        have hwaiting : s.waitingReceipts = [] := by
          rw [State.waitingReceipts, hp, hcleared]
          rfl
        rw [hwaiting, List.append_nil]
        simp only [State.waitingReceipts, State.dropPending, hp]
        rfl
    · have heq : s.cleared clearedSamples = { s.dropPending with
          nextUnitIndex := s.nextUnitIndex + 1
          openUnitSamples := 0
          completed := s.completed ++ [s.openReceipt]
          discardedSamples := s.discardedSamples + clearedSamples } := by
        unfold State.cleared State.endOpenUnit
        rw [if_neg hopen]
        simp only
        rw [if_neg (show ¬ s.dropPending.isUnitInFlight = true from hflight)]
        rfl
      rw [heq] at hhanded hfrontier ⊢
      cases h.flight with
      | waiting hp hf hc =>
        refine h.endOpenUnit hpieces hwhole hhanded ?_ rfl rfl hfrontier (.waiting hp hf hc)
        simp only [State.waitingReceipts, State.dropPending, hp, List.append_nil]
      | returned hp hf hc =>
        refine h.endOpenUnit hpieces hwhole hhanded ?_ rfl rfl hfrontier (.returned hp hf hc)
        simp only [State.waitingReceipts, State.dropPending, hp, List.append_nil]
      | committing _ _ hw => exact absurd hw hwhole
      | ends _ _ hw => exact absurd hw hwhole
      | piece _ hf => exact absurd hf hflight

theorem ReceiptsKept.deliver (h : ReceiptsKept s) (htaken : s'.taken = s.taken)
    (hcompleted : s'.completed = s.completed ++ s.waitingReceipts)
    (hnext : s'.nextUnitIndex = s.nextUnitIndex) (hsamples : s'.openUnitSamples = s.openUnitSamples)
    (hstart : s'.openUnitStartSample = s.openUnitStartSample)
    (hfrontier : s'.acceptedSamples - s'.pendingSamples = s.acceptedSamples - s.pendingSamples)
    (hwaiting : s'.waitingReceipts = []) (hflight : FlightKept s') : ReceiptsKept s' := by
  have hhanded : s'.handed = s.handed := by rw [State.handed, htaken, State.handed]
  have hunit : s'.unitStartSample = s.unitStartSample := by
    rw [State.unitStartSample, hsamples, hstart, hfrontier, State.unitStartSample]
  refine ⟨?_, ?_, hflight⟩
  · rw [hhanded, hcompleted, hwaiting, List.append_nil, hnext, hunit, hsamples]
    exact h.units
  · rw [hunit, hsamples, hfrontier]
    exact h.frontier

theorem ReceiptsKept.processed (h : ReceiptsKept s) {unit : MediaUnit}
    {receipt : Option MediaUnit} {consumed : Nat} (hpump : s.pump = .processing unit receipt)
    (hclose : s.hasCloseTask = false) : ReceiptsKept (s.processed unit receipt consumed) := by
  have hdue : (s.dueReceipt receipt).toList = s.waitingReceipts := by
    rw [State.dueReceipt, hclose, if_neg Bool.false_ne_true, State.waitingReceipts, hpump]
  have hcompleted : s.completed ++ (s.dueReceipt receipt).toList =
      s.completed ++ s.waitingReceipts := by rw [hdue]
  rcases processed_cases s unit receipt consumed with ⟨-, heq⟩ | ⟨-, -, heq⟩ | ⟨-, heq⟩
  · rw [heq]
    exact h.deliver rfl hcompleted rfl rfl rfl rfl rfl (.waiting rfl rfl rfl)
  · rw [heq]
    exact h.deliver rfl hcompleted rfl rfl rfl rfl rfl (.returned rfl rfl rfl)
  · rw [heq]
    exact h.deliver rfl hcompleted rfl rfl rfl rfl rfl (.returned rfl rfl rfl)

theorem ReceiptsKept.move {a : Action} (h : ReceiptsKept s) (hsamples : SamplesKept cfg s)
    (hpieces : PiecesKept cfg s) (hclose : s.hasCloseTask = false) (hmove : Move cfg s a s') : ReceiptsKept s' := by
  cases hmove with
  | append _ _ _ heven => exact h.accept hsamples heven
  | image => exact h.frame rfl rfl rfl rfl rfl rfl rfl rfl rfl
  | clearStarts => exact h.frame rfl rfl rfl rfl rfl rfl rfl rfl rfl
  | clears => exact h.cleared hpieces _
  | commit => exact h.frame rfl rfl rfl rfl rfl rfl rfl rfl rfl
  | ends => exact h.frame rfl rfl rfl rfl rfl rfl rfl rfl rfl
  | idles => exact h.frame rfl rfl rfl rfl rfl rfl rfl rfl rfl
  | callsCommit _ hpump _ _ hwhole =>
    have hnone := waitingReceipts_waiting hpump
    refine h.deliver rfl (by rw [hnone, List.append_nil]; rfl) rfl rfl rfl rfl rfl ?_
    cases h.flight with
    | waiting _ _ hc => exact .committing rfl hc hwhole
    | returned hp => cases hpump.symm.trans hp
    | committing hp => cases hpump.symm.trans hp
    | ends hp => cases hpump.symm.trans hp
    | piece hp => cases hpump.symm.trans hp
  | cuts _ hpump hidle => exact h.cut hsamples hpieces hpump hidle
  | processed hpump => exact h.processed hpump hclose
  | commitReturns hpump =>
    have hnone : s.waitingReceipts = [] := by rw [State.waitingReceipts, hpump]
    refine h.deliver rfl (by rw [hnone, List.append_nil]) rfl rfl rfl rfl rfl ?_
    cases h.flight with
    | waiting hp => cases hpump.symm.trans hp
    | returned hp => cases hpump.symm.trans hp
    | committing _ hc => exact .waiting rfl rfl hc
    | ends hp => cases hpump.symm.trans hp
    | piece hp => cases hpump.symm.trans hp
  | close => exact h.frame rfl rfl rfl rfl rfl rfl rfl rfl rfl

theorem Move.not_closing {a : Action} (hmove : Move cfg s a s') (hclose : s'.hasCloseTask = false) :
    s.hasCloseTask = false := by
  cases hmove with
  | @clears _ _ clearedSamples =>
    obtain ⟨index, samples, receipt, completed, heq⟩ := cleared_eq s clearedSamples
    rw [heq] at hclose
    exact hclose
  | cuts =>
    obtain ⟨index, samples, start, receipt, heq⟩ := cutNextUnit_eq cfg s.noted
    rw [heq] at hclose
    exact hclose
  | @processed consumed _ _ unit receipt =>
    rcases processed_cases s unit receipt consumed with ⟨-, heq⟩ | ⟨-, -, heq⟩ | ⟨-, heq⟩
    · rw [heq] at hclose
      exact hclose
    · rw [heq] at hclose
      exact hclose
    · rw [heq] at hclose
      exact hclose
  | close => cases hclose
  | _ => exact hclose

theorem receiptsKept_of_reaches (h : (runtime cfg).Reaches Machine.anyAction s)
    (hopen : s.isOpen = true) (hclose : s.hasCloseTask = false) : ReceiptsKept s := by
  refine (h.invariant (P := fun s => s.isOpen = true → s.hasCloseTask = false →
    (SamplesKept cfg s ∧ PiecesKept cfg s) ∧ ReceiptsKept s) ?_ ?_ hopen hclose).2
  · intro hinit _
    refine ⟨⟨samplesKept_of_reaches (Machine.Path.refl _) hinit, piecesKept_init cfg⟩,
      ⟨rfl, fun r hr => ?_, .nil, fun r hr => ?_, rfl⟩, ?_, .waiting rfl rfl rfl⟩
    · cases hr
    · cases hr
    · exact Nat.add_zero _
  · intro s a s' hs _ hstep hopen' hclose'
    obtain ⟨hopen, hmove⟩ := step_move hstep hopen'
    have hclose := hmove.not_closing hclose'
    obtain ⟨⟨hsamples, hpieces⟩, hreceipts⟩ := hs hopen hclose
    exact ⟨⟨hsamples.move hmove, hpieces.move hsamples hmove⟩,
      hreceipts.move hsamples hpieces hclose hmove⟩

/-- The receipts on the output buffer of an open session that is not closing are those of unit 0, 1,
2, … in order, with ranges that follow one another; the pieces that were handed over under the index of
a receipt cover its range from its start to its end. -/
theorem receipts_in_order (h : (runtime cfg).Reaches Machine.anyAction s) (hopen : s.isOpen = true)
    (hclose : s.hasCloseTask = false) :
    s.completed.map MediaUnit.index = List.range s.completed.length ∧
      s.completed.Pairwise (fun r r' => r.startSample + r.realSamples ≤ r'.startSample) ∧
      ∀ r ∈ s.completed, Covers MediaUnit.startSample MediaUnit.realSamples r.startSample
        (s.handed.filter fun u => u.index = r.index) (r.startSample + r.realSamples) := by
  have hunits := (receiptsKept_of_reaches h hopen hclose).units
  refine ⟨?_, (List.pairwise_append.mp hunits.sorted).1,
    fun r hr => hunits.covers r (List.mem_append_left _ hr)⟩
  have hlength := congrArg List.length hunits.indices
  have htake := congrArg (List.take s.completed.length) hunits.indices
  rw [List.length_map, List.length_append, List.length_range] at hlength
  rw [List.map_append, List.take_left' (List.length_map _), List.take_range] at htake
  rw [htake, Nat.min_eq_left (by omega)]

/-- A piece of the first unit that a clear ends as the adapter processes it, then the rest. -/
theorem receipts_in_order_cleared_piece : ∃ s, (runtime turnBased).Reaches Machine.anyAction s ∧
    s.isOpen = true ∧ s.hasCloseTask = false ∧
    s.completed.map (fun r => (r.index, r.startSample, r.realSamples)) = [(0, 0, 2), (1, 3, 1)] ∧
    s.completed.map MediaUnit.index = List.range s.completed.length ∧
      s.completed.Pairwise (fun r r' => r.startSample + r.realSamples ≤ r'.startSample) ∧
      ∀ r ∈ s.completed, Covers MediaUnit.startSample MediaUnit.realSamples r.startSample
        (s.handed.filter fun u => u.index = r.index) (r.startSample + r.realSamples) := by
  have hrun : ((runtime turnBased).exec {} clearedPieceRun).map (fun s =>
      (s.isOpen, s.hasCloseTask,
        s.completed.map fun r => (r.index, r.startSample, r.realSamples))) =
      some (true, false, [(0, 0, 2), (1, 3, 1)]) := by
    decide +kernel
  obtain ⟨s, hs, hobs⟩ := Option.map_eq_some_iff.mp hrun
  obtain ⟨hopen, hobs⟩ := Prod.mk.inj hobs
  obtain ⟨hclose, hobs⟩ := Prod.mk.inj hobs
  have hreach : (runtime turnBased).Reaches Machine.anyAction s := Machine.path_of_exec hs
  exact ⟨s, hreach, hopen, hclose, hobs, receipts_in_order hreach hopen hclose⟩

end Realtime
