import SglangOmni.Proto.Msgpack
import SglangOmni.Route.Moves

/-! The budgets of a session: what `pending_count`, `pending_bytes` and `output_bytes` count.
`budgets_kept` says that they count exactly the chunks that the session holds, and exactly when a
closed session counts nothing: where the cleanup that gave up on the pump left nothing pending. -/

namespace Route

open Lib Proto Session

variable {cfg : Config} {s s' : State}

/-- The accepted chunks that are not over: the one that the pump took, and the pending ones. -/
def State.unfinished (s : State) : List PendingChunk := s.pump.held.toList ++ s.pending

def encodedBytes (chunks : List PendingChunk) : Nat := (chunks.map PendingChunk.encodedBytes).sum

structure BudgetsKept (cfg : Config) (s : State) : Prop where
  count : s.pendingCount = s.unfinished.length
  bytes : s.pendingBytes = encodedBytes s.unfinished
  outputs : s.outputBytes = budget s.outputs + budget s.pacer.items + budget s.pacer.unsent
  nonneg : 0 ≤ s.pendingCount ∧ 0 ≤ s.pendingBytes ∧ 0 ≤ s.outputBytes
  count_le : s.pendingCount ≤ cfg.limits.maxPendingChunks
  bytes_le : s.pendingBytes ≤ cfg.limits.maxPendingBytes
  outputs_le : s.outputBytes ≤ cfg.limits.maxOutputBytes
  closed : s.isClosed = true → s.pendingCount = 0 ∧ s.pendingBytes = 0 ∧ s.outputBytes = 0

def nothingLeft (s : State) (a : Action) : Prop := a = .failCleanup → s.pending = []

@[simp] theorem encodedBytes_nil : encodedBytes [] = 0 := rfl

@[simp] theorem encodedBytes_cons (p : PendingChunk) (rest : List PendingChunk) :
    encodedBytes (p :: rest) = p.encodedBytes + encodedBytes rest := by
  simp [encodedBytes]

@[simp] theorem encodedBytes_append (first second : List PendingChunk) :
    encodedBytes (first ++ second) = encodedBytes first + encodedBytes second := by
  simp [encodedBytes]

theorem encodedBytes_filter_le (keep : PendingChunk → Bool) (chunks : List PendingChunk) :
    encodedBytes (chunks.filter keep) ≤ encodedBytes chunks := by
  induction chunks with
  | nil => exact le_rfl
  | cons p rest ih =>
    by_cases hp : keep p
    · rw [List.filter_cons_of_pos hp, encodedBytes_cons, encodedBytes_cons]
      omega
    · rw [List.filter_cons_of_neg hp, encodedBytes_cons]
      omega

/-! ### Inputs -/

/-- What `pending_count` and `pending_bytes` count. -/
structure InputsKept (cfg : Config) (s : State) : Prop where
  count : s.pendingCount = s.unfinished.length
  bytes : s.pendingBytes = encodedBytes s.unfinished
  count_le : s.pendingCount ≤ cfg.limits.maxPendingChunks
  bytes_le : s.pendingBytes ≤ cfg.limits.maxPendingBytes

theorem InputsKept.accept (h : InputsKept cfg s) {p : PendingChunk}
    (hroom : s.hasRoom cfg p.encodedBytes = true) : InputsKept cfg (s.accept p) := by
  simp only [State.hasRoom, Bool.and_eq_true, decide_eq_true_eq] at hroom
  have hcount := h.count
  have hbytes := h.bytes
  constructor
  · simp only [State.unfinished, State.accept, List.length_append, List.length_singleton]
      at hcount ⊢
    omega
  · simp only [State.unfinished, State.accept, encodedBytes_append, encodedBytes_cons,
      encodedBytes_nil] at hbytes ⊢
    omega
  · simp only [State.accept]
    omega
  · exact hroom.2

theorem InputsKept.take (h : InputsKept cfg s) {p : PendingChunk} {rest : List PendingChunk}
    (hpump : s.pump = .ready) (hpending : s.pending = p :: rest) : InputsKept cfg (s.take p rest) := by
  have hsame : (s.take p rest).unfinished = s.unfinished := by
    simp only [State.unfinished, State.take, hpump, hpending]
    rfl
  refine ⟨?_, ?_, h.count_le, h.bytes_le⟩
  · rw [hsame]
    exact h.count
  · rw [hsame]
    exact h.bytes

theorem InputsKept.release (h : InputsKept cfg s) {p : PendingChunk} {pump : Pump}
    (hheld : s.pump.held = some p) (hnext : pump.held = none) :
    InputsKept cfg (s.release p pump) := by
  have hcount := h.count
  have hbytes := h.bytes
  have hcount_le := h.count_le
  have hbytes_le := h.bytes_le
  simp only [State.unfinished, hheld, Option.toList_some, List.cons_append, List.nil_append,
    List.length_cons, encodedBytes_cons] at hcount hbytes
  constructor <;>
    simp only [State.unfinished, State.release, hnext, Option.toList_none, List.nil_append] <;> omega

theorem InputsKept.keep (h : InputsKept cfg s) (kept : PendingChunk → Bool) :
    InputsKept cfg (s.keep kept) := by
  have hcount := h.count
  have hbytes := h.bytes
  have hcount_le := h.count_le
  have hbytes_le := h.bytes_le
  have hlength := List.length_filter_le kept s.pending
  have hsize := encodedBytes_filter_le kept s.pending
  simp only [State.unfinished, List.length_append, encodedBytes_append] at hcount hbytes
  constructor
  · simp only [State.unfinished, State.keep, List.length_append]
    omega
  · simp only [State.unfinished, State.keep, encodedBytes_append]
    simp only [encodedBytes] at hbytes ⊢
    omega
  · simp only [State.keep]
    omega
  · simp only [State.keep]
    simp only [encodedBytes] at hsize
    omega

theorem InputsKept.dropPending (hheld : s.pump.held = none) : InputsKept cfg s.dropPending := by
  constructor
  · simp [State.dropPending, State.unfinished, hheld]
  · simp [State.dropPending, State.unfinished, hheld]
  · exact Int.natCast_nonneg _
  · exact Int.natCast_nonneg _

theorem InputsKept.setPump (h : InputsKept cfg s) {pump : Pump} (hheld : pump.held = s.pump.held) :
    InputsKept cfg { s with pump := pump } := by
  have hsame : ({ s with pump := pump } : State).unfinished = s.unfinished := by
    simp only [State.unfinished, hheld]
  refine ⟨?_, ?_, h.count_le, h.bytes_le⟩
  · rw [hsame]
    exact h.count
  · rw [hsame]
    exact h.bytes

theorem InputsKept.move {a : Action} (h : InputsKept cfg s)
    (hopening : s.isOpening = true → s.pump = .unstarted) (hmove : Move cfg s a s') :
    InputsKept cfg s' := by
  have hclosing : InputsKept cfg s.closing := ⟨h.count, h.bytes, h.count_le, h.bytes_le⟩
  cases hmove with
  | same => exact h
  | closes => exact hclosing
  | opens hopen =>
    have hready := h.setPump (show Pump.ready.held = s.pump.held by rw [hopening hopen]; rfl)
    exact ⟨hready.count, hready.bytes, hready.count_le, hready.bytes_le⟩
  | append _ _ hroom => exact h.accept hroom
  | takes hpump hpending => exact h.take hpump hpending
  | submitFails hpump =>
    exact hclosing.release (show s.pump.held = _ by rw [hpump]; rfl) rfl
  | @completes _ p hpump =>
    have hrecord : InputsKept cfg (s.record (.completed p.chunk.seq)) :=
      ⟨h.count, h.bytes, h.count_le, h.bytes_le⟩
    exact hrecord.release (show s.pump.held = _ by rw [hpump]; rfl) rfl
  | @completesFull _ p hpump =>
    have hrecord : InputsKept cfg (s.record (.completed p.chunk.seq)).closing :=
      ⟨h.count, h.bytes, h.count_le, h.bytes_le⟩
    exact hrecord.release (show s.pump.held = _ by rw [hpump]; rfl) rfl
  | operationFails hpump =>
    exact hclosing.setPump (show _ = s.pump.held by rw [hpump]; rfl)
  | pumpEnds hpump =>
    refine h.release ?_ rfl
    rcases hpump with hpump | ⟨hpump, -⟩
    · rw [hpump]
      rfl
    · rw [hpump]
      rfl
  | exits hpump => exact h.setPump (by rw [hpump]; rfl)
  | exitsIdle hpump => exact hclosing.setPump (show _ = s.pump.held by rw [hpump]; rfl)
  | fence => exact h.keep _
  | drops _ hpump =>
    refine .dropPending ?_
    rcases hpump with hpump | hpump
    · rw [hpump]
      rfl
    · rw [hpump]
      rfl
  | _ => exact ⟨h.count, h.bytes, h.count_le, h.bytes_le⟩

/-! ### Outputs -/

/-- What `output_bytes` counts; a session that closes has no outputs. -/
structure OutputsKept (cfg : Config) (s : State) : Prop where
  bytes : s.outputBytes = budget s.outputs + budget s.pacer.items + budget s.pacer.unsent
  bytes_le : s.outputBytes ≤ cfg.limits.maxOutputBytes
  closing : s.isClosing = true → s.outputBytes = 0

/-- The fields that `OutputsKept` reads. -/
def State.outputFields (s : State) : List Budgeted × Int × List Budgeted × List Budgeted × Bool :=
  (s.outputs, s.outputBytes, s.pacer.items, s.pacer.unsent, s.isClosing)

theorem OutputsKept.same (h : OutputsKept cfg s) (hs : s'.outputFields = s.outputFields) :
    OutputsKept cfg s' := by
  simp only [State.outputFields, Prod.mk.injEq] at hs
  obtain ⟨houtputs, hbytes, hitems, hunsent, hclosing⟩ := hs
  constructor
  · rw [hbytes, houtputs, hitems, hunsent]
    exact h.bytes
  · rw [hbytes]
    exact h.bytes_le
  · rw [hbytes, hclosing]
    exact h.closing

theorem OutputsKept.begun (hs : s'.outputFields = s.beginClose.outputFields) :
    OutputsKept cfg s' := by
  simp only [State.outputFields, State.beginClose, Prod.mk.injEq] at hs
  obtain ⟨houtputs, hbytes, hitems, hunsent, -⟩ := hs
  constructor
  · rw [hbytes, houtputs, hitems, hunsent]
    rfl
  · rw [hbytes]
    exact Int.natCast_nonneg _
  · exact fun _ => hbytes

theorem OutputsKept.emit (h : OutputsKept cfg s) {inputSeq : Nat} {chunk : TimedChunk}
    {kind : OutputKind} (hs : s.emit cfg inputSeq chunk kind = some s') : OutputsKept cfg s' := by
  unfold State.emit at hs
  simp only at hs
  split at hs
  · cases hs
    exact h
  · next hclosing =>
    split at hs
    · cases hs
    · next hroom =>
      simp only [not_or, not_le, not_lt] at hroom
      cases hs
      have hbytes := h.bytes
      constructor
      · simp only [budget_append, budget_cons, budget_nil]
        omega
      · exact hroom.2
      · exact fun hclosed => absurd hclosed hclosing

theorem OutputsKept.passEnds (h : OutputsKept cfg s) : OutputsKept cfg s.passEnds := by
  unfold State.passEnds
  split
  · exact .begun (s := s) rfl
  · exact h.same rfl

theorem OutputsKept.takeOutput (h : OutputsKept cfg s) : OutputsKept cfg s.takeOutput := by
  unfold State.takeOutput
  split
  · exact h.passEnds
  · next size rest houtputs =>
    split
    · exact h.passEnds
    · next hclosing =>
      have hbytes := h.bytes
      have hle := h.bytes_le
      rw [houtputs, budget_cons] at hbytes
      constructor
      · simp only
        omega
      · simp only
        omega
      · exact fun hclosed => absurd hclosed hclosing

theorem OutputsKept.sendUnsent (h : OutputsKept cfg s) : OutputsKept cfg s.sendUnsent := by
  unfold State.sendUnsent
  split
  · exact h.passEnds
  · next size rest hunsent =>
    split
    · exact h.passEnds
    · next hclosing =>
      have hbytes := h.bytes
      have hle := h.bytes_le
      rw [hunsent, budget_cons] at hbytes
      constructor
      · simp only
        omega
      · simp only
        omega
      · exact fun hclosed => absurd hclosed hclosing

theorem offerOutputs_bytes {outputs : List Budgeted} {pacer pacer' : Pacer} {bytes bytes' : Int}
    (h : State.offerOutputs pacer bytes outputs = some (pacer', bytes'))
    (hbytes : bytes = budget outputs + pacer.held) : bytes' = pacer'.held ∧ bytes' ≤ bytes := by
  induction outputs generalizing pacer bytes with
  | nil =>
    cases h
    exact ⟨by simpa using hbytes, le_rfl⟩
  | cons item rest ih =>
    obtain ⟨output, size⟩ := item
    unfold State.offerOutputs at h
    split at h
    · cases h
    · have hoffer := pacer.held_offer output size
      have hle := pacer.held_beforeOffer_le output
      rw [budget_cons] at hbytes
      obtain ⟨hheld, hlast⟩ := ih h (by simp only [Pacer.offered]; omega)
      refine ⟨hheld, hlast.trans ?_⟩
      simp only [Pacer.offered]
      omega

theorem OutputsKept.pace (h : OutputsKept cfg s) {now : ℚ} (hs : s.pace cfg now = some s')
    (hclosing : s.isClosing = false) : OutputsKept cfg s' := by
  unfold State.pace at hs
  split at hs
  · cases hs
  · next pacer bytes hoffer =>
    split at hs
    · cases hs
    · next pacer' released hrelease =>
      cases hs
      have hbytes : s.outputBytes = budget s.outputs + s.pacer.held := by
        rw [h.bytes, Pacer.held]
        omega
      obtain ⟨hheld, hle⟩ := offerOutputs_bytes hoffer hbytes
      obtain ⟨hmoved, hunsent⟩ := Pacer.release_spec hrelease
      constructor
      · simp only [Pacer.held] at hheld
        simp only [budget_append, budget_nil, hunsent]
        omega
      · exact hle.trans h.bytes_le
      · exact fun hclosed => absurd (hclosing.symm.trans hclosed) Bool.false_ne_true

theorem OutputsKept.readPass (h : OutputsKept cfg s) (now : ℚ) :
    OutputsKept cfg (s.readPass cfg now) := by
  unfold State.readPass
  split
  · exact h.takeOutput
  · split
    · exact h.sendUnsent
    · next hclosing =>
      split
      · exact .begun (s := s) rfl
      · next hpace => exact (h.pace hpace (Bool.eq_false_iff.mpr hclosing)).sendUnsent

theorem OutputsKept.purge (h : OutputsKept cfg s) (event : TimedChunk) :
    OutputsKept cfg (s.purge cfg event) := by
  unfold State.purge
  split
  · have hbytes := h.bytes
    have hle := h.bytes_le
    have hpurge := s.pacer.held_purge_le event.turn
    constructor
    · simp only [Pacer.purged, Pacer.held]
      omega
    · simp only [Pacer.purged]
      omega
    · intro hclosing
      have hzero := h.closing hclosing
      simp only [Pacer.purged, Pacer.held] at hpurge ⊢
      omega
  · exact h

theorem OutputsKept.step (h : OutputsKept cfg s) {a : Action} (hs : s.step cfg a = some s') :
    OutputsKept cfg s' := by
  cases a with
  | append chunk continues =>
    simp only [State.step, State.append] at hs
    split at hs
    · cases hs
    · cases hs
      refine h.same ?_
      simp only [State.outputFields]
      split <;> rfl
  | stream fromRead chunk =>
    obtain ⟨inputSeq, -, rfl⟩ := Option.map_eq_some_iff.mp hs
    cases hemit : s.emit cfg inputSeq chunk .data with
    | none => exact h
    | some t => exact h.emit hemit
  | readOutputs now | wakeRead now =>
    simp only [State.step] at hs
    split at hs
    · cases hs
      exact h.readPass now
    · cases hs
  | resumeRead =>
    simp only [State.step, State.resumeRead] at hs
    split at hs
    · cases hs
      split
      · exact h.takeOutput
      · exact h.sendUnsent
    · cases hs
  | operationEnds =>
    simp only [State.step, State.operationEnds] at hs
    split at hs
    · next p hpump =>
      split at hs
      · split at hs
        · cases hs
          exact .begun (s := s) rfl
        · next t hemit =>
          cases hs
          have hrecord : OutputsKept cfg (s.record (.completed p.chunk.seq)) := h.same rfl
          exact (hrecord.emit hemit).same rfl
      · cases hs
    · cases hs
  | control event stages shouldPreempt isOrdered =>
    simp only [State.step, State.control] at hs
    split at hs
    · cases hs
    · split at hs
      · cases hs
        exact h.purge event
      · cases hs
        exact (h.purge event).same rfl
  | controlLooks i | controlSends i | controlEnds i | controlRaises i =>
    obtain ⟨call, -, hs⟩ := whenCall_eq_some hs
    simp only [State.controlLooks, State.controlSends, State.controlEnds, State.controlRaises] at hs
    repeat' split at hs
    all_goals cases hs
    all_goals first | exact h.same rfl | exact .begun (s := s) rfl
  | _ =>
    simp only [State.step, State.opens, State.pumpTakes, State.pumpSubmits, State.submitFails,
      State.operationFails, State.pumpFails, State.pumpExits, State.pumpCancelled, State.fence,
      State.cleanupStarts, State.readJoined, State.pumpJoined, State.pumpTimeout,
      State.failCleanup, State.ownersClosed] at hs
    repeat' split at hs
    all_goals cases hs
    all_goals first | exact h.same rfl | exact .begun (s := s) rfl

/-! ### The life of a session -/

/-- A pump that holds nothing and takes nothing any more, or was never created. -/
def Pump.isOver : Pump → Bool
  | .unstarted | .ended => true
  | .ready | .holding _ | .failing _ => false

theorem Pump.held_of_isOver {pump : Pump} (h : pump.isOver = true) : pump.held = none := by
  cases pump <;> first | rfl | cases h

/-- How far a session is open: no pump before it is, and a cleanup that goes on or is over found the
session closing.  Once the cleanup has dropped what was pending, the pump is over. -/
structure LifeKept (s : State) : Prop where
  opening : s.isOpening = true → s.pump = .unstarted ∧ s.cleanup = .absent ∧ s.isClosed = false
  cleanup : s.cleanup ≠ .absent → s.isClosing = true
  closed : s.isClosed = true → s.isClosing = true ∧ s.pump.isOver = true
  dropped : s.cleanup = .closingOwners → s.pending = [] ∧ s.pump.isOver = true

theorem LifeKept.working (h : LifeKept s) (hpump : s.pump.isOver = false) :
    s.isOpening = false ∧ s.isClosed = false ∧ s.cleanup ≠ .closingOwners := by
  refine ⟨Bool.eq_false_iff.mpr fun hopen => ?_, Bool.eq_false_iff.mpr fun hclosed => ?_,
    fun hdropped => ?_⟩
  · rw [(h.opening hopen).1] at hpump
    cases hpump
  · exact absurd (hpump.symm.trans (h.closed hclosed).2) Bool.false_ne_true
  · exact absurd (hpump.symm.trans (h.dropped hdropped).2) Bool.false_ne_true

theorem LifeKept.pump (h : LifeKept s) (hpump : s.pump.isOver = false)
    (hopening : s'.isOpening = s.isOpening) (hclosing : s.isClosing = true → s'.isClosing = true)
    (hclosed : s'.isClosed = s.isClosed) (hcleanup : s'.cleanup = s.cleanup) : LifeKept s' := by
  obtain ⟨hopen, hclose, hdrop⟩ := h.working hpump
  constructor
  · intro hyes
    rw [hopening, hopen] at hyes
    cases hyes
  · intro hne
    rw [hcleanup] at hne
    exact hclosing (h.cleanup hne)
  · intro hyes
    rw [hclosed, hclose] at hyes
    cases hyes
  · intro hyes
    rw [hcleanup] at hyes
    exact absurd hyes hdrop

theorem LifeKept.move {a : Action} (h : LifeKept s) (hmove : Move cfg s a s') : LifeKept s' := by
  have hclosing : LifeKept s.closing :=
    ⟨h.opening, fun _ => rfl, fun hc => ⟨rfl, (h.closed hc).2⟩, h.dropped⟩
  cases hmove with
  | closes => exact hclosing
  | opens hopening =>
    obtain ⟨-, hcleanup, hclosed⟩ := h.opening hopening
    refine ⟨(fun hyes => by cases hyes), h.cleanup, fun hyes => ?_, fun hyes => ?_⟩
    · cases hclosed.symm.trans hyes
    · cases hcleanup.symm.trans hyes
  | openFails => exact ⟨(fun hyes => by cases hyes), hclosing.cleanup, hclosing.closed, h.dropped⟩
  | append hopen =>
    refine ⟨h.opening, h.cleanup, h.closed, fun hdropped => ?_⟩
    have hne : s.cleanup ≠ .absent := by
      rw [show s.cleanup = .closingOwners from hdropped]
      decide
    cases hopen.symm.trans (h.cleanup hne)
  | takes hpump => exact h.pump (by rw [hpump]; rfl) rfl id rfl rfl
  | submits hpump => exact h.pump (by rw [hpump]; rfl) rfl id rfl rfl
  | submitFails hpump => exact h.pump (by rw [hpump]; rfl) rfl (fun _ => rfl) rfl rfl
  | completes hpump => exact h.pump (by rw [hpump]; rfl) rfl id rfl rfl
  | completesFull hpump => exact h.pump (by rw [hpump]; rfl) rfl (fun _ => rfl) rfl rfl
  | operationFails hpump => exact h.pump (by rw [hpump]; rfl) rfl (fun _ => rfl) rfl rfl
  | pumpEnds hpump =>
    refine h.pump ?_ rfl id rfl rfl
    rcases hpump with hpump | ⟨hpump, -⟩
    · rw [hpump]
      rfl
    · rw [hpump]
      rfl
  | exits hpump => exact h.pump (by rw [hpump]; rfl) rfl id rfl rfl
  | exitsIdle hpump => exact h.pump (by rw [hpump]; rfl) rfl (fun _ => rfl) rfl rfl
  | fails hcall => exact ⟨hclosing.opening, hclosing.cleanup, hclosing.closed, hclosing.dropped⟩
  | fence =>
    refine ⟨h.opening, h.cleanup, h.closed, fun hdropped => ?_⟩
    obtain ⟨hpending, hpump⟩ := h.dropped hdropped
    refine ⟨?_, hpump⟩
    simp only [State.keep, hpending, List.filter_nil]
  | cleanupStarts hopening =>
    refine ⟨fun hyes => ?_, fun _ => rfl, fun hc => ⟨rfl, (h.closed hc).2⟩, (fun hyes => by cases hyes)⟩
    cases hopening.symm.trans hyes
  | readJoined hcleanup =>
    have hne : s.cleanup ≠ .absent := by rw [hcleanup]; decide
    refine ⟨fun hyes => ?_, fun _ => h.cleanup hne, h.closed, (fun hyes => by cases hyes)⟩
    exact absurd (h.opening hyes).2.1 hne
  | drops hne hpump =>
    refine ⟨fun hyes => absurd (h.opening hyes).2.1 hne, fun _ => h.cleanup hne, h.closed,
      fun _ => ⟨rfl, ?_⟩⟩
    rcases hpump with hpump | hpump
    · show s.pump.isOver = true
      rw [hpump]
      rfl
    · show s.pump.isOver = true
      rw [hpump]
      rfl
  | pumpTimeout hcleanup =>
    have hne : s.cleanup ≠ .absent := by rw [hcleanup]; decide
    refine ⟨fun hyes => ?_, fun _ => h.cleanup hne, h.closed, (fun hyes => by cases hyes)⟩
    exact absurd (h.opening hyes).2.1 hne
  | failCleanup hcleanup hpump =>
    have hne : s.cleanup ≠ .absent := by rw [hcleanup]; decide
    refine ⟨fun hyes => absurd (h.opening hyes).2.1 hne, fun hyes => absurd rfl hyes,
      fun _ => ⟨h.cleanup hne, ?_⟩, (fun hyes => by cases hyes)⟩
    show s.pump.isOver = true
    rw [hpump]
    rfl
  | ownersClosed hcleanup =>
    have hne : s.cleanup ≠ .absent := by rw [hcleanup]; decide
    exact ⟨fun hyes => absurd (h.opening hyes).2.1 hne, fun hyes => absurd rfl hyes,
      fun _ => ⟨h.cleanup hne, (h.dropped hcleanup).2⟩, (fun hyes => by cases hyes)⟩
  | abandons =>
    refine ⟨fun hyes => ?_, fun hyes => absurd rfl hyes, h.closed, (fun hyes => by cases hyes)⟩
    obtain ⟨hpump, -, hclosed⟩ := h.opening hyes
    exact ⟨hpump, rfl, hclosed⟩
  | _ => exact ⟨h.opening, h.cleanup, h.closed, h.dropped⟩

theorem closed_empty {a : Action} (hlife : LifeKept s)
    (h : s.isClosed = true → s.pending = []) (hleft : nothingLeft s a) (hmove : Move cfg s a s') :
    s'.isClosed = true → s'.pending = [] := by
  cases hmove with
  | append hopen =>
    intro hclosed
    cases hopen.symm.trans (hlife.closed hclosed).1
  | takes hpump =>
    intro hclosed
    have hover := (hlife.closed hclosed).2
    rw [hpump] at hover
    cases hover
  | fence =>
    intro hclosed
    simp only [State.keep, h hclosed, List.filter_nil]
  | drops => exact fun _ => rfl
  | failCleanup => exact fun _ => hleft rfl
  | ownersClosed hcleanup => exact fun _ => (hlife.dropped hcleanup).1
  | _ => exact h

theorem inputsKept_init (cfg : Config) : InputsKept cfg {} :=
  ⟨rfl, rfl, Int.natCast_nonneg _, Int.natCast_nonneg _⟩

theorem outputsKept_init (cfg : Config) : OutputsKept cfg {} :=
  ⟨rfl, Int.natCast_nonneg _, fun h => by cases h⟩

theorem lifeKept_init : LifeKept {} :=
  ⟨fun _ => ⟨rfl, rfl, rfl⟩, fun h => absurd rfl h, (fun h => by cases h), (fun h => by cases h)⟩

theorem kept_of_reaches (h : (session cfg).Reaches Machine.anyAction s) :
    InputsKept cfg s ∧ OutputsKept cfg s ∧ LifeKept s := by
  refine h.invariant (P := fun s => InputsKept cfg s ∧ OutputsKept cfg s ∧ LifeKept s)
    ⟨inputsKept_init cfg, outputsKept_init cfg, lifeKept_init⟩ ?_
  rintro s a s' ⟨hin, hout, hlife⟩ - hs
  obtain ⟨t, hmove, heq⟩ := step_move hs
  have hin' := hin.move (fun hopening => (hlife.opening hopening).1) hmove
  have hlife' := hlife.move hmove
  refine ⟨?_, hout.step hs, ?_⟩
  · rw [heq]
    exact ⟨hin'.count, hin'.bytes, hin'.count_le, hin'.bytes_le⟩
  · rw [heq]
    exact ⟨hlife'.opening, hlife'.cleanup, hlife'.closed, hlife'.dropped⟩

theorem closed_empty_of_reaches (h : (session cfg).Reaches nothingLeft s) :
    s.isClosed = true → s.pending = [] := by
  have hboth : LifeKept s ∧ (s.isClosed = true → s.pending = []) := by
    refine h.invariant (P := fun s => LifeKept s ∧ (s.isClosed = true → s.pending = []))
      ⟨lifeKept_init, fun h => by cases h⟩ ?_
    rintro s a s' ⟨hlife, hempty⟩ hleft hs
    obtain ⟨t, hmove, heq⟩ := step_move hs
    have hlife' := hlife.move hmove
    have hempty' := closed_empty hlife hempty hleft hmove
    rw [heq]
    exact ⟨⟨hlife'.opening, hlife'.cleanup, hlife'.closed, hlife'.dropped⟩, hempty'⟩
  exact hboth.2

/-- In every state of every run in which no cleanup gives up on the pump while chunks are pending, the
budgets of a session count exactly the chunks that it holds, within its limits, and a closed session
counts none.  A cleanup that gives up on the pump while chunks are pending closes a session that still
counts them. -/
theorem budgets_kept (cfg : Config) :
    (∀ s, (session cfg).Reaches nothingLeft s → BudgetsKept cfg s) ∧
      ∀ s a s', (session cfg).Reaches Machine.anyAction s → ¬ nothingLeft s a →
        (session cfg).step s a = some s' → ¬ BudgetsKept cfg s' := by
  refine ⟨fun s h => ?_, fun s a s' h hleft hs hkept => ?_⟩
  · obtain ⟨hin, hout, hlife⟩ := kept_of_reaches (h.mono fun _ _ _ => trivial)
    have hcount := hin.count
    have hbytes := hin.bytes
    have houtputs := hout.bytes
    refine ⟨hcount, hbytes, houtputs, ⟨by omega, by omega, by omega⟩, hin.count_le, hin.bytes_le,
      hout.bytes_le, fun hclosed => ?_⟩
    have hunfinished : s.unfinished = [] := by
      rw [State.unfinished, closed_empty_of_reaches h hclosed,
        Pump.held_of_isOver (hlife.closed hclosed).2]
      rfl
    rw [hunfinished] at hcount hbytes
    exact ⟨hcount, hbytes, hout.closing (hlife.closed hclosed).1⟩
  · unfold nothingLeft at hleft
    push Not at hleft
    obtain ⟨rfl, hpending⟩ := hleft
    obtain ⟨hin, -, -⟩ := kept_of_reaches h
    simp only [session, State.step, State.failCleanup] at hs
    split at hs
    · next hpump =>
      cases hs
      have hzero := (hkept.closed rfl).1
      have hcount := hin.count
      have hpos := List.length_pos_of_ne_nil hpending
      simp only [State.unfinished, List.length_append] at hcount hzero
      omega
    · cases hs

def oneStage : Config where
  isNode := false
  stages := ["asr"]
  logicalName := id
  limits := {}
  packer := msgpack
  leadMs := 200
  identity := { id := "s" }

def speech (seq : Nat) : TimedChunk where
  modality := audio
  tStartMs := 20 * seq
  durationMs := 20
  seq := seq
  payload := .bytes [1, 0]
  format := some pcm16

/-- Two chunks are accepted, the first is under way and streams a reply, and the client reads it. -/
def speechRun : List Action :=
  [.opens false, .append (speech 0) false, .append (speech 1) false, .pumpTakes, .pumpSubmits,
    .stream false (speech 0), .readOutputs 0]

theorem budgets_kept_speech : ∃ s, (session oneStage).Reaches nothingLeft s ∧
    (s.pendingCount, s.pending.length, s.pump.held.isSome, s.nextDelivered) = (2, 1, true, 1) ∧
    BudgetsKept oneStage s := by
  have hrun : ((session oneStage).execWhere (fun _ a => !a matches .failCleanup) {} speechRun).map
      (fun s => (s.pendingCount, s.pending.length, s.pump.held.isSome, s.nextDelivered)) =
      some (2, 1, true, 1) := by
    decide +kernel
  obtain ⟨s, hs, hobs⟩ := Option.map_eq_some_iff.mp hrun
  have hreach : (session oneStage).Reaches nothingLeft s := by
    refine Machine.path_of_execWhere (fun _ a ha hfail => ?_) hs
    subst hfail
    cases ha
  exact ⟨s, hreach, hobs, (budgets_kept oneStage).1 s hreach⟩

/-- The session closes while its first chunk is being submitted; the submission ends too late for the
cleanup to wait for it, and the second chunk is pending. -/
def stuckPumpRun : List Action :=
  [.opens false, .append (speech 0) false, .append (speech 1) false, .pumpTakes, .close,
    .cleanupStarts, .readJoined, .pumpSubmits, .pumpTimeout, .pumpCancelled, .failCleanup]

/-- The session is closed and counts the second chunk. -/
theorem stuck_pump_leaves_pending : ∃ s, (session oneStage).Reaches Machine.anyAction s ∧
    (s.isClosed, s.pendingCount) = (true, 1) ∧ ¬ BudgetsKept oneStage s := by
  have hrun : ((session oneStage).exec {} stuckPumpRun).map
      (fun s => (s.isClosed, s.pendingCount)) = some (true, 1) := by
    decide +kernel
  obtain ⟨s, hs, hobs⟩ := Option.map_eq_some_iff.mp hrun
  refine ⟨s, Machine.path_of_exec hs, hobs, fun hkept => ?_⟩
  obtain ⟨hclosed, hcount⟩ := Prod.mk.inj hobs
  cases hcount.symm.trans (hkept.closed hclosed).1

end Route
