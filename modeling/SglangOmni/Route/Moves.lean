import SglangOmni.Route.Session

/-! What one step of a session does to its inputs, its controls and its life: `step_move`.  What it
does to the outputs is left out. -/

namespace Route

open Lib Proto Session

variable {cfg : Config} {s s' : State}

def State.withOutputs (s t : State) : State :=
  { s with
    outputs := t.outputs
    outputBytes := t.outputBytes
    pacer := t.pacer
    nextOutput := t.nextOutput
    nextDelivered := t.nextDelivered
    modalityEndMs := t.modalityEndMs
    endedModalities := t.endedModalities
    reader := t.reader }

def State.closing (s : State) : State := { s with isClosing := true }

def State.accept (s : State) (p : PendingChunk) : State :=
  { s with
    pending := s.pending ++ [p]
    pendingCount := s.pendingCount + 1
    pendingBytes := s.pendingBytes + p.encodedBytes
    nextInput := s.nextInput + 1
    log := s.log ++ [.accepted p.chunk.seq] }

def State.take (s : State) (p : PendingChunk) (rest : List PendingChunk) : State :=
  { s with
    pending := rest
    pump := .holding p
    inFlightAppend := some .accepted
    log := s.log ++ [.submitting p.chunk.seq] }

def State.keep (s : State) (kept : PendingChunk → Bool) : State :=
  { s with
    pending := s.pending.filter kept
    pendingCount := s.pendingCount - (s.pending.length - (s.pending.filter kept).length : Int)
    pendingBytes := s.pendingBytes -
      ((s.pending.map PendingChunk.encodedBytes).sum -
        ((s.pending.filter kept).map PendingChunk.encodedBytes).sum : Int)
    log := s.log ++ (s.pending.filter fun p => !kept p).map fun p => .dropped p.chunk.seq }

inductive Move (cfg : Config) (s : State) : Action → State → Prop
  | same {a : Action} : Move cfg s a s
  | closes {a : Action} : Move cfg s a s.closing
  | opens {a : Action} (hopening : s.isOpening = true) :
    Move cfg s a { s with isOpening := false, pump := .ready }
  | openFails {a : Action} : Move cfg s a { s.closing with isOpening := false }
  | append {a : Action} {p : PendingChunk} (hclosing : s.isClosing = false)
    (hseq : p.chunk.seq = s.nextInput) (hroom : s.hasRoom cfg p.encodedBytes = true) :
    Move cfg s a (s.accept p)
  | takes {a : Action} {p : PendingChunk} {rest : List PendingChunk} (hpump : s.pump = .ready)
    (hpending : s.pending = p :: rest) (hclosing : s.isClosing = false)
    (hmay : s.mayTake p = true) : Move cfg s a (s.take p rest)
  | submits {a : Action} {p : PendingChunk} (hpump : s.pump = .holding p)
    (hflight : s.inFlightAppend = some .accepted) :
    Move cfg s a { s with
      inFlightAppend := some .submitted, log := s.log ++ [.submitted p.chunk.seq] }
  | submitFails {a : Action} {p : PendingChunk} (hpump : s.pump = .holding p) :
    Move cfg s a (s.closing.release p .ended)
  | completes {a : Action} {p : PendingChunk} (hpump : s.pump = .holding p)
    (hflight : s.inFlightAppend = some .submitted) :
    Move cfg s a ((s.record (.completed p.chunk.seq)).release p .ready)
  | completesFull {a : Action} {p : PendingChunk} (hpump : s.pump = .holding p) :
    Move cfg s a ((s.record (.completed p.chunk.seq)).closing.release p .ended)
  | operationFails {a : Action} {p : PendingChunk} (hpump : s.pump = .holding p) :
    Move cfg s a { s.closing with pump := .failing p }
  | pumpEnds {a : Action} {p : PendingChunk}
    (hpump : s.pump = .failing p ∨ s.pump = .holding p ∧ s.cleanup = .cancellingPump) :
    Move cfg s a (s.release p .ended)
  | exits {a : Action} (hpump : s.pump = .ready) : Move cfg s a { s with pump := .ended }
  | exitsIdle {a : Action} (hpump : s.pump = .ready) :
    Move cfg s a { s.closing with pump := .ended }
  | calls {a : Action} {owners : List String} {shouldPreempt isOrdered : Bool} :
    Move cfg s a (s.addBarrier owners shouldPreempt isOrdered)
  | goes {a : Action} {i : Nat} {call : Call} (hcall : s.calls[i]? = some call)
    (hphase : call.phase = .waiting) (hclosing : s.isClosing = false)
    (hmay : s.mayGo i call = true) : Move cfg s a (s.setPhase i call (.sending call.owners))
  | sends {a : Action} {i : Nat} {call : Call} {owner : String} {rest : List String}
    (hcall : s.calls[i]? = some call) (hphase : call.phase = .sending (owner :: rest)) :
    Move cfg s a ((s.setPhase i call (.sending rest)).record
      (.sent i owner call.shouldPreempt call.isOrdered))
  | ends {a : Action} {i : Nat} {call : Call} (hcall : s.calls[i]? = some call) :
    Move cfg s a (s.endCall i call)
  | fails {a : Action} {i : Nat} {call : Call} (hcall : s.calls[i]? = some call) :
    Move cfg s a (s.closing.endCall i call)
  | fence {a : Action} {kept : PendingChunk → Bool} (hnode : cfg.isNode = true) :
    Move cfg s a (s.keep kept)
  | cleanupStarts {a : Action} (hopening : s.isOpening = false) :
    Move cfg s a { s.closing with cleanup := .joiningRead }
  | readJoined {a : Action} (hcleanup : s.cleanup = .joiningRead) :
    Move cfg s a { s with cleanup := .joiningPump }
  | drops {a : Action} (hcleanup : s.cleanup ≠ .absent)
    (hpump : s.pump = .unstarted ∨ s.pump = .ended) : Move cfg s a s.dropPending
  | pumpTimeout {a : Action} (hcleanup : s.cleanup = .joiningPump) :
    Move cfg s a { s with cleanup := .cancellingPump }
  | failCleanup (hcleanup : s.cleanup = .cancellingPump) (hpump : s.pump = .ended) :
    Move cfg s .failCleanup { s with isClosed := true, cleanup := .absent }
  | ownersClosed {a : Action} (hcleanup : s.cleanup = .closingOwners) :
    Move cfg s a { s with isClosed := true, cleanup := .absent }
  | abandons {a : Action} : Move cfg s a { s with cleanup := .absent }

/-! ### Outputs -/

theorem emit_withOutputs {inputSeq : Nat} {chunk : TimedChunk} {kind : OutputKind}
    (h : s.emit cfg inputSeq chunk kind = some s') : s' = s.withOutputs s' := by
  unfold State.emit at h
  simp only at h
  split at h
  · cases h
    rfl
  · split at h
    · cases h
    · cases h
      rfl

/-- A step of the output consumer changes the outputs only, or closes the session as well. -/
def OutputMove (s s' : State) : Prop := s' = s.withOutputs s' ∨ s' = s.closing.withOutputs s'

theorem passEnds_move (s : State) : OutputMove s s.passEnds := by
  unfold State.passEnds
  split
  · exact .inr rfl
  · exact .inl rfl

theorem takeOutput_move (s : State) : OutputMove s s.takeOutput := by
  unfold State.takeOutput
  split
  · exact passEnds_move s
  · split
    · exact passEnds_move s
    · exact .inl rfl

theorem sendUnsent_move (s : State) : OutputMove s s.sendUnsent := by
  unfold State.sendUnsent
  split
  · exact passEnds_move s
  · split
    · exact passEnds_move s
    · exact .inl rfl

theorem OutputMove.after {t : State} (ht : t = s.withOutputs t) (h : OutputMove t s') :
    OutputMove s s' := by
  rw [ht] at h
  exact h

theorem pace_withOutputs {now : ℚ} (h : s.pace cfg now = some s') : s' = s.withOutputs s' := by
  unfold State.pace at h
  split at h
  · cases h
  · split at h
    · cases h
    · cases h
      rfl

theorem readPass_move (cfg : Config) (s : State) (now : ℚ) : OutputMove s (s.readPass cfg now) := by
  unfold State.readPass
  split
  · exact takeOutput_move s
  · split
    · exact sendUnsent_move s
    · split
      · exact .inr rfl
      · next hpace => exact (sendUnsent_move _).after (pace_withOutputs hpace)

theorem resumeRead_move (cfg : Config) (s : State) : OutputMove s (s.resumeRead cfg) := by
  unfold State.resumeRead
  split
  · exact takeOutput_move s
  · exact sendUnsent_move s

theorem OutputMove.move {a : Action} (h : OutputMove s s') :
    ∃ t, Move cfg s a t ∧ s' = t.withOutputs s' := by
  rcases h with h | h
  · exact ⟨s, .same, h⟩
  · exact ⟨s.closing, .closes, h⟩

/-! ### Appends, the pump and controls -/

theorem whenCall_eq_some {i : Nat} {next : Call → Option State} (h : s.whenCall i next = some s') :
    ∃ call, s.calls[i]? = some call ∧ next call = some s' :=
  Option.bind_eq_some_iff.mp h

theorem controlLooks_eq_some {i : Nat} {call : Call} (h : s.controlLooks i call = some s') :
    call.phase = .waiting ∧
      ((s.isClosing = true ∧ s' = s.endCall i call) ∨
        (s.isClosing = false ∧ s.mayGo i call = true ∧
          s' = s.setPhase i call (.sending call.owners))) := by
  unfold State.controlLooks at h
  split at h
  · cases h
  · next hphase =>
    refine ⟨not_not.mp hphase, ?_⟩
    split at h
    · next hclosing =>
      cases h
      exact .inl ⟨hclosing, rfl⟩
    · next hclosing =>
      split at h
      · next hgo =>
        cases h
        exact .inr ⟨Bool.eq_false_iff.mpr hclosing, hgo, rfl⟩
      · cases h

theorem controlSends_eq_some {i : Nat} {call : Call} (h : s.controlSends i call = some s') :
    ∃ owner rest, call.phase = .sending (owner :: rest) ∧
      s' = (s.setPhase i call (.sending rest)).record
        (.sent i owner call.shouldPreempt call.isOrdered) := by
  unfold State.controlSends at h
  split at h
  · next owner rest hphase =>
    cases h
    exact ⟨owner, rest, hphase, rfl⟩
  · cases h

theorem controlEnds_eq_some {i : Nat} {call : Call} (h : s.controlEnds i call = some s') :
    call.phase = .sending [] ∧ s' = s.endCall i call := by
  unfold State.controlEnds at h
  split at h
  · next hphase =>
    cases h
    exact ⟨hphase, rfl⟩
  · cases h

theorem controlRaises_eq_some {i : Nat} {call : Call} (h : s.controlRaises i call = some s') :
    call.phase ≠ .ended ∧ (s' = s.endCall i call ∨ s' = s.beginClose.endCall i call) := by
  unfold State.controlRaises at h
  split at h
  · next hphase =>
    cases h
    exact ⟨by simp [hphase], .inl rfl⟩
  · next hphase =>
    cases h
    exact ⟨by simp [hphase], .inr rfl⟩
  · cases h


theorem append_move {a : Action} {chunk : TimedChunk} {continues : Bool}
    (h : s.append cfg chunk continues = some s') : ∃ t, Move cfg s a t ∧ s' = t.withOutputs s' := by
  unfold State.append at h
  simp only at h
  split at h
  · cases h
  · next hok =>
    simp only [not_or, not_not] at hok
    obtain ⟨hclosing, -, hseq, -, -, hroom⟩ := hok
    have hclosing := Bool.eq_false_iff.mpr hclosing
    cases h
    exact ⟨s.accept ⟨chunk, cfg.packer.wireSize chunk, continues⟩, .append hclosing hseq hroom, rfl⟩

theorem purge_withOutputs (cfg : Config) (s : State) (event : TimedChunk) :
    s.purge cfg event = s.withOutputs (s.purge cfg event) := by
  unfold State.purge
  split <;> rfl

theorem control_move {a : Action} {event : TimedChunk} {stages : Option (List String)}
    {shouldPreempt isOrdered : Bool}
    (h : s.control cfg event stages shouldPreempt isOrdered = some s') :
    ∃ t, Move cfg s a t ∧ s' = t.withOutputs s' := by
  unfold State.control at h
  simp only at h
  split at h
  · cases h
  · have hpurge := purge_withOutputs cfg s event
    split at h
    · cases h
      exact ⟨s, .same, hpurge⟩
    · cases h
      refine ⟨s.addBarrier (State.owners cfg stages) shouldPreempt isOrdered, .calls, ?_⟩
      rw [hpurge]
      rfl

theorem pump_move {a : Action}
    (ha : a = .pumpTakes ∨ a = .pumpSubmits ∨ a = .submitFails ∨ a = .operationEnds ∨
      a = .operationFails ∨ a = .pumpFails ∨ (∃ idle, a = .pumpExits idle) ∨ a = .pumpCancelled)
    (h : s.step cfg a = some s') : ∃ t, Move cfg s a t ∧ s' = t.withOutputs s' := by
  rcases ha with rfl | rfl | rfl | rfl | rfl | rfl | ⟨idle, rfl⟩ | rfl
  · simp only [State.step, State.pumpTakes] at h
    split at h
    · next p rest hpump hpending =>
      split at h
      · cases h
      · next hok =>
        simp only [not_or, not_not] at hok
        cases h
        exact ⟨s.take p rest, .takes hpump hpending (Bool.eq_false_iff.mpr hok.1) hok.2, rfl⟩
    · cases h
  · simp only [State.step, State.pumpSubmits] at h
    split at h
    · next p hpump =>
      split at h
      · next hflight =>
        cases h
        exact ⟨_, .submits hpump hflight, rfl⟩
      · cases h
    · cases h
  · simp only [State.step, State.submitFails] at h
    split at h
    · next p hpump =>
      split at h
      · cases h
        exact ⟨_, .submitFails hpump, rfl⟩
      · cases h
    · cases h
  · simp only [State.step, State.operationEnds] at h
    split at h
    · next p hpump =>
      split at h
      · next hflight =>
        split at h
        · cases h
          exact ⟨_, .completesFull hpump, rfl⟩
        · next t hemit =>
          cases h
          refine ⟨_, .completes hpump hflight, ?_⟩
          rw [emit_withOutputs hemit]
          rfl
      · cases h
    · cases h
  · simp only [State.step, State.operationFails] at h
    split at h
    · next p hpump =>
      split at h
      · cases h
        exact ⟨_, .operationFails hpump, rfl⟩
      · cases h
    · cases h
  · simp only [State.step, State.pumpFails] at h
    split at h
    · next p hpump =>
      cases h
      exact ⟨_, .pumpEnds (.inl hpump), rfl⟩
    · cases h
  · simp only [State.step, State.pumpExits] at h
    split at h
    · next hpump =>
      split at h
      · cases h
        exact ⟨_, .exitsIdle hpump, rfl⟩
      · split at h
        · cases h
          exact ⟨_, .exits hpump, rfl⟩
        · cases h
    · cases h
  · simp only [State.step, State.pumpCancelled] at h
    split at h
    · cases h
    · next hcleanup =>
      split at h
      · next hpump =>
        cases h
        exact ⟨_, .exits hpump, rfl⟩
      · next p hpump =>
        cases h
        exact ⟨_, .pumpEnds (.inr ⟨hpump, not_not.mp hcleanup⟩), rfl⟩
      · next p hpump =>
        cases h
        exact ⟨_, .pumpEnds (.inl hpump), rfl⟩
      · cases h
      · cases h

theorem call_move {a : Action}
    (ha : ∃ i, a = .controlLooks i ∨ a = .controlSends i ∨ a = .controlEnds i ∨
      a = .controlRaises i)
    (h : s.step cfg a = some s') : ∃ t, Move cfg s a t ∧ s' = t.withOutputs s' := by
  obtain ⟨i, rfl | rfl | rfl | rfl⟩ := ha
  · obtain ⟨call, hcall, h⟩ := whenCall_eq_some h
    obtain ⟨hphase, ⟨-, rfl⟩ | ⟨hclosing, hmay, rfl⟩⟩ := controlLooks_eq_some h
    · exact ⟨_, .ends hcall, rfl⟩
    · exact ⟨_, .goes hcall hphase hclosing hmay, rfl⟩
  · obtain ⟨call, hcall, h⟩ := whenCall_eq_some h
    obtain ⟨owner, rest, hphase, rfl⟩ := controlSends_eq_some h
    exact ⟨_, .sends hcall hphase, rfl⟩
  · obtain ⟨call, hcall, h⟩ := whenCall_eq_some h
    obtain ⟨-, rfl⟩ := controlEnds_eq_some h
    exact ⟨_, .ends hcall, rfl⟩
  · obtain ⟨call, hcall, h⟩ := whenCall_eq_some h
    obtain ⟨-, rfl | rfl⟩ := controlRaises_eq_some h
    · exact ⟨_, .ends hcall, rfl⟩
    · exact ⟨_, .fails hcall, rfl⟩

/-! ### Opening and closing -/

theorem cleanup_move {a : Action}
    (ha : a = .cleanupStarts ∨ a = .readJoined ∨ a = .pumpJoined ∨ a = .pumpTimeout ∨
      a = .failCleanup ∨ a = .ownersClosed ∨ a = .cleanupCancelled)
    (h : s.step cfg a = some s') : ∃ t, Move cfg s a t ∧ s' = t.withOutputs s' := by
  rcases ha with rfl | rfl | rfl | rfl | rfl | rfl | rfl
  · simp only [State.step, State.cleanupStarts] at h
    split at h
    · cases h
    · next hok =>
      simp only [not_or, Bool.not_eq_true] at hok
      cases h
      exact ⟨_, .cleanupStarts hok.1, rfl⟩
  · simp only [State.step, State.readJoined] at h
    split at h
    · cases h
    · next hcleanup =>
      have hcleanup := not_not.mp hcleanup
      split at h
      · next hpump =>
        cases h
        exact ⟨_, .drops (by rw [hcleanup]; decide) (.inl hpump), rfl⟩
      · cases h
        exact ⟨_, .readJoined hcleanup, rfl⟩
  · simp only [State.step, State.pumpJoined] at h
    split at h
    · next hcleanup hpump =>
      cases h
      exact ⟨_, .drops (by rw [hcleanup]; decide) (.inr hpump), rfl⟩
    · cases h
  · simp only [State.step, State.pumpTimeout] at h
    split at h
    · next hcleanup =>
      cases h
      exact ⟨_, .pumpTimeout hcleanup, rfl⟩
    · cases h
  · simp only [State.step, State.failCleanup] at h
    split at h
    · next hcleanup hpump =>
      cases h
      exact ⟨_, .failCleanup hcleanup hpump, rfl⟩
    · cases h
  · simp only [State.step, State.ownersClosed] at h
    split at h
    · next hcleanup =>
      cases h
      exact ⟨_, .ownersClosed hcleanup, rfl⟩
    · cases h
  · simp only [State.step] at h
    split at h
    · cases h
    · cases h
      exact ⟨_, .abandons, rfl⟩

theorem step_move {a : Action} (h : s.step cfg a = some s') :
    ∃ t, Move cfg s a t ∧ s' = t.withOutputs s' := by
  cases a with
  | opens fails =>
    simp only [State.step, State.opens] at h
    split at h
    · cases h
    · next hopening =>
      split at h
      · cases h
        exact ⟨_, .openFails, rfl⟩
      · cases h
        exact ⟨_, .opens (not_not.mp hopening), rfl⟩
  | append chunk continues => exact append_move h
  | stream fromRead chunk =>
    obtain ⟨inputSeq, -, rfl⟩ := Option.map_eq_some_iff.mp h
    cases hemit : s.emit cfg inputSeq chunk .data with
    | none => exact ⟨s, .same, rfl⟩
    | some t => exact ⟨s, .same, emit_withOutputs hemit⟩
  | readOutputs now =>
    simp only [State.step] at h
    split at h
    · cases h
      exact (readPass_move cfg s now).move
    · cases h
  | resumeRead =>
    simp only [State.step] at h
    split at h
    · cases h
      exact (resumeRead_move cfg s).move
    · cases h
  | wakeRead now =>
    simp only [State.step] at h
    split at h
    · cases h
      exact (readPass_move cfg s now).move
    · cases h
  | disconnect =>
    simp only [State.step] at h
    split at h
    · cases h
    · cases h
      exact ⟨_, .closes, rfl⟩
  | pumpTakes | pumpSubmits | submitFails | operationEnds | operationFails | pumpFails
  | pumpExits | pumpCancelled => exact pump_move (by simp) h
  | control event stages shouldPreempt isOrdered => exact control_move h
  | controlLooks i | controlSends i | controlEnds i | controlRaises i =>
    exact call_move ⟨i, by simp⟩ h
  | fence turn isClient =>
    simp only [State.step, State.fence] at h
    split at h
    · cases h
    · next hok =>
      simp only [not_or, not_not] at hok
      cases h
      exact ⟨_, .fence hok.1, rfl⟩
  | close =>
    cases h
    exact ⟨_, .closes, rfl⟩
  | cleanupStarts | readJoined | pumpJoined | pumpTimeout | failCleanup | ownersClosed
  | cleanupCancelled => exact cleanup_move (by simp) h

end Route
