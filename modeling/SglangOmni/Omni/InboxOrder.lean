import SglangOmni.Omni.Inbox
import Mathlib.Tactic.Tauto

/-! The order of the messages of one request.  `handled_in_order` says that they are handled in the
order they were put, none lost and none twice, in every run in which no message of the request is put
while an abort of another one has a message of it still to put back. -/

namespace Omni

open Lib

namespace Inbox

variable {δ : Type} {cfg : Config δ} {s s' : State δ} {r : String}

def ofRequest (r : String) (msgs : List (Incoming δ)) : List (Incoming δ) :=
  msgs.filter fun msg => msg.requestId == r

/-- The inbox with what an abort took out of it.  While the abort takes, what it keeps comes before
the inbox; once it puts back, what it still keeps comes after. -/
def State.queued (s : State δ) : List (Incoming δ) :=
  match s.removal with
  | none => s.inbox
  | some removal =>
    if removal.isRefilling then s.inbox ++ removal.retained else removal.retained ++ s.inbox

/-- The messages that were put and not yet looked at, in the order in which they come up. -/
def State.waiting (s : State δ) : List (Incoming δ) :=
  s.recvMsgs ++ s.idleWaitMessage.toList ++ s.queued

/-- A message of `r` is put only while no abort that found the inbox empty has a message of `r` left
to put back. -/
def clearFor (r : String) (s : State δ) : Action δ → Prop
  | .put msg =>
    msg.requestId = r → ∀ removal ∈ s.removal, removal.isRefilling = true →
      ofRequest r removal.retained = []
  | _ => True

@[simp] theorem ofRequest_nil : ofRequest r ([] : List (Incoming δ)) = [] := rfl

@[simp] theorem ofRequest_append (first second : List (Incoming δ)) :
    ofRequest r (first ++ second) = ofRequest r first ++ ofRequest r second :=
  List.filter_append ..

theorem ofRequest_cons_of_ne {msg : Incoming δ} (h : msg.requestId ≠ r) (rest : List (Incoming δ)) :
    ofRequest r (msg :: rest) = ofRequest r rest :=
  List.filter_cons_of_neg (by simp [h])

theorem ofRequest_cons (msg : Incoming δ) (rest : List (Incoming δ)) :
    ofRequest r (msg :: rest) = ofRequest r [msg] ++ ofRequest r rest := by
  rw [← ofRequest_append]
  rfl

/-- What the places of a pass hold, and which requests an abort was called for. -/
structure Shape (s : State δ) : Prop where
  recv_nil : s.phase = .start ∨ s.phase = .working → s.recvMsgs = []
  idle_none : s.phase = .receiving ∨ s.phase = .handling ∨ s.phase = .working →
    s.idleWaitMessage = none
  removal_none : s.phase = .receiving ∨ s.phase = .ended → s.removal = none
  target : ∀ removal ∈ s.removal, removal.requestId ∈ s.aborts
  aborted : ∀ id ∈ s.abortedRequestIds, id ∈ s.aborts

/-- Unless `r` was aborted, its messages that were put are those handled and those that wait. -/
structure Kept (r : String) (s : State δ) : Prop extends Shape s where
  line : r ∉ s.aborts → ofRequest r s.handled ++ ofRequest r s.waiting = ofRequest r s.puts

theorem Shape.setHandled (h : Shape s) (running : Bool) (handled : List (Incoming δ)) :
    Shape { s with running := running, handled := handled } :=
  ⟨h.recv_nil, h.idle_none, h.removal_none, h.target, h.aborted⟩

theorem mem_rememberAborted {ids : List String} {id requestId : String}
    (h : id ∈ rememberAborted ids requestId) : id ∈ ids ∨ id = requestId := by
  unfold rememberAborted at h
  split at h
  · exact .inl h
  · split at h
    · rcases List.mem_append.mp h with h | h
      · exact .inl (List.mem_of_mem_drop h)
      · exact .inr (List.mem_singleton.mp h)
    · rcases List.mem_append.mp h with h | h
      · exact .inl h
      · exact .inr (List.mem_singleton.mp h)

theorem initial_kept : Kept r (State.initial : State δ) where
  recv_nil _ := rfl
  idle_none _ := rfl
  removal_none _ := rfl
  target _ h := by cases h
  aborted _ h := by cases h
  line _ := rfl

/-! ### An abort -/

theorem abort_queued (h : s.removal = none) (requestId : String) :
    (s.abort requestId).queued = s.queued := by
  simp [State.queued, State.abort, h]

theorem Kept.abort (h : Kept r s) (hnone : s.removal = none)
    (hphase : ¬(s.phase = .receiving ∨ s.phase = .ended)) (requestId : String) :
    Kept r (s.abort requestId) where
  recv_nil := h.recv_nil
  idle_none := h.idle_none
  removal_none hp := absurd hp hphase
  target removal hr := by
    cases hr
    simp [State.abort]
  aborted id hid := by
    rcases mem_rememberAborted hid with hid | rfl
    · exact List.mem_append_left _ (h.aborted id hid)
    · simp [State.abort]
  line hr := by
    have hold : r ∉ s.aborts := fun hm => hr (List.mem_append_left _ hm)
    have hsame : (s.abort requestId).waiting = s.waiting := by
      simp only [State.waiting, abort_queued hnone]
      rfl
    rw [hsame]
    exact h.line hold

theorem ofRequest_sortOut (removal : Removal δ) (msg : Incoming δ) (h : removal.requestId ≠ r) :
    ofRequest r (cfg.sortOut removal msg).retained =
      ofRequest r removal.retained ++ ofRequest r [msg] := by
  unfold Config.sortOut
  split
  · exact ofRequest_append ..
  · next hdrop =>
    have hother : msg.requestId ≠ r := by
      intro he
      exact hdrop (.inl fun e => h (e ▸ he))
    rw [ofRequest_cons_of_ne hother, ofRequest_nil, List.append_nil]

@[simp] theorem sortOut_requestId (removal : Removal δ) (msg : Incoming δ) :
    (cfg.sortOut removal msg).requestId = removal.requestId := by
  unfold Config.sortOut
  split <;> rfl

@[simp] theorem sortOut_isRefilling (removal : Removal δ) (msg : Incoming δ) :
    (cfg.sortOut removal msg).isRefilling = removal.isRefilling := by
  unfold Config.sortOut
  split <;> rfl

theorem Kept.setQueued (h : Kept r s) {inbox : List (Incoming δ)} {removal removal' : Removal δ}
    (hremoval : s.removal = some removal) (hid : removal'.requestId = removal.requestId)
    (hqueued : r ≠ removal.requestId →
      ofRequest r { s with inbox := inbox, removal := some removal' }.queued = ofRequest r s.queued) :
    Kept r { s with inbox := inbox, removal := some removal' } where
  recv_nil := h.recv_nil
  idle_none := h.idle_none
  removal_none hp := by
    rw [h.removal_none hp] at hremoval
    cases hremoval
  target found hfound := by
    cases hfound
    rw [hid]
    exact h.target removal hremoval
  aborted := h.aborted
  line hr := by
    have hne : r ≠ removal.requestId := fun he => hr (he ▸ h.target removal hremoval)
    simp only [State.waiting, ofRequest_append, hqueued hne]
    have hline := h.line hr
    simp only [State.waiting, ofRequest_append] at hline
    exact hline

theorem Kept.get (h : Kept r s) (hstep : step cfg s .get = some s') : Kept r s' := by
  simp only [step] at hstep
  split at hstep
  · cases hstep
  next removal hremoval =>
  split at hstep
  · cases hstep
  next hnot =>
  split at hstep
  · next hempty =>
    cases hstep
    have hsame : ofRequest r
        { s with inbox := s.inbox, removal := some { removal with isRefilling := true } }.queued =
          ofRequest r s.queued := by
      simp [State.queued, hremoval, hnot, hempty]
    exact h.setQueued hremoval rfl fun _ => hsame
  · next msg rest hinbox =>
    cases hstep
    refine h.setQueued hremoval (sortOut_requestId removal msg) fun hne => ?_
    simp only [State.queued, hremoval, sortOut_isRefilling, hnot, hinbox, ofRequest_append,
      Bool.false_eq_true, if_false]
    rw [ofRequest_sortOut removal msg hne.symm, ofRequest_cons msg rest, List.append_assoc]

theorem Kept.putBack (h : Kept r s) (hstep : step cfg s .putBack = some s') : Kept r s' := by
  simp only [step] at hstep
  split at hstep
  · cases hstep
  next removal hremoval =>
  split at hstep
  next hrefill =>
    split at hstep
    · next hempty =>
      cases hstep
      refine ⟨⟨h.recv_nil, h.idle_none, fun _ => rfl, fun _ hr => ?_, h.aborted⟩, fun hr => ?_⟩
      · cases hr
      have hline := h.line hr
      simp only [State.waiting, State.queued, hremoval, hrefill, hempty, if_true,
        List.append_nil] at hline ⊢
      exact hline
    · next msg rest hretained =>
      cases hstep
      refine h.setQueued hremoval rfl fun _ => ?_
      simp only [State.queued, hremoval, hrefill, hretained, if_true]
      simp
  next => cases hstep

/-! ### The steps of a pass -/

theorem Kept.put (h : Kept r s) {msg : Incoming δ} (hclear : clearFor r s (.put msg)) :
    Kept r { s with inbox := s.inbox ++ [msg], puts := s.puts ++ [msg] } where
  recv_nil := h.recv_nil
  idle_none := h.idle_none
  removal_none := h.removal_none
  target := h.target
  aborted := h.aborted
  line hr := by
    have hline := h.line hr
    -- The new message goes behind every other one of its request.
    have hlast : ofRequest r { s with inbox := s.inbox ++ [msg], puts := s.puts ++ [msg] }.queued =
        ofRequest r s.queued ++ ofRequest r [msg] := by
      simp only [State.queued]
      split
      · exact ofRequest_append ..
      next removal hremoval =>
      split
      · next hrefill =>
        by_cases he : msg.requestId = r
        · have hnone := hclear he removal hremoval hrefill
          simp only [ofRequest_append, hnone, List.append_nil]
        · simp only [ofRequest_append, ofRequest_cons_of_ne he, ofRequest_nil, List.append_nil]
      · simp only [ofRequest_append, List.append_assoc]
    simp only [State.waiting, ofRequest_append] at hline
    simp only [State.waiting, ofRequest_append, hlast]
    rw [← hline]
    simp only [List.append_assoc]

theorem Kept.receive (h : Kept r s) (hstep : step cfg s .receive = some s') : Kept r s' := by
  simp only [step] at hstep
  split at hstep
  next hat =>
    cases hstep
    have hnone : s.removal = none := Option.isNone_iff_eq_none.mp hat.1
    refine ⟨⟨fun hp => ?_, fun _ => rfl, fun _ => hnone, h.target, h.aborted⟩, fun hr => ?_⟩
    · rcases hp with hp | hp <;> cases hp
    · have hline := h.line hr
      simp only [State.waiting, h.recv_nil (.inl hat.2), List.nil_append] at hline
      simp only [State.waiting, Option.toList_none, List.append_nil]
      exact hline
  next => cases hstep

theorem Kept.take (h : Kept r s) (hstep : step cfg s .take = some s') : Kept r s' := by
  simp only [step] at hstep
  split at hstep
  next hphase =>
    have hnone := h.removal_none (.inl hphase)
    have hidle := h.idle_none (.inl hphase)
    split at hstep
    · cases hstep
      refine ⟨⟨fun hp => ?_, fun _ => hidle, fun _ => hnone, h.target, h.aborted⟩, h.line⟩
      rcases hp with hp | hp <;> cases hp
    · next msg rest hinbox =>
      cases hstep
      refine ⟨⟨fun hp => ?_, fun _ => hidle, fun _ => hnone, h.target, h.aborted⟩, fun hr => ?_⟩
      · rw [hphase] at hp
        rcases hp with hp | hp <;> cases hp
      · have hline := h.line hr
        simp only [State.waiting, State.queued, hnone, hidle, hinbox, Option.toList_none,
          List.append_nil] at hline ⊢
        rw [List.append_assoc]
        exact hline
  next => cases hstep

theorem Kept.handleOne (h : Kept r s) {msg : Incoming δ} {rest : List (Incoming δ)}
    (hnone : s.removal = none) (hphase : s.phase = .handling) (hrecv : s.recvMsgs = msg :: rest) :
    Kept r (cfg.handle { s with recvMsgs := rest } msg) := by
  have hdone : Kept r { s with recvMsgs := rest, handled := s.handled ++ [msg] } := by
    refine ⟨⟨fun hp => ?_, h.idle_none, h.removal_none, h.target, h.aborted⟩, fun hr => ?_⟩
    · rw [hphase] at hp
      rcases hp with hp | hp <;> cases hp
    · have hline := h.line hr
      simp only [State.waiting, hrecv, List.cons_append] at hline
      rw [ofRequest_cons] at hline
      simp only [State.waiting, ofRequest_append, List.append_assoc] at hline ⊢
      exact hline
  have hbetween : ¬(s.phase = .receiving ∨ s.phase = .ended) := by
    rw [hphase]
    rintro (hp | hp) <;> cases hp
  unfold Config.handle
  split
  · exact ⟨hdone.toShape.setHandled false _, hdone.line⟩
  · exact hdone.abort hnone hbetween msg.requestId
  · exact hdone
  all_goals
    split
    · next hskip =>
      refine ⟨hdone.toShape.setHandled s.running s.handled, fun hr => ?_⟩
      have hother : msg.requestId ≠ r := fun he => hr (he ▸ h.aborted _ hskip.1)
      have hline := hdone.line hr
      simp only [ofRequest_append, ofRequest_cons_of_ne hother, ofRequest_nil,
        List.append_nil] at hline
      exact hline
    · exact hdone

theorem Kept.handle (h : Kept r s) (hstep : step cfg s .handle = some s') : Kept r s' := by
  simp only [step] at hstep
  split at hstep
  next hat =>
    have hnone : s.removal = none := Option.isNone_iff_eq_none.mp hat.1
    split at hstep
    · next hempty =>
      cases hstep
      refine ⟨⟨fun _ => hempty, fun _ => h.idle_none (.inr (.inl hat.2)), fun _ => hnone, h.target,
        h.aborted⟩, h.line⟩
    · next msg rest hrecv =>
      cases hstep
      exact h.handleOne hnone hat.2 hrecv
  next => cases hstep

theorem Kept.loop (h : Kept r s) (hnone : s.removal = none) (hrecv : s.recvMsgs = []) :
    Kept r s.loop := by
  refine ⟨⟨fun _ => hrecv, fun hp => ?_, fun _ => hnone, h.target, h.aborted⟩, h.line⟩
  simp only [State.loop] at hp
  split at hp <;> rcases hp with hp | hp | hp <;> cases hp

theorem Kept.pass (h : Kept r s) (hstep : step cfg s .pass = some s') : Kept r s' := by
  simp only [step] at hstep
  split at hstep
  next hat =>
    cases hstep
    exact h.loop (Option.isNone_iff_eq_none.mp hat.1) (h.recv_nil (.inr hat.2))
  next => cases hstep

theorem Kept.sleep (h : Kept r s) (hstep : step cfg s .sleep = some s') : Kept r s' := by
  simp only [step] at hstep
  split at hstep
  next hat =>
    cases hstep
    have hnone : s.removal = none := Option.isNone_iff_eq_none.mp hat.1
    have hidle := h.idle_none (.inr (.inr hat.2))
    have hrecv := h.recv_nil (.inr hat.2)
    refine ⟨⟨fun _ => hrecv, fun hp => ?_, fun _ => hnone, h.target, h.aborted⟩, fun hr => ?_⟩
    · simp only [State.loop] at hp
      split at hp <;> rcases hp with hp | hp | hp <;> cases hp
    · have hline := h.line hr
      simp only [State.waiting, State.queued, State.loop, hnone, hrecv, hidle, List.nil_append,
        Option.toList_none] at hline ⊢
      cases hinbox : s.inbox with
      | nil =>
        rw [hinbox] at hline
        exact hline
      | cons msg rest =>
        rw [hinbox] at hline
        exact hline
  next => cases hstep

theorem step_kept {a : Action δ} (h : Kept r s) (hclear : clearFor r s a)
    (hstep : step cfg s a = some s') : Kept r s' := by
  cases a with
  | put msg =>
    cases hstep
    exact h.put hclear
  | stop =>
    cases hstep
    exact ⟨h.toShape.setHandled false s.handled, h.line⟩
  | abort requestId =>
    simp only [step] at hstep
    split at hstep
    next hmay =>
      cases hstep
      simp only [State.mayAbort, Bool.and_eq_true, Option.isNone_iff_eq_none, Bool.or_eq_true, beq_iff_eq] at hmay
      refine h.abort hmay.1 ?_ requestId
      rintro (hp | hp) <;> simp [hp] at hmay
    next => cases hstep
  | get => exact h.get hstep
  | putBack => exact h.putBack hstep
  | receive => exact h.receive hstep
  | take => exact h.take hstep
  | handle => exact h.handle hstep
  | pass => exact h.pass hstep
  | sleep => exact h.sleep hstep

theorem reaches_kept (h : (machine cfg).Reaches (clearFor r) s) : Kept r s :=
  h.invariant initial_kept fun _ _ _ hs hclear hstep => step_kept hs hclear hstep

/-! ### Nothing waits for ever -/

/-- The steps that the scheduler thread takes by itself: neither puts, nor a stop, nor a further
abort. -/
def ownStep (_ : State δ) : Action δ → Prop
  | .put _ | .stop | .abort _ => False
  | _ => True

theorem clearFor_of_ownStep (s : State δ) (a : Action δ) (h : ownStep s a) : clearFor r s a := by
  cases a <;> first | exact trivial | exact h.elim

structure Settles (cfg : Config δ) (s s' : State δ) : Prop where
  path : (machine cfg).Path ownStep s s'
  phase : s'.phase = s.phase
  recv : s'.recvMsgs = s.recvMsgs
  empty : s.queued = [] → s'.queued = []

theorem Settles.refl (s : State δ) : Settles cfg s s := ⟨.refl s, rfl, rfl, id⟩

theorem Settles.trans {s'' : State δ} (h : Settles cfg s s') (h' : Settles cfg s' s'') :
    Settles cfg s s'' :=
  ⟨h.path.trans h'.path, h'.phase.trans h.phase, h'.recv.trans h.recv, fun he =>
    h'.empty (h.empty he)⟩

theorem Settles.one {a : Action δ} (ha : ownStep s a) (hstep : step cfg s a = some s')
    (hphase : s'.phase = s.phase) (hrecv : s'.recvMsgs = s.recvMsgs)
    (hempty : s.queued = [] → s'.queued = []) : Settles cfg s s' :=
  ⟨(Machine.Path.refl s).tail ha hstep, hphase, hrecv, hempty⟩

variable (cfg) in
theorem settles_taking {removal : Removal δ} (hremoval : s.removal = some removal)
    (htaking : removal.isRefilling = false) :
    ∃ s' removal', Settles cfg s s' ∧ s'.removal = some removal' ∧ removal'.isRefilling = true := by
  induction hinbox : s.inbox generalizing s removal with
  | nil =>
    refine ⟨{ s with removal := some { removal with isRefilling := true } }, _, ?_, rfl, rfl⟩
    refine .one (a := .get) trivial ?_ rfl rfl fun he => ?_
    · simp [step, hremoval, htaking, hinbox]
    · simpa [State.queued, hremoval, htaking, hinbox] using he
  | cons msg rest ih =>
    have hone : Settles cfg s
        { s with inbox := rest, removal := some (cfg.sortOut removal msg) } := by
      refine .one (a := .get) trivial ?_ rfl rfl fun he => ?_
      · simp [step, hremoval, htaking, hinbox]
      · simp [State.queued, hremoval, htaking, hinbox] at he
    obtain ⟨s', removal', hs, hr, ht⟩ :=
      ih (s := { s with inbox := rest, removal := some (cfg.sortOut removal msg) }) rfl
        ((sortOut_isRefilling removal msg).trans htaking) rfl
    exact ⟨s', removal', hone.trans hs, hr, ht⟩

theorem settles_refilling {removal : Removal δ} (hremoval : s.removal = some removal)
    (hrefill : removal.isRefilling = true) : ∃ s', Settles cfg s s' ∧ s'.removal = none := by
  induction hretained : removal.retained generalizing s removal with
  | nil =>
    refine ⟨{ s with removal := none }, ?_, rfl⟩
    refine .one (a := .putBack) trivial ?_ rfl rfl fun he => ?_
    · simp [step, hremoval, hrefill, hretained]
    · simpa [State.queued, hremoval, hrefill, hretained] using he
  | cons msg rest ih =>
    have hone : Settles cfg s { s with
        inbox := s.inbox ++ [msg], removal := some { removal with retained := rest } } := by
      refine .one (a := .putBack) trivial ?_ rfl rfl fun he => ?_
      · simp [step, hremoval, hrefill, hretained]
      · simp [State.queued, hremoval, hrefill, hretained] at he
    obtain ⟨s', hs, hr⟩ := ih (s := { s with
      inbox := s.inbox ++ [msg], removal := some { removal with retained := rest } }) rfl hrefill rfl
    exact ⟨s', hone.trans hs, hr⟩

variable (cfg) in
theorem settles_removal (s : State δ) : ∃ s', Settles cfg s s' ∧ s'.removal = none := by
  cases hremoval : s.removal with
  | none => exact ⟨s, .refl s, hremoval⟩
  | some removal =>
    cases hrefill : removal.isRefilling with
    | true => exact settles_refilling hremoval hrefill
    | false =>
      obtain ⟨t, removal', ht, hr, hturned⟩ := settles_taking cfg hremoval hrefill
      obtain ⟨s', hs, hnone⟩ := settles_refilling hr hturned
      exact ⟨s', ht.trans hs, hnone⟩

theorem handle_phase (msg : Incoming δ) : (cfg.handle s msg).phase = s.phase := by
  unfold Config.handle
  split <;> first | rfl | (split <;> rfl)

theorem handle_recvMsgs (msg : Incoming δ) : (cfg.handle s msg).recvMsgs = s.recvMsgs := by
  unfold Config.handle
  split <;> first | rfl | (split <;> rfl)

theorem handle_puts (msg : Incoming δ) : (cfg.handle s msg).puts = s.puts := by
  unfold Config.handle
  split <;> first | rfl | (split <;> rfl)

theorem handle_queued (hnone : s.removal = none) (msg : Incoming δ) :
    (cfg.handle s msg).queued = s.queued := by
  unfold Config.handle
  split
  · rfl
  · exact abort_queued hnone msg.requestId
  · rfl
  all_goals
    split <;> rfl

variable (cfg) in
theorem handles_all (hphase : s.phase = .handling) :
    ∃ s', (machine cfg).Path ownStep s s' ∧ s'.phase = .working ∧ s'.removal = none ∧
      (s.queued = [] → s'.queued = []) := by
  induction hrecv : s.recvMsgs generalizing s with
  | nil =>
    obtain ⟨t, ht, hnone⟩ := settles_removal cfg s
    have hempty : t.recvMsgs = [] := ht.recv.trans hrecv
    refine ⟨{ t with phase := .working }, ht.path.tail (a := .handle) trivial ?_, rfl, hnone,
      ht.empty⟩
    simp [machine, step, hnone, ht.phase, hphase, hempty]
  | cons msg rest ih =>
    obtain ⟨t, ht, hnone⟩ := settles_removal cfg s
    have hfirst : t.recvMsgs = msg :: rest := ht.recv.trans hrecv
    have hat : t.phase = .handling := ht.phase.trans hphase
    obtain ⟨s', hpath, hworking, hdone, hempty⟩ :=
      ih (s := cfg.handle { t with recvMsgs := rest } msg)
        ((handle_phase msg).trans hat) (handle_recvMsgs msg)
    have hone : (machine cfg).step t .handle = some (cfg.handle { t with recvMsgs := rest } msg) := by
      simp [machine, step, hnone, hat, hfirst]
    have hown : ownStep t .handle := trivial
    refine ⟨s', (ht.path.tail hown hone).trans hpath, hworking, hdone, fun he => hempty ?_⟩
    rw [handle_queued (s := { t with recvMsgs := rest }) hnone]
    exact ht.empty he

variable (cfg) in
theorem takes_all (hphase : s.phase = .receiving) (hnone : s.removal = none) :
    ∃ s', (machine cfg).Path ownStep s s' ∧ s'.phase = .handling ∧ s'.queued = [] := by
  induction hinbox : s.inbox generalizing s with
  | nil =>
    refine ⟨{ s with phase := .handling }, (Machine.Path.refl s).tail (a := .take) trivial ?_, rfl,
      ?_⟩
    · simp [machine, step, hphase, hinbox]
    · simp [State.queued, hnone, hinbox]
  | cons msg rest ih =>
    obtain ⟨s', hpath, hhandling, hempty⟩ :=
      ih (s := { s with inbox := rest, recvMsgs := s.recvMsgs ++ [msg] }) hphase hnone rfl
    refine ⟨s', ((Machine.Path.refl s).tail (a := .take) trivial ?_).trans hpath, hhandling, hempty⟩
    simp [machine, step, hphase, hinbox]

structure GoesOn (s : State δ) : Prop where
  running : s.running = true
  phase : s.phase ≠ .ended
  waiting : ∀ msg ∈ s.waiting, msg.type ≠ .stop

theorem mem_queued {msg : Incoming δ} :
    msg ∈ s.queued ↔ msg ∈ s.inbox ∨ ∃ removal ∈ s.removal, msg ∈ removal.retained := by
  unfold State.queued
  cases hremoval : s.removal with
  | none => simp
  | some removal =>
    simp only [Option.mem_some_iff, exists_eq_left']
    split
    · exact List.mem_append
    · exact List.mem_append.trans or_comm

theorem mem_waiting {msg : Incoming δ} :
    msg ∈ s.waiting ↔ msg ∈ s.recvMsgs ∨ s.idleWaitMessage = some msg ∨ msg ∈ s.queued := by
  simp only [State.waiting, List.mem_append, Option.mem_toList, or_assoc]

theorem mem_sortOut {removal : Removal δ} {msg kept : Incoming δ}
    (h : kept ∈ (cfg.sortOut removal msg).retained) : kept ∈ removal.retained ∨ kept = msg := by
  unfold Config.sortOut at h
  split at h
  · rcases List.mem_append.mp h with h | h
    · exact .inl h
    · exact .inr (List.mem_singleton.mp h)
  · exact .inl h

theorem handle_goesOn {msg : Incoming δ} (h : GoesOn s) (hnone : s.removal = none)
    (htype : msg.type ≠ .stop) : GoesOn (cfg.handle s msg) := by
  have hwaiting : (cfg.handle s msg).waiting = s.waiting := by
    simp only [State.waiting, handle_recvMsgs, handle_queued hnone]
    unfold Config.handle
    split <;> first | rfl | (split <;> rfl)
  refine ⟨?_, ?_, ?_⟩
  · unfold Config.handle
    split
    · next hstop => exact absurd hstop htype
    · exact h.running
    · exact h.running
    all_goals
      split <;> exact h.running
  · rw [handle_phase]
    exact h.phase
  · rw [hwaiting]
    exact h.waiting

theorem step_goesOn {a : Action δ} (h : GoesOn s) (hown : ownStep s a)
    (hstep : step cfg s a = some s') : GoesOn s' := by
  have hwaiting := h.waiting
  cases a with
  | put _ | stop | abort _ => exact hown.elim
  | get =>
    simp only [step] at hstep
    split at hstep
    · cases hstep
    next removal hremoval =>
    split at hstep
    · cases hstep
    split at hstep
    · cases hstep
      refine ⟨h.running, h.phase, fun msg hmsg => hwaiting msg ?_⟩
      simp only [mem_waiting, mem_queued, hremoval] at hmsg ⊢
      simpa using hmsg
    · next first rest hinbox =>
      cases hstep
      refine ⟨h.running, h.phase, fun msg hmsg => hwaiting msg ?_⟩
      simp only [mem_waiting, mem_queued, hremoval, hinbox, Option.mem_some_iff,
        exists_eq_left'] at hmsg ⊢
      rcases hmsg with hm | hm | hm | hm
      · exact .inl hm
      · exact .inr (.inl hm)
      · exact .inr (.inr (.inl (List.mem_cons_of_mem _ hm)))
      · rcases mem_sortOut hm with hm | rfl
        · exact .inr (.inr (.inr hm))
        · exact .inr (.inr (.inl List.mem_cons_self))
  | putBack =>
    simp only [step] at hstep
    split at hstep
    · cases hstep
    next removal hremoval =>
    split at hstep
    next =>
      split at hstep
      · cases hstep
        refine ⟨h.running, h.phase, fun msg hmsg => hwaiting msg ?_⟩
        simp only [mem_waiting, mem_queued, hremoval, Option.mem_some_iff, exists_eq_left'] at hmsg ⊢
        simp only [Option.not_mem_none, false_and, exists_false, or_false] at hmsg
        rcases hmsg with hm | hm | hm
        · exact .inl hm
        · exact .inr (.inl hm)
        · exact .inr (.inr (.inl hm))
      · next first rest hretained =>
        cases hstep
        refine ⟨h.running, h.phase, fun msg hmsg => hwaiting msg ?_⟩
        simp only [mem_waiting, mem_queued, hremoval, hretained, Option.mem_some_iff,
          exists_eq_left', List.mem_append, List.mem_cons] at hmsg ⊢
        tauto
    next => cases hstep
  | receive =>
    simp only [step] at hstep
    split at hstep
    next =>
      cases hstep
      refine ⟨h.running, nofun, fun msg hmsg => hwaiting msg ?_⟩
      simp only [mem_waiting, Option.mem_toList, reduceCtorEq, false_or] at hmsg ⊢
      rcases hmsg with hm | hm
      · exact .inr (.inl hm)
      · exact .inr (.inr hm)
    next => cases hstep
  | take =>
    simp only [step] at hstep
    split at hstep
    next hphase =>
      split at hstep
      · cases hstep
        exact ⟨h.running, nofun, hwaiting⟩
      · next first rest hinbox =>
        cases hstep
        refine ⟨h.running, h.phase, fun msg hmsg => hwaiting msg ?_⟩
        simp only [mem_waiting, mem_queued, hinbox, List.mem_append, List.mem_cons] at hmsg ⊢
        tauto
    next => cases hstep
  | handle =>
    simp only [step] at hstep
    split at hstep
    next hat =>
      split at hstep
      · cases hstep
        exact ⟨h.running, nofun, hwaiting⟩
      · next msg rest hrecv =>
        cases hstep
        have htype : msg.type ≠ .stop :=
          hwaiting msg (mem_waiting.mpr (.inl (hrecv ▸ List.mem_cons_self)))
        refine handle_goesOn (s := { s with recvMsgs := rest }) ?_
          (Option.isNone_iff_eq_none.mp hat.1) htype
        refine ⟨h.running, h.phase, fun other hother => hwaiting other ?_⟩
        rcases mem_waiting.mp hother with hm | hm | hm
        · exact mem_waiting.mpr (.inl (hrecv ▸ List.mem_cons_of_mem _ hm))
        · exact mem_waiting.mpr (.inr (.inl hm))
        · exact mem_waiting.mpr (.inr (.inr hm))
    next => cases hstep
  | pass =>
    simp only [step] at hstep
    split at hstep
    next =>
      cases hstep
      refine ⟨h.running, ?_, hwaiting⟩
      simp [State.loop, h.running]
    next => cases hstep
  | sleep =>
    simp only [step] at hstep
    split at hstep
    next hat =>
      cases hstep
      refine ⟨h.running, by simp [State.loop, h.running], fun msg hmsg => hwaiting msg ?_⟩
      simp only [mem_waiting, mem_queued, State.loop] at hmsg ⊢
      rcases hmsg with hm | hm | hm | hm
      · exact .inl hm
      · exact .inr (.inr (.inl (List.mem_of_mem_head? hm)))
      · exact .inr (.inr (.inl (List.mem_of_mem_tail hm)))
      · exact .inr (.inr (.inr hm))
    next => cases hstep

theorem own_kept (h : Kept r s) (hpath : (machine cfg).Path ownStep s s') : Kept r s' :=
  hpath.invariant h fun _ _ _ hs hown hstep => step_kept hs (clearFor_of_ownStep _ _ hown) hstep

theorem own_goesOn (h : GoesOn s) (hpath : (machine cfg).Path ownStep s s') : GoesOn s' :=
  hpath.invariant h fun _ _ _ hs hown hstep => step_goesOn hs hown hstep

variable (cfg) in
theorem drains_of_handling (h : Kept r s) (hphase : s.phase = .handling) (hempty : s.queued = []) :
    ∃ s', (machine cfg).Path ownStep s s' ∧ s'.waiting = [] := by
  obtain ⟨s', hpath, hworking, -, hqueued⟩ := handles_all cfg hphase
  have hkept := own_kept h hpath
  refine ⟨s', hpath, ?_⟩
  simp [State.waiting, hkept.recv_nil (.inr hworking),
    hkept.idle_none (.inr (.inr hworking)), hqueued hempty]

variable (cfg) in
theorem drains_of_receiving (h : Kept r s) (hphase : s.phase = .receiving) :
    ∃ s', (machine cfg).Path ownStep s s' ∧ s'.waiting = [] := by
  obtain ⟨t, hpath, hhandling, hempty⟩ :=
    takes_all cfg hphase (h.removal_none (.inl hphase))
  obtain ⟨s', hrest, hnothing⟩ := drains_of_handling cfg (own_kept h hpath) hhandling hempty
  exact ⟨s', hpath.trans hrest, hnothing⟩

variable (cfg) in
theorem drains_of_start (h : Kept r s) (hphase : s.phase = .start) :
    ∃ s', (machine cfg).Path ownStep s s' ∧ s'.waiting = [] := by
  obtain ⟨t, ht, hnone⟩ := settles_removal cfg s
  have hreceive : (machine cfg).step t .receive =
      some { t with
        recvMsgs := t.idleWaitMessage.toList, idleWaitMessage := none, phase := .receiving } := by
    simp [machine, step, hnone, ht.phase, hphase]
  have hown : ownStep t .receive := trivial
  have hpath := ht.path.tail hown hreceive
  obtain ⟨s', hrest, hnothing⟩ := drains_of_receiving cfg (own_kept h hpath) rfl
  exact ⟨s', hpath.trans hrest, hnothing⟩

variable (cfg) in
theorem drains_of_working (h : Kept r s) (hon : GoesOn s) (hphase : s.phase = .working) :
    ∃ s', (machine cfg).Path ownStep s s' ∧ s'.waiting = [] := by
  obtain ⟨t, ht, hnone⟩ := settles_removal cfg s
  have hpass : (machine cfg).step t .pass = some t.loop := by
    simp [machine, step, hnone, ht.phase, hphase]
  have hown : ownStep t .pass := trivial
  have hpath := ht.path.tail hown hpass
  have hstart : t.loop.phase = .start := by
    simp [State.loop, (own_goesOn hon ht.path).running]
  obtain ⟨s', hrest, hnothing⟩ := drains_of_start cfg (own_kept h hpath) hstart
  exact ⟨s', hpath.trans hrest, hnothing⟩

variable (cfg) in
theorem drains (h : Kept r s) (hon : GoesOn s) :
    ∃ s', (machine cfg).Path ownStep s s' ∧ s'.waiting = [] := by
  cases hphase : s.phase with
  | start => exact drains_of_start cfg h hphase
  | receiving => exact drains_of_receiving cfg h hphase
  | handling =>
    obtain ⟨t, hpath, hworking, -⟩ := handles_all cfg hphase
    obtain ⟨s', hrest, hnothing⟩ :=
      drains_of_working cfg (own_kept h hpath) (own_goesOn hon hpath) hworking
    exact ⟨s', hpath.trans hrest, hnothing⟩
  | working => exact drains_of_working cfg h hon hphase
  | ended => exact absurd hphase hon.phase

/-- The messages of a request that is not aborted are handled in the order they were put: at every
moment those handled are the first of those put and the others wait, and while the loop goes on the
scheduler thread comes to handle them all. -/
structure HandledInOrder (cfg : Config δ) (r : String) (s : State δ) : Prop where
  order : ofRequest r s.handled <+: ofRequest r s.puts
  once : ofRequest r s.handled ++ ofRequest r s.waiting = ofRequest r s.puts
  all : GoesOn s → ∃ s', (machine cfg).Path ownStep s s' ∧
    (r ∉ s'.aborts → ofRequest r s'.handled = ofRequest r s.puts)

theorem ownStep_puts {a : Action δ} (hown : ownStep s a) (hstep : step cfg s a = some s') :
    s'.puts = s.puts := by
  cases a with
  | put _ | stop | abort _ => exact hown.elim
  | handle =>
    simp only [step] at hstep
    split at hstep
    next =>
      split at hstep
      · cases hstep
        rfl
      · cases hstep
        exact handle_puts _
    next => cases hstep
  | get | putBack | receive | take | pass | sleep =>
    simp only [step] at hstep
    repeat' split at hstep
    all_goals
      cases hstep
      try rfl

theorem handled_in_order (h : (machine cfg).Reaches (clearFor r) s) (hr : r ∉ s.aborts) :
    HandledInOrder cfg r s := by
  have hkept := reaches_kept h
  have hline := hkept.line hr
  refine ⟨?_, hline, fun hon => ?_⟩
  · rw [← hline]
    exact List.prefix_append ..
  · obtain ⟨s', hpath, hnothing⟩ := drains cfg hkept hon
    refine ⟨s', hpath, fun hr' => ?_⟩
    have hputs : s'.puts = s.puts :=
      hpath.invariant (P := fun t => t.puts = s.puts) rfl fun _ _ _ hs hown hstep =>
        (ownStep_puts hown hstep).trans hs
    have hline' := (own_kept hkept hpath).line hr'
    rw [hnothing, ofRequest_nil, List.append_nil, hputs] at hline'
    exact hline'

def plain : Config Nat := ⟨false, fun _ => false⟩

def chunk (requestId : String) (number : Nat) : Incoming Nat := ⟨requestId, .streamChunk, number⟩

/-- An abort takes a message of the other request out and puts it back before the next one comes. -/
def keptRun : List (Action Nat) :=
  [.put (chunk "live" 1), .put (chunk "gone" 1), .abort "gone", .get, .get, .get, .putBack, .putBack,
    .put (chunk "live" 2), .receive, .take, .take, .take, .handle, .handle]

theorem handled_in_order_after_abort :
    ∃ s, (machine plain).Reaches (clearFor "live") s ∧ "live" ∉ s.aborts ∧
      HandledInOrder plain "live" s ∧
      ofRequest "live" s.handled = [chunk "live" 1, chunk "live" 2] := by
  have hrun : ((machine plain).execWhere (fun s a => match a with
      | .put _ => s.removal.isNone
      | _ => true) .initial keptRun).any (fun s => decide ("live" ∉ s.aborts ∧
        ofRequest "live" s.handled = [chunk "live" 1, chunk "live" 2])) = true := by
    decide +kernel
  obtain ⟨s, hs, hend⟩ := (Option.any_eq_true _ _).mp hrun
  have hend := of_decide_eq_true hend
  have hreaches : (machine plain).Reaches (clearFor "live") s := by
    refine Machine.path_of_execWhere (fun s a ha => ?_) hs
    cases a with
    | put msg =>
      intro _ removal hremoval
      have hnone : s.removal = none := Option.isNone_iff_eq_none.mp ha
      rw [hnone] at hremoval
      cases hremoval
    | _ => exact trivial
  exact ⟨s, hreaches, hend.1, handled_in_order hreaches hend.1, hend.2⟩

/-- The second chunk is put between the last `get` of an abort and its first `put`. -/
def overtakenRun : List (Action Nat) :=
  [.put (chunk "live" 1), .abort "gone", .get, .get, .put (chunk "live" 2), .putBack, .putBack,
    .receive, .take, .take, .take, .handle, .handle]

theorem handled_in_order_overtaken :
    ¬ ∀ s, (machine plain).Reaches Machine.anyAction s → "live" ∉ s.aborts →
      HandledInOrder plain "live" s := by
  intro hall
  have hrun : ((machine plain).exec .initial overtakenRun).any (fun s =>
      decide ("live" ∉ s.aborts ∧
        ofRequest "live" s.handled = [chunk "live" 2, chunk "live" 1] ∧
        ofRequest "live" s.puts = [chunk "live" 1, chunk "live" 2])) = true := by
    decide +kernel
  obtain ⟨s, hs, hend⟩ := (Option.any_eq_true _ _).mp hrun
  obtain ⟨hlive, hhandled, hputs⟩ := of_decide_eq_true hend
  have horder := (hall s (Machine.path_of_exec hs) hlive).order
  rw [hhandled, hputs] at horder
  exact absurd horder (by decide)

end Inbox

end Omni
