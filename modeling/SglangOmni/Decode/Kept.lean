import SglangOmni.Decode.Ledger

/-! What holds along every run of the hand-over.  `handover_kept` says that each reserved range has
one holder, is freed at most once, and is admitted at most once and for no aborted request. -/

namespace Decode

open Lib

variable {cfg : Config} {s s' t : State} {a : Admission}

def State.settled (s : State) : List Admission :=
  s.waitingQueue ++ s.taken ++ s.released ++ s.freed

def State.appended (s : State) : List Admission := s.waitingQueue ++ s.taken ++ s.released

structure Messages (s : State) : Prop where
  once : (s.outbox.map Admitted.range).Nodup
  settled : ∀ m ∈ s.outbox, m.range ∈ s.settled.map Admission.range
  notAborted : ∀ m ∈ s.outbox, m.requestId ∉ m.abortedAt
  appended : ∀ b ∈ s.appended, ∃ m ∈ s.outbox, m.range = b.range ∧
    m.requestId = b.continuation.requestId

structure Kept (cfg : Config) (s : State) : Prop extends Balanced cfg s, Messages s where
  closed : s.isDiscarding = true ∨ s.isDiscarded = true → s.closed = true

theorem weigh_pos {n : Nat} {l : List Admission} (h : n ∈ l.map Admission.range) :
    1 ≤ weigh (hasRange n) l := by
  induction l with
  | nil => simp at h
  | cons b rest ih =>
    have hrest := weigh_nonneg (hasRange_nonneg n) rest
    have hb := hasRange_nonneg n b
    rw [weigh_cons]
    rcases List.mem_cons.mp h with he | hr
    · have hone : hasRange n b = 1 := if_pos he.symm
      omega
    · have := ih hr
      omega

/-! ### One admission -/

/-- `t` is `s` with one admission taken out of the queue or out of the deferred place. -/
structure TakenOut (a : Admission) (s t : State) : Prop where
  live : ∀ w, s.live w = t.live w + w a
  deferred : t.pdDeferredAdmission = none
  freed : t.freed = s.freed
  released : t.released = s.released
  available : t.available = s.available
  nextRange : t.nextRange = s.nextRange
  outbox : t.outbox = s.outbox
  waitingQueue : t.waitingQueue = s.waitingQueue
  taken : t.taken = s.taken
  discard : t.isDiscarding = s.isDiscarding ∧ t.isDiscarded = s.isDiscarded ∧ t.closed = s.closed

theorem TakenOut.settled (h : TakenOut a s t) : t.settled = s.settled := by
  simp only [State.settled, h.waitingQueue, h.taken, h.freed, h.released]

theorem TakenOut.appended (h : TakenOut a s t) : t.appended = s.appended := by
  simp only [State.appended, h.waitingQueue, h.taken, h.released]

theorem TakenOut.fresh (h : TakenOut a s t) (hs : Balanced cfg s) :
    a.range ∉ s.settled.map Admission.range := by
  intro hmem
  rw [← h.settled] at hmem
  have hone : hasRange a.range a = 1 := if_pos rfl
  have hlive := h.live (hasRange a.range)
  have hranges := hs.ranges a.range
  rw [← h.freed, ← h.released] at hranges
  have hnonneg := fun l => weigh_nonneg (hasRange_nonneg a.range) l
  have htotal := Dict.total_nonneg (d := t.reservations) fun _ b _ => hasRange_nonneg a.range b
  have hadmissions := hnonneg t.pdAdmissions
  have hdeferred := hnonneg t.pdDeferredAdmission.toList
  have hpopped := hnonneg t.popped
  have hpos := weigh_pos hmem
  simp only [State.settled, weigh_append] at hpos
  rw [hlive] at hranges
  simp only [State.live] at hranges
  split at hranges <;> omega

theorem Messages.grow (h : Messages s) (houtbox : s'.outbox = s.outbox)
    (hsettled : ∀ n, n ∈ s.settled.map Admission.range → n ∈ s'.settled.map Admission.range)
    (happended : ∀ b ∈ s'.appended, b ∈ s.appended) : Messages s' := by
  constructor
  · rw [houtbox]
    exact h.once
  · rw [houtbox]
    exact fun m hm => hsettled _ (h.settled m hm)
  · rw [houtbox]
    exact h.notAborted
  · rw [houtbox]
    exact fun b hb => h.appended b (happended b hb)

theorem Messages.send (h : Messages s) {aborted : List String}
    (hfresh : a.range ∉ s.settled.map Admission.range)
    (haborted : a.continuation.requestId ∉ aborted)
    (houtbox : s'.outbox =
      s.outbox ++ [⟨a.range, a.continuation.requestId, a.replicaBindings, aborted⟩])
    (hsettled : ∀ n, n ∈ s.settled.map Admission.range → n ∈ s'.settled.map Admission.range)
    (ha : a.range ∈ s'.settled.map Admission.range)
    (happended : ∀ b ∈ s'.appended, b ∈ s.appended ∨ b = a) : Messages s' := by
  have hnew : a.range ∉ s.outbox.map Admitted.range := by
    intro hmem
    obtain ⟨m, hm, he⟩ := List.mem_map.mp hmem
    exact hfresh (he ▸ h.settled m hm)
  constructor
  · rw [houtbox, List.map_append, List.nodup_append]
    refine ⟨h.once, List.nodup_singleton _, fun n hn n' hn' he => ?_⟩
    rw [he, List.mem_singleton.mp hn'] at hn
    exact hnew hn
  · intro m hm
    rw [houtbox] at hm
    rcases List.mem_append.mp hm with hm | hm
    · exact hsettled _ (h.settled m hm)
    · rw [List.mem_singleton.mp hm]
      exact ha
  · intro m hm
    rw [houtbox] at hm
    rcases List.mem_append.mp hm with hm | hm
    · exact h.notAborted m hm
    · rw [List.mem_singleton.mp hm]
      exact haborted
  · intro b hb
    rw [houtbox]
    rcases happended b hb with hb | rfl
    · obtain ⟨m, hm, he⟩ := h.appended b hb
      exact ⟨m, List.mem_append_left _ hm, he⟩
    · exact ⟨_, List.mem_append_right _ (List.mem_singleton_self _), rfl, rfl⟩

theorem admission_kept (hs : Kept cfg s) (h : TakenOut a s t) (install : Install) :
    Kept cfg (t.admission install a).1 := by
  have hfresh := h.fresh hs.toBalanced
  have hclosed : t.isDiscarding = true ∨ t.isDiscarded = true → t.closed = true := by
    rw [h.discard.1, h.discard.2.1, h.discard.2.2]
    exact hs.closed
  unfold State.admission
  split
  · refine ⟨hs.toBalanced.movedTo [a] [] ⟨fun w => ?_, ?_, ?_, ?_, ?_⟩,
      hs.toMessages.grow h.outbox (fun n hn => ?_) (fun b hb => ?_), hclosed⟩
    · have hlive := h.live w
      simp only [State.live, State.free, weigh_cons, weigh_nil, h.deferred] at hlive ⊢
      omega
    · simp [State.free, h.freed]
    · simp [State.free, h.released]
    · simp [State.free, h.available]
    · exact h.nextRange
    · rw [← h.settled] at hn
      simp only [State.settled, State.free, List.map_append, List.mem_append] at hn ⊢
      tauto
    · rw [← h.appended]
      exact hb
  next hlive' =>
  cases install with
  | exhausted =>
    refine ⟨hs.toBalanced.movedTo [] [] (.same (fun w => ?_) h.freed h.released
      h.available h.nextRange), hs.toMessages.grow h.outbox (fun n hn => ?_) (fun b hb => ?_),
      hclosed⟩
    · have hlive := h.live w
      simp only [State.live, h.deferred, Option.toList_some, Option.toList_none, weigh_cons,
        weigh_nil] at hlive ⊢
      omega
    · rw [← h.settled] at hn
      exact hn
    · rw [← h.appended]
      exact hb
  | failed =>
    refine ⟨hs.toBalanced.movedTo [a] [] ⟨fun w => ?_, ?_, ?_, ?_, ?_⟩,
      hs.toMessages.send hfresh hlive' ?_ (fun n hn => ?_) ?_ (fun b hb => ?_), hclosed⟩
    · have hlive := h.live w
      simp only [State.live, State.free, weigh_cons, weigh_nil, h.deferred] at hlive ⊢
      omega
    · simp [State.free, h.freed]
    · simp [State.free, h.released]
    · simp [State.free, h.available]
    · exact h.nextRange
    · simp only [State.free, h.outbox, State.admitted]
    · rw [← h.settled] at hn
      simp only [State.settled, State.free, List.map_append, List.mem_append] at hn ⊢
      tauto
    · simp [State.settled, State.free]
    · rw [← h.appended]
      exact .inl hb
  | installed =>
    refine ⟨hs.toBalanced.movedTo [] [] (.same (fun w => ?_) h.freed h.released
      h.available h.nextRange),
      hs.toMessages.send hfresh hlive' ?_ (fun n hn => ?_) ?_ (fun b hb => ?_), hclosed⟩
    · have hlive := h.live w
      simp only [State.live, h.deferred, weigh_append, weigh_cons, weigh_nil] at hlive ⊢
      omega
    · simp only [h.outbox, State.admitted]
    · rw [← h.settled] at hn
      simp only [State.settled, List.map_append, List.mem_append] at hn ⊢
      tauto
    · simp [State.settled]
    · rw [← h.appended]
      simp only [State.appended, List.mem_append, List.mem_singleton] at hb ⊢
      tauto

theorem admission_pdAdmissions (install : Install) :
    (t.admission install a).1.pdAdmissions = t.pdAdmissions := by
  unfold State.admission
  split
  · rfl
  · cases install <;> rfl

theorem admission_deferred {install : Install} (h : (t.admission install a).2 = true) :
    (t.admission install a).1.pdDeferredAdmission = none := by
  unfold State.admission at h ⊢
  split
  · rfl
  next halive =>
  rw [if_neg halive] at h
  cases install with
  | exhausted => cases h
  | failed => rfl
  | installed => rfl

theorem drainQueue_kept (install : Admission → Install) (queue : List Admission)
    (h : Kept cfg s) (hqueue : s.pdAdmissions = queue) (hdeferred : s.pdDeferredAdmission = none) :
    Kept cfg (drainQueue install queue s) := by
  induction queue generalizing s with
  | nil =>
    have hsame : { s with pdAdmissions := [] } = s := by rw [← hqueue]
    rw [drainQueue, hsame]
    exact h
  | cons a rest ih =>
    have htaken : TakenOut a s { s with pdAdmissions := rest } := by
      refine ⟨fun w => ?_, hdeferred, rfl, rfl, rfl, rfl, rfl, rfl, rfl, rfl, rfl, rfl⟩
      simp only [State.live, hqueue, weigh_cons]
      omega
    have hround := admission_kept h htaken (install a)
    simp only [drainQueue]
    split
    · next hgoes => exact ih hround (admission_pdAdmissions _) (admission_deferred hgoes)
    · exact hround

theorem admission_clear (install : Install) :
    s.admission install a = { s with pdDeferredAdmission := none }.admission install a := by
  unfold State.admission
  split
  · rfl
  · cases install <;> rfl

theorem drain_kept (h : Kept cfg s) (install : Admission → Install) : Kept cfg (s.drain install) := by
  unfold State.drain
  split
  · next hnone => exact drainQueue_kept install s.pdAdmissions h rfl hnone
  · next a hsome =>
    have htaken : TakenOut a s { s with pdDeferredAdmission := none } := by
      refine ⟨fun w => ?_, rfl, rfl, rfl, rfl, rfl, rfl, rfl, rfl, rfl, rfl, rfl⟩
      simp only [State.live, hsome, Option.toList_some, Option.toList_none, weigh_cons, weigh_nil]
      omega
    have hround := admission_kept h htaken (install a)
    rw [← admission_clear] at hround
    simp only
    split
    · next hgoes => exact drainQueue_kept install _ hround rfl (admission_deferred hgoes)
    · exact hround

/-! ### Every step -/

theorem mem_range_erase {l : List Admission} {n : Nat} (h : n ∈ l.map Admission.range) :
    n ∈ (l.erase a).map Admission.range ∨ n = a.range := by
  obtain ⟨b, hb, rfl⟩ := List.mem_map.mp h
  by_cases he : b = a
  · exact .inr (by rw [he])
  · exact .inl (List.mem_map_of_mem ((List.mem_erase_of_ne he).mpr hb))

theorem step_kept {action : Action} (h : Kept cfg s) (hstep : step cfg s action = some s') :
    Kept cfg s' := by
  cases action with
  | reserve request answer =>
    simp only [step] at hstep
    split at hstep
    next hfree =>
      cases hstep
      rcases reserve_cases cfg (s := s) request answer with
        ⟨e, he⟩ | ⟨a, rfl, hrange, hget, -, he⟩
      · rw [he]
        exact h
      · rw [he]
        exact ⟨reserved_balanced h.toBalanced hget hrange hfree,
          h.toMessages.grow rfl (fun _ hn => hn) (fun _ hb => hb), h.closed⟩
    next => cases hstep
  | commit request destination =>
    cases hstep
    obtain ⟨lost, hmoved⟩ := commit_moved cfg (s := s) request destination
    refine ⟨h.toBalanced.moved hmoved, ?_, ?_⟩
    · unfold Config.commit
      split
      · exact h.toMessages
      · simp only
        split
        · refine h.toMessages.grow rfl (fun n hn => ?_) (fun b hb => hb)
          simp only [State.settled, State.free, List.map_append, List.mem_append] at hn ⊢
          tauto
        · exact h.toMessages.grow rfl (fun _ hn => hn) (fun _ hb => hb)
    · unfold Config.commit
      split
      · exact h.closed
      · simp only
        split <;> exact h.closed
  | abortTransfer transferId =>
    cases hstep
    refine ⟨h.toBalanced.moved (abortTransfer_moved transferId), ?_, ?_⟩
    · unfold State.abortTransfer
      split
      · exact h.toMessages
      · exact h.toMessages.grow rfl (fun _ hn => hn) (fun _ hb => hb)
    · unfold State.abortTransfer
      split <;> exact h.closed
  | freePopped range =>
    simp only [step] at hstep
    split at hstep
    · cases hstep
    next a hfound =>
    cases hstep
    refine ⟨h.toBalanced.moved (freePopped_moved (List.mem_of_find?_eq_some hfound)),
      h.toMessages.grow rfl (fun n hn => ?_) (fun b hb => hb), h.closed⟩
    simp only [State.settled, State.free, List.map_append, List.mem_append] at hn ⊢
    tauto
  | setAccepting accepting =>
    cases hstep
    exact ⟨⟨h.ranges, h.slots⟩, ⟨h.once, h.settled, h.notAborted, h.appended⟩, h.closed⟩
  | close =>
    cases hstep
    exact ⟨⟨h.ranges, h.slots⟩, ⟨h.once, h.settled, h.notAborted, h.appended⟩, fun _ => rfl⟩
  | drain install =>
    cases hstep
    exact drain_kept h install
  | abort requestId =>
    cases hstep
    refine ⟨h.toBalanced.moved (abort_moved requestId),
      h.toMessages.grow rfl (fun n hn => ?_) (fun b hb => ?_), h.closed⟩
    · simp only [State.settled, List.map_append, List.mem_append, List.mem_map] at hn
      simp only [State.settled, State.abort, List.map_append, List.mem_append, List.mem_map,
        List.mem_filter, decide_eq_true_eq]
      rcases hn with ((⟨b, hb, he⟩ | hn) | hn) | hn
      · by_cases hid : b.continuation.requestId = requestId
        · exact .inl (.inl (.inr (.inr ⟨b, ⟨hb, hid⟩, he⟩)))
        · exact .inl (.inl (.inl ⟨b, ⟨hb, hid⟩, he⟩))
      · exact .inl (.inl (.inr (.inl hn)))
      · exact .inl (.inr hn)
      · exact .inr hn
    · simp only [State.appended, State.abort, List.mem_append, List.mem_filter] at hb ⊢
      tauto
  | schedule range =>
    simp only [step] at hstep
    split at hstep
    · cases hstep
    next a hfound =>
    cases hstep
    have ha := List.mem_of_find?_eq_some hfound
    refine ⟨h.toBalanced.moved (schedule_moved ha),
      h.toMessages.grow rfl (fun n hn => ?_) (fun b hb => ?_), h.closed⟩
    · simp only [State.settled, List.map_append, List.mem_append] at hn ⊢
      rcases hn with ((hn | hn) | hn) | hn
      · rcases mem_range_erase (a := a) hn with hn | rfl
        · exact .inl (.inl (.inl hn))
        · exact .inl (.inl (.inr (.inr (by simp))))
      · exact .inl (.inl (.inr (.inl hn)))
      · exact .inl (.inr hn)
      · exact .inr hn
    · simp only [State.appended, List.mem_append, List.mem_singleton] at hb ⊢
      rcases hb with (hb | hb | rfl) | hb
      · exact .inl (.inl (List.mem_of_mem_erase hb))
      · exact .inl (.inr hb)
      · exact .inl (.inl ha)
      · exact .inr hb
  | release range =>
    simp only [step] at hstep
    split at hstep
    · cases hstep
    next a hfound =>
    cases hstep
    have ha := List.mem_of_find?_eq_some hfound
    refine ⟨h.toBalanced.moved (release_moved ha),
      h.toMessages.grow rfl (fun n hn => ?_) (fun b hb => ?_), h.closed⟩
    · simp only [State.settled, List.map_append, List.mem_append] at hn ⊢
      rcases hn with ((hn | hn) | hn) | hn
      · exact .inl (.inl (.inl hn))
      · rcases mem_range_erase (a := a) hn with hn | rfl
        · exact .inl (.inl (.inr hn))
        · exact .inl (.inr (.inr (by simp)))
      · exact .inl (.inr (.inl hn))
      · exact .inr hn
    · simp only [State.appended, List.mem_append, List.mem_singleton] at hb ⊢
      rcases hb with (hb | hb) | hb | rfl
      · exact .inl (.inl hb)
      · exact .inl (.inr (List.mem_of_mem_erase hb))
      · exact .inr hb
      · exact .inl (.inr ha)
  | discard =>
    cases hstep
    exact ⟨⟨h.ranges, h.slots⟩, ⟨h.once, h.settled, h.notAborted, h.appended⟩, fun _ => rfl⟩
  | finishDiscard =>
    simp only [step] at hstep
    split at hstep
    next hdiscarding =>
      cases hstep
      refine ⟨h.toBalanced.moved finishDiscard_moved,
        h.toMessages.grow rfl (fun n hn => ?_) (fun b hb => hb), fun _ => h.closed (.inl hdiscarding)⟩
      simp only [State.settled, State.finishDiscard, List.map_append, List.mem_append] at hn ⊢
      tauto
    next => cases hstep

theorem initial_kept : Kept cfg cfg.initial := by
  refine ⟨initial_balanced, ⟨List.nodup_nil, ?_, ?_, ?_⟩, ?_⟩
  · intro m hm
    cases hm
  · intro m hm
    cases hm
  · intro b hb
    cases hb
  · rintro (hd | hd) <;> cases hd

theorem reaches_kept (h : (handover cfg).Reaches Machine.anyAction s) : Kept cfg s :=
  h.invariant initial_kept fun _ _ _ hs _ hstep => step_kept hs hstep

/-! ### After the receiver was closed -/

structure NothingJoins (s s' : State) : Prop where
  closed : s'.closed = true
  queued : s'.queued = s.queued
  pdAdmissions : s'.pdAdmissions <:+ s.pdAdmissions

theorem NothingJoins.same (hclosed : s'.closed = true) (hqueued : s'.queued = s.queued)
    (hadmissions : s'.pdAdmissions = s.pdAdmissions) : NothingJoins s s' :=
  ⟨hclosed, hqueued, hadmissions ▸ List.suffix_rfl⟩

theorem NothingJoins.trans {s'' : State} (h : NothingJoins s s') (h' : NothingJoins s' s'') :
    NothingJoins s s'' :=
  ⟨h'.closed, h'.queued.trans h.queued, h'.pdAdmissions.trans h.pdAdmissions⟩

theorem admission_nothingJoins (hclosed : t.closed = true) (install : Install) :
    NothingJoins t (t.admission install a).1 := by
  refine .same ?_ ?_ (admission_pdAdmissions install)
  · unfold State.admission
    split
    · exact hclosed
    · cases install <;> exact hclosed
  · unfold State.admission
    split
    · rfl
    · cases install <;> rfl

theorem drainQueue_nothingJoins (install : Admission → Install) (queue : List Admission)
    (hclosed : s.closed = true) (hqueue : s.pdAdmissions = queue) :
    NothingJoins s (drainQueue install queue s) := by
  induction queue generalizing s with
  | nil => exact ⟨hclosed, rfl, List.nil_suffix⟩
  | cons a rest ih =>
    have htake : NothingJoins s { s with pdAdmissions := rest } :=
      ⟨hclosed, rfl, hqueue ▸ List.suffix_cons a rest⟩
    have hround := htake.trans (admission_nothingJoins htake.closed (a := a) (install a))
    simp only [drainQueue]
    split
    · exact hround.trans (ih hround.closed (admission_pdAdmissions _))
    · exact hround

theorem drain_nothingJoins (hclosed : s.closed = true) (install : Admission → Install) :
    NothingJoins s (s.drain install) := by
  unfold State.drain
  split
  · exact drainQueue_nothingJoins install _ hclosed rfl
  · next a _ =>
    have hround := admission_nothingJoins hclosed (a := a) (install a)
    simp only
    split
    · exact hround.trans (drainQueue_nothingJoins install _ hround.closed rfl)
    · exact hround

theorem step_nothingJoins {action : Action} (hclosed : s.closed = true)
    (hstep : step cfg s action = some s') : NothingJoins s s' := by
  cases action with
  | reserve request answer =>
    simp only [step] at hstep
    split at hstep
    next =>
      cases hstep
      rcases reserve_cases cfg (s := s) request answer with
        ⟨e, he⟩ | ⟨a, -, -, -, hopen, -⟩
      · rw [he]
        exact .same hclosed rfl rfl
      · rw [hopen] at hclosed
        cases hclosed
    next => cases hstep
  | commit request destination =>
    cases hstep
    unfold Config.commit
    split
    · exact .same hclosed rfl rfl
    · simp only
      rw [if_pos (.inl hclosed)]
      exact .same hclosed rfl rfl
  | abortTransfer transferId =>
    cases hstep
    unfold State.abortTransfer
    split <;> exact .same hclosed rfl rfl
  | drain install =>
    cases hstep
    exact drain_nothingJoins hclosed install
  | setAccepting _ | abort _ =>
    cases hstep
    exact .same hclosed rfl rfl
  | close | discard =>
    cases hstep
    exact .same rfl rfl rfl
  | freePopped _ | schedule _ | release _ =>
    simp only [step] at hstep
    split at hstep
    · cases hstep
    · cases hstep
      exact .same hclosed rfl rfl
  | finishDiscard =>
    simp only [step] at hstep
    split at hstep
    next =>
      cases hstep
      exact ⟨hclosed, rfl, List.nil_suffix⟩
    next => cases hstep

theorem path_nothingJoins (hclosed : s.closed = true)
    (hpath : (handover cfg).Path Machine.anyAction s s') : NothingJoins s s' :=
  hpath.invariant (.same hclosed rfl rfl) fun _ _ _ h _ hstep =>
    h.trans (step_nothingJoins h.closed hstep)

/-! ### The hand-over -/

def State.reserving (s : State) : List Admission := s.reservations.entries.map Prod.snd

def State.holding (s : State) : List Admission :=
  s.reserving ++ s.pdAdmissions ++ s.pdDeferredAdmission.toList ++ s.waitingQueue ++ s.taken ++
    s.popped

theorem weigh_holding (w : Admission → Int) : weigh w s.holding = s.live w := by
  have hreserving : weigh w s.reserving = s.reservations.total w := by
    simp only [weigh, State.reserving, Dict.total, List.map_map]
    rfl
  simp only [State.holding, State.live, weigh_append, hreserving]

theorem weigh_hasRange (n : Nat) (l : List Admission) :
    weigh (hasRange n) l = ((l.map Admission.range).count n : Int) := by
  induction l with
  | nil => rfl
  | cons b rest ih =>
    rw [weigh_cons, ih, List.map_cons, List.count_cons, hasRange]
    by_cases he : b.range = n <;> simp [he, Int.add_comm]

/-- What holds at every moment: each reserved range is in exactly one of the holders, the slots of the
live ranges and the free ones make up the pool, no range is admitted twice or for a request that is
aborted, a `reserve` that raises changes nothing, and nothing joins the admissions after a discard. -/
structure HandoverKept (cfg : Config) (s : State) : Prop where
  oneHolder : ((s.reserving ++ s.pdAdmissions ++ s.pdDeferredAdmission.toList ++ s.appended ++
    s.popped ++ s.freed).map Admission.range).Perm (List.range s.nextRange)
  pool : (s.available ++ s.holding.flatMap Admission.slots).Perm cfg.pool
  admittedOnce : (s.outbox.map Admitted.range).Nodup
  admittedAlive : ∀ m ∈ s.outbox, m.requestId ∉ m.abortedAt
  appendedAdmitted : ∀ b ∈ s.appended, ∃ m ∈ s.outbox, m.range = b.range ∧
    m.requestId = b.continuation.requestId
  raises : ∀ request answer e, (cfg.reserve s request answer).2 = .error e →
    (cfg.reserve s request answer).1 = s
  discarded : s.isDiscarded = true → ∀ s', (handover cfg).Path Machine.anyAction s s' →
    s'.queued = s.queued ∧ s'.pdAdmissions <:+ s.pdAdmissions

theorem handover_kept (h : (handover cfg).Reaches Machine.anyAction s) : HandoverKept cfg s := by
  have hkept := reaches_kept h
  refine ⟨?_, ?_, hkept.once, hkept.notAborted, hkept.appended, ?_, ?_⟩
  · rw [List.perm_iff_count]
    intro n
    have hranges := hkept.ranges n
    rw [← weigh_holding, weigh_hasRange, weigh_hasRange, weigh_hasRange] at hranges
    simp only [State.holding, List.map_append, List.count_append] at hranges
    simp only [State.appended, List.map_append, List.count_append]
    have hrange : (List.range s.nextRange).count n = if n < s.nextRange then 1 else 0 := by
      rw [List.nodup_range.count]
      exact if_congr List.mem_range rfl rfl
    rw [hrange]
    split at hranges <;> simp only [*, if_true, if_false] <;> omega
  · rw [List.perm_iff_count]
    intro slot
    have hslots := hkept.slots slot
    rw [← weigh_holding, weigh_hasSlot] at hslots
    rw [List.count_append]
    omega
  · intro request answer e he
    rcases reserve_cases cfg (s := s) request answer with ⟨e', he'⟩ | ⟨a, -, -, -, -, he'⟩
    · rw [he']
    · rw [he'] at he
      cases he
  · intro hdiscarded s' hpath
    have hjoins := path_nothingJoins (hkept.closed (.inr hdiscarded)) hpath
    exact ⟨hjoins.queued, hjoins.pdAdmissions⟩

def fourSlots : Config := ⟨"decode:kv", "v1", [0, 1, 2, 3], by decide⟩

def twoTokens (transferId requestId : String) : Prepare :=
  ⟨transferId, requestId, "decode:kv", .decoded ⟨requestId, transferId, [5, 6], none⟩, [8, 9], []⟩

/-- One transfer is admitted, and one is aborted after it was committed. -/
def twoTransfers : List Action :=
  [.reserve (twoTokens "t1" "a") (some [0, 1]), .reserve (twoTokens "t2" "b") (some [2, 3]),
    .commit (twoTokens "t1" "a") ⟨"decode:kv", [0, 1]⟩,
    .commit (twoTokens "t2" "b") ⟨"decode:kv", [2, 3]⟩, .abort "b", .drain fun _ => .installed,
    .discard, .finishDiscard]

theorem handover_kept_twoTransfers :
    ∃ s, (handover fourSlots).Reaches Machine.anyAction s ∧ HandoverKept fourSlots s ∧
      s.waitingQueue.map Admission.range = [0] ∧ s.freed.map Admission.range = [1] := by
  have hrun : ((handover fourSlots).exec fourSlots.initial twoTransfers).any (fun s =>
      decide (s.waitingQueue.map Admission.range = [0] ∧ s.freed.map Admission.range = [1])) =
        true := by
    decide +kernel
  obtain ⟨s, hs, hend⟩ := (Option.any_eq_true _ _).mp hrun
  have hreaches : (handover fourSlots).Reaches Machine.anyAction s := Machine.path_of_exec hs
  exact ⟨s, hreaches, handover_kept hreaches, of_decide_eq_true hend⟩

end Decode
