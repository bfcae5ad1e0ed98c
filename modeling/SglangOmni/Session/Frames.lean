import SglangOmni.Session.Segments

/-! What the moves of a session graph leave alone: the close, the places of the other routing tasks
and what has entered the client's queue. -/

namespace Session

open Lib Proto Relation

variable {cfg : Config} {a : Action}

/-! ### What confirmations, appends, fences and reads can touch -/

theorem confirms_frame {s s' : State} (h : ReflTransGen (ConfirmMove cfg) s s') :
    ∃ eosConfirmed pendingInputDone drains clientSequences outputs outputBytes nextOutput entered,
      s' = { s with
        eosConfirmed := eosConfirmed
        pendingInputDone := pendingInputDone
        drains := drains
        clientSequences := clientSequences
        outputs := outputs
        outputBytes := outputBytes
        nextOutput := nextOutput
        entered := entered } := by
  induction h with
  | refl => exact ⟨_, _, _, _, _, _, _, _, rfl⟩
  | tail _ hlast ih =>
    obtain ⟨_, _, _, _, _, _, _, _, rfl⟩ := ih
    cases hlast <;> exact ⟨_, _, _, _, _, _, _, _, rfl⟩

theorem append_frame {s s' : State} (h : ReflTransGen (AppendMove cfg) s s') :
    ∃ inboxes eosConfirmed pendingInputDone drains clientSequences outputs outputBytes nextOutput
      entered endInput pacers modalityEndMs endedModalities nextInput,
      s' = { s with
        inboxes := inboxes
        eosConfirmed := eosConfirmed
        pendingInputDone := pendingInputDone
        drains := drains
        clientSequences := clientSequences
        outputs := outputs
        outputBytes := outputBytes
        nextOutput := nextOutput
        entered := entered
        endInput := endInput
        pacers := pacers
        modalityEndMs := modalityEndMs
        endedModalities := endedModalities
        nextInput := nextInput } := by
  induction h with
  | refl => exact ⟨_, _, _, _, _, _, _, _, _, _, _, _, _, _, rfl⟩
  | tail _ hlast ih =>
    obtain ⟨_, _, _, _, _, _, _, _, _, _, _, _, _, _, rfl⟩ := ih
    cases hlast with
    | confirm hconfirm => cases hconfirm <;> exact ⟨_, _, _, _, _, _, _, _, _, _, _, _, _, _, rfl⟩
    | drop => exact ⟨_, _, _, _, _, _, _, _, _, _, _, _, _, _, rfl⟩
    | hand => exact ⟨_, _, _, _, _, _, _, _, _, _, _, _, _, _, rfl⟩

theorem fenceTurn_frame {s : State} {target : String} {turn : Turn} {ran : Ran}
    (h : fenceTurn cfg s target turn = ran) :
    ∃ inboxes sessions interruptedTurns pacers outputs outputBytes fenced,
      ran.state = { s with
        inboxes := inboxes
        sessions := sessions
        interruptedTurns := interruptedTurns
        pacers := pacers
        outputs := outputs
        outputBytes := outputBytes
        fenced := fenced } := by
  subst h
  simp only [fenceTurn]
  split
  · exact ⟨_, _, _, _, _, _, _, rfl⟩
  · split <;> exact ⟨_, _, _, _, _, _, _, rfl⟩

theorem readOutput_frame {s s' : State} (h : readOutput cfg s = some s') :
    ∃ outputs outputBytes yielded pacers,
      s' = { s with
        outputs := outputs, outputBytes := outputBytes, yielded := yielded, pacers := pacers } := by
  unfold readOutput at h
  split at h
  · cases h
  · simp only [Option.some.injEq] at h
    split at h <;> (cases h; exact ⟨_, _, _, _, rfl⟩)

theorem routeInputDone_frame {s : State} {n : String} {output : OutputChunk} :
    ∃ s₁, ReflTransGen (ConfirmMove cfg) s s₁ ∧ ∃ routers hasCloseTask,
      routeInputDone cfg s n output =
        { s₁ with routers := routers, hasCloseTask := hasCloseTask } := by
  obtain ⟨s₁, hmoves, hend | hend⟩ : ∃ s₁, ReflTransGen (ConfirmMove cfg) s s₁ ∧ _ :=
    routeInputDone_moves s n output
  · exact ⟨s₁, hmoves, _, _, hend⟩
  · exact ⟨s₁, hmoves, _, _, hend⟩

/-! ### The close -/

/-- A close that has begun does not end, and the graph is closing only once it has begun. -/
structure CloseKept (s s' : State) : Prop where
  begun : s.hasCloseTask = true → s'.hasCloseTask = true
  closing : s'.isClosing = true → s.isClosing = true ∨ s'.hasCloseTask = true

theorem CloseKept.was_open {s s' : State} (h : CloseKept s s') (hopen : s'.hasCloseTask = false) :
    s.hasCloseTask = false := by
  by_contra hclosed
  rw [h.begun (Bool.not_eq_false _ ▸ hclosed)] at hopen
  cases hopen

theorem CloseKept.same {s s' : State}
    (h : (s'.hasCloseTask, s'.isClosing) = (s.hasCloseTask, s.isClosing)) : CloseKept s s' := by
  obtain ⟨hbegun, hclosing⟩ : s'.hasCloseTask = s.hasCloseTask ∧ s'.isClosing = s.isClosing := by
    simpa using h
  exact ⟨fun hs => hbegun.trans hs, fun hs => .inl (hclosing ▸ hs)⟩

theorem CloseKept.begins {s s' : State} (h : s'.hasCloseTask = true) : CloseKept s s' :=
  ⟨fun _ => h, fun _ => .inr h⟩

theorem CloseKept.trans {s₁ s₂ s₃ : State} (h : CloseKept s₁ s₂) (h' : CloseKept s₂ s₃) :
    CloseKept s₁ s₃ := by
  refine ⟨fun hs => h'.begun (h.begun hs), fun hs => ?_⟩
  rcases h'.closing hs with hmid | hend
  · rcases h.closing hmid with hstart | hbegun
    · exact .inl hstart
    · exact .inr (h'.begun hbegun)
  · exact .inr hend

theorem CloseKept.put {s s' : State} {target source : String} {chunk : TimedChunk} {via : Emission}
    (h : putGraphInbox cfg s target source chunk via = .done s') : CloseKept s s' := by
  obtain ⟨inbox, rfl⟩ := putGraphInbox_inboxes h
  exact .same rfl

theorem CloseKept.fence {s : State} {target : String} {turn : Turn} {ran : Ran}
    (h : fenceTurn cfg s target turn = ran) : CloseKept s ran.state := by
  obtain ⟨_, _, _, _, _, _, _, hsame⟩ := fenceTurn_frame h
  rw [hsame]
  exact .same rfl

theorem CloseKept.confirms {s s' : State} (h : ReflTransGen (ConfirmMove cfg) s s') :
    CloseKept s s' := by
  obtain ⟨_, _, _, _, _, _, _, _, rfl⟩ := confirms_frame h
  exact .same rfl

theorem CloseKept.append {s s' : State} (h : ReflTransGen (AppendMove cfg) s s') :
    CloseKept s s' := by
  obtain ⟨_, _, _, _, _, _, _, _, _, _, _, _, _, _, rfl⟩ := append_frame h
  exact .same rfl

theorem CloseKept.route {s s' : State} {n : String} (h : RouteMove cfg n s s') : CloseKept s s' := by
  cases h with
  | @confirm output size rest hplace houtputs hdone =>
    obtain ⟨s₁, hmoves, hend⟩ : ∃ s₁, ReflTransGen (ConfirmMove cfg) (s.popOutput n rest size) s₁ ∧ _ :=
      routeInputDone_moves _ n output
    have hpop : CloseKept s (s.popOutput n rest size) := .same rfl
    rcases hend with hend | hend
    · rw [hend]
      exact hpop.trans (.confirms hmoves)
    · rw [hend]
      exact .begins rfl
  | @data output hplace htargets =>
    obtain ⟨outputEndMs, replyStartMs, hclock⟩ := routeClock_eq cfg s n output
    rw [hclock]
    exact .same rfl
  | put hplace hput => exact (CloseKept.put hput).trans (.same rfl)
  | fail => exact .begins rfl
  | _ => exact .same rfl

theorem CloseKept.deliver {s s' : State} {n : String} (h : DeliverMove cfg n s s') :
    CloseKept s s' := by
  cases h with
  | releaseFails => exact .begins rfl
  | put hplace hput => exact (CloseKept.put hput).trans (.same rfl)
  | fail => exact .begins rfl
  | _ => exact .same rfl

theorem CloseKept.forward {s s' : State} {n : String} (h : ForwardMove cfg n s s') :
    CloseKept s s' := by
  cases h with
  | startFails => exact .begins rfl
  | fragmentFails => exact .begins rfl
  | fail => exact .begins rfl
  | _ => exact .same rfl

theorem CloseKept.read {s s' : State} (h : readOutput cfg s = some s') : CloseKept s s' := by
  obtain ⟨_, _, _, _, rfl⟩ := readOutput_frame h
  exact .same rfl

theorem CloseKept.move {s s' : State} (h : Move cfg a s s') : CloseKept s s' := by
  cases h with
  | report _ hput => exact .put hput
  | fence _ _ hfence => exact .fence hfence
  | fenceRaises hfence => exact .fence hfence
  | append happend => exact .append (appendGraph_moves happend)
  | appendRaises happend => exact .append (appendGraph_moves happend)
  | read hread => exact .read hread
  | forward _ hmove => exact .forward hmove
  | route _ hmove => exact .route hmove
  | deliver _ _ hmove => exact .deliver hmove
  | drain _ _ hemit =>
    obtain ⟨-, -, rfl⟩ := emitGraphInputDone_ok hemit
    exact .same rfl
  | stopDrain => exact .begins rfl
  | stopForwarder => exact .begins rfl
  | close => exact .begins rfl
  | startClose hbegun => exact ⟨fun h => h, fun _ => .inr hbegun⟩
  | @cancel _ task _ => cases task <;> exact .same rfl
  | _ => exact .same rfl

/-! ### Places of the other routing tasks -/

theorem confirms_routers {s s' : State} (h : ReflTransGen (ConfirmMove cfg) s s') :
    s'.routers = s.routers := by
  obtain ⟨_, _, _, _, _, _, _, _, rfl⟩ := confirms_frame h
  rfl

theorem append_routers {s s' : State} (h : ReflTransGen (AppendMove cfg) s s') :
    s'.routers = s.routers := by
  obtain ⟨_, _, _, _, _, _, _, _, _, _, _, _, _, _, rfl⟩ := append_frame h
  rfl

theorem put_routers {s s' : State} {target source : String} {chunk : TimedChunk} {via : Emission}
    (h : putGraphInbox cfg s target source chunk via = .done s') : s'.routers = s.routers := by
  obtain ⟨inbox, rfl⟩ := putGraphInbox_inboxes h
  rfl

theorem RouteMove.routers_other {s s' : State} {n m : String} (h : RouteMove cfg n s s')
    (hm : m ≠ n) : s'.routers m = s.routers m := by
  have hset : ∀ (s : State) (r : Router), (s.setRouter n r).routers m = s.routers m :=
    fun s r => Function.update_of_ne hm _ _
  cases h with
  | take => exact hset _ _
  | drop => rfl
  | @confirm output size rest hplace houtputs hdone =>
    obtain ⟨s₁, hmoves, hend⟩ : ∃ s₁, ReflTransGen (ConfirmMove cfg) (s.popOutput n rest size) s₁ ∧ _ :=
      routeInputDone_moves _ n output
    have hsame : s₁.routers m = s.routers m := congrFun (confirms_routers hmoves) m
    rcases hend with hend | hend
    · rw [hend, hsame]
    · rw [hend]
      exact (hset _ _).trans hsame
  | delivery => rfl
  | suspend => exact hset _ _
  | consume => exact hset _ _
  | @data output hplace htargets =>
    obtain ⟨outputEndMs, replyStartMs, hclock⟩ := routeClock_eq cfg s n output
    rw [hclock]
    exact hset _ _
  | put hplace hput => exact (hset _ _).trans (congrFun (put_routers hput) m)
  | discard => exact hset _ _
  | offer => exact hset _ _
  | publish => exact hset _ _
  | block => exact hset _ _
  | unblock => exact hset _ _
  | fail => exact hset _ _

theorem DeliverMove.routers {s s' : State} {n : String} (h : DeliverMove cfg n s s') :
    s'.routers = s.routers := by
  cases h with
  | put hplace hput =>
    have hsame := put_routers hput
    exact hsame
  | _ => rfl

theorem readOutput_routers {s s' : State} (h : readOutput cfg s = some s') :
    s'.routers = s.routers := by
  obtain ⟨_, _, _, _, rfl⟩ := readOutput_frame h
  rfl

theorem Move.router {s s' : State} (h : Move cfg a s s') (n : String) :
    (s'.routers n = s.routers n ∨ s'.routers n = .stopped) ∨
      n ∈ cfg.graph.names ∧ a = .route n ∧ RouteMove cfg n s s' := by
  cases h with
  | report _ hput => exact .inl (.inl (congrFun (put_routers hput) n))
  | @fence _ _ _ target turn _ _ hfence =>
    exact .inl (.inl (congrFun ((fenceTurn_routers s target turn).1 s' hfence) n))
  | @fenceRaises _ _ _ target turn hfence =>
    exact .inl (.inl (congrFun ((fenceTurn_routers s target turn).2 s' hfence) n))
  | append happend => exact .inl (.inl (congrFun (append_routers (appendGraph_moves happend)) n))
  | appendRaises happend =>
    exact .inl (.inl (congrFun (append_routers (appendGraph_moves happend)) n))
  | read hread => exact .inl (.inl (congrFun (readOutput_routers hread) n))
  | forward _ hmove => cases hmove <;> exact .inl (.inl rfl)
  | @route _ _ m hnode hmove =>
    by_cases hm : n = m
    · subst hm
      exact .inr ⟨hnode, rfl, hmove⟩
    · exact .inl (.inl (hmove.routers_other hm))
  | deliver _ _ hmove => exact .inl (.inl (congrFun hmove.routers n))
  | drain _ _ hemit =>
    obtain ⟨-, -, rfl⟩ := emitGraphInputDone_ok hemit
    exact .inl (.inl rfl)
  | @cancel _ task _ =>
    cases task with
    | router m =>
      by_cases hm : n = m
      · subst hm
        exact .inl (.inr (State.routers_setRouter s n .stopped))
      · exact .inl (.inl (Function.update_of_ne hm _ _))
    | _ => exact .inl (.inl rfl)
  | _ => exact .inl (.inl rfl)

theorem Move.routers_other {s s' : State} (h : Move cfg a s s') {n : String} (hn : a ≠ .route n) :
    s'.routers n = s.routers n ∨ s'.routers n = .stopped :=
  (h.router n).resolve_right fun hroute => hn hroute.2.1

/-! ### What enters the client's queue -/

/-- How an output enters the client's queue: it confirms an input, a routing task publishes it, now or
after a wait, or the pacer let it out. -/
inductive Entrance (cfg : Config) (s : State) : QueuedOutput → Prop
  | confirmed {item : QueuedOutput} (hkind : item.output.kind = .inputDone)
      (hturn : item.output.turn = none) (hemission : item.emission = none) : Entrance cfg s item
  | published {n : String} {output : OutputChunk} {size : Nat} {s₁ : State}
      (hnode : n ∈ cfg.graph.names) (hplace : s.routers n = .putting output [])
      (hpaced : cfg.graph.isPaced n = false) : Entrance cfg s (publishedOutput cfg s₁ n output size)
  | unblocked {n : String} {item : QueuedOutput} (hnode : n ∈ cfg.graph.names)
      (hplace : s.routers n = .publishing item) : Entrance cfg s item
  | sent {n : String} {output : OutputChunk} {size : Nat} {rest : List Budgeted} {s₁ : State}
      (hnode : n ∈ cfg.graph.names) (hpaced : cfg.graph.isPaced n = true)
      (hplace : s.deliverers n = .sending) (hunsent : (s.pacers n).unsent = (output, size) :: rest)
      (hwanted : s.isInterrupted n (outputChunk output) = false) :
      Entrance cfg s (publishedOutput cfg s₁ n output size)

/-- The outputs that a move puts on the client's queue; the others there were there before. -/
def Entrances (cfg : Config) (s s' : State) : Prop :=
  ∃ new, s'.entered = s.entered ++ new ∧
    (∀ item ∈ s'.outputs, item ∈ s.outputs ∨ item ∈ new) ∧ ∀ item ∈ new, Entrance cfg s item

theorem Entrances.none {s s' : State} (hentered : s'.entered = s.entered)
    (houtputs : ∀ item ∈ s'.outputs, item ∈ s.outputs) : Entrances cfg s s' :=
  ⟨[], by rw [hentered, List.append_nil], fun item hitem => .inl (houtputs item hitem),
    fun item hitem => (by cases hitem)⟩

theorem Entrances.one {s s' : State} {item : QueuedOutput} (h : Entrance cfg s item)
    (hentered : s'.entered = s.entered ++ [item]) (houtputs : s'.outputs = s.outputs ++ [item]) :
    Entrances cfg s s' := by
  refine ⟨[item], hentered, fun x hx => ?_, fun x hx => ?_⟩
  · rwa [houtputs, List.mem_append] at hx
  · rw [List.mem_singleton.mp hx]
    exact h

def OnlyConfirmations (s s' : State) : Prop :=
  ∃ new, s'.entered = s.entered ++ new ∧ (∀ item ∈ s'.outputs, item ∈ s.outputs ∨ item ∈ new) ∧
    ∀ item ∈ new, item.output.kind = .inputDone ∧ item.output.turn = none ∧ item.emission = none

theorem OnlyConfirmations.refl (s : State) : OnlyConfirmations s s :=
  ⟨[], (List.append_nil _).symm, fun _ hitem => .inl hitem, fun _ hitem => (by cases hitem)⟩

theorem OnlyConfirmations.trans {s₁ s₂ s₃ : State} (h : OnlyConfirmations s₁ s₂)
    (h' : OnlyConfirmations s₂ s₃) : OnlyConfirmations s₁ s₃ := by
  obtain ⟨new, hentered, houtputs, hnew⟩ := h
  obtain ⟨new', hentered', houtputs', hnew'⟩ := h'
  refine ⟨new ++ new', ?_, fun item hitem => ?_, fun item hitem => ?_⟩
  · rw [hentered', hentered, List.append_assoc]
  · rcases houtputs' item hitem with hmid | hlate
    · rcases houtputs item hmid with hold | hearly
      · exact .inl hold
      · exact .inr (List.mem_append_left _ hearly)
    · exact .inr (List.mem_append_right _ hlate)
  · rcases List.mem_append.mp hitem with hearly | hlate
    · exact hnew item hearly
    · exact hnew' item hlate

theorem OnlyConfirmations.confirms {s s' : State} (h : ReflTransGen (ConfirmMove cfg) s s') :
    OnlyConfirmations s s' := by
  induction h with
  | refl => exact .refl s
  | tail _ hlast ih =>
    refine ih.trans ?_
    cases hlast with
    | note => exact .refl _
    | emit =>
      refine ⟨_, rfl, fun item hitem => List.mem_append.mp hitem, fun item hitem => ?_⟩
      rw [List.mem_singleton.mp hitem]
      exact ⟨rfl, rfl, rfl⟩

theorem OnlyConfirmations.append {s s' : State} (h : ReflTransGen (AppendMove cfg) s s') :
    OnlyConfirmations s s' := by
  induction h with
  | refl => exact .refl s
  | tail _ hlast ih =>
    refine ih.trans ?_
    cases hlast with
    | confirm hconfirm => exact .confirms (.single hconfirm)
    | drop => exact .refl _
    | hand => exact .refl _

theorem OnlyConfirmations.entrances {s s₁ s' : State} (h : OnlyConfirmations s s')
    (hstart : (s.outputs, s.entered) = (s₁.outputs, s₁.entered)) : Entrances cfg s₁ s' := by
  obtain ⟨houtputs, hentered⟩ : s.outputs = s₁.outputs ∧ s.entered = s₁.entered := by
    simpa using hstart
  obtain ⟨new, hnew, hout, hall⟩ := h
  rw [houtputs] at hout
  rw [hentered] at hnew
  refine ⟨new, hnew, hout, fun item hitem => ?_⟩
  obtain ⟨hkind, hturn, hemission⟩ := hall item hitem
  exact .confirmed hkind hturn hemission

theorem Entrances.put {s s' : State} {target source : String} {chunk : TimedChunk} {via : Emission}
    (h : putGraphInbox cfg s target source chunk via = .done s') : Entrances cfg s s' := by
  obtain ⟨inbox, rfl⟩ := putGraphInbox_inboxes h
  exact .none rfl fun item hitem => hitem

theorem Entrances.fence {s : State} {target : String} {turn : Turn} {ran : Ran}
    (h : fenceTurn cfg s target turn = ran) : Entrances cfg s ran.state := by
  subst h
  simp only [fenceTurn]
  split
  · exact .none rfl fun item hitem => hitem
  · split
    · exact .none rfl fun item hitem => (List.mem_filter.mp hitem).1
    · exact .none rfl fun item hitem => hitem

theorem Entrances.route {s s' : State} {n : String} (hnode : n ∈ cfg.graph.names)
    (h : RouteMove cfg n s s') : Entrances cfg s s' := by
  cases h with
  | @confirm output size rest hplace houtputs hdone =>
    obtain ⟨s₁, hmoves, _, _, hend⟩ : ∃ s₁, ReflTransGen (ConfirmMove cfg)
        (s.popOutput n rest size) s₁ ∧ _ := routeInputDone_frame
    rw [hend]
    exact (OnlyConfirmations.confirms hmoves).entrances rfl
  | @data output hplace htargets =>
    obtain ⟨outputEndMs, replyStartMs, hclock⟩ := routeClock_eq cfg s n output
    rw [hclock]
    exact .none rfl fun item hitem => hitem
  | put hplace hput =>
    obtain ⟨inbox, rfl⟩ := putGraphInbox_inboxes hput
    exact .none rfl fun item hitem => hitem
  | publish hplace hbudget hpaced => exact .one (.published hnode hplace hpaced) rfl rfl
  | unblock hplace => exact .one (.unblocked hnode hplace) rfl rfl
  | _ => exact .none rfl fun item hitem => hitem

theorem Entrances.deliver {s s' : State} {n : String} (hnode : n ∈ cfg.graph.names)
    (hpaced : cfg.graph.isPaced n = true) (h : DeliverMove cfg n s s') : Entrances cfg s s' := by
  cases h with
  | send hplace hunsent hwanted =>
    exact .one (.sent hnode hpaced hplace hunsent hwanted) rfl rfl
  | put hplace hput =>
    obtain ⟨inbox, rfl⟩ := putGraphInbox_inboxes hput
    exact .none rfl fun item hitem => hitem
  | _ => exact .none rfl fun item hitem => hitem

theorem Entrances.read {s s' : State} (h : readOutput cfg s = some s') : Entrances cfg s s' := by
  unfold readOutput at h
  split at h
  · cases h
  · next item rest houtputs =>
    simp only [Option.some.injEq] at h
    have hmem : ∀ x ∈ rest, x ∈ s.outputs := fun x hx => by
      rw [houtputs]
      exact List.mem_cons_of_mem _ hx
    split at h <;> (cases h; exact .none rfl hmem)

theorem Move.entrances {s s' : State} (h : Move cfg a s s') : Entrances cfg s s' := by
  cases h with
  | report _ hput => exact .put hput
  | fence _ _ hfence => exact .fence hfence
  | fenceRaises hfence => exact .fence hfence
  | append happend => exact (OnlyConfirmations.append (appendGraph_moves happend)).entrances rfl
  | appendRaises happend =>
    exact (OnlyConfirmations.append (appendGraph_moves happend)).entrances rfl
  | read hread => exact .read hread
  | forward _ hmove => cases hmove <;> exact .none rfl fun item hitem => hitem
  | route hnode hmove => exact .route hnode hmove
  | deliver hnode hpaced hmove => exact .deliver hnode hpaced hmove
  | drain _ _ hemit =>
    obtain ⟨-, -, rfl⟩ := emitGraphInputDone_ok hemit
    exact .one (.confirmed rfl rfl rfl) rfl rfl
  | @cancel _ task _ => cases task <;> exact .none rfl fun item hitem => hitem
  | finishClose => exact .none rfl fun item hitem => (by cases hitem)
  | _ => exact .none rfl fun item hitem => hitem

theorem Move.entered {s s' : State} (h : Move cfg a s s') : s.entered <+: s'.entered := by
  obtain ⟨new, hentered, -⟩ := h.entrances
  rw [hentered]
  exact List.prefix_append _ _

theorem confirms_entered {s s' : State} (h : ReflTransGen (ConfirmMove cfg) s s') :
    s.entered <+: s'.entered := by
  obtain ⟨new, hentered, -⟩ := OnlyConfirmations.confirms h
  rw [hentered]
  exact List.prefix_append _ _

theorem append_entered {s s' : State} (h : ReflTransGen (AppendMove cfg) s s') :
    s.entered <+: s'.entered := by
  obtain ⟨new, hentered, -⟩ := OnlyConfirmations.append h
  rw [hentered]
  exact List.prefix_append _ _

theorem Moves.entered {s s' : State} (h : Moves cfg a s s') : s.entered <+: s'.entered := by
  induction h with
  | refl => exact List.prefix_rfl
  | tail _ hlast ih => exact ih.trans hlast.entered

theorem step_invariant {P : State → Prop} (hmove : ∀ s s', P s → Move cfg a s s' → P s')
    {s s' : State} (h : step cfg s a = some s') (hs : P s) : P s' := by
  have hmoves := step_moves h
  clear h
  induction hmoves with
  | refl => exact hs
  | tail _ hlast ih => exact hmove _ _ ih hlast

end Session
