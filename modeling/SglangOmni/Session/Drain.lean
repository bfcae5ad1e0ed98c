import SglangOmni.Session.Fence

/-! What is left in a session graph when the client's end of input is confirmed.  `drain_graph` waits
until the inboxes, the node sessions and the pacers' held chunks are gone, but it does not look at
the chunks that a pacer has released and not sent, nor at an output in the hand of a routing task; and
an end of input that no node reads is confirmed at once.  Where none of these is left, every output
that enters the client's queue later was emitted later. -/

namespace Session

open Lib Proto Relation

variable {cfg : Config} {a : Action} {s s' : State} {n : String}

/-! ### Counted appends -/

/-- `pending_count` counts the appends that wait and the one that the pump holds. -/
def NodeSession.Counted (session : NodeSession) : Prop :=
  session.pendingCount = session.pending.length + (if session.inFlight.isSome then 1 else 0 : Nat)

theorem SessionMove.counted {session session' : NodeSession}
    (h : SessionMove cfg n session session') (hs : session.Counted) : session'.Counted := by
  unfold NodeSession.Counted at *
  cases h with
  | take hpending hidle =>
    simp only [hpending, hidle, Option.isSome_none, Option.isSome_some, List.length_cons] at *
    simpa using hs
  | finish hflight => simp [NodeSession.push, NodeSession.release, hflight] at *; omega
  | finishFails hflight => simp [NodeSession.fail, NodeSession.release, hflight] at *; omega
  | finishClosing hflight => simp [NodeSession.release, hflight] at *; omega
  | clean _ hidle => simp [hidle]
  | _ => exact hs

theorem NodeMove.counted (h : NodeMove cfg s s' n) (hs : (s.sessions n).Counted) :
    (s'.sessions n).Counted := by
  have hpop : ∀ rest size, ((s.popOutput n rest size).sessions n).Counted := by
    intro rest size
    have hself : (s.popOutput n rest size).sessions n = _ := Function.update_self _ _ _
    rw [hself]
    exact hs
  cases h with
  | keep h => rwa [h]
  | session hmove => exact hmove.counted hs
  | pop _ _ _ h =>
    rw [h]
    exact hpop _ _
  | confirm _ _ _ h =>
    rw [h]
    exact hpop _ _
  | @fence turn h =>
    rw [h]
    unfold NodeSession.Counted at *
    have hflight : ((s.sessions n).fence (s.clientSequences n) turn).inFlight =
        (s.sessions n).inFlight := rfl
    have hcount : ((s.sessions n).fence (s.clientSequences n) turn).pendingCount =
        (s.sessions n).pendingCount - ((s.sessions n).pending.length -
          ((s.sessions n).fence (s.clientSequences n) turn).pending.length : Int) := rfl
    rw [hflight, hcount]
    omega

theorem ForwardMove.session (h : ForwardMove cfg n s s') : s'.sessions n = s.sessions n ∨
    ∃ chunk continues item, (s.sessions n).append cfg chunk continues item = .accepted (s'.sessions n) := by
  have hsame : ∀ (s : State) (session : NodeSession), (s.setSession n session).sessions n = session :=
    fun s session => Function.update_self _ _ _
  cases h with
  | @whole seq item rest session _ _ haccept =>
    refine .inr ⟨_, _, _, haccept.trans (congrArg _ ?_)⟩
    exact (hsame s session).symm
  | @fragment item fragment next session _ _ haccept =>
    refine .inr ⟨_, _, _, haccept.trans (congrArg _ ?_)⟩
    exact (hsame s session).symm
  | @fragmentFails item fragment session _ _ haccept =>
    refine .inr ⟨_, _, _, haccept.trans (congrArg _ ?_)⟩
    exact (hsame s session).symm
  | @last item fragment session _ _ haccept =>
    refine .inr ⟨_, _, _, haccept.trans (congrArg _ ?_)⟩
    exact (hsame s session).symm
  | _ => exact .inl rfl

theorem ForwardMove.counted (h : ForwardMove cfg n s s') (hs : (s.sessions n).Counted) :
    (s'.sessions n).Counted := by
  rcases h.session with hsame | ⟨_, _, _, haccept⟩
  · exact hsame ▸ hs
  · obtain ⟨-, haccepted⟩ := append_accepted haccept
    rw [haccepted]
    unfold NodeSession.Counted at *
    simp only [List.length_append, List.length_singleton]
    omega

theorem Move.counted (h : Move cfg a s s') (hs : (s.sessions n).Counted) :
    (s'.sessions n).Counted := by
  rcases h.node n with hnode | ⟨-, -, hforward⟩
  · exact hnode.counted hs
  · exact hforward.counted hs

theorem NodeSession.Counted.empty {session : NodeSession} (h : session.Counted)
    (hcount : session.pendingCount = 0) : session.pending = [] ∧ session.inFlight = none := by
  unfold NodeSession.Counted at h
  rw [hcount] at h
  cases hflight : session.inFlight with
  | none =>
    refine ⟨List.length_eq_zero_iff.mp ?_, rfl⟩
    simp only [hflight, Option.isSome_none] at h
    simpa using h.symm
  | some p =>
    simp only [hflight, Option.isSome_some, if_true] at h
    omega

/-! ### Where the outputs of a node are -/

/-- Every output that is on its way in the graph, and every one that entered the client's queue after
`base`, has at least the number `since` of its node. -/
structure After (cfg : Config) (since : String → Nat) (base : List QueuedOutput) (s : State) :
    Prop where
  next : ∀ n, since n ≤ (s.sessions n).nextOutput
  outputs : ∀ n, ∀ item ∈ (s.sessions n).outputs, since n ≤ item.1.seq
  carried : ∀ n ∈ cfg.graph.names, ∀ output, (s.routers n).carried = some output →
    output.kind = .data ∧ since n ≤ output.seq
  publishing : ∀ n ∈ cfg.graph.names, ∀ item, s.routers n = .publishing item →
    item.name = n ∧ item.output.kind = .data ∧ ∃ k, item.emission = some k ∧ since n ≤ k
  paced : ∀ n ∈ cfg.graph.names, cfg.graph.isPaced n = true → ∀ item ∈ (s.pacers n).all,
    item.1.kind = .data ∧ since n ≤ item.1.seq
  entered : ∃ new, s.entered = base ++ new ∧ ∀ item ∈ new, item.output.kind = .data →
    item.name ∈ cfg.graph.names ∧ ∃ k, item.emission = some k ∧ since item.name ≤ k

theorem RouteMove.carried (h : RouteMove cfg n s s') {output : OutputChunk}
    (hcarried : (s'.routers n).carried = some output) :
    (∃ size rest, (s.sessions n).outputs = (output, size) :: rest ∧ output.kind = .data) ∨
      ∃ before, (s.routers n).carried = some before ∧ output.kind = before.kind ∧
        output.seq = before.seq := by
  have hset : ∀ (s : State) (r : Router), ((s.setRouter n r).routers n).carried = some output →
      r.carried = some output := fun s r hr => by rwa [State.routers_setRouter] at hr
  have hheld : ∀ {r : Router} {o : OutputChunk}, r.held = some o → r.carried = some o := by
    intro r o hr
    cases r <;> cases hr <;> rfl
  cases h with
  | take hplace houtputs hdata =>
    cases hset _ _ hcarried
    exact .inl ⟨_, _, houtputs, hdata⟩
  | drop => exact .inr ⟨output, hcarried, rfl, rfl⟩
  | @confirm taken size rest hplace houtputs hdone =>
    obtain ⟨s₁, hmoves, hend⟩ : ∃ s₁, ReflTransGen (ConfirmMove cfg) (s.popOutput n rest size) s₁ ∧ _ :=
      routeInputDone_moves _ n taken
    rcases hend with hend | hend
    · rw [hend, confirms_routers hmoves] at hcarried
      exact .inr ⟨output, hcarried, rfl, rfl⟩
    · rw [hend] at hcarried
      cases hset s₁ .stopped hcarried
  | delivery => exact .inr ⟨output, hcarried, rfl, rfl⟩
  | suspend hplace =>
    cases hset _ _ hcarried
    exact .inr ⟨output, hheld hplace, rfl, rfl⟩
  | @data before hplace htargets =>
    cases hset _ _ hcarried
    refine .inr ⟨before, hheld hplace, ?_, ?_⟩
    · unfold routedOutput
      split <;> rfl
    · unfold routedOutput
      split <;> rfl
  | put hplace =>
    cases hset _ _ hcarried
    exact .inr ⟨output, by rw [hplace]; rfl, rfl, rfl⟩
  | fail => cases hset s .stopped hcarried
  | _ => cases hset _ _ hcarried

theorem SessionMove.outputs {session session' : NodeSession}
    (h : SessionMove cfg n session session') {since : Nat} (hnext : since ≤ session.nextOutput)
    (hs : ∀ item ∈ session.outputs, since ≤ item.1.seq) :
    since ≤ session'.nextOutput ∧ ∀ item ∈ session'.outputs, since ≤ item.1.seq := by
  have hpush : ∀ (output : OutputChunk) (size : Nat), output.seq = session.nextOutput →
      since ≤ (session.push output size).nextOutput ∧
        ∀ item ∈ (session.push output size).outputs, since ≤ item.1.seq := by
    intro output size hseq
    refine ⟨hnext.trans (Nat.le_succ _), fun item hitem => ?_⟩
    rcases List.mem_append.mp hitem with hold | hnew
    · exact hs item hold
    · rw [List.mem_singleton.mp hnew, hseq]
      exact hnext
  cases h with
  | emit inputSeq chunk => exact hpush _ _ rfl
  | finish hflight => exact hpush _ _ rfl
  | finishFails => exact ⟨hnext, fun item hitem => (by cases hitem)⟩
  | fail => exact ⟨hnext, fun item hitem => (by cases hitem)⟩
  | _ => exact ⟨hnext, hs⟩

theorem NodeMove.outputs (h : NodeMove cfg s s' n) {since : Nat}
    (hnext : since ≤ (s.sessions n).nextOutput)
    (hs : ∀ item ∈ (s.sessions n).outputs, since ≤ item.1.seq) :
    since ≤ (s'.sessions n).nextOutput ∧ ∀ item ∈ (s'.sessions n).outputs, since ≤ item.1.seq := by
  have hpop : ∀ {output size rest}, (s.sessions n).outputs = (output, size) :: rest →
      s'.sessions n = (s.popOutput n rest size).sessions n →
      since ≤ (s'.sessions n).nextOutput ∧ ∀ item ∈ (s'.sessions n).outputs, since ≤ item.1.seq := by
    intro output size rest houtputs h
    have hself : (s.popOutput n rest size).sessions n = _ := Function.update_self _ _ _
    rw [h, hself]
    refine ⟨hnext, fun item hitem => hs item ?_⟩
    rw [houtputs]
    exact List.mem_cons_of_mem _ hitem
  cases h with
  | keep h =>
    rw [h]
    exact ⟨hnext, hs⟩
  | session hmove => exact hmove.outputs hnext hs
  | pop _ houtputs _ h => exact hpop houtputs h
  | confirm _ houtputs _ h => exact hpop houtputs h
  | fence h =>
    rw [h]
    exact ⟨hnext, hs⟩

theorem ForwardMove.outputs (h : ForwardMove cfg n s s') :
    (s'.sessions n).nextOutput = (s.sessions n).nextOutput ∧
      (s'.sessions n).outputs = (s.sessions n).outputs := by
  rcases h.session with hsame | ⟨_, _, _, haccept⟩
  · rw [hsame]
    exact ⟨rfl, rfl⟩
  · obtain ⟨-, haccepted⟩ := append_accepted haccept
    rw [haccepted]
    exact ⟨rfl, rfl⟩

theorem After.entrance {since : String → Nat} {base : List QueuedOutput} (h : After cfg since base s)
    {item : QueuedOutput} (hitem : Entrance cfg s item) (hdata : item.output.kind = .data) :
    item.name ∈ cfg.graph.names ∧ ∃ k, item.emission = some k ∧ since item.name ≤ k := by
  cases hitem with
  | confirmed hkind =>
    rw [hkind] at hdata
    cases hdata
  | @published n output size s₁ hnode hplace =>
    exact ⟨hnode, output.seq, rfl, (h.carried n hnode output (by rw [hplace]; rfl)).2⟩
  | unblocked hnode hplace =>
    obtain ⟨hname, -, k, hk, hle⟩ := h.publishing _ hnode _ hplace
    rw [hname]
    exact ⟨hnode, k, hk, hle⟩
  | @sent n output size rest s₁ hnode hpaced hplace hunsent =>
    refine ⟨hnode, output.seq, rfl, (h.paced n hnode hpaced (output, size) ?_).2⟩
    refine List.mem_append_right _ ?_
    rw [hunsent]
    exact List.mem_cons_self

theorem After.move {since : String → Nat} {base : List QueuedOutput} (h : After cfg since base s)
    (hmove : Move cfg a s s') : After cfg since base s' := by
  have hnode : ∀ n, since n ≤ (s'.sessions n).nextOutput ∧
      ∀ item ∈ (s'.sessions n).outputs, since n ≤ item.1.seq := by
    intro n
    rcases hmove.node n with hnode | ⟨-, -, hforward⟩
    · exact hnode.outputs (h.next n) (h.outputs n)
    · obtain ⟨hnext, houtputs⟩ := hforward.outputs
      rw [hnext, houtputs]
      exact ⟨h.next n, h.outputs n⟩
  refine ⟨fun n => (hnode n).1, fun n => (hnode n).2, fun n hn output hcarried => ?_,
    fun n hn item hitem => ?_, fun n hn hpaced item hitem => ?_, ?_⟩
  · rcases hmove.router n with (hsame | hstop) | ⟨-, -, hroute⟩
    · exact h.carried n hn output (hsame ▸ hcarried)
    · rw [hstop] at hcarried
      cases hcarried
    · rcases hroute.carried hcarried with ⟨size, rest, houtputs, hdata⟩ | ⟨before, hbefore, hkind, hseq⟩
      · refine ⟨hdata, h.outputs n (output, size) ?_⟩
        rw [houtputs]
        exact List.mem_cons_self
      · rw [hkind, hseq]
        exact h.carried n hn before hbefore
  · rcases hmove.router n with (hsame | hstop) | ⟨-, -, hroute⟩
    · exact h.publishing n hn item (hsame ▸ hitem)
    · rw [hstop] at hitem
      cases hitem
    · rcases hroute.blocked hitem with hwas | ⟨before, hbefore, hname, hkind, hemission, -⟩
      · exact h.publishing n hn item hwas
      · obtain ⟨hdata, hle⟩ := h.carried n hn before hbefore
        exact ⟨hname, hkind.trans hdata, before.seq, hemission, hle⟩
  · rcases hmove.pacer n item hitem with ⟨held, hheld, hdescends⟩ | ⟨hplace, -⟩
    · obtain ⟨hdata, hle⟩ := h.paced n hn hpaced held hheld
      exact ⟨hdescends.kind.trans hdata, hdescends.seq ▸ hle⟩
    · exact h.carried n hn item.1 (by rw [hplace]; rfl)
  · obtain ⟨new, hentered, hnew⟩ := h.entered
    obtain ⟨more, hmore, -, hentrance⟩ := hmove.entrances
    refine ⟨new ++ more, by rw [hmore, hentered, List.append_assoc], fun item hitem hdata => ?_⟩
    rcases List.mem_append.mp hitem with hold | hlate
    · exact hnew item hold hdata
    · exact h.entrance (hentrance item hlate) hdata

theorem After.step {since : String → Nat} {base : List QueuedOutput} (h : After cfg since base s)
    (hstep : step cfg s a = some s') : After cfg since base s' :=
  step_invariant (fun _ _ hs hmove => hs.move hmove) hstep h

theorem After.initial : After cfg (fun _ => 0) [] .initial where
  next := fun _ => Nat.zero_le _
  outputs := fun n item hitem => (by cases hitem)
  carried := fun n _ output h => (by cases h)
  publishing := fun n _ item h => (by cases h)
  paced := fun n _ _ item hitem => (by cases hitem)
  entered := ⟨[], rfl, fun item hitem => (by cases hitem)⟩

/-! ### Confirmations of the end of the input -/

/-- An entry of the client's queue that confirms the end of the client's input. -/
def QueuedOutput.isEosConfirmation (item : QueuedOutput) : Bool :=
  item.output.kind = .inputDone && item.output.eos

/-- The confirmation of the end of the input enters the client's queue. -/
def EosConfirmed (s s' : State) : Prop :=
  ∃ new, s'.entered = s.entered ++ new ∧ ∃ item ∈ new, item.isEosConfirmation = true

/-- What enters the client's queue does not confirm the end of the input. -/
def NoEos (s s' : State) : Prop :=
  ∃ new, s'.entered = s.entered ++ new ∧ ∀ item ∈ new, item.isEosConfirmation = false

theorem NoEos.not_confirmed (h : NoEos s s') : ¬ EosConfirmed s s' := by
  rintro ⟨new, hnew, item, hitem, heos⟩
  obtain ⟨new', hnew', hnone⟩ := h
  rw [hnew'] at hnew
  rw [← List.append_cancel_left hnew, ] at hitem
  rw [hnone item hitem] at heos
  cases heos

theorem NoEos.same (h : s'.entered = s.entered) : NoEos s s' :=
  ⟨[], by rw [h, List.append_nil], fun item hitem => (by cases hitem)⟩

theorem NoEos.one {item : QueuedOutput} (h : s'.entered = s.entered ++ [item])
    (hitem : item.isEosConfirmation = false) : NoEos s s' :=
  ⟨[item], h, fun x hx => by rwa [List.mem_singleton.mp hx]⟩

theorem NoEos.trans {s₁ s₂ s₃ : State} (h : NoEos s₁ s₂) (h' : NoEos s₂ s₃) : NoEos s₁ s₃ := by
  obtain ⟨new, hnew, hnone⟩ := h
  obtain ⟨new', hnew', hnone'⟩ := h'
  refine ⟨new ++ new', by rw [hnew', hnew, List.append_assoc], fun item hitem => ?_⟩
  rcases List.mem_append.mp hitem with hold | hlate
  · exact hnone item hold
  · exact hnone' item hlate

theorem emitGraphInputDone_noEos {name : String} {chunk : TimedChunk} (heos : chunk.eos = false)
    {ran : Ran} (h : emitGraphInputDone cfg s name chunk = ran) : NoEos s ran.state := by
  cases ran with
  | ok s₁ =>
    obtain ⟨-, -, rfl⟩ := emitGraphInputDone_ok h
    refine .one rfl ?_
    simp [QueuedOutput.isEosConfirmation, confirmation, inputDone, heos]
  | raised s₁ =>
    rw [emitGraphInputDone_raised h]
    exact .same rfl

theorem confirmGraphInput_noEos {name : String} {chunk : TimedChunk} {ran : Ran}
    (h : confirmGraphInput cfg s name chunk = ran) : NoEos s ran.state := by
  have hnoted : (if chunk.eos then { s with eosConfirmed := s.eosConfirmed.insert name }
      else s).entered = s.entered := by
    split <;> rfl
  unfold confirmGraphInput at h
  simp only at h
  generalize (if chunk.eos then { s with eosConfirmed := s.eosConfirmed.insert name }
    else s) = noted at h hnoted
  split at h
  · subst h
    exact .same hnoted
  · split at h
    · split at h
      · subst h
        exact .same hnoted
      · next heos =>
        have hdone := emitGraphInputDone_noEos (Bool.eq_false_iff.mpr heos) h
        exact (NoEos.same hnoted).trans hdone
    · subst h
      exact .same hnoted

theorem dropOldestInputs_noEos {names : List String} {ran : Ran}
    (h : dropOldestInputs cfg s names = ran) : NoEos s ran.state := by
  induction names generalizing s with
  | nil =>
    subst h
    exact .same rfl
  | cons name rest ih =>
    unfold dropOldestInputs at h
    split at h
    · subst h
      exact .same rfl
    · simp only at h
      have hdrop : NoEos s (s.setInbox name ((s.inboxes name).dropOldest graphInput)) := .same rfl
      split at h
      · next hran =>
        subst h
        exact hdrop.trans (confirmGraphInput_noEos hran)
      · next hran => exact (hdrop.trans (confirmGraphInput_noEos hran)).trans (ih h)

theorem routeInputDone_noEos (output : OutputChunk) : NoEos s (routeInputDone cfg s n output) := by
  unfold routeInputDone
  split
  · exact .same rfl
  · simp only
    split
    · next hran =>
      have hdone := confirmGraphInput_noEos hran
      exact hdone
    · next hran =>
      have hdone := confirmGraphInput_noEos hran
      exact hdone

theorem not_eos_of_data {item : QueuedOutput} (h : item.output.kind = .data) :
    item.isEosConfirmation = false := by
  simp [QueuedOutput.isEosConfirmation, h]

theorem Move.noEos {since : String → Nat} {base : List QueuedOutput} (hafter : After cfg since base s)
    (h : Move cfg a s s') (hdrain : ∀ i, a ≠ .drain i) (happend : ∀ chunk, a ≠ .append chunk) :
    NoEos s s' := by
  cases h with
  | report _ hput =>
    obtain ⟨inbox, rfl⟩ := putGraphInbox_inboxes hput
    exact .same rfl
  | fence _ _ hfence =>
    obtain ⟨_, _, _, _, _, _, _, hsame⟩ := fenceTurn_frame hfence
    change s' = _ at hsame
    rw [hsame]
    exact .same rfl
  | fenceRaises hfence =>
    obtain ⟨_, _, _, _, _, _, _, hsame⟩ := fenceTurn_frame hfence
    change s' = _ at hsame
    rw [hsame]
    exact .same rfl
  | append => exact absurd rfl (happend _)
  | appendRaises => exact absurd rfl (happend _)
  | read hread =>
    obtain ⟨_, _, _, _, rfl⟩ := readOutput_frame hread
    exact .same rfl
  | forward _ hmove => cases hmove <;> exact .same rfl
  | @route _ _ n hnode hmove =>
    cases hmove with
    | @confirm output size rest =>
      have hdone : NoEos (s.popOutput n rest size)
          (routeInputDone cfg (s.popOutput n rest size) n output) := routeInputDone_noEos output
      exact hdone
    | @data output hplace htargets =>
      obtain ⟨outputEndMs, replyStartMs, hclock⟩ := routeClock_eq cfg s n output
      rw [hclock]
      exact .same rfl
    | put hplace hput =>
      obtain ⟨inbox, rfl⟩ := putGraphInbox_inboxes hput
      exact .same rfl
    | @publish output hplace =>
      have hdata := (hafter.carried n hnode output (by rw [hplace]; rfl)).1
      exact .one rfl (not_eos_of_data hdata)
    | @unblock item hplace =>
      exact .one rfl (not_eos_of_data (hafter.publishing n hnode item hplace).2.1)
    | _ => exact .same rfl
  | @deliver _ _ n now hnode hpaced hmove =>
    cases hmove with
    | @send output size rest next hplace hunsent =>
      have hmem : (output, size) ∈ (s.pacers n).all := by
        refine List.mem_append_right _ ?_
        rw [hunsent]
        exact List.mem_cons_self
      exact .one rfl (not_eos_of_data (hafter.paced n hnode hpaced _ hmem).1)
    | put hplace hput =>
      obtain ⟨inbox, rfl⟩ := putGraphInbox_inboxes hput
      exact .same rfl
    | _ => exact .same rfl
  | drain => exact absurd rfl (hdrain _)
  | @cancel _ task _ => cases task <;> exact .same rfl
  | _ => exact .same rfl

theorem Moves.noEos {since : String → Nat} {base : List QueuedOutput}
    (hafter : After cfg since base s) (h : Moves cfg a s s') (hdrain : ∀ i, a ≠ .drain i)
    (happend : ∀ chunk, a ≠ .append chunk) : NoEos s s' ∧ After cfg since base s' := by
  induction h with
  | refl => exact ⟨.same rfl, hafter⟩
  | tail _ hlast ih =>
    exact ⟨ih.1.trans (hlast.noEos ih.2 hdrain happend), ih.2.move hlast⟩

/-- Nothing has moved in the queues, the node sessions, the pacers and the routing tasks. -/
structure SameWork (s s' : State) : Prop where
  queued : ∀ n, (s'.inboxes n).queued = (s.inboxes n).queued
  sessions : s'.sessions = s.sessions
  routers : s'.routers = s.routers
  items : ∀ n, (s'.pacers n).items = (s.pacers n).items
  unsent : ∀ n, (s'.pacers n).unsent = (s.pacers n).unsent

theorem SameWork.noteInput (h : SameWork s s') (chunk : TimedChunk) :
    SameWork s ((s'.handInput [] chunk).noteInput chunk) where
  queued := h.queued
  sessions := h.sessions
  routers := h.routers
  items := fun n => by
    simp only [State.noteInput, State.handInput]
    split <;> exact h.items n
  unsent := fun n => by
    simp only [State.noteInput, State.handInput]
    split <;> exact h.unsent n

theorem appendGraph_eosConfirmed {chunk : TimedChunk} {ran : Ran}
    (h : appendGraph cfg s chunk = some ran) (heos : EosConfirmed s ran.state) :
    chunk.eos = true ∧ cfg.graph.readingNodes graphInput chunk.format = [] ∧
      SameWork s ran.state := by
  by_cases hreaders : cfg.graph.readingNodes graphInput chunk.format = []
  · have hfull : fullReaders cfg s chunk = [] := by simp [fullReaders, hreaders]
    have hnote : noteReaders cfg s chunk = emitGraphInputDone cfg s graphInput chunk := by
      simp [noteReaders, hreaders]
    cases ran with
    | raised s₁ =>
      rcases appendGraph_raised h with hnoted | ⟨noted, hnoted, hdropped⟩
      · rw [hnote] at hnoted
        rw [emitGraphInputDone_raised hnoted] at heos
        have hsame : NoEos s s := .same rfl
        exact absurd heos hsame.not_confirmed
      · rw [hfull] at hdropped
        cases hdropped
    | ok s₁ =>
      obtain ⟨noted, dropped, hnoted, hdropped, rfl⟩ := appendGraph_ok h
      rw [hnote] at hnoted
      rw [hfull] at hdropped
      cases hdropped
      refine ⟨?_, hreaders, ?_⟩
      · by_contra hnot
        have hnone := emitGraphInputDone_noEos (Bool.eq_false_iff.mpr hnot) hnoted
        exact hnone.not_confirmed heos
      · obtain ⟨-, -, rfl⟩ := emitGraphInputDone_ok hnoted
        have hsame : SameWork s (s.confirm (confirmation cfg s graphInput chunk)) :=
          ⟨fun _ => rfl, rfl, rfl, fun _ => rfl, fun _ => rfl⟩
        have hend := hsame.noteInput chunk
        rw [← hreaders] at hend
        exact hend
  · -- the readers confirm it, so the append confirms only inputs that were dropped
    have hnoted : ∀ noted, noteReaders cfg s chunk = noted → NoEos s noted.state := by
      rintro noted rfl
      simp only [noteReaders]
      split
      · next hempty => exact absurd (List.isEmpty_iff.mp hempty) hreaders
      · exact .same rfl
    have hnone : NoEos s ran.state := by
      cases ran with
      | raised s₁ =>
        rcases appendGraph_raised h with hraised | ⟨noted, hok, hdropped⟩
        · exact hnoted _ hraised
        · exact (hnoted _ hok).trans (dropOldestInputs_noEos hdropped)
      | ok s₁ =>
        obtain ⟨noted, dropped, hok, hdropped, rfl⟩ := appendGraph_ok h
        have hdrops := dropOldestInputs_noEos hdropped
        exact (hnoted _ hok).trans hdrops
    exact absurd heos hnone.not_confirmed

theorem eosConfirmed_step {since : String → Nat} {base : List QueuedOutput}
    (hafter : After cfg since base s) (hstep : step cfg s a = some s')
    (heos : EosConfirmed s s') :
    SameWork s s' ∧ ((∃ i, a = .drain i ∧ isDrained cfg s = true) ∨
      ∃ chunk, a = .append chunk ∧ chunk.eos = true ∧
        cfg.graph.readingNodes graphInput chunk.format = []) := by
  by_cases hdrain : ∃ i, a = .drain i
  · obtain ⟨i, rfl⟩ := hdrain
    unfold step at hstep
    split at hstep
    · simp only [perform, drainGraph] at hstep
      split at hstep
      · cases hstep
      · split at hstep
        · cases hstep
        · next hdrained =>
          push Not at hdrained
          split at hstep
          · next hran =>
            cases hstep
            rw [emitGraphInputDone_raised hran] at heos
            have hsame : NoEos s ({ s with drains := s.drains.eraseIdx i }).beginClose := .same rfl
            exact absurd heos hsame.not_confirmed
          · next hran =>
            cases hstep
            obtain ⟨-, -, rfl⟩ := emitGraphInputDone_ok hran
            exact ⟨⟨fun _ => rfl, rfl, rfl, fun _ => rfl, fun _ => rfl⟩, .inl ⟨i, rfl, hdrained⟩⟩
    · cases hstep
  · by_cases happend : ∃ chunk, a = .append chunk
    · obtain ⟨chunk, rfl⟩ := happend
      unfold step at hstep
      split at hstep
      · simp only [perform, Option.map_eq_some_iff] at hstep
        obtain ⟨ran, hran, hs'⟩ := hstep
        have hend : ran.state = s' := by
          cases ran <;> exact hs'
        rw [← hend] at heos ⊢
        obtain ⟨hchunk, hreaders, hsame⟩ := appendGraph_eosConfirmed hran heos
        exact ⟨hsame, .inr ⟨chunk, rfl, hchunk, hreaders⟩⟩
      · cases hstep
    · push Not at hdrain happend
      have hnone := (Moves.noEos hafter (step_moves hstep) hdrain happend).1
      exact absurd heos hnone.not_confirmed

/-! ### Runs -/

def Router.isIdle : Router → Bool
  | .next | .stopped => true
  | _ => false

/-- What `drain_graph` does not look at: no routing task holds an output, and nothing that a pacer
released waits to be sent. -/
def isSettled (cfg : Config) (s : State) : Bool :=
  cfg.graph.names.all fun n =>
    (s.routers n).isIdle && (!cfg.graph.isPaced n || (s.pacers n).unsent.isEmpty)

/-- Nothing is left in the inboxes, the node sessions and the pacers' held chunks. -/
def isEmptied (cfg : Config) (s : State) : Bool :=
  cfg.graph.names.all fun n =>
    (s.inboxes n).queued.isEmpty && (s.sessions n).pendingCount = 0 &&
      (s.sessions n).outputs.isEmpty && (!cfg.graph.isPaced n || (s.pacers n).items.isEmpty)

/-- A step that can confirm the end of the input finds nothing on its way to the client: the drain
finds the graph settled, and an end that nobody reads finds it settled and emptied. -/
def endsSettled (cfg : Config) (s : State) : Action → Bool
  | .drain _ => isSettled cfg s
  | .append chunk =>
    !(chunk.eos && (cfg.graph.readingNodes graphInput chunk.format).isEmpty) ||
      (isSettled cfg s && isEmptied cfg s)
  | _ => true

def NothingUnpublished (cfg : Config) (s : State) : Prop :=
  ∀ n ∈ cfg.graph.names, (s.inboxes n).queued = [] ∧
    ((s.sessions n).pending = [] ∧ (s.sessions n).inFlight = none) ∧ (s.sessions n).outputs = [] ∧
    (cfg.graph.isPaced n = true → (s.pacers n).items = [] ∧ (s.pacers n).unsent = []) ∧
    (s.routers n).isIdle = true

theorem isEmptied_of_isDrained (h : isDrained cfg s = true) : isEmptied cfg s = true := by
  simp only [isDrained, isEmptied, Bool.and_eq_true, List.all_eq_true] at h ⊢
  intro n hn
  obtain ⟨⟨⟨⟨hqueued, hcount⟩, houtputs⟩, -⟩, hitems⟩ := h.2 n hn
  exact ⟨⟨⟨hqueued, hcount⟩, houtputs⟩, hitems⟩

theorem nothingUnpublished_iff (hcounted : ∀ n, (s.sessions n).Counted) :
    NothingUnpublished cfg s ↔ isSettled cfg s = true ∧ isEmptied cfg s = true := by
  simp only [isSettled, isEmptied, Bool.and_eq_true, List.all_eq_true, List.isEmpty_iff,
    decide_eq_true_eq, Bool.or_eq_true, Bool.not_eq_true']
  constructor
  · intro h
    refine ⟨fun n hn => ?_, fun n hn => ?_⟩
    · obtain ⟨-, -, -, hpacer, hidle⟩ := h n hn
      refine ⟨hidle, ?_⟩
      cases hpaced : cfg.graph.isPaced n with
      | false => exact .inl rfl
      | true => exact .inr (hpacer hpaced).2
    · obtain ⟨hqueued, ⟨hpending, hflight⟩, houtputs, hpacer, -⟩ := h n hn
      refine ⟨⟨⟨hqueued, ?_⟩, houtputs⟩, ?_⟩
      · have hcount := hcounted n
        unfold NodeSession.Counted at hcount
        rw [hcount, hpending, hflight]
        rfl
      · cases hpaced : cfg.graph.isPaced n with
        | false => exact .inl rfl
        | true => exact .inr (hpacer hpaced).1
  · rintro ⟨hsettled, hemptied⟩ n hn
    obtain ⟨hidle, hunsent⟩ := hsettled n hn
    obtain ⟨⟨⟨hqueued, hcount⟩, houtputs⟩, hitems⟩ := hemptied n hn
    refine ⟨hqueued, (hcounted n).empty hcount, houtputs, fun hpaced => ?_, hidle⟩
    rw [hpaced] at hunsent hitems
    exact ⟨hitems.resolve_left (by decide), hunsent.resolve_left (by decide)⟩

theorem SameWork.nothingUnpublished (h : SameWork s s') :
    NothingUnpublished cfg s' ↔ NothingUnpublished cfg s := by
  simp only [NothingUnpublished, h.queued, h.sessions, h.routers, h.items, h.unsent]

theorem After.of_nothingUnpublished (h : NothingUnpublished cfg s) :
    After cfg (fun n => if n ∈ cfg.graph.names then (s.sessions n).nextOutput else 0) s.entered s := by
  refine ⟨fun n => ?_, fun n item hitem => ?_, fun n hn output hcarried => ?_,
    fun n hn item hitem => ?_, fun n hn hpaced item hitem => ?_,
    ⟨[], (List.append_nil _).symm, fun item hitem => (by cases hitem)⟩⟩
  · split
    · exact le_rfl
    · exact Nat.zero_le _
  · split
    · next hn =>
      rw [(h n hn).2.2.1] at hitem
      cases hitem
    · exact Nat.zero_le _
  · have hidle := (h n hn).2.2.2.2
    cases hplace : s.routers n with
    | next =>
      rw [hplace] at hcarried
      cases hcarried
    | stopped =>
      rw [hplace] at hcarried
      cases hcarried
    | _ =>
      rw [hplace] at hidle
      cases hidle
  · have hidle := (h n hn).2.2.2.2
    rw [hitem] at hidle
    cases hidle
  · obtain ⟨hitems, hunsent⟩ := (h n hn).2.2.2.1 hpaced
    rw [Pacer.all, hitems, hunsent] at hitem
    cases hitem

/-- When the confirmation of the client's end of input enters the client's queue, in any run: nothing
that a node emitted is left unpublished, and so every output that enters later was emitted later,
exactly if the step that confirms found the graph settled. -/
theorem eos_confirmation_last_iff (h : (machine cfg).Reaches Machine.anyAction s)
    (hstep : step cfg s a = some s') (heos : EosConfirmed s s') :
    (NothingUnpublished cfg s' ∧
      ∀ later, (machine cfg).Path Machine.anyAction s' later → ∃ new,
        later.entered = s'.entered ++ new ∧ ∀ item ∈ new, item.output.kind = .data →
          ∃ k, item.emission = some k ∧ (s'.sessions item.name).nextOutput ≤ k) ↔
      endsSettled cfg s a = true := by
  have hafter : After cfg (fun _ => 0) [] s :=
    h.invariant (P := After cfg (fun _ => 0) []) .initial fun _ _ _ hs _ hstep => hs.step hstep
  have hcounted : ∀ n, (s.sessions n).Counted := by
    refine h.invariant (P := fun s => ∀ n, (s.sessions n).Counted) (fun n => rfl) ?_
    intro _ _ _ hs _ hstep
    exact step_invariant (P := fun s => ∀ n, (s.sessions n).Counted)
      (fun _ _ hs hmove n => hmove.counted (hs n)) hstep hs
  obtain ⟨hsame, hwhere⟩ := eosConfirmed_step hafter hstep heos
  have hsettled : NothingUnpublished cfg s ↔ endsSettled cfg s a = true := by
    rw [nothingUnpublished_iff hcounted]
    rcases hwhere with ⟨i, rfl, hdrained⟩ | ⟨chunk, rfl, hchunk, hreaders⟩
    · simp [endsSettled, isEmptied_of_isDrained hdrained]
    · simp [endsSettled, hchunk, hreaders]
  rw [← hsettled, hsame.nothingUnpublished]
  refine and_iff_left_of_imp fun hnothing later hpath => ?_
  have hlater : After cfg _ s'.entered later :=
    hpath.invariant (P := After cfg _ s'.entered)
      (.of_nothingUnpublished (hsame.nothingUnpublished.mpr hnothing))
      fun _ _ _ hs _ hstep => hs.step hstep
  obtain ⟨new, hnew, hall⟩ := hlater.entered
  refine ⟨new, hnew, fun item hitem hdata => ?_⟩
  obtain ⟨hname, k, hk, hle⟩ := hall item hitem hdata
  rw [if_pos hname] at hle
  exact ⟨k, hk, hle⟩

theorem eosConfirmed_of_drop (hstep : step cfg s a = some s')
    (h : (s'.entered.drop s.entered.length).any QueuedOutput.isEosConfirmation = true) :
    EosConfirmed s s' := by
  obtain ⟨new, hnew⟩ := Moves.entered (step_moves hstep)
  rw [← hnew, List.drop_left] at h
  obtain ⟨item, hitem, heos⟩ := List.any_eq_true.mp h
  exact ⟨new, hnew.symm, item, hitem, heos⟩

/-- A node that publishes speech behind a client's queue of one output. -/
def narrowConfig : Config where
  graph := {
    nodes := (∅ : Dict String SessionNode).set "voice"
      { inputs := [.plain graphInput (some pcm16)] }
    publish := fun _ => [pcm16] }
  valid := ⟨by decide, by decide, by decide, by decide, by decide⟩
  limits := { maxOutputChunks := 1 }
  packer := msgpack
  leadMs := 1000
  identity := { id := "s" }
  nodeIdentity := fun n => { id := "s:" ++ n }

def lastInput : TimedChunk where
  modality := audio
  tStartMs := 0
  durationMs := 20
  seq := 0
  payload := .bytes [1, 2]
  format := some pcm16
  eos := true

/-- The node takes the client's last input, answers it with two chunks and confirms it; the pacer lets
both chunks out, and the first one fills the client's queue. -/
def answerRun : List Action :=
  [.append lastInput, .forward "voice", .takeAppend "voice", .emit "voice" 0 replyChunk,
    .route "voice", .emit "voice" 0 replyChunk, .route "voice", .finishAppend "voice",
    .route "voice", .deliver "voice" 0, .deliver "voice" 0, .read]

/-- The drain looks again after the delivery task has sent the second chunk. -/
theorem drain_after_delivery : ∃ s s',
    (machine narrowConfig).exec .initial (answerRun ++ [Action.deliver "voice" 0, .read]) = some s ∧
    step narrowConfig s (.drain 0) = some s' ∧ EosConfirmed s s' ∧
    NothingUnpublished narrowConfig s' := by
  have hobs : (((machine narrowConfig).exec .initial
      (answerRun ++ [Action.deliver "voice" 0, .read])).bind fun s =>
        (step narrowConfig s (.drain 0)).map fun s' =>
          ((s'.entered.drop s.entered.length).any QueuedOutput.isEosConfirmation,
            endsSettled narrowConfig s (.drain 0))) = some (true, true) := by
    decide +kernel
  obtain ⟨s, hs, hrest⟩ := Option.bind_eq_some_iff.mp hobs
  obtain ⟨s', hs', hobs⟩ := Option.map_eq_some_iff.mp hrest
  obtain ⟨hnew, hsettled⟩ := Prod.mk.inj hobs
  have heos := eosConfirmed_of_drop hs' hnew
  exact ⟨s, s', hs, hs', heos,
    ((eos_confirmation_last_iff (Machine.path_of_exec hs) hs' heos).mpr hsettled).1⟩

/-- The drain looks again before the delivery task does: the second chunk, which the pacer released
and could not send, enters the client's queue after the confirmation. -/
theorem released_chunk_after_eos : ∃ s s' later,
    (machine narrowConfig).exec .initial answerRun = some s ∧
    step narrowConfig s (.drain 0) = some s' ∧
    (machine narrowConfig).exec s' [.read, .deliver "voice" 0] = some later ∧
    later.hasCloseTask = false ∧ EosConfirmed s s' ∧ ¬ NothingUnpublished narrowConfig s' ∧
    ∃ item ∈ later.entered.drop s'.entered.length, item.output.kind = .data ∧
      ∃ k, item.emission = some k ∧ k < (s'.sessions "voice").nextOutput := by
  have hobs : (((machine narrowConfig).exec .initial answerRun).bind fun s =>
      (step narrowConfig s (.drain 0)).bind fun s' =>
        ((machine narrowConfig).exec s' [.read, .deliver "voice" 0]).map fun later =>
          ((s'.entered.drop s.entered.length).any QueuedOutput.isEosConfirmation,
            later.hasCloseTask, (s'.pacers "voice").unsent.isEmpty,
            (later.entered.drop s'.entered.length).any fun item =>
              item.output.kind = .data &&
                item.emission.any fun k => k < (s'.sessions "voice").nextOutput)) =
      some (true, false, false, true) := by
    decide +kernel
  obtain ⟨s, hs, hrest⟩ := Option.bind_eq_some_iff.mp hobs
  obtain ⟨s', hs', hrest⟩ := Option.bind_eq_some_iff.mp hrest
  obtain ⟨later, hlater, hobs⟩ := Option.map_eq_some_iff.mp hrest
  simp only [Prod.mk.injEq] at hobs
  obtain ⟨hnew, hopen, hunsent, hlate⟩ := hobs
  refine ⟨s, s', later, hs, hs', hlater, hopen, eosConfirmed_of_drop hs' hnew, fun hnothing => ?_, ?_⟩
  · obtain ⟨-, -, -, hpacer, -⟩ := hnothing "voice" (by decide)
    rw [(hpacer (by decide)).2] at hunsent
    cases hunsent
  · obtain ⟨item, hitem, hobs⟩ := List.any_eq_true.mp hlate
    simp only [Bool.and_eq_true, decide_eq_true_eq] at hobs
    obtain ⟨k, hk, hlt⟩ := (Option.any_eq_true _ _).mp hobs.2
    exact ⟨item, hitem, hobs.1, k, hk, by simpa using hlt⟩

end Session
