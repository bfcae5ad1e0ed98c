import SglangOmni.Proto.Msgpack
import SglangOmni.Session.Nodes

/-! What is left of a turn once its interrupt has been fenced at a node with a pacer.  The fence drops
the turn at every place where it can wait, and every later entrance is checked against the interrupted
turns, but one: a routing task that holds a chunk for its readers when the fence runs still hands it to
the next one.  Where no fence finds the routing task of its node with such a chunk, nothing of the
turn comes through. -/

namespace Session

open Lib Proto Relation

/-! ### Chunks and where they come from -/

def InboxItem.IsSourced (cfg : Config) (item : InboxItem) : Prop :=
  item = clientItem item.chunk ∨ item.source ∈ cfg.graph.names ∧ item.clientSeq = none

/-- A chunk as it is appended to a node: whole, or a fragment, whose payload is bytes. -/
structure IsPart (whole part : TimedChunk) : Prop where
  turn : part.turn = whole.turn
  event : controlType part = controlType whole ∨ controlType part = none

theorem IsPart.interruptedReply {whole part : TimedChunk} (h : IsPart whole part) {turn : Turn}
    (hreply : isInterruptedReply whole turn = true) : isInterruptedReply part turn = true := by
  simp only [isInterruptedReply, interruptedReplyOf, Bool.and_eq_true, decide_eq_true_eq,
    h.turn] at hreply ⊢
  refine ⟨hreply.1, ?_⟩
  rcases h.event with hsame | hnone
  · rw [hsame]
    exact hreply.2
  · rw [hnone]
    decide

theorem fragmentFrom_isPart {p : Packer} {bytes : Nat} {chunk : TimedChunk} {seq start : Nat}
    {fragment : Fragment} (h : p.fragmentFrom bytes chunk seq start = some fragment) :
    IsPart chunk fragment.chunk ∧ fragment.chunk.seq = seq := by
  simp only [Packer.fragmentFrom] at h
  split at h
  · cases h
  · cases h
    refine ⟨⟨rfl, .inr ?_⟩, rfl⟩
    simp only [controlType, controlTypeOf]
    split <;> rfl

theorem append_accepted {cfg : Config} {session session' : NodeSession} {chunk : TimedChunk}
    {continues : Bool} {whole : InboxItem}
    (h : session.append cfg chunk continues whole = .accepted session') :
    chunk.seq = session.nextInput ∧ session' = { session with
      pending := session.pending ++
        [⟨chunk, cfg.packer.wireSize chunk, continues, whole⟩]
      pendingCount := session.pendingCount + 1
      pendingBytes := session.pendingBytes + cfg.packer.wireSize chunk
      nextInput := session.nextInput + 1
      modalities := session.modalities.insert chunk.modality } := by
  unfold NodeSession.append at h
  simp only at h
  split at h
  · cases h
  · next hchecked =>
    split at h
    · cases h
    · split at h
      · cases h
      · cases h
        push Not at hchecked
        exact ⟨hchecked.2.1, rfl⟩

/-- What holds of the chunks on their way into a node: only the client's own have the numbers in
`client_sequences`. -/
structure Appends (cfg : Config) (s : State) (n : String) : Prop where
  sourced : ∀ item ∈ (s.inboxes n).queued, item.IsSourced cfg
  fragment : ∀ item fragment, s.forwarders n = .fragments item fragment →
    item.source ≠ graphInput ∧ IsPart item.chunk fragment.chunk
  part : ∀ p ∈ (s.sessions n).pending, IsPart p.whole.chunk p.chunk
  below : ∀ p ∈ (s.sessions n).pending, p.chunk.seq < (s.sessions n).nextInput
  sequences : ∀ k, (s.clientSequences n).contains k = true → k < (s.sessions n).nextInput
  own : ∀ p ∈ (s.sessions n).pending, p.whole.source ≠ graphInput →
    (s.clientSequences n).contains p.chunk.seq = false

variable {cfg : Config} {a : Action} {s s' : State} {n : String}

theorem IsSourced.ne_input {item : InboxItem} (h : item.IsSourced cfg)
    (hclient : item.clientSeq = none) : item.source ≠ graphInput := by
  rcases h with h | ⟨hnode, -⟩
  · rw [h] at hclient
    cases hclient
  · intro hinput
    rw [hinput] at hnode
    exact cfg.valid.input_not_node hnode

theorem IsSourced.clientSeq {item : InboxItem} (h : item.IsSourced cfg)
    (hinput : item.source ≠ graphInput) : item.clientSeq = none := by
  rcases h with h | ⟨-, hclient⟩
  · rw [h] at hinput
    exact absurd rfl hinput
  · exact hclient

theorem isSourced_of_origin {m : String} {item : InboxItem} (h : Origin cfg s s' m item)
    (hnode : item.source ∈ cfg.graph.names) : item.IsSourced cfg := by
  refine .inr ⟨hnode, ?_⟩
  cases h <;> rfl

theorem mem_dropOldest {inbox : Inbox} {source : String} {item : InboxItem}
    (h : item ∈ (inbox.dropOldest source).queued) : item ∈ inbox.queued :=
  List.mem_of_mem_eraseP h

theorem mem_push {inbox : Inbox} {item added : InboxItem} (h : item ∈ (inbox.push added).queued) :
    item ∈ inbox.queued ∨ item = added := by
  simpa [Inbox.push] using h

theorem mem_fence {inbox : Inbox} {turn : Turn} {item : InboxItem}
    (h : item ∈ (inbox.fence turn).queued) :
    item ∈ inbox.queued ∧
      (item.source ≠ graphInput → isInterruptedReply item.chunk turn = false) := by
  obtain ⟨hmem, hkept⟩ := List.mem_filter.mp h
  refine ⟨hmem, fun hinput => ?_⟩
  simpa [hinput] using hkept

theorem InboxMove.mem {m : String} (h : InboxMove cfg s s' m) {item : InboxItem}
    (hitem : item ∈ (s'.inboxes m).queued) :
    item ∈ (s.inboxes m).queued ∨
      (Origin cfg s s' m item ∧ item.source ∈ cfg.graph.names ∧ s.isInterrupted m item.chunk = false) ∨
      item = clientItem item.chunk := by
  cases h with
  | keep h =>
    rw [h] at hitem
    exact .inl hitem
  | put horigin hnode hwanted _ h =>
    rw [h] at hitem
    rcases mem_push hitem with hold | rfl
    · exact .inl hold
    · exact .inr (.inl ⟨horigin, hnode, hwanted⟩)
  | replace horigin hnode hwanted _ _ h =>
    rw [h] at hitem
    rcases mem_push hitem with hold | rfl
    · exact .inl (mem_dropOldest hold)
    · exact .inr (.inl ⟨horigin, hnode, hwanted⟩)
  | input _ _ _ _ _ h =>
    rw [h] at hitem
    rcases mem_push hitem with hold | rfl
    · exact .inl hold
    · exact .inr (.inr rfl)
  | inputReplace _ _ _ _ _ _ h =>
    rw [h] at hitem
    rcases mem_push hitem with hold | rfl
    · exact .inl (mem_dropOldest hold)
    · exact .inr (.inr rfl)
  | inputDrop _ _ h =>
    rw [h] at hitem
    exact .inl (mem_dropOldest hitem)
  | fence _ h =>
    rw [h] at hitem
    exact .inl (mem_fence hitem).1

theorem ForwardMove.mem_inbox (h : ForwardMove cfg n s s') {item : InboxItem}
    (hitem : item ∈ (s'.inboxes n).queued) : item ∈ (s.inboxes n).queued := by
  have hset : ∀ inbox, (s.setInbox n inbox).inboxes n = inbox :=
    fun inbox => Function.update_self _ _ _
  cases h with
  | @rotate seq head rest hplace hqueued heos hclient =>
    rw [hset] at hitem
    rw [hqueued]
    simpa [or_comm] using hitem
  | @whole seq head rest session hplace hqueued haccept sequences hsequences =>
    change item ∈ (Function.update s.inboxes n _ n).queued at hitem
    rw [Function.update_self] at hitem
    exact List.mem_of_mem_tail hitem
  | start hplace hqueued =>
    change item ∈ (Function.update s.inboxes n _ n).queued at hitem
    rw [Function.update_self] at hitem
    exact List.mem_of_mem_tail hitem
  | startFails hqueued =>
    change item ∈ (Function.update s.inboxes n _ n).queued at hitem
    rw [Function.update_self] at hitem
    exact List.mem_of_mem_tail hitem
  | last hplace hwanted haccept =>
    change item ∈ (Function.update s.inboxes n _ n).queued at hitem
    rw [Function.update_self] at hitem
    exact hitem
  | cut => exact hitem
  | fragment => exact hitem
  | fragmentFails => exact hitem
  | fail => exact hitem

theorem Appends.accepted (h : Appends cfg s n) {chunk : TimedChunk} {continues : Bool}
    {item : InboxItem} {session : NodeSession}
    (haccept : (s.sessions n).append cfg chunk continues item = .accepted session)
    (hsession : s'.sessions n = session) (hpart : IsPart item.chunk chunk)
    (hsourced : ∀ x ∈ (s'.inboxes n).queued, x.IsSourced cfg)
    (hfragment : ∀ x fragment, s'.forwarders n = .fragments x fragment →
      x.source ≠ graphInput ∧ IsPart x.chunk fragment.chunk)
    (hsequences : ∀ k, (s'.clientSequences n).contains k = true →
      (s.clientSequences n).contains k = true ∨ k = chunk.seq ∧ item.source = graphInput) :
    Appends cfg s' n := by
  obtain ⟨hseq, rfl⟩ := append_accepted haccept
  have hmem : ∀ p ∈ (s'.sessions n).pending, p ∈ (s.sessions n).pending ∨
      p.chunk = chunk ∧ p.whole = item := by
    intro p hp
    rw [hsession] at hp
    rcases List.mem_append.mp hp with hold | hnew
    · exact .inl hold
    · rw [List.mem_singleton.mp hnew]
      exact .inr ⟨rfl, rfl⟩
  have hnext : (s'.sessions n).nextInput = (s.sessions n).nextInput + 1 := by rw [hsession]
  refine ⟨hsourced, hfragment, fun p hp => ?_, fun p hp => ?_, fun k hk => ?_, fun p hp hinput => ?_⟩
  · rcases hmem p hp with hold | ⟨hchunk, hwhole⟩
    · exact h.part p hold
    · rw [hchunk, hwhole]
      exact hpart
  · rw [hnext]
    rcases hmem p hp with hold | ⟨hchunk, -⟩
    · exact (h.below p hold).trans (Nat.lt_succ_self _)
    · rw [hchunk, hseq]
      exact Nat.lt_succ_self _
  · rw [hnext]
    rcases hsequences k hk with hold | ⟨rfl, -⟩
    · exact (h.sequences k hold).trans (Nat.lt_succ_self _)
    · omega
  · refine Bool.eq_false_iff.mpr fun hk => ?_
    rcases hmem p hp with hold | ⟨hchunk, hwhole⟩
    · rcases hsequences _ hk with hwas | ⟨hnew, -⟩
      · rw [h.own p hold hinput] at hwas
        cases hwas
      · have := h.below p hold
        omega
    · rcases hsequences _ hk with hwas | ⟨-, hclient⟩
      · have := h.sequences _ hwas
        rw [hchunk] at this
        omega
      · rw [hwhole] at hinput
        exact hinput hclient

theorem Appends.fewer (h : Appends cfg s n)
    (hsourced : ∀ x ∈ (s'.inboxes n).queued, x.IsSourced cfg)
    (hfragment : ∀ x fragment, s'.forwarders n = .fragments x fragment →
      x.source ≠ graphInput ∧ IsPart x.chunk fragment.chunk)
    (hpending : ∀ p ∈ (s'.sessions n).pending, p ∈ (s.sessions n).pending)
    (hnext : (s'.sessions n).nextInput = (s.sessions n).nextInput)
    (hsequences : ∀ k, (s'.clientSequences n).contains k = true →
      (s.clientSequences n).contains k = true) : Appends cfg s' n := by
  refine ⟨hsourced, hfragment, fun p hp => h.part p (hpending p hp), fun p hp => ?_, fun k hk => ?_,
    fun p hp hinput => Bool.eq_false_iff.mpr fun hk => ?_⟩
  · rw [hnext]
    exact h.below p (hpending p hp)
  · rw [hnext]
    exact h.sequences k (hsequences k hk)
  · have hwas := hsequences _ hk
    rw [h.own p (hpending p hp) hinput] at hwas
    cases hwas

theorem SessionMove.appends {session session' : NodeSession} (h : SessionMove cfg n session session') :
    (∀ p ∈ session'.pending, p ∈ session.pending) ∧ session'.nextInput = session.nextInput := by
  cases h with
  | take hpending =>
    refine ⟨fun p hp => ?_, rfl⟩
    rw [hpending]
    exact List.mem_cons_of_mem _ hp
  | clean => exact ⟨fun p hp => (by cases hp), rfl⟩
  | _ => exact ⟨fun p hp => hp, rfl⟩

theorem contains_of_erase {sequences : Dict Nat Nat} {j k : Nat}
    (h : (sequences.erase j).contains k = true) : sequences.contains k = true := by
  obtain ⟨v, hv⟩ := (Dict.contains_iff _ k).mp h
  exact (Dict.contains_iff _ k).mpr ⟨v, (Dict.get?_erase_some hv).2⟩

theorem NodeMove.appends (h : NodeMove cfg s s' n) :
    (∀ p ∈ (s'.sessions n).pending, p ∈ (s.sessions n).pending) ∧
      (s'.sessions n).nextInput = (s.sessions n).nextInput ∧
      ∀ k, (s'.clientSequences n).contains k = true → (s.clientSequences n).contains k = true := by
  have hpop : ∀ rest size, ((s.popOutput n rest size).sessions n).pending = (s.sessions n).pending ∧
      ((s.popOutput n rest size).sessions n).nextInput = (s.sessions n).nextInput := by
    intro rest size
    have hself : (s.popOutput n rest size).sessions n = _ := Function.update_self _ _ _
    rw [hself]
    exact ⟨rfl, rfl⟩
  cases h with
  | keep h hsequences =>
    rw [h, hsequences]
    exact ⟨fun p hp => hp, rfl, fun k hk => hk⟩
  | session hmove hsequences =>
    rw [hsequences]
    exact ⟨hmove.appends.1, hmove.appends.2, fun k hk => hk⟩
  | @pop output size rest _ _ _ h hsequences =>
    rw [h, hsequences, (hpop rest size).1, (hpop rest size).2]
    exact ⟨fun p hp => hp, rfl, fun k hk => hk⟩
  | @confirm output size rest _ _ _ h hsequences =>
    rw [h, hsequences, (hpop rest size).1, (hpop rest size).2]
    exact ⟨fun p hp => hp, rfl, fun k hk => contains_of_erase hk⟩
  | fence h hsequences =>
    rw [h, hsequences]
    exact ⟨fun p hp => (List.mem_filter.mp hp).1, rfl, fun k hk => hk⟩

theorem Appends.forward (h : Appends cfg s n) (hmove : ForwardMove cfg n s s') :
    Appends cfg s' n := by
  have hsourced : ∀ x ∈ (s'.inboxes n).queued, x.IsSourced cfg :=
    fun x hx => h.sourced x (hmove.mem_inbox hx)
  have hset : ∀ (s : State) (f : Forwarder), (s.setForwarder n f).forwarders n = f :=
    fun s f => Function.update_self _ _ _
  -- a forwarder that is not amid fragments
  have hplain : ∀ f, s'.forwarders n = f → (∀ x fragment, f ≠ .fragments x fragment) →
      ∀ x fragment, s'.forwarders n = .fragments x fragment →
        x.source ≠ graphInput ∧ IsPart x.chunk fragment.chunk :=
    fun f hf hnot x fragment hx => absurd (hf.symm.trans hx) (hnot x fragment)
  have hsame : ∀ (s : State) (session : NodeSession), (s.setSession n session).sessions n = session :=
    fun s session => Function.update_self _ _ _
  cases hmove with
  | rotate => exact h.fewer hsourced h.fragment (fun p hp => hp) rfl fun k hk => hk
  | @whole seq item rest session hplace hqueued haccept sequences hsequences =>
    refine h.accepted haccept (hsame _ _) ⟨rfl, .inl rfl⟩ hsourced
      (hplain _ (hset _ _) fun _ _ h => by cases h) fun k hk => ?_
    change (Function.update s.clientSequences n sequences n).contains k = true at hk
    rw [Function.update_self, hsequences] at hk
    split at hk
    · exact .inl hk
    · next clientSeq hclient =>
      have hitem := h.sourced item (by rw [hqueued]; exact List.mem_cons_self)
      obtain ⟨v, hv⟩ := (Dict.contains_iff _ k).mp hk
      rw [Dict.get?_set] at hv
      split at hv
      · next hkey =>
        refine .inr ⟨hkey, ?_⟩
        by_contra hinput
        rw [IsSourced.clientSeq hitem hinput] at hclient
        cases hclient
      · exact .inl ((Dict.contains_iff _ k).mpr ⟨v, hv⟩)
  | @start seq item rest fragment hplace hqueued hnode hfragment =>
    refine h.fewer hsourced (fun x y hx => ?_) (fun p hp => hp) rfl fun k hk => hk
    rw [hset] at hx
    cases hx
    have hitem := h.sourced item (by rw [hqueued]; exact List.mem_cons_self)
    exact ⟨IsSourced.ne_input hitem hnode, (fragmentFrom_isPart hfragment).1⟩
  | startFails =>
    exact h.fewer hsourced (hplain _ (hset _ _) fun _ _ h => by cases h) (fun p hp => hp) rfl
      fun k hk => hk
  | cut =>
    exact h.fewer hsourced (hplain _ (hset _ _) fun _ _ h => by cases h) (fun p hp => hp) rfl
      fun k hk => hk
  | @fragment item fragment next session hplace hwanted haccept hnext =>
    obtain ⟨hinput, hpart⟩ := h.fragment item fragment hplace
    refine h.accepted haccept (hsame _ _) hpart hsourced (fun x y hx => ?_) fun k hk => .inl hk
    rw [hset] at hx
    cases hx
    exact ⟨hinput, (fragmentFrom_isPart hnext).1⟩
  | @fragmentFails item fragment session hplace hwanted haccept =>
    exact h.accepted haccept (hsame _ _) (h.fragment item fragment hplace).2 hsourced
      (hplain _ (hset _ _) fun _ _ h => by cases h) fun k hk => .inl hk
  | @last item fragment session hplace hwanted haccept =>
    exact h.accepted haccept (hsame _ _) (h.fragment item fragment hplace).2 hsourced
      (hplain _ (hset _ _) fun _ _ h => by cases h) fun k hk => .inl hk
  | fail =>
    exact h.fewer hsourced (hplain _ (hset _ _) fun _ _ h => by cases h) (fun p hp => hp) rfl
      fun k hk => hk

theorem Appends.move (h : Appends cfg s n) (hmove : Move cfg a s s') : Appends cfg s' n := by
  by_cases hforward : ForwardMove cfg n s s'
  · exact h.forward hforward
  · have hinbox := (hmove.inbox n).resolve_right fun hf => hforward hf.2.2
    have hnode := (hmove.node n).resolve_right fun hf => hforward hf.2.2
    have hplace := (hmove.forwarder n).resolve_right fun hf => hforward hf.2.2
    obtain ⟨hpending, hnext, hsequences⟩ := hnode.appends
    refine h.fewer (fun x hx => ?_) (fun x fragment hx => ?_) hpending hnext hsequences
    · rcases hinbox.mem hx with hold | ⟨horigin, hsource, -⟩ | hclient
      · exact h.sourced x hold
      · exact isSourced_of_origin horigin hsource
      · exact .inl hclient
    · rcases hplace with hsame | ⟨hstop, -⟩
      · exact h.fragment x fragment (hsame ▸ hx)
      · rw [hstop] at hx
        cases hx

theorem Appends.initial (n : String) : Appends cfg .initial n where
  sourced := fun item hitem => (by cases hitem)
  fragment := fun item fragment h => (by cases h)
  part := fun p hp => (by cases hp)
  below := fun p hp => (by cases hp)
  sequences := fun k hk => (by cases hk)
  own := fun p hp => (by cases hp)

/-! ### Places of the tasks -/

/-- The output that a routing task has taken, before it has a number for the client. -/
def Router.carried : Router → Option OutputChunk
  | .awaitDelivery output | .fencing output _ _ _ | .putting output _ => some output
  | _ => none

/-- What a blocked publisher and a delivery task that waits for a reader have in hand. -/
structure Placed (cfg : Config) (s : State) : Prop where
  publishing : ∀ n item, s.routers n = .publishing item →
    item.name = n ∧ cfg.graph.isPaced n = false
  released : ∀ n output readers, s.deliverers n = .putting output readers →
    outputControlType output = some turnDone

theorem RouteMove.blocked (h : RouteMove cfg n s s') {item : QueuedOutput}
    (hitem : s'.routers n = .publishing item) :
    s.routers n = .publishing item ∨ ∃ before, (s.routers n).carried = some before ∧
      item.name = n ∧ item.output.kind = before.kind ∧ item.emission = some before.seq ∧
      cfg.graph.isPaced n = false := by
  have hset : ∀ (s : State) (r : Router), (s.setRouter n r).routers n = .publishing item →
      r = .publishing item := fun s r hr => by rwa [State.routers_setRouter] at hr
  cases h with
  | drop => exact .inl hitem
  | @confirm output size rest hplace houtputs hdone =>
    obtain ⟨s₁, hmoves, hend⟩ : ∃ s₁, ReflTransGen (ConfirmMove cfg) (s.popOutput n rest size) s₁ ∧ _ :=
      routeInputDone_moves _ n output
    rcases hend with hend | hend
    · rw [hend, confirms_routers hmoves] at hitem
      exact .inl hitem
    · rw [hend] at hitem
      cases hset s₁ .stopped hitem
  | delivery => exact .inl hitem
  | @block output hplace hbudget hpaced =>
    cases hset _ _ hitem
    exact .inr ⟨output, by rw [hplace]; rfl, rfl, rfl, rfl, hpaced⟩
  | fail => cases hset s .stopped hitem
  | _ => cases hset _ _ hitem

theorem DeliverMove.released (h : DeliverMove cfg n s s') {output : OutputChunk}
    {readers : List String} (hplace : s'.deliverers n = .putting output readers) :
    (∃ readers', s.deliverers n = .putting output readers') ∨
      outputControlType output = some turnDone := by
  have hset : ∀ (s : State) (d : Deliverer), (s.setDeliverer n d).deliverers n = .putting output readers →
      d = .putting output readers := fun s d hd => by rwa [State.deliverers_setDeliverer] at hd
  cases h with
  | discard => exact .inl ⟨readers, hplace⟩
  | send _ _ _ _ hnext =>
    have hd := hset _ _ hplace
    rw [hnext] at hd
    split at hd
    · next hdone =>
      cases hd
      exact .inr hdone
    · cases hd
  | put hwas _ =>
    cases hset _ _ hplace
    exact .inl ⟨_, hwas⟩
  | releaseFails => cases hset _ .stopped hplace
  | fail => cases hset s .stopped hplace
  | _ => cases hset _ _ hplace

theorem Placed.move (h : Placed cfg s) (hmove : Move cfg a s s') : Placed cfg s' := by
  constructor
  · intro n item hitem
    rcases hmove.router n with (hsame | hstop) | ⟨-, -, hroute⟩
    · exact h.publishing n item (hsame ▸ hitem)
    · rw [hstop] at hitem
      cases hitem
    · rcases hroute.blocked hitem with hwas | ⟨_, _, hname, _, _, hpaced⟩
      · exact h.publishing n item hwas
      · exact ⟨hname, hpaced⟩
  · intro n output readers hplace
    rcases hmove.deliverer n with (hsame | hstop) | hdeliver
    · exact h.released n output readers (hsame ▸ hplace)
    · rw [hstop] at hplace
      cases hplace
    · rcases hdeliver.released hplace with ⟨readers', hwas⟩ | hdone
      · exact h.released n output readers' hwas
      · exact hdone

theorem Placed.initial : Placed cfg .initial :=
  ⟨fun n item h => (by cases h), fun n output readers h => (by cases h)⟩

/-! ### The turn after its fence -/

def dataTurn (output : OutputChunk) : Option Turn :=
  if outputControlType output = none then output.turn else none

/-- The turn of the data chunk that a routing task still has to hand to a reader. -/
def owedTurn (cfg : Config) (n : String) : Router → Option Turn
  | .putting output (_ :: _) => dataTurn output
  | .awaitDelivery output | .fencing output _ _ _ =>
    if (outputTargets cfg n output).isEmpty ∧ ¬ (cfg.graph.readingNodes n output.format).isEmpty then
      dataTurn output
    else none
  | _ => none

/-- A turn whose interrupt was fenced at `n`: nothing of its reply is left on its way to `n`, and no
data of it on its way from there. -/
structure Fenced (cfg : Config) (n : String) (turn : Turn) (s : State) : Prop where
  interrupted : turn ∈ s.interruptedTurns n
  outputs : ∀ item ∈ s.outputs, item.isStale n turn = false
  pacer : ∀ item ∈ (s.pacers n).all, outputInterruptedReply item.1 turn = false
  router : owedTurn cfg n (s.routers n) ≠ some turn
  inbox : ∀ item ∈ (s.inboxes n).queued, item.source ≠ graphInput →
    isInterruptedReply item.chunk turn = false
  pending : ∀ p ∈ (s.sessions n).pending, p.whole.source ≠ graphInput →
    isInterruptedReply p.whole.chunk turn = false

theorem not_reply_of_wanted {turn : Turn} {chunk : TimedChunk} (ht : turn ∈ s.interruptedTurns n)
    (hwanted : s.isInterrupted n chunk = false) : isInterruptedReply chunk turn = false := by
  unfold State.isInterrupted at hwanted
  exact Bool.eq_false_iff.mpr (List.any_eq_false.mp hwanted turn ht)

theorem reply_of_data {output : OutputChunk} {turn : Turn} (h : dataTurn output = some turn) :
    outputInterruptedReply output turn = true := by
  unfold dataTurn at h
  split at h
  · next hdata =>
    simp only [outputInterruptedReply, interruptedReplyOf, h, hdata]
    decide
  · cases h

theorem dataTurn_routedOutput (s : State) (output : OutputChunk) :
    dataTurn (routedOutput cfg s n output) = dataTurn output := by
  unfold routedOutput
  split <;> rfl

theorem owedTurn_of_held {r : Router} {output : OutputChunk} (h : r.held = some output) :
    owedTurn cfg n r =
      if (outputTargets cfg n output).isEmpty ∧ ¬ (cfg.graph.readingNodes n output.format).isEmpty then
        dataTurn output
      else none := by
  cases r <;> cases h <;> rfl

theorem RouteMove.owedTurn_ne (h : RouteMove cfg n s s') {turn : Turn}
    (ht : turn ∈ s.interruptedTurns n) (howed : owedTurn cfg n (s.routers n) ≠ some turn) :
    owedTurn cfg n (s'.routers n) ≠ some turn := by
  have hset : ∀ (s : State) (r : Router), owedTurn cfg n r ≠ some turn →
      owedTurn cfg n ((s.setRouter n r).routers n) ≠ some turn := fun s r hr => by
    rwa [State.routers_setRouter]
  cases h with
  | @take output size rest hplace houtputs hdata hwanted =>
    refine hset _ _ fun hnew => ?_
    rw [owedTurn_of_held rfl] at hnew
    split at hnew
    · have hreply := not_reply_of_wanted ht hwanted
      rw [isInterruptedReply_outputChunk, reply_of_data hnew] at hreply
      cases hreply
    · cases hnew
  | drop => exact howed
  | @confirm output size rest hplace houtputs hdone =>
    obtain ⟨s₁, hmoves, hend⟩ : ∃ s₁, ReflTransGen (ConfirmMove cfg) (s.popOutput n rest size) s₁ ∧ _ :=
      routeInputDone_moves _ n output
    rcases hend with hend | hend
    · rw [hend, confirms_routers hmoves]
      exact howed
    · rw [hend]
      exact hset s₁ .stopped fun h => by cases h
  | delivery => exact howed
  | @suspend output report left fenced hplace =>
    refine hset _ _ ?_
    rw [owedTurn_of_held hplace] at howed
    exact howed
  | @data output hplace htargets =>
    refine hset _ _ fun hnew => howed ?_
    rw [owedTurn_of_held hplace]
    unfold owedTurn at hnew
    split at hnew
    · next hreaders =>
      obtain ⟨rfl, hreaders⟩ := (Router.putting.injEq _ _ _ _).mp hreaders
      rw [dataTurn_routedOutput] at hnew
      have hnone : outputControlType output = none := by
        unfold dataTurn at hnew
        split at hnew
        · next hnone => exact hnone
        · cases hnew
      have hread : cfg.graph.readingNodes n output.format ≠ [] := by
        intro hempty
        simp [routedReaders, hempty] at hreaders
      rw [if_pos ⟨by simpa [hnone] using htargets, by simpa using hread⟩]
      exact hnew
    · next hheld => cases hheld
    · next hheld => cases hheld
    · cases hnew
  | @put output reader rest s₁ hplace hput =>
    refine hset _ _ fun hnew => howed ?_
    rw [hplace]
    unfold owedTurn at hnew
    split at hnew
    · next hreaders =>
      cases (Router.putting.injEq _ _ _ _).mp hreaders with
      | intro houtput _ =>
        rw [← houtput] at hnew
        exact hnew
    · next hheld => cases hheld
    · next hheld => cases hheld
    · cases hnew
  | fail => exact hset s .stopped fun h => by cases h
  | _ => exact hset _ _ fun h => by cases h

/-! ### Moves -/

theorem Move.turns (h : Move cfg a s s') (n : String) :
    (∀ turn ∈ s.interruptedTurns n, turn ∈ s'.interruptedTurns n) ∧
      (s'.fenced n = s.fenced n ∨ ∃ turn, s'.fenced n = turn :: s.fenced n ∧ a ≠ .route n ∧
        fenceTurn cfg s n turn = .ok s') := by
  have hinterrupt : ∀ target turn, ∀ old ∈ s.interruptedTurns n,
      old ∈ (s.interruptTurn target turn).interruptedTurns n := by
    intro target turn old hold
    simp only [State.interruptTurn, Function.update_apply]
    split
    · next hn =>
      rw [← hn]
      exact List.mem_insert_of_mem hold
    · exact hold
  cases h with
  | report _ hput =>
    obtain ⟨inbox, rfl⟩ := putGraphInbox_inboxes hput
    exact ⟨fun _ h => h, .inl rfl⟩
  | @fence _ _ _ target turn hother hnode hfence =>
    have hturns : s'.interruptedTurns = (s.interruptTurn target turn).interruptedTurns :=
      (fenceTurn_inboxes hfence).2
    have hmarked : s'.fenced = (s.markFenced target turn).fenced := by
      simp only [fenceTurn] at hfence
      split at hfence
      · cases hfence
      · split at hfence <;> (cases hfence; rfl)
    refine ⟨fun old hold => hturns ▸ hinterrupt target turn old hold, ?_⟩
    by_cases hn : n = target
    · subst hn
      refine .inr ⟨turn, ?_, fun ha => hother n ha rfl, hfence⟩
      rw [hmarked]
      exact Function.update_self _ _ _
    · refine .inl ?_
      rw [hmarked]
      exact Function.update_of_ne hn _ _
  | @fenceRaises _ _ _ target turn hfence =>
    have hturns : s'.interruptedTurns = (s.interruptTurn target turn).interruptedTurns :=
      (fenceTurn_inboxes hfence).2
    refine ⟨fun old hold => hturns ▸ hinterrupt target turn old hold, .inl ?_⟩
    simp only [fenceTurn] at hfence
    split at hfence
    · cases hfence
      rfl
    · cases hfence
  | append happend =>
    obtain ⟨_, _, _, _, _, _, _, _, _, _, _, _, _, _, hsame⟩ :=
      append_frame (appendGraph_moves happend)
    change s' = _ at hsame
    rw [hsame]
    exact ⟨fun _ h => h, .inl rfl⟩
  | appendRaises happend =>
    obtain ⟨_, _, _, _, _, _, _, _, _, _, _, _, _, _, hsame⟩ :=
      append_frame (appendGraph_moves happend)
    change s' = _ at hsame
    rw [hsame]
    exact ⟨fun _ h => h, .inl rfl⟩
  | read hread =>
    obtain ⟨_, _, _, _, rfl⟩ := readOutput_frame hread
    exact ⟨fun _ h => h, .inl rfl⟩
  | forward _ hmove => cases hmove <;> exact ⟨fun _ h => h, .inl rfl⟩
  | route _ hmove =>
    cases hmove with
    | @confirm output size rest hplace houtputs hdone =>
      obtain ⟨s₁, hmoves, _, _, hend⟩ : ∃ s₁, ReflTransGen (ConfirmMove cfg)
          (s.popOutput _ rest size) s₁ ∧ _ := routeInputDone_frame
      obtain ⟨_, _, _, _, _, _, _, _, rfl⟩ := confirms_frame hmoves
      rw [hend]
      exact ⟨fun _ h => h, .inl rfl⟩
    | @data output hplace htargets =>
      obtain ⟨outputEndMs, replyStartMs, hclock⟩ := routeClock_eq cfg s _ output
      rw [hclock]
      exact ⟨fun _ h => h, .inl rfl⟩
    | put hplace hput =>
      obtain ⟨inbox, rfl⟩ := putGraphInbox_inboxes hput
      exact ⟨fun _ h => h, .inl rfl⟩
    | _ => exact ⟨fun _ h => h, .inl rfl⟩
  | deliver _ _ hmove =>
    cases hmove with
    | put hplace hput =>
      obtain ⟨inbox, rfl⟩ := putGraphInbox_inboxes hput
      exact ⟨fun _ h => h, .inl rfl⟩
    | _ => exact ⟨fun _ h => h, .inl rfl⟩
  | drain _ _ hemit =>
    obtain ⟨-, -, rfl⟩ := emitGraphInputDone_ok hemit
    exact ⟨fun _ h => h, .inl rfl⟩
  | @cancel _ task _ => cases task <;> exact ⟨fun _ h => h, .inl rfl⟩
  | _ => exact ⟨fun _ h => h, .inl rfl⟩

theorem interruptedReply_congr {output part : OutputChunk} (h : Descends output part) (turn : Turn) :
    outputInterruptedReply part turn = outputInterruptedReply output turn := by
  simp only [outputInterruptedReply, h.turn, h.event]

theorem Entrance.not_stale {item : QueuedOutput} (h : Entrance cfg s item) (hplaced : Placed cfg s)
    (hpaced : cfg.graph.isPaced n = true) {turn : Turn} (ht : turn ∈ s.interruptedTurns n) :
    item.isStale n turn = false := by
  refine Bool.eq_false_iff.mpr fun hstale => ?_
  simp only [QueuedOutput.isStale, Bool.and_eq_true, decide_eq_true_eq] at hstale
  obtain ⟨⟨hname, hturn⟩, hdata⟩ := hstale
  cases h with
  | confirmed _ hnone _ =>
    rw [hnone] at hturn
    cases hturn
  | @published m output size s₁ _ _ hunpaced =>
    change m = n at hname
    rw [hname, hpaced] at hunpaced
    cases hunpaced
  | unblocked _ hplace =>
    obtain ⟨hown, hunpaced⟩ := hplaced.publishing _ _ hplace
    rw [← hown, hname, hpaced] at hunpaced
    cases hunpaced
  | @sent m output size rest s₁ _ _ hplace hunsent hwanted =>
    change m = n at hname
    subst hname
    have hreply := not_reply_of_wanted ht hwanted
    have hself : outputInterruptedReply output turn = true :=
      reply_of_data ((if_pos hdata).trans hturn)
    rw [isInterruptedReply_outputChunk, hself] at hreply
    cases hreply

theorem ForwardMove.pending_clean (h : ForwardMove cfg n s s') {turn : Turn}
    (ht : turn ∈ s.interruptedTurns n)
    (hinbox : ∀ item ∈ (s.inboxes n).queued, item.source ≠ graphInput →
      isInterruptedReply item.chunk turn = false)
    (hpending : ∀ p ∈ (s.sessions n).pending, p.whole.source ≠ graphInput →
      isInterruptedReply p.whole.chunk turn = false) :
    ∀ p ∈ (s'.sessions n).pending, p.whole.source ≠ graphInput →
      isInterruptedReply p.whole.chunk turn = false := by
  have happend : ∀ (chunk : TimedChunk) (continues : Bool) (item : InboxItem)
      (session : NodeSession),
      (s.sessions n).append cfg chunk continues item = .accepted session →
      (item.source ≠ graphInput → isInterruptedReply item.chunk turn = false) →
      ∀ p ∈ session.pending, p.whole.source ≠ graphInput →
        isInterruptedReply p.whole.chunk turn = false := by
    intro chunk continues item session haccept hitem p hp
    obtain ⟨-, rfl⟩ := append_accepted haccept
    rcases List.mem_append.mp hp with hold | hnew
    · exact hpending p hold
    · rw [List.mem_singleton.mp hnew]
      exact hitem
  have hsame : ∀ (s : State) (session : NodeSession), (s.setSession n session).sessions n = session :=
    fun s session => Function.update_self _ _ _
  cases h with
  | @whole seq item rest session hplace hqueued haccept sequences hsequences =>
    change ∀ p ∈ ((s.setSession n session).sessions n).pending, _
    rw [hsame]
    exact happend _ _ item session haccept
      (hinbox item (by rw [hqueued]; exact List.mem_cons_self))
  | @fragment item fragment next session hplace hwanted haccept hnext =>
    change ∀ p ∈ ((s.setSession n session).sessions n).pending, _
    rw [hsame]
    exact happend _ _ item session haccept fun _ => not_reply_of_wanted ht hwanted
  | @fragmentFails item fragment session hplace hwanted haccept =>
    change ∀ p ∈ ((s.setSession n session).sessions n).pending, _
    rw [hsame]
    exact happend _ _ item session haccept fun _ => not_reply_of_wanted ht hwanted
  | @last item fragment session hplace hwanted haccept =>
    change ∀ p ∈ ((s.setSession n session).sessions n).pending, _
    rw [hsame]
    exact happend _ _ item session haccept fun _ => not_reply_of_wanted ht hwanted
  | _ => exact hpending

theorem Fenced.move {turn : Turn} (h : Fenced cfg n turn s) (hplaced : Placed cfg s)
    (hpaced : cfg.graph.isPaced n = true) (hmove : Move cfg a s s') : Fenced cfg n turn s' := by
  refine ⟨(hmove.turns n).1 turn h.interrupted, fun item hitem => ?_, fun item hitem => ?_, ?_,
    fun item hitem hinput => ?_, ?_⟩
  · obtain ⟨new, -, houtputs, hnew⟩ := hmove.entrances
    rcases houtputs item hitem with hold | hin
    · exact h.outputs item hold
    · exact (hnew item hin).not_stale hplaced hpaced h.interrupted
  · rcases hmove.pacer n item hitem with ⟨held, hheld, hdescends⟩ | ⟨-, hwanted⟩
    · rw [interruptedReply_congr hdescends]
      exact h.pacer held hheld
    · exact not_reply_of_wanted h.interrupted hwanted
  · rcases hmove.router n with (hsame | hstop) | ⟨-, -, hroute⟩
    · rw [hsame]
      exact h.router
    · rw [hstop]
      exact fun h => by cases h
    · exact hroute.owedTurn_ne h.interrupted h.router
  · rcases hmove.inbox n with hinbox | ⟨-, -, hforward⟩
    · rcases hinbox.mem hitem with hold | ⟨-, -, hwanted⟩ | hclient
      · exact h.inbox item hold hinput
      · exact not_reply_of_wanted h.interrupted hwanted
      · rw [hclient] at hinput
        exact absurd rfl hinput
    · exact h.inbox item (hforward.mem_inbox hitem) hinput
  · rcases hmove.node n with hnode | ⟨-, -, hforward⟩
    · exact fun p hp => h.pending p (hnode.appends.1 p hp)
    · exact hforward.pending_clean h.interrupted h.inbox h.pending

theorem Fenced.of_fence {turn : Turn} (happends : Appends cfg s n)
    (hpaced : cfg.graph.isPaced n = true) (howed : owedTurn cfg n (s.routers n) ≠ some turn)
    (h : fenceTurn cfg s n turn = .ok s') : Fenced cfg n turn s' := by
  have hturns : s'.interruptedTurns = (s.interruptTurn n turn).interruptedTurns :=
    (fenceTurn_inboxes h).2
  have hinboxes : s'.inboxes = (s.interruptTurn n turn).inboxes := (fenceTurn_inboxes h).1
  have hrouters := (fenceTurn_routers s n turn).1 s' h
  simp only [fenceTurn, hpaced, if_true] at h
  split at h
  · cases h
  · cases h
    refine ⟨?_, fun item hitem => ?_, fun item hitem => ?_, ?_, fun item hitem => ?_, fun p hp => ?_⟩
    · rw [hturns]
      change turn ∈ Function.update s.interruptedTurns n _ n
      rw [Function.update_self]
      exact List.mem_insert_self
    · have hkept := (List.mem_filter.mp hitem).2
      simpa using hkept
    · change item ∈ (Function.update s.pacers n _ n).all at hitem
      rw [Function.update_self] at hitem
      rcases List.mem_append.mp hitem with hitem | hitem
      · simpa using (List.mem_filter.mp hitem).2
      · simpa using (List.mem_filter.mp hitem).2
    · rw [hrouters]
      exact howed
    · rw [hinboxes] at hitem
      change item ∈ (Function.update s.inboxes n _ n).queued at hitem
      rw [Function.update_self] at hitem
      exact (mem_fence hitem).2
    · intro hinput
      change p ∈ (Function.update s.sessions n _ n).pending at hp
      rw [Function.update_self] at hp
      obtain ⟨hmem, hkept⟩ := List.mem_filter.mp hp
      refine Bool.eq_false_iff.mpr fun hreply => ?_
      rw [(happends.part p hmem).interruptedReply hreply, happends.own p hmem hinput] at hkept
      cases hkept

/-! ### What goes to the readers -/

def NotDataOf (n : String) (turn : Turn) (item : InboxItem) : Prop :=
  ¬ (item.source = n ∧ item.chunk.turn = some turn ∧ controlType item.chunk = none)

theorem InboxMove.handed {m : String} (h : InboxMove cfg s s' m) :
    (s'.inboxes m).handed = (s.inboxes m).handed ∨ ∃ item,
      (s'.inboxes m).handed = (s.inboxes m).handed ++ [item] ∧
      (item = clientItem item.chunk ∨ Origin cfg s s' m item ∧ item.source ∈ cfg.graph.names ∧
        s.isInterrupted m item.chunk = false) := by
  cases h with
  | keep h => exact .inl (by rw [h])
  | put horigin hnode hwanted _ h =>
    exact .inr ⟨_, by rw [h]; rfl, .inr ⟨horigin, hnode, hwanted⟩⟩
  | replace horigin hnode hwanted _ _ h =>
    exact .inr ⟨_, by rw [h]; rfl, .inr ⟨horigin, hnode, hwanted⟩⟩
  | input _ _ _ _ _ h => exact .inr ⟨_, by rw [h]; rfl, .inl rfl⟩
  | inputReplace _ _ _ _ _ _ h => exact .inr ⟨_, by rw [h]; rfl, .inl rfl⟩
  | inputDrop _ _ h => exact .inl (by rw [h]; rfl)
  | fence _ h => exact .inl (by rw [h]; rfl)

theorem ForwardMove.handed (h : ForwardMove cfg n s s') :
    (s'.inboxes n).handed = (s.inboxes n).handed := by
  have hset : ∀ (s : State) (inbox : Inbox), (s.setInbox n inbox).inboxes n = inbox :=
    fun s inbox => Function.update_self _ _ _
  cases h with
  | rotate => rw [hset]
  | whole =>
    change ((State.setInbox _ n _).inboxes n).handed = _
    rw [hset]
    rfl
  | start =>
    change ((State.setInbox _ n _).inboxes n).handed = _
    rw [hset]
    rfl
  | startFails =>
    change ((State.setInbox _ n _).inboxes n).handed = _
    rw [hset]
    rfl
  | last =>
    change ((State.setInbox _ n _).inboxes n).handed = _
    rw [hset]
    rfl
  | _ => rfl

theorem Origin.notDataOf {m : String} {item : InboxItem} (h : Origin cfg s s' m item)
    (hplaced : Placed cfg s) {turn : Turn} (howed : owedTurn cfg n (s.routers n) ≠ some turn) :
    NotDataOf n turn item := by
  rintro ⟨hsource, hturn, hdata⟩
  cases h with
  | @routed k output rest hplace =>
    change k = n at hsource
    subst hsource
    rw [hplace] at howed
    exact howed ((if_pos hdata).trans hturn)
  | released hplace =>
    have hdone := hplaced.released _ _ _ hplace
    change outputControlType _ = none at hdata
    rw [hdone] at hdata
    cases hdata
  | report => cases hdata

/-- What was put on the inbox of `m` since a turn was fenced at `n`. -/
structure HandedSince (n : String) (turn : Turn) (s s' : State) (m : String) : Prop where
  grows : ∃ more, (s'.inboxes m).handed = (s.inboxes m).handed ++ more ∧
    ∀ item ∈ more, NotDataOf n turn item ∧
      (m = n → item.source ≠ graphInput → isInterruptedReply item.chunk turn = false)

theorem HandedSince.refl (n : String) (turn : Turn) (s : State) (m : String) :
    HandedSince n turn s s m :=
  ⟨[], (List.append_nil _).symm, fun item hitem => (by cases hitem)⟩

theorem HandedSince.trans {turn : Turn} {s₁ s₂ s₃ : State} {m : String}
    (h : HandedSince n turn s₁ s₂ m) (h' : HandedSince n turn s₂ s₃ m) :
    HandedSince n turn s₁ s₃ m := by
  obtain ⟨first, hfirst, hclean⟩ := h.grows
  obtain ⟨second, hsecond, hclean'⟩ := h'.grows
  refine ⟨first ++ second, by rw [hsecond, hfirst, List.append_assoc], fun item hitem => ?_⟩
  rcases List.mem_append.mp hitem with hitem | hitem
  · exact hclean item hitem
  · exact hclean' item hitem

theorem Fenced.handed {turn : Turn} (h : Fenced cfg n turn s) (hplaced : Placed cfg s)
    (hn : n ∈ cfg.graph.names) (hmove : Move cfg a s s') (m : String) :
    HandedSince n turn s s' m := by
  have hsame : (s'.inboxes m).handed = (s.inboxes m).handed → HandedSince n turn s s' m :=
    fun hsame => ⟨[], by rw [hsame, List.append_nil], fun item hitem => (by cases hitem)⟩
  rcases hmove.inbox m with hinbox | ⟨-, -, hforward⟩
  · rcases hinbox.handed with hkeep | ⟨item, hgrows, horigin⟩
    · exact hsame hkeep
    · refine ⟨[item], hgrows, fun x hx => ?_⟩
      rw [List.mem_singleton.mp hx]
      rcases horigin with hclient | ⟨horigin, -, hwanted⟩
      · refine ⟨fun hdata => ?_, fun _ hinput => ?_⟩
        · rw [hclient] at hdata
          have hsource : graphInput = n := hdata.1
          exact cfg.valid.input_not_node (hsource ▸ hn)
        · rw [hclient] at hinput
          exact absurd rfl hinput
      · refine ⟨horigin.notDataOf hplaced h.router, ?_⟩
        rintro rfl -
        exact not_reply_of_wanted h.interrupted hwanted
  · exact hsame hforward.handed

/-! ### Runs -/

/-- No fence of a turn runs while the routing task of its paced node holds a data chunk of the turn
for a reader. -/
def fencesInTime (cfg : Config) (s : State) (a : Action) : Bool :=
  cfg.graph.names.all fun n => !cfg.graph.isPaced n ||
    match owedTurn cfg n (s.routers n) with
    | none => true
    | some turn => (step cfg s a).all fun s' => !(s'.fenced n).contains turn

structure FenceInvariant (cfg : Config) (s : State) : Prop where
  placed : Placed cfg s
  appends : ∀ n, Appends cfg s n
  fenced : ∀ n ∈ cfg.graph.names, cfg.graph.isPaced n = true → ∀ turn ∈ s.fenced n,
    Fenced cfg n turn s

theorem FenceInvariant.move (h : FenceInvariant cfg s) (hmove : Move cfg a s s')
    (hintime : ∀ n ∈ cfg.graph.names, cfg.graph.isPaced n = true → a ≠ .route n →
      ∀ turn ∈ s'.fenced n, owedTurn cfg n (s.routers n) ≠ some turn) :
    FenceInvariant cfg s' := by
  refine ⟨h.placed.move hmove, fun n => (h.appends n).move hmove, fun n hn hpaced turn ht => ?_⟩
  rcases (hmove.turns n).2 with hsame | ⟨new, hnew, hother, hfence⟩
  · exact (h.fenced n hn hpaced turn (hsame ▸ ht)).move h.placed hpaced hmove
  · have howed := hintime n hn hpaced hother turn ht
    rw [hnew] at ht
    rcases List.mem_cons.mp ht with rfl | hold
    · exact .of_fence (h.appends n) hpaced howed hfence
    · exact (h.fenced n hn hpaced turn hold).move h.placed hpaced hmove

theorem Moves.fenced (h : Moves cfg a s s') {turn : Turn} (ht : turn ∈ s.fenced n) :
    turn ∈ s'.fenced n := by
  induction h with
  | refl => exact ht
  | tail _ hlast ih =>
    rcases (hlast.turns n).2 with hsame | ⟨new, hnew, -⟩
    · rw [hsame]
      exact ih
    · rw [hnew]
      exact List.mem_cons_of_mem _ ih

theorem FenceInvariant.step_moves (h : FenceInvariant cfg s)
    (hintime : fencesInTime cfg s a = true) (hstep : step cfg s a = some s') :
    FenceInvariant cfg s' ∧ ∀ n ∈ cfg.graph.names, cfg.graph.isPaced n = true →
      ∀ turn ∈ s.fenced n, ∀ m, HandedSince n turn s s' m := by
  have howes : ∀ n ∈ cfg.graph.names, cfg.graph.isPaced n = true → ∀ turn ∈ s'.fenced n,
      owedTurn cfg n (s.routers n) ≠ some turn := by
    intro n hn hpaced turn ht howed
    have hone := List.all_eq_true.mp hintime n hn
    simp only [hpaced, howed, hstep, Option.all_some, Bool.not_true, Bool.false_or,
      Bool.not_eq_true'] at hone
    rw [List.contains_iff_mem.mpr ht] at hone
    cases hone
  -- along the moves of the step no other routing task moves, so what it owes is what it owed
  have hpath : ∀ x, Moves cfg a s x → Moves cfg a x s' → FenceInvariant cfg x ∧
      (∀ n, a ≠ .route n → x.routers n = s.routers n ∨ x.routers n = .stopped) ∧
      ∀ n ∈ cfg.graph.names, cfg.graph.isPaced n = true → ∀ turn ∈ s.fenced n,
        ∀ m, HandedSince n turn s x m := by
    intro x hx
    induction hx with
    | refl => exact fun _ => ⟨h, fun n _ => .inl rfl, fun n _ _ turn _ m => .refl n turn s m⟩
    | @tail b c hfirst hlast ih =>
      intro hrest
      obtain ⟨hb, hrouters, hhanded⟩ := ih (.head hlast hrest)
      refine ⟨hb.move hlast fun n hn hpaced hother turn ht howed => ?_, fun n hother => ?_,
        fun n hn hpaced turn ht m => ?_⟩
      · rcases hrouters n hother with hsame | hstop
        · rw [hsame] at howed
          exact howes n hn hpaced turn (Moves.fenced hrest ht) howed
        · rw [hstop] at howed
          cases howed
      · rcases hlast.routers_other hother with hsame | hstop
        · rw [hsame]
          exact hrouters n hother
        · exact .inr hstop
      · refine (hhanded n hn hpaced turn ht m).trans ?_
        exact (hb.fenced n hn hpaced turn (Moves.fenced hfirst ht)).handed hb.placed hn hlast m
  obtain ⟨hinv, -, hhanded⟩ := hpath s' (Session.step_moves hstep) .refl
  exact ⟨hinv, hhanded⟩

theorem FenceInvariant.initial : FenceInvariant cfg .initial :=
  ⟨.initial, .initial, fun n _ _ turn ht => (by cases ht)⟩

theorem fenced_along {turn : Turn} (hinv : FenceInvariant cfg s) (hn : n ∈ cfg.graph.names)
    (hpaced : cfg.graph.isPaced n = true) (ht : turn ∈ s.fenced n)
    (hpath : (machine cfg).Path (fun s a => fencesInTime cfg s a) s s') :
    FenceInvariant cfg s' ∧ turn ∈ s'.fenced n ∧ ∀ m, HandedSince n turn s s' m := by
  refine hpath.invariant (P := fun x => FenceInvariant cfg x ∧ turn ∈ x.fenced n ∧
    ∀ m, HandedSince n turn s x m) ⟨hinv, ht, fun m => .refl n turn s m⟩ ?_
  rintro x a x' ⟨hx, htx, hhanded⟩ hintime hstep
  obtain ⟨hx', hmore⟩ := hx.step_moves hintime hstep
  exact ⟨hx', Moves.fenced (Session.step_moves hstep) htx,
    fun m => (hhanded m).trans (hmore n hn hpaced turn htx m)⟩

/-- In every run whose fences find no data chunk of their turn in the hand of their node's routing
task, once an interrupt of `turn` is fenced at a node with a pacer: no data of the turn from that node
is in the client's queue or in the pacer, none is put on any reader's inbox, and nothing of the reply
but the controls about its interruption is in the node's own inbox or among its unsent appends, nor
enters there. -/
theorem nothing_of_a_fenced_turn {turn : Turn}
    (h : (machine cfg).Reaches (fun s a => fencesInTime cfg s a) s) (hn : n ∈ cfg.graph.names)
    (hpaced : cfg.graph.isPaced n = true) (ht : turn ∈ s.fenced n)
    (hpath : (machine cfg).Path (fun s a => fencesInTime cfg s a) s s') :
    (∀ item ∈ s'.outputs, ¬ (item.name = n ∧ item.output.turn = some turn ∧
      outputControlType item.output = none)) ∧
    (∀ item ∈ (s'.pacers n).items ++ (s'.pacers n).unsent, ¬ (item.1.turn = some turn ∧
      outputControlType item.1 = none)) ∧
    (∀ m, ∃ more, (s'.inboxes m).handed = (s.inboxes m).handed ++ more ∧ ∀ item ∈ more,
      ¬ (item.source = n ∧ item.chunk.turn = some turn ∧ controlType item.chunk = none) ∧
      (m = n → item.source ≠ graphInput → isInterruptedReply item.chunk turn = false)) ∧
    (∀ item ∈ (s'.inboxes n).queued, item.source ≠ graphInput →
      isInterruptedReply item.chunk turn = false) ∧
    ∀ p ∈ (s'.sessions n).pending, p.whole.source ≠ graphInput →
      isInterruptedReply p.whole.chunk turn = false := by
  have hinv : FenceInvariant cfg s := by
    refine h.invariant (P := FenceInvariant cfg) .initial fun s a s' hs hintime hstep => ?_
    exact (hs.step_moves hintime hstep).1
  obtain ⟨hinv', ht', hhanded⟩ := fenced_along hinv hn hpaced ht hpath
  have hfenced := hinv'.fenced n hn hpaced turn ht'
  refine ⟨fun item hitem hdata => ?_, fun item hitem hdata => ?_, fun m => (hhanded m).grows,
    hfenced.inbox, hfenced.pending⟩
  · have hstale := hfenced.outputs item hitem
    simp [QueuedOutput.isStale, hdata.1, hdata.2.1, hdata.2.2] at hstale
  · have hclean := hfenced.pacer item hitem
    rw [reply_of_data ((if_pos hdata.2).trans hdata.1)] at hclean
    cases hclean

/-- A voice that the client can interrupt, and a node that listens to it over an edge of one chunk. -/
def listenedGraph : SessionGraph where
  nodes := ((∅ : Dict String SessionNode).set "voice"
    { inputs := [.plain graphInput (some pcm16)]
      controls := [{ source := graphInput, event := interrupt }] }).set "listener"
    { inputs := [.edge { source := "voice", format := some pcm16, capacity := some 1 }] }
  publish := fun n => if n = "voice" then [pcm16] else []

def listenedConfig : Config where
  graph := listenedGraph
  valid := ⟨by decide, by decide, by decide, by decide, by decide⟩
  limits := {}
  packer := msgpack
  leadMs := 1000
  identity := { id := "s" }
  nodeIdentity := fun n => { id := "s:" ++ n }

def replyChunk : TimedChunk where
  modality := audio
  tStartMs := 0
  durationMs := 20
  seq := 0
  payload := .bytes [1, 2, 3, 4]
  format := some pcm16
  turn := some 1

def interruptEvent : TimedChunk where
  modality := control
  tStartMs := 0
  durationMs := 0
  seq := 0
  payload := .dict [("type", .str interrupt)]
  format := some sessionControl
  turn := some 1

/-- What the listener was handed: the source, the turn and the control type of each chunk. -/
def heard (s : State) : List (String × Option Turn × Option String) :=
  (s.inboxes "listener").handed.map fun item =>
    (item.source, item.chunk.turn, controlType item.chunk)

/-- The voice speaks before and after the client interrupts it: the later chunk goes nowhere. -/
theorem later_speech_dropped : ∃ s s',
    (machine listenedConfig).execWhere (fencesInTime listenedConfig) .initial
      [.emit "voice" 0 replyChunk, .route "voice", .control 0 interruptEvent] = some s ∧
    (machine listenedConfig).execWhere (fencesInTime listenedConfig) s
      [.emit "voice" 0 replyChunk, .route "voice"] = some s' ∧
    (1 : Turn) ∈ s.fenced "voice" ∧
    (∀ item ∈ s'.outputs, ¬ (item.name = "voice" ∧ item.output.turn = some 1 ∧
      outputControlType item.output = none)) ∧ heard s' = heard s := by
  have hobs : (((machine listenedConfig).execWhere (fencesInTime listenedConfig) .initial
      [.emit "voice" 0 replyChunk, .route "voice", .control 0 interruptEvent]).bind fun s =>
        ((machine listenedConfig).execWhere (fencesInTime listenedConfig) s
          [.emit "voice" 0 replyChunk, .route "voice"]).map fun s' =>
            ((s.fenced "voice").contains 1, heard s' == heard s)) = some (true, true) := by
    decide +kernel
  obtain ⟨s, hs, hrest⟩ := Option.bind_eq_some_iff.mp hobs
  obtain ⟨s', hs', hobs⟩ := Option.map_eq_some_iff.mp hrest
  obtain ⟨hfenced, hheard⟩ := Prod.mk.inj hobs
  have ht : (1 : Turn) ∈ s.fenced "voice" := List.contains_iff_mem.mp hfenced
  refine ⟨s, s', hs, hs', ht, ?_, eq_of_beq hheard⟩
  exact (nothing_of_a_fenced_turn (Machine.path_of_execWhere (fun _ _ h => h) hs) (by decide)
    (by decide) ht (Machine.path_of_execWhere (fun _ _ h => h) hs')).1

/-- The voice waits with its second chunk for room on the edge when the client interrupts it.  The
fence of the turn at the voice runs to its end, and once the listener has taken the first chunk the
second one is put on its inbox. -/
theorem held_speech_handed_on : ∃ s s',
    (machine listenedConfig).exec .initial
      [.emit "voice" 0 replyChunk, .route "voice", .emit "voice" 0 replyChunk, .route "voice",
        .control 0 interruptEvent] = some s ∧
    (machine listenedConfig).exec s [.forward "listener", .route "voice"] = some s' ∧
    listenedGraph.isPaced "voice" = true ∧ (1 : Turn) ∈ s.fenced "voice" ∧
    s'.hasCloseTask = false ∧ heard s' = heard s ++ [("voice", some 1, none)] := by
  have hobs : (((machine listenedConfig).exec .initial
      [.emit "voice" 0 replyChunk, .route "voice", .emit "voice" 0 replyChunk, .route "voice",
        .control 0 interruptEvent]).bind fun s =>
        ((machine listenedConfig).exec s [.forward "listener", .route "voice"]).map fun s' =>
          ((s.fenced "voice").contains 1, s'.hasCloseTask,
            heard s' == heard s ++ [("voice", some 1, none)])) = some (true, false, true) := by
    decide +kernel
  obtain ⟨s, hs, hrest⟩ := Option.bind_eq_some_iff.mp hobs
  obtain ⟨s', hs', hobs⟩ := Option.map_eq_some_iff.mp hrest
  simp only [Prod.mk.injEq] at hobs
  obtain ⟨hfenced, hopen, hheard⟩ := hobs
  exact ⟨s, s', hs, hs', by decide, List.contains_iff_mem.mp hfenced, hopen, eq_of_beq hheard⟩

end Session
