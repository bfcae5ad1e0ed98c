import SglangOmni.Lib.Sum
import SglangOmni.Proto.Msgpack
import SglangOmni.Session.Frames

/-! The output budget of an open session graph: `output_bytes` is what the client's queue, the pacers
and the blocked publishers hold of it, and it stays within `max_output_bytes`. -/

namespace Session

open Lib Proto Relation

def queueBytes (outputs : List QueuedOutput) : Nat := (outputs.map QueuedOutput.size).sum

/-- The bytes of the output that a routing task is blocked on putting on the client's queue. -/
def Router.blockedBytes : Router → Nat
  | .publishing item => item.size
  | _ => 0

def nodeBytes (cfg : Config) (s : State) (n : String) : Nat :=
  (if cfg.graph.isPaced n then (s.pacers n).held else 0) + (s.routers n).blockedBytes

def reservedBytes (cfg : Config) (s : State) : Nat :=
  queueBytes s.outputs + (cfg.graph.names.map (nodeBytes cfg s)).sum

structure Balanced (cfg : Config) (s : State) : Prop where
  counted : s.outputBytes = reservedBytes cfg s
  within : s.outputBytes ≤ cfg.limits.maxOutputBytes

@[simp] theorem queueBytes_append (first second : List QueuedOutput) :
    queueBytes (first ++ second) = queueBytes first + queueBytes second := by
  simp [queueBytes]

@[simp] theorem queueBytes_nil : queueBytes [] = 0 := rfl

@[simp] theorem queueBytes_cons (item : QueuedOutput) (rest : List QueuedOutput) :
    queueBytes (item :: rest) = item.size + queueBytes rest := by
  simp [queueBytes]

theorem queueBytes_filter (keep : QueuedOutput → Bool) (outputs : List QueuedOutput) :
    queueBytes (outputs.filter keep) + queueBytes (outputs.filter fun item => !keep item) =
      queueBytes outputs := by
  induction outputs with
  | nil => rfl
  | cons item rest ih =>
    by_cases h : keep item
    · simp [h]
      omega
    · simp [h]
      omega

variable {cfg : Config} {s s' : State}

theorem Balanced.change (h : Balanced cfg s) {n : String} (hn : n ∈ cfg.graph.names)
    (hother : ∀ m, m ≠ n → nodeBytes cfg s' m = nodeBytes cfg s m)
    (hbytes : s'.outputBytes + queueBytes s.outputs + nodeBytes cfg s n =
      s.outputBytes + queueBytes s'.outputs + nodeBytes cfg s' n)
    (hwithin : s'.outputBytes ≤ cfg.limits.maxOutputBytes) : Balanced cfg s' := by
  have hsum := sum_map_change cfg.graph.names_nodup hn hother
  have hcounted := h.counted
  refine ⟨?_, hwithin⟩
  unfold reservedBytes at hcounted ⊢
  omega

theorem Balanced.queue (h : Balanced cfg s) (hnodes : ∀ m, nodeBytes cfg s' m = nodeBytes cfg s m)
    (hbytes : s'.outputBytes + queueBytes s.outputs = s.outputBytes + queueBytes s'.outputs)
    (hwithin : s'.outputBytes ≤ cfg.limits.maxOutputBytes) : Balanced cfg s' := by
  have hsum : (cfg.graph.names.map (nodeBytes cfg s')).sum =
      (cfg.graph.names.map (nodeBytes cfg s)).sum := by
    rw [List.map_congr_left fun m _ => hnodes m]
  have hcounted := h.counted
  refine ⟨?_, hwithin⟩
  unfold reservedBytes at hcounted ⊢
  omega

theorem Balanced.frame (h : Balanced cfg s)
    (hsame : (s'.outputs, s'.outputBytes, s'.pacers, s'.routers) =
      (s.outputs, s.outputBytes, s.pacers, s.routers)) : Balanced cfg s' := by
  obtain ⟨houtputs, hbytes, hpacers, hrouters⟩ :
      s'.outputs = s.outputs ∧ s'.outputBytes = s.outputBytes ∧ s'.pacers = s.pacers ∧
        s'.routers = s.routers := by
    simpa using hsame
  refine h.queue (fun m => ?_) ?_ (by rw [hbytes]; exact h.within)
  · unfold nodeBytes
    rw [hpacers, hrouters]
  · rw [houtputs, hbytes]

/-! ### Nodes -/

theorem nodeBytes_setRouter_ne (s : State) {n m : String} (hne : m ≠ n) (r : Router) :
    nodeBytes cfg (s.setRouter n r) m = nodeBytes cfg s m := by
  simp [nodeBytes, State.setRouter, Function.update_of_ne hne]

theorem nodeBytes_setPacer_ne (s : State) {n m : String} (hne : m ≠ n) (pacer : Pacer) :
    nodeBytes cfg (s.setPacer n pacer) m = nodeBytes cfg s m := by
  simp [nodeBytes, State.setPacer, Function.update_of_ne hne]

theorem Balanced.setRouter (h : Balanced cfg s) {n : String} {r : Router}
    (hold : (s.routers n).blockedBytes = 0) (hnew : r.blockedBytes = 0) :
    Balanced cfg (s.setRouter n r) := by
  refine h.queue (fun m => ?_) rfl h.within
  by_cases hm : m = n
  · subst hm
    simp [nodeBytes, State.setRouter, hold, hnew]
  · exact nodeBytes_setRouter_ne s hm r

theorem Balanced.setPacer (h : Balanced cfg s) {n : String} {pacer : Pacer}
    (hheld : pacer.held = (s.pacers n).held) : Balanced cfg (s.setPacer n pacer) := by
  refine h.queue (fun m => ?_) rfl h.within
  by_cases hm : m = n
  · subst hm
    simp [nodeBytes, State.setPacer, hheld]
  · exact nodeBytes_setPacer_ne s hm pacer

theorem blockedBytes_of_held {r : Router} {output : OutputChunk} (h : r.held = some output) :
    r.blockedBytes = 0 := by
  cases r <;> first | rfl | cases h

/-! ### Moves -/

theorem Balanced.put (h : Balanced cfg s) {target source : String} {chunk : TimedChunk}
    {via : Emission} (hput : putGraphInbox cfg s target source chunk via = .done s') :
    Balanced cfg s' := by
  obtain ⟨inbox, rfl⟩ := putGraphInbox_inboxes hput
  exact h.frame rfl

theorem Balanced.confirm (h : Balanced cfg s) (hmove : ConfirmMove cfg s s') : Balanced cfg s' := by
  cases hmove with
  | note => exact h.frame rfl
  | emit hroom hbudget =>
    refine h.queue (fun _ => rfl) ?_ hbudget
    simp only [State.confirm, State.enqueue, State.reserve, queueBytes_append, queueBytes_cons,
      queueBytes_nil, Nat.cast_add]
    omega

theorem Balanced.confirms (h : Balanced cfg s) (hmoves : ReflTransGen (ConfirmMove cfg) s s') :
    Balanced cfg s' := by
  induction hmoves with
  | refl => exact h
  | tail _ hlast ih => exact ih.confirm hlast

theorem Balanced.append (h : Balanced cfg s) (hmoves : ReflTransGen (AppendMove cfg) s s') :
    Balanced cfg s' := by
  induction hmoves with
  | refl => exact h
  | tail _ hlast ih =>
    cases hlast with
    | confirm hconfirm => exact ih.confirm hconfirm
    | drop => exact ih.frame rfl
    | hand chunk =>
      refine ih.queue (fun m => ?_) rfl ih.within
      simp only [nodeBytes, State.noteInput, State.handInput]
      by_cases heos : chunk.eos = true <;> simp [heos, Pacer.endInput, Pacer.held]

theorem Balanced.fenceOutputs (h : Balanced cfg s) {target : String}
    (hn : target ∈ cfg.graph.names) (hpaced : cfg.graph.isPaced target = true) (turn : Turn) :
    Balanced cfg (s.fenceOutputs target turn) := by
  have hpurge := (s.pacers target).held_purge_le turn
  have hfilter := queueBytes_filter (fun item => item.isStale target turn) s.outputs
  have hnode : nodeBytes cfg (s.fenceOutputs target turn) target + (s.pacers target).held =
      nodeBytes cfg s target + ((s.pacers target).purge turn).held := by
    simp only [nodeBytes, State.fenceOutputs, State.setPacer, hpaced, if_true,
      Function.update_self]
    omega
  have hbytes : (s.fenceOutputs target turn).outputBytes = s.outputBytes -
      ((s.pacers target).held - ((s.pacers target).purge turn).held) -
        queueBytes (s.outputs.filter fun item => item.isStale target turn) := rfl
  have houtputs : (s.fenceOutputs target turn).outputs =
      s.outputs.filter fun item => !item.isStale target turn := rfl
  refine h.change hn (fun m hm => nodeBytes_setPacer_ne s hm _) ?_ ?_
  · rw [hbytes, houtputs]
    omega
  · have := h.within
    omega

theorem Balanced.fence (h : Balanced cfg s) {target : String} (hn : target ∈ cfg.graph.names)
    {turn : Turn} (hfence : fenceTurn cfg s target turn = .ok s') : Balanced cfg s' := by
  simp only [fenceTurn] at hfence
  split at hfence
  · cases hfence
  · cases hfence
    have hbase : Balanced cfg ((s.interruptTurn target turn).setSession target
        ((s.sessions target).fence (s.clientSequences target) turn)) := h.frame rfl
    split
    · next hpaced => exact (hbase.fenceOutputs hn hpaced turn).frame rfl
    · exact hbase.frame rfl

theorem Balanced.read (h : Balanced cfg s) (hread : readOutput cfg s = some s') :
    Balanced cfg s' := by
  unfold readOutput at hread
  split at hread
  · cases hread
  · next item rest houtputs =>
    have hbase : Balanced cfg { s with
        outputs := rest
        outputBytes := s.outputBytes - item.size
        yielded := s.yielded ++ [item.output] } := by
      refine h.queue (fun _ => rfl) ?_ ?_
      · rw [houtputs, queueBytes_cons]
        push_cast
        omega
      · have := h.within
        simp only
        omega
    simp only [Option.some.injEq] at hread
    split at hread
    · cases hread
      exact hbase.setPacer (Pacer.held_sent _ _)
    · cases hread
      exact hbase

theorem Balanced.route (h : Balanced cfg s) {n : String} (hn : n ∈ cfg.graph.names)
    (hmove : RouteMove cfg n s s') (hopen : s'.hasCloseTask = false) : Balanced cfg s' := by
  cases hmove with
  | @take output size rest hplace houtputs hdata hwanted =>
    have hbase : Balanced cfg (s.popOutput n rest size) := h.frame rfl
    have hfree : ((s.popOutput n rest size).routers n).blockedBytes = 0 := by
      change (s.routers n).blockedBytes = 0
      rw [hplace]
      rfl
    exact hbase.setRouter hfree rfl
  | drop => exact h.frame rfl
  | @confirm output size rest hplace houtputs hdone =>
    obtain ⟨s₁, hmoves, hend⟩ : ∃ s₁, ReflTransGen (ConfirmMove cfg)
        (s.popOutput n rest size) s₁ ∧ _ := routeInputDone_moves _ n output
    have hbase : Balanced cfg (s.popOutput n rest size) := h.frame rfl
    rcases hend with hend | hend
    · rw [hend]
      exact hbase.confirms hmoves
    · rw [hend] at hopen
      cases hopen
  | delivery => exact h.frame rfl
  | suspend hplace => exact h.setRouter (blockedBytes_of_held hplace) rfl
  | consume hplace => exact h.setRouter (blockedBytes_of_held hplace) rfl
  | @data output hplace htargets =>
    obtain ⟨outputEndMs, replyStartMs, hclock⟩ := routeClock_eq cfg s n output
    rw [hclock]
    have hbase : Balanced cfg
        { s with outputEndMs := outputEndMs, replyStartMs := replyStartMs } := h.frame rfl
    exact hbase.setRouter (blockedBytes_of_held hplace) rfl
  | @put output reader rest s₁ hplace hput =>
    have hbase := h.put hput
    obtain ⟨inbox, rfl⟩ := putGraphInbox_inboxes hput
    refine hbase.setRouter ?_ rfl
    change (s.routers n).blockedBytes = 0
    rw [hplace]
    rfl
  | discard hplace => exact h.setRouter (by rw [hplace]; rfl) rfl
  | @offer output hplace hwanted hclient hbudget hpaced =>
    have hle := (s.pacers n).held_beforeOffer_le output
    have hoffer := (s.pacers n).held_offer output (cfg.packer.outputSize output)
    have hbefore : nodeBytes cfg s n = (s.pacers n).held := by
      simp [nodeBytes, hpaced, hplace, Router.blockedBytes]
    refine h.change hn (fun m hm => ?_) ?_ ?_
    · rw [nodeBytes_setRouter_ne _ hm]
      exact nodeBytes_setPacer_ne s hm _
    · rw [hbefore]
      simp only [nodeBytes, State.setRouter, State.setPacer, Function.update_self, hpaced, if_true,
        Router.blockedBytes, Pacer.offered]
      omega
    · simp only [State.setRouter, Pacer.offered]
      omega
  | @publish output hplace hbudget hpaced hroom =>
    have hbefore : nodeBytes cfg s n = 0 := by simp [nodeBytes, hpaced, hplace, Router.blockedBytes]
    refine h.change hn (fun m hm => nodeBytes_setRouter_ne _ hm _) ?_ hbudget
    rw [hbefore]
    simp only [nodeBytes, State.setRouter, State.enqueue, State.numberOutput, State.reserve, hpaced,
      Function.update_self, Router.blockedBytes, publishedOutput, queueBytes_append,
      queueBytes_cons, queueBytes_nil, Bool.false_eq_true, if_false]
    push_cast
    omega
  | @block output hplace hbudget hpaced =>
    have hbefore : nodeBytes cfg s n = 0 := by simp [nodeBytes, hpaced, hplace, Router.blockedBytes]
    refine h.change hn (fun m hm => nodeBytes_setRouter_ne _ hm _) ?_ hbudget
    rw [hbefore]
    simp only [nodeBytes, State.setRouter, State.numberOutput, State.reserve, hpaced,
      Function.update_self, Router.blockedBytes, publishedOutput, Bool.false_eq_true, if_false]
    push_cast
    omega
  | @unblock item hplace hroom =>
    refine h.change hn (fun m hm => nodeBytes_setRouter_ne _ hm _) ?_ h.within
    simp only [nodeBytes, State.setRouter, State.enqueue, hplace, Function.update_self,
      Router.blockedBytes, queueBytes_append, queueBytes_cons, queueBytes_nil]
    push_cast
    omega
  | fail => cases hopen

theorem Balanced.deliver (h : Balanced cfg s) {n : String} (hn : n ∈ cfg.graph.names)
    (hpaced : cfg.graph.isPaced n = true) (hmove : DeliverMove cfg n s s')
    (hopen : s'.hasCloseTask = false) : Balanced cfg s' := by
  cases hmove with
  | @release now pacer released hrelease =>
    obtain ⟨hbudget, hunsent⟩ := Pacer.release_spec hrelease
    have hbase : Balanced cfg (s.setPacer n { pacer with unsent := pacer.unsent ++ released }) := by
      refine h.setPacer ?_
      simp only [Pacer.held, budget_append]
      rw [hunsent]
      omega
    exact hbase.frame rfl
  | releaseFails => cases hopen
  | wait => exact h.frame rfl
  | @discard output size rest hplace hunsent =>
    refine h.change hn (fun m hm => nodeBytes_setPacer_ne s hm _) ?_ ?_
    · simp only [nodeBytes, State.popUnsent, State.setPacer, hpaced, if_true, Function.update_self,
        Pacer.held, hunsent, budget_cons]
      push_cast
      omega
    · have := h.within
      simp only
      omega
  | @send output size rest next hplace hunsent hwanted hroom hnext =>
    refine h.change hn (fun m hm => nodeBytes_setPacer_ne s hm _) ?_ h.within
    simp only [nodeBytes, State.setDeliverer, State.enqueue, State.numberOutput, State.popUnsent,
      State.setPacer, hpaced, if_true, Function.update_self, Pacer.held, hunsent, budget_cons,
      publishedOutput, queueBytes_append, queueBytes_cons, queueBytes_nil]
    push_cast
    omega
  | put hplace hput => exact (h.put hput).frame rfl
  | sent => exact h.frame rfl
  | fail => cases hopen

/-! ### Runs -/

/-- While no close has begun, the graph is open and its budget balances. -/
def BudgetKept (cfg : Config) (s : State) : Prop :=
  s.hasCloseTask = false → s.isClosing = false ∧ Balanced cfg s

theorem BudgetKept.move {a : Action} (h : BudgetKept cfg s) (hmove : Move cfg a s s') :
    BudgetKept cfg s' := by
  intro hopen
  have hkept := CloseKept.move hmove
  have hwas := hkept.was_open hopen
  obtain ⟨hnot, hbal⟩ := h hwas
  have hstill : s'.isClosing = false := by
    by_contra hclosing
    rcases hkept.closing (by simpa using hclosing) with hc | hc
    · simp [hnot] at hc
    · simp [hopen] at hc
  refine ⟨hstill, ?_⟩
  cases hmove with
  | report _ hput => exact hbal.put hput
  | fence _ hn hfence => exact hbal.fence hn hfence
  | fenceRaises hfence =>
    simp only [fenceTurn] at hfence
    split at hfence
    · cases hfence
      exact hbal.frame rfl
    · cases hfence
  | call => exact hbal.frame rfl
  | append happend => exact hbal.append (appendGraph_moves happend)
  | appendRaises happend => exact hbal.append (appendGraph_moves happend)
  | read hread => exact hbal.read hread
  | forward _ hforward => cases hforward <;> exact hbal.frame rfl
  | route hn hroute => exact hbal.route hn hroute hopen
  | finishDelivery => exact hbal.frame rfl
  | deliver hn hpaced hdeliver => exact hbal.deliver hn hpaced hdeliver hopen
  | session => exact hbal.frame rfl
  | @drain _ _ i name chunk _ _ hemit =>
    have hbase : Balanced cfg { s with drains := s.drains.eraseIdx i } := hbal.frame rfl
    obtain ⟨hroom, hbudget, rfl⟩ := emitGraphInputDone_ok hemit
    exact hbase.confirm (.emit hroom hbudget)
  | stopDrain => cases hopen
  | stopForwarder => cases hopen
  | close => cases hopen
  | startClose => exact hbal.frame rfl
  | cancel hclosing => simp [hnot] at hclosing
  | finishClose hclosing => simp [hnot] at hclosing

theorem balanced_initial : Balanced cfg State.initial := by
  refine ⟨?_, Int.natCast_nonneg _⟩
  have hzero : ∀ n ∈ cfg.graph.names, nodeBytes cfg State.initial n = 0 := by
    intro n _
    simp [nodeBytes, State.initial, Pacer.held, Router.blockedBytes]
  simp only [reservedBytes]
  rw [List.map_congr_left hzero]
  simp [State.initial]

/-- In every state of an open session graph, `output_bytes` is the sum of the reserved sizes of the
outputs on the client's queue, in the `items` and `unsent` of every pacer, and held by the routing
tasks that are blocked putting them on that queue; it is not negative and within
`max_output_bytes`. -/
theorem output_bytes_accounted {s : State}
    (h : (machine cfg).Reaches Machine.anyAction s) (hopen : s.hasCloseTask = false) :
    s.outputBytes = (((s.outputs.map QueuedOutput.size).sum +
        (cfg.graph.names.map fun n =>
          (if cfg.graph.isPaced n then budget (s.pacers n).items + budget (s.pacers n).unsent
            else 0) + (s.routers n).blockedBytes).sum : Nat) : Int) ∧
      0 ≤ s.outputBytes ∧ s.outputBytes ≤ cfg.limits.maxOutputBytes := by
  have hkept : BudgetKept cfg s :=
    h.invariant (P := BudgetKept cfg) (fun _ => ⟨rfl, balanced_initial⟩)
      fun _ _ _ hs _ hstep => step_invariant (fun _ _ hs hmove => hs.move hmove) hstep hs
  obtain ⟨-, hbal⟩ := hkept hopen
  have hcounted := hbal.counted
  refine ⟨hcounted, ?_, hbal.within⟩
  rw [hcounted]
  exact Int.natCast_nonneg _

def voiceConfig : Config where
  graph := {
    nodes := (∅ : Dict String SessionNode).set "voice"
      { inputs := [.plain graphInput (some pcm16)] }
    publish := fun _ => [pcm16, sessionControl] }
  valid := ⟨by decide, by decide, by decide, by decide, by decide⟩
  limits := {}
  packer := msgpack
  leadMs := 20
  identity := { id := "s" }
  nodeIdentity := fun n => { id := "s:" ++ n }

def speechChunk (tStartMs : ℚ) : TimedChunk where
  modality := audio
  tStartMs := tStartMs
  durationMs := 40
  seq := 0
  payload := .bytes [1, 2, 3, 4]
  format := some pcm16
  turn := some 1

/-- The pacer cuts the first chunk at the horizon: half of it is on the client's queue, and the other
half and the second chunk are in the pacer. -/
theorem cut_speech_accounted : ∃ s,
    (machine voiceConfig).exec .initial [.emit "voice" 0 (speechChunk 0), .route "voice",
      .emit "voice" 0 (speechChunk 40), .route "voice", .deliver "voice" 0,
      .deliver "voice" 0] = some s ∧
    s.hasCloseTask = false ∧ s.outputs.length = 1 ∧ (s.pacers "voice").items.length = 2 ∧
    s.outputBytes = (((s.outputs.map QueuedOutput.size).sum +
        (voiceConfig.graph.names.map fun n =>
          (if voiceConfig.graph.isPaced n then
            budget (s.pacers n).items + budget (s.pacers n).unsent else 0) +
              (s.routers n).blockedBytes).sum : Nat) : Int) ∧
      0 ≤ s.outputBytes ∧ s.outputBytes ≤ voiceConfig.limits.maxOutputBytes := by
  have hobs : ((machine voiceConfig).exec .initial [.emit "voice" 0 (speechChunk 0),
      .route "voice", .emit "voice" 0 (speechChunk 40), .route "voice", .deliver "voice" 0,
      .deliver "voice" 0]).map (fun s =>
        (s.hasCloseTask, s.outputs.length, (s.pacers "voice").items.length)) =
      some (false, 1, 2) := by decide +kernel
  obtain ⟨s, hs, hobs⟩ := Option.map_eq_some_iff.mp hobs
  simp only [Prod.mk.injEq] at hobs
  obtain ⟨hopen, hqueue, hpacer⟩ := hobs
  exact ⟨s, hs, hopen, hqueue, hpacer, output_bytes_accounted (Machine.path_of_exec hs) hopen⟩

end Session
