import SglangOmni.Session.Moves

/-! Every segment of a task is a row of moves, and so is every step of a session graph. -/

namespace Session

open Lib Proto Relation

/-! ### Places -/

namespace State

variable (s : State) (n : String)

theorem setRouter_setRouter (r r' : Router) : (s.setRouter n r).setRouter n r' = s.setRouter n r' := by
  simp [setRouter]

theorem setRouter_self {r : Router} (h : s.routers n = r) : s.setRouter n r = s := by
  subst h
  simp [setRouter]

theorem setDeliverer_setDeliverer (d d' : Deliverer) :
    (s.setDeliverer n d).setDeliverer n d' = s.setDeliverer n d' := by
  simp [setDeliverer]

theorem setDeliverer_self {d : Deliverer} (h : s.deliverers n = d) : s.setDeliverer n d = s := by
  subst h
  simp [setDeliverer]

theorem setClientSequences_self : s.setClientSequences n (s.clientSequences n) = s := by
  simp [setClientSequences]

@[simp] theorem routers_setRouter (r : Router) : (s.setRouter n r).routers n = r := by
  simp [setRouter]

theorem routers_setRouter_ne {m : String} (hm : m ≠ n) (r : Router) :
    (s.setRouter n r).routers m = s.routers m :=
  Function.update_of_ne hm _ _

@[simp] theorem deliverers_setDeliverer (d : Deliverer) : (s.setDeliverer n d).deliverers n = d := by
  simp [setDeliverer]

@[simp] theorem forwarders_setForwarder (f : Forwarder) : (s.setForwarder n f).forwarders n = f := by
  simp [setForwarder]

end State

theorem putGraphInbox_setRouter {cfg : Config} {s : State} {target source n : String}
    {chunk : TimedChunk} {via : Emission} (r : Router) :
    putGraphInbox cfg (s.setRouter n r) target source chunk via =
      match putGraphInbox cfg s target source chunk via with
      | .waits => .waits
      | .raises => .raises
      | .done s' => .done (s'.setRouter n r) := by
  have hsame : (s.setRouter n r).isInterrupted target chunk = s.isInterrupted target chunk := rfl
  have hinbox : (s.setRouter n r).inboxes = s.inboxes := rfl
  simp only [putGraphInbox, hsame, hinbox]
  split_ifs
  · rfl
  · cases edgeOverflow cfg target source with
    | block => rfl
    | dropOldest => cases (s.inboxes target).oldest source <;> rfl
  · rfl

theorem putGraphInbox_setDeliverer {cfg : Config} {s : State} {target source n : String}
    {chunk : TimedChunk} {via : Emission} (d : Deliverer) :
    putGraphInbox cfg (s.setDeliverer n d) target source chunk via =
      match putGraphInbox cfg s target source chunk via with
      | .waits => .waits
      | .raises => .raises
      | .done s' => .done (s'.setDeliverer n d) := by
  have hsame : (s.setDeliverer n d).isInterrupted target chunk = s.isInterrupted target chunk := rfl
  have hinbox : (s.setDeliverer n d).inboxes = s.inboxes := rfl
  simp only [putGraphInbox, hsame, hinbox]
  split_ifs
  · rfl
  · cases edgeOverflow cfg target source with
    | block => rfl
    | dropOldest => cases (s.inboxes target).oldest source <;> rfl
  · rfl

/-! ### Puts and fences -/

def Puts.state : Puts → State
  | .waits s _ | .raises s | .done s => s

def Fence.state : Fence → State
  | .waits s _ | .raises s | .done s _ => s

variable {cfg : Config} {a : Action}

theorem putGraphInbox_inboxes {s s' : State} {target source : String} {chunk : TimedChunk}
    {via : Emission} (h : putGraphInbox cfg s target source chunk via = .done s') :
    ∃ inbox, s' = s.setInbox target inbox := by
  simp only [putGraphInbox] at h
  split_ifs at h
  · cases h
    exact ⟨s.inboxes target, by simp [State.setInbox]⟩
  · split at h
    · cases h
    · split at h
      · cases h
      · cases h
        exact ⟨_, rfl⟩
  · cases h
    exact ⟨_, rfl⟩

theorem putEach_inboxes (source : String) (chunk : TimedChunk) (via : Emission)
    (stop : State → Bool) (readers : List String) (s : State) :
    ∃ inboxes, (putEach cfg source chunk via stop s readers).state = { s with inboxes := inboxes } := by
  induction readers generalizing s with
  | nil => exact ⟨s.inboxes, rfl⟩
  | cons reader rest ih =>
    simp only [putEach]
    split
    · exact ⟨s.inboxes, rfl⟩
    · exact ⟨s.inboxes, rfl⟩
    · next s₁ h =>
      obtain ⟨inbox, rfl⟩ := putGraphInbox_inboxes h
      split
      · exact ⟨_, rfl⟩
      · obtain ⟨inboxes, hrest⟩ := ih (s.setInbox reader inbox)
        exact ⟨inboxes, hrest⟩

theorem putReport_state (s : State) (target : String) (report : Report) :
    (putReport cfg s target report).state = (putEach cfg target
      (deliveredChunk report.turn report.audioMs) .report (fun _ => false) s report.readers).state := by
  unfold putReport
  split <;> (next h => rw [h]; rfl)

theorem putReport_routers (s : State) (target : String) (report : Report) :
    (putReport cfg s target report).state.routers = s.routers := by
  obtain ⟨inboxes, h⟩ : ∃ inboxes, (putEach cfg target
      (deliveredChunk report.turn report.audioMs) .report (fun _ => false) s report.readers).state =
      { s with inboxes := inboxes } := putEach_inboxes _ _ _ _ _ s
  rw [putReport_state, h]

theorem report_moves {target : String} (hnode : target ∈ cfg.graph.names) (turn : Turn)
    (audioMs : ℚ) (readers : List String) (s : State) :
    Moves cfg a s (putEach cfg target (deliveredChunk turn audioMs) .report (fun _ => false) s
      readers).state := by
  induction readers generalizing s with
  | nil => exact .refl
  | cons reader rest ih =>
    simp only [putEach]
    split
    · exact .refl
    · exact .refl
    · next s₁ h =>
      simp only [Bool.false_eq_true, if_false]
      exact .head (.report hnode h) (ih s₁)

theorem putReport_moves {target : String} (hnode : target ∈ cfg.graph.names) (s : State)
    (report : Report) : Moves cfg a s (putReport cfg s target report).state := by
  rw [putReport_state]
  exact report_moves hnode _ _ _ s

theorem fenceControlEdge_moves {target : String} (event : TimedChunk) (s : State)
    (hother : ∀ n, a = .route n → n ≠ target) (hnode : target ∈ cfg.graph.names) :
    Moves cfg a s (fenceControlEdge cfg s target event).state := by
  unfold fenceControlEdge
  split
  · split
    · exact .refl
    · split
      · next s₁ h => exact .single (.fenceRaises h)
      · next s₁ h =>
        have hfence : Move cfg a s s₁ := .fence hother hnode h
        split
        · exact .head hfence (putReport_moves hnode s₁ _)
        · exact .single hfence
  · exact .refl

theorem fenceTurn_routers (s : State) (target : String) (turn : Turn) :
    (∀ s', fenceTurn cfg s target turn = .ok s' → s'.routers = s.routers) ∧
      ∀ s', fenceTurn cfg s target turn = .raised s' → s'.routers = s.routers := by
  simp only [fenceTurn]
  split
  · refine ⟨fun s' h => (by cases h), fun s' h => ?_⟩
    cases h
    rfl
  · refine ⟨fun s' h => ?_, fun s' h => (by cases h)⟩
    cases h
    split <;> rfl

theorem fenceControlEdge_routers (s : State) (target : String) (event : TimedChunk) :
    (fenceControlEdge cfg s target event).state.routers = s.routers := by
  unfold fenceControlEdge
  split
  · split
    · rfl
    · split
      · next s₁ h => exact (fenceTurn_routers s target _).2 s₁ h
      · next s₁ h =>
        have hsame := (fenceTurn_routers s target _).1 s₁ h
        split
        · exact (putReport_routers s₁ target _).trans hsame
        · exact hsame
  · rfl

theorem orderFrom_subset (g : SessionGraph) (fuel : Nat) {order : List String}
    (h : ∀ name ∈ order, name ∈ g.names) : ∀ name ∈ g.orderFrom fuel order, name ∈ g.names := by
  induction fuel generalizing order with
  | zero => exact h
  | succ fuel ih =>
    unfold SessionGraph.orderFrom
    split
    · exact h
    · next next hnext =>
      refine ih fun name hname => ?_
      rcases List.mem_append.mp hname with hold | hnew
      · exact h name hold
      · rw [List.mem_singleton.mp hnew]
        unfold SessionGraph.nextInOrder at hnext
        rcases Option.or_eq_some_iff.mp hnext with hfound | ⟨_, hfound⟩
        · exact (List.mem_filter.mp (List.mem_of_find?_eq_some hfound)).1
        · exact (List.mem_filter.mp (List.mem_of_find?_eq_some hfound)).1

theorem controlTargets_spec {source : String} {event : Option String} {target : String}
    {edge : ControlEdge} (h : (target, edge) ∈ cfg.graph.controlTargets source event) :
    target ∈ cfg.graph.names ∧ source ≠ target := by
  unfold SessionGraph.controlTargets at h
  obtain ⟨name, hname, hedge⟩ := List.mem_flatMap.mp h
  obtain ⟨found, hfound, heq⟩ := List.mem_map.mp hedge
  cases heq
  have hnames := orderFrom_subset cfg.graph _ (fun _ h => absurd h List.not_mem_nil) target hname
  obtain ⟨hcontrol, hmatch⟩ := List.mem_filter.mp hfound
  simp only [Bool.and_eq_true, decide_eq_true_eq] at hmatch
  refine ⟨hnames, (cfg.valid.known_sources target hnames source ?_).1⟩
  exact List.mem_append_right _ (List.mem_map.mpr ⟨edge, hcontrol, hmatch.1⟩)

/-! ### The routing task -/

theorem routeClock_eq (cfg : Config) (s : State) (n : String) (output : OutputChunk) :
    ∃ outputEndMs replyStartMs, s.routeClock cfg n output =
      { s with outputEndMs := outputEndMs, replyStartMs := replyStartMs } := by
  unfold State.routeClock State.advanceClock
  split
  · simp only
    split
    · exact ⟨_, s.replyStartMs, rfl⟩
    · split
      · exact ⟨s.outputEndMs, _, rfl⟩
      · split
        · exact ⟨_, s.replyStartMs, rfl⟩
        · exact ⟨s.outputEndMs, s.replyStartMs, rfl⟩
  · exact ⟨s.outputEndMs, s.replyStartMs, rfl⟩

section Route

variable {n : String} {output : OutputChunk}

theorem route_single (hn : n ∈ cfg.graph.names) {s s' : State} (h : RouteMove cfg n s s') :
    Moves cfg (.route n) s s' :=
  .single (.route hn h)

theorem not_publishing_of_held {r : Router} (h : r.held = some output) (item : QueuedOutput) :
    r ≠ .publishing item := by
  rintro rfl
  cases h

theorem failRouter_setRouter (s : State) (r : Router) :
    (s.setRouter n r).failRouter n = s.failRouter n := by
  simp only [State.failRouter, State.setRouter_setRouter]

theorem reserveGraphOutput_spec {s s₁ : State} (h : reserveGraphOutput cfg s output = some s₁) :
    s.outputBytes + cfg.packer.outputSize output ≤ cfg.limits.maxOutputBytes ∧
      s₁ = s.reserve (cfg.packer.outputSize output) := by
  simp only [reserveGraphOutput] at h
  split at h
  · cases h
  · next hroom =>
    cases h
    exact ⟨not_lt.mp hroom, rfl⟩

theorem routePublish_moves (hn : n ∈ cfg.graph.names) (s : State) :
    Moves cfg (.route n) (s.setRouter n (.putting output [])) (routePublish cfg s n output) := by
  have hplace : (s.setRouter n (.putting output [])).routers n = .putting output [] :=
    State.routers_setRouter s n _
  unfold routePublish
  split
  · rw [← State.setRouter_setRouter _ n (.putting output []) .next]
    next hunwanted =>
      refine route_single hn (.discard hplace ?_)
      exact hunwanted.imp (fun h => h) Bool.eq_false_iff.mpr
  · next hwanted =>
    push Not at hwanted
    obtain ⟨hwanted, hclient⟩ := hwanted
    have hwanted : s.isInterrupted n (outputChunk output) = false := by simpa using hwanted
    split
    · rw [← failRouter_setRouter s (.putting output [])]
      refine route_single hn (.fail fun item h => ?_)
      rw [hplace] at h
      cases h
    · next s₁ hreserve =>
      obtain ⟨hbudget, rfl⟩ := reserveGraphOutput_spec hreserve
      simp only
      split
      · next hpaced =>
        rw [← State.setRouter_setRouter _ n (.putting output []) .next]
        exact route_single hn (.offer hplace hwanted hclient hbudget hpaced)
      · next hpaced =>
        have hpaced : cfg.graph.isPaced n = false := by simpa using hpaced
        split
        · rw [← State.setRouter_setRouter _ n (.putting output []) (.publishing _)]
          exact route_single hn (.block hplace hbudget hpaced)
        · next hroom =>
          have hroom : s.outputsFull cfg = false := Bool.eq_false_iff.mpr hroom
          rw [← State.setRouter_setRouter _ n (.putting output []) .next]
          exact route_single hn (.publish hplace hbudget hpaced hroom)

theorem routeReaders_moves (hn : n ∈ cfg.graph.names) (readers : List String) (s : State) :
    Moves cfg (.route n) (s.setRouter n (.putting output readers))
      (routeReaders cfg s n output readers) := by
  induction readers generalizing s with
  | nil => exact routePublish_moves hn s
  | cons reader rest ih =>
    have hplace : (s.setRouter n (.putting output (reader :: rest))).routers n =
        .putting output (reader :: rest) := State.routers_setRouter s n _
    simp only [routeReaders, putEach]
    cases hput : putGraphInbox cfg s reader n (outputChunk output) (.routed output.seq) with
    | waits => exact .refl
    | raises =>
      simp only
      rw [← failRouter_setRouter s (.putting output (reader :: rest))]
      refine route_single hn (.fail fun item h => ?_)
      rw [hplace] at h
      cases h
    | done s₁ =>
      have hput' : putGraphInbox cfg (s.setRouter n (.putting output (reader :: rest))) reader n
          (outputChunk output) (.routed output.seq) =
          .done (s₁.setRouter n (.putting output (reader :: rest))) := by
        rw [putGraphInbox_setRouter, hput]
      have hmove := RouteMove.put hplace hput'
      rw [State.setRouter_setRouter] at hmove
      refine .head (.route hn hmove) ?_
      change Moves cfg (.route n) (s₁.setRouter n (.putting output
        (if s₁.isInterrupted n (outputChunk output) then [] else rest))) _
      by_cases hstop : s₁.isInterrupted n (outputChunk output) = true
      · simp only [hstop, if_true]
        exact routePublish_moves hn s₁
      · simp only [hstop, Bool.false_eq_true, if_false]
        exact ih s₁

theorem routeFenced_moves (hn : n ∈ cfg.graph.names) {s : State}
    (hplace : (s.routers n).held = some output) (fenced : Bool) :
    Moves cfg (.route n) s (routeFenced cfg s n output fenced) := by
  -- the delivery that starts in the background leaves the place as it is
  have hstart : ∀ s₁ : State, (s₁.routers n).held = some output →
      Moves cfg (.route n) s₁ (if ¬ (outputTargets cfg n output).isEmpty ∧
        ¬ (isClientOutput cfg n (outputChunk output) ∧
          (controlType (outputChunk output)).any reportControls.contains) then s₁.setRouter n .next
        else routeData cfg s₁ n output) := by
    intro s₁ hplace
    split
    · next h =>
      refine route_single hn (.consume hplace (by simpa using h.1) ?_)
      rw [isReport, Bool.and_eq_false_iff, ← Bool.not_eq_true, ← Bool.not_eq_true, ← not_and_or]
      exact h.2
    · next h =>
      have htargets : outputTargets cfg n output = [] ∨ outputControlType output ≠ none := by
        by_contra hcon
        push Not at hcon
        exact h ⟨by simpa using hcon.1, fun hreport => by simp [hcon.2] at hreport⟩
      exact .head (.route hn (.data hplace htargets)) (routeReaders_moves hn _ _)
  unfold routeFenced
  cases fenced with
  | false => exact hstart s hplace
  | true => exact .head (.route hn (.delivery .running)) (hstart _ hplace)

theorem routeTargets_moves (hn : n ∈ cfg.graph.names) (targets : Targets)
    (htargets : ∀ entry ∈ targets, entry ∈ outputTargets cfg n output) {s : State}
    (hplace : (s.routers n).held = some output) (fenced : Bool) :
    Moves cfg (.route n) s (routeTargets cfg n output s fenced targets) := by
  induction targets generalizing s fenced with
  | nil => exact routeFenced_moves hn hplace fenced
  | cons entry rest ih =>
    obtain ⟨target, edge⟩ := entry
    obtain ⟨hnode, hother⟩ := controlTargets_spec (htargets _ List.mem_cons_self)
    have hmoves : Moves cfg (.route n) s
        (fenceControlEdge cfg s target (outputChunk output)).state :=
      fenceControlEdge_moves _ s (fun m hm => by cases hm; exact hother) hnode
    have hrouters : (fenceControlEdge cfg s target (outputChunk output)).state.routers = s.routers :=
      fenceControlEdge_routers s target _
    unfold routeTargets
    cases hfence : fenceControlEdge cfg s target (outputChunk output) with
    | raises s₁ =>
      rw [hfence] at hmoves hrouters
      have hheld : (s₁.routers n).held = some output := by rw [← hplace, ← hrouters]; rfl
      exact hmoves.tail (.route hn (.fail (not_publishing_of_held hheld)))
    | waits s₁ report =>
      rw [hfence] at hmoves hrouters
      have hheld : (s₁.routers n).held = some output := by rw [← hplace, ← hrouters]; rfl
      exact hmoves.tail (.route hn (.suspend hheld))
    | done s₁ takes =>
      rw [hfence] at hmoves hrouters
      have hheld : (s₁.routers n).held = some output := by rw [← hplace, ← hrouters]; rfl
      exact hmoves.trans (ih (fun e he => htargets e (List.mem_cons_of_mem _ he)) hheld _)

theorem Targets.mem_of_mem_lastOf {targets : Targets} {left : Nat} {entry : String × ControlEdge}
    (h : entry ∈ targets.lastOf left) : entry ∈ targets :=
  List.mem_of_mem_drop h

theorem routeOutput_moves (hn : n ∈ cfg.graph.names) {s : State} {size : Nat}
    {rest : List Budgeted} (hplace : s.routers n = .next)
    (houtputs : (s.sessions n).outputs = (output, size) :: rest) (hdata : output.kind = .data) :
    Moves cfg (.route n) s (routeOutput cfg (s.popOutput n rest size) n output) := by
  have hdrop : isMalformed (outputChunk output) = true ∨
      s.isInterrupted n (outputChunk output) = true →
      Move cfg (.route n) s (s.popOutput n rest size) := fun hstale =>
    .route hn (.drop hplace houtputs hdata hstale)
  unfold routeOutput
  split
  · next hmalformed =>
    refine (ReflTransGen.single (hdrop (.inl hmalformed))).tail (.route hn (.fail fun item h => ?_))
    have hnext : (s.popOutput n rest size).routers n = .next := hplace
    rw [hnext] at h
    cases h
  · split
    · next hstale => exact .single (hdrop (.inr hstale))
    · next hwanted =>
      have hwanted : s.isInterrupted n (outputChunk output) = false := Bool.eq_false_iff.mpr hwanted
      have htake : RouteMove cfg n s _ := .take hplace houtputs hdata hwanted
      have hheld : (((s.popOutput n rest size).setRouter n (.awaitDelivery output)).routers n).held =
          some output := by
        rw [State.routers_setRouter]
        rfl
      refine .head (.route hn htake) ?_
      simp only
      split
      · exact routeTargets_moves hn _ (fun _ h => h) hheld false
      · split
        · have hheld' : ((((s.popOutput n rest size).setRouter n
              (.awaitDelivery output)).setDelivery n .none).routers n).held = some output := hheld
          exact .head (.route hn (.delivery .none))
            (routeTargets_moves hn _ (fun _ h => h) hheld' false)
        · exact .refl

theorem routeGraphOutputs_moves (hn : n ∈ cfg.graph.names) {s s' : State}
    (h : routeGraphOutputs cfg s n = some s') : Moves cfg (.route n) s s' := by
  unfold routeGraphOutputs at h
  cases hplace : s.routers n with
  | stopped =>
    rw [hplace] at h
    cases h
  | next =>
    rw [hplace] at h
    simp only at h
    split at h
    · split at h
      · cases h
        refine route_single hn (.fail fun item hitem => ?_)
        rw [hplace] at hitem
        cases hitem
      · cases h
    · next output size rest houtputs =>
      cases h
      cases hkind : output.kind with
      | inputDone => exact route_single hn (.confirm hplace houtputs hkind)
      | data => exact routeOutput_moves hn hplace houtputs hkind
  | awaitDelivery output =>
    rw [hplace] at h
    simp only at h
    split at h
    · cases h
    · cases h
      refine .head (.route hn (.delivery .none)) (routeTargets_moves hn _ (fun _ h => h) ?_ false)
      have hsame : (s.setDelivery n .none).routers = s.routers := rfl
      rw [hsame, hplace]
      rfl
  | fencing output report left fenced =>
    rw [hplace] at h
    have hheld : (s.routers n).held = some output := by rw [hplace]; rfl
    simp only at h
    split at h
    · cases h
    · next target edge rest hlast =>
      have hin : ∀ e ∈ (target, edge) :: rest, e ∈ outputTargets cfg n output :=
        fun e he => Targets.mem_of_mem_lastOf (hlast ▸ he)
      obtain ⟨hnode, -⟩ := controlTargets_spec (hin _ List.mem_cons_self)
      have hmoves : Moves cfg (.route n) s (putReport cfg s target report).state :=
        putReport_moves hnode s report
      have hrouters : (putReport cfg s target report).state.routers = s.routers :=
        putReport_routers s target report
      cases hput : putReport cfg s target report with
      | raises s₁ =>
        rw [hput] at h hmoves hrouters
        cases h
        have hheld : (s₁.routers n).held = some output := by rw [← hheld, ← hrouters]; rfl
        exact hmoves.tail (.route hn (.fail (not_publishing_of_held hheld)))
      | waits s₁ report₁ =>
        rw [hput] at h hmoves hrouters
        cases h
        have hheld : (s₁.routers n).held = some output := by rw [← hheld, ← hrouters]; rfl
        exact hmoves.tail (.route hn (.suspend hheld))
      | done s₁ takes =>
        rw [hput] at h hmoves hrouters
        cases h
        have hheld : (s₁.routers n).held = some output := by rw [← hheld, ← hrouters]; rfl
        exact hmoves.trans
          (routeTargets_moves hn rest (fun e he => hin e (List.mem_cons_of_mem _ he)) hheld true)
  | putting output readers =>
    rw [hplace] at h
    cases h
    have hmoves : Moves cfg (.route n) (s.setRouter n (.putting output readers)) _ :=
      routeReaders_moves hn readers s
    rwa [State.setRouter_self s n hplace] at hmoves
  | publishing item =>
    rw [hplace] at h
    simp only at h
    split at h
    · cases h
    · next hroom =>
      cases h
      exact route_single hn (.unblock hplace (Bool.eq_false_iff.mpr hroom))

end Route

/-! ### The delivery task -/

section Deliver

variable {n : String} {output : OutputChunk} {now : ℚ}

theorem deliver_single (hn : n ∈ cfg.graph.names) (hpaced : cfg.graph.isPaced n = true)
    {s s' : State} (h : DeliverMove cfg n s s') : Moves cfg (.deliver n now) s s' :=
  .single (.deliver hn hpaced h)

theorem failDeliverer_setDeliverer (s : State) (d : Deliverer) :
    (s.setDeliverer n d).failDeliverer n = s.failDeliverer n := by
  simp only [State.failDeliverer, State.setDeliverer_setDeliverer]

theorem deliverReaders_moves (hn : n ∈ cfg.graph.names) (hpaced : cfg.graph.isPaced n = true)
    (readers : List String) (s : State) :
    Moves cfg (.deliver n now) (s.setDeliverer n (.putting output readers))
      (deliverReaders cfg s n output readers) := by
  induction readers generalizing s with
  | nil =>
    have hplace : (s.setDeliverer n (.putting output [])).deliverers n = .putting output [] :=
      State.deliverers_setDeliverer s n _
    simp only [deliverReaders, putEach]
    rw [← State.setDeliverer_setDeliverer _ n (.putting output []) .sending]
    exact deliver_single hn hpaced (.sent hplace)
  | cons reader rest ih =>
    have hplace : (s.setDeliverer n (.putting output (reader :: rest))).deliverers n =
        .putting output (reader :: rest) := State.deliverers_setDeliverer s n _
    simp only [deliverReaders, putEach]
    cases hput : putGraphInbox cfg s reader n (outputChunk output) (.released output.seq) with
    | waits => exact .refl
    | raises =>
      simp only
      rw [← failDeliverer_setDeliverer s (.putting output (reader :: rest))]
      exact deliver_single hn hpaced .fail
    | done s₁ =>
      have hput' : putGraphInbox cfg (s.setDeliverer n (.putting output (reader :: rest))) reader n
          (outputChunk output) (.released output.seq) =
          .done (s₁.setDeliverer n (.putting output (reader :: rest))) := by
        rw [putGraphInbox_setDeliverer, hput]
      have hmove := DeliverMove.put hplace hput'
      rw [State.setDeliverer_setDeliverer] at hmove
      exact .head (.deliver hn hpaced hmove) (ih s₁)

theorem deliverPacedOutputs_moves (hn : n ∈ cfg.graph.names) (hpaced : cfg.graph.isPaced n = true)
    {s s' : State} (h : deliverPacedOutputs cfg s n now = some s') :
    Moves cfg (.deliver n now) s s' := by
  unfold deliverPacedOutputs at h
  cases hplace : s.deliverers n with
  | stopped =>
    rw [hplace] at h
    cases h
  | waiting =>
    rw [hplace] at h
    simp only at h
    split at h
    · next pacer hrelease =>
      cases h
      exact deliver_single hn hpaced (.releaseFails hrelease)
    · next pacer released hrelease =>
      cases h
      exact deliver_single hn hpaced (.release hrelease)
  | sending =>
    rw [hplace] at h
    simp only at h
    split at h
    · next hunsent =>
      cases h
      exact deliver_single hn hpaced (.wait hunsent)
    · next output size rest hunsent =>
      split at h
      · cases h
      · next hroom =>
        have hroom : s.outputsFull cfg = false := Bool.eq_false_iff.mpr hroom
        split at h
        · next hstale =>
          cases h
          exact deliver_single hn hpaced (.discard hplace hunsent hstale)
        · next hwanted =>
          have hwanted : s.isInterrupted n (outputChunk output) = false :=
            Bool.eq_false_iff.mpr hwanted
          have hsend : DeliverMove cfg n s _ := .send hplace hunsent hwanted hroom rfl
          by_cases hend : outputControlType output = some turnDone
          · rw [if_pos hend] at h hsend
            cases h
            exact .head (.deliver hn hpaced hsend) (deliverReaders_moves hn hpaced _ _)
          · rw [if_neg hend] at h hsend
            cases h
            have hsame : (((s.popUnsent n rest).numberOutput output).enqueue
                (publishedOutput cfg s n output size)).deliverers n = .sending := hplace
            rw [State.setDeliverer_self _ n hsame] at hsend
            exact deliver_single hn hpaced hsend
  | putting output readers =>
    rw [hplace] at h
    cases h
    have hmoves : Moves cfg (.deliver n now) (s.setDeliverer n (.putting output readers)) _ :=
      deliverReaders_moves hn hpaced readers s
    rwa [State.setDeliverer_self s n hplace] at hmoves

end Deliver

/-! ### The forwarder -/

section Forward

variable {n : String}

theorem forward_single (hn : n ∈ cfg.graph.names) {s s' : State} (h : ForwardMove cfg n s s') :
    Moves cfg (.forward n) s s' :=
  .single (.forward hn h)

theorem forwardFragment_moves (hn : n ∈ cfg.graph.names) {s : State} {item : InboxItem}
    {fragment : Fragment} (hplace : s.forwarders n = .fragments item fragment) :
    Moves cfg (.forward n) s (forwardFragment cfg s n item fragment) := by
  unfold forwardFragment
  split
  · next hinterrupted => exact forward_single hn (.cut hplace hinterrupted)
  · next hwanted =>
    have hwanted : s.isInterrupted n item.chunk = false := Bool.eq_false_iff.mpr hwanted
    split
    · exact forward_single hn .fail
    · exact .refl
    · next session haccept =>
      simp only
      split
      · split
        · exact forward_single hn (.fragmentFails hplace hwanted haccept)
        · next next hnext => exact forward_single hn (.fragment hplace hwanted haccept hnext)
      · exact forward_single hn (.last hplace hwanted haccept)

theorem forwardWhole_moves (hn : n ∈ cfg.graph.names) {s s' : State} {item : InboxItem}
    {rest : List InboxItem} {seq : Nat} (hplace : s.forwarders n = .ready seq)
    (hqueued : (s.inboxes n).queued = item :: rest)
    (h : forwardWhole cfg s n item seq = some s') : Moves cfg (.forward n) s s' := by
  unfold forwardWhole at h
  split at h
  · cases h
    exact forward_single hn .fail
  · cases h
  · next session haccept =>
    simp only [Option.some.injEq] at h
    have hmove : ForwardMove cfg n s _ := .whole hplace hqueued haccept rfl
    subst h
    cases hclient : item.clientSeq with
    | none =>
      simp only [hclient] at hmove
      have hself := State.setClientSequences_self
        ((s.setSession n session).setInbox n (((s.inboxes n).pop item).accept item)) n
      change ((s.setSession n session).setInbox n
        (((s.inboxes n).pop item).accept item)).setClientSequences n (s.clientSequences n) = _ at hself
      rw [hself] at hmove
      exact forward_single hn hmove
    | some clientSeq =>
      simp only [hclient] at hmove
      exact forward_single hn hmove

theorem forwardGraphInputs_moves (hn : n ∈ cfg.graph.names) {s s' : State}
    (h : forwardGraphInputs cfg s n = some s') : Moves cfg (.forward n) s s' := by
  unfold forwardGraphInputs at h
  cases hplace : s.forwarders n with
  | stopped =>
    rw [hplace] at h
    cases h
  | fragments item fragment =>
    rw [hplace] at h
    cases h
    exact forwardFragment_moves hn hplace
  | ready seq =>
    rw [hplace] at h
    simp only at h
    split at h
    · cases h
    · next item rest hqueued =>
      split at h
      · next hwaits =>
        split at h
        · cases h
        · cases h
          exact forward_single hn (.rotate hplace hqueued hwaits.1 hwaits.2.1)
      · split at h
        · next hlarge =>
          split at h
          · cases h
            exact forward_single hn (.startFails hqueued hlarge.1)
          · next fragment hfragment =>
            cases h
            exact .head (.forward hn (.start hplace hqueued hlarge.1 hfragment))
              (forwardFragment_moves hn (State.forwarders_setForwarder _ n _))
        · exact forwardWhole_moves hn hplace hqueued h

end Forward

/-! ### Confirmations -/

theorem emitGraphInputDone_ok {s s' : State} {name : String} {chunk : TimedChunk}
    (h : emitGraphInputDone cfg s name chunk = .ok s') :
    s.outputsFull cfg = false ∧
      s.outputBytes + (confirmation cfg s name chunk).size ≤ cfg.limits.maxOutputBytes ∧
      s' = s.confirm (confirmation cfg s name chunk) := by
  unfold emitGraphInputDone at h
  split at h
  · cases h
  · next hroom =>
    split at h
    · cases h
    · next s₁ hreserve =>
      cases h
      exact ⟨Bool.eq_false_iff.mpr hroom, (reserveGraphOutput_spec hreserve).1, rfl⟩

theorem emitGraphInputDone_raised {s s' : State} {name : String} {chunk : TimedChunk}
    (h : emitGraphInputDone cfg s name chunk = .raised s') : s' = s := by
  unfold emitGraphInputDone at h
  split at h
  · cases h
    rfl
  · split at h
    · cases h
      rfl
    · cases h

/-- What confirming inputs does, apart from which inputs they are: it keeps the books, and it emits
confirmations. -/
inductive ConfirmMove (cfg : Config) (s : State) : State → Prop
  | note (eosConfirmed : List String) (pending : Dict Nat Int) (drains : List (String × TimedChunk))
      (sequences : String → Dict Nat Nat) :
      ConfirmMove cfg s { s with
        eosConfirmed := eosConfirmed
        pendingInputDone := pending
        drains := drains
        clientSequences := sequences }
  | emit {name : String} {chunk : TimedChunk} (hroom : s.outputsFull cfg = false)
      (hbudget : s.outputBytes + (confirmation cfg s name chunk).size ≤ cfg.limits.maxOutputBytes) :
      ConfirmMove cfg s (s.confirm (confirmation cfg s name chunk))

def Ran.state : Ran → State
  | .ok s | .raised s => s

theorem emitGraphInputDone_moves (s : State) (name : String) (chunk : TimedChunk) :
    ReflTransGen (ConfirmMove cfg) s (emitGraphInputDone cfg s name chunk).state := by
  cases h : emitGraphInputDone cfg s name chunk with
  | ok s₁ =>
    obtain ⟨hroom, hbudget, rfl⟩ := emitGraphInputDone_ok h
    exact .single (.emit hroom hbudget)
  | raised s₁ =>
    rw [emitGraphInputDone_raised h]
    exact .refl

theorem confirmGraphInput_moves (s : State) (name : String) (chunk : TimedChunk) :
    ReflTransGen (ConfirmMove cfg) s (confirmGraphInput cfg s name chunk).state := by
  unfold confirmGraphInput
  dsimp only
  -- the EOS is noted first, whatever follows
  generalize hnoted :
    (if chunk.eos = true then { s with eosConfirmed := s.eosConfirmed.insert name } else s) = s₁
  have hnote : ReflTransGen (ConfirmMove cfg) s s₁ := by
    rw [← hnoted]
    split
    · exact .single (.note _ s.pendingInputDone s.drains s.clientSequences)
    · exact .refl
  refine hnote.trans ?_
  split
  · exact .refl
  · split
    · split
      · exact .single (.note s₁.eosConfirmed _ _ s₁.clientSequences)
      · exact .head (.note s₁.eosConfirmed (s₁.pendingInputDone.erase chunk.seq) s₁.drains
          s₁.clientSequences) (emitGraphInputDone_moves _ name chunk)
    · exact .single (.note s₁.eosConfirmed _ s₁.drains s₁.clientSequences)

theorem routeInputDone_moves (s : State) (n : String) (output : OutputChunk) :
    ∃ s₁, ReflTransGen (ConfirmMove cfg) s s₁ ∧
      (routeInputDone cfg s n output = s₁ ∨ routeInputDone cfg s n output = s₁.failRouter n) := by
  unfold routeInputDone
  split
  · exact ⟨s, .refl, .inl rfl⟩
  · next clientSeq _ =>
    have hnote : ConfirmMove cfg s
        (s.setClientSequences n ((s.clientSequences n).erase output.inputSeq)) :=
      .note s.eosConfirmed s.pendingInputDone s.drains _
    have hmoves : ReflTransGen (ConfirmMove cfg)
        (s.setClientSequences n ((s.clientSequences n).erase output.inputSeq)) _ :=
      confirmGraphInput_moves _ n (confirmedChunk output clientSeq)
    refine ⟨_, .head hnote hmoves, ?_⟩
    simp only
    cases confirmGraphInput cfg
      (s.setClientSequences n ((s.clientSequences n).erase output.inputSeq)) n
      (confirmedChunk output clientSeq) with
    | ok s₁ => exact .inl rfl
    | raised s₁ => exact .inr rfl

inductive AppendMove (cfg : Config) (s : State) : State → Prop
  | confirm {s' : State} (h : ConfirmMove cfg s s') : AppendMove cfg s s'
  | drop (name : String) : AppendMove cfg s (s.setInbox name ((s.inboxes name).dropOldest graphInput))
  | hand (chunk : TimedChunk) : AppendMove cfg s ((s.handInput
      (cfg.graph.readingNodes graphInput chunk.format) chunk).noteInput chunk)

theorem dropOldestInputs_moves (names : List String) (s : State) :
    ReflTransGen (AppendMove cfg) s (dropOldestInputs cfg s names).state := by
  induction names generalizing s with
  | nil => exact .refl
  | cons name rest ih =>
    unfold dropOldestInputs
    split
    · exact .refl
    · next item _ =>
      have hconfirm : ReflTransGen (AppendMove cfg)
          (s.setInbox name ((s.inboxes name).dropOldest graphInput)) _ :=
        ReflTransGen.mono (fun _ _ => .confirm) _ _ (confirmGraphInput_moves _ name item.chunk)
      simp only
      cases hran : confirmGraphInput cfg
        (s.setInbox name ((s.inboxes name).dropOldest graphInput)) name item.chunk with
      | raised s₁ =>
        rw [hran] at hconfirm
        exact .head (.drop name) hconfirm
      | ok s₁ =>
        rw [hran] at hconfirm
        exact .head (.drop name) (hconfirm.trans (ih s₁))

theorem appendGraph_moves {s : State} {chunk : TimedChunk} {ran : Ran}
    (h : appendGraph cfg s chunk = some ran) : ReflTransGen (AppendMove cfg) s ran.state := by
  unfold appendGraph at h
  split at h
  · cases h
  · simp only [Option.some.injEq] at h
    have hnoted : ReflTransGen (AppendMove cfg) s (noteReaders cfg s chunk).state := by
      simp only [noteReaders]
      split
      · exact ReflTransGen.mono (fun _ _ => .confirm) _ _ (emitGraphInputDone_moves s _ chunk)
      · exact .single (.confirm (.note s.eosConfirmed _ s.drains s.clientSequences))
    cases hnote : noteReaders cfg s chunk with
    | raised s₁ =>
      rw [hnote] at h hnoted
      subst h
      exact hnoted
    | ok s₁ =>
      rw [hnote] at h hnoted
      have hdropped : ReflTransGen (AppendMove cfg) s₁ _ :=
        dropOldestInputs_moves (fullReaders cfg s chunk) s₁
      simp only at h
      cases hdrop : dropOldestInputs cfg s₁ (fullReaders cfg s chunk) with
      | raised s₂ =>
        rw [hdrop] at h hdropped
        subst h
        exact hnoted.trans hdropped
      | ok s₂ =>
        rw [hdrop] at h hdropped
        subst h
        exact (hnoted.trans hdropped).tail (.hand chunk)

/-! ### Steps -/

theorem callTargets_moves (i : Nat) (event : TimedChunk) (targets : Targets)
    (htargets : ∀ entry ∈ targets, entry ∈ clientTargets cfg event)
    (hclient : ∀ n, a ≠ .route n) (s : State) :
    Moves cfg a s (callTargets cfg i event s targets) := by
  induction targets generalizing s with
  | nil => exact .single (.call i none)
  | cons entry rest ih =>
    obtain ⟨target, edge⟩ := entry
    obtain ⟨hnode, -⟩ := controlTargets_spec (htargets _ List.mem_cons_self)
    have hmoves : Moves cfg a s (fenceControlEdge cfg s target event).state :=
      fenceControlEdge_moves _ s (fun n hn => absurd hn (hclient n)) hnode
    unfold callTargets
    cases hfence : fenceControlEdge cfg s target event with
    | raises s₁ =>
      rw [hfence] at hmoves
      exact hmoves.tail (.call i none)
    | waits s₁ report =>
      rw [hfence] at hmoves
      exact hmoves.tail (.call i _)
    | done s₁ takes =>
      rw [hfence] at hmoves
      cases takes with
      | true => exact hmoves.tail (.call i _)
      | false =>
        exact hmoves.trans (ih (fun e he => htargets e (List.mem_cons_of_mem _ he)) s₁)

theorem resumeControl_moves {i : Nat} {s s' : State} (hclient : ∀ n, a ≠ .route n)
    (h : resumeControl cfg s i = some s') : Moves cfg a s s' := by
  unfold resumeControl at h
  split at h
  · cases h
  · cases h
    exact callTargets_moves i _ _ (fun _ => Targets.mem_of_mem_lastOf) hclient s
  · next event report left _ =>
    split at h
    · cases h
    · next target edge rest hlast =>
      have hin : (target, edge) ∈ clientTargets cfg event :=
        Targets.mem_of_mem_lastOf (hlast ▸ List.mem_cons_self)
      have hmoves : Moves cfg a s (putReport cfg s target report).state :=
        putReport_moves (controlTargets_spec hin).1 s report
      cases hput : putReport cfg s target report with
      | raises s₁ =>
        rw [hput] at h hmoves
        cases h
        exact hmoves.tail (.call i none)
      | waits s₁ report₁ =>
        rw [hput] at h hmoves
        cases h
        exact hmoves.tail (.call i _)
      | done s₁ takes =>
        rw [hput] at h hmoves
        cases h
        exact hmoves.tail (.call i _)

theorem drainGraph_moves {i : Nat} {s s' : State} (h : drainGraph cfg s i = some s') :
    Moves cfg (.drain i) s s' := by
  unfold drainGraph at h
  split at h
  · cases h
  · next name chunk htask =>
    split at h
    · cases h
    · next hdrained =>
      have hdrained : isDrained cfg s = true := not_not.mp hdrained
      simp only at h
      cases hemit : emitGraphInputDone cfg { s with drains := s.drains.eraseIdx i } name chunk with
      | ok s₁ =>
        rw [hemit] at h
        cases h
        exact .single (.drain htask hdrained hemit)
      | raised s₁ =>
        rw [hemit] at h
        cases h
        rw [emitGraphInputDone_raised hemit]
        exact .single (.stopDrain i)

theorem emit_spec {session session' : NodeSession} {output : OutputChunk}
    (h : session.emit cfg output = some session') :
    session' = session.push output (cfg.packer.outputSize output) := by
  simp only [NodeSession.emit] at h
  split at h
  · cases h
  · cases h
    rfl

theorem takeAppend_moves {n : String} (hn : n ∈ cfg.graph.names) {s s' : State}
    (h : takeAppend s n = some s') : Moves cfg a s s' := by
  simp only [takeAppend] at h
  split at h
  · next p rest hpending hidle =>
    split at h
    · cases h
    · next hopen =>
      cases h
      exact .single (.session hn (.take hpending hidle (Bool.eq_false_iff.mpr hopen)))
  · cases h

theorem finishAppend_moves {n : String} (hn : n ∈ cfg.graph.names) {s s' : State}
    (h : finishAppend cfg s n = some s') : Moves cfg a s s' := by
  simp only [finishAppend] at h
  split at h
  · cases h
  · next p hflight =>
    split at h
    · next hclosing =>
      cases h
      exact .single (.session hn (.finishClosing hflight hclosing))
    · next hopen =>
      split at h
      · cases h
        exact .single (.session hn (.finishFails hflight))
      · next session hemit =>
        cases h
        rw [emit_spec hemit]
        exact .single (.session hn (.finish hflight (Bool.eq_false_iff.mpr hopen)))

theorem emitData_moves {n : String} (hn : n ∈ cfg.graph.names) {inputSeq : Nat}
    {chunk : TimedChunk} {s s' : State} (h : emitData cfg s n inputSeq chunk = some s') :
    Moves cfg a s s' := by
  simp only [emitData] at h
  split at h
  · cases h
  · next hopen =>
    obtain ⟨session, hemit, rfl⟩ := Option.map_eq_some_iff.mp h
    rw [emit_spec hemit]
    exact .single (.session hn (.emit inputSeq chunk (Bool.eq_false_iff.mpr hopen)))

theorem cleanSession_moves {n : String} (hn : n ∈ cfg.graph.names) {s s' : State}
    (h : cleanSession s n = some s') : Moves cfg a s s' := by
  simp only [cleanSession] at h
  split at h
  · next hready =>
    cases h
    exact .single (.session hn (.clean hready.1 (Option.isNone_iff_eq_none.mp hready.2)))
  · cases h

theorem step_moves {s s' : State} (h : step cfg s a = some s') : Moves cfg a s s' := by
  unfold step at h
  split at h
  · next hnode =>
    have hn : ∀ n, a.node = some n → n ∈ cfg.graph.names := by
      intro n hn
      rw [hn] at hnode
      simpa using hnode
    cases a with
    | append chunk =>
      simp only [perform, Option.map_eq_some_iff] at h
      obtain ⟨ran, happend, hran⟩ := h
      cases ran with
      | ok s₁ =>
        cases hran
        exact .single (.append happend)
      | raised s₁ =>
        cases hran
        exact .single (.appendRaises happend)
    | control i event =>
      simp only [perform, controlGraph] at h
      split at h
      · cases h
      · cases h
        exact callTargets_moves i event _ (fun _ h => h) (fun n hn => by cases hn) s
    | resumeControl i => exact resumeControl_moves (fun n hn => by cases hn) h
    | read => exact .single (.read h)
    | forward n => exact forwardGraphInputs_moves (hn n rfl) h
    | route n => exact routeGraphOutputs_moves (hn n rfl) h
    | finishDelivery n =>
      simp only [perform] at h
      split at h
      · cases h
        exact .single (.finishDelivery .done)
      · cases h
    | deliver n now =>
      simp only [perform] at h
      split at h
      · next hpaced => exact deliverPacedOutputs_moves (hn n rfl) hpaced h
      · cases h
    | drain i => exact drainGraph_moves h
    | takeAppend n => exact takeAppend_moves (hn n rfl) h
    | finishAppend n => exact finishAppend_moves (hn n rfl) h
    | emit n inputSeq chunk => exact emitData_moves (hn n rfl) h
    | failSession n =>
      cases h
      exact .single (.session (hn n rfl) .fail)
    | cleanSession n => exact cleanSession_moves (hn n rfl) h
    | timeOut task =>
      simp only [perform] at h
      split at h
      · next hdeadline =>
        cases h
        cases task with
        | forwarder n => exact .single (.stopForwarder n)
        | drain i => exact .single (.stopDrain i)
        | router n => cases hdeadline
        | deliverer n => cases hdeadline
      · cases h
    | beginClose =>
      cases h
      exact .single .close
    | startClose =>
      simp only [perform] at h
      split at h
      · next hbegun =>
        cases h
        exact .single (.startClose hbegun)
      · cases h
    | cancel task =>
      simp only [perform] at h
      split at h
      · next hclosing =>
        cases h
        exact .single (.cancel hclosing)
      · cases h
    | finishClose =>
      simp only [perform] at h
      split at h
      · next hclosing =>
        cases h
        exact .single (.finishClose hclosing)
      · cases h
  · cases h

end Session
