import SglangOmni.Proto.Msgpack
import SglangOmni.Session.Frames

/-! The order in which the client is given the outputs of a session graph.  An output has its number
before the awaited put on the client's queue, and a publisher that is blocked there can be overtaken
by one with a later number: the wake-up of a blocked put does not keep the slot for it.  Where a
blocked publisher is never overtaken, the numbers that the client is given increase. -/

namespace Session

open Lib Proto Relation

/-- The numbers that the client was given and will be given from its queue. -/
def numbers (s : State) : List Nat :=
  s.yielded.map OutputChunk.seq ++ s.outputs.map fun item => item.output.seq

/-- The numbers increase, and a blocked publisher's number comes after them. -/
structure Ordered (cfg : Config) (s : State) : Prop where
  increasing : (numbers s).Pairwise (· < ·)
  below : ∀ k ∈ numbers s, k < s.nextOutput
  blocked : ∀ n ∈ cfg.graph.names, ∀ item, s.routers n = .publishing item →
    item.output.seq < s.nextOutput ∧ ∀ k ∈ numbers s, k < item.output.seq

variable {cfg : Config} {a : Action} {s s' : State}

def NoneNewlyBlocked (s s' : State) : Prop :=
  ∀ n item, s'.routers n = .publishing item → s.routers n = .publishing item

theorem NoneNewlyBlocked.same (h : s'.routers = s.routers) : NoneNewlyBlocked s s' := by
  intro n item hitem
  rwa [← h]

theorem NoneNewlyBlocked.setRouter {n : String} {r : Router} (h : NoneNewlyBlocked s s')
    (hr : ∀ item, r ≠ .publishing item) : NoneNewlyBlocked s (s'.setRouter n r) := by
  intro m item hitem
  by_cases hm : m = n
  · subst hm
    rw [State.routers_setRouter] at hitem
    exact absurd hitem (hr item)
  · refine h m item ?_
    rwa [State.routers_setRouter_ne _ _ hm] at hitem

theorem Ordered.frame (h : Ordered cfg s)
    (hsame : (s'.yielded, s'.outputs, s'.nextOutput) = (s.yielded, s.outputs, s.nextOutput))
    (hblocked : NoneNewlyBlocked s s') : Ordered cfg s' := by
  obtain ⟨hyielded, houtputs, hnext⟩ :
      s'.yielded = s.yielded ∧ s'.outputs = s.outputs ∧ s'.nextOutput = s.nextOutput := by
    simpa using hsame
  have hnumbers : numbers s' = numbers s := by simp [numbers, hyielded, houtputs]
  refine ⟨hnumbers ▸ h.increasing, ?_, fun n hn item hitem => ?_⟩
  · rw [hnumbers, hnext]
    exact h.below
  · rw [hnumbers, hnext]
    exact h.blocked n hn item (hblocked n item hitem)

theorem Ordered.fewer (h : Ordered cfg s) (hyielded : s'.yielded = s.yielded)
    (houtputs : s'.outputs.Sublist s.outputs) (hnext : s'.nextOutput = s.nextOutput)
    (hblocked : NoneNewlyBlocked s s') : Ordered cfg s' := by
  have hsub : (numbers s').Sublist (numbers s) := by
    simp only [numbers, hyielded]
    exact (List.Sublist.refl _).append (houtputs.map _)
  refine ⟨h.increasing.sublist hsub, fun k hk => ?_, fun n hn item hitem => ?_⟩
  · rw [hnext]
    exact h.below k (hsub.subset hk)
  · rw [hnext]
    obtain ⟨hlt, habove⟩ := h.blocked n hn item (hblocked n item hitem)
    exact ⟨hlt, fun k hk => habove k (hsub.subset hk)⟩

theorem Ordered.put (h : Ordered cfg s) {item : QueuedOutput} (hyielded : s'.yielded = s.yielded)
    (houtputs : s'.outputs = s.outputs ++ [item]) (hnext : s.nextOutput ≤ s'.nextOutput)
    (habove : ∀ k ∈ numbers s, k < item.output.seq) (hbelow : item.output.seq < s'.nextOutput)
    (hblocked : ∀ n ∈ cfg.graph.names, ∀ it, s'.routers n = .publishing it →
      s.routers n = .publishing it ∧ item.output.seq < it.output.seq) : Ordered cfg s' := by
  have hnumbers : numbers s' = numbers s ++ [item.output.seq] := by
    simp [numbers, hyielded, houtputs]
  refine ⟨?_, fun k hk => ?_, fun n hn it hit => ?_⟩
  · rw [hnumbers, List.pairwise_append]
    refine ⟨h.increasing, List.pairwise_singleton _ _, fun k hk j hj => ?_⟩
    rw [List.mem_singleton.mp hj]
    exact habove k hk
  · rw [hnumbers] at hk
    rcases List.mem_append.mp hk with hold | hnew
    · exact (h.below k hold).trans_le hnext
    · rw [List.mem_singleton.mp hnew]
      exact hbelow
  · obtain ⟨hwas, hlater⟩ := hblocked n hn it hit
    obtain ⟨hlt, hall⟩ := h.blocked n hn it hwas
    refine ⟨hlt.trans_le hnext, fun k hk => ?_⟩
    rw [hnumbers] at hk
    rcases List.mem_append.mp hk with hold | hnew
    · exact hall k hold
    · rw [List.mem_singleton.mp hnew]
      exact hlater

/-! ### Moves -/

def NoneBlocked (cfg : Config) (s : State) : Prop :=
  ∀ n ∈ cfg.graph.names, ∀ item, s.routers n ≠ .publishing item

theorem Ordered.putNext (h : Ordered cfg s) {item : QueuedOutput} (hyielded : s'.yielded = s.yielded)
    (houtputs : s'.outputs = s.outputs ++ [item]) (hseq : item.output.seq = s.nextOutput)
    (hnext : s'.nextOutput = s.nextOutput + 1) (hnone : NoneBlocked cfg s)
    (hblocked : NoneNewlyBlocked s s') : Ordered cfg s' := by
  refine h.put hyielded houtputs (by omega) (fun k hk => ?_) (by omega) fun n hn it hit => ?_
  · rw [hseq]
    exact h.below k hk
  · exact absurd (hblocked n it hit) (hnone n hn it)

theorem Ordered.confirm (h : Ordered cfg s) (hmove : ConfirmMove cfg s s')
    (hnone : s.entered.length < s'.entered.length → NoneBlocked cfg s) : Ordered cfg s' := by
  cases hmove with
  | note => exact h.frame rfl (.same rfl)
  | @emit name chunk hroom hbudget =>
    refine h.putNext rfl rfl rfl rfl (hnone ?_) (.same rfl)
    simp [State.confirm, State.enqueue, State.reserve]

theorem Ordered.confirms (h : Ordered cfg s) (hmoves : ReflTransGen (ConfirmMove cfg) s s')
    (hnone : s.entered.length < s'.entered.length → NoneBlocked cfg s) : Ordered cfg s' := by
  have hall : Ordered cfg s' ∧ s'.routers = s.routers ∧ s.entered <+: s'.entered := by
    refine ⟨?_, confirms_routers hmoves, confirms_entered hmoves⟩
    induction hmoves with
    | refl => exact h
    | @tail b c hfirst hlast ih =>
      have hstart : s.entered.length ≤ b.entered.length := (confirms_entered hfirst).length_le
      have hend : b.entered.length ≤ c.entered.length :=
        (confirms_entered (.single hlast)).length_le
      refine (ih fun hlt => hnone (by omega)).confirm hlast fun hlt => ?_
      have hfree := hnone (by omega)
      intro n hn item
      rw [confirms_routers hfirst]
      exact hfree n hn item
  exact hall.1

theorem Ordered.append (h : Ordered cfg s) (hmoves : ReflTransGen (AppendMove cfg) s s')
    (hnone : s.entered.length < s'.entered.length → NoneBlocked cfg s) : Ordered cfg s' := by
  induction hmoves with
  | refl => exact h
  | @tail b c hfirst hlast ih =>
    have hstart : s.entered.length ≤ b.entered.length := (append_entered hfirst).length_le
    have hend : b.entered.length ≤ c.entered.length := (append_entered (.single hlast)).length_le
    have hb : Ordered cfg b := ih fun hlt => hnone (by omega)
    cases hlast with
    | confirm hconfirm =>
      refine hb.confirm hconfirm fun hlt => ?_
      have hfree := hnone (by omega)
      intro n hn item
      rw [append_routers hfirst]
      exact hfree n hn item
    | drop => exact hb.frame rfl (.same rfl)
    | hand => exact hb.frame rfl (.same rfl)

theorem Ordered.fence (h : Ordered cfg s) (target : String) (turn : Turn) :
    Ordered cfg (fenceTurn cfg s target turn).state := by
  simp only [fenceTurn]
  split
  · exact h.frame rfl (.same rfl)
  · split
    · exact h.fewer rfl List.filter_sublist rfl (.same rfl)
    · exact h.frame rfl (.same rfl)

theorem Ordered.read (h : Ordered cfg s) (hread : readOutput cfg s = some s') : Ordered cfg s' := by
  have hrouters := readOutput_routers hread
  unfold readOutput at hread
  split at hread
  · cases hread
  · next item rest houtputs =>
    have hnumbers : numbers s' = numbers s ∧ s'.nextOutput = s.nextOutput := by
      simp only [Option.some.injEq] at hread
      split at hread <;> (cases hread; simp [numbers, houtputs, State.setPacer])
    refine ⟨hnumbers.1 ▸ h.increasing, ?_, fun n hn it hit => ?_⟩
    · rw [hnumbers.1, hnumbers.2]
      exact h.below
    · rw [hnumbers.1, hnumbers.2]
      exact h.blocked n hn it (by rwa [← hrouters])

/-- Only the routing task that moves may be blocked on the client's queue. -/
def OnlyActorBlocked (cfg : Config) (a : Action) (s : State) : Prop :=
  ∀ n ∈ cfg.graph.names, ∀ item, s.routers n = .publishing item → a = .route n

theorem OnlyActorBlocked.none {n : String} (h : OnlyActorBlocked cfg (.route n) s)
    (hplace : ∀ item, s.routers n ≠ .publishing item) : NoneBlocked cfg s := by
  intro m hm item hitem
  cases h m hm item hitem
  exact hplace item hitem

theorem Ordered.route (h : Ordered cfg s) {n : String} (hnode : n ∈ cfg.graph.names)
    (hmove : RouteMove cfg n s s')
    (honly : s.entered.length < s'.entered.length → OnlyActorBlocked cfg (.route n) s) :
    Ordered cfg s' := by
  cases hmove with
  | take hplace =>
    exact h.frame rfl ((NoneNewlyBlocked.same rfl).setRouter fun item h => by cases h)
  | drop => exact h.frame rfl (.same rfl)
  | @confirm output size rest hplace houtputs hdone =>
    obtain ⟨s₁, hmoves, hend⟩ : ∃ s₁, ReflTransGen (ConfirmMove cfg) (s.popOutput n rest size) s₁ ∧ _ :=
      routeInputDone_moves _ n output
    have hbase : Ordered cfg (s.popOutput n rest size) := h.frame rfl (.same rfl)
    have hnext : ∀ item, s.routers n ≠ .publishing item := fun item hitem => by
      rw [hplace] at hitem
      cases hitem
    have hs₁ : s.entered.length < s₁.entered.length → NoneBlocked cfg s := by
      intro hlt
      refine (honly ?_).none hnext
      rcases hend with hend | hend
      · rwa [hend]
      · rw [hend]
        exact hlt
    rcases hend with hend | hend
    · rw [hend]
      exact hbase.confirms hmoves hs₁
    · rw [hend]
      exact (hbase.confirms hmoves hs₁).frame rfl
        ((NoneNewlyBlocked.same rfl).setRouter fun item h => by cases h)
  | delivery => exact h.frame rfl (.same rfl)
  | suspend => exact h.frame rfl ((NoneNewlyBlocked.same rfl).setRouter fun item h => by cases h)
  | consume => exact h.frame rfl ((NoneNewlyBlocked.same rfl).setRouter fun item h => by cases h)
  | @data output hplace htargets =>
    obtain ⟨outputEndMs, replyStartMs, hclock⟩ := routeClock_eq cfg s n output
    rw [hclock]
    exact h.frame rfl ((NoneNewlyBlocked.same rfl).setRouter fun item h => by cases h)
  | put hplace hput =>
    obtain ⟨inbox, rfl⟩ := putGraphInbox_inboxes hput
    exact h.frame rfl ((NoneNewlyBlocked.same rfl).setRouter fun item h => by cases h)
  | discard => exact h.frame rfl ((NoneNewlyBlocked.same rfl).setRouter fun item h => by cases h)
  | offer => exact h.frame rfl ((NoneNewlyBlocked.same rfl).setRouter fun item h => by cases h)
  | publish hplace =>
    have hnext : ∀ item, s.routers n ≠ .publishing item := fun item hitem => by
      rw [hplace] at hitem
      cases hitem
    refine h.putNext rfl rfl rfl rfl ((honly ?_).none hnext)
      ((NoneNewlyBlocked.same rfl).setRouter fun item h => by cases h)
    simp [State.setRouter, State.enqueue, State.numberOutput, State.reserve]
  | @block output hplace hbudget hpaced =>
    -- the new number is above all others, on the queue and blocked
    refine ⟨h.increasing, fun k hk => (h.below k hk).trans (Nat.lt_succ_self _),
      fun m hmem it hit => ?_⟩
    by_cases hm : m = n
    · subst hm
      rw [State.routers_setRouter] at hit
      cases hit
      exact ⟨Nat.lt_succ_self _, h.below⟩
    · have hwas : s.routers m = .publishing it := by
        rw [State.routers_setRouter_ne _ _ hm] at hit
        exact hit
      obtain ⟨hlt, hall⟩ := h.blocked m hmem it hwas
      exact ⟨hlt.trans (Nat.lt_succ_self _), hall⟩
  | @unblock item hplace hroom =>
    have hfree := honly (by simp [State.setRouter, State.enqueue])
    obtain ⟨hlt, hall⟩ := h.blocked n hnode item hplace
    refine h.put rfl rfl le_rfl hall hlt fun m hmem it hit => ?_
    by_cases hm : m = n
    · subst hm
      rw [State.routers_setRouter] at hit
      cases hit
    · have hwas : s.routers m = .publishing it := by
        rw [State.routers_setRouter_ne _ _ hm] at hit
        exact hit
      cases hfree m hmem it hwas
      exact absurd rfl hm
  | fail => exact h.frame rfl ((NoneNewlyBlocked.same rfl).setRouter fun item h => by cases h)

theorem Ordered.deliver (h : Ordered cfg s) {n : String} (hmove : DeliverMove cfg n s s')
    (hnone : s.entered.length < s'.entered.length → NoneBlocked cfg s) : Ordered cfg s' := by
  cases hmove with
  | @send output size rest next hplace hunsent hwanted hroom hnext =>
    refine h.putNext rfl rfl rfl rfl (hnone ?_) (.same rfl)
    simp [State.setDeliverer, State.enqueue, State.numberOutput, State.popUnsent, State.setPacer]
  | put hplace hput =>
    obtain ⟨inbox, rfl⟩ := putGraphInbox_inboxes hput
    exact h.frame rfl (.same rfl)
  | _ => exact h.frame rfl (.same rfl)

theorem Ordered.move (h : Ordered cfg s) (hmove : Move cfg a s s')
    (honly : s.entered.length < s'.entered.length → OnlyActorBlocked cfg a s) : Ordered cfg s' := by
  have hnone : (∀ n, a ≠ .route n) → s.entered.length < s'.entered.length → NoneBlocked cfg s :=
    fun hother hlt n hn item hitem => hother n (honly hlt n hn item hitem)
  cases hmove with
  | report _ hput =>
    obtain ⟨inbox, rfl⟩ := putGraphInbox_inboxes hput
    exact h.frame rfl (.same rfl)
  | @fence _ _ _ target turn _ _ hfence =>
    have hs := h.fence target turn
    rwa [hfence] at hs
  | @fenceRaises _ _ _ target turn hfence =>
    have hs := h.fence target turn
    rwa [hfence] at hs
  | call => exact h.frame rfl (.same rfl)
  | append happend =>
    exact h.append (appendGraph_moves happend) (hnone fun n hn => by cases hn)
  | appendRaises happend =>
    exact h.append (appendGraph_moves happend) (hnone fun n hn => by cases hn)
  | read hread => exact h.read hread
  | forward _ hforward => cases hforward <;> exact h.frame rfl (.same rfl)
  | route hnode hroute => exact h.route hnode hroute honly
  | finishDelivery => exact h.frame rfl (.same rfl)
  | deliver _ _ hdeliver => exact h.deliver hdeliver (hnone fun n hn => by cases hn)
  | session => exact h.frame rfl (.same rfl)
  | drain _ _ hemit =>
    obtain ⟨hroom, hbudget, rfl⟩ := emitGraphInputDone_ok hemit
    refine h.putNext rfl rfl rfl rfl (hnone (fun n hn => by cases hn) ?_) (.same rfl)
    simp [State.confirm, State.enqueue, State.reserve]
  | stopDrain => exact h.frame rfl (.same rfl)
  | stopForwarder => exact h.frame rfl (.same rfl)
  | close => exact h.frame rfl (.same rfl)
  | startClose => exact h.frame rfl (.same rfl)
  | @cancel _ task _ =>
    cases task with
    | router n => exact h.frame rfl ((NoneNewlyBlocked.same rfl).setRouter fun item h => by cases h)
    | _ => exact h.frame rfl (.same rfl)
  | finishClose => exact h.fewer rfl (List.nil_sublist _) rfl (.same rfl)

/-! ### Runs -/

def putsOutput (cfg : Config) (s : State) (a : Action) : Bool :=
  (step cfg s a).any fun s' => s.entered.length < s'.entered.length

/-- Whether an output that the step puts on the client's queue overtakes the one that the routing task
of `n` is blocked with: the step is neither that task's own nor the one of a task that is blocked with
an earlier number. -/
def overtakes (s : State) (a : Action) (n : String) : Bool :=
  match s.routers n, a with
  | .publishing item, .route m =>
    m ≠ n &&
      match s.routers m with
      | .publishing first => item.output.seq ≤ first.output.seq
      | _ => true
  | .publishing _, _ => true
  | _, _ => false

/-- A step that puts an output on the client's queue overtakes no blocked publisher. -/
def keepsTurn (cfg : Config) (s : State) (a : Action) : Bool :=
  !putsOutput cfg s a || cfg.graph.names.all fun n => !overtakes s a n

theorem overtakes_spec {n : String} {item : QueuedOutput} (hplace : s.routers n = .publishing item)
    (h : overtakes s a n = false) : a = .route n ∨ ∃ m first, a = .route m ∧
      s.routers m = .publishing first ∧ first.output.seq < item.output.seq := by
  unfold overtakes at h
  rw [hplace] at h
  cases a with
  | route m =>
    by_cases hm : m = n
    · exact .inl (by rw [hm])
    · cases hfirst : s.routers m with
      | publishing first =>
        refine .inr ⟨m, first, rfl, hfirst, ?_⟩
        simpa [hm, hfirst] using h
      | _ => simp [hm, hfirst] at h
  | _ => simp at h

theorem Ordered.step (h : Ordered cfg s) (hturn : keepsTurn cfg s a = true)
    (hstep : step cfg s a = some s') : Ordered cfg s' := by
  have hfree : s.entered.length < s'.entered.length → ∀ n ∈ cfg.graph.names,
      overtakes s a n = false := by
    intro hlt n hn
    have hputs : putsOutput cfg s a = true := by
      unfold putsOutput
      rw [hstep]
      simpa using hlt
    simp only [keepsTurn, hputs, Bool.not_true, Bool.false_or, List.all_eq_true,
      Bool.not_eq_true'] at hturn
    exact hturn n hn
  by_cases hresume : ∃ m first, a = .route m ∧ s.routers m = .publishing first
  · -- a blocked publisher puts its output: the others are blocked with later numbers
    obtain ⟨m, first, rfl, hplace⟩ := hresume
    have hs' : s' = (s.enqueue first).setRouter m .next ∧ m ∈ cfg.graph.names := by
      unfold Session.step at hstep
      split at hstep
      · next hnode =>
        simp only [perform, routeGraphOutputs, hplace] at hstep
        split at hstep
        · cases hstep
        · cases hstep
          exact ⟨rfl, by simpa [Action.node] using hnode⟩
      · cases hstep
    obtain ⟨rfl, hm⟩ := hs'
    have hno := hfree (by simp [State.setRouter, State.enqueue])
    obtain ⟨hlt, hall⟩ := h.blocked m hm first hplace
    refine h.put rfl rfl le_rfl hall hlt fun n hn item hitem => ?_
    by_cases hnm : n = m
    · subst hnm
      rw [State.routers_setRouter] at hitem
      cases hitem
    · rw [State.routers_setRouter_ne _ _ hnm] at hitem
      change s.routers n = .publishing item at hitem
      refine ⟨hitem, ?_⟩
      rcases overtakes_spec hitem (hno n hn) with hact | ⟨m', first', hact, hfirst, hlt'⟩
      · cases hact
        exact absurd rfl hnm
      · cases hact
        rw [hplace] at hfirst
        cases hfirst
        exact hlt'
  · -- a put happens only while nobody is blocked, so along the moves only the actor may be
    have hnone : s.entered.length < s'.entered.length → NoneBlocked cfg s := by
      intro hlt n hn item hitem
      rcases overtakes_spec hitem (hfree hlt n hn) with hact | ⟨m, first, hact, hfirst, -⟩
      · exact hresume ⟨n, item, hact, hitem⟩
      · exact hresume ⟨m, first, hact, hfirst⟩
    have hmoves := step_moves hstep
    have hpath : ∀ x, Moves cfg a s x → Moves cfg a x s' → Ordered cfg x := by
      intro x hx
      induction hx with
      | refl => exact fun _ => h
      | @tail b c hfirst hlast ih =>
        intro hrest
        refine (ih (.head hlast hrest)).move hlast fun hlt n hn item hitem => ?_
        have hstart := (Moves.entered hfirst).length_le
        have hend := (Moves.entered hrest).length_le
        by_contra hother
        refine hnone (by omega) n hn item ?_
        have hwas : ∀ y, Moves cfg a s y → y.routers n = .publishing item →
            s.routers n = .publishing item := by
          intro y hy
          induction hy with
          | refl => exact fun h => h
          | tail _ hmove ih =>
            intro hpub
            rcases hmove.routers_other hother with hsame | hstop
            · exact ih (hsame ▸ hpub)
            · rw [hstop] at hpub
              cases hpub
        exact hwas b hfirst hitem
    exact hpath s' hmoves .refl

/-- In every run in which no output overtakes a blocked publisher on its way to the client's queue,
the outputs that the client is given have strictly increasing numbers. -/
theorem outputs_given_in_order (h : (machine cfg).Reaches (fun s a => keepsTurn cfg s a) s) :
    (s.yielded.map OutputChunk.seq).Pairwise (· < ·) := by
  have hordered : Ordered cfg s := by
    refine h.invariant (P := Ordered cfg) ?_ fun s a s' hs hturn hstep => hs.step hturn hstep
    exact ⟨List.Pairwise.nil, fun k hk => (by cases hk), fun n _ item hitem => (by cases hitem)⟩
  exact hordered.increasing.sublist (List.sublist_append_left _ _)

def textGraph : SessionGraph where
  nodes := ((∅ : Dict String SessionNode).set "a"
    { inputs := [.plain graphInput (some pcm16)] }).set "b"
    { inputs := [.plain graphInput (some pcm16)] }
  publish := fun _ => ["text_delta"]

def textConfig : Config where
  graph := textGraph
  valid := ⟨by decide, by decide, by decide, by decide, by decide⟩
  limits := { maxOutputChunks := 1 }
  packer := msgpack
  leadMs := 1000
  identity := { id := "s" }
  nodeIdentity := fun n => { id := "s:" ++ n }

def textChunk : TimedChunk where
  modality := "text"
  tStartMs := 0
  durationMs := 0
  seq := 0
  payload := .dict [("text", .str "hi")]
  format := some "text_delta"

def frameChunk : TimedChunk where
  modality := "image"
  tStartMs := 0
  durationMs := 0
  seq := 0
  payload := .bytes [1]
  format := some "image_frame"

/-- Both nodes publish, and the second blocks until the client reads. -/
def blockedRun : List Action :=
  [.emit "a" 0 textChunk, .route "a", .emit "b" 0 textChunk, .route "b", .read]

/-- The blocked publisher takes the slot that the read freed, before the client appends. -/
theorem blocked_publisher_first : ∃ s,
    (machine textConfig).execWhere (keepsTurn textConfig) .initial
      (blockedRun ++ [Action.route "b", .read, .append frameChunk, .read]) = some s ∧
    s.yielded.map OutputChunk.seq = [0, 1, 2] ∧
    (s.yielded.map OutputChunk.seq).Pairwise (· < ·) := by
  have hobs : ((machine textConfig).execWhere (keepsTurn textConfig) .initial
      (blockedRun ++ [Action.route "b", .read, .append frameChunk, .read])).map
      (fun s => s.yielded.map OutputChunk.seq) = some [0, 1, 2] := by decide +kernel
  obtain ⟨s, hs, hseqs⟩ := Option.map_eq_some_iff.mp hobs
  exact ⟨s, hs, hseqs,
    outputs_given_in_order (Machine.path_of_execWhere (fun _ _ h => h) hs)⟩

/-- The client appends a frame that no node reads before the blocked publisher runs: the confirmation
takes the slot, and the client is given number 2 before number 1. -/
theorem confirmation_overtakes_publisher : ∃ s,
    (machine textConfig).exec .initial
      (blockedRun ++ [Action.append frameChunk, .read, .route "b", .read]) = some s ∧
    s.hasCloseTask = false ∧ s.yielded.map OutputChunk.seq = [0, 2, 1] ∧
    ¬ (s.yielded.map OutputChunk.seq).Pairwise (· < ·) := by
  have hobs : ((machine textConfig).exec .initial
      (blockedRun ++ [Action.append frameChunk, .read, .route "b", .read])).map
      (fun s => (s.hasCloseTask, s.yielded.map OutputChunk.seq)) = some (false, [0, 2, 1]) := by
    decide +kernel
  obtain ⟨s, hs, hobs⟩ := Option.map_eq_some_iff.mp hobs
  obtain ⟨hopen, hseqs⟩ := Prod.mk.inj hobs
  refine ⟨s, hs, hopen, hseqs, ?_⟩
  rw [hseqs]
  decide

end Session
