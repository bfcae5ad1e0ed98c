import SglangOmni.Session.Frames

/-! What a move can do to one node, said once.  A node's chunk or the client's input is put on an edge
into its inbox, an interrupt drops a turn there and among its unsent appends, its session takes an
append, emits, confirms or fails, its routing task takes an output, or its forwarder moves a chunk
from the inbox to the session. -/

namespace Session

open Lib Proto Relation

/-- Where a node's chunk that a move puts on an edge into `m` comes from: its routing task or its
delivery task hands it over, or it is a report. -/
inductive Origin (cfg : Config) (s s' : State) (m : String) : InboxItem → Prop
  | routed {n : String} {output : OutputChunk} {rest : List String}
      (hplace : s.routers n = .putting output (m :: rest)) (hmove : RouteMove cfg n s s') :
      Origin cfg s s' m { source := n, chunk := outputChunk output, clientSeq := none,
                          via := .routed output.seq }
  | released {n : String} {output : OutputChunk} {rest : List String}
      (hplace : s.deliverers n = .putting output (m :: rest)) (hmove : DeliverMove cfg n s s') :
      Origin cfg s s' m { source := n, chunk := outputChunk output, clientSeq := none,
                          via := .released output.seq }
  | report (n : String) (turn : Turn) (audioMs : ℚ) :
      Origin cfg s s' m { source := n, chunk := deliveredChunk turn audioMs, clientSeq := none,
                          via := .report }

/-- What a move does to the inbox of `m`, the node's own forwarder apart. -/
inductive InboxMove (cfg : Config) (s s' : State) (m : String) : Prop
  | keep (h : s'.inboxes m = s.inboxes m)
  | put {item : InboxItem} (horigin : Origin cfg s s' m item) (hnode : item.source ∈ cfg.graph.names)
      (hwanted : s.isInterrupted m item.chunk = false)
      (hroom : (s.inboxes m).counts item.source < edgeCapacity cfg m item.source)
      (h : s'.inboxes m = (s.inboxes m).push item)
  | replace {item old : InboxItem} (horigin : Origin cfg s s' m item)
      (hnode : item.source ∈ cfg.graph.names) (hwanted : s.isInterrupted m item.chunk = false)
      (hoverflow : edgeOverflow cfg m item.source = .dropOldest)
      (hold : (s.inboxes m).oldest item.source = some old)
      (h : s'.inboxes m = ((s.inboxes m).dropOldest item.source).push item)
  | input {chunk : TimedChunk} (hopen : s.endInput = none)
      (hended : s'.endInput = if chunk.eos then some chunk else none)
      (hseq : chunk.seq = s.nextInput) (hnext : s'.nextInput = s.nextInput + 1)
      (hroom : (s.inboxes m).counts graphInput < edgeCapacity cfg m graphInput)
      (h : s'.inboxes m = (s.inboxes m).push (clientItem chunk))
  | inputReplace {chunk : TimedChunk} {old : InboxItem} (hopen : s.endInput = none)
      (hended : s'.endInput = if chunk.eos then some chunk else none)
      (hseq : chunk.seq = s.nextInput) (hnext : s'.nextInput = s.nextInput + 1)
      (hoverflow : edgeOverflow cfg m graphInput = .dropOldest)
      (hold : (s.inboxes m).oldest graphInput = some old)
      (h : s'.inboxes m = ((s.inboxes m).dropOldest graphInput).push (clientItem chunk))
  | inputDrop {old : InboxItem} (hoverflow : edgeOverflow cfg m graphInput = .dropOldest)
      (hold : (s.inboxes m).oldest graphInput = some old)
      (h : s'.inboxes m = (s.inboxes m).dropOldest graphInput)
  | fence {turn : Turn} (hinterrupted : turn ∈ s'.interruptedTurns m)
      (h : s'.inboxes m = (s.inboxes m).fence turn)

variable {cfg : Config} {a : Action} {s s' : State} {n : String}

/-! ### Puts -/

theorem putGraphInbox_cases {target source : String} {chunk : TimedChunk} {via : Emission}
    (h : putGraphInbox cfg s target source chunk via = .done s') :
    (s.isInterrupted target chunk = true ∧ s' = s) ∨
    (s.isInterrupted target chunk = false ∧
      (s.inboxes target).counts source < edgeCapacity cfg target source ∧
      s' = s.setInbox target ((s.inboxes target).push { source, chunk, clientSeq := none, via })) ∨
    (s.isInterrupted target chunk = false ∧ edgeOverflow cfg target source = .dropOldest ∧
      (∃ old, (s.inboxes target).oldest source = some old) ∧
      s' = s.setInbox target
        (((s.inboxes target).dropOldest source).push { source, chunk, clientSeq := none, via })) := by
  simp only [putGraphInbox] at h
  split_ifs at h with hdrop hroom
  · cases h
    exact .inl ⟨hdrop, rfl⟩
  · have hkept : s.isInterrupted target chunk = false := Bool.eq_false_iff.mpr hdrop
    split at h
    · cases h
    · next hoverflow =>
      split at h
      · cases h
      · next old hold =>
        cases h
        exact .inr (.inr ⟨hkept, hoverflow, ⟨old, hold⟩, rfl⟩)
  · cases h
    refine .inr (.inl ⟨Bool.eq_false_iff.mpr hdrop, ?_, rfl⟩)
    omega

theorem InboxMove.of_put {s₁ : State} {target source : String} {chunk : TimedChunk} {via : Emission}
    (hput : putGraphInbox cfg s target source chunk via = .done s₁)
    (hend : s'.inboxes = s₁.inboxes)
    (horigin : Origin cfg s s' target { source, chunk, clientSeq := none, via })
    (hnode : source ∈ cfg.graph.names) (m : String) : InboxMove cfg s s' m := by
  rcases putGraphInbox_cases hput with ⟨-, rfl⟩ | ⟨hwanted, hroom, rfl⟩ |
    ⟨hwanted, hoverflow, ⟨old, hold⟩, rfl⟩
  · exact .keep (congrFun hend m)
  · by_cases hm : m = target
    · subst hm
      exact .put horigin hnode hwanted hroom ((congrFun hend m).trans (Function.update_self _ _ _))
    · exact .keep ((congrFun hend m).trans (Function.update_of_ne hm _ _))
  · by_cases hm : m = target
    · subst hm
      exact .replace horigin hnode hwanted hoverflow hold
        ((congrFun hend m).trans (Function.update_self _ _ _))
    · exact .keep ((congrFun hend m).trans (Function.update_of_ne hm _ _))

/-! ### Appends of the client -/

theorem confirms_inboxes (h : ReflTransGen (ConfirmMove cfg) s s') : s'.inboxes = s.inboxes := by
  obtain ⟨_, _, _, _, _, _, _, _, rfl⟩ := confirms_frame h
  rfl

theorem confirmGraphInput_inboxes {name : String} {chunk : TimedChunk} {ran : Ran}
    (h : confirmGraphInput cfg s name chunk = ran) : ran.state.inboxes = s.inboxes := by
  subst h
  exact confirms_inboxes (confirmGraphInput_moves s name chunk)

theorem dropOldestInputs_inboxes {names : List String} (hnodup : names.Nodup) {ran : Ran}
    (h : dropOldestInputs cfg s names = ran) (m : String) :
    (ran.state.inboxes m = s.inboxes m ∧ ∀ s', ran = .ok s' → m ∉ names) ∨
      m ∈ names ∧ (∃ old, (s.inboxes m).oldest graphInput = some old) ∧
        ran.state.inboxes m = (s.inboxes m).dropOldest graphInput := by
  induction names generalizing s with
  | nil =>
    subst h
    exact .inl ⟨rfl, fun _ _ => List.not_mem_nil⟩
  | cons name rest ih =>
    obtain ⟨hname, hrest⟩ := List.nodup_cons.mp hnodup
    unfold dropOldestInputs at h
    split at h
    · subst h
      exact .inl ⟨rfl, fun _ h => (by cases h)⟩
    · next old hold =>
      simp only at h
      have hself : (s.setInbox name ((s.inboxes name).dropOldest graphInput)).inboxes name =
          (s.inboxes name).dropOldest graphInput := Function.update_self _ _ _
      have hother : m ≠ name →
          (s.setInbox name ((s.inboxes name).dropOldest graphInput)).inboxes m = s.inboxes m :=
        fun hm => Function.update_of_ne hm _ _
      split at h
      · next s₁ hconfirm =>
        subst h
        have hsame := congrFun (confirmGraphInput_inboxes hconfirm) m
        change s₁.inboxes m = _ at hsame
        by_cases hm : m = name
        · subst hm
          exact .inr ⟨List.mem_cons_self, ⟨old, hold⟩, hsame.trans hself⟩
        · exact .inl ⟨hsame.trans (hother hm), fun _ h => (by cases h)⟩
      · next s₁ hconfirm =>
        have hsame := congrFun (confirmGraphInput_inboxes hconfirm) m
        change s₁.inboxes m = _ at hsame
        by_cases hm : m = name
        · subst hm
          rcases ih hrest h with ⟨hkept, -⟩ | ⟨hmem, -⟩
          · exact .inr ⟨List.mem_cons_self, ⟨old, hold⟩, hkept.trans (hsame.trans hself)⟩
          · exact absurd hmem hname
        · rw [hother hm] at hsame
          rcases ih hrest h with ⟨hkept, hnot⟩ | ⟨hmem, holdest, hdropped⟩
          · refine .inl ⟨hkept.trans hsame, fun s' hok => ?_⟩
            exact List.not_mem_cons_of_ne_of_not_mem hm (hnot s' hok)
          · rw [hsame] at holdest hdropped
            exact .inr ⟨List.mem_cons_of_mem _ hmem, holdest, hdropped⟩

theorem fullReaders_nodup (s : State) (chunk : TimedChunk) : (fullReaders cfg s chunk).Nodup :=
  (cfg.graph.readingNodes_nodup graphInput chunk.format).filter _

theorem noteReaders_inboxes {chunk : TimedChunk} {ran : Ran} (h : noteReaders cfg s chunk = ran) :
    ran.state.inboxes = s.inboxes := by
  subst h
  simp only [noteReaders]
  split
  · exact confirms_inboxes (emitGraphInputDone_moves s _ chunk)
  · rfl

theorem appendGraph_checked {chunk : TimedChunk} {ran : Ran}
    (h : appendGraph cfg s chunk = some ran) :
    inputAccepted cfg s chunk = true ∧ appendHasRoom cfg s chunk = true := by
  unfold appendGraph at h
  split at h
  · cases h
  · next hnot =>
    push Not at hnot
    exact hnot

theorem overflow_of_full {chunk : TimedChunk} (hroom : appendHasRoom cfg s chunk = true)
    {m : String} (hfull : m ∈ fullReaders cfg s chunk) :
    edgeOverflow cfg m graphInput = .dropOldest := by
  simp only [appendHasRoom, Bool.and_eq_true, List.all_eq_true, decide_eq_true_eq] at hroom
  exact (hroom.1 m hfull).1

theorem endInput_of_accepted {chunk : TimedChunk} (h : inputAccepted cfg s chunk = true) :
    s.endInput = none ∧ chunk.seq = s.nextInput := by
  simp only [inputAccepted, Bool.and_eq_true, Option.isNone_iff_eq_none, decide_eq_true_eq] at h
  tauto

theorem confirms_inputs (h : ReflTransGen (ConfirmMove cfg) s s') :
    s'.endInput = s.endInput ∧ s'.nextInput = s.nextInput := by
  obtain ⟨_, _, _, _, _, _, _, _, rfl⟩ := confirms_frame h
  exact ⟨rfl, rfl⟩

theorem confirmGraphInput_inputs {name : String} {chunk : TimedChunk} {ran : Ran}
    (h : confirmGraphInput cfg s name chunk = ran) :
    ran.state.endInput = s.endInput ∧ ran.state.nextInput = s.nextInput := by
  subst h
  exact confirms_inputs (confirmGraphInput_moves s name chunk)

theorem noteReaders_inputs {chunk : TimedChunk} {ran : Ran} (h : noteReaders cfg s chunk = ran) :
    ran.state.endInput = s.endInput ∧ ran.state.nextInput = s.nextInput := by
  subst h
  simp only [noteReaders]
  split
  · exact confirms_inputs (emitGraphInputDone_moves s _ chunk)
  · exact ⟨rfl, rfl⟩

theorem dropOldestInputs_inputs {names : List String} {ran : Ran}
    (h : dropOldestInputs cfg s names = ran) :
    ran.state.endInput = s.endInput ∧ ran.state.nextInput = s.nextInput := by
  induction names generalizing s with
  | nil =>
    subst h
    exact ⟨rfl, rfl⟩
  | cons name rest ih =>
    unfold dropOldestInputs at h
    split at h
    · subst h
      exact ⟨rfl, rfl⟩
    · next old _ =>
      simp only at h
      split at h
      · next hran =>
        subst h
        have hconfirm := confirmGraphInput_inputs hran
        exact hconfirm
      · next hran =>
        have hconfirm := confirmGraphInput_inputs hran
        obtain ⟨hend, hnext⟩ := ih h
        exact ⟨hend.trans hconfirm.1, hnext.trans hconfirm.2⟩

theorem appendGraph_ok {chunk : TimedChunk} (h : appendGraph cfg s chunk = some (.ok s')) :
    ∃ noted dropped, noteReaders cfg s chunk = .ok noted ∧
      dropOldestInputs cfg noted (fullReaders cfg s chunk) = .ok dropped ∧
      s' = (dropped.handInput (cfg.graph.readingNodes graphInput chunk.format) chunk).noteInput
        chunk := by
  unfold appendGraph at h
  split at h
  · cases h
  · simp only [Option.some.injEq] at h
    split at h
    · cases h
    · next noted hnoted =>
      split at h
      · cases h
      · next dropped hdropped =>
        cases h
        exact ⟨noted, dropped, hnoted, hdropped, rfl⟩

theorem appendGraph_raised {chunk : TimedChunk} (h : appendGraph cfg s chunk = some (.raised s')) :
    noteReaders cfg s chunk = .raised s' ∨ ∃ noted, noteReaders cfg s chunk = .ok noted ∧
      dropOldestInputs cfg noted (fullReaders cfg s chunk) = .raised s' := by
  unfold appendGraph at h
  split at h
  · cases h
  · simp only [Option.some.injEq] at h
    split at h
    · next hnoted =>
      cases h
      exact .inl hnoted
    · next noted hnoted =>
      split at h
      · next hdropped =>
        cases h
        exact .inr ⟨noted, hnoted, hdropped⟩
      · cases h

theorem InboxMove.of_append {chunk : TimedChunk} (h : appendGraph cfg s chunk = some (.ok s'))
    (m : String) : InboxMove cfg s s' m := by
  obtain ⟨haccepted, hroom⟩ := appendGraph_checked h
  obtain ⟨noted, dropped, hnoted, hdropped, rfl⟩ := appendGraph_ok h
  obtain ⟨hopen, hseq⟩ := endInput_of_accepted haccepted
  have hinboxes : noted.inboxes = s.inboxes := noteReaders_inboxes hnoted
  have hended : ((dropped.handInput (cfg.graph.readingNodes graphInput chunk.format)
      chunk).noteInput chunk).endInput = if chunk.eos then some chunk else none := by
    have hnone : dropped.endInput = none :=
      (dropOldestInputs_inputs hdropped).1.trans ((noteReaders_inputs hnoted).1.trans hopen)
    change (if chunk.eos then some chunk else dropped.endInput) = _
    rw [hnone]
  have hnext : ((dropped.handInput (cfg.graph.readingNodes graphInput chunk.format)
      chunk).noteInput chunk).nextInput = s.nextInput + 1 := by
    change dropped.nextInput + 1 = _
    have hsame : dropped.nextInput = s.nextInput :=
      (dropOldestInputs_inputs hdropped).2.trans (noteReaders_inputs hnoted).2
    rw [hsame]
  have hdrops := dropOldestInputs_inboxes (fullReaders_nodup s chunk) hdropped m
  rw [hinboxes] at hdrops
  by_cases hreads : m ∈ cfg.graph.readingNodes graphInput chunk.format
  · have hend : ((dropped.handInput (cfg.graph.readingNodes graphInput chunk.format)
        chunk).noteInput chunk).inboxes m = (dropped.inboxes m).push (clientItem chunk) :=
      if_pos (List.contains_iff_mem.mpr hreads)
    rcases hdrops with ⟨hsame, hnot⟩ | ⟨hfull, ⟨old, hold⟩, hdrop⟩
    · refine .input hopen hended hseq hnext ?_ (hend.trans (congrArg (Inbox.push · _) hsame))
      by_contra hfull
      refine hnot dropped rfl (List.mem_filter.mpr ⟨hreads, ?_⟩)
      exact decide_eq_true (not_lt.mp hfull)
    · exact .inputReplace hopen hended hseq hnext (overflow_of_full hroom hfull) hold
        (hend.trans (congrArg (Inbox.push · _) hdrop))
  · have hend : ((dropped.handInput (cfg.graph.readingNodes graphInput chunk.format)
        chunk).noteInput chunk).inboxes m = dropped.inboxes m :=
      if_neg fun hmem => hreads (List.contains_iff_mem.mp hmem)
    rcases hdrops with ⟨hsame, -⟩ | ⟨hfull, -⟩
    · exact .keep (hend.trans hsame)
    · exact absurd (List.mem_filter.mp hfull).1 hreads

theorem InboxMove.of_appendRaises {chunk : TimedChunk}
    (h : appendGraph cfg s chunk = some (.raised s')) (m : String) : InboxMove cfg s s' m := by
  obtain ⟨-, hroom⟩ := appendGraph_checked h
  rcases appendGraph_raised h with hnoted | ⟨noted, hnoted, hdropped⟩
  · exact .keep (congrFun (noteReaders_inboxes hnoted) m)
  · have hnote : noted.inboxes = s.inboxes := noteReaders_inboxes hnoted
    have hdrops := dropOldestInputs_inboxes (fullReaders_nodup s chunk) hdropped m
    rw [hnote] at hdrops
    rcases hdrops with ⟨hsame, -⟩ | ⟨hfull, ⟨old, hold⟩, hdrop⟩
    · exact .keep hsame
    · exact .inputDrop (overflow_of_full hroom hfull) hold hdrop

/-! ### Moves -/

theorem fenceTurn_inboxes {target : String} {turn : Turn} {ran : Ran}
    (h : fenceTurn cfg s target turn = ran) :
    ran.state.inboxes = (s.interruptTurn target turn).inboxes ∧
      ran.state.interruptedTurns = (s.interruptTurn target turn).interruptedTurns := by
  subst h
  simp only [fenceTurn]
  split
  · exact ⟨rfl, rfl⟩
  · split <;> exact ⟨rfl, rfl⟩

theorem InboxMove.of_fence {target : String} {turn : Turn} {ran : Ran}
    (h : fenceTurn cfg s target turn = ran) (m : String) : InboxMove cfg s ran.state m := by
  obtain ⟨hinboxes, hturns⟩ := fenceTurn_inboxes h
  by_cases hm : m = target
  · subst hm
    have hmem : turn ∈ ran.state.interruptedTurns m := by
      rw [hturns]
      change turn ∈ Function.update s.interruptedTurns m _ m
      rw [Function.update_self]
      exact List.mem_insert_self
    exact .fence hmem ((congrFun hinboxes m).trans (Function.update_self _ _ _))
  · exact .keep ((congrFun hinboxes m).trans (Function.update_of_ne hm _ _))

theorem InboxMove.of_route {n : String} (hnode : n ∈ cfg.graph.names) (h : RouteMove cfg n s s')
    (m : String) : InboxMove cfg s s' m := by
  have hmove := h
  cases h with
  | @confirm output size rest hplace houtputs hdone =>
    obtain ⟨s₁, hmoves, hend⟩ : ∃ s₁, ReflTransGen (ConfirmMove cfg)
        (s.popOutput n rest size) s₁ ∧ _ := routeInputDone_moves _ n output
    have hsame : s₁.inboxes m = s.inboxes m := congrFun (confirms_inboxes hmoves) m
    rcases hend with hend | hend
    · rw [hend]
      exact .keep hsame
    · rw [hend]
      exact .keep hsame
  | @data output hplace htargets =>
    obtain ⟨outputEndMs, replyStartMs, hclock⟩ := routeClock_eq cfg s n output
    rw [hclock]
    exact .keep rfl
  | @put output reader rest s₁ hplace hput =>
    refine .of_put hput ?_ (.routed hplace hmove) hnode m
    rfl
  | _ => exact .keep rfl

theorem InboxMove.of_deliver {n : String} (hnode : n ∈ cfg.graph.names)
    (h : DeliverMove cfg n s s') (m : String) : InboxMove cfg s s' m := by
  have hmove := h
  cases h with
  | @put output reader rest s₁ hplace hput =>
    refine .of_put hput ?_ (.released hplace hmove) hnode m
    rfl
  | _ => exact .keep rfl

theorem readOutput_inboxes (h : readOutput cfg s = some s') : s'.inboxes = s.inboxes := by
  obtain ⟨_, _, _, _, rfl⟩ := readOutput_frame h
  rfl

theorem ForwardMove.inboxes_other {n m : String} (h : ForwardMove cfg n s s') (hm : m ≠ n) :
    s'.inboxes m = s.inboxes m := by
  cases h with
  | cut => rfl
  | fragment => rfl
  | fragmentFails => rfl
  | fail => rfl
  | _ => exact Function.update_of_ne hm _ _

theorem Move.inbox (h : Move cfg a s s') (m : String) :
    InboxMove cfg s s' m ∨ m ∈ cfg.graph.names ∧ a = .forward m ∧ ForwardMove cfg m s s' := by
  cases h with
  | @report _ _ _ reader target turn audioMs hnode hput =>
    exact .inl (.of_put hput rfl (.report target turn audioMs) hnode m)
  | fence _ _ hfence => exact .inl (.of_fence hfence m)
  | fenceRaises hfence => exact .inl (.of_fence hfence m)
  | append happend => exact .inl (.of_append happend m)
  | appendRaises happend => exact .inl (.of_appendRaises happend m)
  | read hread => exact .inl (.keep (congrFun (readOutput_inboxes hread) m))
  | @forward _ _ n hnode hmove =>
    by_cases hm : m = n
    · subst hm
      exact .inr ⟨hnode, rfl, hmove⟩
    · exact .inl (.keep (hmove.inboxes_other hm))
  | route hnode hmove => exact .inl (.of_route hnode hmove m)
  | deliver hnode _ hmove => exact .inl (.of_deliver hnode hmove m)
  | drain _ _ hemit =>
    obtain ⟨-, -, rfl⟩ := emitGraphInputDone_ok hemit
    exact .inl (.keep rfl)
  | @cancel _ task _ => cases task <;> exact .inl (.keep rfl)
  | _ => exact .inl (.keep rfl)

/-! ### Node sessions -/

/-- What a move does to the session of `n` and to the inputs of the client that it holds, the node's
own forwarder apart. -/
inductive NodeMove (cfg : Config) (s s' : State) (n : String) : Prop
  | keep (h : s'.sessions n = s.sessions n) (hsequences : s'.clientSequences n = s.clientSequences n)
  | session (hmove : SessionMove cfg n (s.sessions n) (s'.sessions n))
      (hsequences : s'.clientSequences n = s.clientSequences n)
  | pop {output : OutputChunk} {size : Nat} {rest : List Budgeted} (hplace : s.routers n = .next)
      (houtputs : (s.sessions n).outputs = (output, size) :: rest) (hdata : output.kind = .data)
      (h : s'.sessions n = (s.popOutput n rest size).sessions n)
      (hsequences : s'.clientSequences n = s.clientSequences n)
  | confirm {output : OutputChunk} {size : Nat} {rest : List Budgeted}
      (hplace : s.routers n = .next) (houtputs : (s.sessions n).outputs = (output, size) :: rest)
      (hdone : output.kind = .inputDone) (h : s'.sessions n = (s.popOutput n rest size).sessions n)
      (hsequences : s'.clientSequences n = (s.clientSequences n).erase output.inputSeq)
  | fence {turn : Turn} (h : s'.sessions n = (s.sessions n).fence (s.clientSequences n) turn)
      (hsequences : s'.clientSequences n = s.clientSequences n)

theorem confirms_sessions (h : ReflTransGen (ConfirmMove cfg) s s') : s'.sessions = s.sessions := by
  obtain ⟨_, _, _, _, _, _, _, _, rfl⟩ := confirms_frame h
  rfl

theorem append_sessions (h : ReflTransGen (AppendMove cfg) s s') : s'.sessions = s.sessions := by
  obtain ⟨_, _, _, _, _, _, _, _, _, _, _, _, _, _, rfl⟩ := append_frame h
  rfl

theorem emitGraphInputDone_sequences {name : String} {chunk : TimedChunk} {ran : Ran}
    (h : emitGraphInputDone cfg s name chunk = ran) :
    ran.state.clientSequences = s.clientSequences := by
  cases ran with
  | ok s₁ =>
    obtain ⟨-, -, rfl⟩ := emitGraphInputDone_ok h
    rfl
  | raised s₁ => rw [emitGraphInputDone_raised h]; rfl

theorem confirmGraphInput_sequences {name : String} {chunk : TimedChunk} {ran : Ran}
    (h : confirmGraphInput cfg s name chunk = ran) :
    ran.state.clientSequences = s.clientSequences := by
  have hnoted : (if chunk.eos then { s with eosConfirmed := s.eosConfirmed.insert name }
      else s).clientSequences = s.clientSequences := by
    split <;> rfl
  unfold confirmGraphInput at h
  simp only at h
  generalize (if chunk.eos then { s with eosConfirmed := s.eosConfirmed.insert name }
    else s) = noted at h hnoted
  split at h
  · subst h
    exact hnoted
  · split at h
    · split at h
      · subst h
        exact hnoted
      · exact (emitGraphInputDone_sequences h).trans hnoted
    · subst h
      exact hnoted

theorem dropOldestInputs_sequences {names : List String} {ran : Ran}
    (h : dropOldestInputs cfg s names = ran) : ran.state.clientSequences = s.clientSequences := by
  induction names generalizing s with
  | nil =>
    subst h
    rfl
  | cons name rest ih =>
    unfold dropOldestInputs at h
    split at h
    · subst h
      rfl
    · simp only at h
      split at h
      · next hran =>
        subst h
        have hsame := confirmGraphInput_sequences hran
        exact hsame
      · next hran =>
        have hsame := confirmGraphInput_sequences hran
        exact (ih h).trans hsame

theorem appendGraph_sequences {chunk : TimedChunk} {ran : Ran}
    (h : appendGraph cfg s chunk = some ran) : ran.state.clientSequences = s.clientSequences := by
  have hnote : ∀ ran, noteReaders cfg s chunk = ran →
      ran.state.clientSequences = s.clientSequences := by
    rintro ran rfl
    simp only [noteReaders]
    split
    · exact emitGraphInputDone_sequences rfl
    · rfl
  cases ran with
  | ok s' =>
    obtain ⟨noted, dropped, hnoted, hdropped, rfl⟩ := appendGraph_ok h
    exact (dropOldestInputs_sequences hdropped).trans (hnote _ hnoted)
  | raised s' =>
    rcases appendGraph_raised h with hnoted | ⟨noted, hnoted, hdropped⟩
    · exact hnote _ hnoted
    · exact (dropOldestInputs_sequences hdropped).trans (hnote _ hnoted)

theorem routeInputDone_node {n : String} (output : OutputChunk) (m : String) :
    (routeInputDone cfg s n output).sessions = s.sessions ∧
      (routeInputDone cfg s n output).clientSequences m =
        if m = n then (s.clientSequences n).erase output.inputSeq else s.clientSequences m := by
  obtain ⟨s₁, hmoves, hend⟩ : ∃ s₁, ReflTransGen (ConfirmMove cfg) s s₁ ∧ _ :=
    routeInputDone_moves s n output
  have hsessions := confirms_sessions hmoves
  constructor
  · rcases hend with hend | hend
    · rw [hend]
      exact hsessions
    · rw [hend]
      exact hsessions
  · clear hend
    unfold routeInputDone
    split
    · next hnone =>
      split
      · next hm => rw [hm, Dict.erase_of_get?_none hnone]
      · rfl
    · next clientSeq hseq =>
      simp only
      have hset : (s.setClientSequences n ((s.clientSequences n).erase output.inputSeq)).clientSequences
          m = if m = n then (s.clientSequences n).erase output.inputSeq
            else s.clientSequences m := by
        simp only [State.setClientSequences, Function.update_apply]
      split
      · next hran => exact (congrFun (confirmGraphInput_sequences hran) m).trans hset
      · next hran => exact (congrFun (confirmGraphInput_sequences hran) m).trans hset

theorem NodeMove.of_route {n : String} (h : RouteMove cfg n s s') (m : String) :
    NodeMove cfg s s' m := by
  have hpop : m ≠ n → ∀ rest size, (s.popOutput n rest size).sessions m = s.sessions m :=
    fun hm rest size => Function.update_of_ne hm _ _
  cases h with
  | take hplace houtputs hdata =>
    by_cases hm : m = n
    · subst hm
      exact .pop hplace houtputs hdata rfl rfl
    · exact .keep (hpop hm _ _) rfl
  | drop hplace houtputs hdata =>
    by_cases hm : m = n
    · subst hm
      exact .pop hplace houtputs hdata rfl rfl
    · exact .keep (hpop hm _ _) rfl
  | @confirm output size rest hplace houtputs hdone =>
    obtain ⟨hsessions, hsequences⟩ : (routeInputDone cfg (s.popOutput n rest size) n output).sessions
        = _ ∧ _ := routeInputDone_node output m
    by_cases hm : m = n
    · subst hm
      rw [if_pos rfl] at hsequences
      exact .confirm hplace houtputs hdone (congrFun hsessions m) hsequences
    · rw [if_neg hm] at hsequences
      exact .keep ((congrFun hsessions m).trans (hpop hm _ _)) hsequences
  | @data output hplace htargets =>
    obtain ⟨outputEndMs, replyStartMs, hclock⟩ := routeClock_eq cfg s n output
    rw [hclock]
    exact .keep rfl rfl
  | put hplace hput =>
    obtain ⟨inbox, rfl⟩ := putGraphInbox_inboxes hput
    exact .keep rfl rfl
  | _ => exact .keep rfl rfl

theorem NodeMove.of_fence {target : String} {turn : Turn} {ran : Ran}
    (h : fenceTurn cfg s target turn = ran) (m : String) : NodeMove cfg s ran.state m := by
  subst h
  simp only [fenceTurn]
  split
  · exact .keep rfl rfl
  · by_cases hm : m = target
    · subst hm
      split <;> exact .fence (Function.update_self _ _ _) rfl
    · split <;> exact .keep (Function.update_of_ne hm _ _) rfl

theorem readOutput_sessions (h : readOutput cfg s = some s') :
    s'.sessions = s.sessions ∧ s'.clientSequences = s.clientSequences := by
  obtain ⟨_, _, _, _, rfl⟩ := readOutput_frame h
  exact ⟨rfl, rfl⟩

theorem ForwardMove.node_other {n m : String} (h : ForwardMove cfg n s s') (hm : m ≠ n) :
    s'.sessions m = s.sessions m ∧ s'.clientSequences m = s.clientSequences m := by
  cases h with
  | whole => exact ⟨Function.update_of_ne hm _ _, Function.update_of_ne hm _ _⟩
  | fragment => exact ⟨Function.update_of_ne hm _ _, rfl⟩
  | fragmentFails => exact ⟨Function.update_of_ne hm _ _, rfl⟩
  | last => exact ⟨Function.update_of_ne hm _ _, rfl⟩
  | _ => exact ⟨rfl, rfl⟩

theorem Move.node (h : Move cfg a s s') (n : String) :
    NodeMove cfg s s' n ∨ n ∈ cfg.graph.names ∧ a = .forward n ∧ ForwardMove cfg n s s' := by
  cases h with
  | report _ hput =>
    obtain ⟨inbox, rfl⟩ := putGraphInbox_inboxes hput
    exact .inl (.keep rfl rfl)
  | fence _ _ hfence => exact .inl (.of_fence hfence n)
  | fenceRaises hfence => exact .inl (.of_fence hfence n)
  | append happend =>
    exact .inl (.keep (congrFun (append_sessions (appendGraph_moves happend)) n)
      (congrFun (appendGraph_sequences happend) n))
  | appendRaises happend =>
    exact .inl (.keep (congrFun (append_sessions (appendGraph_moves happend)) n)
      (congrFun (appendGraph_sequences happend) n))
  | read hread =>
    obtain ⟨hsessions, hsequences⟩ := readOutput_sessions hread
    exact .inl (.keep (congrFun hsessions n) (congrFun hsequences n))
  | @forward _ _ m hnode hmove =>
    by_cases hm : n = m
    · subst hm
      exact .inr ⟨hnode, rfl, hmove⟩
    · obtain ⟨hsessions, hsequences⟩ := hmove.node_other hm
      exact .inl (.keep hsessions hsequences)
  | route _ hmove => exact .inl (.of_route hmove n)
  | deliver _ _ hmove =>
    cases hmove with
    | put hplace hput =>
      obtain ⟨inbox, rfl⟩ := putGraphInbox_inboxes hput
      exact .inl (.keep rfl rfl)
    | _ => exact .inl (.keep rfl rfl)
  | @session _ _ m session hnode hmove =>
    by_cases hm : n = m
    · subst hm
      refine .inl (.session ?_ rfl)
      rw [show (s.setSession n session).sessions n = session from Function.update_self _ _ _]
      exact hmove
    · exact .inl (.keep (Function.update_of_ne hm _ _) rfl)
  | drain _ _ hemit =>
    obtain ⟨-, -, rfl⟩ := emitGraphInputDone_ok hemit
    exact .inl (.keep rfl rfl)
  | @cancel _ task _ => cases task <;> exact .inl (.keep rfl rfl)
  | _ => exact .inl (.keep rfl rfl)

/-! ### Places of the forwarders and the delivery tasks -/

theorem RouteMove.places {m : String} (h : RouteMove cfg m s s') :
    s'.forwarders = s.forwarders ∧ s'.deliverers = s.deliverers := by
  cases h with
  | @confirm output size rest hplace houtputs hdone =>
    obtain ⟨s₁, hmoves, _, _, hend⟩ : ∃ s₁, ReflTransGen (ConfirmMove cfg)
        (s.popOutput m rest size) s₁ ∧ _ := routeInputDone_frame
    obtain ⟨_, _, _, _, _, _, _, _, rfl⟩ := confirms_frame hmoves
    rw [hend]
    exact ⟨rfl, rfl⟩
  | @data output hplace htargets =>
    obtain ⟨outputEndMs, replyStartMs, hclock⟩ := routeClock_eq cfg s m output
    rw [hclock]
    exact ⟨rfl, rfl⟩
  | put hplace hput =>
    obtain ⟨inbox, rfl⟩ := putGraphInbox_inboxes hput
    exact ⟨rfl, rfl⟩
  | _ => exact ⟨rfl, rfl⟩

theorem Move.places (h : Move cfg a s s') :
    s'.forwarders = s.forwarders ∧ s'.deliverers = s.deliverers
      ∨ (∃ m ∈ cfg.graph.names, a = .forward m ∧ ForwardMove cfg m s s')
      ∨ (∃ m, DeliverMove cfg m s s') ∨ (∃ m, s' = s.failForwarder m)
      ∨ ∃ task, s.isClosing = true ∧ s' = s.stopTask task := by
  have hfenced : ∀ {target : String} {turn : Turn} {ran : Ran}, fenceTurn cfg s target turn = ran →
      ran.state.forwarders = s.forwarders ∧ ran.state.deliverers = s.deliverers := by
    intro target turn ran hfence
    obtain ⟨_, _, _, _, _, _, _, hsame⟩ := fenceTurn_frame hfence
    rw [hsame]
    exact ⟨rfl, rfl⟩
  have happended : ∀ {s₁ : State}, ReflTransGen (AppendMove cfg) s s₁ →
      s₁.forwarders = s.forwarders ∧ s₁.deliverers = s.deliverers := by
    intro s₁ hmoves
    obtain ⟨_, _, _, _, _, _, _, _, _, _, _, _, _, _, rfl⟩ := append_frame hmoves
    exact ⟨rfl, rfl⟩
  cases h with
  | report _ hput =>
    obtain ⟨inbox, rfl⟩ := putGraphInbox_inboxes hput
    exact .inl ⟨rfl, rfl⟩
  | fence _ _ hfence => exact .inl (hfenced hfence)
  | fenceRaises hfence => exact .inl (hfenced hfence)
  | append happend => exact .inl (happended (appendGraph_moves happend))
  | appendRaises happend => exact .inl (happended (appendGraph_moves happend))
  | read hread =>
    obtain ⟨_, _, _, _, rfl⟩ := readOutput_frame hread
    exact .inl ⟨rfl, rfl⟩
  | @forward _ _ m hnode hmove => exact .inr (.inl ⟨m, hnode, rfl, hmove⟩)
  | route _ hmove => exact .inl hmove.places
  | @deliver _ _ m _ _ _ hmove => exact .inr (.inr (.inl ⟨m, hmove⟩))
  | drain _ _ hemit =>
    obtain ⟨-, -, rfl⟩ := emitGraphInputDone_ok hemit
    exact .inl ⟨rfl, rfl⟩
  | stopForwarder m => exact .inr (.inr (.inr (.inl ⟨m, rfl⟩)))
  | cancel hclosing => exact .inr (.inr (.inr (.inr ⟨_, hclosing, rfl⟩)))
  | _ => exact .inl ⟨rfl, rfl⟩

theorem Move.forwarder (h : Move cfg a s s') (n : String) :
    (s'.forwarders n = s.forwarders n ∨
      s'.forwarders n = .stopped ∧ (s'.hasCloseTask = true ∨ s.isClosing = true)) ∨
      n ∈ cfg.graph.names ∧ a = .forward n ∧ ForwardMove cfg n s s' := by
  have hstop : ∀ m, (s.setForwarder m .stopped).forwarders n = s.forwarders n ∨
      (s.setForwarder m .stopped).forwarders n = .stopped := by
    intro m
    by_cases hm : n = m
    · subst hm
      exact .inr (Function.update_self _ _ _)
    · exact .inl (Function.update_of_ne hm _ _)
  rcases h.places with ⟨hsame, _⟩ | ⟨m, hnode, hforward, hmove⟩ | ⟨m, hmove⟩ | ⟨m, rfl⟩ | ⟨task, hclosing, rfl⟩
  · exact .inl (.inl (congrFun hsame n))
  · by_cases hm : n = m
    · subst hm
      exact .inr ⟨hnode, hforward, hmove⟩
    · refine .inl (.inl ?_)
      cases hmove with
      | rotate => rfl
      | _ => exact Function.update_of_ne hm _ _
  · cases hmove with
    | put hplace hput =>
      obtain ⟨inbox, rfl⟩ := putGraphInbox_inboxes hput
      exact .inl (.inl rfl)
    | _ => exact .inl (.inl rfl)
  · exact .inl ((hstop m).imp_right fun h => ⟨h, .inl rfl⟩)
  · cases task with
    | forwarder m => exact .inl ((hstop m).imp_right fun h => ⟨h, .inr hclosing⟩)
    | _ => exact .inl (.inl rfl)

theorem DeliverMove.deliverers_other {n m : String} (h : DeliverMove cfg n s s') (hm : m ≠ n) :
    s'.deliverers m = s.deliverers m := by
  cases h with
  | discard => rfl
  | put hplace hput =>
    obtain ⟨inbox, rfl⟩ := putGraphInbox_inboxes hput
    exact Function.update_of_ne hm _ _
  | _ => exact Function.update_of_ne hm _ _

theorem Move.deliverer (h : Move cfg a s s') (n : String) :
    (s'.deliverers n = s.deliverers n ∨ s'.deliverers n = .stopped) ∨ DeliverMove cfg n s s' := by
  rcases h.places with ⟨_, hsame⟩ | ⟨m, _, _, hmove⟩ | ⟨m, hmove⟩ | ⟨m, rfl⟩ | ⟨task, _, rfl⟩
  · exact .inl (.inl (congrFun hsame n))
  · cases hmove <;> exact .inl (.inl rfl)
  · by_cases hm : n = m
    · subst hm
      exact .inr hmove
    · exact .inl (.inl (hmove.deliverers_other hm))
  · exact .inl (.inl rfl)
  · cases task with
    | deliverer m =>
      by_cases hm : n = m
      · subst hm
        exact .inl (.inr (Function.update_self _ _ _))
      · exact .inl (.inl (Function.update_of_ne hm _ _))
    | _ => exact .inl (.inl rfl)

/-! ### Pacers -/

def Pacer.all (pacer : Pacer) : List Budgeted := pacer.items ++ pacer.unsent

theorem Pacer.mem_all_purge {pacer : Pacer} {turn : Option Turn} {item : Budgeted}
    (h : item ∈ (pacer.purge turn).all) : item ∈ pacer.all := by
  cases turn with
  | none => exact h
  | some turn =>
    rcases List.mem_append.mp h with h | h
    · exact List.mem_append_left _ (List.mem_filter.mp h).1
    · exact List.mem_append_right _ (List.mem_filter.mp h).1

theorem Pacer.mem_all_offer {pacer : Pacer} {output : OutputChunk} {size : Nat} {item : Budgeted}
    (h : item ∈ (pacer.offer output size).all) : item ∈ pacer.all ∨ item = (output, size) := by
  have hbefore : ∀ x ∈ (pacer.beforeOffer output).all, x ∈ pacer.all := by
    unfold Pacer.beforeOffer
    split
    · exact fun x hx => Pacer.mem_all_purge hx
    · exact fun x hx => hx
  rcases List.mem_append.mp h with h | h
  · rcases List.mem_append.mp h with h | h
    · exact .inl (hbefore item (List.mem_append_left _ h))
    · exact .inr (List.mem_singleton.mp h)
  · exact .inl (hbefore item (List.mem_append_right _ h))

theorem Pacer.all_sent (pacer : Pacer) (output : OutputChunk) :
    (pacer.sent output).all = pacer.all := by
  unfold Pacer.sent
  split <;> rfl

/-- Where an output in the pacer of `n` after a move comes from: the pacer before, or the routing task
that offers it. -/
def PacerMove (s s' : State) (n : String) : Prop :=
  ∀ item ∈ (s'.pacers n).all, (∃ held ∈ (s.pacers n).all, Descends held.1 item.1) ∨
    (s.routers n = .putting item.1 [] ∧ s.isInterrupted n (outputChunk item.1) = false)

theorem PacerMove.fewer (h : ∀ item ∈ (s'.pacers n).all, item ∈ (s.pacers n).all) :
    PacerMove s s' n :=
  fun item hitem => .inl ⟨item, h item hitem, .refl _⟩

theorem PacerMove.of_fence {target : String} {turn : Turn} {ran : Ran}
    (h : fenceTurn cfg s target turn = ran) (n : String) : PacerMove s ran.state n := by
  subst h
  simp only [fenceTurn]
  split
  · exact .fewer fun item hitem => hitem
  · split
    · by_cases hn : n = target
      · subst hn
        refine .fewer fun item hitem => ?_
        change item ∈ (Function.update s.pacers n _ n).all at hitem
        rw [Function.update_self] at hitem
        exact Pacer.mem_all_purge hitem
      · refine .fewer fun item hitem => ?_
        change item ∈ (Function.update s.pacers target _ n).all at hitem
        rwa [Function.update_of_ne hn] at hitem
    · exact .fewer fun item hitem => hitem

theorem PacerMove.of_append (h : ReflTransGen (AppendMove cfg) s s') (n : String) :
    PacerMove s s' n := by
  have hall : (s'.pacers n).all = (s.pacers n).all := by
    induction h with
    | refl => rfl
    | tail _ hlast ih =>
      rw [← ih]
      cases hlast with
      | confirm hconfirm => cases hconfirm <;> rfl
      | drop => rfl
      | hand chunk =>
        simp only [State.noteInput, State.handInput]
        split <;> rfl
  exact .fewer fun item hitem => hall ▸ hitem

theorem PacerMove.of_route {m : String} (h : RouteMove cfg m s s') (n : String) :
    PacerMove s s' n := by
  cases h with
  | @confirm output size rest hplace houtputs hdone =>
    obtain ⟨s₁, hmoves, _, _, hend⟩ : ∃ s₁, ReflTransGen (ConfirmMove cfg)
        (s.popOutput m rest size) s₁ ∧ _ := routeInputDone_frame
    obtain ⟨_, _, _, _, _, _, _, _, rfl⟩ := confirms_frame hmoves
    rw [hend]
    exact .fewer fun item hitem => hitem
  | @data output hplace htargets =>
    obtain ⟨outputEndMs, replyStartMs, hclock⟩ := routeClock_eq cfg s m output
    rw [hclock]
    exact .fewer fun item hitem => hitem
  | put hplace hput =>
    obtain ⟨inbox, rfl⟩ := putGraphInbox_inboxes hput
    exact .fewer fun item hitem => hitem
  | @offer output hplace hwanted hclient hbudget hpaced =>
    intro item hitem
    change item ∈ (Function.update s.pacers m _ n).all at hitem
    by_cases hn : n = m
    · subst hn
      rw [Function.update_self] at hitem
      rcases Pacer.mem_all_offer hitem with hold | rfl
      · exact .inl ⟨item, hold, .refl _⟩
      · exact .inr ⟨hplace, hwanted⟩
    · rw [Function.update_of_ne hn] at hitem
      exact .inl ⟨item, hitem, .refl _⟩
  | _ => exact .fewer fun item hitem => hitem

theorem PacerMove.of_release {m : String} {now : ℚ} {pacer : Pacer} {out : Option (List Budgeted)}
    (h : (s.pacers m).release cfg.packer cfg.leadMs now = (pacer, out))
    (hs' : s'.pacers = Function.update s.pacers m
      { pacer with unsent := pacer.unsent ++ out.getD [] }) (n : String) : PacerMove s s' n := by
  obtain ⟨hitems, hunsent, hreleased⟩ := Pacer.release_descends h
  have hfrom : ∀ parts, AllDescend (s.pacers m).items parts → ∀ item ∈ parts,
      ∃ held ∈ (s.pacers m).all, Descends held.1 item.1 := by
    intro parts hparts item hitem
    obtain ⟨held, hheld, hdescends⟩ := hparts item hitem
    exact ⟨held, List.mem_append_left _ hheld, hdescends⟩
  intro item hitem
  rw [hs'] at hitem
  by_cases hn : n = m
  · subst hn
    rw [Function.update_self] at hitem
    rcases List.mem_append.mp hitem with hitem | hitem
    · exact .inl (hfrom _ hitems item hitem)
    · rcases List.mem_append.mp hitem with hitem | hitem
      · rw [hunsent] at hitem
        exact .inl ⟨item, List.mem_append_right _ hitem, .refl _⟩
      · cases out with
        | none => cases hitem
        | some released => exact .inl (hfrom _ (hreleased released rfl) item hitem)
  · rw [Function.update_of_ne hn] at hitem
    exact .inl ⟨item, hitem, .refl _⟩

theorem PacerMove.of_popUnsent {m : String} {output : OutputChunk} {size : Nat}
    {rest : List Budgeted} (hunsent : (s.pacers m).unsent = (output, size) :: rest)
    (hs' : s'.pacers = (s.popUnsent m rest).pacers) (n : String) : PacerMove s s' n := by
  refine .fewer fun item hitem => ?_
  rw [hs'] at hitem
  change item ∈ (Function.update s.pacers m _ n).all at hitem
  by_cases hn : n = m
  · subst hn
    rw [Function.update_self] at hitem
    rcases List.mem_append.mp hitem with hitem | hitem
    · exact List.mem_append_left _ hitem
    · refine List.mem_append_right _ ?_
      rw [hunsent]
      exact List.mem_cons_of_mem _ hitem
  · rwa [Function.update_of_ne hn] at hitem

theorem PacerMove.of_deliver {m : String} (h : DeliverMove cfg m s s') (n : String) :
    PacerMove s s' n := by
  cases h with
  | release hrelease => exact .of_release hrelease rfl n
  | @releaseFails now pacer hrelease =>
    refine .of_release hrelease ?_ n
    rw [Option.getD_none, List.append_nil]
    rfl
  | discard hplace hunsent => exact .of_popUnsent hunsent rfl n
  | send hplace hunsent => exact .of_popUnsent hunsent rfl n
  | put hplace hput =>
    obtain ⟨inbox, rfl⟩ := putGraphInbox_inboxes hput
    exact .fewer fun item hitem => hitem
  | _ => exact .fewer fun item hitem => hitem

theorem PacerMove.of_read (h : readOutput cfg s = some s') (n : String) : PacerMove s s' n := by
  unfold readOutput at h
  split at h
  · cases h
  · simp only [Option.some.injEq] at h
    split at h
    · cases h
      refine .fewer fun x hx => ?_
      simp only [State.setPacer, Function.update_apply] at hx
      split at hx
      · next hn =>
        rw [Pacer.all_sent] at hx
        rwa [hn]
      · exact hx
    · cases h
      exact .fewer fun x hx => hx

theorem Move.pacer (h : Move cfg a s s') (n : String) : PacerMove s s' n := by
  cases h with
  | report _ hput =>
    obtain ⟨inbox, rfl⟩ := putGraphInbox_inboxes hput
    exact .fewer fun item hitem => hitem
  | fence _ _ hfence => exact .of_fence hfence n
  | fenceRaises hfence => exact .of_fence hfence n
  | append happend => exact .of_append (appendGraph_moves happend) n
  | appendRaises happend => exact .of_append (appendGraph_moves happend) n
  | read hread => exact .of_read hread n
  | forward _ hmove => cases hmove <;> exact .fewer fun item hitem => hitem
  | route _ hmove => exact .of_route hmove n
  | deliver _ _ hmove => exact .of_deliver hmove n
  | drain _ _ hemit =>
    obtain ⟨-, -, rfl⟩ := emitGraphInputDone_ok hemit
    exact .fewer fun item hitem => hitem
  | @cancel _ task _ => cases task <;> exact .fewer fun item hitem => hitem
  | _ => exact .fewer fun item hitem => hitem

end Session
