import SglangOmni.Session.Atomic
import SglangOmni.Session.Drain

/-! Every input of a client is confirmed once.  As long as no append raises amid its drops and the
graph does not close, `pending_input_done` is the number of nodes that have the input, and an input
that it does not hold was confirmed, by one output or by the drain that will confirm it. -/

namespace Session

open Lib Proto Relation

variable {cfg : Config} {a : Action} {s s' t : State} {seq : Nat} {inputs : Nat → Prop}

def confirmedTimes (s : State) (seq : Nat) : Nat :=
  (s.entered.filter fun item => item.output.kind = .inputDone ∧ item.output.inputSeq = seq).length

def drainsOf (s : State) (seq : Nat) : Nat :=
  (s.drains.filter fun drain => drain.2.seq = seq).length

def told (s : State) (seq : Nat) : Nat := confirmedTimes s seq + drainsOf s seq

/-- Where an input of the client stands: some nodes have it and are counted, its confirmation is made
or left to a drain, or it has not come yet. -/
inductive Standing (cfg : Config) (s : State) (seq : Nat) : Prop
  | waiting (hlt : seq < s.nextInput)
      (hpending : s.pendingInputDone.get? seq = some (handsOf cfg s seq : Int))
      (hpos : 0 < handsOf cfg s seq) (htold : told s seq = 0)
  | confirmed (hlt : seq < s.nextInput) (hpending : s.pendingInputDone.get? seq = none)
      (hnone : handsOf cfg s seq = 0) (htold : told s seq = 1)
  | unseen (hle : s.nextInput ≤ seq) (hpending : s.pendingInputDone.get? seq = none)
      (hnone : handsOf cfg s seq = 0) (htold : told s seq = 0)

/-- Every one of these inputs stands somewhere, and no node has one twice. -/
structure Settled (cfg : Config) (inputs : Nat → Prop) (s : State) : Prop where
  standing : ∀ seq, inputs seq → Standing cfg s seq
  single : ∀ n seq, hands s n seq ≤ 1

/-! ### What leaves an input as it stands -/

theorem Standing.same (h : Standing cfg s seq) (hnext : s'.nextInput = s.nextInput)
    (hpending : s'.pendingInputDone.get? seq = s.pendingInputDone.get? seq)
    (hhands : handsOf cfg s' seq = handsOf cfg s seq) (htold : told s' seq = told s seq) :
    Standing cfg s' seq := by
  cases h with
  | waiting hlt hget hpos hnot =>
    exact .waiting (hnext ▸ hlt) (by rw [hpending, hhands, hget]) (hhands ▸ hpos) (htold.trans hnot)
  | confirmed hlt hget hnone hone =>
    exact .confirmed (hnext ▸ hlt) (hpending.trans hget) (hhands.trans hnone) (htold.trans hone)
  | unseen hle hget hnone hnot =>
    exact .unseen (hnext ▸ hle) (hpending.trans hget) (hhands.trans hnone) (htold.trans hnot)

theorem handsOf_congr (h : ∀ n, hands s' n seq = hands s n seq) :
    handsOf cfg s' seq = handsOf cfg s seq :=
  congrArg List.sum (List.map_congr_left fun n _ => h n)

theorem confirmedTimes_data {new : List QueuedOutput} (hentered : s'.entered = s.entered ++ new)
    (hnew : ∀ item ∈ new, item.output.kind = .data) (seq : Nat) :
    confirmedTimes s' seq = confirmedTimes s seq := by
  have hnone : (new.filter fun item => item.output.kind = .inputDone ∧ item.output.inputSeq = seq) =
      [] := by
    refine List.filter_eq_nil_iff.mpr fun item hitem => ?_
    simp [hnew item hitem]
  unfold confirmedTimes
  rw [hentered, List.filter_append, hnone, List.append_nil]

theorem Settled.same (h : Settled cfg inputs s) (hhands : ∀ n seq, hands s' n seq = hands s n seq)
    (hsame : (s'.pendingInputDone, s'.nextInput, s'.drains) =
      (s.pendingInputDone, s.nextInput, s.drains)) {new : List QueuedOutput}
    (hentered : s'.entered = s.entered ++ new) (hnew : ∀ item ∈ new, item.output.kind = .data) :
    Settled cfg inputs s' := by
  obtain ⟨hpending, hnext, hdrains⟩ : s'.pendingInputDone = s.pendingInputDone ∧
      s'.nextInput = s.nextInput ∧ s'.drains = s.drains := by
    simpa using hsame
  refine ⟨fun seq hseq => (h.standing seq hseq).same hnext (by rw [hpending])
    (handsOf_congr fun n => hhands n seq) ?_, fun n seq => (hhands n seq).le.trans (h.single n seq)⟩
  rw [told, told, confirmedTimes_data hentered hnew, drainsOf, drainsOf, hdrains]

theorem Settled.quiet (h : Settled cfg inputs s) (hhands : ∀ n seq, hands s' n seq = hands s n seq)
    (hsame : (s'.pendingInputDone, s'.nextInput, s'.drains) =
      (s.pendingInputDone, s.nextInput, s.drains))
    (hentered : s'.entered = s.entered) : Settled cfg inputs s' :=
  h.same hhands hsame (hentered.trans (List.append_nil _).symm) fun _ hitem => (by cases hitem)

/-! ### Inboxes -/

theorem hands_setInbox_same {n : String} {inbox : Inbox}
    (h : ∀ seq, (inbox.queued.filter fun item => item.clientSeq = some seq).length =
      ((s.inboxes n).queued.filter fun item => item.clientSeq = some seq).length) (m : String)
    (seq : Nat) : hands (s.setInbox n inbox) m seq = hands s m seq := by
  by_cases hm : m = n
  · subst hm
    have hself : (s.setInbox m inbox).inboxes m = inbox := Function.update_self _ _ _
    rw [hands, hands, hself, h]
    rfl
  · have hother : (s.setInbox n inbox).inboxes m = s.inboxes m := Function.update_of_ne hm _ _
    rw [hands, hands, hother]
    rfl

theorem length_filter_dropNode {inbox : Inbox} {source : String}
    (hsourced : ∀ item ∈ inbox.queued, item.IsSourced cfg) (hnode : source ≠ graphInput) (seq : Nat) :
    ((inbox.dropOldest source).queued.filter fun item => item.clientSeq = some seq).length =
      (inbox.queued.filter fun item => item.clientSeq = some seq).length := by
  change ((inbox.queued.eraseP fun item => item.source = source).filter _).length = _
  revert hsourced
  induction inbox.queued with
  | nil => exact fun _ => rfl
  | cons first rest ih =>
    intro hsourced
    by_cases hfirst : first.source = source
    · have hclient : first.clientSeq = none :=
        IsSourced.clientSeq (hsourced first List.mem_cons_self) (hfirst ▸ hnode)
      rw [List.eraseP_cons_of_pos (by simpa using hfirst),
        List.filter_cons_of_neg (by simp [hclient])]
    · have hrest := ih fun item hitem => hsourced item (List.mem_cons_of_mem _ hitem)
      rw [List.eraseP_cons_of_neg (by simpa using hfirst), List.filter_cons, List.filter_cons]
      split
      · rw [List.length_cons, List.length_cons, hrest]
      · exact hrest

theorem hands_put {target source : String} {chunk : TimedChunk} {via : Emission}
    (hsourced : ∀ item ∈ (s.inboxes target).queued, item.IsSourced cfg)
    (hnode : source ∈ cfg.graph.names)
    (hput : putGraphInbox cfg s target source chunk via = .done s') (n : String) (seq : Nat) :
    hands s' n seq = hands s n seq := by
  have hsource : source ≠ graphInput := fun h => cfg.valid.input_not_node (h ▸ hnode)
  rcases putGraphInbox_cases hput with ⟨-, rfl⟩ | ⟨-, -, rfl⟩ | ⟨-, -, -, rfl⟩
  · rfl
  · refine hands_setInbox_same (fun seq => ?_) n seq
    rw [length_filter_push rfl]
  · refine hands_setInbox_same (fun seq => ?_) n seq
    rw [length_filter_push rfl, length_filter_dropNode hsourced hsource]

theorem hands_fence {target : String} {turn : Turn} {ran : Ran}
    (hsourced : ∀ item ∈ (s.inboxes target).queued, item.IsSourced cfg)
    (hfence : fenceTurn cfg s target turn = ran) (n : String) (seq : Nat) :
    hands ran.state n seq = hands s n seq := by
  have hinboxes := (fenceTurn_inboxes hfence).1
  obtain ⟨_, _, _, _, _, _, _, hframe⟩ := fenceTurn_frame hfence
  have hsequences : ran.state.clientSequences = s.clientSequences := by
    rw [hframe]
  have hkept : hands (s.setInbox target ((s.inboxes target).fence turn)) n seq = hands s n seq := by
    refine hands_setInbox_same (fun seq => congrArg List.length ?_) n seq
    change ((s.inboxes target).queued.filter _).filter _ = _
    rw [List.filter_filter]
    refine List.filter_congr fun item hitem => ?_
    by_cases hclient : item.clientSeq = some seq
    · have hinput : item.source = graphInput := by
        by_contra hnot
        rw [IsSourced.clientSeq (hsourced item hitem) hnot] at hclient
        cases hclient
      simp [hclient, hinput]
    · simp [hclient]
  rw [← hkept, hands, hands, hinboxes, hsequences]
  rfl

/-! ### Confirmations -/

theorem confirmedTimes_confirm (cfg : Config) (s : State) (name : String) (chunk : TimedChunk) (seq : Nat) :
    confirmedTimes (s.confirm (confirmation cfg s name chunk)) seq =
      confirmedTimes s seq + if chunk.seq = seq then 1 else 0 := by
  have hentered : (s.confirm (confirmation cfg s name chunk)).entered =
      s.entered ++ [confirmation cfg s name chunk] := rfl
  unfold confirmedTimes
  rw [hentered, List.filter_append, List.length_append]
  by_cases hseq : chunk.seq = seq
  · simp [confirmation, inputDone, hseq]
  · simp [confirmation, inputDone, hseq]

theorem drainsOf_append (s : State) (name : String) (chunk : TimedChunk) (seq : Nat) :
    drainsOf { s with drains := s.drains ++ [(name, chunk)] } seq =
      drainsOf s seq + if chunk.seq = seq then 1 else 0 := by
  unfold drainsOf
  rw [List.filter_append, List.length_append]
  by_cases hseq : chunk.seq = seq
  · simp [hseq]
  · simp [hseq]

theorem confirmGraphInput_books {name : String} {chunk : TimedChunk}
    (h : confirmGraphInput cfg s name chunk = .ok t) :
    ∃ readers, s.pendingInputDone.get? chunk.seq = some readers ∧
      (∀ seq, t.pendingInputDone.get? seq =
        if seq = chunk.seq then (if readers = 1 then none else some (readers - 1))
        else s.pendingInputDone.get? seq) ∧
      ∀ seq, told t seq = told s seq + if seq = chunk.seq ∧ readers = 1 then 1 else 0 := by
  unfold confirmGraphInput at h
  simp only at h
  have hnoted : (if chunk.eos then { s with eosConfirmed := s.eosConfirmed.insert name }
      else s).pendingInputDone = s.pendingInputDone ∧
      ∀ seq, told (if chunk.eos then { s with eosConfirmed := s.eosConfirmed.insert name }
        else s) seq = told s seq := by
    split
    · exact ⟨rfl, fun _ => rfl⟩
    · exact ⟨rfl, fun _ => rfl⟩
  generalize (if chunk.eos then { s with eosConfirmed := s.eosConfirmed.insert name }
    else s) = noted at h hnoted
  obtain ⟨hpending, htold⟩ := hnoted
  split at h
  · cases h
  · next readers hreaders =>
    rw [hpending] at hreaders
    refine ⟨readers, hreaders, ?_⟩
    have hzero : readers - 1 = 0 ↔ readers = 1 := by omega
    split at h
    · next hlast =>
      have hone := hzero.mp hlast
      have herased : ∀ seq, (noted.pendingInputDone.erase chunk.seq).get? seq =
          if seq = chunk.seq then (if readers = 1 then none else some (readers - 1))
          else s.pendingInputDone.get? seq := by
        intro seq
        rw [Dict.get?_erase, if_pos hone, hpending]
      split at h
      · cases h
        refine ⟨herased, fun seq => ?_⟩
        have hdrains := drainsOf_append { noted with
          pendingInputDone := noted.pendingInputDone.erase chunk.seq } name chunk seq
        change confirmedTimes noted seq + drainsOf _ seq = _
        rw [hdrains, ← htold seq, told]
        change confirmedTimes noted seq + (drainsOf noted seq + _) = _
        by_cases hseq : seq = chunk.seq
        · simp [hseq, hone]
          omega
        · simp [hseq, Ne.symm hseq]
      · obtain ⟨-, -, rfl⟩ := emitGraphInputDone_ok h
        refine ⟨herased, fun seq => ?_⟩
        have htimes := confirmedTimes_confirm cfg { noted with
          pendingInputDone := noted.pendingInputDone.erase chunk.seq } name chunk seq
        change confirmedTimes _ seq + drainsOf noted seq = _
        rw [htimes, ← htold seq, told]
        change confirmedTimes noted seq + _ + _ = _
        by_cases hseq : seq = chunk.seq
        · simp [hseq, hone]
          omega
        · simp [hseq, Ne.symm hseq]
    · next hmore =>
      have hone : ¬ readers = 1 := fun h => hmore (hzero.mpr h)
      cases h
      refine ⟨fun seq => ?_, fun seq => ?_⟩
      · change (noted.pendingInputDone.set chunk.seq (readers - 1)).get? seq = _
        rw [Dict.get?_set, hpending, if_neg hone]
      · rw [if_neg fun h => hone h.2, Nat.add_zero, ← htold seq]
        rfl

theorem Standing.confirm {name : String} {chunk : TimedChunk} (h : Standing cfg s chunk.seq)
    (hran : confirmGraphInput cfg s' name chunk = .ok t)
    (hsame : (s'.pendingInputDone, s'.nextInput) = (s.pendingInputDone, s.nextInput))
    (htold : told s' chunk.seq = told s chunk.seq)
    (hless : handsOf cfg s' chunk.seq + 1 = handsOf cfg s chunk.seq) :
    Standing cfg t chunk.seq := by
  obtain ⟨hpending, hnext⟩ := Prod.mk.inj hsame
  obtain ⟨readers, hreaders, hget, hadded⟩ := confirmGraphInput_books hran
  have hhands : handsOf cfg t chunk.seq = handsOf cfg s' chunk.seq := by
    refine handsOf_congr fun n => ?_
    have hinboxes : t.inboxes = s'.inboxes := confirmGraphInput_inboxes hran
    have hsequences : t.clientSequences = s'.clientSequences := confirmGraphInput_sequences hran
    rw [hands, hands, hinboxes, hsequences]
  have hinput : t.nextInput = s.nextInput := (confirmGraphInput_inputs hran).2.trans hnext
  have hgetSelf := hget chunk.seq
  have haddedSelf := hadded chunk.seq
  rw [if_pos rfl] at hgetSelf
  rw [hpending] at hreaders
  cases h with
  | waiting hlt hwas hpos hnot =>
    have hcount : readers = (handsOf cfg s chunk.seq : Int) := by
      rw [hwas] at hreaders
      exact (Option.some.inj hreaders).symm
    by_cases hone : readers = 1
    · apply Standing.confirmed
      · omega
      · rw [hgetSelf, if_pos hone]
      · omega
      · rw [haddedSelf, if_pos ⟨rfl, hone⟩]
        omega
    · apply Standing.waiting
      · omega
      · rw [hgetSelf, if_neg hone, hcount]
        congr 1
        omega
      · omega
      · rw [haddedSelf, if_neg fun h => hone h.2]
        omega
  | confirmed hlt hwas hnone hone => omega
  | unseen hle hwas hnone hnot => omega

theorem Standing.confirm_other {name : String} {chunk : TimedChunk} (h : Standing cfg s' seq)
    (hran : confirmGraphInput cfg s' name chunk = .ok t) (hseq : seq ≠ chunk.seq) :
    Standing cfg t seq := by
  obtain ⟨readers, -, hget, hadded⟩ := confirmGraphInput_books hran
  have hinboxes : t.inboxes = s'.inboxes := confirmGraphInput_inboxes hran
  have hsequences : t.clientSequences = s'.clientSequences := confirmGraphInput_sequences hran
  apply h.same
  · exact (confirmGraphInput_inputs hran).2
  · rw [hget, if_neg hseq]
  · apply handsOf_congr
    intro n
    rw [hands, hands, hinboxes, hsequences]
  · rw [hadded, if_neg fun h => hseq h.1, Nat.add_zero]

theorem Settled.confirm (h : Settled cfg inputs s) {name : String} {chunk : TimedChunk}
    (hname : name ∈ cfg.graph.names) (hran : confirmGraphInput cfg s' name chunk = .ok t)
    (hchunk : inputs chunk.seq) (hsame : (s'.pendingInputDone, s'.nextInput, s'.drains, s'.entered) =
      (s.pendingInputDone, s.nextInput, s.drains, s.entered))
    (hother : ∀ n, n ≠ name → ∀ seq, hands s' n seq = hands s n seq)
    (hself : ∀ seq, hands s' name seq + (if seq = chunk.seq then 1 else 0) = hands s name seq) :
    Settled cfg inputs t := by
  obtain ⟨hpending, hnext, hdrains, hentered⟩ : s'.pendingInputDone = s.pendingInputDone ∧
      s'.nextInput = s.nextInput ∧ s'.drains = s.drains ∧ s'.entered = s.entered := by
    simpa using hsame
  have htold : ∀ seq, told s' seq = told s seq := fun seq => by
    rw [told, told, confirmedTimes, confirmedTimes, drainsOf, drainsOf, hdrains, hentered]
  have hsum : ∀ seq, handsOf cfg s' seq + (if seq = chunk.seq then 1 else 0) =
      handsOf cfg s seq := by
    intro seq
    have hchange : handsOf cfg s' seq + hands s name seq = handsOf cfg s seq + hands s' name seq :=
      sum_map_change cfg.graph.names_nodup hname fun n hn => hother n hn seq
    have hone := hself seq
    omega
  refine ⟨fun seq hin => ?_, fun n seq => ?_⟩
  · by_cases hseq : seq = chunk.seq
    · subst hseq
      have hless := hsum chunk.seq
      rw [if_pos rfl] at hless
      exact (h.standing chunk.seq hchunk).confirm hran (by rw [hpending, hnext]) (htold _) hless
    · have hkept := hsum seq
      rw [if_neg hseq, Nat.add_zero] at hkept
      exact ((h.standing seq hin).same hnext (by rw [hpending]) hkept (htold seq)).confirm_other hran hseq
  · have hinboxes : t.inboxes = s'.inboxes := confirmGraphInput_inboxes hran
    have hsequences : t.clientSequences = s'.clientSequences := confirmGraphInput_sequences hran
    have hone := h.single n seq
    rw [hands, hinboxes, hsequences]
    change hands s' n seq ≤ 1
    by_cases hn : n = name
    · subst hn
      have hless := hself seq
      omega
    · rw [hother n hn]
      exact hone

/-! ### Forwarding and routing -/

theorem length_filter_total (sequences : Dict Nat Nat) (seq : Nat) :
    ((sequences.entries.filter fun entry => entry.2 = seq).length : Int) =
      sequences.total fun v => if v = seq then 1 else 0 := by
  have hcount := Dict.countP_eq_total (fun v => decide (v = seq)) sequences
  rw [List.countP_eq_length_filter] at hcount
  simpa using hcount

theorem length_filter_set_new {sequences : Dict Nat Nat} {k : Nat} (h : sequences.get? k = none)
    (v seq : Nat) : ((sequences.set k v).entries.filter fun entry => entry.2 = seq).length =
      (sequences.entries.filter fun entry => entry.2 = seq).length + if v = seq then 1 else 0 := by
  have hset := Dict.total_set (fun v => if v = seq then 1 else 0) sequences k v
  rw [← length_filter_total, ← length_filter_total, h] at hset
  simp only [Option.elim_none] at hset
  split at hset
  · next hv =>
    rw [if_pos hv]
    omega
  · next hv =>
    rw [if_neg hv]
    omega

theorem length_filter_erase_eq {sequences : Dict Nat Nat} {k v : Nat}
    (h : sequences.get? k = some v) (seq : Nat) :
    ((sequences.erase k).entries.filter fun entry => entry.2 = seq).length +
      (if seq = v then 1 else 0) =
        (sequences.entries.filter fun entry => entry.2 = seq).length := by
  have herase := Dict.total_erase (fun v => if v = seq then 1 else 0) sequences k
  rw [← length_filter_total, ← length_filter_total, h] at herase
  simp only [Option.elim_some] at herase
  split at herase
  · next hv =>
    rw [if_pos hv.symm]
    omega
  · next hv =>
    rw [if_neg (Ne.symm hv)]
    omega

theorem ForwardMove.books {n : String} (h : ForwardMove cfg n s s') :
    (s'.pendingInputDone, s'.nextInput, s'.drains) = (s.pendingInputDone, s.nextInput, s.drains) ∧
      s'.entered = s.entered := by
  cases h <;> exact ⟨rfl, rfl⟩

theorem hands_forward {n : String} (happends : Appends cfg s n) (hmove : ForwardMove cfg n s s')
    (m : String) (seq : Nat) : hands s' m seq = hands s m seq := by
  have hpop : ∀ {item : InboxItem} {rest : List InboxItem}, (s.inboxes n).queued = item :: rest →
      item.clientSeq = none → hands (s.setInbox n ((s.inboxes n).pop item)) m seq =
        hands s m seq := by
    intro item rest hqueued hnode
    refine hands_setInbox_same (fun k => ?_) m seq
    change ((s.inboxes n).queued.tail.filter _).length = _
    rw [hqueued, List.tail_cons, List.filter_cons_of_neg (by simp [hnode])]
  cases hmove with
  | @rotate place item rest hplace hqueued heos hclient =>
    refine hands_setInbox_same (fun k => ?_) m seq
    rw [hqueued]
    exact ((List.perm_append_singleton item rest).filter _).length_eq
  | @whole place item rest session hplace hqueued haccept sequences hsequences =>
    by_cases hm : m = n
    · subst hm
      have hinbox : (((((s.setSession m session).setInbox m
          (((s.inboxes m).pop item).accept item)).setClientSequences m sequences).setForwarder m
          (.ready (place + 1))).inboxes m).queued = rest := by
        change (Function.update s.inboxes m _ m).queued = rest
        rw [Function.update_self]
        simp [Inbox.accept, Inbox.pop, hqueued]
      have hset : ((((s.setSession m session).setInbox m
          (((s.inboxes m).pop item).accept item)).setClientSequences m sequences).setForwarder m
          (.ready (place + 1))).clientSequences m = sequences := Function.update_self _ _ _
      rw [hands, hands, hinbox, hset, hqueued, List.filter_cons]
      cases hitem : item.clientSeq with
      | none =>
        rw [hitem] at hsequences
        simp only at hsequences
        rw [hsequences]
        simp
      | some clientSeq =>
        rw [hitem] at hsequences
        simp only at hsequences
        have hfresh : (s.clientSequences m).get? place = none := by
          have hplaced : place = (s.sessions m).nextInput := (append_accepted haccept).1
          by_contra hsome
          have hcontains : (s.clientSequences m).contains place = true :=
            Option.isSome_iff_ne_none.mpr hsome
          have hlt := happends.sequences place hcontains
          omega
        rw [hsequences, length_filter_set_new hfresh]
        by_cases hk : clientSeq = seq
        · simp [hk]
          omega
        · simp [hk]
    · have hother : ((((s.setSession n session).setInbox n
          (((s.inboxes n).pop item).accept item)).setClientSequences n sequences).setForwarder n
          (.ready (place + 1))).inboxes m = s.inboxes m := Function.update_of_ne hm _ _
      have hkept : ((((s.setSession n session).setInbox n
          (((s.inboxes n).pop item).accept item)).setClientSequences n sequences).setForwarder n
          (.ready (place + 1))).clientSequences m = s.clientSequences m := Function.update_of_ne hm _ _
      rw [hands, hands, hother, hkept]
  | start hplace hqueued hnode hfragment => exact hpop hqueued hnode
  | startFails hqueued hnode => exact hpop hqueued hnode
  | @last item fragment session hplace hwanted haccept =>
    have haccepted : hands (s.setInbox n ((s.inboxes n).accept item)) m seq = hands s m seq := by
      apply hands_setInbox_same
      intro k
      rfl
    exact haccepted
  | _ => rfl

theorem Settled.routeInputDone {n : String} (h : Settled cfg inputs s) (hnode : n ∈ cfg.graph.names)
    (output : OutputChunk) (hall : ∀ seq, inputs seq) (hopen : (routeInputDone cfg s n output).hasCloseTask = false) :
    Settled cfg inputs (routeInputDone cfg s n output) := by
  unfold Session.routeInputDone at hopen ⊢
  cases hget : (s.clientSequences n).get? output.inputSeq with
  | none => exact h
  | some clientSeq =>
    simp only [hget] at hopen ⊢
    have hself : (s.setClientSequences n ((s.clientSequences n).erase
        output.inputSeq)).clientSequences n = (s.clientSequences n).erase output.inputSeq :=
      Function.update_self _ _ _
    cases hran : confirmGraphInput cfg
      (s.setClientSequences n ((s.clientSequences n).erase output.inputSeq)) n
      (confirmedChunk output clientSeq) with
    | raised s₁ =>
      rw [hran] at hopen
      cases hopen
    | ok s₁ =>
      apply h.confirm hnode hran (hall _) rfl
      · intro m hm seq
        have hother : (s.setClientSequences n ((s.clientSequences n).erase
            output.inputSeq)).clientSequences m = s.clientSequences m :=
          Function.update_of_ne hm _ _
        rw [hands, hands, hother]
        rfl
      · intro seq
        have hless := length_filter_erase_eq hget seq
        rw [hands, hands, hself]
        change ((s.inboxes n).queued.filter fun item => item.clientSeq = some seq).length +
          (((s.clientSequences n).erase output.inputSeq).entries.filter
            fun entry => entry.2 = seq).length + (if seq = clientSeq then 1 else 0) = _
        omega

/-! ### Appends -/

theorem hands_of_confirm {name : String} {chunk : TimedChunk}
    (hran : confirmGraphInput cfg s name chunk = .ok t) (n : String) (seq : Nat) :
    hands t n seq = hands s n seq := by
  have hinboxes : t.inboxes = s.inboxes := confirmGraphInput_inboxes hran
  have hsequences : t.clientSequences = s.clientSequences := confirmGraphInput_sequences hran
  rw [hands, hands, hinboxes, hsequences]

/-- What the drops of an append leave of its own input, number `k`. -/
structure Untold (s t : State) (k : Nat) : Prop where
  next : t.nextInput = s.nextInput
  pending : t.pendingInputDone.get? k = s.pendingInputDone.get? k
  told : told t k = told s k
  hands : ∀ n, hands t n k ≤ hands s n k

theorem Settled.dropOldest {names : List String} {k : Nat}
    (hnames : ∀ n ∈ names, n ∈ cfg.graph.names) (h : Settled cfg (· ≠ k) s)
    (hsourced : ∀ n, ∀ item ∈ (s.inboxes n).queued, item.IsSourced cfg)
    (hnone : ∀ n, hands s n k = 0) (hran : dropOldestInputs cfg s names = .ok t) :
    Settled cfg (· ≠ k) t ∧ Untold s t k := by
  induction names generalizing s with
  | nil =>
    cases hran
    exact ⟨h, rfl, rfl, rfl, fun _ => le_rfl⟩
  | cons name rest ih =>
    unfold dropOldestInputs at hran
    cases hold : (s.inboxes name).oldest graphInput with
    | none =>
      rw [hold] at hran
      cases hran
    | some item =>
      simp only [hold] at hran
      have hclient := clientSeq_of_oldest (hsourced name) hold
      have hself : (s.setInbox name ((s.inboxes name).dropOldest graphInput)).inboxes name =
          (s.inboxes name).dropOldest graphInput := Function.update_self _ _ _
      have hdrop : ∀ seq, hands (s.setInbox name ((s.inboxes name).dropOldest graphInput)) name seq +
          (if seq = item.chunk.seq then 1 else 0) = hands s name seq := by
        intro seq
        rw [hands, hands, hself]
        change _ + ((s.clientSequences name).entries.filter _).length + _ = _
        by_cases hseq : seq = item.chunk.seq
        · rw [if_pos hseq]
          have hone := length_filter_dropOldest hold seq
          rw [if_pos (hclient.trans (congrArg some hseq.symm))] at hone
          omega
        · have hnone := length_filter_dropOldest hold seq
          rw [if_neg fun h => hseq (Option.some.inj (hclient.symm.trans h)).symm] at hnone
          rw [if_neg hseq]
          omega
      have hne : item.chunk.seq ≠ k := by
        rintro rfl
        have hone := hdrop item.chunk.seq
        rw [if_pos rfl, hnone name] at hone
        omega
      have hother : ∀ n, n ≠ name → ∀ seq,
          hands (s.setInbox name ((s.inboxes name).dropOldest graphInput)) n seq =
            hands s n seq := by
        intro n hn seq
        have hkept : (s.setInbox name ((s.inboxes name).dropOldest graphInput)).inboxes n =
            s.inboxes n := Function.update_of_ne hn _ _
        rw [hands, hands, hkept]
        rfl
      cases hconfirm : confirmGraphInput cfg
        (s.setInbox name ((s.inboxes name).dropOldest graphInput)) name item.chunk with
      | raised s₁ =>
        rw [hconfirm] at hran
        cases hran
      | ok s₁ =>
        simp only [hconfirm] at hran
        have hsettled : Settled cfg (· ≠ k) s₁ :=
          h.confirm (hnames name List.mem_cons_self) hconfirm hne rfl hother hdrop
        have hinboxes : s₁.inboxes =
            (s.setInbox name ((s.inboxes name).dropOldest graphInput)).inboxes :=
          confirmGraphInput_inboxes hconfirm
        have hhands : ∀ n, hands s₁ n k ≤ hands s n k := by
          intro n
          rw [hands_of_confirm hconfirm]
          by_cases hn : n = name
          · subst hn
            have hone := hdrop k
            omega
          · exact (hother n hn k).le
        obtain ⟨readers, -, hget, hadded⟩ := confirmGraphInput_books hconfirm
        obtain ⟨hend, huntold⟩ := ih (fun n hn => hnames n (List.mem_cons_of_mem _ hn)) hsettled
          (by
            rw [hinboxes]
            exact sourced_setInbox hsourced graphInput)
          (fun n => Nat.le_zero.mp ((hhands n).trans (hnone n).le)) hran
        refine ⟨hend, ?_, ?_, ?_, fun n => (huntold.hands n).trans (hhands n)⟩
        · exact huntold.next.trans (confirmGraphInput_inputs hconfirm).2
        · rw [huntold.pending, hget, if_neg (Ne.symm hne)]
          rfl
        · rw [huntold.told, hadded, if_neg fun h => hne h.1.symm, Nat.add_zero]
          rfl

theorem Settled.hand {readers : List String} {chunk : TimedChunk}
    (hnodup : readers.Nodup) (hreaders : ∀ n ∈ readers, n ∈ cfg.graph.names)
    (h : Settled cfg (· ≠ chunk.seq) s) (hseq : chunk.seq = s.nextInput)
    (hnone : ∀ n, hands s n chunk.seq = 0)
    (hbooks : if readers.isEmpty then
        s.pendingInputDone.get? chunk.seq = none ∧ told s chunk.seq = 1
      else s.pendingInputDone.get? chunk.seq = some (readers.length : Int) ∧
        told s chunk.seq = 0) :
    Settled cfg (fun _ => True) ((s.handInput readers chunk).noteInput chunk) := by
  have hhands := hands_handInput (s := s) readers chunk
  have hnext : ((s.handInput readers chunk).noteInput chunk).nextInput = s.nextInput + 1 := rfl
  refine ⟨fun seq _ => ?_, fun n seq => ?_⟩
  · by_cases hsame : seq = chunk.seq
    · subst hsame
      have htotal : handsOf cfg ((s.handInput readers chunk).noteInput chunk) chunk.seq =
          readers.length := by
        have hfilter : (cfg.graph.names.filter fun n => readers.contains n).length =
            readers.length := by
          apply List.Perm.length_eq
          apply (List.perm_ext_iff_of_nodup (cfg.graph.names_nodup.filter _) hnodup).mpr
          intro n
          rw [List.mem_filter, List.contains_iff_mem]
          exact ⟨fun hn => hn.2, fun hn => ⟨hreaders n hn, hn⟩⟩
        rw [← hfilter, ← sum_ite_length fun n => readers.contains n]
        refine congrArg List.sum (List.map_congr_left fun n _ => ?_)
        rw [hhands, hnone]
        simp
      split at hbooks
      · next hempty =>
        apply Standing.confirmed
        · omega
        · exact hbooks.1
        · rw [htotal, List.isEmpty_iff.mp hempty]
          rfl
        · exact hbooks.2
      · next hsome =>
        apply Standing.waiting
        · omega
        · rw [htotal]
          exact hbooks.1
        · rw [htotal]
          exact List.length_pos_iff.mpr fun hnil => hsome (List.isEmpty_iff.mpr hnil)
        · exact hbooks.2
    · have hkept : handsOf cfg ((s.handInput readers chunk).noteInput chunk) seq =
          handsOf cfg s seq := by
        apply handsOf_congr
        intro n
        rw [hhands, if_neg fun hboth => hsame hboth.2, Nat.add_zero]
      cases h.standing seq hsame with
      | waiting hlt hpending hpos htold =>
        apply Standing.waiting
        · omega
        · rw [hkept]
          exact hpending
        · rw [hkept]
          exact hpos
        · exact htold
      | confirmed hlt hpending hzero htold =>
        apply Standing.confirmed
        · omega
        · exact hpending
        · exact hkept.trans hzero
        · exact htold
      | unseen hle hpending hzero htold =>
        apply Standing.unseen
        · omega
        · exact hpending
        · exact hkept.trans hzero
        · exact htold
  · rw [hhands]
    split
    · next hboth =>
      rw [hboth.2, hnone n]
    · exact h.single n seq

theorem Settled.append {chunk : TimedChunk} (h : Settled cfg (fun _ => True) s)
    (howed : Owed cfg s) (hsourced : ∀ n, ∀ item ∈ (s.inboxes n).queued, item.IsSourced cfg)
    (happend : appendGraph cfg s chunk = some (.ok t)) : Settled cfg (fun _ => True) t := by
  obtain ⟨-, hseq⟩ := endInput_of_accepted (appendGraph_checked happend).1
  obtain ⟨noted, dropped, hnoted, hdropped, rfl⟩ := appendGraph_ok happend
  have hnone : ∀ n, hands s n chunk.seq = 0 := fun n => howed.below n _ (by omega)
  obtain ⟨hpending, htold⟩ : s.pendingInputDone.get? chunk.seq = none ∧ told s chunk.seq = 0 := by
    cases h.standing chunk.seq trivial with
    | waiting hlt => omega
    | confirmed hlt => omega
    | unseen hle hpending hzero htold => exact ⟨hpending, htold⟩
  have hinboxes : noted.inboxes = s.inboxes := noteReaders_inboxes hnoted
  have hnextNoted : noted.nextInput = s.nextInput := (noteReaders_inputs hnoted).2
  -- the append's own input first: it waits for its readers, or it is confirmed
  obtain ⟨hnotedSettled, hnotedHands, hbooks⟩ : Settled cfg (· ≠ chunk.seq) noted ∧
      (∀ n seq, hands noted n seq = hands s n seq) ∧
      if (cfg.graph.readingNodes graphInput chunk.format).isEmpty then
        noted.pendingInputDone.get? chunk.seq = none ∧ told noted chunk.seq = 1
      else noted.pendingInputDone.get? chunk.seq =
          some ((cfg.graph.readingNodes graphInput chunk.format).length : Int) ∧
        told noted chunk.seq = 0 := by
    unfold noteReaders at hnoted
    simp only at hnoted
    split at hnoted
    · next hempty =>
      obtain ⟨-, -, rfl⟩ := emitGraphInputDone_ok hnoted
      have hadded : ∀ seq, told (s.confirm (confirmation cfg s graphInput chunk)) seq =
          told s seq + if chunk.seq = seq then 1 else 0 := by
        intro seq
        rw [told, confirmedTimes_confirm, told]
        change confirmedTimes s seq + _ + drainsOf s seq = _
        omega
      refine ⟨⟨fun seq hne => ?_, h.single⟩, fun _ _ => rfl, ?_⟩
      · refine (h.standing seq trivial).same rfl rfl rfl ?_
        rw [hadded, if_neg (Ne.symm hne), Nat.add_zero]
      · rw [if_pos hempty]
        refine ⟨hpending, ?_⟩
        rw [hadded, if_pos rfl, htold]
    · next hempty =>
      cases hnoted
      refine ⟨⟨fun seq hne => ?_, h.single⟩, fun _ _ => rfl, ?_⟩
      · refine (h.standing seq trivial).same rfl ?_ rfl rfl
        change (s.pendingInputDone.set chunk.seq _).get? seq = _
        rw [Dict.get?_set, if_neg hne]
      · rw [if_neg hempty]
        exact ⟨Dict.get?_set_self _ _ _, htold⟩
  have hnotedNone : ∀ n, hands noted n chunk.seq = 0 := fun n =>
    (hnotedHands n chunk.seq).trans (hnone n)
  obtain ⟨hdroppedSettled, huntold⟩ := hnotedSettled.dropOldest fullReaders_names
    (by
      rw [hinboxes]
      exact hsourced) hnotedNone hdropped
  apply Settled.hand (cfg.graph.readingNodes_nodup graphInput chunk.format)
    (fun n hn => cfg.graph.readingNodes_subset hn) hdroppedSettled
  · rw [huntold.next, hnextNoted, hseq]
  · exact fun n => Nat.le_zero.mp ((huntold.hands n).trans (hnotedNone n).le)
  · rw [huntold.pending, huntold.told]
    exact hbooks

/-! ### Runs -/

structure Orderly (cfg : Config) (s : State) : Prop where
  counted : Counted cfg s
  appends : ∀ n, Appends cfg s n
  after : After cfg (fun _ => 0) [] s
  settled : s.hasCloseTask = false → Settled cfg (fun _ => True) s

theorem publishedOutput_data {n : String} {output : OutputChunk} {size : Nat} (s : State)
    (h : output.kind = .data) :
    ∀ item ∈ [publishedOutput cfg s n output size], item.output.kind = .data := by
  intro item hitem
  rw [List.mem_singleton.mp hitem]
  exact h

theorem Settled.route {n : String} (h : Settled cfg (fun _ => True) s)
    (hafter : After cfg (fun _ => 0) [] s) (hnode : n ∈ cfg.graph.names)
    (hsourced : ∀ n, ∀ item ∈ (s.inboxes n).queued, item.IsSourced cfg)
    (hmove : RouteMove cfg n s s') (hopen : s'.hasCloseTask = false) :
    Settled cfg (fun _ => True) s' := by
  have hcarried : ∀ {output}, s.routers n = .putting output [] → output.kind = .data := by
    intro output hplace
    exact (hafter.carried n hnode output (by rw [hplace]; rfl)).1
  cases hmove with
  | @confirm output size rest hplace houtputs hdone =>
    have hpop : Settled cfg (fun _ => True) (s.popOutput n rest size) :=
      h.quiet (fun _ _ => rfl) rfl rfl
    exact hpop.routeInputDone hnode output (fun _ => trivial) hopen
  | @data output hplace htargets =>
    obtain ⟨outputEndMs, replyStartMs, hclock⟩ := routeClock_eq cfg s n output
    rw [hclock]
    exact h.quiet (fun _ _ => rfl) rfl rfl
  | @put output reader rest s₁ hplace hput =>
    obtain ⟨inbox, hinbox⟩ := putGraphInbox_inboxes hput
    have hhands := hands_put (hsourced reader) hnode hput
    exact h.quiet hhands (by rw [hinbox]; rfl) (by rw [hinbox]; rfl)
  | publish hplace hbudget hpaced hroom =>
    exact h.same (fun _ _ => rfl) rfl rfl (publishedOutput_data s (hcarried hplace))
  | @unblock item hplace hroom =>
    have hdata : ∀ other ∈ [item], other.output.kind = .data := by
      intro other hother
      rw [List.mem_singleton.mp hother]
      exact (hafter.publishing n hnode item hplace).2.1
    exact h.same (fun _ _ => rfl) rfl rfl hdata
  | fail => cases hopen
  | _ => exact h.quiet (fun _ _ => rfl) rfl rfl

theorem Settled.deliver {n : String} (h : Settled cfg (fun _ => True) s)
    (hafter : After cfg (fun _ => 0) [] s) (hnode : n ∈ cfg.graph.names)
    (hpaced : cfg.graph.isPaced n = true)
    (hsourced : ∀ n, ∀ item ∈ (s.inboxes n).queued, item.IsSourced cfg)
    (hmove : DeliverMove cfg n s s') (hopen : s'.hasCloseTask = false) :
    Settled cfg (fun _ => True) s' := by
  cases hmove with
  | @put output reader rest s₁ hplace hput =>
    obtain ⟨inbox, hinbox⟩ := putGraphInbox_inboxes hput
    have hhands := hands_put (hsourced reader) hnode hput
    exact h.quiet hhands (by rw [hinbox]; rfl) (by rw [hinbox]; rfl)
  | @send output size rest next hplace hunsent =>
    have hdata : output.kind = .data := by
      refine (hafter.paced n hnode hpaced (output, size) (List.mem_append_right _ ?_)).1
      rw [hunsent]
      exact List.mem_cons_self
    exact h.same (fun _ _ => rfl) rfl rfl (publishedOutput_data s hdata)
  | releaseFails => cases hopen
  | fail => cases hopen
  | _ => exact h.quiet (fun _ _ => rfl) rfl rfl

theorem Settled.drain {i : Nat} {name : String} {chunk : TimedChunk}
    (h : Settled cfg (fun _ => True) s) (htask : s.drains[i]? = some (name, chunk))
    (hemit : emitGraphInputDone cfg { s with drains := s.drains.eraseIdx i } name chunk = .ok s') :
    Settled cfg (fun _ => True) s' := by
  obtain ⟨-, -, rfl⟩ := emitGraphInputDone_ok hemit
  refine ⟨fun seq _ => (h.standing seq trivial).same rfl rfl rfl ?_, h.single⟩
  rw [told, confirmedTimes_confirm, told]
  change confirmedTimes s seq + _ + ((s.drains.eraseIdx i).filter _).length =
    confirmedTimes s seq + (s.drains.filter _).length
  have hperm : s.drains.Perm ((name, chunk) :: s.drains.eraseIdx i) := by
    obtain ⟨hlt, hget⟩ := List.getElem?_eq_some_iff.mp htask
    have herase := List.getElem_cons_eraseIdx_perm hlt
    rw [hget] at herase
    exact herase.symm
  have hlength := (hperm.filter fun drain => decide (drain.2.seq = seq)).length_eq
  rw [hlength]
  by_cases hseq : chunk.seq = seq
  · rw [if_pos hseq, List.filter_cons_of_pos (by simpa using hseq), List.length_cons]
    omega
  · rw [if_neg hseq, List.filter_cons_of_neg (by simpa using hseq), Nat.add_zero]

theorem Orderly.move (h : Orderly cfg s) (hmove : Move cfg a s s')
    (hother : ∀ chunk, a ≠ .append chunk) : Orderly cfg s' := by
  refine ⟨h.counted.move hmove, fun n => (h.appends n).move hmove, h.after.move hmove,
    fun hopen => ?_⟩
  have hwas := (CloseKept.move hmove).was_open hopen
  have hsettled := h.settled hwas
  have hsourced := fun n => (h.counted.edges n).sourced
  have hrunning : s.isClosing = false := by
    by_contra hclosing
    rw [h.counted.closes (Bool.not_eq_false _ ▸ hclosing)] at hwas
    cases hwas
  cases hmove with
  | @report _ _ _ reader target turn audioMs hnode hput =>
    obtain ⟨inbox, hinbox⟩ := putGraphInbox_inboxes hput
    exact hsettled.quiet (hands_put (hsourced reader) hnode hput) (by rw [hinbox]; rfl) (by rw [hinbox]; rfl)
  | @fence _ _ _ target turn hother hnode hfence =>
    obtain ⟨_, _, _, _, _, _, _, hframe⟩ := fenceTurn_frame hfence
    have hhands := hands_fence (hsourced target) hfence
    change s' = _ at hframe
    exact hsettled.quiet hhands (by rw [hframe]) (by rw [hframe])
  | @fenceRaises _ _ _ target turn hfence =>
    obtain ⟨_, _, _, _, _, _, _, hframe⟩ := fenceTurn_frame hfence
    have hhands := hands_fence (hsourced target) hfence
    change s' = _ at hframe
    exact hsettled.quiet hhands (by rw [hframe]) (by rw [hframe])
  | append => exact absurd rfl (hother _)
  | appendRaises => exact absurd rfl (hother _)
  | read hread =>
    obtain ⟨_, _, _, _, rfl⟩ := readOutput_frame hread
    exact hsettled.quiet (fun _ _ => rfl) rfl rfl
  | @forward _ _ n hnode hmove =>
    obtain ⟨hbooks, hentered⟩ := hmove.books
    exact hsettled.quiet (hands_forward (h.appends n) hmove) hbooks hentered
  | route hnode hmove => exact hsettled.route h.after hnode hsourced hmove hopen
  | deliver hnode hpaced hmove => exact hsettled.deliver h.after hnode hpaced hsourced hmove hopen
  | drain htask _ hemit => exact hsettled.drain htask hemit
  | stopDrain => cases hopen
  | stopForwarder => cases hopen
  | close => cases hopen
  | startClose hbegun => exact absurd hbegun (by rw [hwas]; decide)
  | cancel hclosing => exact absurd hclosing (by rw [hrunning]; decide)
  | finishClose hclosing => exact absurd hclosing (by rw [hrunning]; decide)
  | _ => exact hsettled.quiet (fun _ _ => rfl) rfl rfl

theorem Orderly.initial : Orderly cfg .initial where
  counted := by
    refine ⟨fun m => .initial m, fun hclosing => ?_, fun _ _ hget => ?_, fun _ _ _ => rfl⟩
    · cases hclosing
    · cases hget
  appends n := .initial n
  after := .initial
  settled _ := by
    refine ⟨fun seq _ => .unseen (Nat.zero_le _) rfl ?_ rfl, fun _ _ => Nat.zero_le _⟩
    exact List.sum_eq_zero fun x hx => by
      obtain ⟨n, -, rfl⟩ := List.mem_map.mp hx
      rfl

/-- The condition on a step: an append has bytes for the confirmations of the inputs that it drops. -/
def AppendFits (cfg : Config) (s : State) (a : Action) : Prop :=
  ∀ chunk, a = .append chunk → dropsFit cfg s chunk

theorem Orderly.step (h : Orderly cfg s) (hfits : AppendFits cfg s a)
    (hstep : step cfg s a = some s') : Orderly cfg s' := by
  by_cases happend : ∃ chunk, a = .append chunk
  · obtain ⟨chunk, rfl⟩ := happend
    have hperform : (appendGraph cfg s chunk).map Ran.state = some s' := by
      have hperformed := hstep
      unfold Session.step at hperformed
      split at hperformed
      · rw [← hperformed]
        change _ = (appendGraph cfg s chunk).map _
        congr 1
      · cases hperformed
    obtain ⟨ran, hran, hstate⟩ := Option.map_eq_some_iff.mp hperform
    cases ran with
    | raised s₁ =>
      have hsame := (h.counted.raised_unchanged chunk).mpr (hfits chunk rfl) s₁ hran
      change s₁ = s' at hstate
      rw [← hstate, hsame]
      exact h
    | ok s₁ =>
      change s₁ = s' at hstate
      subst hstate
      have hmove : Move cfg (.append chunk) s s₁ := .append hran
      refine ⟨h.counted.move hmove, fun n => (h.appends n).move hmove, h.after.move hmove,
        fun hopen => ?_⟩
      have hwas := (CloseKept.move hmove).was_open hopen
      exact (h.settled hwas).append h.counted.owed (fun n => (h.counted.edges n).sourced) hran
  · push Not at happend
    exact step_invariant (fun _ _ hs hmove => hs.move hmove happend) hstep h

theorem orderly_of_reaches (h : (machine cfg).Reaches (AppendFits cfg) s) : Orderly cfg s :=
  h.invariant .initial fun _ _ _ hs hfits hstep => hs.step hfits hstep

/-- Whether node `n` has the client's input `seq`, in its inbox or unconfirmed in its session. -/
def holdsInput (s : State) (seq : Nat) (n : String) : Bool :=
  ((s.inboxes n).queued.any fun item => item.clientSeq = some seq) ||
    (s.clientSequences n).entries.any fun entry => entry.2 = seq

theorem hands_pos_iff (s : State) (seq : Nat) (n : String) : 0 < hands s n seq ↔ holdsInput s seq n = true := by
  unfold hands holdsInput
  rw [Nat.add_pos_iff_pos_or_pos, List.length_pos_iff, List.length_pos_iff, Bool.or_eq_true,
    List.any_eq_true, List.any_eq_true]
  simp only [ne_eq, List.filter_eq_nil_iff, not_forall, not_not, exists_prop]

theorem Settled.handsOf_eq (h : Settled cfg inputs s) (seq : Nat) :
    handsOf cfg s seq = (cfg.graph.names.filter (holdsInput s seq)).length := by
  rw [← sum_ite_length]
  refine congrArg List.sum (List.map_congr_left fun n _ => ?_)
  have hone := h.single n seq
  have hpos := hands_pos_iff s seq n
  by_cases hholds : holdsInput s seq n = true
  · rw [if_pos hholds]
    have hsome := hpos.mpr hholds
    omega
  · rw [if_neg hholds]
    have hnone : ¬ 0 < hands s n seq := fun hsome => hholds (hpos.mp hsome)
    omega

/-- In every run whose appends have bytes for the confirmations of the inputs that they drop, as long
as the graph does not close: an input is confirmed at most once; `pending_input_done` is the number of
the nodes that have it and never zero; and an accepted input that it does not hold was confirmed, or
it is the end of the input and a drain will confirm it. -/
theorem inputs_confirmed_once (h : (machine cfg).Reaches (AppendFits cfg) s)
    (hopen : s.hasCloseTask = false) (seq : Nat) :
    confirmedTimes s seq ≤ 1 ∧
    (∀ readers, s.pendingInputDone.get? seq = some readers →
      readers = ((cfg.graph.names.filter (holdsInput s seq)).length : Int) ∧ 0 < readers) ∧
    (s.pendingInputDone.get? seq = none → ∀ n ∈ cfg.graph.names, holdsInput s seq n = false) ∧
    (seq < s.nextInput → (s.pendingInputDone.get? seq = none ↔
      confirmedTimes s seq = 1 ∨ ∃ drain ∈ s.drains, drain.2.seq = seq)) := by
  have hsettled := (orderly_of_reaches h).settled hopen
  have hdrains : (∃ drain ∈ s.drains, drain.2.seq = seq) ↔ 0 < drainsOf s seq := by
    unfold drainsOf
    rw [List.length_pos_iff, ne_eq, List.filter_eq_nil_iff]
    simp
  have hnobody : handsOf cfg s seq = 0 → ∀ n ∈ cfg.graph.names, holdsInput s seq n = false := by
    intro hzero n hn
    rw [hsettled.handsOf_eq, List.length_eq_zero_iff, List.filter_eq_nil_iff] at hzero
    exact Bool.eq_false_iff.mpr (hzero n hn)
  cases hsettled.standing seq trivial with
  | waiting hlt hpending hpos htold =>
    rw [told] at htold
    refine ⟨by omega, fun readers hget => ?_, fun hnone => ?_, fun _ => ?_⟩
    · rw [hpending] at hget
      cases hget
      rw [← hsettled.handsOf_eq]
      exact ⟨rfl, by exact_mod_cast hpos⟩
    · rw [hpending] at hnone
      cases hnone
    · rw [hpending, hdrains]
      constructor
      · intro hnone
        cases hnone
      · omega
  | confirmed hlt hpending hzero htold =>
    rw [told] at htold
    refine ⟨by omega, fun readers hget => ?_, fun _ => hnobody hzero, fun _ => ?_⟩
    · rw [hpending] at hget
      cases hget
    · rw [hdrains]
      constructor
      · omega
      · exact fun _ => hpending
  | unseen hle hpending hzero htold =>
    rw [told] at htold
    refine ⟨by omega, fun readers hget => ?_, fun _ => hnobody hzero, fun hlt => ?_⟩
    · rw [hpending] at hget
      cases hget
    · omega

def appendFitsCheck (cfg : Config) (s : State) : Action → Bool
  | .append chunk =>
    !(inputAccepted cfg s chunk && appendHasRoom cfg s chunk) ||
      (confirmedDrops s [] (fullReaders cfg s chunk)).isEmpty ||
      decide (s.outputBytes +
        confirmationBytes cfg s s.nextOutput (confirmedDrops s [] (fullReaders cfg s chunk)) ≤
          cfg.limits.maxOutputBytes)
  | _ => true

theorem appendFits_of_check (h : appendFitsCheck cfg s a = true) : AppendFits cfg s a := by
  rintro chunk rfl haccepted hroom hconfirms
  simp only [appendFitsCheck, haccepted, hroom, Bool.and_self, Bool.not_true, Bool.false_or,
    Bool.or_eq_true, List.isEmpty_iff, decide_eq_true_eq] at h
  exact h.resolve_left hconfirms

/-- The second frame replaces the first, which is confirmed. -/
theorem inputs_confirmed_once_frames : ∃ s,
    (machine cameraConfig).execWhere (appendFitsCheck cameraConfig) .initial
      [.append (cameraFrame 0), .append (cameraFrame 1)] = some s ∧
    confirmedTimes s 0 = 1 ∧ s.pendingInputDone.get? 1 = some 1 ∧
    (cameraConfig.graph.names.filter (holdsInput s 1)).length = 1 := by
  have hrun : ((machine cameraConfig).execWhere (appendFitsCheck cameraConfig) .initial
      [.append (cameraFrame 0), .append (cameraFrame 1)]).map (fun s =>
        (s.hasCloseTask, s.nextInput, s.pendingInputDone.get? 0, s.pendingInputDone.get? 1,
          s.drains.length)) = some (false, 2, none, some 1, 0) := by decide +kernel
  obtain ⟨s, hs, hsame⟩ := Option.map_eq_some_iff.mp hrun
  simp only [Prod.mk.injEq, List.length_eq_zero_iff] at hsame
  obtain ⟨hopen, hnext, hfirst, hsecond, hdrains⟩ := hsame
  have hreaches : (machine cameraConfig).Reaches (AppendFits cameraConfig) s :=
    Machine.path_of_execWhere (fun _ _ h => appendFits_of_check h) hs
  obtain ⟨-, -, -, hdone⟩ := inputs_confirmed_once hreaches hopen 0
  obtain ⟨-, hcount, -, -⟩ := inputs_confirmed_once hreaches hopen 1
  refine ⟨s, hs, ?_, hsecond, ?_⟩
  · rcases (hdone (by omega)).mp hfirst with hone | ⟨drain, hmem, -⟩
    · exact hone
    · rw [hdrains] at hmem
      cases hmem
  · have hone := (hcount 1 hsecond).1
    omega

/-- The third frame takes the second from the node and raises: the second is never confirmed, and the
third is counted, though no node has it. -/
theorem inputs_unconfirmed_after_raise : ∃ s,
    (machine cameraConfig).exec .initial
      [.append (cameraFrame 0), .append (cameraFrame 1), .append (cameraFrame 2)] = some s ∧
    s.hasCloseTask = false ∧ s.nextInput = 2 ∧ s.pendingInputDone.get? 1 = none ∧
    confirmedTimes s 1 = 0 ∧ s.drains = [] ∧ s.pendingInputDone.get? 2 = some 1 ∧
    holdsInput s 2 "watch" = false := by
  have hrun : ((machine cameraConfig).exec .initial
      [.append (cameraFrame 0), .append (cameraFrame 1), .append (cameraFrame 2)]).map (fun s =>
        ((s.hasCloseTask, s.nextInput, s.pendingInputDone.get? 1, confirmedTimes s 1),
          (s.drains.length, s.pendingInputDone.get? 2, holdsInput s 2 "watch"))) =
      some ((false, 2, none, 0), (0, some 1, false)) := by decide +kernel
  obtain ⟨s, hs, hsame⟩ := Option.map_eq_some_iff.mp hrun
  simp only [Prod.mk.injEq, List.length_eq_zero_iff] at hsame
  obtain ⟨⟨hopen, hnext, hfirst, htimes⟩, hdrains, hsecond, hnobody⟩ := hsame
  exact ⟨s, hs, hopen, hnext, hfirst, htimes, hdrains, hsecond, hnobody⟩

end Session
