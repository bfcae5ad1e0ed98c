import Mathlib.Algebra.Order.BigOperators.Group.List
import SglangOmni.Lib.Sum
import SglangOmni.Session.Edges

/-! The readers of a client's input.  `pending_input_done` counts at least the nodes whose inbox holds
the input and those whose session took it and has not confirmed it, in every run. -/

namespace Session

open Lib Proto Relation

variable {cfg : Config} {a : Action} {s s' : State}

/-- How often node `n` has the client's input `seq`, in its inbox or unconfirmed in its session. -/
def hands (s : State) (n : String) (seq : Nat) : Nat :=
  ((s.inboxes n).queued.filter fun item => item.clientSeq = some seq).length +
    ((s.clientSequences n).entries.filter fun entry => entry.2 = seq).length

def handsOf (cfg : Config) (s : State) (seq : Nat) : Nat :=
  (cfg.graph.names.map fun n => hands s n seq).sum

/-- No input has more hands than are counted, and none that is to come has any. -/
structure Owed (cfg : Config) (s : State) : Prop where
  owed : ∀ seq readers, s.pendingInputDone.get? seq = some readers →
    (handsOf cfg s seq : Int) ≤ readers
  below : ∀ n seq, s.nextInput ≤ seq → hands s n seq = 0

/-! ### Fewer hands -/

theorem handsOf_le {seq : Nat} (h : ∀ n, hands s' n seq ≤ hands s n seq) :
    handsOf cfg s' seq ≤ handsOf cfg s seq :=
  List.sum_le_sum fun n _ => h n

theorem Owed.fewer (h : Owed cfg s) (hpending : s'.pendingInputDone = s.pendingInputDone)
    (hnext : s'.nextInput = s.nextInput) (hhands : ∀ n seq, hands s' n seq ≤ hands s n seq) :
    Owed cfg s' := by
  refine ⟨fun seq readers hget => ?_, fun n seq hseq => ?_⟩
  · rw [hpending] at hget
    have howed := h.owed seq readers hget
    have hle : handsOf cfg s' seq ≤ handsOf cfg s seq := handsOf_le fun n => hhands n seq
    omega
  · rw [hnext] at hseq
    have hnone := h.below n seq hseq
    have hle := hhands n seq
    omega

theorem Owed.same (h : Owed cfg s)
    (hsame : (s'.inboxes, s'.clientSequences, s'.pendingInputDone, s'.nextInput) =
      (s.inboxes, s.clientSequences, s.pendingInputDone, s.nextInput)) : Owed cfg s' := by
  obtain ⟨hinboxes, hsequences, hpending, hnext⟩ :
      s'.inboxes = s.inboxes ∧ s'.clientSequences = s.clientSequences ∧
        s'.pendingInputDone = s.pendingInputDone ∧ s'.nextInput = s.nextInput := by
    simpa using hsame
  refine h.fewer hpending hnext fun n seq => ?_
  rw [hands, hands, hinboxes, hsequences]

theorem hands_le {n : String} {seq : Nat}
    (hqueued : ((s'.inboxes n).queued.filter fun item => item.clientSeq = some seq).length ≤
      ((s.inboxes n).queued.filter fun item => item.clientSeq = some seq).length)
    (hsequences : s'.clientSequences n = s.clientSequences n) : hands s' n seq ≤ hands s n seq := by
  unfold hands
  rw [hsequences]
  omega

theorem hands_setInbox {n m : String} {inbox : Inbox} {seq : Nat}
    (h : (inbox.queued.filter fun item => item.clientSeq = some seq).length ≤
      ((s.inboxes n).queued.filter fun item => item.clientSeq = some seq).length) :
    hands (s.setInbox n inbox) m seq ≤ hands s m seq := by
  refine hands_le ?_ rfl
  by_cases hm : m = n
  · subst hm
    have hself : (s.setInbox m inbox).inboxes m = inbox := Function.update_self _ _ _
    rw [hself]
    exact h
  · have hother : (s.setInbox n inbox).inboxes m = s.inboxes m := Function.update_of_ne hm _ _
    rw [hother]

theorem length_filter_sublist {items items' : List InboxItem} (h : items'.Sublist items)
    (seq : Nat) :
    (items'.filter fun item => item.clientSeq = some seq).length ≤
      (items.filter fun item => item.clientSeq = some seq).length :=
  (h.filter _).length_le

theorem length_filter_push {inbox : Inbox} {item : InboxItem} (h : item.clientSeq = none)
    (seq : Nat) :
    ((inbox.push item).queued.filter fun item => item.clientSeq = some seq).length =
      (inbox.queued.filter fun item => item.clientSeq = some seq).length := by
  simp [Inbox.push, h]

theorem Owed.put (h : Owed cfg s) {target source : String} {chunk : TimedChunk} {via : Emission}
    (hput : putGraphInbox cfg s target source chunk via = .done s') : Owed cfg s' := by
  rcases putGraphInbox_cases hput with ⟨-, rfl⟩ | ⟨-, -, rfl⟩ | ⟨-, -, -, rfl⟩
  · exact h
  · refine h.fewer rfl rfl fun n seq => hands_setInbox ?_
    rw [length_filter_push rfl]
  · refine h.fewer rfl rfl fun n seq => hands_setInbox ?_
    rw [length_filter_push rfl]
    exact length_filter_sublist (dropOldest_sublist _ _) seq

theorem Owed.fence (h : Owed cfg s) {target : String} {turn : Turn} {ran : Ran}
    (hfence : fenceTurn cfg s target turn = ran) : Owed cfg ran.state := by
  have hinboxes := (fenceTurn_inboxes hfence).1
  obtain ⟨_, _, _, _, _, _, _, hframe⟩ := fenceTurn_frame hfence
  have hinterrupted : Owed cfg (s.interruptTurn target turn) :=
    h.fewer rfl rfl fun n seq => hands_setInbox (length_filter_sublist List.filter_sublist seq)
  refine hinterrupted.same ?_
  rw [hinboxes, hframe]
  rfl

/-! ### Confirmations -/

theorem length_filter_set (sequences : Dict Nat Nat) (k v seq : Nat) :
    ((sequences.set k v).entries.filter fun entry => entry.2 = seq).length ≤
      (sequences.entries.filter fun entry => entry.2 = seq).length + if v = seq then 1 else 0 := by
  change ((Dict.setEntries k v sequences.entries).filter fun entry => entry.2 = seq).length ≤ _
  induction sequences.entries with
  | nil =>
    by_cases h : v = seq
    · simp [Dict.setEntries, h]
    · simp [Dict.setEntries, h]
  | cons entry rest ih =>
    by_cases hkey : entry.1 = k
    · rw [Dict.setEntries, if_pos hkey]
      by_cases hv : v = seq
      · by_cases he : entry.2 = seq
        · simp [hv, he]
        · simp [hv, he]
      · by_cases he : entry.2 = seq
        · simp [hv, he]
        · simp [hv, he]
    · rw [Dict.setEntries, if_neg hkey]
      by_cases he : entry.2 = seq
      · simp only [List.filter_cons, he, decide_true, if_true, List.length_cons]
        omega
      · simp only [List.filter_cons, he, decide_false, Bool.false_eq_true, if_false]
        exact ih

theorem length_filter_erase {sequences : Dict Nat Nat} {k v : Nat}
    (h : sequences.get? k = some v) :
    ((sequences.erase k).entries.filter fun entry => entry.2 = v).length + 1 ≤
      (sequences.entries.filter fun entry => entry.2 = v).length := by
  have hmem : (k, v) ∈ sequences.entries := (Dict.mem_entries_iff _ _ _).mpr h
  have hswap : (sequences.erase k).entries.filter (fun entry => entry.2 = v) =
      (sequences.entries.filter fun entry => entry.2 = v).filter fun entry => entry.1 ≠ k :=
    List.filter_comm _ _ _
  rw [hswap, Nat.succ_le_iff, List.length_filter_lt_length_iff_exists]
  exact ⟨(k, v), List.mem_filter.mpr ⟨hmem, by simp⟩, by simp⟩

theorem confirmGraphInput_pending (s : State) (name : String) (chunk : TimedChunk) :
    (confirmGraphInput cfg s name chunk).state.pendingInputDone =
      match s.pendingInputDone.get? chunk.seq with
      | none => s.pendingInputDone
      | some readers =>
        if readers - 1 = 0 then s.pendingInputDone.erase chunk.seq
        else s.pendingInputDone.set chunk.seq (readers - 1) := by
  have hnoted : (if chunk.eos then { s with eosConfirmed := s.eosConfirmed.insert name }
      else s).pendingInputDone = s.pendingInputDone := by
    split <;> rfl
  unfold confirmGraphInput
  simp only
  generalize (if chunk.eos then { s with eosConfirmed := s.eosConfirmed.insert name }
    else s) = noted at hnoted ⊢
  rw [← hnoted]
  cases noted.pendingInputDone.get? chunk.seq with
  | none => rfl
  | some readers =>
    simp only
    split
    · split
      · rfl
      · obtain ⟨_, _, _, _, hsame⟩ :
            ∃ outputs outputBytes nextOutput entered, (emitGraphInputDone cfg
              { noted with pendingInputDone := noted.pendingInputDone.erase chunk.seq } name
              chunk).state = { noted with
                pendingInputDone := noted.pendingInputDone.erase chunk.seq
                outputs := outputs
                outputBytes := outputBytes
                nextOutput := nextOutput
                entered := entered } := by
          cases hran : emitGraphInputDone cfg
            { noted with pendingInputDone := noted.pendingInputDone.erase chunk.seq } name chunk with
          | ok s₁ =>
            obtain ⟨-, -, rfl⟩ := emitGraphInputDone_ok hran
            exact ⟨_, _, _, _, rfl⟩
          | raised s₁ =>
            rw [emitGraphInputDone_raised hran]
            exact ⟨_, _, _, _, rfl⟩
        rw [hsame]
    · rfl

theorem Owed.confirm (h : Owed cfg s) {t : State} {name : String} {chunk : TimedChunk}
    (hname : name ∈ cfg.graph.names) (hpending : t.pendingInputDone = s.pendingInputDone)
    (hnext : t.nextInput = s.nextInput) (hother : ∀ n, n ≠ name → ∀ seq, hands t n seq = hands s n seq)
    (hfewer : ∀ seq, hands t name seq ≤ hands s name seq)
    (hone : hands t name chunk.seq + 1 ≤ hands s name chunk.seq) :
    Owed cfg (confirmGraphInput cfg t name chunk).state := by
  have hhands : ∀ n seq, hands (confirmGraphInput cfg t name chunk).state n seq = hands t n seq := by
    intro n seq
    rw [hands, hands, confirmGraphInput_inboxes rfl, confirmGraphInput_sequences rfl]
  have hle : ∀ n seq, hands t n seq ≤ hands s n seq := by
    intro n seq
    by_cases hn : n = name
    · subst hn
      exact hfewer seq
    · exact (hother n hn seq).le
  have hsum : handsOf cfg t chunk.seq + hands s name chunk.seq =
      handsOf cfg s chunk.seq + hands t name chunk.seq :=
    sum_map_change cfg.graph.names_nodup hname fun n hn => hother n hn chunk.seq
  refine ⟨fun seq readers hget => ?_, fun n seq hseq => ?_⟩
  · have htotal : handsOf cfg (confirmGraphInput cfg t name chunk).state seq =
        handsOf cfg t seq := by
      unfold handsOf
      simp only [hhands]
    have hless : handsOf cfg t seq ≤ handsOf cfg s seq := handsOf_le fun n => hle n seq
    rw [htotal]
    rw [confirmGraphInput_pending, hpending] at hget
    cases hold : s.pendingInputDone.get? chunk.seq with
    | none =>
      rw [hold] at hget
      have howed := h.owed seq readers hget
      omega
    | some count =>
      simp only [hold] at hget
      have hcount := h.owed chunk.seq count hold
      by_cases hseq : seq = chunk.seq
      · subst hseq
        split at hget
        · rw [Dict.get?_erase_self] at hget
          cases hget
        · rw [Dict.get?_set_self, Option.some.injEq] at hget
          omega
      · have hkept : s.pendingInputDone.get? seq = some readers := by
          split at hget
          · rwa [Dict.get?_erase, if_neg hseq] at hget
          · rwa [Dict.get?_set, if_neg hseq] at hget
        have howed := h.owed seq readers hkept
        omega
  · rw [(confirmGraphInput_inputs rfl).2, hnext] at hseq
    rw [hhands]
    have hnone := h.below n seq hseq
    have hless := hle n seq
    omega

/-! ### Appends -/

theorem clientSeq_of_oldest {inbox : Inbox} {item : InboxItem}
    (hsourced : ∀ item ∈ inbox.queued, item.IsSourced cfg)
    (hold : inbox.oldest graphInput = some item) : item.clientSeq = some item.chunk.seq := by
  have hsource : item.source = graphInput := by simpa using List.find?_some hold
  rcases hsourced item (List.mem_of_find?_eq_some hold) with hclient | ⟨hnode, -⟩
  · rw [hclient]
    rfl
  · rw [hsource] at hnode
    exact absurd hnode cfg.valid.input_not_node

theorem length_filter_dropOldest {inbox : Inbox} {source : String} {item : InboxItem}
    (hold : inbox.oldest source = some item) (seq : Nat) :
    ((inbox.dropOldest source).queued.filter fun item => item.clientSeq = some seq).length
      + (if item.clientSeq = some seq then 1 else 0)
      = (inbox.queued.filter fun item => item.clientSeq = some seq).length := by
  change ((inbox.queued.eraseP fun item => item.source = source).filter _).length + _ = _
  unfold Inbox.oldest at hold
  revert hold
  induction inbox.queued with
  | nil => exact fun hold => by cases hold
  | cons first rest ih =>
    intro hold
    by_cases hfirst : first.source = source
    · rw [List.find?_cons_of_pos (by simpa using hfirst)] at hold
      cases hold
      rw [List.eraseP_cons_of_pos (by simpa using hfirst), List.filter_cons]
      simp only [decide_eq_true_eq]
      split <;> rfl
    · rw [List.find?_cons_of_neg (by simpa using hfirst)] at hold
      rw [List.eraseP_cons_of_neg (by simpa using hfirst), List.filter_cons, List.filter_cons]
      have hrest := ih hold
      split
      · simp only [List.length_cons]
        omega
      · exact hrest

theorem sourced_setInbox {name : String}
    (hsourced : ∀ n, ∀ item ∈ (s.inboxes n).queued, item.IsSourced cfg) (source : String) :
    ∀ n, ∀ item ∈ ((s.setInbox name ((s.inboxes name).dropOldest source)).inboxes n).queued,
      item.IsSourced cfg := by
  intro n item hitem
  by_cases hn : n = name
  · subst hn
    have hself : (s.setInbox n ((s.inboxes n).dropOldest source)).inboxes n =
        (s.inboxes n).dropOldest source := Function.update_self _ _ _
    rw [hself] at hitem
    exact hsourced n item (mem_dropOldest hitem)
  · have hother : (s.setInbox name ((s.inboxes name).dropOldest source)).inboxes n =
        s.inboxes n := Function.update_of_ne hn _ _
    rw [hother] at hitem
    exact hsourced n item hitem

theorem Owed.drop (h : Owed cfg s) {name : String} {item : InboxItem}
    (hname : name ∈ cfg.graph.names)
    (hsourced : ∀ n, ∀ item ∈ (s.inboxes n).queued, item.IsSourced cfg)
    (hold : (s.inboxes name).oldest graphInput = some item) :
    Owed cfg (confirmGraphInput cfg
      (s.setInbox name ((s.inboxes name).dropOldest graphInput)) name item.chunk).state ∧
    item.chunk.seq < s.nextInput := by
  have hseq := clientSeq_of_oldest (hsourced name) hold
  have hself : (s.setInbox name ((s.inboxes name).dropOldest graphInput)).inboxes name =
      (s.inboxes name).dropOldest graphInput := Function.update_self _ _ _
  have hlength := length_filter_dropOldest hold item.chunk.seq
  rw [if_pos hseq] at hlength
  refine ⟨h.confirm hname rfl rfl (fun n hn seq => ?_) (fun seq => ?_) ?_, ?_⟩
  · have hother : (s.setInbox name ((s.inboxes name).dropOldest graphInput)).inboxes n =
        s.inboxes n := Function.update_of_ne hn _ _
    rw [hands, hands, hother]
    rfl
  · exact hands_setInbox (length_filter_sublist (dropOldest_sublist _ _) seq)
  · rw [hands, hands, hself]
    change _ + ((s.clientSequences name).entries.filter _).length + 1 ≤ _
    omega
  · by_contra hge
    have hnone := h.below name item.chunk.seq (not_lt.mp hge)
    unfold hands at hnone
    omega

theorem Owed.dropOldest {names : List String} (hnames : ∀ n ∈ names, n ∈ cfg.graph.names)
    (h : Owed cfg s) (hsourced : ∀ n, ∀ item ∈ (s.inboxes n).queued, item.IsSourced cfg) :
    Owed cfg (dropOldestInputs cfg s names).state ∧
    ∀ seq, s.nextInput ≤ seq → (dropOldestInputs cfg s names).state.pendingInputDone.get? seq =
      s.pendingInputDone.get? seq := by
  induction names generalizing s with
  | nil => exact ⟨h, fun _ _ => rfl⟩
  | cons name rest ih =>
    unfold dropOldestInputs
    cases hold : (s.inboxes name).oldest graphInput with
    | none => exact ⟨h, fun _ _ => rfl⟩
    | some item =>
      obtain ⟨howed, hlt⟩ := h.drop (hnames name List.mem_cons_self) hsourced hold
      have hkept : ∀ seq, s.nextInput ≤ seq → (confirmGraphInput cfg
          (s.setInbox name ((s.inboxes name).dropOldest graphInput)) name
          item.chunk).state.pendingInputDone.get? seq = s.pendingInputDone.get? seq := by
        intro seq hseq
        have hne : seq ≠ item.chunk.seq := by omega
        rw [confirmGraphInput_pending]
        change (match s.pendingInputDone.get? item.chunk.seq with
          | none => s.pendingInputDone
          | some readers =>
            if readers - 1 = 0 then s.pendingInputDone.erase item.chunk.seq
            else s.pendingInputDone.set item.chunk.seq (readers - 1)).get? seq = _
        split
        · rfl
        · split
          · rw [Dict.get?_erase, if_neg hne]
          · rw [Dict.get?_set, if_neg hne]
      simp only
      cases hran : confirmGraphInput cfg
        (s.setInbox name ((s.inboxes name).dropOldest graphInput)) name item.chunk with
      | raised s₁ =>
        rw [hran] at howed hkept
        exact ⟨howed, hkept⟩
      | ok s₁ =>
        rw [hran] at howed hkept
        change Owed cfg s₁ at howed
        have hinboxes : s₁.inboxes =
            (s.setInbox name ((s.inboxes name).dropOldest graphInput)).inboxes :=
          confirmGraphInput_inboxes hran
        have hnext : s₁.nextInput = s.nextInput := (confirmGraphInput_inputs hran).2
        have hsourced₁ : ∀ n, ∀ item ∈ (s₁.inboxes n).queued, item.IsSourced cfg := by
          rw [hinboxes]
          exact sourced_setInbox hsourced graphInput
        obtain ⟨hend, hpending⟩ :=
          ih (fun n hn => hnames n (List.mem_cons_of_mem _ hn)) howed hsourced₁
        refine ⟨hend, fun seq hseq => ?_⟩
        rw [hpending seq (by omega)]
        exact hkept seq hseq

theorem sum_ite_length (p : String → Bool) (names : List String) :
    (names.map fun n => if p n then 1 else 0).sum = (names.filter p).length := by
  induction names with
  | nil => rfl
  | cons n rest ih =>
    rw [List.map_cons, List.sum_cons, ih, List.filter_cons]
    split
    · rw [List.length_cons, Nat.add_comm]
    · exact Nat.zero_add _

theorem hands_handInput (readers : List String) (chunk : TimedChunk) (n : String) (seq : Nat) :
    hands ((s.handInput readers chunk).noteInput chunk) n seq =
      hands s n seq + if readers.contains n ∧ seq = chunk.seq then 1 else 0 := by
  have hinbox : ((s.handInput readers chunk).noteInput chunk).inboxes n =
      if readers.contains n = true then (s.inboxes n).push (clientItem chunk)
      else s.inboxes n := rfl
  have hsequences : ((s.handInput readers chunk).noteInput chunk).clientSequences n =
      s.clientSequences n := rfl
  unfold hands
  rw [hinbox, hsequences]
  by_cases hreads : readers.contains n = true
  · rw [if_pos hreads]
    by_cases hsame : seq = chunk.seq
    · simp only [Inbox.push, clientItem, hsame, List.filter_append, List.length_append, hreads]
      simp
      omega
    · simp [Inbox.push, clientItem, hsame, Ne.symm hsame]
  · rw [if_neg hreads, if_neg fun hboth => hreads hboth.1, Nat.add_zero]

theorem Owed.hand (h : Owed cfg s) {readers : List String} {chunk : TimedChunk}
    (hseq : chunk.seq = s.nextInput)
    (hcount : ∀ r, s.pendingInputDone.get? chunk.seq = some r → (readers.length : Int) ≤ r) :
    Owed cfg ((s.handInput readers chunk).noteInput chunk) := by
  have hhands := hands_handInput (s := s) readers chunk
  refine ⟨fun seq r hget => ?_, fun n seq hle => ?_⟩
  · change s.pendingInputDone.get? seq = some r at hget
    by_cases hsame : seq = chunk.seq
    · subst hsame
      have hnone : ∀ n, hands s n chunk.seq = 0 := fun n => h.below n _ (by omega)
      have htotal : handsOf cfg ((s.handInput readers chunk).noteInput chunk) chunk.seq =
          (cfg.graph.names.filter fun n => readers.contains n).length := by
        unfold handsOf
        rw [← sum_ite_length fun n => readers.contains n]
        refine congrArg List.sum (List.map_congr_left fun n _ => ?_)
        rw [hhands, hnone]
        simp
      have hsub : (cfg.graph.names.filter fun n => readers.contains n).length ≤ readers.length := by
        refine (List.subperm_of_subset (cfg.graph.names_nodup.filter _) fun n hn => ?_).length_le
        exact List.contains_iff_mem.mp (List.mem_filter.mp hn).2
      have hreaders := hcount r hget
      rw [htotal]
      omega
    · have hkept : handsOf cfg ((s.handInput readers chunk).noteInput chunk) seq =
          handsOf cfg s seq := by
        unfold handsOf
        refine congrArg List.sum (List.map_congr_left fun n _ => ?_)
        rw [hhands, if_neg fun hboth => hsame hboth.2, Nat.add_zero]
      rw [hkept]
      exact h.owed seq r hget
  · change s.nextInput + 1 ≤ seq at hle
    have hnone := h.below n seq (by omega)
    rw [hhands, hnone, if_neg (fun hboth => by omega)]

theorem Owed.note (h : Owed cfg s) {chunk : TimedChunk} (hseq : chunk.seq = s.nextInput) :
    Owed cfg (noteReaders cfg s chunk).state ∧
    ∀ noted, Session.noteReaders cfg s chunk = .ok noted → ∀ r,
      noted.pendingInputDone.get? chunk.seq = some r →
      ((cfg.graph.readingNodes graphInput chunk.format).length : Int) ≤ r := by
  have hnone : handsOf cfg s chunk.seq = 0 :=
    List.sum_eq_zero fun x hx => by
      obtain ⟨n, -, rfl⟩ := List.mem_map.mp hx
      exact h.below n _ (by omega)
  unfold Session.noteReaders
  by_cases hempty : (cfg.graph.readingNodes graphInput chunk.format).isEmpty = true
  · simp only [hempty, if_true]
    have hsame : ((emitGraphInputDone cfg s graphInput chunk).state.inboxes,
        (emitGraphInputDone cfg s graphInput chunk).state.clientSequences,
        (emitGraphInputDone cfg s graphInput chunk).state.pendingInputDone,
        (emitGraphInputDone cfg s graphInput chunk).state.nextInput) =
        (s.inboxes, s.clientSequences, s.pendingInputDone, s.nextInput) := by
      cases hran : emitGraphInputDone cfg s graphInput chunk with
      | ok s₁ =>
        obtain ⟨-, -, rfl⟩ := emitGraphInputDone_ok hran
        rfl
      | raised s₁ =>
        rw [emitGraphInputDone_raised hran]
        rfl
    refine ⟨h.same hsame, fun noted hnoted r hget => ?_⟩
    rw [hnoted] at hsame
    simp only [Ran.state, Prod.mk.injEq] at hsame
    rw [hsame.2.2.1] at hget
    have howed := h.owed _ r hget
    rw [List.isEmpty_iff.mp hempty]
    simp only [List.length_nil]
    omega
  · simp only [hempty, Bool.false_eq_true, if_false]
    refine ⟨⟨fun seq r hget => ?_, h.below⟩, fun noted hnoted r hget => ?_⟩
    · change (s.pendingInputDone.set chunk.seq _).get? seq = some r at hget
      rw [Dict.get?_set] at hget
      split at hget
      · next he =>
        subst he
        cases hget
        change (handsOf cfg s chunk.seq : Int) ≤ _
        rw [hnone]
        exact Int.natCast_nonneg _
      · exact h.owed seq r hget
    · cases hnoted
      rw [Dict.get?_set_self, Option.some.injEq] at hget
      omega

theorem fullReaders_names {chunk : TimedChunk} :
    ∀ n ∈ fullReaders cfg s chunk, n ∈ cfg.graph.names := by
  intro n hn
  exact cfg.graph.readingNodes_subset (List.mem_filter.mp hn).1

theorem Owed.append (h : Owed cfg s) {chunk : TimedChunk} {ran : Ran}
    (hsourced : ∀ n, ∀ item ∈ (s.inboxes n).queued, item.IsSourced cfg)
    (happend : appendGraph cfg s chunk = some ran) : Owed cfg ran.state := by
  obtain ⟨-, hseq⟩ := endInput_of_accepted (appendGraph_checked happend).1
  obtain ⟨hnotes, hcount⟩ := h.note hseq
  have hdrops : ∀ noted, noteReaders cfg s chunk = .ok noted →
      Owed cfg (dropOldestInputs cfg noted (fullReaders cfg s chunk)).state ∧
      ∀ seq, noted.nextInput ≤ seq →
        (dropOldestInputs cfg noted (fullReaders cfg s chunk)).state.pendingInputDone.get? seq =
          noted.pendingInputDone.get? seq := by
    intro noted hnoted
    rw [hnoted] at hnotes
    refine Owed.dropOldest fullReaders_names hnotes ?_
    have hinboxes : noted.inboxes = s.inboxes := noteReaders_inboxes hnoted
    rw [hinboxes]
    exact hsourced
  cases ran with
  | ok s₁ =>
    obtain ⟨noted, dropped, hnoted, hdropped, rfl⟩ := appendGraph_ok happend
    obtain ⟨howed, hpending⟩ := hdrops noted hnoted
    rw [hdropped] at howed hpending
    have hnoted' : noted.nextInput = s.nextInput := (noteReaders_inputs hnoted).2
    have hdropped' : dropped.nextInput = noted.nextInput := (dropOldestInputs_inputs hdropped).2
    refine Owed.hand howed (hseq.trans (hnoted'.symm.trans hdropped'.symm)) fun r hget => ?_
    refine hcount noted hnoted r ?_
    rw [← hpending chunk.seq (by omega)]
    exact hget
  | raised s₁ =>
    rcases appendGraph_raised happend with hnoted | ⟨noted, hnoted, hdropped⟩
    · rw [hnoted] at hnotes
      exact hnotes
    · have howed := (hdrops noted hnoted).1
      rw [hdropped] at howed
      exact howed

/-! ### Moves -/

theorem Owed.pop {n : String} (h : Owed cfg s) (item : InboxItem) :
    Owed cfg (s.setInbox n ((s.inboxes n).pop item)) :=
  h.fewer rfl rfl fun _ k => hands_setInbox (length_filter_sublist (List.tail_sublist _) k)

theorem Owed.forward {n : String} (h : Owed cfg s) (hmove : ForwardMove cfg n s s') :
    Owed cfg s' := by
  cases hmove with
  | @rotate seq item rest hplace hqueued heos hclient =>
    refine h.fewer rfl rfl fun m k => hands_setInbox ?_
    rw [hqueued]
    exact ((List.perm_append_singleton item rest).filter _).length_eq.le
  | @whole seq item rest session hplace hqueued haccept sequences hsequences =>
    refine h.fewer rfl rfl fun m k => ?_
    by_cases hm : m = n
    · subst hm
      unfold hands
      have hinbox : (((((s.setSession m session).setInbox m
          (((s.inboxes m).pop item).accept item)).setClientSequences m sequences).setForwarder m
          (.ready (seq + 1))).inboxes m).queued = rest := by
        change (Function.update s.inboxes m _ m).queued = rest
        rw [Function.update_self]
        simp [Inbox.accept, Inbox.pop, hqueued]
      have hset : ((((s.setSession m session).setInbox m
          (((s.inboxes m).pop item).accept item)).setClientSequences m sequences).setForwarder m
          (.ready (seq + 1))).clientSequences m = sequences := Function.update_self _ _ _
      rw [hinbox, hset, hqueued, List.filter_cons]
      cases hitem : item.clientSeq with
      | none =>
        rw [hitem] at hsequences
        simp only at hsequences
        rw [hsequences]
        simp
      | some clientSeq =>
        rw [hitem] at hsequences
        simp only at hsequences
        have hlength := length_filter_set (s.clientSequences m) seq clientSeq k
        rw [hsequences]
        by_cases hk : clientSeq = k
        · simp only [hk, if_true, decide_true, List.length_cons] at hlength ⊢
          omega
        · simp only [hk, if_false, Option.some.injEq, decide_false, Bool.false_eq_true] at hlength ⊢
          omega
    · refine hands_le ?_ (Function.update_of_ne hm _ _)
      have hother : ((((s.setSession n session).setInbox n
          (((s.inboxes n).pop item).accept item)).setClientSequences n sequences).setForwarder n
          (.ready (seq + 1))).inboxes m = s.inboxes m := Function.update_of_ne hm _ _
      rw [hother]
  | @start seq item rest fragment hplace hqueued hnode hfragment => exact (h.pop item).same rfl
  | @startFails item rest hqueued hnode => exact (h.pop item).same rfl
  | @last item fragment session hplace hwanted haccept =>
    have haccepted : Owed cfg (s.setInbox n ((s.inboxes n).accept item)) :=
      h.fewer rfl rfl fun m k => hands_setInbox le_rfl
    exact haccepted.same rfl
  | _ => exact h.same rfl

theorem Owed.routeInputDone {n : String} (h : Owed cfg s) (hnode : n ∈ cfg.graph.names)
    (output : OutputChunk) : Owed cfg (routeInputDone cfg s n output) := by
  unfold Session.routeInputDone
  cases hget : (s.clientSequences n).get? output.inputSeq with
  | none => exact h
  | some clientSeq =>
    have hself : (s.setClientSequences n ((s.clientSequences n).erase
        output.inputSeq)).clientSequences n = (s.clientSequences n).erase output.inputSeq :=
      Function.update_self _ _ _
    have hconfirm : Owed cfg (confirmGraphInput cfg
        (s.setClientSequences n ((s.clientSequences n).erase output.inputSeq)) n
        (confirmedChunk output clientSeq)).state := by
      refine h.confirm hnode rfl rfl (fun m hm seq => ?_) (fun seq => ?_) ?_
      · have hother : (s.setClientSequences n ((s.clientSequences n).erase
            output.inputSeq)).clientSequences m = s.clientSequences m :=
          Function.update_of_ne hm _ _
        rw [hands, hands, hother]
        rfl
      · rw [hands, hands, hself]
        exact Nat.add_le_add le_rfl (List.filter_sublist.filter _).length_le
      · have hless := length_filter_erase hget
        rw [hands, hands, hself]
        change ((s.inboxes n).queued.filter _).length + _ + 1 ≤ _
        change ((s.inboxes n).queued.filter fun item => item.clientSeq = some clientSeq).length +
          (((s.clientSequences n).erase output.inputSeq).entries.filter
            fun entry => entry.2 = clientSeq).length + 1 ≤
          ((s.inboxes n).queued.filter fun item => item.clientSeq = some clientSeq).length +
            ((s.clientSequences n).entries.filter fun entry => entry.2 = clientSeq).length
        omega
    simp only
    cases hran : confirmGraphInput cfg
      (s.setClientSequences n ((s.clientSequences n).erase output.inputSeq)) n
      (confirmedChunk output clientSeq) with
    | ok s₁ =>
      rw [hran] at hconfirm
      exact hconfirm
    | raised s₁ =>
      rw [hran] at hconfirm
      exact hconfirm.same rfl

theorem Owed.move (h : Owed cfg s) (hmove : Move cfg a s s')
    (hsourced : ∀ n, ∀ item ∈ (s.inboxes n).queued, item.IsSourced cfg) : Owed cfg s' := by
  cases hmove with
  | report _ hput => exact h.put hput
  | fence _ _ hfence => exact h.fence hfence
  | fenceRaises hfence => exact h.fence hfence
  | append happend => exact h.append hsourced happend
  | appendRaises happend => exact h.append hsourced happend
  | read hread =>
    obtain ⟨_, _, _, _, rfl⟩ := readOutput_frame hread
    exact h.same rfl
  | forward _ hmove => exact h.forward hmove
  | @route _ _ n hnode hmove =>
    cases hmove with
    | @confirm output size rest hplace houtputs hdone =>
      have hpop : Owed cfg (s.popOutput n rest size) := h.same rfl
      exact hpop.routeInputDone hnode output
    | @data output hplace htargets =>
      obtain ⟨outputEndMs, replyStartMs, hclock⟩ := routeClock_eq cfg s n output
      rw [hclock]
      exact h.same rfl
    | put hplace hput => exact (h.put hput).same rfl
    | _ => exact h.same rfl
  | deliver _ _ hmove =>
    cases hmove with
    | put hplace hput => exact (h.put hput).same rfl
    | _ => exact h.same rfl
  | drain _ _ hemit =>
    obtain ⟨-, -, rfl⟩ := emitGraphInputDone_ok hemit
    exact h.same rfl
  | @cancel _ task _ => cases task <;> exact h.same rfl
  | _ => exact h.same rfl

/-- What an append finds: the edges are as they should be, and every input is counted. -/
structure Counted (cfg : Config) (s : State) : Prop where
  edges : ∀ m, Edges cfg s m
  closes : s.isClosing = true → s.hasCloseTask = true
  owed : Owed cfg s

theorem Counted.move (h : Counted cfg s) (hmove : Move cfg a s s') : Counted cfg s' where
  edges := fun m => (h.edges m).move hmove h.closes
  closes := fun hclosing => by
    have hkept := CloseKept.move hmove
    rcases hkept.closing hclosing with hwas | hbegun
    · exact hkept.begun (h.closes hwas)
    · exact hbegun
  owed := h.owed.move hmove fun n => (h.edges n).sourced

theorem counted_of_reaches (h : (machine cfg).Reaches Machine.anyAction s) : Counted cfg s := by
  have hinit : Counted cfg (machine cfg).init := by
    refine ⟨fun m => .initial m, fun hclosing => ?_, fun _ _ hget => ?_, fun _ _ _ => rfl⟩
    · cases hclosing
    · cases hget
  exact h.invariant hinit
    fun _ _ _ hs _ hstep => step_invariant (fun _ _ hs hmove => hs.move hmove) hstep hs

end Session
