import Mathlib.Data.List.Dedup
import SglangOmni.Proto.Msgpack
import SglangOmni.Session.Owed

/-! An append that raises.  `append_graph` makes sure of an output slot for every confirmation before
it changes anything, but not of the bytes of the confirmations: one that the byte budget refuses leaves
the inputs dropped so far dropped. -/

namespace Session

open Lib Proto Relation

variable {cfg : Config} {s t : State}

/-- How many of these readers drop the input `seq`. -/
def dropCount (s : State) (names : List String) (seq : Nat) : Nat :=
  (names.filter fun name => droppedInput s name = some seq).length

/-- The dropped inputs that an append confirms, in order: a reader's drop confirms its input if the
readers up to it are all that the input waits for. -/
def confirmedDrops (s : State) (earlier : List String) : List String → List TimedChunk
  | [] => []
  | name :: rest =>
    match (s.inboxes name).oldest graphInput with
    | none => []
    | some item =>
      if dropConfirms s (earlier ++ [name]) item.chunk.seq then
        item.chunk :: confirmedDrops s (earlier ++ [name]) rest
      else confirmedDrops s (earlier ++ [name]) rest

/-- The bytes of the confirmations of these inputs, the first of them numbered `next`. -/
def confirmationBytes (cfg : Config) (s : State) : Nat → List TimedChunk → Nat
  | _, [] => 0
  | next, chunk :: rest =>
    cfg.packer.outputSize { inputDone cfg s chunk with seq := next } +
      confirmationBytes cfg s (next + 1) rest

def confirmationsFit (cfg : Config) (s : State) (confirmed : List TimedChunk) : Prop :=
  confirmed ≠ [] →
    s.outputBytes + confirmationBytes cfg s s.nextOutput confirmed ≤ cfg.limits.maxOutputBytes

/-- What an append that is accepted and has room leaves unchecked: the bytes of the confirmations of
the inputs that it drops. -/
def dropsFit (cfg : Config) (s : State) (chunk : TimedChunk) : Prop :=
  inputAccepted cfg s chunk = true → appendHasRoom cfg s chunk = true →
    confirmationsFit cfg s (confirmedDrops s [] (fullReaders cfg s chunk))

/-! ### Counts -/

theorem dropCount_append (s : State) (names : List String) (name : String) (seq : Nat) :
    dropCount s (names ++ [name]) seq =
      dropCount s names seq + if droppedInput s name = some seq then 1 else 0 := by
  unfold dropCount
  rw [List.filter_append, List.length_append]
  by_cases h : droppedInput s name = some seq
  · simp [h]
  · simp [h]

theorem dropCount_le_append (s : State) (names rest : List String) (seq : Nat) :
    dropCount s names seq ≤ dropCount s (names ++ rest) seq := by
  unfold dropCount
  rw [List.filter_append, List.length_append]
  omega

theorem dropConfirms_iff (s : State) (names : List String) (seq : Nat) :
    dropConfirms s names seq = true ↔
      s.pendingInputDone.get? seq = some (dropCount s names seq : Int) := by
  simp [dropConfirms, dropCount]

theorem dropCount_le (h : Owed cfg s) {names : List String} (hnodup : names.Nodup)
    (hnames : ∀ n ∈ names, n ∈ cfg.graph.names) {seq : Nat} {readers : Int}
    (hget : s.pendingInputDone.get? seq = some readers) :
    (dropCount s names seq : Int) ≤ readers := by
  have hsub : dropCount s names seq ≤
      (cfg.graph.names.filter fun name => droppedInput s name = some seq).length := by
    refine (List.subperm_of_subset (hnodup.filter _) fun name hname => ?_).length_le
    obtain ⟨hmem, hdrops⟩ := List.mem_filter.mp hname
    exact List.mem_filter.mpr ⟨hnames name hmem, hdrops⟩
  have hhands : (cfg.graph.names.filter fun name => droppedInput s name = some seq).length ≤
      handsOf cfg s seq := by
    rw [← sum_ite_length fun name => decide (droppedInput s name = some seq)]
    refine List.sum_le_sum fun name _ => ?_
    split
    · next hdrops =>
      simp only [decide_eq_true_eq, droppedInput, Option.bind_eq_some_iff] at hdrops
      obtain ⟨item, hold, hseq⟩ := hdrops
      have hmem : item ∈ (s.inboxes name).queued.filter fun item => item.clientSeq = some seq :=
        List.mem_filter.mpr ⟨List.mem_of_find?_eq_some hold, by simpa using hseq⟩
      have hpos := List.length_pos_of_mem hmem
      unfold hands
      omega
    · exact Nat.zero_le _
  have howed := h.owed seq readers hget
  omega

/-- What the readers of a row hold: each its oldest input, which is counted. -/
structure Droppable (s : State) (earlier rest : List String) : Prop where
  oldest : ∀ name ∈ rest, ∃ item, (s.inboxes name).oldest graphInput = some item ∧
    item.clientSeq = some item.chunk.seq ∧ item.chunk.eos = false ∧
    (s.pendingInputDone.get? item.chunk.seq).isSome = true
  counted : ∀ seq readers, s.pendingInputDone.get? seq = some readers →
    (dropCount s (earlier ++ rest) seq : Int) ≤ readers

theorem Droppable.tail {earlier rest : List String} {name : String}
    (h : Droppable s earlier (name :: rest)) : Droppable s (earlier ++ [name]) rest where
  oldest := fun n hn => h.oldest n (List.mem_cons_of_mem _ hn)
  counted := by
    rw [List.append_assoc, List.singleton_append]
    exact h.counted

theorem droppedInput_of_oldest {name : String} {item : InboxItem}
    (hold : (s.inboxes name).oldest graphInput = some item)
    (hseq : item.clientSeq = some item.chunk.seq) :
    droppedInput s name = some item.chunk.seq := by
  rw [droppedInput, hold]
  exact hseq

theorem Droppable.confirmed {earlier rest : List String} (h : Droppable s earlier rest) :
    ((confirmedDrops s earlier rest).map TimedChunk.seq).Nodup ∧
    ∀ seq ∈ (confirmedDrops s earlier rest).map TimedChunk.seq,
      dropConfirms s (earlier ++ rest) seq = true ∧ seq ∈ rest.filterMap (droppedInput s) := by
  induction rest generalizing earlier with
  | nil => exact ⟨List.nodup_nil, fun _ hmem => absurd hmem List.not_mem_nil⟩
  | cons name rest ih =>
    obtain ⟨item, hold, hseq, -, hcounted⟩ := h.oldest name List.mem_cons_self
    have hdrops := droppedInput_of_oldest hold hseq
    obtain ⟨hnodup, hconfirms⟩ := ih h.tail
    have hrest : ∀ seq ∈ (confirmedDrops s (earlier ++ [name]) rest).map TimedChunk.seq,
        dropConfirms s (earlier ++ name :: rest) seq = true ∧
          seq ∈ (name :: rest).filterMap (droppedInput s) := by
      intro seq hmem
      obtain ⟨hconfirm, hlater⟩ := hconfirms seq hmem
      rw [List.append_assoc, List.singleton_append] at hconfirm
      rw [List.filterMap_cons_some hdrops]
      exact ⟨hconfirm, List.mem_cons_of_mem _ hlater⟩
    rw [confirmedDrops, hold]
    simp only
    split
    · next hconfirm =>
      -- every reader the input waits for has dropped it, so none after `name` does
      rw [dropConfirms_iff] at hconfirm
      have hall := h.counted _ _ hconfirm
      rw [show earlier ++ name :: rest = (earlier ++ [name]) ++ rest by simp] at hall
      have hnone : item.chunk.seq ∉ rest.filterMap (droppedInput s) := by
        intro hmem
        obtain ⟨other, hother, hsame⟩ := List.mem_filterMap.mp hmem
        have hpos : 0 < (rest.filter fun n => droppedInput s n = some item.chunk.seq).length :=
          List.length_pos_of_mem (List.mem_filter.mpr ⟨hother, by simpa using hsame⟩)
        unfold dropCount at hall
        rw [List.filter_append (earlier ++ [name]) rest, List.length_append] at hall
        omega
      rw [List.map_cons]
      refine ⟨List.nodup_cons.mpr ⟨fun hmem => hnone (hconfirms _ hmem).2, hnodup⟩, ?_⟩
      intro seq hmem
      rcases List.mem_cons.mp hmem with rfl | hmem
      · refine ⟨(dropConfirms_iff _ _ _).mpr (hconfirm.trans ?_), ?_⟩
        · have hge := dropCount_le_append s (earlier ++ [name]) rest item.chunk.seq
          rw [show earlier ++ name :: rest = (earlier ++ [name]) ++ rest by simp]
          congr 1
          omega
        · rw [List.filterMap_cons_some hdrops]
          exact List.mem_cons_self
      · exact hrest seq hmem
    · exact ⟨hnodup, hrest⟩

/-! ### The loop -/

def remaining (s : State) (earlier : List String) (seq : Nat) : Option Int :=
  (s.pendingInputDone.get? seq).bind fun readers =>
    if dropCount s earlier seq = 0 then some readers
    else if (dropCount s earlier seq : Int) = readers then none
    else some (readers - dropCount s earlier seq)

/-- The state `t` of an append from `s` after `earlier` readers have dropped their input, as far as the
`rest` of them is concerned. -/
structure Dropping (s : State) (earlier rest : List String) (t : State) : Prop where
  inboxes : ∀ name ∈ rest, t.inboxes name = s.inboxes name
  pending : ∀ seq ∈ rest.filterMap (droppedInput s),
    t.pendingInputDone.get? seq = remaining s earlier seq

theorem remaining_of_lt {earlier : List String} {seq : Nat} {readers : Int}
    (hget : s.pendingInputDone.get? seq = some readers)
    (hlt : (dropCount s earlier seq : Int) < readers) :
    remaining s earlier seq = some (readers - dropCount s earlier seq) := by
  rw [remaining, hget, Option.bind_some]
  split
  · next hzero =>
    rw [hzero]
    simp
  · rw [if_neg (by omega)]

theorem Dropping.next {earlier rest : List String} {name : String} {item : InboxItem}
    {readers : Int} {t' : State} (h : Dropping s earlier (name :: rest) t)
    (hname : name ∉ rest) (hdrops : droppedInput s name = some item.chunk.seq)
    (hget : s.pendingInputDone.get? item.chunk.seq = some readers)
    (hinboxes : t'.inboxes =
      (t.setInbox name ((t.inboxes name).dropOldest graphInput)).inboxes)
    (hpending : t'.pendingInputDone =
      if readers - dropCount s earlier item.chunk.seq - 1 = 0 then
        t.pendingInputDone.erase item.chunk.seq
      else t.pendingInputDone.set item.chunk.seq
        (readers - dropCount s earlier item.chunk.seq - 1)) :
    Dropping s (earlier ++ [name]) rest t' where
  inboxes := fun other hother => by
    have hne : other ≠ name := fun he => hname (he ▸ hother)
    rw [hinboxes]
    exact (Function.update_of_ne hne _ _).trans (h.inboxes other (List.mem_cons_of_mem _ hother))
  pending := fun seq hseq => by
    have hcount := dropCount_append s earlier name seq
    rw [hdrops] at hcount
    by_cases hsame : seq = item.chunk.seq
    · subst hsame
      rw [if_pos rfl] at hcount
      have hsome : dropCount s (earlier ++ [name]) item.chunk.seq ≠ 0 := by omega
      rw [remaining, hget, Option.bind_some, if_neg hsome, hpending]
      by_cases hlast : readers - dropCount s earlier item.chunk.seq - 1 = 0
      · have hall : (dropCount s (earlier ++ [name]) item.chunk.seq : Int) = readers := by omega
        rw [if_pos hlast, Dict.get?_erase_self, if_pos hall]
      · have hmore : (dropCount s (earlier ++ [name]) item.chunk.seq : Int) ≠ readers := by omega
        rw [if_neg hlast, Dict.get?_set_self, if_neg hmore, hcount]
        congr 1
        omega
    · rw [if_neg (fun he => hsame (Option.some.inj he).symm), Nat.add_zero] at hcount
      have hkept : t'.pendingInputDone.get? seq = t.pendingInputDone.get? seq := by
        rw [hpending]
        split
        · rw [Dict.get?_erase, if_neg hsame]
        · rw [Dict.get?_set, if_neg hsame]
      rw [hkept, h.pending seq (by rw [List.filterMap_cons_some hdrops]; exact List.mem_cons_of_mem _ hseq),
        remaining, remaining, hcount]

theorem confirmationBytes_congr (s t : State) (next : Nat) (confirmed : List TimedChunk) :
    confirmationBytes cfg s next confirmed = confirmationBytes cfg t next confirmed := by
  induction confirmed generalizing next with
  | nil => rfl
  | cons chunk rest ih =>
    rw [confirmationBytes, confirmationBytes, ih]
    rfl

theorem confirmationsFit_congr {s t : State} (hbytes : t.outputBytes = s.outputBytes)
    (hnext : t.nextOutput = s.nextOutput) (confirmed : List TimedChunk) :
    confirmationsFit cfg t confirmed ↔ confirmationsFit cfg s confirmed := by
  unfold confirmationsFit
  rw [hbytes, hnext, confirmationBytes_congr s t]

theorem confirmationsFit_cons {chunk : TimedChunk} {rest : List TimedChunk} (name : String) :
    confirmationsFit cfg t (chunk :: rest) ↔
      t.outputBytes + (confirmation cfg t name chunk).size ≤ cfg.limits.maxOutputBytes ∧
        confirmationsFit cfg (t.confirm (confirmation cfg t name chunk)) rest := by
  have hfirst : confirmationBytes cfg t t.nextOutput (chunk :: rest) =
      (confirmation cfg t name chunk).size + confirmationBytes cfg t (t.nextOutput + 1) rest := rfl
  have hrest : confirmationBytes cfg (t.confirm (confirmation cfg t name chunk))
      (t.nextOutput + 1) rest = confirmationBytes cfg t (t.nextOutput + 1) rest :=
    confirmationBytes_congr _ _ _ _
  have hbytes : (t.confirm (confirmation cfg t name chunk)).outputBytes =
      t.outputBytes + (confirmation cfg t name chunk).size := rfl
  have hnext : (t.confirm (confirmation cfg t name chunk)).nextOutput = t.nextOutput + 1 := rfl
  unfold confirmationsFit
  rw [hfirst, hbytes, hnext, hrest]
  constructor
  · intro hfit
    have htotal := hfit (List.cons_ne_nil _ _)
    refine ⟨?_, fun _ => ?_⟩
    · omega
    · omega
  · rintro ⟨hone, hothers⟩ -
    cases rest with
    | nil =>
      rw [confirmationBytes]
      omega
    | cons second others =>
      have htotal := hothers (List.cons_ne_nil _ _)
      omega

theorem dropOldestInputs_ok_iff {earlier rest : List String} (hdrop : Droppable s earlier rest)
    (ht : Dropping s earlier rest t) (hnodup : rest.Nodup)
    (hslots : 0 < cfg.limits.maxOutputChunks →
      t.outputs.length + (confirmedDrops s earlier rest).length ≤ cfg.limits.maxOutputChunks) :
    (∃ t', dropOldestInputs cfg t rest = .ok t') ↔
      confirmationsFit cfg t (confirmedDrops s earlier rest) := by
  induction rest generalizing earlier t with
  | nil => exact ⟨fun _ hne => absurd rfl hne, fun _ => ⟨t, rfl⟩⟩
  | cons name rest ih =>
    obtain ⟨hname, hrest⟩ := List.nodup_cons.mp hnodup
    obtain ⟨item, hold, hseq, heos, hsome⟩ := hdrop.oldest name List.mem_cons_self
    have hdrops := droppedInput_of_oldest hold hseq
    obtain ⟨readers, hget⟩ := Option.isSome_iff_exists.mp hsome
    have hcount := dropCount_append s earlier name item.chunk.seq
    rw [if_pos hdrops] at hcount
    have hlt : (dropCount s earlier item.chunk.seq : Int) < readers := by
      have hall := hdrop.counted _ _ hget
      have hmore := dropCount_le_append s (earlier ++ [name]) rest item.chunk.seq
      rw [List.append_assoc, List.singleton_append] at hmore
      omega
    have hpending : t.pendingInputDone.get? item.chunk.seq =
        some (readers - dropCount s earlier item.chunk.seq) := by
      rw [ht.pending _ (by rw [List.filterMap_cons_some hdrops]; exact List.mem_cons_self)]
      exact remaining_of_lt hget hlt
    have hconfirms : dropConfirms s (earlier ++ [name]) item.chunk.seq = true ↔
        readers - dropCount s earlier item.chunk.seq - 1 = 0 := by
      rw [dropConfirms_iff, hget, Option.some.injEq]
      omega
    -- the state that the reader leaves behind, whether the input is confirmed or not
    have hnext : ∀ t' : State, t'.inboxes =
        (t.setInbox name ((t.inboxes name).dropOldest graphInput)).inboxes →
        t'.pendingInputDone = (if readers - dropCount s earlier item.chunk.seq - 1 = 0 then
          t.pendingInputDone.erase item.chunk.seq
        else t.pendingInputDone.set item.chunk.seq
          (readers - dropCount s earlier item.chunk.seq - 1)) →
        Dropping s (earlier ++ [name]) rest t' :=
      fun t' hinboxes hbooks => ht.next hname hdrops hget hinboxes hbooks
    have hinbox : (t.inboxes name).oldest graphInput = some item := by
      rw [ht.inboxes name List.mem_cons_self]
      exact hold
    have hentry : (t.setInbox name
        ((t.inboxes name).dropOldest graphInput)).pendingInputDone.get? item.chunk.seq =
          some (readers - dropCount s earlier item.chunk.seq) := hpending
    rw [confirmedDrops, hold] at hslots ⊢
    rw [dropOldestInputs, hinbox]
    simp only [confirmGraphInput, heos, Bool.false_eq_true, if_false, hentry] at hslots ⊢
    by_cases hlast : readers - dropCount s earlier item.chunk.seq - 1 = 0
    · rw [if_pos hlast] at hnext ⊢
      rw [if_pos (hconfirms.mpr hlast)] at hslots ⊢
      generalize hbooks : ({ t.setInbox name ((t.inboxes name).dropOldest graphInput) with
        pendingInputDone := (t.setInbox name
          ((t.inboxes name).dropOldest graphInput)).pendingInputDone.erase item.chunk.seq } :
          State) = booked
      have hfit : confirmationsFit cfg t (item.chunk :: confirmedDrops s (earlier ++ [name]) rest) ↔
          confirmationsFit cfg booked
            (item.chunk :: confirmedDrops s (earlier ++ [name]) rest) := by
        have hsame : booked.outputBytes = t.outputBytes ∧ booked.nextOutput = t.nextOutput := by
          rw [← hbooks]
          exact ⟨rfl, rfl⟩
        exact (confirmationsFit_congr hsame.1 hsame.2 _).symm
      have houtputs : booked.outputs = t.outputs := by rw [← hbooks]; rfl
      have hroom : booked.outputsFull cfg = false := by
        simp only [State.outputsFull, houtputs, Bool.and_eq_false_iff, decide_eq_false_iff_not]
        by_cases hmax : 0 < cfg.limits.maxOutputChunks
        · have hslot := hslots hmax
          rw [List.length_cons] at hslot
          exact .inr (by omega)
        · exact .inl hmax
      have hdropping : Dropping s (earlier ++ [name]) rest
          (booked.confirm (confirmation cfg booked name item.chunk)) := by
        refine hnext _ ?_ ?_
        · rw [← hbooks]
          rfl
        · rw [← hbooks]
          rfl
      rw [hfit, confirmationsFit_cons name]
      unfold emitGraphInputDone reserveGraphOutput
      simp only [hroom, Bool.false_eq_true, if_false]
      by_cases hbytes : booked.outputBytes + (confirmation cfg booked name item.chunk).size ≤
          cfg.limits.maxOutputBytes
      · have hnot : ¬ booked.outputBytes + (cfg.packer.outputSize (inputDone cfg booked item.chunk)) >
            cfg.limits.maxOutputBytes := not_lt.mpr hbytes
        simp only [hnot, if_false]
        rw [ih hdrop.tail hdropping hrest fun hmax => ?_]
        · exact ⟨fun hrest => ⟨hbytes, hrest⟩, fun hboth => hboth.2⟩
        · have hslot := hslots hmax
          have hlength : (booked.confirm (confirmation cfg booked name item.chunk)).outputs.length =
              t.outputs.length + 1 := by
            change (booked.outputs ++ [_]).length = _
            rw [houtputs, List.length_append]
            rfl
          rw [List.length_cons] at hslot
          omega
      · have hover : booked.outputBytes + (cfg.packer.outputSize (inputDone cfg booked item.chunk)) >
            cfg.limits.maxOutputBytes := not_le.mp hbytes
        simp only [hover, if_true]
        constructor
        · rintro ⟨t', hok⟩
          cases hok
        · exact fun hboth => absurd hboth.1 hbytes
    · rw [if_neg hlast] at hnext ⊢
      rw [if_neg fun hconfirm => hlast (hconfirms.mp hconfirm)] at hslots ⊢
      generalize hbooks : ({ t.setInbox name ((t.inboxes name).dropOldest graphInput) with
        pendingInputDone := (t.setInbox name
          ((t.inboxes name).dropOldest graphInput)).pendingInputDone.set item.chunk.seq
            (readers - dropCount s earlier item.chunk.seq - 1) } : State) = booked
      have hsame : booked.outputBytes = t.outputBytes ∧ booked.nextOutput = t.nextOutput ∧
          booked.outputs = t.outputs := by
        rw [← hbooks]
        exact ⟨rfl, rfl, rfl⟩
      have hdropping : Dropping s (earlier ++ [name]) rest booked := by
        refine hnext _ ?_ ?_
        · rw [← hbooks]
        · rw [← hbooks]
          rfl
      rw [ih hdrop.tail hdropping hrest (by rw [hsame.2.2]; exact hslots)]
      exact confirmationsFit_congr hsame.1 hsame.2.1 _

theorem dropOldestInputs_raised {names : List String} {t' : State} (hnodup : names.Nodup)
    (hold : ∀ name ∈ names, ∃ item, (t.inboxes name).oldest graphInput = some item)
    (h : dropOldestInputs cfg t names = .raised t') :
    ∃ name, (t'.inboxes name).queued.length < (t.inboxes name).queued.length := by
  cases names with
  | nil => cases h
  | cons name rest =>
    obtain ⟨hname, hrest⟩ := List.nodup_cons.mp hnodup
    obtain ⟨item, hitem⟩ := hold name List.mem_cons_self
    have hless : ((t.inboxes name).dropOldest graphInput).queued.length <
        (t.inboxes name).queued.length := by
      have hmem := List.mem_of_find?_eq_some hitem
      have hpos := List.length_pos_of_mem hmem
      have hone : ((t.inboxes name).dropOldest graphInput).queued.length =
          (t.inboxes name).queued.length - 1 :=
        List.length_eraseP_of_mem hmem (by simpa using List.find?_some hitem)
      omega
    have hself : (t.setInbox name ((t.inboxes name).dropOldest graphInput)).inboxes name =
        (t.inboxes name).dropOldest graphInput := Function.update_self _ _ _
    refine ⟨name, ?_⟩
    rw [dropOldestInputs, hitem] at h
    simp only at h
    split at h
    · next s₁ hconfirm =>
      cases h
      have hsame : t'.inboxes name = _ := congrFun (confirmGraphInput_inboxes hconfirm) name
      rw [hsame, hself]
      exact hless
    · next s₁ hconfirm =>
      have hsame : s₁.inboxes name = _ := congrFun (confirmGraphInput_inboxes hconfirm) name
      rcases dropOldestInputs_inboxes hrest h name with ⟨hkept, -⟩ | ⟨hmem, -⟩
      · change t'.inboxes name = _ at hkept
        rw [hkept, hsame, hself]
        exact hless
      · exact absurd hmem hname

/-! ### Appends -/

theorem Counted.droppable (h : Counted cfg s) {chunk : TimedChunk}
    (haccepted : inputAccepted cfg s chunk = true) (hroom : appendHasRoom cfg s chunk = true) :
    Droppable s [] (fullReaders cfg s chunk) := by
  obtain ⟨hopen, -⟩ := endInput_of_accepted haccepted
  refine ⟨fun name hname => ?_, fun seq readers hget => ?_⟩
  · simp only [appendHasRoom, Bool.and_eq_true, List.all_eq_true] at hroom
    have hpending := (hroom.1 name hname).2
    obtain ⟨readers, hreaders⟩ := Option.isSome_iff_exists.mp hpending
    obtain ⟨seq, hdrops, hget⟩ := Option.bind_eq_some_iff.mp hreaders
    obtain ⟨item, hold, hseq⟩ := Option.bind_eq_some_iff.mp hdrops
    have hclient := clientSeq_of_oldest (h.edges name).sourced hold
    have hsource : item.source = graphInput := by simpa using List.find?_some hold
    refine ⟨item, hold, hclient, Bool.eq_false_iff.mpr fun heos => ?_, ?_⟩
    · exact (h.edges name).ended item (List.mem_of_find?_eq_some hold) hsource heos hopen
    · rw [Option.some.inj (hclient.symm.trans hseq), hget]
      rfl
  · exact dropCount_le h.owed (fullReaders_nodup s chunk) fullReaders_names hget

theorem confirmedDrops_length {chunk : TimedChunk}
    (hdrop : Droppable s [] (fullReaders cfg s chunk)) :
    (confirmedDrops s [] (fullReaders cfg s chunk)).length ≤ confirmations cfg s chunk := by
  obtain ⟨hnodup, hconfirms⟩ := hdrop.confirmed
  have hsub : ((confirmedDrops s [] (fullReaders cfg s chunk)).map TimedChunk.seq).length ≤
      (((fullReaders cfg s chunk).filterMap (droppedInput s)).dedup.filter
        (dropConfirms s (fullReaders cfg s chunk))).length := by
    refine (List.subperm_of_subset hnodup fun seq hmem => ?_).length_le
    obtain ⟨hconfirm, hdropped⟩ := hconfirms seq hmem
    exact List.mem_filter.mpr ⟨List.mem_dedup.mpr hdropped, hconfirm⟩
  rw [List.length_map] at hsub
  unfold confirmations
  exact hsub.trans (Nat.le_add_right _ _)

theorem Counted.raised_unchanged (hcounted : Counted cfg s) (chunk : TimedChunk) :
    (∀ s', appendGraph cfg s chunk = some (.raised s') → s' = s) ↔ dropsFit cfg s chunk := by
  unfold dropsFit
  by_cases hchecked : inputAccepted cfg s chunk = true ∧ appendHasRoom cfg s chunk = true
  case neg =>
    refine ⟨fun _ haccepted hroom => absurd ⟨haccepted, hroom⟩ hchecked, fun _ s' hraised => ?_⟩
    exact absurd (appendGraph_checked hraised) hchecked
  case pos =>
    obtain ⟨haccepted, hroom⟩ := hchecked
    obtain ⟨hopen, hnumber⟩ := endInput_of_accepted haccepted
    have hdrop := hcounted.droppable haccepted hroom
    by_cases hempty : (cfg.graph.readingNodes graphInput chunk.format).isEmpty = true
    · -- nobody reads the input: its own confirmation raises before anything has changed
      have hfull : fullReaders cfg s chunk = [] := by
        rw [fullReaders, List.isEmpty_iff.mp hempty]
        rfl
      rw [hfull]
      refine ⟨fun _ _ _ hne => absurd rfl hne, fun _ s' hraised => ?_⟩
      rcases appendGraph_raised hraised with hnoted | ⟨noted, -, hdropped⟩
      · simp only [noteReaders, hempty, if_true] at hnoted
        exact emitGraphInputDone_raised hnoted
      · rw [hfull] at hdropped
        cases hdropped
    · generalize hnoted : ({ s with
          pendingInputDone := s.pendingInputDone.set chunk.seq
            ((cfg.graph.readingNodes graphInput chunk.format).length : Int) } : State) = noted
      have hnotes : noteReaders cfg s chunk = .ok noted := by
        simp only [noteReaders, hempty, Bool.false_eq_true, if_false, hnoted]
      have hsame : noted.inboxes = s.inboxes ∧ noted.outputs = s.outputs ∧
          noted.outputBytes = s.outputBytes ∧ noted.nextOutput = s.nextOutput := by
        rw [← hnoted]
        exact ⟨rfl, rfl, rfl, rfl⟩
      have hdropping : Dropping s [] (fullReaders cfg s chunk) noted := by
        refine ⟨fun name _ => congrFun hsame.1 name, fun seq hmem => ?_⟩
        obtain ⟨name, hname, hdrops⟩ := List.mem_filterMap.mp hmem
        obtain ⟨item, hold, hclient, -⟩ := hdrop.oldest name hname
        have hlt := (hcounted.owed.drop (fullReaders_names name hname)
          (fun n => (hcounted.edges n).sourced) hold).2
        have hseq : seq = item.chunk.seq :=
          Option.some.inj (hdrops.symm.trans (droppedInput_of_oldest hold hclient))
        have hne : seq ≠ chunk.seq := by omega
        have hzero : dropCount s [] seq = 0 := rfl
        rw [← hnoted, remaining, hzero]
        change (s.pendingInputDone.set chunk.seq _).get? seq = _
        rw [Dict.get?_set, if_neg hne]
        cases s.pendingInputDone.get? seq <;> rfl
      have hslots : 0 < cfg.limits.maxOutputChunks → noted.outputs.length +
          (confirmedDrops s [] (fullReaders cfg s chunk)).length ≤ cfg.limits.maxOutputChunks := by
        intro hmax
        have hlength := confirmedDrops_length hdrop
        simp only [appendHasRoom, Bool.and_eq_true, Bool.or_eq_true, decide_eq_true_eq] at hroom
        rw [hsame.2.1]
        omega
      have hfits := dropOldestInputs_ok_iff hdrop hdropping (fullReaders_nodup s chunk) hslots
      rw [confirmationsFit_congr hsame.2.2.1 hsame.2.2.2] at hfits
      constructor
      · intro hunchanged _ _
        by_contra hover
        cases hran : dropOldestInputs cfg noted (fullReaders cfg s chunk) with
        | ok t' => exact hover (hfits.mp ⟨t', hran⟩)
        | raised t' =>
          have hraised : appendGraph cfg s chunk = some (.raised t') := by
            simp only [appendGraph, haccepted, hroom, not_true_eq_false, or_self, if_false, hnotes,
              hran]
          obtain ⟨name, hless⟩ := dropOldestInputs_raised (fullReaders_nodup s chunk)
            (fun name hname => by
              obtain ⟨item, hold, -⟩ := hdrop.oldest name hname
              exact ⟨item, by rw [hsame.1]; exact hold⟩) hran
          rw [hunchanged t' hraised, hsame.1] at hless
          exact absurd hless (lt_irrefl _)
      · intro hfit s' hraised
        obtain ⟨t', hok⟩ := hfits.mpr (hfit haccepted hroom)
        rcases appendGraph_raised hraised with hraise | ⟨other, hother, hdropped⟩
        · rw [hnotes] at hraise
          cases hraise
        · cases hnotes.symm.trans hother
          rw [hok] at hdropped
          cases hdropped

/-- In every reachable state, an append that raises leaves the graph as it was exactly if the byte
budget has room for the confirmations of the inputs that it drops. -/
theorem append_unchanged_iff (h : (machine cfg).Reaches Machine.anyAction s) (chunk : TimedChunk) :
    (∀ s', appendGraph cfg s chunk = some (.raised s') → s' = s) ↔ dropsFit cfg s chunk :=
  (counted_of_reaches h).raised_unchanged chunk

/-- A node that keeps the newest camera frame, behind a budget of one confirmation. -/
def cameraConfig : Config where
  graph := {
    nodes := (∅ : Dict String SessionNode).set "watch"
      { inputs := [.edge { source := graphInput, capacity := some 1, overflow := .dropOldest }] }
    publish := fun _ => [] }
  valid := ⟨by decide, by decide, by decide, by decide, by decide⟩
  limits := { maxOutputBytes := 250 }
  packer := msgpack
  leadMs := 1000
  identity := { id := "s" }
  nodeIdentity := fun n => { id := "s:" ++ n }

def cameraFrame (seq : Nat) : TimedChunk where
  modality := "image"
  tStartMs := 0
  durationMs := 0
  seq := seq
  payload := .bytes [1]
  format := some "image_frame"

def Ran.isRaised : Ran → Bool
  | .ok _ => false
  | .raised _ => true

/-- The second frame replaces the first, whose confirmation fits. -/
theorem append_unchanged_second_frame : ∃ s,
    (machine cameraConfig).exec .initial [.append (cameraFrame 0)] = some s ∧
    dropsFit cameraConfig s (cameraFrame 1) := by
  have hran : ((machine cameraConfig).exec .initial [.append (cameraFrame 0)]).map
      (fun s => (appendGraph cameraConfig s (cameraFrame 1)).map Ran.isRaised) =
        some (some false) := by decide +kernel
  obtain ⟨s, hs, hran⟩ := Option.map_eq_some_iff.mp hran
  refine ⟨s, hs, (append_unchanged_iff (Machine.path_of_exec hs) (cameraFrame 1)).mp ?_⟩
  intro s' hraised
  rw [hraised] at hran
  cases hran

/-- The third frame takes the second from the node, then its confirmation exceeds the budget: the append
raises, and the frame that it dropped is gone. -/
theorem append_raises_after_drop : ∃ s s',
    (machine cameraConfig).exec .initial [.append (cameraFrame 0), .append (cameraFrame 1)] =
      some s ∧
    appendGraph cameraConfig s (cameraFrame 2) = some (.raised s') ∧
    (s.inboxes "watch").queued.length = 1 ∧ (s'.inboxes "watch").queued.length = 0 ∧
    s.pendingInputDone.get? 1 = some 1 ∧ s'.pendingInputDone.get? 1 = none ∧
    s.pendingInputDone.get? 2 = none ∧ s'.pendingInputDone.get? 2 = some 1 ∧
    s'.nextInput = s.nextInput := by
  have hbefore : ((machine cameraConfig).exec .initial
      [.append (cameraFrame 0), .append (cameraFrame 1)]).map (fun s =>
        ((s.inboxes "watch").queued.length, s.pendingInputDone.get? 1,
          s.pendingInputDone.get? 2, s.nextInput)) = some (1, some 1, none, 2) := by
    decide +kernel
  have hafter : ((machine cameraConfig).exec .initial
      [.append (cameraFrame 0), .append (cameraFrame 1)]).bind (fun s =>
        (appendGraph cameraConfig s (cameraFrame 2)).map fun ran =>
          (ran.isRaised, (ran.state.inboxes "watch").queued.length,
            ran.state.pendingInputDone.get? 1, ran.state.pendingInputDone.get? 2,
            ran.state.nextInput)) = some (true, 0, none, some 1, 2) := by decide +kernel
  obtain ⟨s, hs, hran⟩ := Option.bind_eq_some_iff.mp hafter
  obtain ⟨ran, happend, hran⟩ := Option.map_eq_some_iff.mp hran
  rw [hs] at hbefore
  simp only [Option.map_some, Option.some.injEq, Prod.mk.injEq] at hbefore hran
  obtain ⟨hqueued, hfirst, hsecond, hnext⟩ := hbefore
  obtain ⟨hraised, hqueued', hfirst', hsecond', hnext'⟩ := hran
  cases ran with
  | ok s' => cases hraised
  | raised s' =>
    exact ⟨s, s', hs, happend, hqueued, hqueued', hfirst, hfirst', hsecond, hsecond',
      hnext'.trans hnext.symm⟩

/-- In every run the chunks that a node has of one source are in the order in which they were handed to it; where the
edge blocks, none is missing while the graph is open but those of interrupted turns.  The inbox counts them
and keeps to the capacity of the edge. -/
theorem edges_in_order (h : (machine cfg).Reaches Machine.anyAction s) (n source : String) :
    (onEdge source (taken s n)).Sublist (onEdge source (s.inboxes n).handed) ∧
    (s.hasCloseTask = false → edgeOverflow cfg n source = .block →
      (onEdge source (s.inboxes n).handed).filter (isWanted s n) =
        (onEdge source (taken s n)).filter (isWanted s n)) ∧
    (s.inboxes n).counts source = (onEdge source (s.inboxes n).queued).length ∧
    (onEdge source (s.inboxes n).queued).length ≤ edgeCapacity cfg n source := by
  have hedges := (counted_of_reaches h).edges n
  exact ⟨hedges.order source, fun hopen => hedges.complete hopen source, hedges.queue.counts source,
    hedges.queue.capacity source⟩

theorem edges_in_order_second_frame : ∃ s,
    (machine cameraConfig).exec .initial [.append (cameraFrame 0), .append (cameraFrame 1)] = some s ∧
    (s.inboxes "watch").handed.length = 2 ∧
    (onEdge graphInput (s.inboxes "watch").queued).length ≤ edgeCapacity cameraConfig "watch" graphInput := by
  obtain ⟨s, hs, hhanded⟩ := Option.map_eq_some_iff.mp
    (show ((machine cameraConfig).exec .initial [.append (cameraFrame 0), .append (cameraFrame 1)]).map
      (fun s => (s.inboxes "watch").handed.length) = some 2 by decide +kernel)
  exact ⟨s, hs, hhanded, (edges_in_order (Machine.path_of_exec hs) "watch" graphInput).2.2.2⟩

end Session
