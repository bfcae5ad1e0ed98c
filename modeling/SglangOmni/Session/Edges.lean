import SglangOmni.Session.Fence

/-! The data edges of a session graph.  One inbox takes the chunks of all sources of its node, each
source within the bound of its edge; the forwarder takes them one after the other.  On every edge the
node session accepts chunks in the order in which they were handed over, and on a blocking edge of an
open graph every chunk that was handed over and not interrupted at the node is accepted, on its way
there or waiting. -/

namespace Session

open Lib Proto Relation

variable {cfg : Config} {a : Action} {s s' : State} {m : String}

/-- Of these chunks, the ones from `source`. -/
def onEdge (source : String) (items : List InboxItem) : List InboxItem :=
  items.filter fun item => item.source = source

@[simp] theorem onEdge_append (source : String) (first second : List InboxItem) :
    onEdge source (first ++ second) = onEdge source first ++ onEdge source second :=
  List.filter_append ..

theorem onEdge_sublist (source : String) {first second : List InboxItem}
    (h : first.Sublist second) : (onEdge source first).Sublist (onEdge source second) :=
  h.filter _

def Forwarder.held : Forwarder → List InboxItem
  | .fragments item _ => [item]
  | _ => []

/-- The chunks that a node took, the one it takes and the ones that wait in its inbox. -/
def taken (s : State) (m : String) : List InboxItem :=
  (s.inboxes m).accepted ++ (s.forwarders m).held ++ (s.inboxes m).queued

def isWanted (s : State) (m : String) (item : InboxItem) : Bool := !s.isInterrupted m item.chunk

/-! ### Queues -/

theorem onEdge_push (source : String) (inbox : Inbox) (item : InboxItem) :
    onEdge source (inbox.push item).queued = onEdge source inbox.queued ++ onEdge source [item] :=
  onEdge_append ..

theorem onEdge_eraseP (source dropped : String) (items : List InboxItem) :
    onEdge source (items.eraseP fun item => item.source = dropped) =
      if source = dropped then (onEdge source items).tail else onEdge source items := by
  induction items with
  | nil => simp [onEdge]
  | cons item rest ih =>
    by_cases hdropped : item.source = dropped
    · rw [List.eraseP_cons_of_pos (by simpa using hdropped)]
      split
      · next hsame => simp [onEdge, hdropped, hsame]
      · next hother => simp [onEdge, hdropped, Ne.symm hother]
    · rw [List.eraseP_cons_of_neg (by simpa using hdropped)]
      have hcons : ∀ items, onEdge source (item :: items) =
          (if item.source = source then [item] else []) ++ onEdge source items := by
        intro items
        simp only [onEdge, List.filter_cons, decide_eq_true_eq]
        split <;> rfl
      rw [hcons, hcons, ih]
      by_cases hsame : source = dropped
      · have hother : item.source ≠ source := fun h => hdropped (h.trans hsame)
        rw [if_pos hsame, if_pos hsame, if_neg hother]
        rfl
      · rw [if_neg hsame, if_neg hsame]

theorem onEdge_dropOldest (source dropped : String) (inbox : Inbox) :
    onEdge source (inbox.dropOldest dropped).queued =
      if source = dropped then (onEdge source inbox.queued).tail else onEdge source inbox.queued :=
  onEdge_eraseP source dropped inbox.queued

theorem onEdge_ne_nil {source : String} {inbox : Inbox} {old : InboxItem}
    (h : inbox.oldest source = some old) : onEdge source inbox.queued ≠ [] := by
  have hsource : old.source = source := by simpa using List.find?_some h
  intro hempty
  have hmem : old ∈ onEdge source inbox.queued :=
    List.mem_filter.mpr ⟨List.mem_of_find?_eq_some h, by simpa using hsource⟩
  rw [hempty] at hmem
  cases hmem

theorem dropOldest_sublist (inbox : Inbox) (source : String) :
    (inbox.dropOldest source).queued.Sublist inbox.queued :=
  List.eraseP_sublist

/-! ### What a move takes and hands over -/

/-- What a move does to the chunks of an inbox: `added` is handed over; no chunk changes its place
among those of its source, and where the graph stays open and the edge blocks only unwanted ones go. -/
def TakenMove (cfg : Config) (s s' : State) (m : String) : Prop :=
  ∃ added, (s'.inboxes m).handed = (s.inboxes m).handed ++ added ∧ ∀ source,
    (onEdge source (taken s' m)).Sublist (onEdge source (taken s m ++ added)) ∧
    (s'.hasCloseTask = false → edgeOverflow cfg m source = .block →
      (onEdge source (taken s' m)).filter (isWanted s' m) =
        (onEdge source (taken s m ++ added)).filter (isWanted s' m))

theorem TakenMove.same (hhanded : (s'.inboxes m).handed = (s.inboxes m).handed)
    (htaken : ∀ source, onEdge source (taken s' m) = onEdge source (taken s m)) :
    TakenMove cfg s s' m := by
  refine ⟨[], by rw [hhanded, List.append_nil], fun source => ?_⟩
  rw [List.append_nil, htaken source]
  exact ⟨List.Sublist.refl _, fun _ _ => rfl⟩

theorem TakenMove.lost (hhanded : (s'.inboxes m).handed = (s.inboxes m).handed)
    (htaken : (taken s' m).Sublist (taken s m)) (hclose : s'.hasCloseTask = true) :
    TakenMove cfg s s' m := by
  refine ⟨[], by rw [hhanded, List.append_nil], fun source => ?_⟩
  rw [List.append_nil]
  refine ⟨onEdge_sublist source htaken, fun hopen => ?_⟩
  rw [hclose] at hopen
  cases hopen

theorem TakenMove.queue (added : List InboxItem)
    (hplace : s'.forwarders m = s.forwarders m ∨ s'.forwarders m = .stopped ∧ s'.hasCloseTask = true)
    (hhanded : (s'.inboxes m).handed = (s.inboxes m).handed ++ added)
    (haccepted : (s'.inboxes m).accepted = (s.inboxes m).accepted)
    (hqueued : ∀ source,
      (onEdge source (s'.inboxes m).queued).Sublist (onEdge source ((s.inboxes m).queued ++ added)) ∧
      (edgeOverflow cfg m source = .block →
        (onEdge source (s'.inboxes m).queued).filter (isWanted s' m) =
          (onEdge source ((s.inboxes m).queued ++ added)).filter (isWanted s' m))) :
    TakenMove cfg s s' m := by
  refine ⟨added, hhanded, fun source => ?_⟩
  obtain ⟨hsub, hblock⟩ := hqueued source
  simp only [taken, onEdge_append, List.append_assoc, haccepted] at hsub hblock ⊢
  rcases hplace with hsame | ⟨hstop, hclose⟩
  · rw [hsame]
    refine ⟨(List.Sublist.refl _).append ((List.Sublist.refl _).append hsub), fun _ hedge => ?_⟩
    simp only [List.filter_append] at hblock ⊢
    rw [hblock hedge]
  · rw [hstop]
    refine ⟨(List.Sublist.refl _).append ?_, fun hopen => ?_⟩
    · exact hsub.trans (List.sublist_append_right _ _)
    · rw [hclose] at hopen
      cases hopen

theorem filter_isWanted_fence {turn : Turn} (hturn : turn ∈ s.interruptedTurns m)
    (items : List InboxItem) :
    (items.filter fun item => item.source = graphInput ||
      !isInterruptedReply item.chunk turn).filter (isWanted s m) = items.filter (isWanted s m) := by
  rw [List.filter_filter]
  refine List.filter_congr fun item _ => ?_
  by_cases hwanted : isWanted s m item = true
  · have hnot : s.isInterrupted m item.chunk = false := by simpa [isWanted] using hwanted
    simp [hwanted, not_reply_of_wanted hturn hnot]
  · simp [hwanted]

theorem InboxMove.taken (h : InboxMove cfg s s' m)
    (hplace : s'.forwarders m = s.forwarders m ∨
      s'.forwarders m = .stopped ∧ s'.hasCloseTask = true) : TakenMove cfg s s' m := by
  cases h with
  | keep h =>
    refine .queue [] hplace (by rw [h, List.append_nil]) (by rw [h]) fun source => ?_
    rw [h, List.append_nil]
    exact ⟨List.Sublist.refl _, fun _ => rfl⟩
  | @put item _ _ _ _ h =>
    refine .queue [item] hplace (by rw [h]; rfl) (by rw [h]; rfl) fun source => ?_
    rw [h, onEdge_push, onEdge_append]
    exact ⟨List.Sublist.refl _, fun _ => rfl⟩
  | @replace item old _ _ _ hoverflow hold h =>
    refine .queue [item] hplace (by rw [h]; rfl) (by rw [h]; rfl) fun source => ?_
    rw [h, onEdge_push, onEdge_append]
    refine ⟨(onEdge_sublist source (dropOldest_sublist _ _)).append (List.Sublist.refl _),
      fun hblock => ?_⟩
    rw [onEdge_dropOldest, if_neg]
    rintro rfl
    rw [hoverflow] at hblock
    cases hblock
  | @input chunk _ _ _ _ _ h =>
    refine .queue [clientItem chunk] hplace (by rw [h]; rfl) (by rw [h]; rfl)
      fun source => ?_
    rw [h, onEdge_push, onEdge_append]
    exact ⟨List.Sublist.refl _, fun _ => rfl⟩
  | @inputReplace chunk old _ _ _ _ hoverflow hold h =>
    refine .queue [clientItem chunk] hplace (by rw [h]; rfl) (by rw [h]; rfl)
      fun source => ?_
    rw [h, onEdge_push, onEdge_append]
    refine ⟨(onEdge_sublist source (dropOldest_sublist _ _)).append (List.Sublist.refl _),
      fun hblock => ?_⟩
    rw [onEdge_dropOldest, if_neg]
    rintro rfl
    rw [hoverflow] at hblock
    cases hblock
  | @inputDrop old hoverflow hold h =>
    refine .queue [] hplace (by rw [h, List.append_nil]; rfl) (by rw [h]; rfl)
      fun source => ?_
    rw [h, List.append_nil]
    refine ⟨onEdge_sublist source (dropOldest_sublist _ _), fun hblock => ?_⟩
    rw [onEdge_dropOldest, if_neg]
    rintro rfl
    rw [hoverflow] at hblock
    cases hblock
  | @fence turn hturn h =>
    refine .queue [] hplace (by rw [h, List.append_nil]; rfl) (by rw [h]; rfl)
      fun source => ?_
    rw [h, List.append_nil]
    refine ⟨onEdge_sublist source List.filter_sublist, fun _ => ?_⟩
    have hcomm : ∀ items, (onEdge source items).filter (isWanted s' m) =
        onEdge source (items.filter (isWanted s' m)) := fun items => List.filter_comm _ _ _
    rw [hcomm, hcomm]
    exact congrArg (onEdge source) (filter_isWanted_fence hturn _)

theorem ForwardMove.taken (h : ForwardMove cfg m s s')
    (hsourced : ∀ item ∈ (s.inboxes m).queued, item.IsSourced cfg)
    (hends : (onEdge graphInput (s.inboxes m).queued).Pairwise fun first _ => first.chunk.eos = false) :
    TakenMove cfg s s' m := by
  have hinbox : ∀ (s : State) (inbox : Inbox), (s.setInbox m inbox).inboxes m = inbox :=
    fun s inbox => Function.update_self _ _ _
  have hplace' : ∀ (s : State) (f : Forwarder), (s.setForwarder m f).forwarders m = f :=
    fun s f => Function.update_self _ _ _
  cases h with
  | @rotate seq item rest hplace hqueued heos hclient =>
    have hsource : item.source = graphInput := by
      by_contra hnot
      have hnone := IsSourced.clientSeq (hsourced item (by rw [hqueued]; exact List.mem_cons_self)) hnot
      rw [hnone] at hclient
      cases hclient
    have hlast : onEdge graphInput rest = [] := by
      rw [hqueued] at hends
      have hcons : onEdge graphInput (item :: rest) = item :: onEdge graphInput rest :=
        List.filter_cons_of_pos (by simpa using hsource)
      rw [hcons, List.pairwise_cons] at hends
      refine List.eq_nil_iff_forall_not_mem.mpr fun other hother => ?_
      have hnot := hends.1 other hother
      rw [heos] at hnot
      cases hnot
    have hback : ∀ source, onEdge source (rest ++ [item]) = onEdge source (item :: rest) := by
      intro source
      rw [onEdge_append, show item :: rest = [item] ++ rest from rfl, onEdge_append]
      by_cases hs : source = graphInput
      · rw [hs, hlast, List.append_nil, List.nil_append]
      · have hother : onEdge source [item] = [] := by
          refine List.filter_eq_nil_iff.mpr fun x hx => ?_
          rw [List.mem_singleton.mp hx, hsource]
          simpa using Ne.symm hs
        rw [hother, List.append_nil, List.nil_append]
    refine .same (by rw [hinbox]) fun source => ?_
    simp only [Session.taken, onEdge_append]
    rw [hinbox, hqueued, ← hback source]
    rfl
  | @whole seq item rest session hplace hqueued haccept sequences hsequences =>
    refine .same ?_ fun source => ?_
    · change ((State.setInbox _ m _).inboxes m).handed = _
      rw [hinbox]
      rfl
    · refine congrArg (onEdge source) ?_
      unfold Session.taken
      rw [hplace', hplace]
      change ((State.setInbox _ m _).inboxes m).accepted ++ [] ++
        ((State.setInbox _ m _).inboxes m).queued = _
      rw [hinbox, hqueued]
      change (s.inboxes m).accepted ++ [item] ++ [] ++ (s.inboxes m).queued.tail = _
      rw [hqueued]
      simp [Forwarder.held]
  | @start seq item rest fragment hplace hqueued hnode hfragment =>
    refine .same ?_ fun source => ?_
    · change ((State.setInbox _ m _).inboxes m).handed = _
      rw [hinbox]
      rfl
    · refine congrArg (onEdge source) ?_
      unfold Session.taken
      rw [hplace', hplace]
      change ((State.setInbox _ m _).inboxes m).accepted ++ [item] ++
        ((State.setInbox _ m _).inboxes m).queued = _
      rw [hinbox, hqueued]
      change (s.inboxes m).accepted ++ [item] ++ (s.inboxes m).queued.tail = _
      rw [hqueued]
      simp [Forwarder.held]
  | @startFails item rest hqueued hnode =>
    refine .lost ?_ ?_ rfl
    · change ((State.setInbox _ m _).inboxes m).handed = _
      rw [hinbox]
      rfl
    · unfold Session.taken
      change (((State.setInbox _ m _).inboxes m).accepted ++ (Forwarder.held
        ((State.setForwarder _ m _).forwarders m)) ++ ((State.setInbox _ m _).inboxes m).queued).Sublist _
      rw [hinbox, hplace']
      refine ((List.Sublist.refl _).append (List.nil_sublist _)).append ?_
      exact List.tail_sublist _
  | @cut item fragment hplace hinterrupted =>
    refine ⟨[], (List.append_nil _).symm, fun source => ?_⟩
    rw [List.append_nil]
    unfold Session.taken
    rw [hplace', hplace]
    constructor
    · refine onEdge_sublist source ?_
      exact ((List.Sublist.refl _).append (List.nil_sublist _)).append (List.Sublist.refl _)
    · intro _ _
      change List.filter (isWanted s m) _ = List.filter (isWanted s m) _
      have hnone : (onEdge source [item]).filter (isWanted s m) = [] := by
        refine List.filter_eq_nil_iff.mpr fun x hx => ?_
        rw [List.mem_singleton.mp (List.mem_filter.mp hx).1]
        simp [isWanted, hinterrupted]
      simp only [Forwarder.held, onEdge_append, List.filter_append, hnone]
      simp [onEdge]
      rfl
  | @fragment item fragment next session hplace hwanted haccept hnext =>
    refine .same rfl fun source => congrArg (onEdge source) ?_
    unfold Session.taken
    rw [hplace', hplace]
    rfl
  | @fragmentFails item fragment session hplace hwanted haccept =>
    refine .lost rfl ?_ rfl
    unfold Session.taken
    change (_ ++ (Forwarder.held ((State.setForwarder _ m _).forwarders m)) ++ _).Sublist _
    rw [hplace']
    exact ((List.Sublist.refl _).append (List.nil_sublist _)).append (List.Sublist.refl _)
  | @last item fragment session hplace hwanted haccept =>
    refine .same ?_ fun source => congrArg (onEdge source) ?_
    · change ((State.setInbox _ m _).inboxes m).handed = _
      rw [hinbox]
      rfl
    · unfold Session.taken
      rw [hplace', hplace]
      change ((State.setInbox _ m _).inboxes m).accepted ++ [] ++
        ((State.setInbox _ m _).inboxes m).queued = _
      rw [hinbox]
      change (s.inboxes m).accepted ++ [item] ++ [] ++ (s.inboxes m).queued = _
      simp [Forwarder.held]
  | fail =>
    refine .lost rfl ?_ rfl
    unfold Session.taken
    change (_ ++ (Forwarder.held ((State.setForwarder _ m _).forwarders m)) ++ _).Sublist _
    rw [hplace']
    exact ((List.Sublist.refl _).append (List.nil_sublist _)).append (List.Sublist.refl _)

/-! ### Counts and bounds -/

theorem count_push (inbox : Inbox) (item : InboxItem) (source : String)
    (h : inbox.counts source = (onEdge source inbox.queued).length) :
    (inbox.push item).counts source = (onEdge source (inbox.push item).queued).length := by
  rw [onEdge_push, List.length_append]
  simp only [Inbox.push, Inbox.count, Function.update_apply]
  split
  · next hsame =>
    subst hsame
    rw [h]
    simp [onEdge]
  · next hother => simp [onEdge, Ne.symm hother, h]

theorem count_dropOldest (inbox : Inbox) (dropped source : String) {old : InboxItem}
    (hold : inbox.oldest dropped = some old)
    (h : inbox.counts source = (onEdge source inbox.queued).length) :
    (inbox.dropOldest dropped).counts source =
      (onEdge source (inbox.dropOldest dropped).queued).length := by
  rw [onEdge_dropOldest]
  simp only [Inbox.dropOldest, Inbox.count, Function.update_apply]
  split
  · next hsame =>
    rw [hsame] at h ⊢
    have hpos : 0 < (onEdge dropped inbox.queued).length := List.length_pos_iff.mpr (onEdge_ne_nil hold)
    rw [h, List.length_tail]
    omega
  · exact h

theorem capacity_push {inbox : Inbox} {item : InboxItem} {source : String} {capacity : Nat}
    (h : (onEdge source inbox.queued).length ≤ capacity)
    (hroom : item.source = source → (onEdge source inbox.queued).length < capacity) :
    (onEdge source (inbox.push item).queued).length ≤ capacity := by
  rw [onEdge_push, List.length_append]
  by_cases hsame : item.source = source
  · have hlt := hroom hsame
    simp [onEdge, hsame] at hlt ⊢
    omega
  · simp [onEdge, hsame] at h ⊢
    exact h

theorem capacity_replace {inbox : Inbox} (item : InboxItem) {old : InboxItem} {source : String}
    {capacity : Nat} (h : (onEdge source inbox.queued).length ≤ capacity)
    (hold : inbox.oldest item.source = some old) :
    (onEdge source ((inbox.dropOldest item.source).push item).queued).length ≤ capacity := by
  refine capacity_push ?_ fun hsame => ?_
  · exact (onEdge_sublist source (dropOldest_sublist _ _)).length_le.trans h
  · subst hsame
    have hpos : 0 < (onEdge item.source inbox.queued).length :=
      List.length_pos_iff.mpr (onEdge_ne_nil hold)
    rw [onEdge_dropOldest, if_pos rfl, List.length_tail]
    omega

structure QueueOk (cfg : Config) (m : String) (inbox : Inbox) : Prop where
  counts : ∀ source, inbox.counts source = (onEdge source inbox.queued).length
  capacity : ∀ source, (onEdge source inbox.queued).length ≤ edgeCapacity cfg m source

theorem QueueOk.move (hinv : QueueOk cfg m (s.inboxes m)) (h : InboxMove cfg s s' m) :
    QueueOk cfg m (s'.inboxes m) := by
  cases h with
  | keep h => rwa [h]
  | @put item _ _ _ hroom h =>
    rw [h]
    refine ⟨fun source => count_push _ _ _ (hinv.counts source), fun source => ?_⟩
    refine capacity_push (hinv.capacity source) ?_
    rintro rfl
    have hcount := hinv.counts item.source
    omega
  | @replace item old _ _ _ _ hold h =>
    rw [h]
    exact ⟨fun source => count_push _ _ _ (count_dropOldest _ _ _ hold (hinv.counts source)),
      fun source => capacity_replace item (hinv.capacity source) hold⟩
  | @input chunk _ _ _ _ hroom h =>
    rw [h]
    refine ⟨fun source => count_push _ _ _ (hinv.counts source), fun source => ?_⟩
    refine capacity_push (hinv.capacity source) ?_
    rintro rfl
    have hcount := hinv.counts graphInput
    change (onEdge graphInput (s.inboxes m).queued).length < edgeCapacity cfg m graphInput
    omega
  | @inputReplace chunk old _ _ _ _ _ hold h =>
    rw [h]
    have hreplace : ∀ source, (onEdge source (((s.inboxes m).dropOldest graphInput).push
        (clientItem chunk)).queued).length ≤ edgeCapacity cfg m source :=
      fun source => capacity_replace (clientItem chunk) (hinv.capacity source) hold
    exact ⟨fun source => count_push _ _ _ (count_dropOldest _ _ _ hold (hinv.counts source)), hreplace⟩
  | @inputDrop old _ hold h =>
    rw [h]
    refine ⟨fun source => count_dropOldest _ _ _ hold (hinv.counts source), fun source => ?_⟩
    exact (onEdge_sublist source (dropOldest_sublist _ _)).length_le.trans (hinv.capacity source)
  | fence _ h =>
    rw [h]
    refine ⟨fun source => rfl, fun source => ?_⟩
    exact (onEdge_sublist source List.filter_sublist).length_le.trans (hinv.capacity source)

theorem QueueOk.pop (hinv : QueueOk cfg m (s.inboxes m)) {item : InboxItem} {rest : List InboxItem}
    (hqueued : (s.inboxes m).queued = item :: rest) : QueueOk cfg m ((s.inboxes m).pop item) := by
  have htail : ((s.inboxes m).pop item).queued = rest := by
    simp [Inbox.pop, hqueued]
  constructor
  · intro source
    have hcount := hinv.counts source
    rw [htail]
    rw [hqueued] at hcount
    simp only [Inbox.pop, Inbox.count, Function.update_apply]
    split
    · next hsame =>
      subst hsame
      rw [hcount]
      simp [onEdge]
    · next hother => simpa [onEdge, Ne.symm hother] using hcount
  · intro source
    rw [htail]
    refine (onEdge_sublist source ?_).length_le.trans (hinv.capacity source)
    rw [hqueued]
    exact List.sublist_cons_self _ _

theorem QueueOk.forward (hinv : QueueOk cfg m (s.inboxes m)) (h : ForwardMove cfg m s s') :
    QueueOk cfg m (s'.inboxes m) := by
  have hinbox : ∀ (s : State) (inbox : Inbox), (s.setInbox m inbox).inboxes m = inbox :=
    fun s inbox => Function.update_self _ _ _
  cases h with
  | @rotate seq item rest hplace hqueued heos hclient =>
    rw [hinbox]
    have hlength : ∀ source, (onEdge source (rest ++ [item])).length =
        (onEdge source (s.inboxes m).queued).length := by
      intro source
      rw [hqueued]
      refine List.Perm.length_eq (List.Perm.filter _ ?_)
      exact List.perm_append_singleton item rest
    refine ⟨fun source => ?_, fun source => ?_⟩
    · rw [hlength]
      exact hinv.counts source
    · rw [hlength]
      exact hinv.capacity source
  | whole _ hqueued =>
    change QueueOk cfg m ((State.setInbox _ m _).inboxes m)
    rw [hinbox]
    exact ⟨(hinv.pop hqueued).counts, (hinv.pop hqueued).capacity⟩
  | start _ hqueued =>
    change QueueOk cfg m ((State.setInbox _ m _).inboxes m)
    rw [hinbox]
    exact hinv.pop hqueued
  | startFails hqueued =>
    change QueueOk cfg m ((State.setInbox _ m _).inboxes m)
    rw [hinbox]
    exact hinv.pop hqueued
  | last =>
    change QueueOk cfg m ((State.setInbox _ m _).inboxes m)
    rw [hinbox]
    exact ⟨hinv.counts, hinv.capacity⟩
  | _ => exact hinv

/-! ### Edges -/

/-- The edges into `m`: the counts are right and within their bounds, the client's end of input is its
last, and the chunks keep their order. -/
structure Edges (cfg : Config) (s : State) (m : String) : Prop where
  sourced : ∀ item ∈ (s.inboxes m).queued, item.IsSourced cfg
  queue : QueueOk cfg m (s.inboxes m)
  ends : (onEdge graphInput (s.inboxes m).queued).Pairwise fun first _ => first.chunk.eos = false
  ended : ∀ item ∈ (s.inboxes m).queued, item.source = graphInput → item.chunk.eos = true →
    s.endInput ≠ none
  order : ∀ source, (onEdge source (taken s m)).Sublist (onEdge source (s.inboxes m).handed)
  complete : s.hasCloseTask = false → ∀ source, edgeOverflow cfg m source = .block →
    (onEdge source (s.inboxes m).handed).filter (isWanted s m) =
      (onEdge source (taken s m)).filter (isWanted s m)

theorem Edges.ends_push {chunk : TimedChunk} {inbox : Inbox} (h : Edges cfg s m)
    (hopen : s.endInput = none) (hsub : inbox.queued.Sublist (s.inboxes m).queued) :
    (onEdge graphInput (inbox.push (clientItem chunk)).queued).Pairwise
      fun first _ => first.chunk.eos = false := by
  have hedge := onEdge_sublist graphInput hsub
  rw [onEdge_push, List.pairwise_append]
  refine ⟨h.ends.sublist hedge, ?_, fun item hitem _ _ => ?_⟩
  · exact List.Pairwise.filter _ (List.pairwise_singleton _ _)
  · refine Bool.eq_false_iff.mpr fun heos => ?_
    obtain ⟨hmem, hsource⟩ := List.mem_filter.mp (hedge.subset hitem)
    exact h.ended item hmem (by simpa using hsource) heos hopen

theorem onEdge_push_other {source : String} (inbox : Inbox) {item : InboxItem}
    (h : item.source ≠ source) : onEdge source (inbox.push item).queued = onEdge source inbox.queued := by
  rw [onEdge_push]
  simp [onEdge, h]

theorem Edges.ends_move (hinv : Edges cfg s m) (h : InboxMove cfg s s' m) :
    (onEdge graphInput (s'.inboxes m).queued).Pairwise fun first _ => first.chunk.eos = false := by
  have hnot : ∀ {source}, source ∈ cfg.graph.names → source ≠ graphInput := by
    rintro source hnode rfl
    exact cfg.valid.input_not_node hnode
  cases h with
  | keep h =>
    rw [h]
    exact hinv.ends
  | put _ hnode _ _ h =>
    rw [h, onEdge_push_other _ (hnot hnode)]
    exact hinv.ends
  | replace _ hnode _ _ _ h =>
    rw [h, onEdge_push_other _ (hnot hnode)]
    exact hinv.ends.sublist (onEdge_sublist _ (dropOldest_sublist _ _))
  | input hopen _ _ _ _ h =>
    rw [h]
    exact hinv.ends_push hopen (List.Sublist.refl _)
  | inputReplace hopen _ _ _ _ _ h =>
    rw [h]
    exact hinv.ends_push hopen (dropOldest_sublist _ _)
  | inputDrop _ _ h =>
    rw [h]
    exact hinv.ends.sublist (onEdge_sublist _ (dropOldest_sublist _ _))
  | fence _ h =>
    rw [h]
    exact hinv.ends.sublist (onEdge_sublist _ List.filter_sublist)

theorem Edges.ends_forward (hinv : Edges cfg s m) (h : ForwardMove cfg m s s') :
    (onEdge graphInput (s'.inboxes m).queued).Pairwise fun first _ => first.chunk.eos = false := by
  have hinbox : ∀ (s : State) (inbox : Inbox), (s.setInbox m inbox).inboxes m = inbox :=
    fun s inbox => Function.update_self _ _ _
  have hpop : ∀ item, (onEdge graphInput ((s.inboxes m).pop item).queued).Pairwise
      fun first _ => first.chunk.eos = false :=
    fun item => hinv.ends.sublist (onEdge_sublist _ (List.tail_sublist _))
  cases h with
  | @rotate seq item rest hplace hqueued heos hclient =>
    have hends := hinv.ends
    rw [hqueued, show item :: rest = [item] ++ rest from rfl, onEdge_append,
      List.pairwise_append] at hends
    rw [hinbox]
    change (onEdge graphInput (rest ++ [item])).Pairwise _
    rw [onEdge_append, List.pairwise_append]
    refine ⟨hends.2.1, hends.1, fun first hfirst last hlast => ?_⟩
    rw [List.mem_singleton.mp (List.mem_filter.mp hlast).1] at hlast
    have hnone := hends.2.2 item hlast first hfirst
    rw [heos] at hnone
    cases hnone
  | @whole seq item =>
    change (onEdge graphInput ((State.setInbox _ m _).inboxes m).queued).Pairwise _
    rw [hinbox]
    exact hpop item
  | @start seq item =>
    change (onEdge graphInput ((State.setInbox _ m _).inboxes m).queued).Pairwise _
    rw [hinbox]
    exact hpop item
  | @startFails item =>
    change (onEdge graphInput ((State.setInbox _ m _).inboxes m).queued).Pairwise _
    rw [hinbox]
    exact hpop item
  | last =>
    change (onEdge graphInput ((State.setInbox _ m _).inboxes m).queued).Pairwise _
    rw [hinbox]
    exact hinv.ends
  | _ => exact hinv.ends

theorem Move.inputs (h : Move cfg a s s') :
    (s'.endInput = s.endInput ∨ s.endInput = none) ∧ s.nextInput ≤ s'.nextInput := by
  cases h with
  | report _ hput =>
    obtain ⟨inbox, rfl⟩ := putGraphInbox_inboxes hput
    exact ⟨.inl rfl, le_rfl⟩
  | fence _ _ hfence =>
    obtain ⟨_, _, _, _, _, _, _, hsame⟩ := fenceTurn_frame hfence
    change s' = _ at hsame
    rw [hsame]
    exact ⟨.inl rfl, le_rfl⟩
  | fenceRaises hfence =>
    obtain ⟨_, _, _, _, _, _, _, hsame⟩ := fenceTurn_frame hfence
    change s' = _ at hsame
    rw [hsame]
    exact ⟨.inl rfl, le_rfl⟩
  | append happend =>
    refine ⟨.inr (endInput_of_accepted (appendGraph_checked happend).1).1, ?_⟩
    obtain ⟨noted, dropped, hnoted, hdropped, rfl⟩ := appendGraph_ok happend
    have hsame : dropped.nextInput = s.nextInput :=
      (dropOldestInputs_inputs hdropped).2.trans (noteReaders_inputs hnoted).2
    change s.nextInput ≤ dropped.nextInput + 1
    omega
  | appendRaises happend =>
    refine ⟨.inr (endInput_of_accepted (appendGraph_checked happend).1).1, ?_⟩
    rcases appendGraph_raised happend with hnoted | ⟨noted, hnoted, hdropped⟩
    · exact (noteReaders_inputs hnoted).2.ge
    · exact ((dropOldestInputs_inputs hdropped).2.trans (noteReaders_inputs hnoted).2).ge
  | read hread =>
    obtain ⟨_, _, _, _, rfl⟩ := readOutput_frame hread
    exact ⟨.inl rfl, le_rfl⟩
  | forward _ hmove => cases hmove <;> exact ⟨.inl rfl, le_rfl⟩
  | @route _ _ n _ hmove =>
    cases hmove with
    | @confirm output size rest hplace houtputs hdone =>
      obtain ⟨s₁, hmoves, _, _, hend⟩ : ∃ s₁, ReflTransGen (ConfirmMove cfg)
          (s.popOutput n rest size) s₁ ∧ _ := routeInputDone_frame
      obtain ⟨_, _, _, _, _, _, _, _, rfl⟩ := confirms_frame hmoves
      rw [hend]
      exact ⟨.inl rfl, le_rfl⟩
    | @data output hplace htargets =>
      obtain ⟨outputEndMs, replyStartMs, hclock⟩ := routeClock_eq cfg s n output
      rw [hclock]
      exact ⟨.inl rfl, le_rfl⟩
    | put hplace hput =>
      obtain ⟨inbox, rfl⟩ := putGraphInbox_inboxes hput
      exact ⟨.inl rfl, le_rfl⟩
    | _ => exact ⟨.inl rfl, le_rfl⟩
  | deliver _ _ hmove =>
    cases hmove with
    | put hplace hput =>
      obtain ⟨inbox, rfl⟩ := putGraphInbox_inboxes hput
      exact ⟨.inl rfl, le_rfl⟩
    | _ => exact ⟨.inl rfl, le_rfl⟩
  | drain _ _ hemit =>
    obtain ⟨-, -, rfl⟩ := emitGraphInputDone_ok hemit
    exact ⟨.inl rfl, le_rfl⟩
  | @cancel _ task _ => cases task <;> exact ⟨.inl rfl, le_rfl⟩
  | _ => exact ⟨.inl rfl, le_rfl⟩

theorem Edges.ended_move (hinv : Edges cfg s m) (h : InboxMove cfg s s' m)
    (hinputs : s'.endInput = s.endInput ∨ s.endInput = none) :
    ∀ item ∈ (s'.inboxes m).queued, item.source = graphInput → item.chunk.eos = true →
      s'.endInput ≠ none := by
  intro item hitem hsource heos
  have hold : item ∈ (s.inboxes m).queued → s'.endInput ≠ none := by
    intro hold
    have hended := hinv.ended item hold hsource heos
    rcases hinputs with hsame | hnone
    · rwa [hsame]
    · exact absurd hnone hended
  have hnew : ∀ chunk, (s'.endInput = if chunk.eos then some chunk else none) →
      item = clientItem chunk → s'.endInput ≠ none := by
    rintro chunk hended hclient
    rw [hclient] at heos
    rw [hended, if_pos (show chunk.eos = true from heos)]
    exact Option.some_ne_none _
  have hnot : item.source ∉ cfg.graph.names := by
    rw [hsource]
    exact cfg.valid.input_not_node
  cases h with
  | keep h =>
    rw [h] at hitem
    exact hold hitem
  | put _ hnode _ _ h =>
    rw [h] at hitem
    rcases mem_push hitem with hitem | rfl
    · exact hold hitem
    · exact absurd hnode hnot
  | replace _ hnode _ _ _ h =>
    rw [h] at hitem
    rcases mem_push hitem with hitem | rfl
    · exact hold (mem_dropOldest hitem)
    · exact absurd hnode hnot
  | input _ hended _ _ _ h =>
    rw [h] at hitem
    rcases mem_push hitem with hitem | hclient
    · exact hold hitem
    · exact hnew _ hended hclient
  | inputReplace _ hended _ _ _ _ h =>
    rw [h] at hitem
    rcases mem_push hitem with hitem | hclient
    · exact hold (mem_dropOldest hitem)
    · exact hnew _ hended hclient
  | inputDrop _ _ h =>
    rw [h] at hitem
    exact hold (mem_dropOldest hitem)
  | fence _ h =>
    rw [h] at hitem
    exact hold (mem_fence hitem).1

theorem isWanted_anti (hmove : Move cfg a s s') {item : InboxItem} (h : isWanted s' m item = true) :
    isWanted s m item = true := by
  simp only [isWanted, State.isInterrupted, Bool.not_eq_true', List.any_eq_false] at h ⊢
  exact fun turn hturn => h turn ((hmove.turns m).1 turn hturn)

theorem filter_isWanted_mono (hmove : Move cfg a s s') {first second : List InboxItem}
    (h : first.filter (isWanted s m) = second.filter (isWanted s m)) :
    first.filter (isWanted s' m) = second.filter (isWanted s' m) := by
  have hmore : ∀ items : List InboxItem,
      items.filter (isWanted s' m) = (items.filter (isWanted s m)).filter (isWanted s' m) := by
    intro items
    rw [List.filter_filter]
    refine List.filter_congr fun item _ => ?_
    by_cases hwanted : isWanted s' m item = true
    · simp [hwanted, isWanted_anti hmove hwanted]
    · simp [hwanted]
  rw [hmore first, hmore second, h]

theorem Edges.move (h : Edges cfg s m) (hmove : Move cfg a s s')
    (hclosing : s.isClosing = true → s.hasCloseTask = true) : Edges cfg s' m := by
  have hkept := CloseKept.move hmove
  have hbegun : s'.hasCloseTask = false → s.hasCloseTask = false := hkept.was_open
  have htaken : TakenMove cfg s s' m := by
    by_cases hforward : ForwardMove cfg m s s'
    · exact hforward.taken h.sourced h.ends
    · have hinbox := (hmove.inbox m).resolve_right fun hf => hforward hf.2.2
      refine hinbox.taken ?_
      rcases (hmove.forwarder m).resolve_right fun hf => hforward hf.2.2 with hsame | ⟨hstop, hclose⟩
      · exact .inl hsame
      · refine .inr ⟨hstop, ?_⟩
        rcases hclose with hclose | hclose
        · exact hclose
        · exact hkept.begun (hclosing hclose)
  obtain ⟨added, hhanded, hedges⟩ := htaken
  refine ⟨fun item hitem => ?_, ?_, ?_, fun item hitem hsource heos => ?_, fun source => ?_,
    fun hopen source hblock => ?_⟩
  · rcases hmove.inbox m with hinbox | ⟨-, -, hforward⟩
    · rcases hinbox.mem hitem with hold | ⟨horigin, hnode, -⟩ | hclient
      · exact h.sourced item hold
      · exact isSourced_of_origin horigin hnode
      · exact .inl hclient
    · exact h.sourced item (hforward.mem_inbox hitem)
  · rcases hmove.inbox m with hinbox | ⟨-, -, hforward⟩
    · exact h.queue.move hinbox
    · exact h.queue.forward hforward
  · rcases hmove.inbox m with hinbox | ⟨-, -, hforward⟩
    · exact h.ends_move hinbox
    · exact h.ends_forward hforward
  · rcases hmove.inbox m with hinbox | ⟨-, -, hforward⟩
    · exact h.ended_move hinbox hmove.inputs.1 item hitem hsource heos
    · have hended := h.ended item (hforward.mem_inbox hitem) hsource heos
      rcases hmove.inputs.1 with hsame | hnone
      · rwa [hsame]
      · exact absurd hnone hended
  · rw [hhanded, onEdge_append]
    refine (hedges source).1.trans ?_
    rw [onEdge_append]
    exact (h.order source).append (List.Sublist.refl _)
  · rw [(hedges source).2 hopen hblock, hhanded, onEdge_append, onEdge_append, List.filter_append,
      List.filter_append, filter_isWanted_mono hmove (h.complete (hbegun hopen) source hblock)]

theorem Edges.initial (m : String) : Edges cfg .initial m where
  sourced := fun item hitem => (by cases hitem)
  queue := ⟨fun _ => rfl, fun _ => Nat.zero_le _⟩
  ends := List.Pairwise.nil
  ended := fun item hitem => (by cases hitem)
  order := fun _ => List.Sublist.refl _
  complete := fun _ _ _ => rfl

end Session
