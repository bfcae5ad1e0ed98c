import SglangOmni.Omni.Holders

/-! The lookups find every live request as long as the chunked one is never left out of all the batches
and the waiting queue, and no id is enqueued while an earlier request of it still sits in a holder. -/

namespace Omni.Holders

open State

def Condition (s : State) : Action → Prop
  | .enqueue _ rid _ => ∀ o ∈ s.members, (s.req o).rid ≠ rid
  | .upstream u => ∀ c ∈ u.chunked, (s.upstream u).live c = true →
      c ∈ (s.upstream u).scanned ∨ c ∈ u.waiting
  | _ => True

instance (s : State) : (a : Action) → Decidable (Condition s a)
  | .enqueue _ rid _ => inferInstanceAs (Decidable (∀ o ∈ s.members, (s.req o).rid ≠ rid))
  | .upstream u => inferInstanceAs (Decidable (∀ c ∈ u.chunked, (s.upstream u).live c = true →
      c ∈ (s.upstream u).scanned ∨ c ∈ u.waiting))
  | .abort .. | .abortAll | .retract | .fail _ | .queue .. => inferInstanceAs (Decidable True)

variable {s s' s'' : State} {o : Nat}

theorem live_iff : s.live o = true ↔ o ∈ s.enqueued ∧ (s.req o).data.isSome = true
    ∧ (s.req o).finished = false ∧ (s.req o).claimed = false ∧ (s.req o).toFinish = false := by
  simp [State.live, and_assoc]

theorem mem_members : o ∈ s.members ↔ o ∈ s.scanned ∨ o ∈ s.waiting ∨ s.chunked = some o := by
  simp [State.members]

/-- A live chunked request is also in a scanned batch or in the waiting queue. -/
def ChunkedSeen (s : State) : Prop :=
  ∀ c, s.chunked = some c → s.live c = true → c ∈ s.scanned ∨ c ∈ s.waiting

/-- An operation that only takes requests out of holders and out of life. -/
structure Narrows (s s' : State) : Prop where
  rid : ∀ o, (s'.req o).rid = (s.req o).rid
  members : ∀ o ∈ s'.members, o ∈ s.members
  enqueued : s'.enqueued = s.enqueued
  chunked : ChunkedSeen s → ChunkedSeen s'

theorem Narrows.refl (s : State) : Narrows s s := ⟨fun _ => rfl, fun _ h => h, rfl, fun h => h⟩

theorem Narrows.trans (h : Narrows s s') (h' : Narrows s' s'') : Narrows s s'' :=
  ⟨fun o => (h'.rid o).trans (h.rid o), fun o ho => h.members o (h'.members o ho),
    h'.enqueued.trans h.enqueued, fun hc => h'.chunked (h.chunked hc)⟩

/-! ### What an abort does -/

structure Aborted (s : State) (requestId : String) (s' : State) : Prop where
  rid : ∀ o, (s'.req o).rid = (s.req o).rid
  scanned : s'.scanned = s.scanned
  waiting : s'.waiting = s.waiting.filter fun o => (s.req o).rid != requestId
  chunked : s'.chunked = s.chunked
  enqueued : s'.enqueued = s.enqueued
  live : ∀ o, s'.live o = true → s.live o = true
  reached : ∀ o, (s.req o).rid = requestId →
    (o ∈ s.waiting ∨ (o ∈ s.scanned ∧ (s.req o).retracted = false)) → s'.live o = false

/-- What an abort leaves of one request: its id, and at most the life it had. -/
structure ReqAborted (r r' : Req) : Prop where
  rid : r'.rid = r.rid
  data : r'.data.isSome = true → r.data.isSome = true
  finished : r'.finished = false → r.finished = false
  claimed : r'.claimed = r.claimed
  toFinish : r'.toFinish = false → r.toFinish = false

theorem ReqAborted.refl (r : Req) : ReqAborted r r := ⟨rfl, id, id, rfl, id⟩

theorem ReqAborted.trans {r r' r'' : Req} (h : ReqAborted r r') (h' : ReqAborted r' r'') :
    ReqAborted r r'' :=
  ⟨h'.rid.trans h.rid, fun hd => h.data (h'.data hd), fun hf => h.finished (h'.finished hf),
    h'.claimed.trans h.claimed, fun ht => h.toFinish (h'.toFinish ht)⟩

theorem reqAborted_detach (s : State) (objects : List Nat) (o : Nat) :
    ReqAborted (s.req o) ((s.detach objects).req o) := by
  unfold State.detach
  simp only
  split
  · exact ⟨rfl, nofun, id, rfl, id⟩
  · exact .refl _

theorem reqAborted_mark (s : State) (requestId : String) (o : Nat) :
    ReqAborted (s.req o) ((s.markRunningRequestAborted requestId).2.req o) := by
  unfold State.markRunningRequestAborted
  simp only
  split
  · exact ⟨rfl, id, id, rfl, nofun⟩
  · exact .refl _

theorem reqAborted_finish (s : State) (requestId : String) (o : Nat) :
    ReqAborted (s.req o) ((s.markRequestFinishedImmediately requestId).2.req o) := by
  unfold State.markRequestFinishedImmediately
  simp only
  split
  · exact ⟨rfl, id, nofun, rfl, nofun⟩
  · exact .refl _

structure SameHolders (s s' : State) : Prop where
  scanned : s'.scanned = s.scanned
  chunked : s'.chunked = s.chunked
  enqueued : s'.enqueued = s.enqueued
  waiting : s'.waiting = s.waiting

/-- After the batch scans, a request of the id in a batch is finished or asked to finish, unless it is
retracted. -/
structure Scanned (s : State) (requestId : String) (t : State) : Prop where
  same : SameHolders s t
  req : ∀ o, ReqAborted (s.req o) (t.req o)
  ended : ∀ o ∈ s.scanned, (s.req o).rid = requestId → (s.req o).retracted = false →
    (t.req o).finished = true ∨ (t.req o).claimed = true ∨ (t.req o).toFinish = true

theorem scanned_mark (s : State) (requestId : String) :
    Scanned s requestId (s.markRunningRequestAborted requestId).2 := by
  refine ⟨⟨rfl, rfl, rfl, rfl⟩, reqAborted_mark s requestId, fun o ho hrid hretracted => ?_⟩
  unfold State.markRunningRequestAborted State.abortable
  simp only [List.contains_iff_mem.mpr ho, hrid, hretracted, beq_self_eq_true, Bool.true_and,
    Bool.or_false]
  cases hc : (s.req o).claimed <;> cases hf : (s.req o).finished <;> simp [hc, hf]

theorem scanned_finish (s : State) (requestId : String) :
    Scanned s requestId (s.markRequestFinishedImmediately requestId).2 := by
  refine ⟨⟨rfl, rfl, rfl, rfl⟩, reqAborted_finish s requestId, fun o ho hrid _ => .inl ?_⟩
  unfold State.markRequestFinishedImmediately
  simp [ho, hrid]

theorem abortScans_scanned (s : State) (requestId : String) (deferRunningCleanup : Bool) :
    Scanned s requestId (s.abortScans requestId deferRunningCleanup).2 := by
  unfold State.abortScans
  cases deferRunningCleanup with
  | false => exact scanned_finish s requestId
  | true =>
    simp only [if_true]
    split
    · exact scanned_mark s requestId
    · -- nothing was marked, so the requests of the id are finished at once
      have hmark := scanned_mark s requestId
      have hfinish := scanned_finish (s.markRunningRequestAborted requestId).2 requestId
      refine ⟨⟨rfl, rfl, rfl, rfl⟩, fun o => (hmark.req o).trans (hfinish.req o),
        fun o ho hrid hretracted => ?_⟩
      refine hfinish.ended o ho ((hmark.req o).rid.trans hrid) ?_
      unfold State.markRunningRequestAborted
      simp only
      split <;> exact hretracted

theorem abort_aborted (s : State) (requestId : String) (deferRunningCleanup : Bool) :
    Aborted s requestId (s.abort requestId deferRunningCleanup) := by
  have hscan := abortScans_scanned s requestId deferRunningCleanup
  generalize hscans : s.abortScans requestId deferRunningCleanup = scans at hscan
  have hreq : ∀ o, ReqAborted (s.req o) ((s.abort requestId deferRunningCleanup).req o) := by
    intro o
    have h₁ := reqAborted_detach scans.2
      (scans.2.waiting.filter fun o => (scans.2.req o).rid == requestId) o
    have h₂ := reqAborted_detach (scans.2.abortWaiting requestId) scans.1 o
    simp only [State.abort, hscans, State.forget]
    exact (hscan.req o).trans (h₁.trans h₂)
  refine ⟨fun o => (hreq o).rid, ?_, ?_, ?_, ?_, fun o hlive => ?_, fun o hrid hin => ?_⟩
  · simp only [State.abort, hscans]
    exact hscan.same.scanned
  · simp only [State.abort, hscans, State.forget, State.detach, State.abortWaiting,
      hscan.same.waiting, (hscan.req _).rid]
  · simp only [State.abort, hscans]
    exact hscan.same.chunked
  · simp only [State.abort, hscans]
    exact hscan.same.enqueued
  · obtain ⟨henq, hdata, hfin, hclaim, hto⟩ := live_iff.mp hlive
    have hsame : (s.abort requestId deferRunningCleanup).enqueued = s.enqueued := by
      simp only [State.abort, hscans]
      exact hscan.same.enqueued
    exact live_iff.mpr ⟨hsame ▸ henq, (hreq o).data hdata, (hreq o).finished hfin,
      (hreq o).claimed ▸ hclaim, (hreq o).toFinish hto⟩
  · refine Bool.eq_false_iff.mpr fun hlive => ?_
    obtain ⟨-, hdata, hfin, hclaim, hto⟩ := live_iff.mp hlive
    simp only [State.abort, hscans, State.forget] at hdata hfin hclaim hto
    have h₂ := reqAborted_detach (scans.2.abortWaiting requestId) scans.1 o
    have h₁ := reqAborted_detach scans.2
      (scans.2.waiting.filter fun o => (scans.2.req o).rid == requestId) o
    rcases hin with hwaiting | ⟨hscanned, hretracted⟩
    · have hd := h₂.data hdata
      have hmatch : o ∈ scans.2.waiting.filter fun o => (scans.2.req o).rid == requestId := by
        rw [List.mem_filter, hscan.same.waiting, beq_iff_eq]
        exact ⟨hwaiting, (hscan.req o).rid.trans hrid⟩
      simp only [State.abortWaiting, State.detach, List.contains_iff_mem.mpr hmatch, if_true] at hd
      cases hd
    · rcases hscan.ended o hscanned hrid hretracted with h | h | h
      · have := h₁.finished (h₂.finished hfin)
        rw [h] at this
        cases this
      · have := h₁.claimed.symm.trans (h₂.claimed.symm.trans hclaim)
        rw [h] at this
        cases this
      · have := h₁.toFinish (h₂.toFinish hto)
        rw [h] at this
        cases this

theorem Aborted.narrows {requestId : String} (h : Aborted s requestId s') : Narrows s s' where
  rid := h.rid
  members o ho := by
    rw [mem_members, h.scanned, h.waiting, h.chunked, List.mem_filter] at ho
    exact mem_members.mpr (ho.imp_right (Or.imp_left And.left))
  enqueued := h.enqueued
  chunked hseen c hc hlive := by
    rw [h.chunked] at hc
    rcases hseen c hc (h.live c hlive) with hscanned | hwaiting
    · exact .inl (h.scanned ▸ hscanned)
    · refine .inr ?_
      rw [h.waiting, List.mem_filter]
      refine ⟨hwaiting, ?_⟩
      rw [bne_iff_ne]
      intro hrid
      rw [h.reached c hrid (.inl hwaiting)] at hlive
      cases hlive

theorem narrows_abort (s : State) (requestId : String) (deferRunningCleanup : Bool) :
    Narrows s (s.abort requestId deferRunningCleanup) :=
  (abort_aborted s requestId deferRunningCleanup).narrows

/-! ### The other operations -/

theorem mem_scanned : o ∈ s.scanned ↔ o ∈ s.running ∨ o ∈ s.cur.getD [] ∨ o ∈ s.last.getD []
    ∨ ∃ batch ∈ s.pendingBatches, o ∈ batch := by
  unfold State.scanned State.scannedBatches
  cases s.cur <;> cases s.last <;> simp [or_assoc]

theorem mem_getD_map_filterBatch {batch : Option Batch} (h : o ∈ (batch.map s.filterBatch).getD []) :
    o ∈ batch.getD [] := by
  cases batch with
  | none => exact h
  | some batch => exact List.mem_of_mem_filter h

theorem narrows_abortAll (s : State) : Narrows s s.abortAllRequests := by
  have hfold : Narrows s (s.activeRequestIds.foldl (fun s id => s.abort id false) s) :=
    List.foldlRecOn (motive := Narrows s) _ _ (.refl s) fun t ht id _ =>
      ht.trans (narrows_abort t id false)
  refine hfold.trans ⟨fun _ => rfl, fun o ho => ?_, rfl, fun _ c hc => by cases hc⟩
  simp only [State.abortAllRequests] at ho
  generalize s.activeRequestIds.foldl (fun s id => s.abort id false) s = t at ho ⊢
  simp only [mem_members, mem_scanned, reduceCtorEq, or_false] at ho ⊢
  rcases ho with (h | h | h | h) | h
  · exact .inl (.inl (List.mem_of_mem_filter h))
  · exact .inl (.inr (.inl (mem_getD_map_filterBatch h)))
  · exact .inl (.inr (.inr (.inl (mem_getD_map_filterBatch h))))
  · exact .inl (.inr (.inr (.inr h)))
  · exact .inr (.inl h)

theorem narrows_retract (s : State) : Narrows s s.retractRunningRequests := by
  refine ⟨fun o => ?_, fun o ho => ?_, rfl, fun _ c hc => by cases hc⟩
  · unfold State.retractRunningRequests
    simp only
    split <;> rfl
  · simp only [State.retractRunningRequests, State.retractable, mem_members, mem_scanned,
      List.mem_append, List.mem_filter, List.mem_dedup, Option.getD_none, List.not_mem_nil, false_or,
      reduceCtorEq, or_false, Option.mem_toList] at ho ⊢
    rcases ho with (h | h) | h | ⟨(h | h) | h, -⟩
    · exact .inl (.inr (.inl h))
    · exact .inl (.inr (.inr (.inr h)))
    · exact .inr (.inl h)
    · exact .inl (.inl h)
    · split at h
      · exact .inl (.inr (.inr (.inl h)))
      · cases h
    · exact .inr (.inr h)

theorem narrows_fail (s : State) (batch : Batch) : Narrows s (s.handleBatchFailure batch) := by
  unfold State.handleBatchFailure
  simp only
  refine List.foldlRecOn (motive := Narrows s) _ _ ?_ fun t ht o _ => ht.trans (narrows_abort t _ false)
  refine ⟨fun o => ?_, fun o ho => ?_, rfl, fun hseen c hc hlive => ?_⟩
  · simp only
    split <;> rfl
  · rw [mem_members] at ho ⊢
    refine ho.imp_right (Or.imp_right fun hc => ?_)
    exact (Option.filter_eq_some_iff.mp hc).1
  · obtain ⟨henq, hdata, hfin, hclaim, hto⟩ := live_iff.mp hlive
    have hchunked : s.chunked = some c := (Option.filter_eq_some_iff.mp hc).1
    refine hseen c hchunked ?_
    simp only at hdata hfin hclaim hto
    split at hclaim
    · cases hclaim
    · next hb =>
      rw [if_neg hb] at hdata hfin hto
      exact live_iff.mpr ⟨henq, hdata, hfin, hclaim, hto⟩

/-! ### The invariant -/

structure Known (s : State) : Prop where
  distinct : ∀ o ∈ s.members, ∀ o' ∈ s.members, (s.req o).rid = (s.req o').rid → o = o'
  enqueued : ∀ o ∈ s.members, o ∈ s.enqueued
  chunked : ChunkedSeen s
  holds : s.upstreamHolds = true

theorem Known.narrows (h : Known s) (hn : Narrows s s') (hholds : s'.upstreamHolds = true) :
    Known s' where
  distinct o ho o' ho' hrid := by
    rw [hn.rid, hn.rid] at hrid
    exact h.distinct o (hn.members o ho) o' (hn.members o' ho') hrid
  enqueued o ho := hn.enqueued ▸ h.enqueued o (hn.members o ho)
  chunked := hn.chunked h.chunked
  holds := hholds

theorem known_step (h : Known s) {a : Action} (hcondition : Condition s a)
    (hstep : loop.step s a = some s') : Known s' := by
  obtain ⟨hperform, hholds⟩ := Option.filter_eq_some_iff.mp hstep
  cases a with
  | enqueue o rid data =>
    simp only [State.perform] at hperform
    split at hperform
    · cases hperform
    next hnew =>
    cases hperform
    have hfresh : o ∉ s.members := fun ho => hnew (List.contains_iff_mem.mpr (h.enqueued o ho))
    have hmem : ∀ o' ∈ (s.enqueueBuilt o rid data).members, o' = o ∨ o' ∈ s.members := by
      intro o' ho'
      rw [mem_members] at ho' ⊢
      simp only [State.enqueueBuilt, List.mem_append, List.mem_singleton] at ho'
      rcases ho' with ho' | (ho' | ho') | ho'
      · exact .inr (.inl ho')
      · exact .inr (.inr (.inl ho'))
      · exact .inl ho'
      · exact .inr (.inr (.inr ho'))
    have hreq : ∀ o' ∈ s.members, (s.enqueueBuilt o rid data).req o' = s.req o' := by
      intro o' ho'
      refine if_neg fun he => hfresh ?_
      rw [← he]
      exact ho'
    have hself : ((s.enqueueBuilt o rid data).req o).rid = rid := by simp [State.enqueueBuilt]
    refine ⟨fun a ha b hb hrid => ?_, fun a ha => ?_, fun c hc hlive => ?_, hholds⟩
    · rcases hmem a ha with ha' | ha' <;> rcases hmem b hb with hb' | hb'
      · exact ha'.trans hb'.symm
      · rw [ha', hself, hreq b hb'] at hrid
        exact absurd hrid.symm (hcondition b hb')
      · rw [hb', hself, hreq a ha'] at hrid
        exact absurd hrid (hcondition a ha')
      · rw [hreq a ha', hreq b hb'] at hrid
        exact h.distinct a ha' b hb' hrid
    · rcases hmem a ha with ha' | ha'
      · rw [ha']
        exact List.mem_append_right _ (List.mem_singleton_self _)
      · exact List.mem_append_left _ (h.enqueued a ha')
    · have hc' : c ∈ s.members := mem_members.mpr (.inr (.inr hc))
      have hlive' : s.live c = true := by
        obtain ⟨-, hrest⟩ := live_iff.mp hlive
        rw [hreq c hc'] at hrest
        exact live_iff.mpr ⟨h.enqueued c hc', hrest⟩
      exact (h.chunked c hc hlive').imp_right (List.mem_append_left _)
  | upstream u =>
    simp only [State.perform] at hperform
    split at hperform
    · next hsub =>
      cases hperform
      have hmem : ∀ o ∈ (s.upstream u).members, o ∈ s.members := fun o ho =>
        List.contains_iff_mem.mp (List.all_eq_true.mp hsub o ho)
      exact ⟨fun a ha b hb hrid => h.distinct a (hmem a ha) b (hmem b hb) hrid,
        fun a ha => h.enqueued a (hmem a ha), hcondition, hholds⟩
    · cases hperform
  | abort requestId deferRunningCleanup =>
    cases hperform
    exact h.narrows (narrows_abort s requestId deferRunningCleanup) hholds
  | abortAll =>
    cases hperform
    exact h.narrows (narrows_abortAll s) hholds
  | retract =>
    cases hperform
    exact h.narrows (narrows_retract s) hholds
  | fail batch =>
    cases hperform
    exact h.narrows (narrows_fail s batch) hholds
  | queue =>
    cases hperform
    exact h.narrows ⟨fun _ => rfl, fun _ ho => ho, rfl, fun hseen => hseen⟩ hholds

theorem known_of_reaches (h : loop.Reaches Condition s) : Known s := by
  refine h.invariant ⟨nofun, nofun, nofun, rfl⟩ fun _ _ _ hs hcondition hstep =>
    known_step hs hcondition hstep

/-! ### The lookups -/

/-- A request that the scheduler's lookups see: its data is found, its id is among the active ones, and an
abort of its id ends it. -/
structure Visible (s : State) (o : Nat) : Prop where
  data : s.findRequestData (s.req o).rid = (s.req o).data
  active : (s.req o).rid ∈ s.activeRequestIds
  aborted : ∀ deferRunningCleanup,
    (s.abort (s.req o).rid deferRunningCleanup).live o = false

theorem find?_of_distinct {l : List Nat} (hl : ∀ o' ∈ l, (s.req o').rid = (s.req o).rid → o' = o) :
    (l.find? fun o' => (s.req o').rid == (s.req o).rid) = if o ∈ l then some o else none := by
  split
  · next ho =>
    have hsome : (l.find? fun o' => (s.req o').rid == (s.req o).rid).isSome = true := by
      rw [List.find?_isSome]
      exact ⟨o, ho, beq_self_eq_true _⟩
    obtain ⟨o', ho'⟩ := Option.isSome_iff_exists.mp hsome
    have hrid := List.find?_some ho'
    rw [ho', hl o' (List.mem_of_find?_eq_some ho') (beq_iff_eq.mp hrid)]
  · next ho =>
    rw [List.find?_eq_none]
    intro o' ho' hrid
    exact ho (hl o' ho' (beq_iff_eq.mp hrid) ▸ ho')

theorem visible_of_known (h : Known s) (hlive : s.live o = true) : Visible s o := by
  obtain ⟨henq, hdata, hfin, hclaim, hto⟩ := live_iff.mp hlive
  have hheld := List.all_eq_true.mp h.holds o henq
  rw [hlive] at hheld
  simp only [Bool.not_true, Bool.false_or, Bool.and_eq_true, List.contains_iff_mem, Bool.or_eq_true,
    Bool.not_eq_true'] at hheld
  obtain ⟨hmember, hretracted⟩ := hheld
  have hseen : o ∈ s.scanned ∨ o ∈ s.waiting := by
    rcases mem_members.mp hmember with ho | ho | ho
    · exact .inl ho
    · exact .inr ho
    · exact h.chunked o ho hlive
  have hunique : ∀ o' ∈ s.members, (s.req o').rid = (s.req o).rid → o' = o := fun o' ho' hrid =>
    h.distinct o' ho' o hmember hrid
  refine ⟨?_, ?_, fun deferRunningCleanup => ?_⟩
  · unfold State.findRequestData
    rw [find?_of_distinct fun o' ho' => hunique o' (mem_members.mpr (.inl ho')),
      find?_of_distinct fun o' ho' => hunique o' (mem_members.mpr (.inr (.inl ho')))]
    by_cases hscanned : o ∈ s.scanned
    · simp [hscanned]
    · have hwaiting := hseen.resolve_left hscanned
      simp [hscanned, hwaiting]
  · unfold State.activeRequestIds State.activeIds
    simp only [List.mem_mergeSort, List.mem_dedup, List.mem_append]
    rcases hseen with ho | ho
    · exact .inr (List.mem_map.mpr ⟨o, List.mem_filter.mpr ⟨ho, by simp [hfin]⟩, rfl⟩)
    · exact .inl (.inl (.inr (List.mem_map_of_mem ho)))
  · refine (abort_aborted s _ deferRunningCleanup).reached o rfl ?_
    rcases hseen with ho | ho
    · rcases hretracted with hretracted | hwaiting
      · exact .inr ⟨ho, hretracted⟩
      · exact .inl hwaiting
    · exact .inl ho

/-- In every run whose steps meet the condition, the lookups see every live request. -/
theorem live_visible (h : loop.Reaches Condition s) : ∀ o, s.live o = true → Visible s o :=
  fun _ hlive => visible_of_known (known_of_reaches h) hlive

/-- SGLang's step that leaves the holders with these batches and this chunked request. -/
def arranged (running : Batch) (last : Option Batch) (chunked : Option Nat) : Upstream :=
  { running, cur := last, last, lastIsExtend := true, previousPendingDecode := none,
    asyncPending := none, resultQueue := [], waiting := [], chunked, finish := [], retracted := [] }

def chunkedInLast : List Action :=
  [.enqueue 0 "long" 7, .enqueue 1 "short" 8, .upstream (arranged [1] (some [0]) (some 0))]

theorem live_visible_chunkedInLast :
    ∃ s, loop.Reaches Condition s ∧ s.chunked = some 0 ∧ s.live 0 = true ∧ Visible s 0 := by
  have hrun : (loop.execWhere (fun s a => decide (Condition s a)) .initial chunkedInLast).any
      (fun s => decide (s.chunked = some 0 ∧ s.live 0 = true)) = true := by
    decide +kernel
  obtain ⟨s, hs, hend⟩ := (Option.any_eq_true _ _).mp hrun
  have hreaches : loop.Reaches Condition s :=
    Lib.Machine.path_of_execWhere (fun _ _ h => of_decide_eq_true h) hs
  obtain ⟨hchunked, hlive⟩ := of_decide_eq_true hend
  exact ⟨s, hreaches, hchunked, hlive, live_visible hreaches 0 hlive⟩

/-- Between two chunks the decoding request runs alone, and the lookups miss the chunked one. -/
theorem chunked_not_visible :
    ∃ s, loop.Reaches Lib.Machine.anyAction s ∧ s.live 0 = true ∧ 0 ∈ s.members
      ∧ s.findRequestData (s.req 0).rid = none ∧ (s.req 0).rid ∉ s.activeRequestIds
      ∧ (s.abort (s.req 0).rid true).live 0 = true := by
  have hrun : (loop.exec .initial
      (chunkedInLast ++ [Action.upstream (arranged [1] (some [1]) (some 0))])).any
      (fun s => decide (s.live 0 = true ∧ 0 ∈ s.members ∧ s.findRequestData (s.req 0).rid = none
        ∧ (s.req 0).rid ∉ s.activeIds ∧ (s.abort (s.req 0).rid true).live 0 = true)) = true := by
    decide +kernel
  obtain ⟨s, hs, hend⟩ := (Option.any_eq_true _ _).mp hrun
  obtain ⟨hlive, hmember, hfind, hactive, habort⟩ := of_decide_eq_true hend
  refine ⟨s, Lib.Machine.path_of_exec hs, hlive, hmember, hfind, ?_, habort⟩
  simpa only [State.activeRequestIds, List.mem_mergeSort, List.mem_dedup] using hactive

end Omni.Holders
