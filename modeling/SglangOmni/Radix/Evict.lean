import SglangOmni.Radix.Cache

/-! `evict` deletes evictable leaves by least priority, as it would from a heap built afresh for the
call.  The heap may hold stale and repeated entries; what counts is that every evictable leaf has an
entry no later than its priority, so that the first entry that is up to date is a least leaf. -/

namespace Radix

open Lib

variable {τ ν π : Type} [LinearOrder π] (base : RadixCache τ ν π)

/-- What an eviction of `numTokens` tokens should do from a tree and a count: delete an evictable leaf
of least priority as long as the count is too small and there is one. -/
inductive LeastFirst (numTokens : Int) : τ → Nat → List ν → τ → Nat → Prop
  | reached (t : τ) (n : Nat) : numTokens ≤ n → LeastFirst numTokens t n [] t n
  | exhausted (t : τ) (n : Nat) : base.evictableLeaves t = [] → LeastFirst numTokens t n [] t n
  | evict (t t' : τ) (n n' : Nat) (x : ν) (xs : List ν) : (n : Int) < numTokens →
      x ∈ base.evictableLeaves t →
      (∀ y ∈ base.evictableLeaves t, base.getPriority t x ≤ base.getPriority t y) →
      LeastFirst numTokens (base.deleted t x) (n + base.valueLength t x) xs t' n' →
      LeastFirst numTokens t n (x :: xs) t' n'

/-- Two orders of eviction from a tree agree until they choose between leaves of equal priority. -/
inductive AgreeUpToTies : τ → List ν → List ν → Prop
  | nil (t : τ) : AgreeUpToTies t [] []
  | same (t : τ) (x : ν) (xs ys : List ν) : AgreeUpToTies (base.deleted t x) xs ys →
      AgreeUpToTies t (x :: xs) (x :: ys)
  | tie (t : τ) (x y : ν) (xs ys : List ν) : x ≠ y → base.getPriority t x = base.getPriority t y →
      AgreeUpToTies t (x :: xs) (y :: ys)

/-- `x` has an entry that is no later than its priority. -/
def HasEntry (t : τ) (heap : List (Entry π ν)) (x : ν) : Prop :=
  ∃ e ∈ heap, e.value = x ∧ e.priority ≤ base.getPriority t x

/-- What holds between calls, and between the iterations of `evict`. -/
structure Kept (s : EvictHeapRadixCache τ ν π) : Prop where
  heap : HeapUpTo s.evictHeapSeq s.evictHeap
  covered : ∀ x ∈ base.evictableLeaves s.tree, HasEntry base s.tree s.evictHeap x

variable {base}

theorem HasEntry.mono {t t' : τ} {heap : List (Entry π ν)} {x : ν} (h : HasEntry base t heap x)
    (hle : base.getPriority t x ≤ base.getPriority t' x) : HasEntry base t' heap x := by
  obtain ⟨e, he, hx, hp⟩ := h
  exact ⟨e, he, hx, le_trans hp hle⟩

theorem HasEntry.of_cons {t : τ} {top : Entry π ν} {rest : List (Entry π ν)} {x : ν}
    (h : HasEntry base t (top :: rest) x) (hne : x ≠ top.value) : HasEntry base t rest x := by
  obtain ⟨e, he, hx, hp⟩ := h
  cases he with
  | head => exact absurd hx.symm hne
  | tail _ he => exact ⟨e, he, hx, hp⟩

open EvictHeapRadixCache

@[simp] theorem evictHeapPush_tree (s : EvictHeapRadixCache τ ν π) (node : ν) :
    (s.evictHeapPush base node).tree = s.tree := by
  unfold evictHeapPush
  simp only
  split <;> rfl

theorem Kept.rebuild (s : EvictHeapRadixCache τ ν π) : Kept base (s.evictHeapRebuild base) := by
  refine ⟨heapUpTo_heapify _ _, ?_⟩
  intro x hx
  obtain ⟨i, hi⟩ := List.mem_iff_getElem?.mp hx
  refine ⟨⟨base.getPriority s.tree x, i, x⟩, ?_, rfl, le_refl _⟩
  apply mem_heapify.mpr
  exact List.mem_map.mpr ⟨(x, i), List.mk_mem_zipIdx_iff_getElem?.mpr hi, rfl⟩

theorem Kept.push {s : EvictHeapRadixCache τ ν π} {node : ν}
    (hheap : HeapUpTo s.evictHeapSeq s.evictHeap)
    (hcov : ∀ x ∈ base.evictableLeaves s.tree, x ≠ node → HasEntry base s.tree s.evictHeap x) :
    Kept base (s.evictHeapPush base node) := by
  unfold evictHeapPush
  simp only
  split
  · exact Kept.rebuild _
  · refine ⟨hheap.push _ _, ?_⟩
    intro x hx
    by_cases hnode : x = node
    · subst hnode
      exact ⟨_, mem_heappush.mpr (Or.inl rfl), rfl, le_refl _⟩
    · obtain ⟨e, he, hxe, hp⟩ := hcov x hx hnode
      exact ⟨e, mem_heappush.mpr (Or.inr he), hxe, hp⟩

theorem Kept.top_least {s : EvictHeapRadixCache τ ν π} (h : Kept base s) {top : Entry π ν}
    {rest : List (Entry π ν)} (hheap : s.evictHeap = top :: rest)
    (hpriority : base.getPriority s.tree top.value = top.priority) :
    ∀ y ∈ base.evictableLeaves s.tree,
      base.getPriority s.tree top.value ≤ base.getPriority s.tree y := by
  intro y hy
  obtain ⟨e, he, -, hp⟩ := h.covered y hy
  rw [hheap] at he
  rw [hpriority]
  exact le_trans ((hheap ▸ h.heap).head_le he) hp

theorem Kept.no_leaf {s : EvictHeapRadixCache τ ν π} (h : Kept base s) (hheap : s.evictHeap = []) :
    base.evictableLeaves s.tree = [] := by
  apply List.eq_nil_iff_forall_not_mem.mpr
  intro x hx
  obtain ⟨e, he, -⟩ := h.covered x hx
  rw [hheap] at he
  cases he

theorem Kept.drop {s : EvictHeapRadixCache τ ν π} (h : Kept base s) {top : Entry π ν}
    {rest : List (Entry π ν)} (hheap : s.evictHeap = top :: rest) :
    HeapUpTo s.evictHeapSeq rest ∧
    ∀ x ∈ base.evictableLeaves s.tree, x ≠ top.value → HasEntry base s.tree rest x :=
  ⟨(hheap ▸ h.heap).tail, fun x hx hne => (hheap ▸ h.covered x hx).of_cons hne⟩

theorem foldl_update_nodes (hb : base.Laws) (landed : List ν) (t : τ) :
    base.nodes (landed.foldl base.updateLeafStatus t) = base.nodes t := by
  induction landed generalizing t with
  | nil => rfl
  | cons node landed ih => rw [List.foldl_cons, ih, hb.update_nodes]

theorem deleted_nodes (hb : base.Laws) (t : τ) (x : ν) :
    base.nodes (base.deleted t x) = base.nodes (base.deleteLeaf t x).1 :=
  foldl_update_nodes hb _ _

theorem LeastFirst.agree {numTokens : Int} {t t₁ t₂ : τ} {n n₁ n₂ : Nat} {xs ys : List ν}
    (hx : LeastFirst base numTokens t n xs t₁ n₁) (hy : LeastFirst base numTokens t n ys t₂ n₂) :
    AgreeUpToTies base t xs ys := by
  induction hx generalizing ys with
  | reached t n hreached =>
    cases hy with
    | reached => exact .nil _
    | exhausted => exact .nil _
    | evict _ _ _ _ _ _ hmore => omega
  | exhausted t n hempty =>
    cases hy with
    | reached => exact .nil _
    | exhausted => exact .nil _
    | evict _ _ _ _ y _ _ hleaf =>
      rw [hempty] at hleaf
      cases hleaf
  | evict t t' n n' x xs hmore hleaf hleast _ ih =>
    cases hy with
    | reached _ _ hreached => omega
    | exhausted _ _ hempty =>
      rw [hempty] at hleaf
      cases hleaf
    | evict _ _ _ _ y ys _ hleaf' hleast' hrun =>
      by_cases hxy : x = y
      · subst hxy
        exact .same _ _ _ _ (ih hrun)
      · exact .tie _ _ _ _ _ hxy (le_antisymm (hleast y hleaf') (hleast' x hleaf))

theorem LeastFirst.once (hb : base.Laws) {numTokens : Int} {t t' : τ} {n n' : Nat} {xs : List ν}
    (h : LeastFirst base numTokens t n xs t' n') : (∀ x ∈ xs, x ∈ base.nodes t) ∧ xs.Nodup := by
  induction h with
  | reached => exact ⟨by simp, List.nodup_nil⟩
  | exhausted => exact ⟨by simp, List.nodup_nil⟩
  | evict t t' n n' x xs _ hleaf _ _ ih =>
    obtain ⟨hnot, hsub, -⟩ := hb.delete_nodes t x hleaf
    rw [deleted_nodes hb] at ih
    refine ⟨?_, List.nodup_cons.mpr ⟨fun hx => hnot (ih.1 x hx), ih.2⟩⟩
    intro y hy
    cases hy with
    | head => exact hb.leaf_node t x hleaf
    | tail _ hy => exact hsub y (ih.1 y hy)

variable [DecidableEq ν]

@[simp] theorem updateLeafStatus_tree (s : EvictHeapRadixCache τ ν π) (node : ν) :
    (s.updateLeafStatus base node).tree = base.updateLeafStatus s.tree node := by
  unfold EvictHeapRadixCache.updateLeafStatus
  simp only
  split
  · rw [evictHeapPush_tree]
  · rfl

theorem Kept.updateLeafStatus (hb : base.Laws) {s : EvictHeapRadixCache τ ν π}
    (h : Kept base s) (node : ν) : Kept base (s.updateLeafStatus base node) := by
  have hold : ∀ x ∈ base.evictableLeaves (base.updateLeafStatus s.tree node),
      x ∈ base.evictableLeaves s.tree →
      HasEntry base (base.updateLeafStatus s.tree node) s.evictHeap x :=
    fun x hx hx' => (h.covered x hx').mono (hb.update_priority s.tree node x hx hx')
  unfold EvictHeapRadixCache.updateLeafStatus
  simp only
  split
  · refine Kept.push (s := ⟨base.updateLeafStatus s.tree node, s.evictHeap, s.evictHeapSeq⟩) h.heap ?_
    intro x hx hne
    exact hold x hx ((hb.update_leaves s.tree node x hx).resolve_left hne)
  · next hnew =>
    refine ⟨h.heap, fun x hx => hold x hx ?_⟩
    rcases hb.update_leaves s.tree node x hx with rfl | hx'
    · by_contra hx'
      exact hnew ⟨hx', hx⟩
    · exact hx'

theorem foldl_updateLeafStatus_tree (landed : List ν) (s : EvictHeapRadixCache τ ν π) :
    (landed.foldl (fun s node => s.updateLeafStatus base node) s).tree =
      landed.foldl base.updateLeafStatus s.tree := by
  induction landed generalizing s with
  | nil => rfl
  | cons node landed ih => rw [List.foldl_cons, List.foldl_cons, ih, updateLeafStatus_tree]

theorem Kept.land (hb : base.Laws) (landed : List ν) {s : EvictHeapRadixCache τ ν π}
    (h : Kept base s) :
    Kept base (landed.foldl (fun s node => s.updateLeafStatus base node) s) := by
  induction landed generalizing s with
  | nil => exact h
  | cons node landed ih => exact ih (h.updateLeafStatus hb node)

@[simp] theorem deleteLeaf_tree (s : EvictHeapRadixCache τ ν π) (node : ν) :
    (s.deleteLeaf base node).tree = base.deleted s.tree node := by
  unfold EvictHeapRadixCache.deleteLeaf
  rw [foldl_updateLeafStatus_tree]
  rfl

theorem Kept.deleteLeaf (hb : base.Laws) {s : EvictHeapRadixCache τ ν π} {node : ν}
    (hheap : HeapUpTo s.evictHeapSeq s.evictHeap)
    (hcov : ∀ x ∈ base.evictableLeaves (base.deleteLeaf s.tree node).1,
      HasEntry base s.tree s.evictHeap x) :
    Kept base (s.deleteLeaf base node) := by
  apply Kept.land hb
  refine ⟨hheap, ?_⟩
  intro x hx
  exact (hcov x hx).mono (hb.delete_leaves s.tree node x hx).2

theorem evictLoop_succ (numTokens : Int) (fuel : Nat) (s : EvictHeapRadixCache τ ν π) (n : Nat) :
    evictLoop base numTokens (fuel + 1) s n =
      if (n : Int) < numTokens then
        match s.evictHeap with
        | [] => some { cache := s, numTokensEvicted := n }
        | top :: rest =>
          if top.value ∉ base.evictableLeaves s.tree then
            evictLoop base numTokens fuel { s with evictHeap := rest } n
          else if base.getPriority s.tree top.value ≠ top.priority then
            evictLoop base numTokens fuel
              (evictHeapPush base { s with evictHeap := rest } top.value) n
          else
            (evictLoop base numTokens fuel
              (EvictHeapRadixCache.deleteLeaf base { s with evictHeap := rest } top.value)
              (n + base.valueLength s.tree top.value)).map
              fun r => { r with evicted := top.value :: r.evicted }
      else some { cache := s, numTokensEvicted := n } := rfl

theorem evictLoop_leastFirst (hb : base.Laws) {numTokens : Int} {fuel n : Nat}
    {s : EvictHeapRadixCache τ ν π} {r : EvictResult τ ν π} (h : Kept base s)
    (hr : evictLoop base numTokens fuel s n = some r) :
    Kept base r.cache ∧
    LeastFirst base numTokens s.tree n r.evicted r.cache.tree r.numTokensEvicted := by
  induction fuel generalizing s n r with
  | zero => cases hr
  | succ fuel ih =>
    rw [evictLoop_succ] at hr
    split at hr
    · next hmore =>
      split at hr
      · next hheap =>
        cases hr
        exact ⟨h, .exhausted _ _ (h.no_leaf hheap)⟩
      · next top rest hheap =>
        obtain ⟨hrest, hcov⟩ := h.drop hheap
        split at hr
        · next hgone =>
          refine ih (s := { s with evictHeap := rest }) ⟨hrest, ?_⟩ hr
          intro x hx
          exact hcov x hx fun he => hgone (he ▸ hx)
        · next hleaf =>
          split at hr
          · have hrun := ih (Kept.push hrest hcov) hr
            rw [evictHeapPush_tree] at hrun
            exact hrun
          · next hcurrent =>
            obtain ⟨r', hr', rfl⟩ := Option.map_eq_some_iff.mp hr
            have hleaf := not_not.mp hleaf
            have hkept : Kept base
                (EvictHeapRadixCache.deleteLeaf base { s with evictHeap := rest } top.value) := by
              refine Kept.deleteLeaf hb hrest ?_
              intro x hx
              refine hcov x (hb.delete_leaves s.tree top.value x hx).1 ?_
              rintro rfl
              exact (hb.delete_nodes s.tree _ hleaf).1 (hb.leaf_node _ _ hx)
            obtain ⟨hkept', hrun⟩ := ih hkept hr'
            rw [deleteLeaf_tree] at hrun
            exact ⟨hkept', .evict _ _ _ _ _ _ hmore hleaf
              (h.top_least hheap (not_not.mp hcurrent)) hrun⟩
    · next hreached =>
      cases hr
      exact ⟨h, .reached _ _ (not_lt.mp hreached)⟩

def stale (base : RadixCache τ ν π) (s : EvictHeapRadixCache τ ν π) : Nat :=
  s.evictHeap.countP fun e =>
    e.value ∈ base.evictableLeaves s.tree ∧ base.getPriority s.tree e.value ≠ e.priority

theorem stale_rebuild (s : EvictHeapRadixCache τ ν π) : stale base (s.evictHeapRebuild base) = 0 := by
  apply List.countP_eq_zero.mpr
  intro e he
  obtain ⟨p, -, rfl⟩ := List.mem_map.mp (mem_heapify.mp he)
  simp [evictHeapRebuild]

variable (base) in
theorem stale_push_le (s : EvictHeapRadixCache τ ν π) (node : ν) :
    stale base (s.evictHeapPush base node) ≤ stale base s := by
  unfold evictHeapPush
  simp only
  split
  · rw [stale_rebuild]
    exact Nat.zero_le _
  · unfold stale
    rw [countP_heappush, List.countP_cons_of_neg (by simp)]

/-- The loop ends, with the same result for all fuel from some amount on. -/
def Returns (base : RadixCache τ ν π) (numTokens : Int) (s : EvictHeapRadixCache τ ν π) (n : Nat) :
    Prop :=
  ∃ enough r, ∀ fuel, enough ≤ fuel → evictLoop base numTokens fuel s n = some r

theorem Returns.next {numTokens : Int} {s s' : EvictHeapRadixCache τ ν π} {n n' : Nat}
    (h : Returns base numTokens s' n') (f : EvictResult τ ν π → EvictResult τ ν π)
    (hstep : ∀ fuel, evictLoop base numTokens (fuel + 1) s n =
      (evictLoop base numTokens fuel s' n').map f) :
    Returns base numTokens s n := by
  obtain ⟨enough, r, hr⟩ := h
  refine ⟨enough + 1, f r, ?_⟩
  intro fuel hfuel
  obtain ⟨k, rfl⟩ : ∃ k, fuel = k + 1 := ⟨fuel - 1, by omega⟩
  rw [hstep, hr k (by omega), Option.map_some]

theorem Returns.stop {numTokens : Int} {s : EvictHeapRadixCache τ ν π} {n : Nat}
    (r : EvictResult τ ν π)
    (hstep : ∀ fuel, evictLoop base numTokens (fuel + 1) s n = some r) :
    Returns base numTokens s n := by
  refine ⟨1, r, ?_⟩
  intro fuel hfuel
  obtain ⟨k, rfl⟩ : ∃ k, fuel = k + 1 := ⟨fuel - 1, by omega⟩
  exact hstep k

theorem evictLoop_returns (hb : base.Laws) (numTokens : Int) (s : EvictHeapRadixCache τ ν π)
    (n : Nat) : Returns base numTokens s n := by
  by_cases hmore : (n : Int) < numTokens
  · cases hheap : s.evictHeap with
    | nil =>
      apply Returns.stop { cache := s, numTokensEvicted := n }
      intro fuel
      rw [evictLoop_succ, if_pos hmore, hheap]
    | cons top rest =>
      by_cases hleaf : top.value ∈ base.evictableLeaves s.tree
      · by_cases hcurrent : base.getPriority s.tree top.value = top.priority
        · have hfewer : (base.nodes (base.deleted s.tree top.value)).length <
              (base.nodes s.tree).length := by
            rw [deleted_nodes hb]
            exact (hb.delete_nodes s.tree _ hleaf).2.2
          apply (evictLoop_returns hb numTokens
            (EvictHeapRadixCache.deleteLeaf base { s with evictHeap := rest } top.value)
            (n + base.valueLength s.tree top.value)).next
            (fun r => { r with evicted := top.value :: r.evicted })
          intro fuel
          rw [evictLoop_succ, if_pos hmore, hheap]
          simp only
          rw [if_neg (not_not.mpr hleaf), if_neg (not_not.mpr hcurrent)]
        · have hfewer : stale base (evictHeapPush base { s with evictHeap := rest } top.value) <
              stale base s := by
            have hle := stale_push_le base { s with evictHeap := rest } top.value
            have hpop : stale base s = stale base { s with evictHeap := rest } + 1 := by
              unfold stale
              rw [hheap, List.countP_cons_of_pos (by simp [hleaf, hcurrent])]
            omega
          apply (evictLoop_returns hb numTokens
            (evictHeapPush base { s with evictHeap := rest } top.value) n).next id
          intro fuel
          rw [evictLoop_succ, if_pos hmore, hheap, Option.map_id]
          simp only
          rw [if_neg (not_not.mpr hleaf), if_pos hcurrent]
          rfl
      · have hsame : stale base { s with evictHeap := rest } = stale base s := by
          unfold stale
          rw [hheap, List.countP_cons_of_neg (by simp [hleaf])]
        apply (evictLoop_returns hb numTokens { s with evictHeap := rest } n).next id
        intro fuel
        rw [evictLoop_succ, if_pos hmore, hheap, Option.map_id]
        simp only
        rw [if_pos hleaf]
        rfl
  · apply Returns.stop { cache := s, numTokensEvicted := n }
    intro fuel
    rw [evictLoop_succ, if_neg hmore]
termination_by ((base.nodes s.tree).length, stale base s, s.evictHeap.length)
decreasing_by
  · rw [deleteLeaf_tree]
    exact Prod.Lex.left _ _ hfewer
  · rw [evictHeapPush_tree]
    exact Prod.Lex.right _ (Prod.Lex.left _ _ hfewer)
  · rw [hsame, hheap]
    exact Prod.Lex.right _ (Prod.Lex.right _ (Nat.lt_succ_self _))

theorem evict_returns (hb : base.Laws) (numTokens : Int) (s : EvictHeapRadixCache τ ν π) :
    ∃ enough r, ∀ fuel, enough ≤ fuel → s.evict base numTokens fuel = some r := by
  cases hdisable : base.disable with
  | false =>
    obtain ⟨enough, r, hr⟩ := evictLoop_returns hb numTokens s 0
    refine ⟨enough, r, ?_⟩
    intro fuel hfuel
    rw [evict, hdisable]
    exact hr fuel hfuel
  | true =>
    refine ⟨0, { cache := s }, ?_⟩
    intro fuel _
    rw [evict, hdisable]
    rfl

theorem evict_leastFirst (hb : base.Laws) {numTokens : Int} {fuel : Nat}
    {s : EvictHeapRadixCache τ ν π} {r : EvictResult τ ν π} (h : Kept base s)
    (hr : s.evict base numTokens fuel = some r) :
    Kept base r.cache ∧
    LeastFirst base numTokens s.tree 0 r.evicted r.cache.tree r.numTokensEvicted := by
  cases hdisable : base.disable with
  | false =>
    rw [evict, hdisable] at hr
    exact evictLoop_leastFirst hb h hr
  | true =>
    rw [evict, hdisable] at hr
    cases hr
    exact ⟨h, .exhausted _ _ (hb.disabled_leaves hdisable _)⟩

theorem Kept.step (hb : base.Laws) {s s' : EvictHeapRadixCache τ ν π} {a : Action τ ν}
    (h : Kept base s) (ha : AsAssumed base s a) (hs : (cache base).step s a = some s') :
    Kept base s' := by
  cases a with
  | tree t =>
    cases hs
    exact ⟨h.heap, fun x hx => (h.covered x (ha x hx).1).mono (ha x hx).2⟩
  | updateLeafStatus node =>
    cases hs
    exact h.updateLeafStatus hb node
  | deleteLeaf node =>
    cases hs
    apply Kept.deleteLeaf hb h.heap
    intro x hx
    exact h.covered x (hb.delete_leaves s.tree node x hx).1
  | reset =>
    cases hs
    refine ⟨HeapUpTo.nil, ?_⟩
    intro x hx
    rw [show base.evictableLeaves (s.reset base).tree = [] from hb.reset_leaves s.tree] at hx
    cases hx
  | evict numTokens fuel =>
    obtain ⟨r, hr, rfl⟩ := Option.map_eq_some_iff.mp hs
    exact (evict_leastFirst hb h hr).1

theorem kept_of_reaches (hb : base.Laws) {s : EvictHeapRadixCache τ ν π}
    (hs : (cache base).Reaches (AsAssumed base) s) : Kept base s := by
  apply hs.invariant (P := Kept base)
  · refine ⟨HeapUpTo.nil, ?_⟩
    intro x hx
    rw [show base.evictableLeaves (cache base).init.tree = [] from hb.empty_leaves] at hx
    cases hx
  · intro s a s' h ha hstep
    exact h.step hb ha hstep

/-- After any sequence of tree operations and evictions, `evict` ends.  Like the same call on a heap
built afresh it deletes an evictable leaf of least priority until the tokens are reached or no
evictable leaf is left, each once, and the two orders agree up to ties. -/
theorem evict_as_fresh (hb : base.Laws) {s : EvictHeapRadixCache τ ν π}
    (hs : (cache base).Reaches (AsAssumed base) s) (numTokens : Int) :
    ∃ enough r fresh,
      (∀ fuel, enough ≤ fuel → s.evict base numTokens fuel = some r ∧
        (s.evictHeapRebuild base).evict base numTokens fuel = some fresh) ∧
      LeastFirst base numTokens s.tree 0 r.evicted r.cache.tree r.numTokensEvicted ∧
      LeastFirst base numTokens s.tree 0 fresh.evicted fresh.cache.tree fresh.numTokensEvicted ∧
      AgreeUpToTies base s.tree r.evicted fresh.evicted ∧ r.evicted.Nodup := by
  obtain ⟨enough, r, hr⟩ := evict_returns hb numTokens s
  obtain ⟨enough', fresh, hfresh⟩ := evict_returns hb numTokens (s.evictHeapRebuild base)
  have hrun := (evict_leastFirst hb (kept_of_reaches hb hs) (hr enough (le_refl _))).2
  have hrun' := (evict_leastFirst hb (Kept.rebuild s) (hfresh enough' (le_refl _))).2
  refine ⟨max enough enough', r, fresh, ?_, hrun, hrun', hrun.agree hrun', (hrun.once hb).2⟩
  intro fuel hfuel
  exact ⟨hr fuel (by omega), hfresh fuel (by omega)⟩

/-! A small forest, for an example. -/

structure Page where
  id : Nat
  parent : Nat
  lastAccessTime : Nat
  evictable : Bool
  deriving DecidableEq

/-- The forest: a page is an evictable leaf once its status is updated while no page has it as
parent. -/
def forest : RadixCache (List Page) Nat Nat where
  empty := []
  disable := false
  nodes t := t.map (·.id)
  evictableLeaves t := (t.filter (·.evictable)).map (·.id)
  getPriority t x := ((t.find? (·.id == x)).map (·.lastAccessTime)).getD 0
  valueLength _ _ := 1
  updateLeafStatus t x := t.map fun page =>
    if page.id = x then { page with evictable := t.all (·.parent ≠ x) } else page
  deleteLeaf t x :=
    (t.filter (·.id ≠ x), (t.filter (·.id = x)).map (·.parent))
  reset _ := []

theorem forest_laws : forest.Laws where
  empty_leaves := rfl
  reset_leaves _ := rfl
  disabled_leaves h := by cases h
  leaf_node t x hx := by
    obtain ⟨page, hpage, rfl⟩ := List.mem_map.mp hx
    exact List.mem_map_of_mem (List.mem_of_mem_filter hpage)
  update_nodes t x := by
    show List.map _ (List.map _ t) = _
    rw [List.map_map]
    apply List.map_congr_left
    intro page _
    simp only [Function.comp]
    split <;> rfl
  update_leaves t x y hy := by
    obtain ⟨page, hpage, rfl⟩ := List.mem_map.mp hy
    obtain ⟨hpage, hevictable⟩ := List.mem_filter.mp hpage
    obtain ⟨old, hold, rfl⟩ := List.mem_map.mp hpage
    by_cases hx : old.id = x
    · left
      simp [hx]
    · right
      simp only [if_neg hx] at hevictable ⊢
      exact List.mem_map_of_mem (List.mem_filter.mpr ⟨hold, hevictable⟩)
  update_priority t x y _ _ := by
    have hid : ((fun page : Page => page.id == y) ∘ fun page : Page =>
        if page.id = x then { page with evictable := t.all (·.parent ≠ x) } else page) =
        fun page : Page => page.id == y := by
      funext page
      simp only [Function.comp]
      split <;> rfl
    apply le_of_eq
    show _ = ((List.find? _ (List.map _ t)).map _).getD 0
    rw [List.find?_map, hid]
    show ((List.find? _ t).map _).getD 0 = _
    cases List.find? (fun page : Page => page.id == y) t with
    | none => rfl
    | some page =>
      simp only [Option.map_some, Option.getD_some]
      split <;> rfl
  delete_leaves t x y hy := by
    obtain ⟨page, hpage, rfl⟩ := List.mem_map.mp hy
    obtain ⟨hpage, hevictable⟩ := List.mem_filter.mp hpage
    obtain ⟨hpage, hne⟩ := List.mem_filter.mp hpage
    refine ⟨List.mem_map_of_mem (List.mem_filter.mpr ⟨hpage, hevictable⟩), le_of_eq ?_⟩
    show ((List.find? _ t).map _).getD 0 = ((List.find? _ (List.filter _ t)).map _).getD 0
    rw [List.find?_filter]
    congr 3
    funext page'
    by_cases hid : page'.id = page.id
    · have hne' : page.id ≠ x := of_decide_eq_true hne
      simp [hid, hne']
    · simp [hid]
  delete_nodes t x hx := by
    obtain ⟨page, hpage, rfl⟩ := List.mem_map.mp hx
    have hpage := List.mem_of_mem_filter hpage
    refine ⟨?_, ?_, ?_⟩
    · intro hgone
      obtain ⟨page', hpage', hid⟩ := List.mem_map.mp hgone
      exact absurd hid (of_decide_eq_true (List.mem_filter.mp hpage').2)
    · intro y hy
      obtain ⟨page', hpage', rfl⟩ := List.mem_map.mp hy
      exact List.mem_map_of_mem (List.mem_of_mem_filter hpage')
    · show (List.map _ (List.filter _ t)).length < (List.map _ t).length
      rw [List.length_map, List.length_map]
      apply List.length_filter_lt_length_iff_exists.mpr
      exact ⟨page, hpage, by simp⟩

/-- A parent with two children becomes evictable in turn; one child was used again after its push. -/
def forestActions : List (Action (List Page) Nat) :=
  [.tree [⟨1, 0, 2, false⟩, ⟨2, 1, 3, false⟩, ⟨3, 1, 4, false⟩], .updateLeafStatus 2,
    .updateLeafStatus 3, .tree [⟨1, 0, 5, false⟩, ⟨2, 1, 5, true⟩, ⟨3, 1, 4, true⟩]]

def forestState : EvictHeapRadixCache (List Page) Nat Nat :=
  { tree := [⟨1, 0, 5, false⟩, ⟨2, 1, 5, true⟩, ⟨3, 1, 4, true⟩]
    evictHeap := [⟨3, 1, 2⟩, ⟨4, 2, 3⟩]
    evictHeapSeq := 2 }

def forestCheck (s : EvictHeapRadixCache (List Page) Nat Nat) : Action (List Page) Nat → Bool
  | .tree t => (forest.evictableLeaves t).all fun x =>
      decide (x ∈ forest.evictableLeaves s.tree) &&
        decide (forest.getPriority s.tree x ≤ forest.getPriority t x)
  | _ => true

theorem asAssumed_of_forestCheck (s : EvictHeapRadixCache (List Page) Nat Nat)
    (a : Action (List Page) Nat) (h : forestCheck s a = true) : AsAssumed forest s a := by
  cases a with
  | tree t =>
    intro x hx
    have hall := List.all_eq_true.mp h x hx
    rw [Bool.and_eq_true, decide_eq_true_eq, decide_eq_true_eq] at hall
    exact hall
  | updateLeafStatus => trivial
  | deleteLeaf => trivial
  | reset => trivial
  | evict => trivial

theorem evict_as_fresh_forest :
    (forestState.evict forest 3 9).map (·.evicted) = some [3, 2, 1] ∧
    ∃ enough r fresh,
      (∀ fuel, enough ≤ fuel → forestState.evict forest 3 fuel = some r ∧
        (forestState.evictHeapRebuild forest).evict forest 3 fuel = some fresh) ∧
      LeastFirst forest 3 forestState.tree 0 r.evicted r.cache.tree r.numTokensEvicted ∧
      LeastFirst forest 3 forestState.tree 0 fresh.evicted fresh.cache.tree
        fresh.numTokensEvicted ∧
      AgreeUpToTies forest forestState.tree r.evicted fresh.evicted ∧ r.evicted.Nodup :=
  ⟨by decide +kernel,
    evict_as_fresh forest_laws
      (Machine.path_of_execWhere asAssumed_of_forestCheck
        (show (cache forest).execWhere forestCheck (cache forest).init forestActions =
          some forestState by rfl)) 3⟩

end Radix
