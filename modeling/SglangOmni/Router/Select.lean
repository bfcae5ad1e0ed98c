import SglangOmni.Router.Pool

/-! The selection of a worker: it takes a candidate whenever there is one, and under `leastRequests` the
candidates it compares are those with the smallest load. -/

namespace Router

theorem findIdx?_get {α : Type} {l : List α} {p : α → Bool} {position : Nat}
    (h : l.findIdx? p = some position) : ∃ x, l[position]? = some x ∧ p x = true := by
  obtain ⟨hlt, hp, -⟩ := List.findIdx?_eq_some_iff_getElem.mp h
  exact ⟨l[position], List.getElem?_eq_getElem hlt, hp⟩

/-- What `select` returns is a candidate, moved behind the others. -/
structure Selected (recency : List Nat) (candidates : Nat → Bool) (worker : Nat)
    (recency' : List Nat) : Prop where
  candidate : candidates worker = true
  perm : recency'.Perm recency

theorem selected_of_select {recency recency' : List Nat} {candidates : Nat → Bool} {worker : Nat}
    (h : select recency candidates = some (worker, recency')) :
    Selected recency candidates worker recency' := by
  simp only [select, Option.bind_eq_bind, Option.bind_eq_some_iff, Option.pure_def,
    Option.some.injEq, Prod.mk.injEq] at h
  obtain ⟨position, hposition, selected, hselected, rfl, rfl⟩ := h
  obtain ⟨x, hx, hp⟩ := findIdx?_get hposition
  cases hselected.symm.trans hx
  refine ⟨hp, ?_⟩
  obtain ⟨hlt, rfl⟩ := List.getElem?_eq_some_iff.mp hx
  have hcons := List.getElem_cons_eraseIdx_perm hlt
  exact (List.perm_append_comm).trans hcons

theorem select_of_mem {recency : List Nat} (candidates : Nat → Bool) {worker : Nat}
    (hmem : worker ∈ recency) (hcandidate : candidates worker = true) :
    ∃ selected, select recency candidates = some selected := by
  have hsome : (recency.findIdx? candidates).isSome = true := by
    rw [List.findIdx?_isSome, List.any_eq_true]
    exact ⟨worker, hmem, hcandidate⟩
  obtain ⟨position, hposition⟩ := Option.isSome_iff_exists.mp hsome
  obtain ⟨x, hx, -⟩ := findIdx?_get hposition
  exact ⟨(x, recency.eraseIdx position ++ [x]), by simp [select, hposition, hx]⟩

/-! ### The least load -/

/-- What the comparison loop holds after it read the loads `seen` of workers. -/
structure LeastFound (seen : List (Nat × Nat)) (found : Nat × List Nat) : Prop where
  ties : ∀ worker ∈ found.2, (worker, found.1) ∈ seen
  least : ∀ observed ∈ seen, found.1 ≤ observed.2
  some : seen ≠ [] → found.2 ≠ []
  start : seen = [] → found.1 = usizeMax

theorem leastFound_nil : LeastFound [] (usizeMax, []) :=
  ⟨nofun, nofun, fun h => absurd rfl h, fun _ => rfl⟩

theorem LeastFound.compareLoad {seen : List (Nat × Nat)} {found : Nat × List Nat}
    (h : LeastFound seen found) {index load : Nat} (hle : load ≤ usizeMax) :
    LeastFound (seen ++ [(index, load)]) (compareLoad found index load) := by
  unfold Router.compareLoad
  split
  · next hlt =>
    refine ⟨?_, ?_, fun _ => List.cons_ne_nil _ _, fun hnil => by simp at hnil⟩
    · intro worker hworker
      obtain rfl := List.mem_singleton.mp hworker
      exact List.mem_append_right _ (List.mem_singleton_self _)
    · intro observed hobserved
      rcases List.mem_append.mp hobserved with hobserved | hobserved
      · exact Nat.le_trans (Nat.le_of_lt hlt) (h.least observed hobserved)
      · obtain rfl := List.mem_singleton.mp hobserved
        exact Nat.le_refl _
  split
  · next heq =>
    refine ⟨?_, ?_, fun _ => by simp, fun hnil => by simp at hnil⟩
    · intro worker hworker
      rcases List.mem_append.mp hworker with hworker | hworker
      · exact List.mem_append_left _ (h.ties worker hworker)
      · rw [List.mem_singleton.mp hworker, heq]
        simp
    · intro observed hobserved
      rcases List.mem_append.mp hobserved with hobserved | hobserved
      · exact h.least observed hobserved
      · rw [List.mem_singleton.mp hobserved]
        exact Nat.le_of_eq heq.symm
  · next hnlt hne =>
    -- a greater load than the least so far, so something was seen before
    have hseen : seen ≠ [] := fun hnil => by
      have := h.start hnil
      omega
    refine ⟨?_, ?_, fun _ => h.some hseen, fun hnil => by simp at hnil⟩
    · exact fun worker hworker => List.mem_append_left _ (h.ties worker hworker)
    · intro observed hobserved
      rcases List.mem_append.mp hobserved with hobserved | hobserved
      · exact h.least observed hobserved
      · rw [List.mem_singleton.mp hobserved]
        omega

theorem LeastFound.foldl {load : Nat → Nat} (hle : ∀ index, load index ≤ usizeMax)
    {seen : List (Nat × Nat)} {found : Nat × List Nat} (h : LeastFound seen found)
    (eligible : List Nat) :
    LeastFound (seen ++ eligible.map fun index => (index, load index))
      (eligible.foldl (fun found index => Router.compareLoad found index (load index)) found) := by
  induction eligible generalizing seen found with
  | nil => simpa using h
  | cons index eligible ih =>
    rw [List.foldl_cons, List.map_cons, List.append_cons]
    exact ih (h.compareLoad (hle index))

theorem selectBy_of_eligible (strategy : RoutingStrategy) {load : Nat → Nat}
    {recency eligible : List Nat} (hle : ∀ index, load index ≤ usizeMax)
    (hmem : ∀ index ∈ eligible, index ∈ recency) (hne : eligible ≠ []) :
    ∃ worker recency', selectBy strategy load recency eligible = some (worker, recency')
      ∧ worker ∈ eligible := by
  cases strategy with
  | roundRobin =>
    obtain ⟨index, hindex⟩ := List.exists_mem_of_ne_nil eligible hne
    obtain ⟨⟨worker, recency'⟩, hselect⟩ :=
      select_of_mem _ (hmem index hindex) (List.contains_iff_mem.mpr hindex)
    exact ⟨worker, recency', hselect,
      List.contains_iff_mem.mp (selected_of_select hselect).candidate⟩
  | leastRequests =>
    have hfound := leastFound_nil.foldl hle eligible
    rw [List.nil_append] at hfound
    have hties : ∀ index ∈ (eligible.foldl
        (fun found index => compareLoad found index (load index)) (usizeMax, [])).2,
        index ∈ eligible := fun index hindex => by
      obtain ⟨i, hi, heq⟩ := List.mem_map.mp (hfound.ties index hindex)
      have hindex : i = index := congrArg Prod.fst heq
      exact hindex ▸ hi
    obtain ⟨index, hindex⟩ := List.exists_mem_of_ne_nil _ (hfound.some (by simpa using hne))
    obtain ⟨⟨worker, recency'⟩, hselect⟩ :=
      select_of_mem _ (hmem index (hties index hindex)) (List.contains_iff_mem.mpr hindex)
    have hworker := List.contains_iff_mem.mp (selected_of_select hselect).candidate
    exact ⟨worker, recency', hselect, hties worker hworker⟩

theorem Pool.dispatchMatching_cases (pool : Pool) (view : View pool.records.length)
    (matched : Nat → Bool) :
    ((∃ worker recency', pool.dispatchMatching view true matched = .ok (worker, recency')
        ∧ matched worker = true ∧ isRoutable view.health worker = true)
      ∨ (pool.dispatchMatching view true matched = .error .unavailable
        ∧ ∀ index < pool.records.length,
            (matched index && isRoutable view.health index) = false)) := by
  unfold Pool.dispatchMatching
  rw [if_neg (by simp)]
  simp only
  split
  · next hnone =>
    refine .inr ⟨rfl, fun index hindex => ?_⟩
    have hnil := List.isEmpty_iff.mp hnone
    exact Bool.eq_false_iff.mpr (List.filter_eq_nil_iff.mp hnil index (List.mem_range.mpr hindex))
  · next hsome =>
    refine .inl ?_
    have hmem : ∀ index ∈ (List.range pool.records.length).filter
        (fun index => matched index && isRoutable view.health index), index ∈ view.recency :=
      fun index hindex => view.recency_perm.mem_iff.mpr (List.mem_of_mem_filter hindex)
    obtain ⟨worker, recency', hselect, hworker⟩ :=
      selectBy_of_eligible pool.strategy view.load_le hmem
        (fun hnil => hsome (List.isEmpty_iff.mpr hnil))
    rw [hselect]
    have hboth := (List.mem_filter.mp hworker).2
    rw [Bool.and_eq_true] at hboth
    exact ⟨worker, recency', rfl, hboth.1, hboth.2⟩

end Router
