import SglangOmni.Lib.Toposort
import SglangOmni.Proto.Graph
import Mathlib.Data.List.Perm.Subperm

/-! The order of a session graph: its loop places every node after the sources of its data edges, unless
these form a cycle, and after those of its control edges where these close none. -/

namespace Proto

open Lib

namespace SessionGraph

variable (g : SessionGraph)

/-- The loop of `order` from the nodes that are placed: all nodes, or nothing where it raises. -/
def orderLoop (order : List String) : Option (List String) :=
  if order.length < g.names.length then
    match g.nextInOrder order with
    | none => none
    | some name => orderLoop (order ++ [name])
  else some order
termination_by g.names.length - order.length
decreasing_by
  rw [List.length_append, List.length_singleton]
  omega

/-- What the constructor checks before it asks for the order: every source of a node is a node. -/
def KnownSources : Prop := ∀ name ∈ g.names, ∀ source ∈ g.orderSources name, source ∈ g.names

structure Placed (sources : String → List String) (order : List String) : Prop where
  nodup : order.Nodup
  known : ∀ name ∈ order, name ∈ g.names
  ordered : Ordered sources order

variable {g} {order order' : List String} {name : String} {sources : String → List String}

theorem mem_orderSources_of_data {source : String} (h : source ∈ g.dataSources name) :
    source ∈ g.orderSources name :=
  List.mem_append_left _ h

theorem nextInOrder_some (h : g.nextInOrder order = some name) :
    name ∈ g.names ∧ name ∉ order ∧ (∀ source ∈ g.dataSources name, source ∈ order)
      ∧ ((∃ ready ∈ g.names, ready ∉ order ∧ ∀ source ∈ g.orderSources ready, source ∈ order) →
        ∀ source ∈ g.orderSources name, source ∈ order) := by
  unfold nextInOrder at h
  simp only at h
  have hleft : ∀ {p : String → Bool}, (g.names.filter fun name => !order.contains name).find? p = some name →
      name ∈ g.names ∧ name ∉ order := by
    intro p hfind
    have hmem := List.mem_filter.mp (List.mem_of_find?_eq_some hfind)
    exact ⟨hmem.1, by simpa using hmem.2⟩
  rcases Option.or_eq_some_iff.mp h with hready | ⟨hnone, hdata⟩
  · have hall : ∀ source ∈ g.orderSources name, source ∈ order := by
      simpa [List.all_eq_true] using List.find?_some hready
    exact ⟨(hleft hready).1, (hleft hready).2, fun source hs => hall source (mem_orderSources_of_data hs),
      fun _ => hall⟩
  · have hall : ∀ source ∈ g.dataSources name, source ∈ order := by
      simpa [List.all_eq_true] using List.find?_some hdata
    refine ⟨(hleft hdata).1, (hleft hdata).2, hall, fun ⟨ready, hmem, hnot, hsources⟩ => ?_⟩
    refine absurd (List.find?_eq_none.mp hnone ready (List.mem_filter.mpr ⟨hmem, by simpa using hnot⟩)) ?_
    simpa [List.all_eq_true] using hsources

theorem nextInOrder_none (h : g.nextInOrder order = none) {ready : String} (hmem : ready ∈ g.names)
    (hnot : ready ∉ order) : ¬ ∀ source ∈ g.dataSources ready, source ∈ order := by
  unfold nextInOrder at h
  simp only [Option.or_eq_none_iff] at h
  intro hsources
  refine absurd (List.find?_eq_none.mp h.2 ready (List.mem_filter.mpr ⟨hmem, by simpa using hnot⟩)) ?_
  simpa [List.all_eq_true] using hsources

theorem Placed.nil : g.Placed sources [] := ⟨List.nodup_nil, nofun, .nil⟩

theorem Placed.concat (h : g.Placed sources order) (hname : name ∈ g.names) (hnot : name ∉ order)
    (hsources : ∀ source ∈ sources name, source ∈ order) : g.Placed sources (order ++ [name]) where
  nodup := List.nodup_append.mpr ⟨h.nodup, List.nodup_singleton _, fun a ha b hb he =>
    hnot (by rw [← List.mem_singleton.mp hb, ← he]; exact ha)⟩
  known a ha := (List.mem_append.mp ha).elim (h.known a) fun hlast => List.mem_singleton.mp hlast ▸ hname
  ordered := Along.concat h.ordered hsources

theorem exists_left (hlt : order.length < g.names.length) :
    ∃ name ∈ g.names, name ∉ order := by
  by_contra hnone
  push Not at hnone
  exact absurd (List.subperm_of_subset g.names_nodup hnone).length_le (Nat.not_le.mpr hlt)

theorem Placed.orderLoop (h : g.Placed sources order)
    (hnext : ∀ order name, g.Placed sources order → order.length < g.names.length →
      g.nextInOrder order = some name → ∀ source ∈ sources name, source ∈ order) :
    (∀ final, g.orderLoop order = some final → g.Placed sources final ∧ final.Perm g.names)
      ∧ (g.orderLoop order = none → ∃ stuck, g.Placed sources stuck ∧ stuck.length < g.names.length
        ∧ g.nextInOrder stuck = none) := by
  induction order using SessionGraph.orderLoop.induct g with
  | case1 order hlt hnone =>
    rw [SessionGraph.orderLoop, if_pos hlt, hnone]
    exact ⟨nofun, fun _ => ⟨order, h, hlt, hnone⟩⟩
  | case2 order hlt name hsome ih =>
    rw [SessionGraph.orderLoop, if_pos hlt, hsome]
    obtain ⟨hname, hnot, -, -⟩ := nextInOrder_some hsome
    exact ih (h.concat hname hnot (hnext order name h hlt hsome))
  | case3 order hge =>
    rw [SessionGraph.orderLoop, if_neg hge]
    refine ⟨fun final he => ?_, nofun⟩
    cases he
    have hsub := List.subperm_of_subset h.nodup h.known
    exact ⟨h, hsub.perm_of_length_le (Nat.not_lt.mp hge)⟩

theorem Placed.orderFrom (h : g.Placed sources order) (fuel : Nat)
    (hnext : ∀ order name, g.Placed sources order → order.length < g.names.length →
      g.nextInOrder order = some name → ∀ source ∈ sources name, source ∈ order)
    (hfuel : g.names.length ≤ order.length + fuel) :
    (∀ final, g.orderLoop order = some final → g.orderFrom fuel order = final)
      ∧ (g.orderLoop order = none → (g.orderFrom fuel order).length < g.names.length) := by
  induction order using SessionGraph.orderLoop.induct g generalizing fuel with
  | case1 order hlt hnone =>
    rw [SessionGraph.orderLoop, if_pos hlt, hnone]
    refine ⟨nofun, fun _ => ?_⟩
    cases fuel with
    | zero => exact hlt
    | succ fuel =>
      rw [SessionGraph.orderFrom, hnone]
      exact hlt
  | case2 order hlt name hsome ih =>
    rw [SessionGraph.orderLoop, if_pos hlt, hsome]
    obtain ⟨hname, hnot, -, -⟩ := nextInOrder_some hsome
    cases fuel with
    | zero => exact absurd hfuel (Nat.not_le.mpr hlt)
    | succ fuel =>
      rw [SessionGraph.orderFrom, hsome]
      refine ih (h.concat hname hnot (hnext order name h hlt hsome)) fuel ?_
      rw [List.length_append, List.length_singleton]
      omega
  | case3 order hge =>
    rw [SessionGraph.orderLoop, if_neg hge]
    refine ⟨fun final he => ?_, nofun⟩
    cases he
    have hperm := (List.subperm_of_subset h.nodup h.known).perm_of_length_le (Nat.not_lt.mp hge)
    cases fuel with
    | zero => rfl
    | succ fuel =>
      rw [SessionGraph.orderFrom]
      split
      · rfl
      · next name hsome =>
        obtain ⟨hname, hnot, -, -⟩ := nextInOrder_some hsome
        exact absurd (hperm.mem_iff.mpr hname) hnot

theorem orderLoop_eq_order (h : g.order.length = g.names.length) : g.orderLoop [] = some g.order := by
  have hfrom := (Placed.nil : g.Placed g.dataSources []).orderFrom g.names.length
    (fun order name _ _ hnext => (nextInOrder_some hnext).2.2.1) (Nat.le_add_left _ _)
  cases horder : g.orderLoop [] with
  | none => exact absurd (hfrom.2 horder) (Nat.not_lt.mpr h.ge)
  | some order => exact congrArg some (hfrom.1 order horder).symm

/-- `order` places every node after the sources of its data edges other than feedback edges, or raises;
it raises exactly if these form a cycle.  Where data and control edges together form none, the sources of
a node's control edges come before it too. -/
theorem order_ordered (g : SessionGraph) (hknown : g.KnownSources) :
    (∀ order, g.orderLoop [] = some order → order.Perm g.names
        ∧ ∀ name ∈ g.names, ∀ source ∈ g.dataSources name, order.idxOf source < order.idxOf name)
      ∧ (g.orderLoop [] = none ↔ ¬ Acyclic g.names g.dataSources)
      ∧ (Acyclic g.names g.orderSources → ∀ order, g.orderLoop [] = some order →
        ∀ name ∈ g.names, ∀ source ∈ g.orderSources name, order.idxOf source < order.idxOf name) := by
  have hdata := (Placed.nil : g.Placed g.dataSources []).orderLoop fun order name _ _ hnext =>
    (nextInOrder_some hnext).2.2.1
  have hclosed : ∀ name ∈ g.names, ∀ source ∈ g.dataSources name, source ∈ g.names :=
    fun name hname source hs => hknown name hname source (mem_orderSources_of_data hs)
  refine ⟨fun order horder => ?_, ⟨fun hnone hacyclic => ?_, fun hcycle => ?_⟩, fun hacyclic order horder => ?_⟩
  · obtain ⟨hplaced, hperm⟩ := hdata.1 order horder
    exact ⟨hperm, fun name hname source hs =>
      hplaced.ordered.idxOf_lt hplaced.nodup (hperm.mem_iff.mpr hname) hs⟩
  · obtain ⟨stuck, hplaced, hlt, hnext⟩ := hdata.2 hnone
    obtain ⟨name, hname, hleft⟩ := exists_left hlt
    obtain ⟨ready, hready, hnot, hsources⟩ := hacyclic.exists_ready hclosed hname hleft
    exact nextInOrder_none hnext hready hnot hsources
  · cases horder : g.orderLoop [] with
    | none => rfl
    | some order =>
      obtain ⟨hplaced, hperm⟩ := hdata.1 order horder
      exact absurd (hplaced.ordered.acyclic hplaced.nodup fun name hname => hperm.mem_iff.mpr hname) hcycle
  · -- A node with all its sources placed is never missing, so that the loop never falls back.
    have hall := (Placed.nil : g.Placed g.orderSources []).orderLoop fun order name hplaced hlt hnext => by
      obtain ⟨left, hleft, hnot⟩ := exists_left hlt
      exact (nextInOrder_some hnext).2.2.2 (hacyclic.exists_ready hknown hleft hnot)
    obtain ⟨hplaced, hperm⟩ := hall.1 order horder
    exact fun name hname source hs =>
      hplaced.ordered.idxOf_lt hplaced.nodup (hperm.mem_iff.mpr hname) hs

/-- A reply node whose progress the input node hears: a control edge that closes a cycle. -/
def heardReply : SessionGraph where
  nodes := ((∅ : Dict String SessionNode).set "speak" { inputs := [.plain "think" none] }).set "think"
    { inputs := [.plain graphInput none]
      controls := [{ source := "speak", event := "reply.progress" }] }
  publish _ := []

theorem order_ordered_heardReply :
    heardReply.orderLoop [] = some ["think", "speak"] ∧ ¬ Acyclic heardReply.names heardReply.orderSources
      ∧ ["think", "speak"].idxOf "think" < ["think", "speak"].idxOf "speak" := by
  have horder : heardReply.orderLoop [] = some ["think", "speak"] :=
    orderLoop_eq_order (g := heardReply) (by decide +kernel)
  have hknown : heardReply.KnownSources := by unfold KnownSources; decide +kernel
  have h := order_ordered heardReply hknown
  refine ⟨horder, fun hacyclic => ?_, (h.1 _ horder).2 "speak" (by decide +kernel) "think" (by decide +kernel)⟩
  exact absurd (h.2.2 hacyclic _ horder "think" (by decide +kernel) "speak" (by decide +kernel)) (by decide)

end SessionGraph

end Proto
