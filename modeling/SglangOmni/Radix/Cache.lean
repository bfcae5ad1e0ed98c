import SglangOmni.Lib.Heapq
import SglangOmni.Lib.Machine

/-! The radix cache whose eviction heap persists across calls of `evict`.  The tree and its operations
belong to the base class and are a parameter; `Laws` says what the heap relies on in them. -/

namespace Radix

open Lib

/-- What the base class offers: its trees `τ`, their nodes `ν`, and the priorities `π` of its eviction
strategy.  `deleteLeaf` is `_delete_leaf` up to its calls of `_update_leaf_status`, with the nodes of
these calls. -/
structure RadixCache (τ ν π : Type) where
  empty : τ
  disable : Bool
  nodes : τ → List ν
  evictableLeaves : τ → List ν
  getPriority : τ → ν → π
  valueLength : τ → ν → Nat
  updateLeafStatus : τ → ν → τ
  deleteLeaf : τ → ν → τ × List ν
  reset : τ → τ

variable {τ ν π : Type} [LinearOrder π]

/-- Only `_update_leaf_status` makes a node an evictable leaf, namely the one it is called for; a node
that is an evictable leaf before and after keeps its priority or gets a later one; `_delete_leaf`
removes the leaf from the tree. -/
structure RadixCache.Laws (base : RadixCache τ ν π) : Prop where
  empty_leaves : base.evictableLeaves base.empty = []
  reset_leaves : ∀ t, base.evictableLeaves (base.reset t) = []
  disabled_leaves : base.disable = true → ∀ t, base.evictableLeaves t = []
  leaf_node : ∀ t, ∀ x ∈ base.evictableLeaves t, x ∈ base.nodes t
  update_nodes : ∀ t x, base.nodes (base.updateLeafStatus t x) = base.nodes t
  update_leaves : ∀ t x, ∀ y ∈ base.evictableLeaves (base.updateLeafStatus t x),
    y = x ∨ y ∈ base.evictableLeaves t
  update_priority : ∀ t x, ∀ y ∈ base.evictableLeaves (base.updateLeafStatus t x),
    y ∈ base.evictableLeaves t →
    base.getPriority t y ≤ base.getPriority (base.updateLeafStatus t x) y
  delete_leaves : ∀ t x, ∀ y ∈ base.evictableLeaves (base.deleteLeaf t x).1,
    y ∈ base.evictableLeaves t ∧ base.getPriority t y ≤ base.getPriority (base.deleteLeaf t x).1 y
  delete_nodes : ∀ t, ∀ x ∈ base.evictableLeaves t,
    x ∉ base.nodes (base.deleteLeaf t x).1 ∧
    (∀ y ∈ base.nodes (base.deleteLeaf t x).1, y ∈ base.nodes t) ∧
    (base.nodes (base.deleteLeaf t x).1).length < (base.nodes t).length

def RadixCache.deleted (base : RadixCache τ ν π) (t : τ) (x : ν) : τ :=
  (base.deleteLeaf t x).2.foldl base.updateLeafStatus (base.deleteLeaf t x).1

structure EvictHeapRadixCache (τ ν π : Type) where
  tree : τ
  evictHeap : List (Entry π ν) := []
  evictHeapSeq : Nat := 0

/-- What `evict` leaves: the cache, the tokens it counted, and the nodes it freed and deleted, in this
order. -/
structure EvictResult (τ ν π : Type) where
  cache : EvictHeapRadixCache τ ν π
  numTokensEvicted : Nat := 0
  evicted : List ν := []

namespace EvictHeapRadixCache

variable (base : RadixCache τ ν π)

def evictHeapRebuild (s : EvictHeapRadixCache τ ν π) : EvictHeapRadixCache τ ν π :=
  { s with
    evictHeap := heapify ((base.evictableLeaves s.tree).zipIdx.map
      fun p => ⟨base.getPriority s.tree p.1, p.2, p.1⟩)
    evictHeapSeq := (base.evictableLeaves s.tree).length }

def evictHeapPush (s : EvictHeapRadixCache τ ν π) (node : ν) : EvictHeapRadixCache τ ν π :=
  let pushed :=
    { s with
      evictHeapSeq := s.evictHeapSeq + 1
      evictHeap := heappush s.evictHeap ⟨base.getPriority s.tree node, s.evictHeapSeq + 1, node⟩ }
  if max 1024 (4 * (base.evictableLeaves s.tree).length) < pushed.evictHeap.length then
    pushed.evictHeapRebuild base
  else pushed

def reset (s : EvictHeapRadixCache τ ν π) : EvictHeapRadixCache τ ν π :=
  { s with evictHeap := [], tree := base.reset s.tree }

variable [DecidableEq ν]

def updateLeafStatus (s : EvictHeapRadixCache τ ν π) (node : ν) : EvictHeapRadixCache τ ν π :=
  let updated := { s with tree := base.updateLeafStatus s.tree node }
  if node ∉ base.evictableLeaves s.tree ∧ node ∈ base.evictableLeaves updated.tree then
    updated.evictHeapPush base node
  else updated

/-- `_delete_leaf`, whose calls of `_update_leaf_status` are those of the subclass. -/
def deleteLeaf (s : EvictHeapRadixCache τ ν π) (node : ν) : EvictHeapRadixCache τ ν π :=
  (base.deleteLeaf s.tree node).2.foldl (fun s landed => s.updateLeafStatus base landed)
    { s with tree := (base.deleteLeaf s.tree node).1 }

/-- The loop of `evict`, with the tokens counted so far. -/
def evictLoop (numTokens : Int) :
    Nat → EvictHeapRadixCache τ ν π → Nat → Option (EvictResult τ ν π)
  | 0, _, _ => none
  | fuel + 1, s, numEvicted =>
    if (numEvicted : Int) < numTokens then
      match s.evictHeap with
      | [] => some { cache := s, numTokensEvicted := numEvicted }
      | top :: rest =>
        let popped := { s with evictHeap := rest }
        if top.value ∉ base.evictableLeaves s.tree then evictLoop numTokens fuel popped numEvicted
        else if base.getPriority s.tree top.value ≠ top.priority then
          evictLoop numTokens fuel (popped.evictHeapPush base top.value) numEvicted
        else
          (evictLoop numTokens fuel (popped.deleteLeaf base top.value)
            (numEvicted + base.valueLength s.tree top.value)).map
            fun r => { r with evicted := top.value :: r.evicted }
    else some { cache := s, numTokensEvicted := numEvicted }

def evict (s : EvictHeapRadixCache τ ν π) (numTokens : Int) (fuel : Nat) :
    Option (EvictResult τ ν π) :=
  if base.disable then some { cache := s } else evictLoop base numTokens fuel s 0

end EvictHeapRadixCache

/-- What happens to the cache: an operation of the base class changes its tree, the methods of the
subclass are called. -/
inductive Action (τ ν : Type)
  | tree (t : τ)
  | updateLeafStatus (node : ν)
  | deleteLeaf (node : ν)
  | reset
  | evict (numTokens : Int) (fuel : Nat)

def cache (base : RadixCache τ ν π) [DecidableEq ν] :
    Machine (EvictHeapRadixCache τ ν π) (Action τ ν) where
  init := { tree := base.empty }
  step s a :=
    match a with
    | .tree t => some { s with tree := t }
    | .updateLeafStatus node => some (s.updateLeafStatus base node)
    | .deleteLeaf node => some (s.deleteLeaf base node)
    | .reset => some (s.reset base)
    | .evict numTokens fuel => (s.evict base numTokens fuel).map (·.cache)

/-- A change of the tree by other means than these methods makes no node an evictable leaf, and the
priority of no evictable leaf gets smaller. -/
def AsAssumed (base : RadixCache τ ν π) (s : EvictHeapRadixCache τ ν π) : Action τ ν → Prop
  | .tree t => ∀ x ∈ base.evictableLeaves t,
      x ∈ base.evictableLeaves s.tree ∧ base.getPriority s.tree x ≤ base.getPriority t x
  | _ => True

end Radix
