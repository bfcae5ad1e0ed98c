import SglangOmni.History.Cut

/-! `ARSessionBridge.drop_history`: the cut is applied to the committed token arrays, to the KV of the
session row, and to the embedding spans.  `drop_history_applies` says that the three agree. -/

namespace History

open Lib

/-- The arrays of the last request of a session, by identity: the unpadded ids usually are the origin
ids. -/
structure LastRequest where
  originInputIds : Nat
  originInputIdsUnpadded : Nat
  fullUntruncatedFillIds : Nat

/-- The part of SGLang's `Session` that a cut edits. -/
structure NativeSession where
  reqNodes : List LastRequest
  committedOriginLen : Nat
  committedUnpaddedLen : Nat
  committedFillLen : Nat

structure RetainedKv where
  reqPoolIdx : Nat
  cacheProtectedLen : Nat
  kvCommittedLen : Nat
  kvAllocatedLen : Nat
  holdsKv : Bool

structure Layer (K V : Type) where
  rows : Nat
  key : Nat → K
  value : Nat → V

/-- The KV cache: token slots in pages, and a buffer row per slot in each layer. -/
structure KvCache (K V : Type) where
  size : Nat
  pageSize : Nat
  layers : List (Layer K V)

structure EmbeddingSpan (E : Type) where
  start : Nat
  stop : Nat
  inputEmbeds : E
deriving DecidableEq

/-- What `drop_history` reads and writes.  `freed` are the slots given back so far. -/
structure Store (K V E : Type) where
  arrays : Nat → List Int
  native : NativeSession
  record : Option RetainedKv
  reqToToken : Nat → Nat → Nat
  pageSize : Nat
  cache : KvCache K V
  freed : List Nat
  embeddingSpans : List (EmbeddingSpan E)

variable {K V E : Type}

/-! ### Token ids -/

def delRange (r : CutRange) (tokenIds : List Int) : List Int :=
  tokenIds.take r.1 ++ tokenIds.drop r.2

def delRanges (ranges : List CutRange) (tokenIds : List Int) : List Int :=
  ranges.reverse.foldl (fun ids r => delRange r ids) tokenIds

def LastRequest.arrayIds (request : LastRequest) : List Nat :=
  [request.originInputIds, request.originInputIdsUnpadded, request.fullUntruncatedFillIds].dedup

def cutTokenIds (s : Store K V E) (cut : HistoryCut) : Except CutError (Store K V E) :=
  match s.native.reqNodes with
  | [request] =>
    if cut.lastEnd ≤ min (min s.native.committedOriginLen s.native.committedUnpaddedLen)
        s.native.committedFillLen then
      .ok { s with
        arrays := request.arrayIds.foldl (fun arrays id =>
          Function.update arrays id (delRanges cut.ranges (arrays id))) s.arrays
        native := { s.native with
          committedOriginLen := s.native.committedOriginLen - cut.length
          committedUnpaddedLen := s.native.committedUnpaddedLen - cut.length
          committedFillLen := s.native.committedFillLen - cut.length } }
    else .error (.leavesTokenIds cut.ranges)
  | _ => .error .notOneNode

/-! ### KV -/

def keptPositions (ranges : List CutRange) (committedLen : Nat) : List Nat :=
  (List.zipWith (fun r keptEnd => List.range' r.2 (keptEnd - r.2)) ranges
    (ranges.tail.map Prod.fst ++ [committedLen])).flatten

/-- `Tensor.index_select` on rows. -/
def indexSelect {α : Type} (buffer : Nat → α) (slots : List Nat) : List α := slots.map buffer

/-- `Tensor.index_copy_` on rows. -/
def indexCopy {α : Type} (buffer : Nat → α) (slots : List Nat) (rows : List α) : Nat → α :=
  (slots.zip rows).foldl (fun b entry => Function.update b entry.1 entry.2) buffer

/-- One round of the loop over the layers: the rows are read, then written. -/
def moveLayer (shiftKeyPositions : List K → List Nat → List K) (sources targets distances : List Nat)
    (layer : Layer K V) : Layer K V :=
  { layer with
    key := indexCopy layer.key targets
      (shiftKeyPositions (indexSelect layer.key sources) distances)
    value := indexCopy layer.value targets (indexSelect layer.value sources) }

def ceilAlign (length page : Nat) : Nat := (length + page - 1) / page * page

def cutRetainedKv (shiftKeyPositions : List K → List Nat → List K) (s : Store K V E) (kv : RetainedKv)
    (cut : HistoryCut) : Except CutError (Store K V E) :=
  if cut.firstStart < kv.cacheProtectedLen then
    .error (.reachesTreePrefix cut.firstStart kv.cacheProtectedLen)
  else if kv.kvCommittedLen < cut.lastEnd then
    .error (.passesCommittedKv cut.ranges kv.kvCommittedLen)
  else
    let keptLength := kv.kvCommittedLen - cut.length
    let row := s.reqToToken kv.reqPoolIdx
    let kept := keptPositions cut.ranges kv.kvCommittedLen
    let moved := List.range' cut.firstStart (keptLength - cut.firstStart)
    if s.cache.layers.all fun layer => layer.rows == s.cache.size + s.cache.pageSize then
      let tailStart := ceilAlign keptLength s.pageSize
      .ok { s with
        cache := { s.cache with
          layers := s.cache.layers.map (moveLayer shiftKeyPositions (kept.map row) (moved.map row)
            (List.zipWith (· - ·) kept moved)) }
        freed :=
          if tailStart < kv.kvAllocatedLen then
            s.freed ++ (List.range' tailStart (kv.kvAllocatedLen - tailStart)).map row
          else s.freed
        record := some { kv with kvAllocatedLen := keptLength, kvCommittedLen := keptLength } }
    else .error .notOneRowPerSlot

/-! ### The whole cut -/

def moveSpans (cut : HistoryCut) :
    List (EmbeddingSpan E) → Except CutError (List (EmbeddingSpan E))
  | [] => .ok []
  | span :: rest => do
    let dropped ← cut.drops span.start span.stop
    let moved ← moveSpans cut rest
    return if dropped then moved else
      ⟨cut.newPosition span.start, cut.newPosition span.stop, span.inputEmbeds⟩ :: moved

/-- The KV is cut where the session holds any: after an abort it does not. -/
def dropKv (shiftKeyPositions : List K → List Nat → List K) (s : Store K V E) (cut : HistoryCut) :
    Except CutError (Store K V E) :=
  match s.record with
  | some kv => if kv.holdsKv then cutRetainedKv shiftKeyPositions s kv cut else .ok s
  | none => .ok s

def dropHistory (shiftKeyPositions : List K → List Nat → List K) (s : Store K V E)
    (cut : HistoryCut) : Except CutError (Store K V E) := do
  let cutIds ← cutTokenIds s cut
  let cutKv ← dropKv shiftKeyPositions cutIds cut
  let spans ← moveSpans cut cutKv.embeddingSpans
  return { cutKv with embeddingSpans := spans }

end History
