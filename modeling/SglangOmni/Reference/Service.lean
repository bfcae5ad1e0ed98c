import SglangOmni.Lib.Dict
import SglangOmni.Lib.Machine
import SglangOmni.Reference.Cache

/-! The service that encodes references: concurrent calls share what is cached, calls for a key that is being
encoded wait for the call that leads it, and a worker may encode items in batches.  The steps of the calls and
of the worker come in any order. -/

namespace Reference

open Lib

/-- The hook.  A call runs each of its methods once, so that a function of the call says what the method
returns or raises there; the worker runs the encoders for the entries of its queue. -/
structure ReferenceEncodeHook (κ σ α ε : Type) where
  /-- `normalize_input` and `cache_key`. -/
  cacheKey : ℕ → Except ε (Option κ)
  encodeOne : ℕ → Except ε α
  encodeEntry : ℕ → Except ε α
  encodeBatch : List ℕ → Except ε (List α)
  storeArtifact : ℕ → α → Except ε σ
  revalidate : ℕ → Except ε Bool
  loadArtifact : ℕ → σ → Except ε α

structure Options (κ σ α ε : Type) where
  hook : ReferenceEncodeHook κ σ α ε
  cache : CacheOptions σ ε
  batching : Bool
  maxBatchSize : ℕ
  /-- The value is `None`, which the lookup takes for no value. -/
  isNone : σ → Bool
  isException : ε → Bool
  isTimeout : ε → Bool
  timeoutError : ε
  shutdownError : ε
  freshException : ε → ε

inductive Role (κ : Type) where
  | unknown
  | uncacheable
  | hit (key : κ)
  | follower (key : κ) (leader : ℕ)
  | leader (key : κ)

inductive Stage (κ σ α ε : Type) where
  | normalizing
  | looking (key : Option κ)
  | encoding
  | queued (entry : ℕ)
  | storing (artifact : α)
  | checking (stored : σ)
  | publishing (stored : σ) (shouldCache : Bool)
  | completing (stored : σ)
  | failing (e : ε)
  | raising (e : ε)
  | waiting
  | loading (stored : σ)
  | returned (artifact : α)
  | raised (e : ε)
  | timedOut

/-- A call of `get_or_encode`, with the future that it completes if it leads. -/
structure Call (κ σ α ε : Type) where
  role : Role κ := .unknown
  stage : Stage κ σ α ε := .normalizing
  stored : Option σ := none
  shouldCache : Bool := false
  future : Option (Except ε σ) := none

inductive Worker (α ε : Type) where
  | absent
  | idle
  | collecting (batch : List ℕ)
  | encoding (batch : List ℕ) (stopping : Bool)
  | retrying (batch : List ℕ) (stopping : Bool) (results : List (Except ε α)) (rest : List ℕ)
  | completing (outcomes : List (ℕ × Except ε α)) (stopping : Bool)
  | draining
  | stopped

structure ReferenceEncodeService (κ σ α ε : Type) where
  cache : StageOutputCache κ σ := {}
  inflight : Dict κ ℕ := ∅
  calls : List (Call κ σ α ε) := []
  hits : ℕ := 0
  misses : ℕ := 0
  merged : ℕ := 0
  failed : ℕ := 0
  uncacheable : ℕ := 0
  batches : ℕ := 0
  batchedItems : ℕ := 0
  /-- The entries in the queue, where `none` asks the worker to stop. -/
  batchQueue : List (Option ℕ) := []
  /-- The number of entries put so far. -/
  entries : ℕ := 0
  /-- The futures of entries completed so far, with their outcomes. -/
  completions : List (ℕ × Except ε α) := []
  worker : Worker α ε

inductive Act where
  | enter
  | advance (call : ℕ)
  | timeOut (call : ℕ)
  | work
  | endWait
  | close
  deriving DecidableEq

variable {κ σ α ε : Type} [DecidableEq κ] (cfg : Options κ σ α ε)

/-! ### Calls -/

section Calls

variable (s : ReferenceEncodeService κ σ α ε) (c : ℕ) (call : Call κ σ α ε)

def outcomeOf (entry : ℕ) : Option (Except ε α) :=
  (s.completions.find? fun completion => completion.1 = entry).map Prod.snd

def futureOf (leader : ℕ) : Option (Except ε σ) := s.calls[leader]?.bind (·.future)

/-- `encode_leader` has an outcome. -/
def Call.encoded (outcome : Except ε α) : Call κ σ α ε :=
  match outcome with
  | .error e => { call with stage := .failing e }
  | .ok artifact =>
    match call.role with
    | .leader _ => { call with stage := .storing artifact }
    | _ => { call with stage := .returned artifact }

def reraised (e : ε) : ε := if cfg.isTimeout e then e else cfg.freshException e

def Call.own : Option (Call κ σ α ε) :=
  match call.stage with
  | .normalizing =>
    match cfg.hook.cacheKey c with
    | .error e => some { call with stage := .raised e }
    | .ok key => some { call with stage := .looking key }
  | .encoding => if cfg.batching then none else some (call.encoded (cfg.hook.encodeOne c))
  | .queued entry => (outcomeOf s entry).map call.encoded
  | .storing artifact =>
    match cfg.hook.storeArtifact c artifact with
    | .error e => some { call with stage := .failing e }
    | .ok stored => some { call with stage := .checking stored, stored := some stored }
  | .checking stored =>
    match cfg.hook.revalidate c with
    | .error e => some { call with stage := .failing e }
    | .ok shouldCache =>
      some { call with stage := .publishing stored shouldCache, shouldCache := shouldCache }
  | .completing stored => some { call with stage := .loading stored, future := some (.ok stored) }
  | .raising e => some { call with stage := .raised e, future := some (.error e) }
  | .waiting =>
    match call.role with
    | .follower _ leader =>
      match futureOf s leader with
      | none => none
      | some (.ok stored) => some { call with stage := .loading stored }
      | some (.error e) => some { call with stage := .raised (reraised cfg e) }
    | _ => none
  | .loading stored =>
    match cfg.hook.loadArtifact c stored with
    | .error e => some { call with stage := .raised e }
    | .ok artifact => some { call with stage := .returned artifact }
  | _ => none

def ReferenceEncodeService.setCall : ReferenceEncodeService κ σ α ε :=
  { s with calls := s.calls.set c call }

def countUncacheable : ReferenceEncodeService κ σ α ε :=
  { s with uncacheable := s.uncacheable + 1 }.setCall c
    { call with role := .uncacheable, stage := .encoding }

def lookUp (key : κ) : ReferenceEncodeService κ σ α ε :=
  let (stored, cache) := s.cache.get key
  let s := { s with cache := cache }
  match stored.filter (!cfg.isNone ·) with
  | some stored =>
    { s with hits := s.hits + 1 }.setCall c
      { call with role := .hit key, stage := .loading stored }
  | none =>
    match s.inflight.get? key with
    | some leader =>
      { s with merged := s.merged + 1 }.setCall c
        { call with role := .follower key leader, stage := .waiting }
    | none =>
      { s with misses := s.misses + 1, inflight := s.inflight.set key c }.setCall c
        { call with role := .leader key, stage := .encoding }

/-- `encode_leader` puts an entry into the queue. -/
def enqueue : ReferenceEncodeService κ σ α ε :=
  { s with
    batchQueue := s.batchQueue ++ [some s.entries]
    entries := s.entries + 1 }.setCall c { call with stage := .queued s.entries }

def publish (key : κ) (stored : σ) (shouldCache : Bool) : ReferenceEncodeService κ σ α ε :=
  let (cache, outcome) := if shouldCache then s.cache.put cfg.cache key stored else (s.cache, .ok ())
  let s := { s with cache := cache }
  match outcome with
  | .error e => s.setCall c { call with stage := .failing e }
  | .ok () =>
    { s with inflight := s.inflight.erase key }.setCall c { call with stage := .completing stored }

def fail (e : ε) : ReferenceEncodeService κ σ α ε :=
  let s := { s with failed := s.failed + 1 }
  match call.role with
  | .leader key =>
    { s with inflight := s.inflight.erase key }.setCall c { call with stage := .raising e }
  | _ => s.setCall c { call with stage := .raised e }

def advance : Option (ReferenceEncodeService κ σ α ε) :=
  match call.stage with
  | .looking none => some (countUncacheable s c call)
  | .looking (some key) => some (lookUp cfg s c call key)
  | .encoding =>
    if cfg.batching then some (enqueue s c call)
    else (call.own cfg s c).map (s.setCall c)
  | .publishing stored shouldCache =>
    match call.role with
    | .leader key => some (publish cfg s c call key stored shouldCache)
    | _ => none
  | .failing e => some (fail s c call e)
  | _ => (call.own cfg s c).map (s.setCall c)

def Call.timeOut : Option (Call κ σ α ε) :=
  match call.stage with
  | .queued entry =>
    if (outcomeOf s entry).isNone then some { call with stage := .failing cfg.timeoutError } else none
  | .waiting =>
    match call.role with
    | .follower _ leader =>
      if (futureOf s leader).isNone then some { call with stage := .timedOut } else none
    | _ => none
  | _ => none

end Calls

/-! ### The worker -/

section Work

variable (s : ReferenceEncodeService κ σ α ε)

def allRaised (batch : List ℕ) (e : ε) : List (ℕ × Except ε α) :=
  batch.map fun entry => (entry, .error e)

/-- `encode_batch` of the hook has an outcome. -/
def encodeBatch (batch : List ℕ) (stopping : Bool) : ReferenceEncodeService κ σ α ε :=
  match cfg.hook.encodeBatch batch with
  | .ok artifacts =>
    if artifacts.length = batch.length then
      { s with
        batches := s.batches + 1
        batchedItems := s.batchedItems + batch.length
        worker := .completing (batch.zip (artifacts.map Except.ok)) stopping }
    else { s with worker := .retrying batch stopping [] batch }
  | .error e =>
    if cfg.isException e then { s with worker := .retrying batch stopping [] batch }
    else { s with worker := .completing (allRaised batch e) stopping }

def encodeItem (batch : List ℕ) (stopping : Bool) (results : List (Except ε α)) (entry : ℕ)
    (rest : List ℕ) : ReferenceEncodeService κ σ α ε :=
  match cfg.hook.encodeEntry entry with
  | .ok artifact =>
    { s with worker := .retrying batch stopping (results ++ [Except.ok artifact]) rest }
  | .error e =>
    if cfg.isException e then
      { s with worker := .retrying batch stopping (results ++ [Except.error e]) rest }
    else { s with worker := .completing (allRaised batch e) stopping }

def complete (entry : ℕ) (outcome : Except ε α) : ReferenceEncodeService κ σ α ε :=
  { s with completions := s.completions ++ [(entry, outcome)] }

def delivered (outcome : Except ε α) : Except ε α := outcome.mapError cfg.freshException

def work : Option (ReferenceEncodeService κ σ α ε) :=
  match s.worker with
  | .absent => none
  | .idle =>
    match s.batchQueue with
    | [] => none
    | none :: queue => some { s with batchQueue := queue, worker := .draining }
    | some entry :: queue => some { s with batchQueue := queue, worker := .collecting [entry] }
  | .collecting batch =>
    if batch.length < cfg.maxBatchSize then
      match s.batchQueue with
      | [] => none
      | none :: queue => some { s with batchQueue := queue, worker := .encoding batch true }
      | some entry :: queue =>
        some { s with batchQueue := queue, worker := .collecting (batch ++ [entry]) }
    else some { s with worker := .encoding batch false }
  | .encoding batch stopping => some (encodeBatch cfg s batch stopping)
  | .retrying batch stopping results [] =>
    some { s with worker := .completing (batch.zip results) stopping }
  | .retrying batch stopping results (entry :: rest) =>
    some (encodeItem cfg s batch stopping results entry rest)
  | .completing [] stopping =>
    some { s with worker := if stopping then .draining else .idle }
  | .completing ((entry, outcome) :: rest) stopping =>
    some { complete s entry (delivered cfg outcome) with worker := .completing rest stopping }
  | .draining =>
    match s.batchQueue with
    | [] => some { s with worker := .stopped }
    | none :: queue => some { s with batchQueue := queue }
    | some entry :: queue =>
      some { complete s entry (.error cfg.shutdownError) with batchQueue := queue }
  | .stopped => none

def endWait : Option (ReferenceEncodeService κ σ α ε) :=
  match s.worker with
  | .collecting batch =>
    if batch.length < cfg.maxBatchSize ∧ s.batchQueue = [] then
      some { s with worker := .encoding batch false }
    else none
  | _ => none

end Work

def service : Machine (ReferenceEncodeService κ σ α ε) Act where
  init := { worker := if cfg.batching then .idle else .absent }
  step s
    | .enter => some { s with calls := s.calls ++ [{}] }
    | .advance c => s.calls[c]?.bind (advance cfg s c)
    | .timeOut c => (s.calls[c]?.bind (Call.timeOut cfg s)).map (s.setCall c)
    | .work => work cfg s
    | .endWait => endWait cfg s
    | .close => if cfg.batching then some { s with batchQueue := s.batchQueue ++ [none] } else some s

end Reference
