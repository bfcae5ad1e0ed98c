import SglangOmni.Lib.Dict
import SglangOmni.Lib.Machine
import SglangOmni.Router.Select

/-! The leases of the worker pool: admission permits, session permits and worker load, taken and given
back by dispatches that run at the same time. A step is one atomic operation of one call; the selector
lock is held from a call's first locked operation to its last. -/

namespace Router

/-- `session_capacity_index`: the classes that have session capacity. -/
def isSessionClass : CapacityClass → Bool
  | .speechWebsocket | .realtimeWebsocket => true
  | _ => false

/-- The limit that `build_session_capacity` gives a worker's class. -/
def WorkerCapacityConfig.sessionLimit (capacity : WorkerCapacityConfig) :
    CapacityClass → Option UInt32
  | .speechWebsocket => capacity.speechWebsocket
  | .realtimeWebsocket => capacity.realtimeWebsocket
  | _ => none

structure PoolConfig where
  parse : String → Option Url
  workers : List WorkerConfig
  voiceOwnerWorkerId : Option String
  strategy : RoutingStrategy
  globalLimit : UInt32
  classLimit : CapacityClass → Option UInt32
  pool : Pool
  valid : validateWorkers parse workers = .ok ()
  built : Pool.build workers voiceOwnerWorkerId strategy = some pool

def PoolConfig.count (cfg : PoolConfig) : Nat := cfg.pool.records.length

def PoolConfig.sessionLimit (cfg : PoolConfig) (worker : Nat) (cls : CapacityClass) : Option UInt32 :=
  cfg.pool.records[worker]?.bind fun record => record.capacity.sessionLimit cls

/-- The loop of `dispatch_session` over the records. -/
structure SessionSearch where
  cls : CapacityClass
  matching : ProfileMatches
  requiresDefaultResolution : Bool
  next : Nat := 0
  resolvedDefault : Option String := none
  healthyFound : Bool := false
  eligible : List Nat := []

/-- Where a call stands. From `compare` on, and in the search for a session, it holds the selector. -/
inductive Phase where
  | idle
  | scan (matched : Nat → Bool) (next : Nat) (eligible : List Nat)
  | wait (eligible : List Nat)
  | waitOwner (worker : Nat) (session : Option CapacityClass)
  | waitSession (search : SessionSearch)
  | sessionHealth (search : SessionSearch)
  | sessionPermits (search : SessionSearch)
  | compare (session : Option CapacityClass) (eligible rest : List Nat) (found : Nat × List Nat)
  | reserve (session : Option (CapacityClass × DispatchError)) (worker : Nat) (eligible : List Nat)
  | granted (worker : Nat) (eligible : List Nat)

inductive Call where
  | dispatch (requirement : RouteRequirement)
  | dispatchSession (requirement : RouteRequirement)
  | contentBlind (cohort : ContentBlind)
  | voiceOwner
  | pinned (worker : Nat)
deriving DecidableEq

/-- An `EnvelopeLease`, an `AdmissionLease` or a `RequestLease`, by what it owns besides its one global
permit: class permits, a session permit, and weighted load on a worker. -/
structure Lease where
  admission : Option (CapacityClass × Nat) := none
  session : Option (Nat × CapacityClass) := none
  load : Option (Nat × Nat) := none
  call : Option Call := none
  phase : Phase := .idle

structure Returned where
  call : Option Call
  admitted : Option CapacityClass
  result : Except DispatchError Nat
deriving DecidableEq

/-- A reservation: the loads just before it, and whether no load was given back since the selector was
locked for it. -/
structure Choice where
  worker : Nat
  eligible : List Nat
  load : Nat → Nat
  quiet : Bool

structure State where
  health : Nat → WorkerHealth
  load : Nat → Nat
  global : Nat
  draining : Bool
  classes : CapacityClass → Option Nat
  sessions : Nat → CapacityClass → Option Nat
  recency : List Nat
  selector : Option Nat
  leases : Lib.Dict Nat Lease
  underflowed : Bool
  quiet : Bool
  returned : List Returned
  choices : List Choice

namespace State

def setLease (s : State) (id : Nat) (lease : Lease) : State :=
  { s with leases := s.leases.set id lease }

def setPhase (s : State) (id : Nat) (lease : Lease) (phase : Phase) : State :=
  s.setLease id { lease with phase }

def incrementLoad (s : State) (worker weight : Nat) : State :=
  { s with load := fun w => if w = worker then (s.load w + weight) % 2 ^ 64 else s.load w }

end State

/-! ### What a drop gives back -/

def addClassPermits (classes : CapacityClass → Option Nat) :
    Option (CapacityClass × Nat) → CapacityClass → Option Nat
  | none => classes
  | some (cls, credits) => fun c => if c = cls then (classes c).map (· + credits) else classes c

def addSessionPermit (sessions : Nat → CapacityClass → Option Nat) :
    Option (Nat × CapacityClass) → Nat → CapacityClass → Option Nat
  | none => sessions
  | some (worker, cls) => fun w c =>
      if w = worker ∧ c = cls then (sessions w c).map (· + 1) else sessions w c

/-- Whether the checked subtraction of `decrement_load` fails. -/
def underflows (load : Nat → Nat) : Option (Nat × Nat) → Bool
  | none => false
  | some (worker, weight) => load worker < weight

/-- `decrement_load`, which leaves the load where the subtraction fails. -/
def decrementLoad (load : Nat → Nat) : Option (Nat × Nat) → Nat → Nat
  | none => load
  | some (worker, weight) =>
      if load worker < weight then load
      else fun w => if w = worker then load w - weight else load w

namespace State

def dropLease (s : State) (id : Nat) (lease : Lease) : State :=
  { s with
    classes := addClassPermits s.classes lease.admission
    global := s.global + 1
    sessions := addSessionPermit s.sessions lease.session
    load := decrementLoad s.load lease.load
    underflowed := s.underflowed || underflows s.load lease.load
    quiet := s.quiet && lease.load.isNone
    leases := s.leases.erase id }

def unlock (s : State) (id : Nat) : State :=
  { s with selector := if s.selector = some id then none else s.selector }

def lock (s : State) (id : Nat) : State :=
  { s with selector := some id, quiet := true }

def log (s : State) (lease : Lease) (result : Except DispatchError Nat) : State :=
  { s with returned := s.returned
      ++ [{ call := lease.call, admitted := lease.admission.map (·.1), result }] }

/-- A call returns an error: it leaves the selector and drops the lease it was given. -/
def fail (s : State) (id : Nat) (lease : Lease) (error : DispatchError) : State :=
  ((s.log lease (.error error)).unlock id).dropLease id lease

def grant (s : State) (id : Nat) (lease : Lease) (worker : Nat) (eligible : List Nat) : State :=
  let weight := match lease.admission with
    | some (_, credits) => credits
    | none => 1
  let choice : Choice := { worker, eligible, load := s.load, quiet := s.quiet }
  let s := (s.incrementLoad worker weight).log lease (.ok worker)
  let s : State := { s with choices := s.choices ++ [choice] }
  (s.setPhase id { lease with load := some (worker, weight) } .idle).unlock id

variable (cfg : PoolConfig)

/-! ### Admission -/

def tryAdmitEnvelope (s : State) (id : Nat) : Option State :=
  if s.leases.contains id then none
  else if s.draining ∨ s.global = 0 then some s
  else some (({ s with global := s.global - 1 } : State).setLease id {})

/-- `try_admit_class`: an envelope that gets no class permits is dropped. -/
def tryAdmitClass (s : State) (id : Nat) (lease : Lease) (cls : CapacityClass) (credits : UInt32) :
    State :=
  match s.classes cls with
  | none => s.dropLease id lease
  | some free =>
      if free < credits.toNat then s.dropLease id lease
      else
        let taken : State := { s with
          classes := fun c => if c = cls then some (free - credits.toNat) else s.classes c }
        taken.setLease id { lease with admission := some (cls, credits.toNat) }

/-! ### Dispatch up to the first shared read -/

def beginDispatch (s : State) (id : Nat) (lease : Lease) (admitted : CapacityClass)
    (requirement : RouteRequirement) : State :=
  if admitted ≠ requirement.capacityClass then s.fail id lease .internal
  else
    match cfg.pool.matchingProfiles requirement with
    | .error error => s.fail id lease error
    | .ok matching =>
        if matching.voicePolicy = some .uploaded then
          match cfg.pool.uploadedVoiceOwner s.health requirement.profile matching with
          | .error error => s.fail id lease error
          | .ok owner => s.setPhase id lease (.waitOwner owner none)
        else
          match (if matching.any && requirement.profile.requiresDefaultResolution then
              resolveDefault matching none cfg.pool.records.zipIdx else .ok ()) with
          | .error error => s.fail id lease error
          | .ok () =>
              if !matching.any then s.fail id lease .noEligibleProfile
              else s.setPhase id lease (.scan matching.worker 0 [])

def beginDispatchSession (s : State) (id : Nat) (lease : Lease) (admitted : CapacityClass)
    (requirement : RouteRequirement) : State :=
  if admitted ≠ requirement.capacityClass ∨ isSessionClass admitted = false then
    s.fail id lease .internal
  else
    match cfg.pool.matchingProfiles requirement with
    | .error error => s.fail id lease error
    | .ok matching =>
        if matching.voicePolicy = some .uploaded then
          match cfg.pool.uploadedVoiceOwner s.health requirement.profile matching with
          | .error error => s.fail id lease error
          | .ok owner => s.setPhase id lease (.waitOwner owner (some admitted))
        else
          let search : SessionSearch := {
            cls := admitted
            matching
            requiresDefaultResolution := requirement.profile.requiresDefaultResolution }
          s.setPhase id lease (.waitSession search)

def beginDispatchVoiceOwner (s : State) (id : Nat) (lease : Lease) : State :=
  match cfg.pool.voiceOwner with
  | none => s.fail id lease .internal
  | some owner =>
      if !isRoutable s.health owner then s.fail id lease .unavailable
      else s.setPhase id lease (.waitOwner owner none)

def beginDispatchPinned (s : State) (id : Nat) (lease : Lease) (worker : Nat) : State :=
  if !isRoutable s.health worker then s.fail id lease .unavailable
  else s.setPhase id lease (.waitOwner worker none)

/-! ### Dispatch, one shared operation at a time -/

/-- `.ok_or(DispatchError::Internal)?` on the selected worker. -/
def takeSelected (s : State) (id : Nat) (lease : Lease) (session : Option CapacityClass)
    (eligible : List Nat) : Option (Nat × List Nat) → State
  | none => s.fail id lease .internal
  | some (worker, recency) =>
      let selected : State := { s with recency }
      selected.setPhase id lease (.reserve (session.map (·, .internal)) worker eligible)

def chooseWorker (s : State) (id : Nat) (lease : Lease) (session : Option CapacityClass)
    (eligible : List Nat) : State :=
  match cfg.pool.strategy with
  | .roundRobin => s.takeSelected id lease session eligible
      (select s.recency (candidateSet eligible))
  | .leastRequests =>
      s.setPhase id lease (.compare session eligible eligible (usizeMax, []))

/-- The end of the search of `dispatch_session`. -/
def endSearch (s : State) (id : Nat) (lease : Lease) (search : SessionSearch) : State :=
  if !search.matching.any then s.fail id lease .noEligibleProfile
  else if !search.healthyFound then s.fail id lease .unavailable
  else if search.eligible.isEmpty then s.fail id lease .overloaded
  else s.chooseWorker cfg id lease (some search.cls) search.eligible

def searchHealth (s : State) (id : Nat) (lease : Lease) (search : SessionSearch)
    (record : WorkerConfig) : State :=
  let skip (search : SessionSearch) : State :=
    s.setPhase id lease (.sessionHealth { search with next := search.next + 1 })
  let observe (search : SessionSearch) : State :=
    if !isRoutable s.health search.next then skip search
    else s.setPhase id lease (.sessionPermits { search with healthyFound := true })
  if !search.matching.worker search.next then skip search
  else if search.requiresDefaultResolution then
    match record.defaultModelId, search.resolvedDefault with
    | none, _ => s.fail id lease .ambiguousModel
    | some modelId, none => observe { search with resolvedDefault := some modelId }
    | some modelId, some expected =>
        if expected = modelId then observe search else s.fail id lease .ambiguousModel
  else observe search

def searchPermits (s : State) (id : Nat) (lease : Lease) (search : SessionSearch) : State :=
  let eligible := if (s.sessions search.next search.cls).any (· != 0) then
      search.eligible ++ [search.next] else search.eligible
  s.setPhase id lease (.sessionHealth { search with next := search.next + 1, eligible })

/-- `try_acquire_owned` on a session semaphore, and the error its caller makes of a failure. -/
def acquireSession (s : State) (id : Nat) (lease : Lease) (cls : CapacityClass)
    (error : DispatchError) (worker : Nat) (eligible : List Nat) : State :=
  match s.sessions worker cls with
  | none => s.fail id lease .internal
  | some 0 => s.fail id lease error
  | some (free + 1) =>
      let acquired : State := { s with
        sessions := fun w c => if w = worker ∧ c = cls then some free else s.sessions w c }
      acquired.setPhase id { lease with session := some (worker, cls) } (.granted worker eligible)

/-- The next operation of a call; none where it waits for the selector. -/
def advance (s : State) (id : Nat) (lease : Lease) : Option State :=
  match lease.phase with
  | .idle => none
  | .scan matched next eligible =>
      if next < cfg.count then
        some (s.setPhase id lease (.scan matched (next + 1)
          (if matched next && isRoutable s.health next then eligible ++ [next] else eligible)))
      else if eligible.isEmpty then some (s.fail id lease .unavailable)
      else some (s.setPhase id lease (.wait eligible))
  | .wait eligible =>
      if s.selector.isSome then none
      else some ((s.lock id).chooseWorker cfg id lease none eligible)
  | .waitOwner worker session =>
      if s.selector.isSome then none
      else some ((s.lock id).setPhase id lease
        (.reserve (session.map (·, .overloaded)) worker [worker]))
  | .waitSession search =>
      if s.selector.isSome then none
      else some ((s.lock id).setPhase id lease (.sessionHealth search))
  | .sessionHealth search =>
      match cfg.pool.records[search.next]? with
      | none => some (s.endSearch cfg id lease search)
      | some record => some (s.searchHealth id lease search record)
  | .sessionPermits search => some (s.searchPermits id lease search)
  | .compare session eligible [] found =>
      some (s.takeSelected id lease session eligible
        (select s.recency (candidateSet found.2)))
  | .compare session eligible (index :: rest) found =>
      some (s.setPhase id lease
        (.compare session eligible rest (compareLoad found index (s.load index))))
  | .reserve none worker eligible => some (s.grant id lease worker eligible)
  | .reserve (some (cls, error)) worker eligible =>
      some (s.acquireSession id lease cls error worker eligible)
  | .granted worker eligible => some (s.grant id lease worker eligible)

end State

inductive Action where
  | admitEnvelope (id : Nat)
  | admitClass (id : Nat) (cls : CapacityClass) (credits : UInt32)
  | call (id : Nat) (call : Call)
  | advance (id : Nat)
  | drop (id : Nat)
  | setHealth (worker : Nat) (health : WorkerHealth)
  | drain

namespace State

variable (cfg : PoolConfig)

/-- A call begins on a lease of the kind it takes: an admission, or a bare envelope. -/
def beginCall (s : State) (id : Nat) (lease : Lease) (call : Call) : Option State :=
  let lease := { lease with call := some call }
  match call, lease.admission with
  | .dispatch requirement, some (admitted, _) =>
      some (s.beginDispatch cfg id lease admitted requirement)
  | .dispatchSession requirement, some (admitted, _) =>
      some (s.beginDispatchSession cfg id lease admitted requirement)
  | .contentBlind cohort, some _ =>
      some (s.setPhase id lease (.scan (cohort.isMember cfg.pool) 0 []))
  | .voiceOwner, none => some (s.beginDispatchVoiceOwner cfg id lease)
  | .pinned worker, none =>
      if worker < cfg.count then some (s.beginDispatchPinned id lease worker) else none
  | _, _ => none

def held (s : State) (id : Nat) : Option Lease := do
  let lease ← s.leases.get? id
  match lease.phase with
  | .idle => some lease
  | _ => none

def step (s : State) : Action → Option State
  | .admitEnvelope id => s.tryAdmitEnvelope id
  | .admitClass id cls credits => do
      let lease ← s.held id
      if lease.admission.isSome || lease.load.isSome then none
      else some (s.tryAdmitClass id lease cls credits)
  | .call id call => do
      let lease ← s.held id
      if lease.load.isSome then none else s.beginCall cfg id lease call
  | .advance id => do
      let lease ← s.leases.get? id
      s.advance cfg id lease
  | .drop id => do
      let lease ← s.held id
      return s.dropLease id lease
  | .setHealth worker health =>
      some { s with health := fun w => if w = worker then health else s.health w }
  | .drain => some { s with draining := true }

def initial : State where
  health _ := .unknown
  load _ := 0
  global := cfg.globalLimit.toNat
  draining := false
  classes cls := (cfg.classLimit cls).map (·.toNat)
  sessions worker cls := (cfg.sessionLimit worker cls).map (·.toNat)
  recency := List.range cfg.count
  selector := none
  leases := ∅
  underflowed := false
  quiet := true
  returned := []
  choices := []

end State

/-- The router's pool under any interleaving of calls, drops, health changes and a drain. -/
def router (cfg : PoolConfig) : Lib.Machine State Action where
  init := State.initial cfg
  step := State.step cfg

end Router
