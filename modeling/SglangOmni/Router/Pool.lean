import Mathlib.Algebra.GroupWithZero.Nat
import SglangOmni.Router.Rows

/-! The worker pool of the router: which workers a requirement matches, how one of them is selected, and
the cohorts for which a route is dispatched without reading the request body. -/

namespace Router

inductive RoutingStrategy where
  | roundRobin
  | leastRequests
deriving DecidableEq, Repr

inductive WorkerHealth where
  | unknown
  | healthy
  | unhealthy
deriving DecidableEq, Repr

inductive DispatchError where
  | ambiguousModel
  | noEligibleProfile
  | unavailable
  | overloaded
  | internal
deriving DecidableEq, Repr

/-- The registrations in startup order, of which the records keep the configuration, and the ordinal
of the voice owner. -/
structure Pool where
  records : List WorkerConfig
  voiceOwner : Option Nat
  strategy : RoutingStrategy
deriving DecidableEq, Repr

/-- The pool that `WorkerPool::build` makes, or `none` where the voice owner names no worker. -/
def Pool.build (workers : List WorkerConfig) (voiceOwnerWorkerId : Option String)
    (strategy : RoutingStrategy) : Option Pool :=
  match voiceOwnerWorkerId with
  | none => some { records := workers, voiceOwner := none, strategy }
  | some ownerId => do
      let owner ← workers.findIdx? (·.workerId == ownerId)
      return { records := workers, voiceOwner := some owner, strategy }

/-! ### Matching -/

def VoiceNamePolicy.bit : VoiceNamePolicy → Nat
  | .preset => 1
  | .uploaded => 2

def addVoicePolicy (requirement : ProfileRequirement) (policies : Nat)
    (profile : ServiceProfile) : Nat :=
  if requirement.hasNamedVoice then
    match profile.voiceNamePolicy with
    | some policy => policies ||| policy.bit
    | none => policies
  else policies

def profileMatch (record : WorkerConfig) (requirement : ProfileRequirement) : Bool × Nat :=
  record.serviceProfiles.foldl
    (fun result profile =>
      if !profile.matches requirement record.defaultModelId then result
      else (true, addVoicePolicy requirement result.2 profile))
    (false, 0)

structure ProfileMatches where
  workers : List Bool
  any : Bool
  voicePolicy : Option VoiceNamePolicy
deriving DecidableEq, Repr

namespace Pool

/-- What each registration contributes: nothing outside the trust domain. -/
def recordMatch (requirement : RouteRequirement) (record : WorkerConfig) : Bool × Nat :=
  if record.trustDomain != requirement.trustDomain then (false, 0)
  else profileMatch record requirement.profile

def matchingProfiles (pool : Pool) (requirement : RouteRequirement) :
    Except DispatchError ProfileMatches :=
  let found := pool.records.map (recordMatch requirement)
  let workers := found.map (·.1)
  let voicePolicies := found.foldl (fun policies m => policies ||| m.2) 0
  let matching (voicePolicy : Option VoiceNamePolicy) : ProfileMatches :=
    { workers, any := workers.contains true, voicePolicy }
  if voicePolicies = 0 then .ok (matching none)
  else if voicePolicies = VoiceNamePolicy.preset.bit then .ok (matching (some .preset))
  else if voicePolicies = VoiceNamePolicy.uploaded.bit then .ok (matching (some .uploaded))
  else .error .ambiguousModel

end Pool

def ProfileMatches.worker (matching : ProfileMatches) (index : Nat) : Bool :=
  matching.workers.getD index false

def resolveDefault (matching : ProfileMatches) : Option String → List (WorkerConfig × Nat) →
    Except DispatchError Unit
  | _, [] => .ok ()
  | resolved, (record, index) :: rest =>
      if !matching.worker index then resolveDefault matching resolved rest
      else
        match record.defaultModelId, resolved with
        | none, _ => .error .ambiguousModel
        | some modelId, none => resolveDefault matching (some modelId) rest
        | some modelId, some expected =>
            if expected = modelId then resolveDefault matching resolved rest
            else .error .ambiguousModel

/-! ### Selection -/

def usizeMax : Nat := 2 ^ 64 - 1

/-- What a dispatch reads of the pool's changing state: the health and the load of each of `count`
workers, and the recency order of the selector. -/
structure View (count : Nat) where
  health : Nat → WorkerHealth
  load : Nat → Nat
  recency : List Nat
  load_le : ∀ index, load index ≤ usizeMax
  recency_perm : recency.Perm (List.range count)

def isRoutable (health : Nat → WorkerHealth) (index : Nat) : Bool :=
  health index == .healthy

/-- `SelectorGuard::select`: the least recent candidate, moved behind every other worker. -/
def select (recency : List Nat) (candidates : Nat → Bool) : Option (Nat × List Nat) := do
  let position ← recency.findIdx? candidates
  let selected ← recency[position]?
  return (selected, recency.eraseIdx position ++ [selected])

def candidateSet (indices : List Nat) (index : Nat) : Bool :=
  indices.contains index

/-- One turn of the loop of `select_least_requests`: the least load so far and who has it. -/
def compareLoad (found : Nat × List Nat) (index load : Nat) : Nat × List Nat :=
  if load < found.1 then (load, [index])
  else if load = found.1 then (found.1, found.2 ++ [index])
  else found

def selectLeastRequests (load : Nat → Nat) (recency eligible : List Nat) : Option (Nat × List Nat) :=
  let ties := (eligible.foldl (fun found index => compareLoad found index (load index))
    (usizeMax, [])).2
  select recency (candidateSet ties)

def selectBy (strategy : RoutingStrategy) (load : Nat → Nat) (recency eligible : List Nat) :
    Option (Nat × List Nat) :=
  match strategy with
  | .roundRobin => select recency (candidateSet eligible)
  | .leastRequests => selectLeastRequests load recency eligible

namespace Pool

variable (pool : Pool) (view : View pool.records.length)

def dispatchMatching (profileFound : Bool) (matched : Nat → Bool) :
    Except DispatchError (Nat × List Nat) :=
  if !profileFound then .error .noEligibleProfile
  else
    let eligible := (List.range pool.records.length).filter fun index =>
      matched index && isRoutable view.health index
    if eligible.isEmpty then .error .unavailable
    else
      match selectBy pool.strategy view.load view.recency eligible with
      | some selected => .ok selected
      | none => .error .internal

def uploadedVoiceOwner (health : Nat → WorkerHealth) (requirement : ProfileRequirement)
    (matching : ProfileMatches) : Except DispatchError Nat :=
  match pool.voiceOwner with
  | none => .error .noEligibleProfile
  | some owner =>
      if !matching.worker owner then .error .noEligibleProfile
      else if requirement.requiresDefaultResolution
          && (pool.records[owner]?.bind (·.defaultModelId)).isNone then
        .error .ambiguousModel
      else if !isRoutable health owner then .error .unavailable
      else .ok owner

/-- `WorkerPool::dispatch` for an admission of class `admitted`. -/
def dispatch (admitted : CapacityClass) (requirement : RouteRequirement) :
    Except DispatchError (Nat × List Nat) :=
  if admitted ≠ requirement.capacityClass then .error .internal
  else do
    let matching ← pool.matchingProfiles requirement
    if matching.voicePolicy = some .uploaded then
      let owner ← pool.uploadedVoiceOwner view.health requirement.profile matching
      return (owner, view.recency)
    else
      if matching.any && requirement.profile.requiresDefaultResolution then
        resolveDefault matching none pool.records.zipIdx
      pool.dispatchMatching view matching.any matching.worker

end Pool

/-! ### Content-blind cohorts -/

/-- Whether a row belongs to `service` and, for speech to text, to `task`. -/
def relevant (service : ServiceClass) (task : Option SpeechToTextTask)
    (profile : ServiceProfile) : Bool :=
  profile.serviceClass == service
    && match profile, task with
      | .transcriptionHttp _ rowTask _ _, some required => rowTask == required
      | .transcriptionHttp .., none => false
      | _, none => true
      | _, some _ => false

def serviceRowsEqual (left right : List ServiceProfile) (service : ServiceClass)
    (task : Option SpeechToTextTask) : Bool :=
  (left.filter (relevant service task)).length == (right.filter (relevant service task)).length
    && (left.filter (relevant service task)).all fun profile =>
      (right.filter (relevant service task)).any profile.semanticallyEq

def generationRowsEqual (left right : List ServiceProfile) : Bool :=
  serviceRowsEqual left right .generationHttp none

structure HomogeneousMediaCohort where
  trustDomain : String
  service : ServiceClass
  task : Option SpeechToTextTask
deriving DecidableEq, Repr

def cohortMember (trustDomain : String) (row : ServiceProfile → Bool)
    (record : WorkerConfig) : Bool :=
  record.trustDomain == trustDomain && record.serviceProfiles.any row

def isGenerationRow (profile : ServiceProfile) : Bool :=
  profile.serviceClass == .generationHttp

def buildContentBlindGenerationCohorts (records : List WorkerConfig) : List String :=
  records.foldl
    (fun result record =>
      if result.contains record.trustDomain then result
      else
        match records.filter (cohortMember record.trustDomain isGenerationRow) with
        | [] => result
        | first :: members =>
            if first.defaultModelId.isSome && members.all (fun candidate =>
                candidate.defaultModelId == first.defaultModelId
                  && generationRowsEqual candidate.serviceProfiles first.serviceProfiles) then
              result ++ [record.trustDomain]
            else result)
    []

def ServiceProfile.speechToTextTask : ServiceProfile → Option SpeechToTextTask
  | .transcriptionHttp _ task _ _ => some task
  | _ => none

/-- One row of the loop of `build_content_blind_media_cohorts`. -/
def addMediaCohort (records : List WorkerConfig) (voiceOwner : Option Nat) (record : WorkerConfig)
    (result : List HomogeneousMediaCohort) (profile : ServiceProfile) :
    List HomogeneousMediaCohort :=
  let service := profile.serviceClass
  if service = .generationHttp ∨ service = .speechBatch then result
  else
    let task := profile.speechToTextTask
    let cohort : HomogeneousMediaCohort := { trustDomain := record.trustDomain, service, task }
    if result.contains cohort then result
    else
      let members := records.zipIdx.filter fun candidate =>
        cohortMember record.trustDomain (relevant service task) candidate.1
      match members with
      | [] => result
      | first :: _ =>
          let requiresVoiceOwner := service == .speechHttp
            && first.1.serviceProfiles.any fun row =>
              row.serviceClass == service && row.voiceNamePolicy == some .uploaded
          if requiresVoiceOwner
              && !voiceOwner.any (fun owner => members.all (·.2 == owner)) then
            result
          else if first.1.defaultModelId.isSome && members.all (fun candidate =>
              candidate.1.defaultModelId == first.1.defaultModelId
                && serviceRowsEqual candidate.1.serviceProfiles first.1.serviceProfiles
                  service task) then
            result ++ [cohort]
          else result

def buildContentBlindMediaCohorts (records : List WorkerConfig) (voiceOwner : Option Nat) :
    List HomogeneousMediaCohort :=
  records.foldl
    (fun result record =>
      record.serviceProfiles.foldl (addMediaCohort records voiceOwner record) result)
    []

/-- A cohort that the pool dispatches without looking at the request body. -/
inductive ContentBlind where
  | generation (trustDomain : String)
  | media (cohort : HomogeneousMediaCohort)
deriving DecidableEq, Repr

namespace ContentBlind

def trustDomain : ContentBlind → String
  | generation trustDomain => trustDomain
  | media cohort => cohort.trustDomain

def service : ContentBlind → ServiceClass
  | generation _ => .generationHttp
  | media cohort => cohort.service

def task : ContentBlind → Option SpeechToTextTask
  | generation _ => none
  | media cohort => cohort.task

def Built (pool : Pool) : ContentBlind → Prop
  | generation trustDomain => trustDomain ∈ buildContentBlindGenerationCohorts pool.records
  | media cohort => cohort ∈ buildContentBlindMediaCohorts pool.records pool.voiceOwner

def row : ContentBlind → ServiceProfile → Bool
  | generation _ => isGenerationRow
  | media cohort => relevant cohort.service cohort.task

def isMember (pool : Pool) (cohort : ContentBlind) (index : Nat) : Bool :=
  pool.records[index]?.any (cohortMember cohort.trustDomain cohort.row)

def dispatch (cohort : ContentBlind) (pool : Pool) (view : View pool.records.length) :
    Except DispatchError (Nat × List Nat) :=
  pool.dispatchMatching view true (cohort.isMember pool)

end ContentBlind

end Router
