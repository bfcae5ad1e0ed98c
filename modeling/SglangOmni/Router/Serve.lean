import SglangOmni.Router.Calls
import SglangOmni.Router.ContentBlind

/-! Every operation of the pool keeps its accounts, and its calls find at every point what they rely on. -/

namespace Router

open State

variable {cfg : PoolConfig} {s t : State} {id : Nat} {lease : Lease}

/-! ### Calls up to the selector -/

theorem PoolConfig.accepted (cfg : PoolConfig) : ∀ record ∈ cfg.pool.records, AcceptedWorker record :=
  Pool.records_of_build cfg.built ▸ accepted_of_validateWorkers cfg.valid

theorem sessionLimit_of_worker {requirement : RouteRequirement} {matching : ProfileMatches}
    (hmatching : Matching cfg.pool requirement matching) {worker : Nat}
    (hworker : matching.worker worker = true)
    (hsession : isSessionClass requirement.capacityClass = true) :
    (cfg.sessionLimit worker requirement.capacityClass).isSome = true := by
  rw [hmatching.worker_eq] at hworker
  obtain ⟨record, hrecord, hserves⟩ := (Option.any_eq_true _ _).mp hworker
  simp only [serves, Bool.and_eq_true, List.any_eq_true] at hserves
  obtain ⟨-, row, hrow, hmatch⟩ := hserves
  have hcapacity := (cfg.accepted record (List.mem_of_getElem? hrecord)).capacity row hrow
  rw [ServiceProfile.serviceClass_of_matches hmatch] at hcapacity
  unfold PoolConfig.sessionLimit
  rw [hrecord, Option.bind_some]
  unfold RouteRequirement.capacityClass at hsession ⊢
  cases hclass : requirement.profile.serviceClass <;> rw [hclass] at hcapacity hsession <;>
    simp only [ServiceClass.capacity, isSessionClass, Bool.false_eq_true] at hsession
  · cases hlimit : record.capacity.speechWebsocket with
    | none => exact absurd (by simp [WorkerCapacityConfig.forService, hlimit]) hcapacity
    | some limit => simp [ServiceClass.capacity, WorkerCapacityConfig.sessionLimit, hlimit]
  · cases hlimit : record.capacity.realtimeWebsocket with
    | none => exact absurd (by simp [WorkerCapacityConfig.forService, hlimit]) hcapacity
    | some limit => simp [ServiceClass.capacity, WorkerCapacityConfig.sessionLimit, hlimit]

theorem Outcome.failOther (hnear : Near s t id) {error : DispatchError} (h : error ≠ .internal) :
    Outcome cfg s id lease (t.fail id lease error) :=
  .fail t error hnear fun he => absurd he h

theorem uploadedVoiceOwner_ok (cfg : PoolConfig) (health : Nat → WorkerHealth)
    (requirement : ProfileRequirement) (matching : ProfileMatches) :
    (∃ owner, cfg.pool.uploadedVoiceOwner health requirement matching = .ok owner
      ∧ matching.worker owner = true)
    ∨ ∃ error, cfg.pool.uploadedVoiceOwner health requirement matching = .error error
      ∧ error ≠ .internal := by
  rcases uploadedVoiceOwner_cases cfg.pool health requirement matching with
    ⟨owner, -, hworker, -, hok⟩ | ⟨owner, -, -, -, herror⟩ | herror | herror
  · exact .inl ⟨owner, hok, hworker⟩
  · exact .inr ⟨_, herror, nofun⟩
  · exact .inr ⟨_, herror, nofun⟩
  · exact .inr ⟨_, herror, nofun⟩

theorem outcome_beginDispatch {admitted : CapacityClass} {requirement : RouteRequirement}
    (hcall : lease.call = some (.dispatch requirement))
    (hadmission : lease.admission.map (·.1) = some admitted) :
    Outcome cfg s id lease (s.beginDispatch cfg id lease admitted requirement) := by
  have hnear := Near.refl s id
  unfold State.beginDispatch
  split
  · next hne =>
    refine .fail s _ hnear fun _ => ?_
    rw [hcall, hadmission]
    exact fun he => hne (Option.some.inj he)
  split
  · next error herror =>
    exact .failOther hnear (by rw [matchingProfiles_error herror]; nofun)
  next matching _ =>
  split
  · rcases uploadedVoiceOwner_ok cfg s.health requirement.profile matching with
      ⟨owner, hok, -⟩ | ⟨error, herror, hne⟩
    · rw [hok]
      exact .next s _ hnear nofun nofun nofun
    · rw [herror]
      exact .failOther hnear hne
  split
  · next error herror =>
    split at herror
    · exact .failOther hnear (by rw [resolveDefault_error herror]; nofun)
    · cases herror
  · split
    · exact .failOther hnear nofun
    · exact .next s _ hnear nofun nofun nofun

theorem outcome_beginDispatchSession {admitted : CapacityClass} {requirement : RouteRequirement}
    (hcall : lease.call = some (.dispatchSession requirement))
    (hadmission : lease.admission.map (·.1) = some admitted) :
    Outcome cfg s id lease (s.beginDispatchSession cfg id lease admitted requirement) := by
  have hnear := Near.refl s id
  unfold State.beginDispatchSession
  split
  · next hne =>
    refine .fail s _ hnear fun _ => ?_
    rw [hcall, hadmission]
    rcases hne with hne | hsession
    · exact .inl fun he => hne (Option.some.inj he)
    · exact .inr hsession
  next hclass =>
  rw [not_or, not_not, Bool.not_eq_false] at hclass
  obtain ⟨rfl, hsession⟩ := hclass
  split
  · next error herror =>
    exact .failOther hnear (by rw [matchingProfiles_error herror]; nofun)
  next matching hmatches =>
  split
  · rcases uploadedVoiceOwner_ok cfg s.health requirement.profile matching with
      ⟨owner, hok, hworker⟩ | ⟨error, herror, hne⟩
    · rw [hok]
      refine .next s _ hnear (fun cls hcls => ?_) nofun nofun
      cases hcls
      exact sessionLimit_of_worker (matchingProfiles_matching hmatches) hworker hsession
    · rw [herror]
      exact .failOther hnear hne
  · exact .next s _ hnear rfl nofun nofun

theorem outcome_beginDispatchVoiceOwner (hcall : lease.call = some .voiceOwner) :
    Outcome cfg s id lease (s.beginDispatchVoiceOwner cfg id lease) := by
  have hnear := Near.refl s id
  unfold State.beginDispatchVoiceOwner
  split
  · refine .fail s _ hnear fun _ => ?_
    rw [hcall]
    trivial
  split
  · exact .failOther hnear nofun
  · exact .next s _ hnear nofun nofun nofun

theorem outcome_beginDispatchPinned {worker : Nat} :
    Outcome cfg s id lease (s.beginDispatchPinned id lease worker) := by
  have hnear := Near.refl s id
  unfold State.beginDispatchPinned
  split
  · exact .failOther hnear nofun
  · exact .next s _ hnear nofun nofun nofun

theorem outcome_beginCall {call : Call} {s' : State} (h : s.beginCall cfg id lease call = some s') :
    Outcome cfg s id { lease with call := some call } s' := by
  unfold State.beginCall at h
  simp only at h
  split at h
  · next hadmission =>
    cases h
    exact outcome_beginDispatch rfl (by rw [hadmission]; rfl)
  · next hadmission =>
    cases h
    exact outcome_beginDispatchSession rfl (by rw [hadmission]; rfl)
  · cases h
    exact .next s _ (.refl s id) nofun nofun nofun
  · cases h
    exact outcome_beginDispatchVoiceOwner rfl
  · split at h
    · cases h
      exact outcome_beginDispatchPinned
    · cases h
  · cases h

/-! ### Under the selector -/

theorem outcome_takeSelected (hk : Accounts cfg s) (hnear : Near s t id)
    (hsel : t.selector = some id) {session : Option CapacityClass} {eligible recency : List Nat}
    {worker : Nat} (heligible : Eligible cfg t session eligible) (hmem : worker ∈ eligible)
    (hperm : recency.Perm t.recency) (hleast : LeastLoaded cfg t worker eligible) :
    Outcome cfg s id lease (t.takeSelected id lease session eligible (some (worker, recency))) := by
  have hnear' : Near s { t with recency } id :=
    ⟨⟨hnear.counters.load, hnear.counters.global, hnear.counters.classes, hnear.counters.sessions,
      hnear.counters.leases, hnear.counters.underflowed⟩, hperm.trans hnear.recency,
      hnear.returned, hnear.choices, hnear.selector⟩
  refine .next { t with recency } _ hnear' ⟨hsel, hmem, hleast, ?_⟩ nofun nofun
  intro cls error he
  cases session with
  | none => cases he
  | some c =>
    cases he
    have hfree := heligible.free cls rfl worker hmem
    refine ⟨?_, fun _ => hfree⟩
    obtain ⟨free, hfree⟩ := hfree
    rw [← hk.sessionsSome, ← hnear.counters.sessions, hfree]
    rfl

theorem outcome_chooseWorker (hk : Kept cfg s) (hnear : Near s t id) (hsel : t.selector = some id)
    {session : Option CapacityClass} {eligible : List Nat} (hne : eligible ≠ [])
    (heligible : Eligible cfg t session eligible) :
    Outcome cfg s id lease (t.chooseWorker cfg id lease session eligible) := by
  unfold State.chooseWorker
  split
  · next hstrategy =>
    obtain ⟨index, hindex⟩ := List.exists_mem_of_ne_nil _ hne
    have hrecency : index ∈ t.recency :=
      (hnear.recency.trans hk.recency).mem_iff.mpr
        (List.mem_range.mpr (heligible.registered index hindex))
    obtain ⟨⟨worker, recency⟩, hselect⟩ :=
      select_of_mem (candidateSet eligible) hrecency
        (List.contains_iff_mem.mpr hindex)
    have hselected := selected_of_select hselect
    rw [hselect]
    refine outcome_takeSelected hk.accounts hnear hsel heligible
      (List.contains_iff_mem.mp hselected.candidate) hselected.perm fun hleast => ?_
    rw [hstrategy] at hleast
    cases hleast
  · refine .next t _ hnear ⟨hsel, hne, heligible, [], rfl, leastFound_nil, fun _ => nofun⟩ nofun nofun

theorem outcome_compared (hk : Kept cfg s) {session : Option CapacityClass} {eligible : List Nat}
    {found : Nat × List Nat} (hphase : PhaseOk cfg s id (.compare session eligible [] found)) :
    Outcome cfg s id lease (s.takeSelected id lease session eligible
      (select s.recency (candidateSet found.2))) := by
  obtain ⟨hsel, hne, heligible, seen, hseen, hfound, hload⟩ := hphase
  rw [List.append_nil] at hseen
  have hties : ∀ worker ∈ found.2, worker ∈ eligible := fun worker hworker => by
    rw [hseen]
    exact List.mem_map_of_mem (f := Prod.fst) (hfound.ties worker hworker)
  have hsome : seen ≠ [] := fun hnil => hne (by rw [hseen, hnil]; rfl)
  obtain ⟨index, hindex⟩ := List.exists_mem_of_ne_nil _ (hfound.some hsome)
  have hrecency : index ∈ s.recency := hk.recency.mem_iff.mpr
    (List.mem_range.mpr (heligible.registered index (hties index hindex)))
  obtain ⟨⟨worker, recency⟩, hselect⟩ :=
    select_of_mem (candidateSet found.2) hrecency (List.contains_iff_mem.mpr hindex)
  have hselected := selected_of_select hselect
  have hworker := List.contains_iff_mem.mp hselected.candidate
  rw [hselect]
  refine outcome_takeSelected hk.accounts (.refl s id) hsel heligible (hties worker hworker)
    hselected.perm fun _ hq other hother => ?_
  rw [hseen] at hother
  obtain ⟨observed, hobserved, rfl⟩ := List.mem_map.mp hother
  have hleast := hfound.least observed hobserved
  rw [hload hq observed hobserved] at hleast
  have hchosen : found.1 = s.load worker := hload hq _ (hfound.ties worker hworker)
  rw [← hchosen]
  exact hleast

theorem outcome_compareNext (hk : Kept cfg s) {session : Option CapacityClass}
    {eligible rest : List Nat} {index : Nat} {found : Nat × List Nat}
    (hphase : PhaseOk cfg s id (.compare session eligible (index :: rest) found)) :
    Outcome cfg s id lease (s.setPhase id lease
      (.compare session eligible rest (compareLoad found index (s.load index)))) := by
  obtain ⟨hsel, hne, heligible, seen, hseen, hfound, hload⟩ := hphase
  refine .next s _ (.refl s id) ⟨hsel, hne, heligible, seen ++ [(index, s.load index)], ?_,
    hfound.compareLoad (hk.accounts.load_le index), fun hq observed hobserved => ?_⟩ nofun nofun
  · rw [hseen, List.map_append, List.append_assoc]
    rfl
  · rcases List.mem_append.mp hobserved with hobserved | hobserved
    · exact hload hq observed hobserved
    · rw [List.mem_singleton.mp hobserved]

theorem outcome_endSearch (hk : Kept cfg s) {search : SessionSearch}
    (hphase : PhaseOk cfg s id (.sessionHealth search)) :
    Outcome cfg s id lease (s.endSearch cfg id lease search) := by
  obtain ⟨hsel, heligible⟩ := hphase
  have hnear := Near.refl s id
  unfold State.endSearch
  split
  · exact .failOther hnear nofun
  split
  · exact .failOther hnear nofun
  split
  · exact .failOther hnear nofun
  · next hsome =>
    exact outcome_chooseWorker hk hnear hsel (fun hnil => hsome (List.isEmpty_iff.mpr hnil)) heligible

theorem outcome_searchHealth {search : SessionSearch} {record : WorkerConfig}
    (hrecord : cfg.pool.records[search.next]? = some record)
    (hphase : PhaseOk cfg s id (.sessionHealth search)) :
    Outcome cfg s id lease (s.searchHealth id lease search record) := by
  have hnear := Near.refl s id
  have hlt : search.next < cfg.count := (List.getElem?_eq_some_iff.mp hrecord).1
  -- the search moves to the next record, or on to this record's permits
  have hskip : Outcome cfg s id lease
      (s.setPhase id lease (.sessionHealth { search with next := search.next + 1 })) :=
    .next s _ hnear hphase nofun nofun
  have hobserve : ∀ found : SessionSearch, found.cls = search.cls → found.next = search.next →
      found.eligible = search.eligible → Outcome cfg s id lease
        (if !isRoutable s.health found.next then
          s.setPhase id lease (.sessionHealth { found with next := found.next + 1 })
        else s.setPhase id lease (.sessionPermits { found with healthyFound := true })) := by
    intro found hcls hnext heligible
    obtain ⟨hsel, hold⟩ := hphase
    split
    · refine .next s _ hnear ⟨hsel, ?_⟩ nofun nofun
      simp only [hcls, heligible]
      exact hold
    · refine .next s _ hnear ⟨hsel, ?_, ?_⟩ nofun nofun
      · simp only [hnext]
        exact hlt
      · simp only [hcls, heligible]
        exact hold
  unfold State.searchHealth
  simp only
  split
  · exact hskip
  split
  · split
    · exact .failOther hnear nofun
    · next modelId _ _ =>
      exact hobserve { search with resolvedDefault := some modelId } rfl rfl rfl
    · split
      · exact hobserve search rfl rfl rfl
      · exact .failOther hnear nofun
  · exact hobserve search rfl rfl rfl

theorem outcome_searchPermits {search : SessionSearch}
    (hphase : PhaseOk cfg s id (.sessionPermits search)) :
    Outcome cfg s id lease (s.searchPermits id lease search) := by
  obtain ⟨hsel, hlt, heligible⟩ := hphase
  unfold State.searchPermits
  refine .next s _ (.refl s id) ⟨hsel, ?_⟩ nofun nofun
  simp only
  split
  · next hany =>
    obtain ⟨free, hfree, hpos⟩ := (Option.any_eq_true _ _).mp hany
    refine ⟨fun index hindex => ?_, fun cls hcls index hindex => ?_⟩
    · rcases List.mem_append.mp hindex with hindex | hindex
      · exact heligible.registered index hindex
      · rw [List.mem_singleton.mp hindex]
        exact hlt
    · cases hcls
      rcases List.mem_append.mp hindex with hindex | hindex
      · exact heligible.free _ rfl index hindex
      · rw [List.mem_singleton.mp hindex]
        cases free with
        | zero => cases hpos
        | succ free => exact ⟨free, hfree⟩
  · exact heligible

/-! ### Permits and leases taken -/

theorem Kept.grant (h : Kept cfg s) (hlease : s.leases.get? id = some lease)
    (hload : lease.load = none) (hsel : s.selector = some id) {worker : Nat} {eligible : List Nat}
    (hmem : worker ∈ eligible) (hleast : LeastLoaded cfg s worker eligible) :
    Kept cfg (s.grant id lease worker eligible) := by
  refine ⟨?_, h.recency, fun other lease' hother => ?_, fun r hr hinternal => ?_,
    fun choice hchoice => ?_⟩
  · let granted : Lease := { lease with load := some (worker, lease.weight), phase := .idle }
    have hadd : Accounts cfg ((s.incrementLoad worker lease.weight).setLease id granted) :=
      h.accounts.addLoad hlease hload worker rfl rfl rfl
    exact hadd.same ⟨rfl, rfl, rfl, rfl, rfl, rfl⟩
  · simp only [State.grant, State.unlock, State.setPhase, State.setLease, Lib.Dict.get?_set]
      at hother
    split at hother
    · cases hother
      exact ⟨trivial, fun hidle => by cases hidle⟩
    · next hne =>
      obtain ⟨hold, hfits⟩ := h.phases other lease' hother
      have hnot : s.selector ≠ some other := fun he => hne (Option.some.inj (he.symm.trans hsel))
      exact ⟨hold.mono ⟨fun he => absurd he hnot, fun he => absurd he hnot,
        fun he => absurd he hnot⟩, hfits⟩
  · simp only [State.grant, State.unlock, State.setPhase, State.setLease, State.log,
      State.incrementLoad, List.mem_append, List.mem_singleton] at hr
    rcases hr with hr | rfl
    · exact h.returned r hr hinternal
    · cases hinternal
  · simp only [State.grant, State.unlock, State.setPhase, State.setLease, State.log,
      State.incrementLoad, List.mem_append, List.mem_singleton] at hchoice
    rcases hchoice with hchoice | rfl
    · exact h.choices choice hchoice
    · exact ⟨hmem, hleast⟩

theorem Kept.acquireSession (h : Kept cfg s) (hlease : s.leases.get? id = some lease)
    (hload : lease.load = none) (hsession : lease.session = none) {cls : CapacityClass}
    {error : DispatchError} {worker : Nat} {eligible : List Nat}
    (hphase : PhaseOk cfg s id (.reserve (some (cls, error)) worker eligible)) :
    Kept cfg (s.acquireSession id lease cls error worker eligible) := by
  obtain ⟨hsel, hmem, hleast, hcapacity⟩ := hphase
  obtain ⟨hsome, hfree⟩ := hcapacity cls error rfl
  unfold State.acquireSession
  split
  · next hnone =>
    rw [← h.accounts.sessionsSome, hnone] at hsome
    cases hsome
  · next hzero =>
    refine h.outcome hlease ⟨rfl, rfl, rfl⟩ hload hsession (.failOther (.refl s id) fun he => ?_)
    obtain ⟨free, hfree⟩ := hfree he
    rw [hzero] at hfree
    cases hfree
  · next free hfree =>
    refine ⟨h.accounts.acquireSession hlease hsession hfree _, h.recency,
      fun other lease' hother => ?_, h.returned, h.choices⟩
    simp only [State.setPhase, State.setLease, Lib.Dict.get?_set] at hother
    split at hother
    · next he =>
      cases hother
      subst he
      exact ⟨⟨hsel, hmem, hleast⟩, hload⟩
    · next hne =>
      obtain ⟨hold, hfits⟩ := h.phases other lease' hother
      have hnot : s.selector ≠ some other := fun he => hne (Option.some.inj (he.symm.trans hsel))
      exact ⟨hold.mono ⟨fun he => absurd he hnot, fun he => absurd he hnot,
        fun he => absurd he hnot⟩, hfits⟩

/-! ### Every step -/

theorem Kept.advance (h : Kept cfg s) (hlease : s.leases.get? id = some lease) {s' : State}
    (hstep : s.advance cfg id lease = some s') : Kept cfg s' := by
  obtain ⟨hphase, hfits⟩ := h.phases id lease hlease
  have hsame : SameHoldings lease lease := ⟨rfl, rfl, rfl⟩
  have hnear := Near.refl s id
  unfold State.advance at hstep
  cases hp : lease.phase with
  | idle => simp [hp] at hstep
  | scan matched next eligible =>
    rw [hp] at hphase
    rw [Lease.Fits, hp] at hfits
    refine h.outcome hlease hsame hfits.1 hfits.2 ?_
    simp only [hp] at hstep
    split at hstep
    · next hlt =>
      cases hstep
      refine .next s _ hnear (fun index hindex => ?_) nofun nofun
      split at hindex
      · rcases List.mem_append.mp hindex with hindex | hindex
        · exact hphase index hindex
        · rw [List.mem_singleton.mp hindex]
          exact hlt
      · exact hphase index hindex
    split at hstep
    · cases hstep
      exact .failOther hnear nofun
    · next hsome =>
      cases hstep
      exact .next s _ hnear ⟨fun hnil => hsome (List.isEmpty_iff.mpr hnil), hphase⟩ nofun nofun
  | wait eligible =>
    rw [hp] at hphase
    rw [Lease.Fits, hp] at hfits
    refine h.outcome hlease hsame hfits.1 hfits.2 ?_
    simp only [hp] at hstep
    split at hstep
    · cases hstep
    · next hfree =>
      cases hstep
      have hlock := near_lock s id (Option.not_isSome_iff_eq_none.mp hfree)
      exact outcome_chooseWorker h hlock rfl hphase.1 ⟨hphase.2, nofun⟩
  | waitOwner worker session =>
    rw [hp] at hphase
    rw [Lease.Fits, hp] at hfits
    refine h.outcome hlease hsame hfits.1 hfits.2 ?_
    simp only [hp] at hstep
    split at hstep
    · cases hstep
    · next hfree =>
      cases hstep
      have hlock := near_lock s id (Option.not_isSome_iff_eq_none.mp hfree)
      refine .next _ _ hlock ⟨rfl, List.mem_singleton_self _, ?_, ?_⟩ nofun nofun
      · intro _ _ index hindex
        rw [List.mem_singleton.mp hindex]
      · intro cls error he
        cases session with
        | none => cases he
        | some c =>
          cases he
          exact ⟨hphase cls rfl, nofun⟩
  | waitSession search =>
    rw [hp] at hphase
    rw [Lease.Fits, hp] at hfits
    refine h.outcome hlease hsame hfits.1 hfits.2 ?_
    simp only [hp] at hstep
    split at hstep
    · cases hstep
    · next hfree =>
      cases hstep
      have hlock := near_lock s id (Option.not_isSome_iff_eq_none.mp hfree)
      have hnil : search.eligible = [] := hphase
      refine .next _ _ hlock ⟨rfl, ?_, ?_⟩ nofun nofun <;> rw [hnil] <;> nofun
  | sessionHealth search =>
    rw [hp] at hphase
    rw [Lease.Fits, hp] at hfits
    refine h.outcome hlease hsame hfits.1 hfits.2 ?_
    simp only [hp] at hstep
    split at hstep
    · cases hstep
      exact outcome_endSearch h hphase
    · next record hrecord =>
      cases hstep
      exact outcome_searchHealth hrecord hphase
  | sessionPermits search =>
    rw [hp] at hphase
    rw [Lease.Fits, hp] at hfits
    simp only [hp] at hstep
    cases hstep
    exact h.outcome hlease hsame hfits.1 hfits.2 (outcome_searchPermits hphase)
  | compare session eligible rest found =>
    rw [hp] at hphase
    rw [Lease.Fits, hp] at hfits
    refine h.outcome hlease hsame hfits.1 hfits.2 ?_
    cases rest with
    | nil =>
      simp only [hp] at hstep
      cases hstep
      exact outcome_compared h hphase
    | cons index rest =>
      simp only [hp] at hstep
      cases hstep
      exact outcome_compareNext h hphase
  | reserve session worker eligible =>
    rw [hp] at hphase
    rw [Lease.Fits, hp] at hfits
    cases session with
    | none =>
      simp only [hp] at hstep
      cases hstep
      obtain ⟨hsel, hmem, hleast, -⟩ := hphase
      exact h.grant hlease hfits.1 hsel hmem hleast
    | some session =>
      simp only [hp] at hstep
      cases hstep
      exact h.acquireSession hlease hfits.1 hfits.2 hphase
  | granted worker eligible =>
    rw [hp] at hphase
    rw [Lease.Fits, hp] at hfits
    simp only [hp] at hstep
    cases hstep
    obtain ⟨hsel, hmem, hleast⟩ := hphase
    exact h.grant hlease hfits hsel hmem hleast

theorem Kept.tryAdmitEnvelope (h : Kept cfg s) {s' : State}
    (hstep : s.tryAdmitEnvelope id = some s') : Kept cfg s' := by
  unfold State.tryAdmitEnvelope at hstep
  split at hstep
  · cases hstep
  next hnew =>
  split at hstep
  · cases hstep
    exact h
  next hfree =>
  cases hstep
  have hnone : s.leases.get? id = none := by simpa using hnew
  refine ⟨h.accounts.admitEnvelope hnone fun hzero => hfree (.inr hzero), h.recency,
    fun other lease' hother => ?_, h.returned, h.choices⟩
  simp only [State.setLease, Lib.Dict.get?_set] at hother
  split at hother
  · cases hother
    exact ⟨trivial, fun _ => rfl⟩
  · obtain ⟨hold, hfits⟩ := h.phases other lease' hother
    exact ⟨hold.mono ⟨fun he => he, fun _ _ _ hf => hf, fun _ hq => ⟨hq, rfl⟩⟩, hfits⟩

theorem Kept.tryAdmitClass (h : Kept cfg s) (hlease : s.leases.get? id = some lease)
    (hidle : lease.phase = .idle) (hadmission : lease.admission = none) (hload : lease.load = none)
    (cls : CapacityClass) (credits : UInt32) : Kept cfg (s.tryAdmitClass id lease cls credits) := by
  unfold State.tryAdmitClass
  split
  · exact h.dropLease hlease
  next free hfree =>
  split
  · exact h.dropLease hlease
  next hle =>
  refine ⟨h.accounts.admitClass hlease hadmission hload hfree (Nat.not_lt.mp hle), h.recency,
    fun other lease' hother => ?_, h.returned, h.choices⟩
  simp only [State.setLease, Lib.Dict.get?_set] at hother
  split at hother
  · cases hother
    have hfits := (h.phases id lease hlease).2
    rw [Lease.Fits, hidle] at hfits
    refine ⟨by rw [hidle]; trivial, ?_⟩
    rw [Lease.Fits, hidle]
    exact hfits
  · obtain ⟨hold, hfits⟩ := h.phases other lease' hother
    exact ⟨hold.mono ⟨fun he => he, fun _ _ _ hf => hf, fun _ hq => ⟨hq, rfl⟩⟩, hfits⟩

theorem held_eq_some {s : State} {id : Nat} {lease : Lease} (h : s.held id = some lease) :
    s.leases.get? id = some lease ∧ lease.phase = .idle := by
  simp only [State.held, Option.bind_eq_bind, Option.bind_eq_some_iff] at h
  obtain ⟨lease', hlease, h⟩ := h
  split at h
  · next hidle =>
    cases h
    exact ⟨hlease, hidle⟩
  · cases h

theorem kept_step (h : Kept cfg s) {a : Action} {s' : State} (hstep : s.step cfg a = some s') :
    Kept cfg s' := by
  cases a with
  | admitEnvelope id => exact h.tryAdmitEnvelope hstep
  | admitClass id cls credits =>
    simp only [State.step, Option.bind_eq_bind, Option.bind_eq_some_iff] at hstep
    obtain ⟨lease, hheld, hstep⟩ := hstep
    obtain ⟨hlease, hidle⟩ := held_eq_some hheld
    split at hstep
    · cases hstep
    · next hnone =>
      cases hstep
      simp only [Bool.or_eq_true, not_or, Option.not_isSome_iff_eq_none] at hnone
      exact h.tryAdmitClass hlease hidle hnone.1 hnone.2 cls credits
  | call id call =>
    simp only [State.step, Option.bind_eq_bind, Option.bind_eq_some_iff] at hstep
    obtain ⟨lease, hheld, hstep⟩ := hstep
    obtain ⟨hlease, hidle⟩ := held_eq_some hheld
    split at hstep
    · cases hstep
    · next hnone =>
      have hload := Option.not_isSome_iff_eq_none.mp hnone
      have hfits := (h.phases id lease hlease).2
      rw [Lease.Fits, hidle] at hfits
      have hsame : SameHoldings lease { lease with call := some call } := ⟨rfl, rfl, rfl⟩
      exact h.outcome hlease hsame hload (hfits hload) (outcome_beginCall hstep)
  | advance id =>
    simp only [State.step, Option.bind_eq_bind, Option.bind_eq_some_iff] at hstep
    obtain ⟨lease, hlease, hstep⟩ := hstep
    exact h.advance hlease hstep
  | drop id =>
    simp only [State.step, Option.bind_eq_bind, Option.bind_eq_some_iff, Option.pure_def,
      Option.some.injEq] at hstep
    obtain ⟨lease, hheld, rfl⟩ := hstep
    exact h.dropLease (held_eq_some hheld).1
  | setHealth worker health =>
    cases hstep
    exact ⟨h.accounts.same ⟨rfl, rfl, rfl, rfl, rfl, rfl⟩, h.recency, fun other lease hlease =>
      ⟨(h.phases other lease hlease).1.mono
        ⟨fun he => he, fun _ _ _ hf => hf, fun _ hq => ⟨hq, rfl⟩⟩, (h.phases other lease hlease).2⟩,
      h.returned, h.choices⟩
  | drain =>
    cases hstep
    exact ⟨h.accounts.same ⟨rfl, rfl, rfl, rfl, rfl, rfl⟩, h.recency, fun other lease hlease =>
      ⟨(h.phases other lease hlease).1.mono
        ⟨fun he => he, fun _ _ _ hf => hf, fun _ hq => ⟨hq, rfl⟩⟩, (h.phases other lease hlease).2⟩,
      h.returned, h.choices⟩

theorem kept_initial (cfg : PoolConfig) : Kept cfg (State.initial cfg) where
  accounts := accounts_initial cfg
  recency := List.Perm.refl _
  phases _ _ h := by simp [State.initial] at h
  returned _ h := by simp [State.initial] at h
  choices _ h := by simp [State.initial] at h

theorem kept_of_reaches (h : (router cfg).Reaches Lib.Machine.anyAction s) : Kept cfg s :=
  h.invariant (kept_initial cfg) fun _ _ _ hs _ hstep => kept_step hs hstep

/-! ### What callers see -/

def State.liveSessions (s : State) (worker : Nat) (cls : CapacityClass) : Nat :=
  s.leases.entries.countP fun entry => entry.2.session = some (worker, cls)

/-- The promises of the worker pool: exact loads that never underflow, permits that add up to the limits,
no session beyond a worker's limit, no `Internal` from a dispatch whose admission fits, and the least
load for `leastRequests`. -/
structure PoolPromises (cfg : PoolConfig) (s : State) : Prop where
  load : ∀ worker, (s.load worker : Int) = s.leases.total (Lease.loadOn worker)
  noUnderflow : s.underflowed = false
  global : s.global + s.leases.size = cfg.globalLimit.toNat
  classes : ∀ cls limit, cfg.classLimit cls = some limit →
    ∃ free, s.classes cls = some free
      ∧ (free : Int) + s.leases.total (Lease.classPermits cls) = limit.toNat
  sessions : ∀ worker cls limit, cfg.sessionLimit worker cls = some limit →
    ∃ free, s.sessions worker cls = some free ∧ free + s.liveSessions worker cls = limit.toNat
      ∧ s.liveSessions worker cls ≤ limit.toNat
  internal : ∀ r ∈ s.returned, r.result = .error .internal → InternalAllowed r.call r.admitted
  least : cfg.pool.strategy = .leastRequests → ∀ choice ∈ s.choices, choice.quiet = true →
    choice.worker ∈ choice.eligible
      ∧ ∀ index ∈ choice.eligible, choice.load choice.worker ≤ choice.load index

theorem total_sessionPermits (leases : Lib.Dict Nat Lease) (worker : Nat) (cls : CapacityClass) :
    leases.total (Lease.sessionPermits worker cls)
      = (leases.entries.countP fun entry => entry.2.session = some (worker, cls) : Nat) := by
  rw [Lib.Dict.countP_eq_total (fun lease : Lease => decide (lease.session = some (worker, cls)))]
  unfold Lease.sessionPermits
  simp only [decide_eq_true_eq]

/-- Every interleaving of admissions, dispatches, drops, health changes and a drain keeps the promises of
the pool. -/
theorem pool_kept (cfg : PoolConfig) {s : State}
    (h : (router cfg).Reaches Lib.Machine.anyAction s) : PoolPromises cfg s := by
  have hk := kept_of_reaches h
  refine ⟨hk.accounts.load, hk.accounts.noUnderflow, ?_, fun cls limit hlimit => ?_,
    fun worker cls limit hlimit => ?_, hk.returned, fun hstrategy choice hchoice hquiet => ?_⟩
  · have hcount := Lib.Dict.countP_eq_total (fun _ : Lease => true) s.leases
    have hglobal := hk.accounts.global
    simp only [List.countP_true, if_true] at hcount
    unfold Lib.Dict.size
    omega
  · have hsome := hk.accounts.classesSome cls
    have htotal := hk.accounts.classes cls
    rw [hlimit] at hsome htotal
    obtain ⟨free, hfree⟩ := Option.isSome_iff_exists.mp hsome
    rw [hfree] at htotal
    exact ⟨free, hfree, htotal⟩
  · have hsome := hk.accounts.sessionsSome worker cls
    have htotal := hk.accounts.sessions worker cls
    rw [hlimit] at hsome htotal
    obtain ⟨free, hfree⟩ := Option.isSome_iff_exists.mp hsome
    rw [hfree, total_sessionPermits] at htotal
    simp only [Option.getD_some, Option.map_some] at htotal
    unfold State.liveSessions
    exact ⟨free, hfree, by omega, by omega⟩
  · obtain ⟨hmem, hleast⟩ := hk.choices choice hchoice
    exact ⟨hmem, hleast hstrategy hquiet⟩

/-- Two websocket workers with one session each, one of which also serves chat. -/
def exampleWorkers : List WorkerConfig :=
  [{ workerId := "a", baseUrl := "http://127.0.0.1:8000/", trustDomain := "local",
     defaultModelId := none, capacity := { realtimeWebsocket := some 1 },
     serviceProfiles := [.realtimeWebsocket,
       .generationHttp ["omni"] [.string] [] [.text] [.text] [] [.nonStreaming]] },
   { workerId := "b", baseUrl := "http://127.0.0.1:8001/", trustDomain := "local",
     defaultModelId := none, capacity := { realtimeWebsocket := some 1 },
     serviceProfiles := [.realtimeWebsocket] }]

def exampleConfig : PoolConfig where
  parse := exampleParse
  workers := exampleWorkers
  voiceOwnerWorkerId := none
  strategy := .leastRequests
  globalLimit := 4
  classLimit _ := some 3
  pool := { records := exampleWorkers, voiceOwner := none, strategy := .leastRequests }
  valid := by decide +kernel
  built := by decide +kernel

def realtimeRequirement : RouteRequirement where
  profile := .realtimeWebsocket none
  trustDomain := "local"

def chatRequirement : RouteRequirement where
  profile := .generationHttp (.explicit "omni") [.string] [] [.text] [.text] none .nonStreaming
  trustDomain := "local"

/-- Two sessions take both workers, the first is dropped while the third is admitted, and the fourth finds
no session left. -/
def sessionRun : List Action :=
  let session (id advances : Nat) : List Action :=
    [.admitEnvelope id, .admitClass id .realtimeWebsocket 1,
      .call id (.dispatchSession realtimeRequirement)] ++ List.replicate advances (.advance id)
  [.setHealth 0 .healthy, .setHealth 1 .healthy] ++ session 0 11 ++ session 1 10 ++ [.drop 0]
    ++ session 2 10 ++ session 3 6

theorem pool_kept_sessionRun :
    ∃ s, (router exampleConfig).Reaches Lib.Machine.anyAction s ∧ PoolPromises exampleConfig s
      ∧ s.returned.map (·.result) = [.ok 0, .ok 1, .ok 0, .error .overloaded] ∧ s.load 0 = 1 := by
  have hrun : ((router exampleConfig).exec (State.initial exampleConfig) sessionRun).any (fun s =>
      decide (s.returned.map (·.result) = [.ok 0, .ok 1, .ok 0, .error .overloaded]
        ∧ s.load 0 = 1)) = true := by
    decide +kernel
  obtain ⟨s, hs, hend⟩ := (Option.any_eq_true _ _).mp hrun
  have hreaches : (router exampleConfig).Reaches Lib.Machine.anyAction s :=
    Lib.Machine.path_of_exec hs
  exact ⟨s, hreaches, pool_kept exampleConfig hreaches, of_decide_eq_true hend⟩

/-- A session dispatch refuses an admission of an HTTP class, though it is the requirement's. -/
theorem dispatchSession_internal_for_http :
    ∃ s, (router exampleConfig).Reaches Lib.Machine.anyAction s
      ∧ s.returned = [{ call := some (.dispatchSession chatRequirement),
                        admitted := some chatRequirement.capacityClass,
                        result := .error .internal }] := by
  have hrun : ((router exampleConfig).exec (State.initial exampleConfig)
      [.admitEnvelope 0, .admitClass 0 .generationHttp 1,
        .call 0 (.dispatchSession chatRequirement)]).any (fun s =>
      decide (s.returned = [{ call := some (.dispatchSession chatRequirement),
                              admitted := some chatRequirement.capacityClass,
                              result := .error .internal }])) = true := by
    decide +kernel
  obtain ⟨s, hs, hend⟩ := (Option.any_eq_true _ _).mp hrun
  exact ⟨s, Lib.Machine.path_of_exec hs, of_decide_eq_true hend⟩

/-! ### The selector -/

def Phase.isLocked : Phase → Bool
  | .sessionHealth _ | .sessionPermits _ | .compare .. | .reserve .. | .granted .. => true
  | _ => false

theorem selector_of_isLocked {cfg : PoolConfig} {s : State} {id : Nat} {phase : Phase}
    (h : PhaseOk cfg s id phase) (hlocked : phase.isLocked = true) : s.selector = some id := by
  cases phase with
  | sessionHealth | sessionPermits | compare | reserve | granted => exact h.1
  | idle | scan | wait | waitOwner | waitSession => cases hlocked

/-- In every run one call at a time is past the lock; what it found there still holds when it takes its worker: the
least load, if no lease was dropped meanwhile, and for a session a free permit. -/
theorem selector_guards {cfg : PoolConfig} {s : State} (h : (router cfg).Reaches Lib.Machine.anyAction s)
    {id : Nat} {lease : Lease} (hlease : s.leases.get? id = some lease) :
    (∀ other lease', s.leases.get? other = some lease' → lease.phase.isLocked = true →
      lease'.phase.isLocked = true → other = id) ∧
    (∀ session eligible rest found, lease.phase = .compare session eligible rest found →
      ∀ cls, session = some cls → ∀ index ∈ eligible, FreeSession s index cls) ∧
    ∀ session worker eligible, lease.phase = .reserve session worker eligible → worker ∈ eligible ∧
      LeastLoaded cfg s worker eligible ∧
      ∀ cls, session = some (cls, .internal) → FreeSession s worker cls := by
  have hkept := kept_of_reaches h
  have hphase := (hkept.phases id lease hlease).1
  refine ⟨fun other lease' hother hlocked hlocked' => ?_, ?_, ?_⟩
  · have hid := selector_of_isLocked hphase hlocked
    rw [selector_of_isLocked (hkept.phases other lease' hother).1 hlocked'] at hid
    exact Option.some.inj hid
  · intro session eligible rest found heq
    rw [heq] at hphase
    exact hphase.2.2.1.free
  · intro session worker eligible heq
    rw [heq] at hphase
    exact ⟨hphase.2.1, hphase.2.2.1, fun cls hcls => (hphase.2.2.2 cls _ hcls).2 rfl⟩

def Phase.reserved : Phase → Option (Option (CapacityClass × DispatchError) × Nat)
  | .reserve session worker _ => some (session, worker)
  | _ => none

/-- The first session, about to take its worker. -/
theorem selector_guards_first_session : ∃ s lease,
    (router exampleConfig).exec (State.initial exampleConfig) (sessionRun.take 14) = some s ∧
    s.leases.get? 0 = some lease ∧ lease.phase.isLocked = true ∧ FreeSession s 0 .realtimeWebsocket := by
  have hrun : ((router exampleConfig).exec (State.initial exampleConfig) (sessionRun.take 14)).bind
      (fun s => (s.leases.get? 0).bind fun lease => lease.phase.reserved) =
        some (some (.realtimeWebsocket, .internal), 0) := by decide +kernel
  obtain ⟨s, hs, hrun⟩ := Option.bind_eq_some_iff.mp hrun
  obtain ⟨lease, hlease, hphase⟩ := Option.bind_eq_some_iff.mp hrun
  have hguards := selector_guards (Lib.Machine.path_of_exec hs) hlease
  cases heq : lease.phase with
  | reserve session worker eligible =>
    rw [heq] at hphase
    cases hphase
    exact ⟨s, lease, hs, hlease, by rw [heq]; rfl, (hguards.2.2 _ _ eligible heq).2.2 _ rfl⟩
  | _ =>
    rw [heq] at hphase
    cases hphase

end Router
