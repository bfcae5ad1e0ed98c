import SglangOmni.Router.Pool

/-! A content-blind cohort is uniform: its members have the same default model and the same rows for the
cohort's route, so a requirement of that route matches all of them or none, and the dispatch that reads
the body selects among the same workers as the one that does not. -/

namespace Router

/-! ### What a requirement matches -/

theorem profileMatch_foldl_fst (requirement : ProfileRequirement) (workerDefault : Option String)
    (rows : List ServiceProfile) (result : Bool × Nat) :
    (rows.foldl
      (fun result profile =>
        if !profile.matches requirement workerDefault then result
        else (true, addVoicePolicy requirement result.2 profile)) result).1
      = (result.1 || rows.any fun row => row.matches requirement workerDefault) := by
  induction rows generalizing result with
  | nil => simp
  | cons row rows ih =>
    rw [List.foldl_cons, ih]
    cases hrow : row.matches requirement workerDefault <;> simp [hrow]

theorem testBit_addVoicePolicy {requirement : ProfileRequirement} {policies : Nat}
    {profile : ServiceProfile}
    (h : (addVoicePolicy requirement policies profile).testBit 1 = true) :
    policies.testBit 1 = true
      ∨ (requirement.hasNamedVoice = true ∧ profile.voiceNamePolicy = some .uploaded) := by
  unfold addVoicePolicy at h
  split at h
  · next hnamed =>
    split at h
    · next policy hpolicy =>
      rw [Nat.testBit_or, Bool.or_eq_true] at h
      rcases h with h | h
      · exact .inl h
      · cases policy with
        | preset => exact absurd h (by decide)
        | uploaded => exact .inr ⟨hnamed, hpolicy⟩
    · exact .inl h
  · exact .inl h

theorem profileMatch_foldl_snd {requirement : ProfileRequirement} {workerDefault : Option String}
    {rows : List ServiceProfile} {result : Bool × Nat}
    (h : (rows.foldl
      (fun result profile =>
        if !profile.matches requirement workerDefault then result
        else (true, addVoicePolicy requirement result.2 profile)) result).2.testBit 1 = true) :
    result.2.testBit 1 = true
      ∨ (requirement.hasNamedVoice = true ∧ ∃ row ∈ rows,
          row.matches requirement workerDefault = true ∧ row.voiceNamePolicy = some .uploaded) := by
  induction rows generalizing result with
  | nil => exact .inl h
  | cons row rows ih =>
    rw [List.foldl_cons] at h
    rcases ih h with h | ⟨hnamed, other, hother, hmatch⟩
    · cases hrow : row.matches requirement workerDefault with
      | false => exact .inl (by simpa [hrow] using h)
      | true =>
        rcases testBit_addVoicePolicy (by simpa [hrow] using h) with h | ⟨hnamed, hpolicy⟩
        · exact .inl h
        · exact .inr ⟨hnamed, row, List.mem_cons_self, hrow, hpolicy⟩
    · exact .inr ⟨hnamed, other, List.mem_cons_of_mem _ hother, hmatch⟩

theorem Pool.records_of_build {workers : List WorkerConfig} {voiceOwnerWorkerId : Option String}
    {strategy : RoutingStrategy} {pool : Pool}
    (h : Pool.build workers voiceOwnerWorkerId strategy = some pool) : pool.records = workers := by
  unfold Pool.build at h
  split at h
  · cases h
    rfl
  · simp only [Option.bind_eq_bind, Option.bind_eq_some_iff, Option.pure_def,
      Option.some.injEq] at h
    obtain ⟨owner, -, rfl⟩ := h
    rfl

def serves (requirement : RouteRequirement) (record : WorkerConfig) : Bool :=
  record.trustDomain == requirement.trustDomain
    && record.serviceProfiles.any fun row => row.matches requirement.profile record.defaultModelId

theorem recordMatch_fst (requirement : RouteRequirement) (record : WorkerConfig) :
    (Pool.recordMatch requirement record).1 = serves requirement record := by
  unfold Pool.recordMatch serves
  by_cases htrust : record.trustDomain = requirement.trustDomain
  · rw [if_neg (by simp [htrust]), profileMatch, profileMatch_foldl_fst]
    simp [htrust]
  · simp [htrust]

theorem recordMatch_uploaded {requirement : RouteRequirement} {record : WorkerConfig}
    (h : (Pool.recordMatch requirement record).2.testBit 1 = true) :
    requirement.profile.hasNamedVoice = true ∧ record.trustDomain = requirement.trustDomain
      ∧ ∃ row ∈ record.serviceProfiles,
          row.matches requirement.profile record.defaultModelId = true
            ∧ row.voiceNamePolicy = some .uploaded := by
  unfold Pool.recordMatch at h
  by_cases htrust : record.trustDomain = requirement.trustDomain
  · have hfold := h
    simp only [htrust, bne_self_eq_false, Bool.false_eq_true, if_false] at hfold
    rcases profileMatch_foldl_snd hfold with h | ⟨hnamed, hrow⟩
    · simp at h
    · exact ⟨hnamed, htrust, hrow⟩
  · simp [htrust] at h

theorem foldl_or_testBit {found : List (Bool × Nat)} {policies : Nat}
    (h : (found.foldl (fun policies m => policies ||| m.2) policies).testBit 1 = true) :
    policies.testBit 1 = true ∨ ∃ m ∈ found, m.2.testBit 1 = true := by
  induction found generalizing policies with
  | nil => exact .inl h
  | cons m found ih =>
    rw [List.foldl_cons] at h
    rcases ih h with h | ⟨m', hm', hbit⟩
    · rw [Nat.testBit_or, Bool.or_eq_true] at h
      rcases h with h | h
      · exact .inl h
      · exact .inr ⟨m, List.mem_cons_self, h⟩
    · exact .inr ⟨m', List.mem_cons_of_mem _ hm', hbit⟩

/-- What `matchingProfiles` finds: the workers that serve the requirement, and an uploaded voice only
where a matching row treats the requirement's voice as uploaded. -/
structure Matching (pool : Pool) (requirement : RouteRequirement)
    (matching : ProfileMatches) : Prop where
  workers : matching.workers = pool.records.map (serves requirement)
  any : matching.any = matching.workers.contains true
  uploaded : matching.voicePolicy = some .uploaded →
    requirement.profile.hasNamedVoice = true ∧ ∃ record ∈ pool.records,
      record.trustDomain = requirement.trustDomain ∧ ∃ row ∈ record.serviceProfiles,
        row.matches requirement.profile record.defaultModelId = true
          ∧ row.voiceNamePolicy = some .uploaded

theorem matchingProfiles_matching {pool : Pool} {requirement : RouteRequirement}
    {matching : ProfileMatches} (h : pool.matchingProfiles requirement = .ok matching) :
    Matching pool requirement matching := by
  unfold Pool.matchingProfiles at h
  simp only [List.map_map] at h
  have hworkers : pool.records.map (Prod.fst ∘ Pool.recordMatch requirement)
      = pool.records.map (serves requirement) :=
    List.map_congr_left fun record _ => recordMatch_fst requirement record
  split at h
  · cases h
    exact ⟨hworkers, rfl, nofun⟩
  split at h
  · cases h
    exact ⟨hworkers, rfl, nofun⟩
  split at h
  · next hbits =>
    cases h
    refine ⟨hworkers, rfl, fun _ => ?_⟩
    have hbit : ((pool.records.map (Pool.recordMatch requirement)).foldl
        (fun policies (m : Bool × Nat) => policies ||| m.2) 0).testBit 1 = true := by
      rw [hbits]
      decide
    rcases foldl_or_testBit hbit with h | ⟨m, hm, hbit⟩
    · simp at h
    · obtain ⟨record, hrecord, rfl⟩ := List.mem_map.mp hm
      obtain ⟨hnamed, htrust, hrow⟩ := recordMatch_uploaded hbit
      exact ⟨hnamed, record, hrecord, htrust, hrow⟩
  · cases h

theorem Matching.worker_eq {pool : Pool} {requirement : RouteRequirement}
    {matching : ProfileMatches} (h : Matching pool requirement matching) (index : Nat) :
    matching.worker index = pool.records[index]?.any (serves requirement) := by
  unfold ProfileMatches.worker
  rw [h.workers, List.getD_eq_getElem?_getD, List.getElem?_map]
  cases pool.records[index]? <;> rfl

theorem Matching.any_iff {pool : Pool} {requirement : RouteRequirement}
    {matching : ProfileMatches} (h : Matching pool requirement matching) :
    matching.any = true ↔ ∃ record ∈ pool.records, serves requirement record = true := by
  rw [h.any, h.workers, List.contains_iff_mem, List.mem_map]

/-! ### Errors before a selection -/

theorem matchingProfiles_error {pool : Pool} {requirement : RouteRequirement} {e : DispatchError}
    (h : pool.matchingProfiles requirement = .error e) : e = .ambiguousModel := by
  unfold Pool.matchingProfiles at h
  simp only at h
  split at h
  · cases h
  split at h
  · cases h
  split at h
  · cases h
  · cases h
    rfl

theorem resolveDefault_error {matching : ProfileMatches} {resolved : Option String}
    {records : List (WorkerConfig × Nat)} {e : DispatchError}
    (h : resolveDefault matching resolved records = .error e) : e = .ambiguousModel := by
  induction records generalizing resolved with
  | nil => cases h
  | cons record records ih =>
    unfold resolveDefault at h
    split at h
    · exact ih h
    split at h
    · cases h
      rfl
    · exact ih h
    split at h
    · exact ih h
    · cases h
      rfl

theorem uploadedVoiceOwner_cases (pool : Pool) (health : Nat → WorkerHealth)
    (requirement : ProfileRequirement) (matching : ProfileMatches) :
    (∃ owner, pool.voiceOwner = some owner ∧ matching.worker owner = true
      ∧ isRoutable health owner = true
      ∧ pool.uploadedVoiceOwner health requirement matching = .ok owner)
    ∨ (∃ owner, pool.voiceOwner = some owner ∧ matching.worker owner = true
      ∧ isRoutable health owner = false
      ∧ pool.uploadedVoiceOwner health requirement matching = .error .unavailable)
    ∨ pool.uploadedVoiceOwner health requirement matching = .error .noEligibleProfile
    ∨ pool.uploadedVoiceOwner health requirement matching = .error .ambiguousModel := by
  unfold Pool.uploadedVoiceOwner
  cases howner : pool.voiceOwner with
  | none => exact .inr (.inr (.inl rfl))
  | some owner =>
    simp only
    by_cases hmatch : matching.worker owner = true
    · rw [if_neg (by simp [hmatch])]
      split
      · exact .inr (.inr (.inr rfl))
      · cases hroutable : isRoutable health owner with
        | false => exact .inr (.inl ⟨owner, rfl, hmatch, hroutable, rfl⟩)
        | true => exact .inl ⟨owner, rfl, hmatch, hroutable, rfl⟩
    · rw [if_pos (by simp [hmatch])]
      exact .inr (.inr (.inl rfl))

/-! ### Uniform cohorts -/

theorem relevant_of_matches {profile : ServiceProfile} {requirement : ProfileRequirement}
    {workerDefault : Option String}
    (h : profile.matches requirement workerDefault = true) :
    relevant requirement.serviceClass requirement.speechToTextTask profile = true := by
  cases profile with
  | transcriptionHttp =>
    cases requirement with
    | transcriptionHttp =>
      simp only [ServiceProfile.matches, Bool.and_eq_true] at h
      simpa [relevant, ServiceProfile.serviceClass, ProfileRequirement.serviceClass,
        ProfileRequirement.speechToTextTask] using h.1.1.2
    | _ => cases h
  | _ => cases requirement <;> first | rfl | cases h

/-- The rows of a route that two workers share, read in both directions. -/
structure SharedRows (service : ServiceClass) (task : Option SpeechToTextTask)
    (left right : List ServiceProfile) : Prop where
  forth : ∀ row ∈ left, relevant service task row = true → ∃ other ∈ right, SameRow row other
  back : ∀ row ∈ right, relevant service task row = true → ∃ other ∈ left, SameRow row other

theorem sharedRows_of_serviceRowsEqual {left right : List ServiceProfile} {service : ServiceClass}
    {task : Option SpeechToTextTask} (hl : DistinctRows left)
    (h : serviceRowsEqual left right service task = true) : SharedRows service task left right := by
  simp only [serviceRowsEqual, Bool.and_eq_true, beq_iff_eq, List.all_eq_true, List.any_eq_true]
    at h
  obtain ⟨hlen, hcovers⟩ := h
  have hleft : ∀ row ∈ left.filter (relevant service task), row.Distinct := fun row hrow =>
    hl.distinct row (List.mem_of_mem_filter hrow)
  have hforth : ∀ row ∈ left.filter (relevant service task),
      ∃ other ∈ right.filter (relevant service task), SameRow row other := by
    intro row hrow
    obtain ⟨other, hother, heq⟩ := hcovers row hrow
    exact ⟨other, hother, (ServiceProfile.semanticallyEq_iff (hleft row hrow)).mp heq⟩
  have hdiff : (left.filter (relevant service task)).Pairwise
      fun a b => ∀ other, SameRow a other → ¬ SameRow b other := by
    refine (hl.different.filter _).imp_of_mem fun {a b} _ hb hab other ha hb' => ?_
    have hsame := (ServiceProfile.semanticallyEq_iff (hleft b hb)).mpr (hb'.trans ha.symm)
    rw [hab] at hsame
    cases hsame
  have hback := Lib.covered_of_covers hdiff hlen hforth
  refine ⟨fun row hrow hrel => ?_, fun row hrow hrel => ?_⟩
  · obtain ⟨other, hother, hsame⟩ := hforth row (List.mem_filter.mpr ⟨hrow, hrel⟩)
    exact ⟨other, List.mem_of_mem_filter hother, hsame⟩
  · obtain ⟨other, hother, hsame⟩ := hback row (List.mem_filter.mpr ⟨hrow, hrel⟩)
    exact ⟨other, List.mem_of_mem_filter hother, hsame.symm⟩

end Router
