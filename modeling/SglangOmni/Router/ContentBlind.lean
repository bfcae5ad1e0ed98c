import SglangOmni.Router.Cohort
import SglangOmni.Router.Select

/-! The content-blind dispatch of a cohort agrees with the dispatch that classifies the request body. -/

namespace Router

theorem ContentBlind.row_eq (cohort : ContentBlind) :
    cohort.row = relevant cohort.service cohort.task := by
  cases cohort with
  | media => rfl
  | generation =>
    funext profile
    cases profile <;> rfl

/-- What the startup comparison establishes of a cohort, with `first` as its first member. -/
structure UniformCohort (pool : Pool) (cohort : ContentBlind) (first : WorkerConfig) : Prop where
  defaults : ∀ record ∈ pool.records, cohortMember cohort.trustDomain cohort.row record = true →
    record.defaultModelId = first.defaultModelId
  rows : ∀ record ∈ pool.records, cohortMember cohort.trustDomain cohort.row record = true →
    SharedRows cohort.service cohort.task record.serviceProfiles first.serviceProfiles
  notBatch : cohort.service ≠ .speechBatch
  owner : cohort.service = .speechHttp →
    (∃ row ∈ first.serviceProfiles, row.serviceClass = .speechHttp
      ∧ row.voiceNamePolicy = some .uploaded) →
    ∀ index, cohort.isMember pool index = true → pool.voiceOwner = some index

theorem sharedRows_refl (service : ServiceClass) (task : Option SpeechToTextTask)
    (rows : List ServiceProfile) : SharedRows service task rows rows :=
  ⟨fun row hrow _ => ⟨row, hrow, .refl row⟩, fun row hrow _ => ⟨row, hrow, .refl row⟩⟩

section

variable {pool : Pool} (haccepted : ∀ record ∈ pool.records, AcceptedWorker record)
include haccepted

theorem uniform_generation : ∀ trustDomain ∈ buildContentBlindGenerationCohorts pool.records,
    ∃ first, UniformCohort pool (.generation trustDomain) first := by
  unfold buildContentBlindGenerationCohorts
  refine List.foldlRecOn (motive := fun result => ∀ trustDomain ∈ result,
    ∃ first, UniformCohort pool (.generation trustDomain) first) pool.records _ (by simp) ?_
  intro result hresult record _
  split
  · exact hresult
  split
  · exact hresult
  · next first members hmembers =>
    split
    · next hsame =>
      intro trustDomain htrust
      rcases List.mem_append.mp htrust with htrust | htrust
      · exact hresult trustDomain htrust
      · cases List.mem_singleton.mp htrust
        simp only [Bool.and_eq_true, List.all_eq_true, beq_iff_eq] at hsame
        -- a member is the first one or one that was compared with it
        have hcases : ∀ candidate ∈ pool.records,
            cohortMember record.trustDomain isGenerationRow candidate = true →
            candidate = first ∨ candidate ∈ members := fun candidate hcandidate hmember => by
          have := List.mem_filter.mpr ⟨hcandidate, hmember⟩
          rw [hmembers] at this
          exact List.mem_cons.mp this
        refine ⟨first, ?_, ?_, nofun, nofun⟩
        · intro candidate hcandidate hmember
          rcases hcases candidate hcandidate hmember with rfl | hin
          · rfl
          · exact (hsame.2 candidate hin).1
        · intro candidate hcandidate hmember
          rcases hcases candidate hcandidate hmember with rfl | hin
          · exact sharedRows_refl _ _ _
          · exact sharedRows_of_serviceRowsEqual (haccepted candidate hcandidate).rows
              (hsame.2 candidate hin).2
    · exact hresult

theorem uniform_media :
    ∀ cohort ∈ buildContentBlindMediaCohorts pool.records pool.voiceOwner,
      ∃ first, UniformCohort pool (.media cohort) first := by
  unfold buildContentBlindMediaCohorts
  refine List.foldlRecOn (motive := fun result => ∀ cohort ∈ result,
    ∃ first, UniformCohort pool (.media cohort) first) pool.records _ (by simp) ?_
  intro result hresult record _
  refine List.foldlRecOn (motive := fun result => ∀ cohort ∈ result,
    ∃ first, UniformCohort pool (.media cohort) first) record.serviceProfiles _ hresult ?_
  intro result hresult profile _
  unfold addMediaCohort
  simp only
  split
  · exact hresult
  next hservice =>
  split
  · exact hresult
  split
  · exact hresult
  next first members hmembers =>
  split
  · exact hresult
  next howner =>
  split
  · next hsame =>
    intro cohort hcohort
    rcases List.mem_append.mp hcohort with hcohort | hcohort
    · exact hresult cohort hcohort
    · cases List.mem_singleton.mp hcohort
      simp only [Bool.and_eq_true, List.all_eq_true, beq_iff_eq] at hsame
      have hmem : ∀ index candidate, pool.records[index]? = some candidate →
          cohortMember record.trustDomain
            (relevant profile.serviceClass profile.speechToTextTask) candidate = true →
          (candidate, index) ∈ pool.records.zipIdx.filter fun candidate =>
            cohortMember record.trustDomain
              (relevant profile.serviceClass profile.speechToTextTask) candidate.1 :=
        fun index candidate hcandidate hmember =>
          List.mem_filter.mpr ⟨List.mk_mem_zipIdx_iff_getElem?.mpr hcandidate, hmember⟩
      refine ⟨first.1, ?_, ?_, fun hbatch => hservice (.inr hbatch), ?_⟩
      · intro candidate hcandidate hmember
        obtain ⟨index, hindex⟩ := List.getElem?_of_mem hcandidate
        exact (hsame.2 _ (hmem index candidate hindex hmember)).1
      · intro candidate hcandidate hmember
        obtain ⟨index, hindex⟩ := List.getElem?_of_mem hcandidate
        exact sharedRows_of_serviceRowsEqual (haccepted candidate hcandidate).rows
          (hsame.2 _ (hmem index candidate hindex hmember)).2
      · rintro hspeech ⟨row, hrow, hclass, hpolicy⟩ index hindex
        change profile.serviceClass = .speechHttp at hspeech
        have hrequires : (profile.serviceClass == ServiceClass.speechHttp
            && first.1.serviceProfiles.any fun row =>
              row.serviceClass == profile.serviceClass
                && row.voiceNamePolicy == some .uploaded) = true := by
          rw [hspeech, Bool.and_eq_true, List.any_eq_true]
          exact ⟨rfl, row, hrow, by rw [hclass, hpolicy]; rfl⟩
        rw [hrequires, Bool.true_and, Bool.not_eq_true', Bool.not_eq_false] at howner
        obtain ⟨owner, hvoice, hall⟩ := (Option.any_eq_true _ _).mp howner
        obtain ⟨candidate, hcandidate, hmember⟩ := (Option.any_eq_true _ _).mp hindex
        have := List.all_eq_true.mp hall _ (hmem index candidate hcandidate hmember)
        rw [hvoice, ← beq_iff_eq.mp this]
  · exact hresult

theorem uniform_of_built {cohort : ContentBlind} (h : cohort.Built pool) :
    ∃ first, UniformCohort pool cohort first := by
  cases cohort with
  | generation => exact uniform_generation haccepted _ h
  | media => exact uniform_media haccepted _ h

end

/-- The workers a classified dispatch considers: the owner of an uploaded voice, else every worker that
matches. -/
def Pool.considered (pool : Pool) (matching : ProfileMatches) (index : Nat) : Bool :=
  if matching.voicePolicy = some .uploaded then pool.voiceOwner == some index
  else matching.worker index

structure OfRoute (cohort : ContentBlind) (requirement : RouteRequirement) : Prop where
  trustDomain : requirement.trustDomain = cohort.trustDomain
  service : requirement.profile.serviceClass = cohort.service
  task : requirement.profile.speechToTextTask = cohort.task

section

variable {pool : Pool} {cohort : ContentBlind} {first : WorkerConfig}
  {requirement : RouteRequirement} (hroute : OfRoute cohort requirement)
include hroute

theorem cohortMember_of_serves {record : WorkerConfig} (h : serves requirement record = true) :
    cohortMember cohort.trustDomain cohort.row record = true := by
  simp only [serves, cohortMember, Bool.and_eq_true, List.any_eq_true, beq_iff_eq] at h ⊢
  obtain ⟨htrust, row, hrow, hmatch⟩ := h
  refine ⟨htrust.trans hroute.trustDomain, row, hrow, ?_⟩
  rw [cohort.row_eq, ← hroute.service, ← hroute.task]
  exact relevant_of_matches hmatch

variable (hu : UniformCohort pool cohort first)
include hu

theorem matches_first_of_serves {record : WorkerConfig} (hrecord : record ∈ pool.records)
    {row : ServiceProfile} (hrow : row ∈ record.serviceProfiles)
    (htrust : record.trustDomain = requirement.trustDomain)
    (hmatch : row.matches requirement.profile record.defaultModelId = true) :
    ∃ other ∈ first.serviceProfiles, SameRow row other
      ∧ other.matches requirement.profile first.defaultModelId = true := by
  have hserves : serves requirement record = true := by
    rw [serves, Bool.and_eq_true, List.any_eq_true]
    exact ⟨beq_iff_eq.mpr htrust, row, hrow, hmatch⟩
  have hmember := cohortMember_of_serves hroute hserves
  have hrelevant := relevant_of_matches hmatch
  rw [hroute.service, hroute.task] at hrelevant
  obtain ⟨other, hother, hsame⟩ := (hu.rows record hrecord hmember).forth row hrow hrelevant
  refine ⟨other, hother, hsame, ?_⟩
  rw [← hu.defaults record hrecord hmember, ← hsame.matches_eq]
  exact hmatch

theorem serves_of_cohortMember (hany : ∃ record ∈ pool.records, serves requirement record = true)
    {record : WorkerConfig} (hrecord : record ∈ pool.records)
    (hmember : cohortMember cohort.trustDomain cohort.row record = true) :
    serves requirement record = true := by
  obtain ⟨served, hserved, hserves⟩ := hany
  simp only [serves, Bool.and_eq_true, List.any_eq_true, beq_iff_eq] at hserves
  obtain ⟨htrust, row, hrow, hmatch⟩ := hserves
  obtain ⟨other, hother, -, hmatch'⟩ := matches_first_of_serves hroute hu hserved hrow htrust hmatch
  have hrelevant := relevant_of_matches hmatch'
  rw [hroute.service, hroute.task] at hrelevant
  obtain ⟨own, hown, hsame⟩ := (hu.rows record hrecord hmember).back other hother hrelevant
  have htrust' : record.trustDomain = requirement.trustDomain := by
    rw [cohortMember, Bool.and_eq_true, beq_iff_eq] at hmember
    exact hmember.1.trans hroute.trustDomain.symm
  rw [serves, Bool.and_eq_true, List.any_eq_true]
  refine ⟨beq_iff_eq.mpr htrust', own, hown, ?_⟩
  rw [hu.defaults record hrecord hmember, ← hsame.matches_eq]
  exact hmatch'

theorem worker_eq_isMember {matching : ProfileMatches}
    (hmatching : Matching pool requirement matching) (hany : matching.any = true) (index : Nat) :
    matching.worker index = cohort.isMember pool index := by
  rw [hmatching.worker_eq, ContentBlind.isMember]
  cases hrecord : pool.records[index]? with
  | none => rfl
  | some record =>
    rw [Option.any_some, Option.any_some, Bool.eq_iff_iff]
    exact ⟨cohortMember_of_serves hroute, serves_of_cohortMember hroute hu
      (hmatching.any_iff.mp hany) (List.mem_of_getElem? hrecord)⟩

theorem owner_of_uploaded {matching : ProfileMatches}
    (hmatching : Matching pool requirement matching)
    (hpolicy : matching.voicePolicy = some .uploaded)
    (hwebsocket : cohort.service = .speechWebsocket →
      ∀ index, cohort.isMember pool index = true → pool.voiceOwner = some index) :
    ∀ index, cohort.isMember pool index = true → pool.voiceOwner = some index := by
  obtain ⟨hnamed, record, hrecord, htrust, row, hrow, hmatch, hrowPolicy⟩ :=
    hmatching.uploaded hpolicy
  have hclass := ServiceProfile.serviceClass_of_matches hmatch
  cases hprofile : requirement.profile with
  | speechWebsocket =>
    refine hwebsocket ?_
    rw [← hroute.service, hprofile]
    rfl
  | speechBatch =>
    refine absurd ?_ hu.notBatch
    rw [← hroute.service, hprofile]
    rfl
  | speechHttp =>
    have hservice : cohort.service = .speechHttp := by
      rw [← hroute.service, hprofile]
      rfl
    obtain ⟨other, hother, hsame, -⟩ := matches_first_of_serves hroute hu hrecord hrow htrust hmatch
    refine hu.owner hservice ⟨other, hother, ?_, ?_⟩
    · rw [← hsame.serviceClass_eq, hclass, hroute.service, hservice]
    · rw [← hsame.voiceNamePolicy_eq, hrowPolicy]
  | _ =>
    rw [hprofile] at hnamed
    cases hnamed

end

/-! ### The two dispatches -/

/-- Both dispatches return the same worker, or find the workers unavailable. -/
def SameChoice (classified blind : Except DispatchError (Nat × List Nat)) : Prop :=
  (∃ worker, classified.map (·.1) = .ok worker ∧ blind.map (·.1) = .ok worker)
    ∨ (classified = .error .unavailable ∧ blind = .error .unavailable)

theorem any_of_worker {pool : Pool} {requirement : RouteRequirement} {matching : ProfileMatches}
    (h : Matching pool requirement matching) {index : Nat} (hworker : matching.worker index = true) :
    matching.any = true := by
  rw [h.worker_eq] at hworker
  obtain ⟨record, hrecord, hserves⟩ := (Option.any_eq_true _ _).mp hworker
  exact h.any_iff.mpr ⟨record, List.mem_of_getElem? hrecord, hserves⟩

section

variable {pool : Pool} {cohort : ContentBlind} {first : WorkerConfig}
  {requirement : RouteRequirement} (hroute : OfRoute cohort requirement)
  (hu : UniformCohort pool cohort first)
include hroute hu

theorem sameChoice_of_uploaded {matching : ProfileMatches} (view : View pool.records.length)
    (hmatching : Matching pool requirement matching)
    (howner : ∀ index, cohort.isMember pool index = true → pool.voiceOwner = some index)
    {classified : Except DispatchError (Nat × List Nat)}
    (hclassified : classified = (do
      let owner ← pool.uploadedVoiceOwner view.health requirement.profile matching
      return (owner, view.recency)))
    (hne : classified ≠ .error .noEligibleProfile) (hna : classified ≠ .error .ambiguousModel) :
    (∀ index, (pool.voiceOwner == some index) = cohort.isMember pool index)
      ∧ SameChoice classified (cohort.dispatch pool view) := by
  have hconsidered : ∀ owner, pool.voiceOwner = some owner → matching.worker owner = true →
      (∀ index, (pool.voiceOwner == some index) = cohort.isMember pool index) := by
    intro owner hvoice hworker index
    have hmember := worker_eq_isMember hroute hu hmatching (any_of_worker hmatching hworker) owner
    rw [Bool.eq_iff_iff, beq_iff_eq]
    refine ⟨fun hindex => ?_, howner index⟩
    cases hvoice.symm.trans hindex
    rw [← hmember, hworker]
  rcases uploadedVoiceOwner_cases pool view.health requirement.profile matching with
    ⟨owner, hvoice, hworker, hroutable, hok⟩ | ⟨owner, hvoice, hworker, hroutable, herror⟩
      | herror | herror
  · have hall := hconsidered owner hvoice hworker
    refine ⟨hall, .inl ⟨owner, by rw [hclassified, hok]; rfl, ?_⟩⟩
    rcases pool.dispatchMatching_cases view (cohort.isMember pool) with
      ⟨worker, recency', hdispatch, hmember, -⟩ | ⟨-, hnone⟩
    · have hworker' := howner worker hmember
      cases hvoice.symm.trans hworker'
      rw [ContentBlind.dispatch, hdispatch]
      rfl
    · have hmember : cohort.isMember pool owner = true := by
        rw [← hall owner, hvoice, beq_self_eq_true]
      have hlt : owner < pool.records.length := by
        obtain ⟨record, hrecord, -⟩ := (Option.any_eq_true _ _).mp hmember
        exact (List.getElem?_eq_some_iff.mp hrecord).1
      have := hnone owner hlt
      rw [hmember, hroutable] at this
      cases this
  · have hall := hconsidered owner hvoice hworker
    refine ⟨hall, .inr ⟨by rw [hclassified, herror]; rfl, ?_⟩⟩
    rcases pool.dispatchMatching_cases view (cohort.isMember pool) with
      ⟨worker, recency', -, hmember, hroutable'⟩ | ⟨hdispatch, -⟩
    · cases hvoice.symm.trans (howner worker hmember)
      rw [hroutable] at hroutable'
      cases hroutable'
    · exact hdispatch
  · exact absurd (by rw [hclassified, herror]; rfl) hne
  · exact absurd (by rw [hclassified, herror]; rfl) hna

theorem sameChoice_of_matching {matching : ProfileMatches} (view : View pool.records.length)
    (hmatching : Matching pool requirement matching)
    (hne : pool.dispatchMatching view matching.any matching.worker ≠ .error .noEligibleProfile) :
    (∀ index, matching.worker index = cohort.isMember pool index)
      ∧ SameChoice (pool.dispatchMatching view matching.any matching.worker)
        (cohort.dispatch pool view) := by
  have hany : matching.any = true := by
    cases hany : matching.any with
    | true => rfl
    | false =>
      rw [hany] at hne
      exact absurd rfl hne
  have hall := worker_eq_isMember hroute hu hmatching hany
  refine ⟨hall, ?_⟩
  rw [hany, funext hall, ContentBlind.dispatch]
  rcases pool.dispatchMatching_cases view (cohort.isMember pool) with
    ⟨worker, recency', hdispatch, -, -⟩ | ⟨hdispatch, -⟩
  · refine .inl ⟨worker, ?_, ?_⟩ <;> rw [hdispatch] <;> rfl
  · exact .inr ⟨hdispatch, hdispatch⟩

end

/-- `Url::parse` on the origins of the example workers. -/
def exampleParse (text : String) : Option Url :=
  if text = "http://127.0.0.1:8000/" then
    some { text, scheme := "http", host := some "127.0.0.1", port := some 8000,
           portOrKnownDefault := some 8000 }
  else if text = "http://127.0.0.1:8001/" then
    some { text, scheme := "http", host := some "127.0.0.1", port := some 8001,
           portOrKnownDefault := some 8001 }
  else none

def speechWorker (workerId baseUrl : String) (row : ServiceProfile) : WorkerConfig :=
  { workerId, baseUrl, trustDomain := "local", defaultModelId := some "tts",
    capacity := { speechWebsocket := some 4 }, serviceProfiles := [row] }

/-- Two healthy idle workers, the second of which was dispatched to less recently. -/
def healthyView : View 2 where
  health _ := .healthy
  load _ := 0
  recency := [1, 0]
  load_le _ := Nat.zero_le _
  recency_perm := by decide

/-- Two workers that list the same response formats in different orders. -/
def presetPool : Pool where
  records :=
    [speechWorker "a" "http://127.0.0.1:8000/"
       (.speechHttp ["tts"] [.wav, .mp3] [.nonStreaming] [.textToSpeech] [.none] .preset),
     speechWorker "b" "http://127.0.0.1:8001/"
       (.speechHttp ["tts"] [.mp3, .wav] [.nonStreaming] [.textToSpeech] [.none] .preset)]
  voiceOwner := none
  strategy := .roundRobin

def presetRequirement : RouteRequirement where
  profile := .speechHttp .unresolvedDefault .mp3 .nonStreaming none [] true
  trustDomain := "local"

/-- Two workers that take a named voice for an uploaded one, over a websocket. -/
def uploadedPool : Pool where
  records :=
    [speechWorker "a" "http://127.0.0.1:8000/"
       (.speechWebsocket ["tts"] [.wav] [.nonStreaming] [.voiceClone] [.none] .uploaded),
     speechWorker "b" "http://127.0.0.1:8001/"
       (.speechWebsocket ["tts"] [.wav] [.nonStreaming] [.voiceClone] [.none] .uploaded)]
  voiceOwner := some 0
  strategy := .roundRobin

def uploadedRequirement : RouteRequirement where
  profile := .speechWebsocket .unresolvedDefault none .nonStreaming none [] true
  trustDomain := "local"

end Router
