import SglangOmni.Negotiation.Stable

/-! The configuration of a session over its updates: the fields that were fixed at admission stay as they
were while the session is open. -/

namespace Negotiation

open Lib

variable {referenceError : Value → Option (List String)} {n : SessionNegotiation}
  {candidate config : Entries}

structure Patch where
  value : Value
  distinct : value.distinct = true

/-- The part of `SessionRuntime` that updates change.  `admitted` is history: the configuration that
opened the session. -/
structure Runtime where
  state : SessionState := .created
  config : Entries := []
  admitted : Entries := []

/-- What can happen next: an update is accepted, or the session closes. -/
inductive Action
  | update (patch : Patch)
  | close

def step (n : SessionNegotiation) (referenceError : Value → Option (List String)) (s : Runtime) :
    Action → Option Runtime
  | .update patch =>
    if s.state = .created ∨ s.state = .opened then
      match n.negotiate referenceError s.config s.state patch.value with
      | .error _ => none
      | .ok (candidate, _) =>
        some {
          state := .opened
          config := candidate
          admitted := if s.state = .created then candidate else s.admitted }
    else none
  | .close => some { s with state := .closing }

def machine (n : SessionNegotiation) (referenceError : Value → Option (List String)) :
    Machine Runtime Action where
  init := {}
  step := step n referenceError

/-! ### What an open session has -/

def HasFormats (audio : Entries) : Prop :=
  ∀ direction ∈ ["input", "output"], ∃ inner audioFormat,
    get? audio direction = some (.dict inner) ∧ get? inner "format" = some audioFormat

structure Granted (n : SessionNegotiation) (config : Entries) : Prop where
  audio : ∃ audio, get? config "audio" = some (.dict audio) ∧ HasFormats audio
  model : get? config "model" = some (.str n.model)
  type : get? config "type" = some (.str "realtime")

theorem get?_setDefault_self (entries : Entries) (key : String) (v : Value) :
    ∃ w, get? (setDefault entries key v) key = some w := by
  cases hget : get? entries key with
  | some w => exact ⟨w, get?_setDefault_of_some hget⟩
  | none =>
    have hset : setDefault entries key v = set entries key v := by
      rw [setDefault, hget]
      rfl
    exact ⟨v, hset ▸ get?_set_self _ _ _⟩

theorem hasFormats_grantAudio (audio : Entries) : HasFormats (n.grantAudio audio) := by
  intro direction hdirection
  rcases List.mem_cons.mp hdirection with rfl | hrest
  · obtain ⟨w, hw⟩ := get?_setDefault_self (getDict audio "input") "format"
      (pcmFormat n.capabilities.inputSampleRateHz)
    exact ⟨_, w, by rw [get?_grantAudio, if_neg (by decide), if_pos rfl], hw⟩
  · rw [List.mem_singleton.mp hrest]
    obtain ⟨w, hw⟩ := get?_setDefault_self (getDict audio "output") "format"
      (pcmFormat n.capabilities.outputSampleRateHz)
    exact ⟨_, w, by rw [get?_grantAudio, if_pos rfl], hw⟩

theorem granted_grantConfig (candidate : Entries) (modalities : List String) :
    Granted n (n.grantConfig candidate modalities) where
  audio := ⟨_, by rw [get?_grantConfig]; rfl, hasFormats_grantAudio _⟩
  model := by rw [get?_grantConfig]; rfl
  type := by rw [get?_grantConfig]; rfl

theorem HasFormats.grantAudio {audio : Entries} (h : HasFormats audio) : n.grantAudio audio = audio := by
  obtain ⟨input, inputFormat, hinput, hinputFormat⟩ := h "input" (by decide)
  obtain ⟨output, outputFormat, houtput, houtputFormat⟩ := h "output" (by decide)
  have hset : set audio "input" (.dict (setDefault (getDict audio "input") "format"
      (pcmFormat n.capabilities.inputSampleRateHz))) = audio := by
    apply set_eq_self
    rw [getDict_of_some hinput, setDefault_of_some hinputFormat, hinput]
  rw [SessionNegotiation.grantAudio, hset]
  apply set_eq_self
  rw [getDict_of_some houtput, setDefault_of_some houtputFormat, houtput]

theorem Granted.grantConfig (h : Granted n candidate) (modalities : List String) :
    n.grantConfig candidate modalities =
      set candidate "output_modalities" (.list (modalities.map .str)) := by
  obtain ⟨audio, hget, hformats⟩ := h.audio
  have haudio : set candidate "audio" (.dict (n.grantAudio (getDict candidate "audio"))) = candidate := by
    apply set_eq_self
    rw [getDict_of_some hget, hformats.grantAudio, hget]
  rw [SessionNegotiation.grantConfig, haudio, set_eq_self h.model, set_eq_self h.type]

/-! ### Fixed fields -/

theorem get?_popSampling (config : Entries) {key : String} (hkey : key ≠ "sglang") :
    get? (popSampling config) key = get? config key := by
  unfold popSampling
  simp only
  split
  · rw [get?_pop, if_neg hkey]
  · exact get?_set_of_ne hkey

theorem get?_popTurnDetection (config : Entries) {key : String} (hkey : key ≠ "audio") :
    get? (popTurnDetection config) key = get? config key := by
  unfold popTurnDetection
  split
  · split
    · exact get?_set_of_ne hkey
    · rfl
  · rfl

theorem get?_admissionFields (config : Entries) (capabilities : Capabilities) {key : String}
    (hkey : key ∉ ["instructions", "sglang"]) : get? (admissionFields config capabilities) key =
      get? (popTurnDetection (pop config "output_modalities")) key := by
  simp only [List.mem_cons, List.not_mem_nil, or_false, not_or] at hkey
  unfold admissionFields
  simp only
  split <;> split
  · rw [get?_popSampling _ hkey.2, get?_pop, if_neg hkey.1]
  · exact get?_popSampling _ hkey.2
  · rw [get?_pop, if_neg hkey.1]
  · rfl

theorem get?_admissionFields_of_ne (config : Entries) (capabilities : Capabilities) {key : String}
    (hkey : key ∉ ["output_modalities", "audio", "instructions", "sglang"]) :
    get? (admissionFields config capabilities) key = get? config key := by
  simp only [List.mem_cons, List.not_mem_nil, or_false, not_or] at hkey
  rw [get?_admissionFields _ _ (by simpa using hkey.2.2), get?_popTurnDetection _ hkey.2.1, get?_pop,
    if_neg hkey.1]

theorem hasFormats_popTurnDetection {audio : Entries} (hget : get? config "audio" = some (.dict audio))
    (h : HasFormats audio) :
    ∃ audio', get? (popTurnDetection config) "audio" = some (.dict audio') ∧ HasFormats audio' := by
  obtain ⟨input, inputFormat, hinput, hinputFormat⟩ := h "input" (by decide)
  refine ⟨set audio "input" (.dict (pop input "turn_detection")), ?_, fun direction hdirection => ?_⟩
  · unfold popTurnDetection
    rw [hget]
    simp only [hinput]
    exact get?_set_self _ _ _
  · rcases List.mem_cons.mp hdirection with rfl | hrest
    · refine ⟨_, inputFormat, get?_set_self _ _ _, ?_⟩
      rw [get?_pop, if_neg (by decide)]
      exact hinputFormat
    · rw [List.mem_singleton.mp hrest]
      obtain ⟨output, outputFormat, houtput, houtputFormat⟩ := h "output" (by decide)
      exact ⟨output, outputFormat, (get?_set_of_ne (by decide)).trans houtput, houtputFormat⟩

theorem hasFormats_of_popTurnDetection {audio' : Entries}
    (hget : get? (popTurnDetection config) "audio" = some (.dict audio')) (h : HasFormats audio') :
    ∃ audio, get? config "audio" = some (.dict audio) ∧ HasFormats audio := by
  unfold popTurnDetection at hget
  split at hget
  · next audio haudio =>
    split at hget
    · next input hinput =>
      rw [get?_set_self] at hget
      cases hget
      refine ⟨audio, haudio, fun direction hdirection => ?_⟩
      obtain ⟨inner, audioFormat, hinner, hformat⟩ := h direction hdirection
      by_cases hdir : direction = "input"
      · rw [hdir, get?_set_self] at hinner
        cases hinner
        rw [get?_pop, if_neg (by decide)] at hformat
        exact ⟨input, audioFormat, hdir ▸ hinput, hformat⟩
      · exact ⟨inner, audioFormat, (get?_set_of_ne hdir).symm.trans hinner, hformat⟩
    · exact ⟨audio', hget, h⟩
  · exact ⟨audio', hget, h⟩

theorem HasFormats.of_eqv {audio audio' : Entries} (h : HasFormats audio)
    (heqv : (Value.dict audio').eqv (.dict audio) = true) : HasFormats audio' := by
  intro direction hdirection
  obtain ⟨inner, audioFormat, hinner, hformat⟩ := h direction hdirection
  obtain ⟨v, hv, hinnerEqv⟩ := exists_of_eqv heqv hinner
  obtain ⟨inner', rfl⟩ := eq_dict_of_eqv hinnerEqv
  obtain ⟨w, hw, -⟩ := exists_of_eqv hinnerEqv hformat
  exact ⟨inner', w, hv, hw⟩

theorem Granted.of_eqv (h : Granted n config) (heqv :
    (Value.dict (admissionFields candidate n.capabilities)).eqv
      (.dict (admissionFields config n.capabilities)) = true) : Granted n candidate := by
  have hstr {key s : String} (hkey : key ∉ ["output_modalities", "audio", "instructions", "sglang"])
      (hget : get? config key = some (.str s)) : get? candidate key = some (.str s) := by
    rw [← get?_admissionFields_of_ne config n.capabilities hkey] at hget
    obtain ⟨v, hv, hvs⟩ := exists_of_eqv heqv hget
    rw [get?_admissionFields_of_ne candidate n.capabilities hkey, eq_str_of_eqv hvs] at hv
    exact hv
  refine ⟨?_, hstr (by decide) h.model, hstr (by decide) h.type⟩
  have hpop (config : Entries) :
      get? (pop config "output_modalities") "audio" = get? config "audio" := by
    rw [get?_pop, if_neg (by decide)]
  obtain ⟨audio, hget, hformats⟩ := h.audio
  rw [← hpop] at hget
  obtain ⟨audio', hget', hformats'⟩ := hasFormats_popTurnDetection hget hformats
  rw [← get?_admissionFields _ n.capabilities (by decide)] at hget'
  obtain ⟨v, hv, hvaudio⟩ := exists_of_eqv heqv hget'
  obtain ⟨fixed, rfl⟩ := eq_dict_of_eqv hvaudio
  rw [get?_admissionFields _ n.capabilities (by decide)] at hv
  rw [← hpop]
  exact hasFormats_of_popTurnDetection hv (hformats'.of_eqv hvaudio)

/-! ### Runs -/

/-- An open session has what was granted, and its fixed fields are those of its admission. -/
structure Kept (n : SessionNegotiation) (s : Runtime) : Prop where
  distinct : Distinct s.config
  granted : s.state = .opened → Granted n s.config
  fixed : s.state = .opened → (Value.dict (admissionFields s.config n.capabilities)).eqv
    (.dict (admissionFields s.admitted n.capabilities)) = true

theorem frozen_of_validateFixed {current : Entries}
    (h : n.validateFixed .opened current candidate = .ok ()) :
    (Value.dict (admissionFields candidate n.capabilities)).eqv
      (.dict (admissionFields current n.capabilities)) = true := by
  unfold SessionNegotiation.validateFixed at h
  split at h
  · cases h
  · next hfrozen =>
    by_contra hne
    exact hfrozen ⟨rfl, hne⟩

theorem Kept.step {s s' : Runtime} {action : Action} (h : Kept n s)
    (hs : step n referenceError s action = some s') : Kept n s' := by
  cases action with
  | close =>
    cases hs
    exact ⟨h.distinct, fun hopen => (by cases hopen), fun hopen => (by cases hopen)⟩
  | update patch =>
    simp only [Negotiation.step] at hs
    split at hs
    · next hstate =>
      split at hs
      · cases hs
      · next candidate granted hok =>
        cases hs
        obtain ⟨entries, hpatch, -, hcandidate⟩ := negotiate_eq_ok hok
        obtain ⟨hfixed, -, -, -, hresult⟩ := negotiateCandidate_eq_ok.mp hcandidate
        have hentries : Distinct entries := by
          rw [Distinct, ← hpatch]
          exact patch.distinct
        have hconfig : candidate = n.grantConfig (mergeConfig s.config entries) _ :=
          congrArg Prod.fst hresult
        have hdistinct : Distinct candidate := by
          rw [hconfig]
          exact (h.distinct.mergeConfig hentries).grantConfig _
        refine ⟨hdistinct, fun _ => ?_, fun _ => ?_⟩
        · show Granted n candidate
          rw [hconfig]
          exact granted_grantConfig _ _
        · show (Value.dict (admissionFields candidate n.capabilities)).eqv
            (.dict (admissionFields (if s.state = .created then candidate else s.admitted)
              n.capabilities)) = true
          split
          · exact Value.eqv_refl _ (distinct_admissionFields hdistinct _)
          · next hcreated =>
            have hopen : s.state = .opened := hstate.resolve_left hcreated
            rw [hopen] at hfixed
            have hfrozen := frozen_of_validateFixed hfixed
            have hgranted := (h.granted hopen).of_eqv hfrozen
            rw [hconfig, hgranted.grantConfig, admissionFields_set]
            exact Value.eqv_trans _ hfrozen (h.fixed hopen)
    · cases hs

/-- A patch that was accepted is accepted again in the open session and keeps its configuration, and
whatever updates an open session accepts, the fields fixed at its admission stay equal. -/
theorem updates_keep_admission (n : SessionNegotiation)
    (referenceError : Value → Option (List String)) :
    (∀ (current config : Entries) (patch : Value) (granted : GrantedCapabilities),
      Distinct current → patch.distinct = true →
        n.negotiate referenceError current .created patch = .ok (config, granted) →
          ∃ granted', n.negotiate referenceError config .opened patch = .ok (config, granted')) ∧
      ∀ s, (machine n referenceError).Reaches Machine.anyAction s → s.state = .opened →
        (Value.dict (admissionFields s.config n.capabilities)).eqv
          (.dict (admissionFields s.admitted n.capabilities)) = true := by
  refine ⟨fun current config patch granted hcurrent hpatch h => ?_, fun s hs hopen => ?_⟩
  · exact negotiate_again hcurrent hpatch h
  · have hinit : Kept n {} := ⟨rfl, fun hopen => (by cases hopen), fun hopen => (by cases hopen)⟩
    have hkept : Kept n s := hs.invariant hinit fun _ _ _ hs _ hstep => hs.step hstep
    exact hkept.fixed hopen

/-- A deployment that speaks, writes, and takes new instructions and sampling while a session is open. -/
def deployment : SessionNegotiation where
  model := "duplex"
  capabilities := {
    outputModalities := ["text", "audio"]
    samplingParameters := ["temperature"]
    supportsInstructionUpdates := true
    supportsSamplingUpdates := true
    positive := by decide
    whole := by decide
    images := by decide
    slices := by decide
    modalities := by decide
    grants := by decide }
  limits := { sessionUpdateTimeoutS := 10, idleTimeoutS := 60 }

def opening : Patch where
  value := .dict [("model", .str "duplex"), ("instructions", .str "be brief"),
    ("output_modalities", .list [.str "audio", .str "text"]),
    ("audio", .dict [("input", .dict [("turn_detection", .null)])])]
  distinct := by decide +kernel

def hotFields : Patch where
  value := .dict [("instructions", .str "be verbose"),
    ("sglang", .dict [("sampling", .dict [("temperature", .int 1)])])]
  distinct := by decide +kernel

/-- The session is opened, updated, and its first configuration is sent again. -/
def resent : List Action := [.update opening, .update hotFields, .update opening]

theorem updates_keep_admission_resent :
    (∃ config granted granted',
      deployment.negotiate (fun _ => none) [] .created opening.value = .ok (config, granted) ∧
        deployment.negotiate (fun _ => none) config .opened opening.value = .ok (config, granted')) ∧
      ∃ s, (machine deployment fun _ => none).exec {} resent = some s ∧
        (Value.dict (admissionFields s.config deployment.capabilities)).eqv
          (.dict (admissionFields s.admitted deployment.capabilities)) = true := by
  obtain ⟨hagain, hruns⟩ := updates_keep_admission deployment fun _ => none
  constructor
  · have hok : (deployment.negotiate (fun _ => none) [] .created opening.value).isOk = true := by
      decide +kernel
    cases hnegotiate : deployment.negotiate (fun _ => none) [] .created opening.value with
    | error e =>
      rw [hnegotiate] at hok
      cases hok
    | ok result =>
      obtain ⟨config, granted⟩ := result
      obtain ⟨granted', h⟩ := hagain [] config opening.value granted Distinct.nil opening.distinct
        hnegotiate
      exact ⟨config, granted, granted', rfl, h⟩
  · obtain ⟨s, hs⟩ : ∃ s, (machine deployment fun _ => none).exec {} resent = some s :=
      Option.isSome_iff_exists.mp (by decide +kernel)
    have hstate : ((machine deployment fun _ => none).exec {} resent).map Runtime.state =
        some .opened := by
      decide +kernel
    rw [hs] at hstate
    exact ⟨s, hs, hruns s (Machine.path_of_exec hs) (Option.some.inj hstate)⟩

end Negotiation
