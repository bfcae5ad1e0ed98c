import SglangOmni.Negotiation.Negotiate

/-! A patch that was accepted is accepted again once the session is open, and an open session keeps the
fields that were fixed at its admission. -/

namespace Negotiation

open Lib

variable {referenceError : Value → Option (List String)} {n : SessionNegotiation}
  {candidate config : Entries} {modalities : List String}

/-! ### Accepted candidates -/

def Valid (referenceError : Value → Option (List String)) (config : Entries) : Prop :=
  (Schema.record sessionFields).errorAt referenceError (.dict config) = none

theorem valid_getDict {fields inner : List (String × Bool × Schema)} {entries : Entries} {key : String}
    (h : (Schema.record fields).errorAt referenceError (.dict entries) = none)
    (hfield : (key, false, Schema.record inner) ∈ fields)
    (hempty : (Schema.record inner).errorAt referenceError (.dict []) = none) :
    (Schema.record inner).errorAt referenceError (.dict (getDict entries key)) = none := by
  unfold getDict
  split
  · next hget => exact valid_get? h hfield hget
  · exact hempty

theorem isDict_of_valid {fields inner : List (String × Bool × Schema)} {entries : Entries} {key : String}
    (h : (Schema.record fields).errorAt referenceError (.dict entries) = none)
    (hfield : (key, false, Schema.record inner) ∈ fields) :
    ∀ w, get? entries key = some w → ∃ inner, w = .dict inner :=
  fun _ hget => eq_dict_of_valid (valid_get? h hfield hget)

theorem Valid.audio (h : Valid referenceError config) :
    (Schema.record audioFields).errorAt referenceError (.dict (getDict config "audio")) = none :=
  valid_getDict h audio_mem_sessionFields rfl

theorem negotiate_eq_ok {current : Entries} {state : SessionState} {patch : Value}
    {result : Entries × GrantedCapabilities}
    (h : n.negotiate referenceError current state patch = .ok result) :
    ∃ entries, patch = .dict entries ∧ Valid referenceError (mergeConfig current entries) ∧
      n.negotiateCandidate current state (mergeConfig current entries) = .ok result := by
  unfold SessionNegotiation.negotiate at h
  simp only at h
  split at h
  · next candidate hvalid hmerged =>
    cases patch with
    | dict entries =>
      cases hmerged
      exact ⟨entries, rfl, hvalid, h⟩
    | _ =>
      cases hmerged
  · cases h

theorem negotiate_of_valid {current : Entries} {state : SessionState} {entries : Entries}
    (hvalid : Valid referenceError (mergeConfig current entries)) :
    n.negotiate referenceError current state (.dict entries) =
      n.negotiateCandidate current state (mergeConfig current entries) := by
  have hsession : (Schema.record sessionFields).errorAt referenceError
      (SessionNegotiation.merged current (.dict entries)) = none := hvalid
  unfold SessionNegotiation.negotiate
  simp only [hsession]
  rfl

theorem negotiateCandidate_eq_ok {current : Entries} {state : SessionState}
    {result : Entries × GrantedCapabilities} :
    n.negotiateCandidate current state candidate = .ok result ↔
      n.validateFixed state current candidate = .ok () ∧ n.validateAudio candidate = .ok () ∧
        n.grantedModalities (n.requestedModalities candidate) ≠ [] ∧
        n.validateExtension candidate = .ok () ∧
        result = n.grant candidate (n.requestedModalities candidate)
          (n.grantedModalities (n.requestedModalities candidate)) := by
  unfold SessionNegotiation.negotiateCandidate
  rcases n.validateFixed state current candidate with e | _
  · simp [bind, Except.bind]
  · rcases n.validateAudio candidate with e | _
    · simp [bind, Except.bind]
    · rcases hgranted : n.grantedModalities (n.requestedModalities candidate) with _ | ⟨first, rest⟩
      · simp [bind, Except.bind, hgranted, throw, throwThe, MonadExceptOf.throw]
      · rcases n.validateExtension candidate with e | _
        · simp [bind, Except.bind, hgranted]
        · simp [bind, Except.bind, hgranted, pure, Except.pure, eq_comm]

/-! ### What is granted -/

theorem get?_grantConfig (n : SessionNegotiation) (candidate : Entries) (modalities : List String)
    (key : String) : get? (n.grantConfig candidate modalities) key =
      if key = "output_modalities" then some (.list (modalities.map .str))
      else if key = "type" then some (.str "realtime")
      else if key = "model" then some (.str n.model)
      else if key = "audio" then some (.dict (n.grantAudio (getDict candidate "audio")))
      else get? candidate key := by
  unfold SessionNegotiation.grantConfig
  simp only [get?_set]

theorem get?_grantAudio (n : SessionNegotiation) (audio : Entries) (key : String) :
    get? (n.grantAudio audio) key =
      if key = "output" then some (.dict (setDefault (getDict audio "output") "format"
        (pcmFormat n.capabilities.outputSampleRateHz)))
      else if key = "input" then some (.dict (setDefault (getDict audio "input") "format"
        (pcmFormat n.capabilities.inputSampleRateHz)))
      else get? audio key := by
  unfold SessionNegotiation.grantAudio
  simp only [get?_set]
  rw [getDict, get?_set_of_ne (by decide)]
  rfl

theorem getDict_grantAudio_input (audio : Entries) : getDict (n.grantAudio audio) "input" =
    setDefault (getDict audio "input") "format" (pcmFormat n.capabilities.inputSampleRateHz) :=
  getDict_of_some (by rw [get?_grantAudio, if_neg (by decide), if_pos rfl])

theorem getDict_grantAudio_output (audio : Entries) : getDict (n.grantAudio audio) "output" =
    setDefault (getDict audio "output") "format" (pcmFormat n.capabilities.outputSampleRateHz) :=
  getDict_of_some (by rw [get?_grantAudio, if_pos rfl])

theorem setDefault_setDefault (entries : Entries) (key : String) (v w : Value) :
    setDefault (setDefault entries key v) key w = setDefault entries key v := by
  cases hget : get? entries key with
  | some u =>
    rw [setDefault_of_some hget, setDefault_of_some hget]
  | none =>
    have hset : setDefault entries key v = set entries key v := by
      rw [setDefault, hget]
      rfl
    rw [hset]
    exact setDefault_of_some (get?_set_self _ _ _)

theorem grantAudio_grantAudio (audio : Entries) :
    n.grantAudio (n.grantAudio audio) = n.grantAudio audio := by
  have hinput : set (n.grantAudio audio) "input" (.dict (setDefault
      (getDict (n.grantAudio audio) "input") "format" (pcmFormat n.capabilities.inputSampleRateHz))) =
      n.grantAudio audio := by
    apply set_eq_self
    rw [getDict_grantAudio_input, setDefault_setDefault, get?_grantAudio, if_neg (by decide), if_pos rfl]
  rw [SessionNegotiation.grantAudio, hinput]
  apply set_eq_self
  rw [getDict_grantAudio_output, setDefault_setDefault, get?_grantAudio, if_pos rfl]

theorem pcmFormat_valid (rate : Int) : audioFormat.errorAt referenceError (pcmFormat rate) = none := by
  refine record_valid_iff.mpr ⟨fun field hfield => ?_, fun e he => ?_⟩
  · rcases List.mem_cons.mp hfield with rfl | hrest
    · exact ⟨fun _ => rfl, fun v hv => by cases hv; rfl⟩
    · rw [List.mem_singleton.mp hrest]
      exact ⟨fun _ => rfl, fun v hv => by cases hv; rfl⟩
  · rcases List.mem_cons.mp he with rfl | hrest
    · simp
    · rw [List.mem_singleton.mp hrest]
      simp

theorem setDefault_valid {fields : List (String × Bool × Schema)} {entries : Entries}
    (h : (Schema.record fields).errorAt referenceError (.dict entries) = none)
    (hkey : "format" ∈ fields.map Prod.fst)
    (hformat : ∀ field ∈ fields, field.1 = "format" → field.2.2 = audioFormat) (rate : Int) :
    (Schema.record fields).errorAt referenceError
      (.dict (setDefault entries "format" (pcmFormat rate))) = none := by
  unfold setDefault
  split
  · exact h
  · refine valid_set h hkey fun field hfield hname => ?_
    rw [hformat field hfield hname]
    exact pcmFormat_valid rate

theorem grantAudio_valid {audio : Entries}
    (h : (Schema.record audioFields).errorAt referenceError (.dict audio) = none) :
    (Schema.record audioFields).errorAt referenceError (.dict (n.grantAudio audio)) = none := by
  have hinput : (Schema.record audioInputFields).errorAt referenceError (.dict (setDefault
      (getDict audio "input") "format" (pcmFormat n.capabilities.inputSampleRateHz))) = none := by
    refine setDefault_valid (valid_getDict h input_mem_audioFields rfl) (by simp [audioInputFields]) ?_ _
    simp [audioInputFields]
  have houtput : (Schema.record audioOutputFields).errorAt referenceError (.dict (setDefault
      (getDict audio "output") "format" (pcmFormat n.capabilities.outputSampleRateHz))) = none := by
    refine setDefault_valid (valid_getDict h output_mem_audioFields rfl) (by simp [audioOutputFields])
      ?_ _
    simp [audioOutputFields]
  unfold SessionNegotiation.grantAudio
  simp only
  rw [show getDict (set audio "input" _) "output" = getDict audio "output" by
    rw [getDict, get?_set_of_ne (by decide)]; rfl]
  refine valid_set (valid_set h (by simp [audioFields]) ?_) (by simp [audioFields]) ?_
  · simpa [audioFields] using hinput
  · simpa [audioFields] using houtput

theorem strings_valid (modalities : List String) :
    Schema.strings.errorAt referenceError (.list (modalities.map .str)) = none := by
  rw [Schema.errorAt, stringsError, Option.map_eq_none_iff, List.findIdx?_eq_none_iff]
  intro v hv
  obtain ⟨s, -, rfl⟩ := List.mem_map.mp hv
  rfl

theorem Valid.grantConfig (h : Valid referenceError candidate) (modalities : List String) :
    Valid referenceError (n.grantConfig candidate modalities) := by
  unfold SessionNegotiation.grantConfig
  refine valid_set (valid_set (valid_set (valid_set h ?_ ?_) ?_ ?_) ?_ ?_) ?_ ?_
  · simp [sessionFields]
  · simpa [sessionFields] using grantAudio_valid h.audio
  · simp [sessionFields]
  · simp [sessionFields, Schema.errorAt]
  · simp [sessionFields]
  · simp [sessionFields, Schema.errorAt]
  · simp [sessionFields]
  · simpa [sessionFields] using strings_valid modalities

theorem pcmFormat_distinct (rate : Int) : (pcmFormat rate).distinct = true := rfl

theorem Distinct.grantAudio {audio : Entries} (h : Distinct audio) : Distinct (n.grantAudio audio) := by
  have hinput : Distinct (Negotiation.set audio "input" (.dict (Negotiation.setDefault
      (Negotiation.getDict audio "input") "format" (pcmFormat n.capabilities.inputSampleRateHz)))) :=
    h.set ((h.getDict "input").setDefault (pcmFormat_distinct _))
  exact hinput.set ((hinput.getDict "output").setDefault (pcmFormat_distinct _))

theorem strings_distinct (modalities : List String) :
    (Value.list (modalities.map .str)).distinct = true := by
  rw [Value.distinct, distinctList_iff]
  intro v hv
  obtain ⟨s, -, rfl⟩ := List.mem_map.mp hv
  rfl

theorem Distinct.grantConfig (h : Distinct candidate) (modalities : List String) :
    Distinct (n.grantConfig candidate modalities) := by
  unfold SessionNegotiation.grantConfig
  refine Distinct.set (Distinct.set (Distinct.set (h.set ?_) rfl) rfl) (strings_distinct modalities)
  exact (h.getDict "audio").grantAudio

theorem distinct_popTurnDetection (h : Distinct config) : Distinct (popTurnDetection config) := by
  unfold popTurnDetection
  split
  · next audio hget =>
    split
    · next input hinput =>
      have haudio : Distinct audio := h.get? hget
      have hpop : Distinct (pop input "turn_detection") := Distinct.pop (haudio.get? hinput) _
      exact h.set (haudio.set hpop)
    · exact h
  · exact h

theorem distinct_popSampling (h : Distinct config) : Distinct (popSampling config) := by
  unfold popSampling
  simp only
  split
  · exact h.pop _
  · exact h.set ((h.getDict _).pop _)

theorem distinct_admissionFields (h : Distinct config) (capabilities : Capabilities) :
    Distinct (admissionFields config capabilities) := by
  have hfirst := distinct_popTurnDetection (h.pop "output_modalities")
  unfold admissionFields
  simp only
  split <;> split
  · exact distinct_popSampling (hfirst.pop _)
  · exact distinct_popSampling hfirst
  · exact hfirst.pop _
  · exact hfirst

theorem admissionFields_set (config : Entries) (capabilities : Capabilities) (v : Value) :
    admissionFields (set config "output_modalities" v) capabilities =
      admissionFields config capabilities := by
  unfold admissionFields
  rw [pop_set]

/-! ### Negotiating again -/

theorem Absorbs.set_same {current : Entries} {e : String × Value} (h : Absorbs current e) {key : String}
    {v : Value} (hv : ∀ w, get? current key = some w → w = v) : Absorbs (set current key v) e := by
  by_cases hne : e.1 = key
  · obtain ⟨w, hget, hmerge⟩ := h
    have hsame : set current key v = current := by
      apply set_eq_self
      rw [← hv w (hne ▸ hget), ← hne]
      exact hget
    rw [hsame]
    exact ⟨w, hget, hmerge⟩
  · exact h.set_of_ne hne v

theorem absorbs_grantAudio {audio : Entries}
    (hvalid : (Schema.record audioFields).errorAt referenceError (.dict audio) = none)
    {patch : Entries} (hpatch : Distinct patch) (h : ∀ e ∈ patch, Absorbs audio e) :
    ∀ e ∈ patch, Absorbs (n.grantAudio audio) e := by
  intro e he
  have hdistinct := (distinct_iff.mp hpatch).2 e he
  have hinput : Absorbs (set audio "input" (.dict (setDefault (getDict audio "input") "format"
      (pcmFormat n.capabilities.inputSampleRateHz)))) e := by
    refine (h e he).deepen (isDict_of_valid hvalid input_mem_audioFields) hdistinct ?_
    exact fun patch _ habsorbs e he => (habsorbs e he).setDefault _ _
  unfold SessionNegotiation.grantAudio
  refine hinput.deepen ?_ hdistinct fun patch _ habsorbs e he => (habsorbs e he).setDefault _ _
  intro w hw
  rw [get?_set_of_ne (by decide)] at hw
  exact isDict_of_valid hvalid output_mem_audioFields w hw

/-- The checks that a candidate passed hold of the model and the type it has. -/
structure Named (n : SessionNegotiation) (candidate : Entries) : Prop where
  instructions : n.isTooLong (get? candidate "instructions") = false
  model : ∀ w, get? candidate "model" = some w → w = .str n.model
  type : ∀ w, get? candidate "type" = some w → w = .str "realtime"

theorem named_of_validateFixed {state : SessionState} {current : Entries}
    (h : n.validateFixed state current candidate = .ok ()) : Named n candidate := by
  unfold SessionNegotiation.validateFixed at h
  split at h
  · cases h
  · split at h
    · cases h
    · next hlong =>
      split at h
      · cases h
      · next hmodel =>
        split at h
        · cases h
        · next htype =>
          refine ⟨by simpa using hlong, fun w hw => ?_, fun w hw => ?_⟩
          · rw [hw, Option.getD_some] at hmodel
            exact eq_str_of_eqv (not_not.mp hmodel)
          · rw [hw, Option.getD_some] at htype
            exact eq_str_of_eqv (not_not.mp htype)

theorem validateFixed_of_named {state : SessionState} {current : Entries} (h : Named n candidate)
    (hfrozen : state = .opened → (Value.dict (admissionFields candidate n.capabilities)).eqv
      (.dict (admissionFields current n.capabilities)) = true) :
    n.validateFixed state current candidate = .ok () := by
  have hstr (s : String) : (Value.str s).eqv (.str s) = true := Value.eqv_refl _ rfl
  have hsame {key s : String} (h : ∀ w, get? candidate key = some w → w = .str s) :
      ((get? candidate key).getD (.str s)).eqv (.str s) = true := by
    cases hget : get? candidate key with
    | none => exact hstr s
    | some w =>
      rw [h w hget]
      exact hstr s
  unfold SessionNegotiation.validateFixed
  rw [if_neg, if_neg (by rw [h.instructions]; exact Bool.false_ne_true),
    if_neg (not_not.mpr (hsame h.model)), if_neg (not_not.mpr (hsame h.type))]
  rintro ⟨hopen, hne⟩
  exact hne (hfrozen hopen)

theorem validateAudio_eq_ok : n.validateAudio candidate = .ok () ↔
    SessionNegotiation.validateFormat (getDict candidate "audio") "input"
        n.capabilities.inputSampleRateHz = .ok () ∧
      SessionNegotiation.validateFormat (getDict candidate "audio") "output"
        n.capabilities.outputSampleRateHz = .ok () ∧
      n.validateTurnDetection (getDict candidate "audio") = .ok () := by
  unfold SessionNegotiation.validateAudio
  simp only
  rcases SessionNegotiation.validateFormat (getDict candidate "audio") "input"
    n.capabilities.inputSampleRateHz with e | _
  · simp [bind, Except.bind]
  · rcases SessionNegotiation.validateFormat (getDict candidate "audio") "output"
      n.capabilities.outputSampleRateHz with e | _
    · simp [bind, Except.bind]
    · simp [bind, Except.bind]

theorem validateFormat_setDefault {audio audio' : Entries} {direction : String} {rate : Int}
    (h : SessionNegotiation.validateFormat audio direction rate = .ok ())
    (hdirection : getDict audio' direction =
      setDefault (getDict audio direction) "format" (pcmFormat rate)) :
    SessionNegotiation.validateFormat audio' direction rate = .ok () := by
  unfold SessionNegotiation.validateFormat at h ⊢
  rw [hdirection]
  cases hget : get? (getDict audio direction) "format" with
  | some w =>
    rw [hget] at h
    rw [setDefault_of_some hget, hget]
    exact h
  | none =>
    have hset : setDefault (getDict audio direction) "format" (pcmFormat rate) =
        set (getDict audio direction) "format" (pcmFormat rate) := by
      rw [setDefault, hget]
      rfl
    rw [hset, get?_set_self]
    exact if_pos (Value.eqv_refl _ (pcmFormat_distinct rate))

theorem validateTurnDetection_grantAudio (audio : Entries) :
    n.validateTurnDetection (n.grantAudio audio) = n.validateTurnDetection audio := by
  unfold SessionNegotiation.validateTurnDetection
  rw [getDict_grantAudio_input]
  have hget : get? (setDefault (getDict audio "input") "format"
      (pcmFormat n.capabilities.inputSampleRateHz)) "turn_detection" =
      get? (getDict audio "input") "turn_detection" := by
    unfold setDefault
    split
    · rfl
    · exact get?_set_of_ne (by decide)
  rw [hget]

/-- The modalities of a request that was granted as `modalities`, or those themselves. -/
structure Requests (referenceError : Value → Option (List String)) (n : SessionNegotiation)
    (modalities : List String) (v : Value) : Prop where
  valid : Schema.strings.errorAt referenceError v = none
  granted : n.grantedModalities ((stringItems (some v)).getD n.capabilities.outputModalities) = modalities

theorem filterMap_strings (modalities : List String) :
    (modalities.map Value.str).filterMap Value.str? = modalities := by
  induction modalities with
  | nil => rfl
  | cons modality rest ih =>
    rw [List.map_cons, List.filterMap_cons]
    exact congrArg (modality :: ·) ih

theorem requests_granted (referenceError : Value → Option (List String)) (n : SessionNegotiation)
    (requested : List String) : Requests referenceError n (n.grantedModalities requested)
      (.list ((n.grantedModalities requested).map .str)) where
  valid := strings_valid _
  granted := by
    rw [stringItems, filterMap_strings, Option.getD_some]
    have hall : (n.grantedModalities requested).filter n.capabilities.outputModalities.contains =
        n.grantedModalities requested := by
      rw [List.filter_eq_self]
      exact fun modality hmem => (List.mem_filter.mp (List.mem_of_mem_take hmem)).2
    rw [SessionNegotiation.grantedModalities, hall]
    exact List.take_of_length_le (List.length_take_le _ _)

theorem negotiateCandidate_again {state : SessionState} {current : Entries} {v : Value}
    {granted : GrantedCapabilities} (hdistinct : Distinct candidate)
    (h : n.negotiateCandidate current state candidate = .ok (config, granted))
    (hv : Requests referenceError n (n.grantedModalities (n.requestedModalities candidate)) v) :
    ∃ granted', n.negotiateCandidate config .opened (set config "output_modalities" v) =
      .ok (config, granted') := by
  obtain ⟨hfixed, haudio, hnonempty, hextension, hresult⟩ := negotiateCandidate_eq_ok.mp h
  have hconfig : config = n.grantConfig candidate
      (n.grantedModalities (n.requestedModalities candidate)) := congrArg Prod.fst hresult
  generalize n.grantedModalities (n.requestedModalities candidate) = modalities at *
  have hget (key : String) (hkey : key ≠ "output_modalities") :
      get? (set config "output_modalities" v) key = get? config key := get?_set_of_ne hkey
  have hold (key : String) (hkeys : key ∉ ["output_modalities", "type", "model", "audio"]) :
      get? (set config "output_modalities" v) key = get? candidate key := by
    simp only [List.mem_cons, List.not_mem_nil, or_false, not_or] at hkeys
    rw [hget key hkeys.1, hconfig, get?_grantConfig, if_neg hkeys.1, if_neg hkeys.2.1,
      if_neg hkeys.2.2.1, if_neg hkeys.2.2.2]
  have haudioGet : get? (set config "output_modalities" v) "audio" =
      some (.dict (n.grantAudio (getDict candidate "audio"))) := by
    rw [hget _ (by decide), hconfig, get?_grantConfig]
    rfl
  have hrequested : n.grantedModalities (n.requestedModalities (set config "output_modalities" v)) =
      modalities := by
    rw [SessionNegotiation.requestedModalities, get?_set_self]
    exact hv.granted
  have hnamed : Named n (set config "output_modalities" v) := by
    refine ⟨?_, fun w hw => ?_, fun w hw => ?_⟩
    · rw [hold "instructions" (by decide)]
      exact (named_of_validateFixed hfixed).instructions
    · rw [hget _ (by decide), hconfig, get?_grantConfig] at hw
      exact (Option.some.inj hw).symm
    · rw [hget _ (by decide), hconfig, get?_grantConfig] at hw
      exact (Option.some.inj hw).symm
  have hgrant : n.grantConfig (set config "output_modalities" v) modalities = config := by
    have haudioSame : set (set config "output_modalities" v) "audio" (.dict (n.grantAudio
        (getDict (set config "output_modalities" v) "audio"))) = set config "output_modalities" v := by
      apply set_eq_self
      rw [getDict_of_some haudioGet, grantAudio_grantAudio, haudioGet]
    have hmodel : set (set config "output_modalities" v) "model" (.str n.model) =
        set config "output_modalities" v := by
      apply set_eq_self
      rw [hget _ (by decide), hconfig, get?_grantConfig]
      rfl
    have htype : set (set config "output_modalities" v) "type" (.str "realtime") =
        set config "output_modalities" v := by
      apply set_eq_self
      rw [hget _ (by decide), hconfig, get?_grantConfig]
      rfl
    rw [SessionNegotiation.grantConfig, haudioSame, hmodel, htype, set_set]
    apply set_eq_self
    rw [hconfig, get?_grantConfig, if_pos rfl]
  have hok : n.negotiateCandidate config .opened (set config "output_modalities" v) =
      .ok (n.grant (set config "output_modalities" v)
        (n.requestedModalities (set config "output_modalities" v))
        (n.grantedModalities (n.requestedModalities (set config "output_modalities" v)))) := by
    refine negotiateCandidate_eq_ok.mpr ⟨?_, ?_, ?_, ?_, rfl⟩
    · refine validateFixed_of_named hnamed fun _ => ?_
      rw [admissionFields_set]
      apply Value.eqv_refl
      apply distinct_admissionFields
      rw [hconfig]
      exact hdistinct.grantConfig modalities
    · obtain ⟨hinput, houtput, hturn⟩ := validateAudio_eq_ok.mp haudio
      rw [validateAudio_eq_ok, getDict_of_some haudioGet]
      refine ⟨?_, ?_, ?_⟩
      · exact validateFormat_setDefault hinput (getDict_grantAudio_input _)
      · exact validateFormat_setDefault houtput (getDict_grantAudio_output _)
      · rw [validateTurnDetection_grantAudio]
        exact hturn
    · rw [hrequested]
      exact hnonempty
    · have hsglang : getDict (set config "output_modalities" v) "sglang" =
          getDict candidate "sglang" := by
        rw [getDict, hold "sglang" (by decide)]
        rfl
      unfold SessionNegotiation.validateExtension at hextension ⊢
      rw [hsglang]
      exact hextension
  rw [hok, hrequested]
  refine ⟨_, congrArg Except.ok (Prod.ext ?_ rfl)⟩
  exact hgrant

theorem negotiate_again {state : SessionState} {current : Entries} {patch : Value}
    {granted : GrantedCapabilities} (hcurrent : Distinct current) (hpatch : patch.distinct = true)
    (h : n.negotiate referenceError current state patch = .ok (config, granted)) :
    ∃ granted', n.negotiate referenceError config .opened patch = .ok (config, granted') := by
  obtain ⟨entries, rfl, hvalid, hok⟩ := negotiate_eq_ok h
  have hentries : Distinct entries := hpatch
  have hnodup := (distinct_iff.mp hentries).1
  have hdistinct := hcurrent.mergeConfig hentries
  have habsorbs := absorbs_mergeConfig hentries current
  obtain ⟨hfixed, -, -, -, hresult⟩ := negotiateCandidate_eq_ok.mp hok
  have hconfig : config = n.grantConfig (mergeConfig current entries)
      (n.grantedModalities (n.requestedModalities (mergeConfig current entries))) :=
    congrArg Prod.fst hresult
  have hnamed := named_of_validateFixed hfixed
  have hmodalities (v : Value) (hv : get? entries "output_modalities" = some v) :
      get? (mergeConfig current entries) "output_modalities" = some v ∧
        Schema.strings.errorAt referenceError v = none := by
    have hget := get?_mergeConfig_of_some current hnodup hv
    have hlist := valid_get? hvalid modalities_mem_sessionFields hget
    obtain ⟨items, hitems⟩ := eq_list_of_valid hlist
    have hsame : mergeValue (get? current "output_modalities") v = v := by
      apply mergeValue_of_ne_dict
      rintro inner rfl
      revert hitems
      rcases get? current "output_modalities" with _ | (_ | _ | _ | _ | _ | _ | _ | _) <;>
        exact fun hitems => nomatch hitems
    rw [hsame] at hlist hget
    exact ⟨hget, hlist⟩
  have habsorbed : ∀ e ∈ entries, e.1 ≠ "output_modalities" → Absorbs config e := by
    intro e he hne
    rw [hconfig]
    unfold SessionNegotiation.grantConfig
    refine Absorbs.set_of_ne (Absorbs.set_same (Absorbs.set_same ?_ fun w hw => ?_) fun w hw => ?_)
      hne _
    · refine (habsorbs e he).deepen (isDict_of_valid hvalid audio_mem_sessionFields)
        ((distinct_iff.mp hentries).2 e he) fun patch hpatch => ?_
      exact absorbs_grantAudio hvalid.audio hpatch
    · rw [get?_set_of_ne (by decide)] at hw
      exact hnamed.model w hw
    · rw [get?_set_of_ne (by decide), get?_set_of_ne (by decide)] at hw
      exact hnamed.type w hw
  have hmerge := mergeConfig_except hnodup habsorbed fun v hv inner hdict => by
    obtain ⟨items, hitems⟩ := eq_list_of_valid (hmodalities v hv).2
    rw [hitems] at hdict
    cases hdict
  have hrequest : ∃ v, mergeConfig config entries = set config "output_modalities" v ∧
      Requests referenceError n
        (n.grantedModalities (n.requestedModalities (mergeConfig current entries))) v := by
    cases hv : get? entries "output_modalities" with
    | some v =>
      rw [hv] at hmerge
      refine ⟨v, hmerge, (hmodalities v hv).2, ?_⟩
      rw [← (hmodalities v hv).1]
      rfl
    | none =>
      rw [hv] at hmerge
      refine ⟨_, hmerge.trans (set_eq_self ?_).symm, requests_granted referenceError n _⟩
      rw [hconfig, get?_grantConfig, if_pos rfl]
  obtain ⟨v, hset, hv⟩ := hrequest
  have hvalidAgain : Valid referenceError (mergeConfig config entries) := by
    rw [hset, hconfig]
    refine valid_set (hvalid.grantConfig _) (by simp [sessionFields]) ?_
    simpa [sessionFields] using hv.valid
  rw [negotiate_of_valid hvalidAgain, hset]
  exact negotiateCandidate_again hdistinct hok hv

end Negotiation
