import SglangOmni.Lib.Dict
import Mathlib.Data.Finset.Basic
import Mathlib.Data.Finset.Dedup
import Mathlib.Data.Finset.SDiff

/-! `AggregatedInput`: a stage with several sources waits until each source that a request is expected from
has sent its payload, and merges them.  Which sources those are may be known only from some payloads. -/

namespace Stage.Input

open Lib

variable {π : Type}

/-- What `expected_sources_fn` returns: one source, several things, or nothing that can be iterated. -/
inductive Resolved where
  | one (source : String)
  | many (items : List (Option String))
  | unsupported
deriving DecidableEq, Repr

/-- An `AggregatedInput`'s settings.  `merge` is the stage's own function. -/
structure Config (π : Type) where
  sources : Finset String
  merge : Dict String π → π
  expectedSourcesFn : Option (String → String → π → Option Resolved)

structure State (π : Type) where
  pending : Dict String (Dict String π) := ∅
  expectedSources : Dict String (Finset String) := ∅

/-- What `receive` does: it raises, returns `None`, or returns the merged payload. -/
inductive Outcome (π : Type) where
  | raised
  | waiting
  | merged (payload : π)

namespace Config

variable (cfg : Config π)

/-- `normalize_expected_sources`, which raises where the sources are no nonempty set of known ones; what is
no text is `none`. -/
def normalizeExpectedSources : Resolved → Option (Finset String)
  | .one source => if {source} ⊆ cfg.sources then some {source} else none
  | .many items =>
    let expected := (items.filterMap id).toFinset
    if items = [] ∨ none ∈ items ∨ ¬ expected ⊆ cfg.sources then none else some expected
  | .unsupported => none

/-- The rest of `receive` once it is known which sources are expected. -/
def check (s : State π) (requestId : String) (inputs : Dict String π) (expected : Finset String) :
    State π × Outcome π :=
  let pendingSources := inputs.keys.toFinset
  if (pendingSources \ expected).Nonempty then (s, .raised)
  else if pendingSources = expected then
    ({ pending := s.pending.erase requestId, expectedSources := s.expectedSources.erase requestId },
      .merged (cfg.merge inputs))
  else (s, .waiting)

def receive (s : State π) (requestId fromStage : String) (data : π) : State π × Outcome π :=
  if fromStage ∉ cfg.sources then (s, .waiting)
  else
    let inputs := ((s.pending.get? requestId).getD ∅).set fromStage data
    let s := { s with pending := s.pending.set requestId inputs }
    match s.expectedSources.get? requestId, cfg.expectedSourcesFn with
    | some expected, _ => cfg.check s requestId inputs expected
    | none, none => cfg.check s requestId inputs cfg.sources
    | none, some resolve =>
      match resolve requestId fromStage data with
      | none => (s, .waiting)
      | some resolved =>
        match cfg.normalizeExpectedSources resolved with
        | none => (s, .raised)
        | some expected =>
          cfg.check { s with expectedSources := s.expectedSources.set requestId expected } requestId inputs
            expected

end Config

def cancel (s : State π) (requestId : String) : State π where
  pending := s.pending.erase requestId
  expectedSources := s.expectedSources.erase requestId

inductive Action (π : Type) where
  | receive (requestId fromStage : String) (data : π)
  | cancel (requestId : String)

def Action.requestId : Action π → String
  | .receive requestId _ _ | .cancel requestId => requestId

variable (cfg : Config π)

/-- One call, and what a `receive` does. -/
def step (s : State π) : Action π → State π × Option (Outcome π)
  | .receive requestId fromStage data =>
    let (s, outcome) := cfg.receive s requestId fromStage data
    (s, some outcome)
  | .cancel requestId => (cancel s requestId, none)

/-- The calls one after another, and what each `receive` of a request does. -/
def run (s : State π) : List (Action π) → State π × List (String × Outcome π)
  | [] => (s, [])
  | action :: rest =>
    let (s, outcome) := step cfg s action
    let (s, outcomes) := run s rest
    (s, (outcome.map (action.requestId, ·)).toList ++ outcomes)

def outcomesOf (requestId : String) (outcomes : List (String × Outcome π)) : List (Outcome π) :=
  (outcomes.filter (·.1 = requestId)).map Prod.snd

def Resolved.Names (expected : Finset String) : Resolved → Prop
  | .one source => expected = {source}
  | .many items => none ∉ items ∧ expected = (items.filterMap id).toFinset
  | .unsupported => False

/-- The sources that a request is expected from: all of them, or one set that the resolver names for some
of its payloads and never contradicts. -/
inductive Expects (requestId : String) (data : String → π) (expected : Finset String) : Prop where
  | all (hfn : cfg.expectedSourcesFn = none) (hall : expected = cfg.sources)
  | resolved {resolve : String → String → π → Option Resolved} (hfn : cfg.expectedSourcesFn = some resolve)
    (hnames : ∀ source ∈ expected, ∀ resolved,
      resolve requestId source (data source) = some resolved → resolved.Names expected)
    (hsome : ∃ source ∈ expected, resolve requestId source (data source) ≠ none)

/-! ### One request among others -/

variable {cfg} {s s' : State π} {requestId : String} {data : String → π} {expected : Finset String}

def Absent (s : State π) (requestId : String) : Prop :=
  s.pending.get? requestId = none ∧ s.expectedSources.get? requestId = none

structure Waits (cfg : Config π) (s : State π) (requestId : String) (data : String → π)
    (expected : Finset String) (arrived : List String) : Prop where
  pending : ((s.pending.get? requestId).getD ∅).entries = arrived.map fun source => (source, data source)
  expects : s.expectedSources.get? requestId = none ∨ s.expectedSources.get? requestId = some expected
  resolved : ∀ resolve, cfg.expectedSourcesFn = some resolve → s.expectedSources.get? requestId = none →
    ∀ source ∈ arrived, resolve requestId source (data source) = none

theorem Absent.waits (h : Absent s requestId) : Waits cfg s requestId data expected [] where
  pending := by rw [h.1]; rfl
  expects := .inl h.2
  resolved _ _ _ _ hmem := absurd hmem List.not_mem_nil

theorem check_other (cfg : Config π) {inputs : Dict String π} {id : String} (hne : id ≠ requestId) :
    (cfg.check s requestId inputs expected).1.pending.get? id = s.pending.get? id
      ∧ (cfg.check s requestId inputs expected).1.expectedSources.get? id = s.expectedSources.get? id := by
  unfold Config.check
  simp only
  split
  · exact ⟨rfl, rfl⟩
  · split
    · exact ⟨(Dict.get?_erase _ _ _).trans (if_neg hne), (Dict.get?_erase _ _ _).trans (if_neg hne)⟩
    · exact ⟨rfl, rfl⟩

theorem step_other (cfg : Config π) (s : State π) (action : Action π) (hne : requestId ≠ action.requestId) :
    (step cfg s action).1.pending.get? requestId = s.pending.get? requestId
      ∧ (step cfg s action).1.expectedSources.get? requestId = s.expectedSources.get? requestId := by
  cases action with
  | cancel id =>
    exact ⟨(Dict.get?_erase _ _ _).trans (if_neg hne), (Dict.get?_erase _ _ _).trans (if_neg hne)⟩
  | receive id source payload =>
    have hset : ∀ (d : Dict String (Dict String π)) inputs,
        (d.set id inputs).get? requestId = d.get? requestId :=
      fun d inputs => (Dict.get?_set _ _ _ _).trans (if_neg hne)
    simp only [step, Config.receive]
    split
    · exact ⟨rfl, rfl⟩
    · split
      · obtain ⟨hpending, hexpected⟩ := check_other cfg hne
        exact ⟨hpending.trans (hset _ _), hexpected⟩
      · obtain ⟨hpending, hexpected⟩ := check_other cfg hne
        exact ⟨hpending.trans (hset _ _), hexpected⟩
      · split
        · exact ⟨hset _ _, rfl⟩
        · split
          · exact ⟨hset _ _, rfl⟩
          · obtain ⟨hpending, hexpected⟩ := check_other cfg hne
            exact ⟨hpending.trans (hset _ _),
              hexpected.trans ((Dict.get?_set _ _ _ _).trans (if_neg hne))⟩

theorem setEntries_of_not_mem {source : String} {payload : π} {l : List (String × π)}
    (h : source ∉ l.map Prod.fst) : Dict.setEntries source payload l = l ++ [(source, payload)] := by
  induction l with
  | nil => rfl
  | cons e rest ih =>
    obtain ⟨hhead, hrest⟩ := not_or.mp (mt List.mem_cons.mpr h)
    rw [Dict.setEntries, if_neg (Ne.symm hhead), ih hrest]
    rfl

theorem normalize_of_names {resolved : Resolved} (h : resolved.Names expected) (hne : expected.Nonempty)
    (hsub : expected ⊆ cfg.sources) : cfg.normalizeExpectedSources resolved = some expected := by
  cases resolved with
  | one source =>
    cases h
    exact if_pos hsub
  | many items =>
    obtain ⟨hnone, rfl⟩ := h
    refine if_neg ?_
    rintro (rfl | hmem | hnot)
    · exact absurd hne (by simp)
    · exact hnone hmem
    · exact hnot hsub
  | unsupported => exact h.elim

theorem check_waits {inputs : Dict String π} {arrived : List String}
    (hinputs : inputs.entries = arrived.map fun source => (source, data source))
    (hsub : ∀ source ∈ arrived, source ∈ expected) :
    cfg.check s requestId inputs expected
      = if arrived.toFinset = expected then
          ({ pending := s.pending.erase requestId, expectedSources := s.expectedSources.erase requestId },
            .merged (cfg.merge inputs))
        else (s, .waiting) := by
  have hkeys : inputs.keys = arrived := by
    rw [Dict.keys, hinputs, List.map_map]
    exact List.map_id _
  have hnone : ¬ (inputs.keys.toFinset \ expected).Nonempty := by
    rintro ⟨source, hmem⟩
    obtain ⟨hin, hout⟩ := Finset.mem_sdiff.mp hmem
    rw [hkeys, List.mem_toFinset] at hin
    exact hout (hsub source hin)
  unfold Config.check
  simp only
  rw [if_neg hnone, hkeys]

theorem Waits.receive {arrived : List String} {source : String}
    (h : Waits cfg s requestId data expected arrived)
    (hexpects : Expects cfg requestId data expected) (hsources : expected ⊆ cfg.sources)
    (hsource : source ∈ expected) (hnew : source ∉ arrived) (hsub : ∀ source ∈ arrived, source ∈ expected) :
    ∃ inputs : Dict String π,
      inputs.entries = (arrived ++ [source]).map (fun source => (source, data source))
      ∧ if (arrived ++ [source]).toFinset = expected then
          (cfg.receive s requestId source (data source)).2 = .merged (cfg.merge inputs)
            ∧ Absent (cfg.receive s requestId source (data source)).1 requestId
        else (cfg.receive s requestId source (data source)).2 = .waiting
          ∧ Waits cfg (cfg.receive s requestId source (data source)).1 requestId data expected
            (arrived ++ [source]) := by
  let inputs := ((s.pending.get? requestId).getD ∅).set source (data source)
  have hinputs : inputs.entries = (arrived ++ [source]).map fun source => (source, data source) := by
    have hkeys : source ∉ ((s.pending.get? requestId).getD ∅).entries.map Prod.fst := by
      rw [h.pending, List.map_map]
      intro hmem
      obtain ⟨other, hother, rfl⟩ := List.mem_map.mp hmem
      exact hnew hother
    show Dict.setEntries source (data source) _ = _
    rw [setEntries_of_not_mem hkeys, h.pending, List.map_append]
    rfl
  have hall : ∀ other ∈ arrived ++ [source], other ∈ expected := fun other hother =>
    (List.mem_append.mp hother).elim (hsub other) fun hlast => List.mem_singleton.mp hlast ▸ hsource
  let kept : State π := { s with pending := s.pending.set requestId inputs }
  have hpending : ((kept.pending.get? requestId).getD ∅).entries
      = (arrived ++ [source]).map fun source => (source, data source) := by
    rw [Dict.get?_set_self]
    exact hinputs
  -- Where the expected sources are known, the payload is merged or waits with them known.
  have hknown : ∀ after : State π, after.pending = kept.pending →
      (after.expectedSources.get? requestId = some expected
        ∨ (cfg.expectedSourcesFn = none ∧ after.expectedSources.get? requestId = none)) →
      if (arrived ++ [source]).toFinset = expected then
        (cfg.check after requestId inputs expected).2 = .merged (cfg.merge inputs)
          ∧ Absent (cfg.check after requestId inputs expected).1 requestId
      else (cfg.check after requestId inputs expected).2 = .waiting
        ∧ Waits cfg (cfg.check after requestId inputs expected).1 requestId data expected
          (arrived ++ [source]) := by
    intro after hafter hexpected
    rw [check_waits hinputs hall]
    split
    · exact ⟨rfl, Dict.get?_erase_self _ _, Dict.get?_erase_self _ _⟩
    · refine ⟨rfl, ⟨by rw [hafter]; exact hpending, ?_, ?_⟩⟩
      · exact hexpected.elim .inr fun hstatic => .inl hstatic.2
      · intro resolve hfn hnone
        rcases hexpected with hsome | ⟨hstatic, -⟩
        · rw [hsome] at hnone
          cases hnone
        · rw [hstatic] at hfn
          cases hfn
  refine ⟨inputs, hinputs, ?_⟩
  have hreceive : cfg.receive s requestId source (data source)
      = match kept.expectedSources.get? requestId, cfg.expectedSourcesFn with
        | some expected, _ => cfg.check kept requestId inputs expected
        | none, none => cfg.check kept requestId inputs cfg.sources
        | none, some resolve =>
          match resolve requestId source (data source) with
          | none => (kept, .waiting)
          | some resolved =>
            match cfg.normalizeExpectedSources resolved with
            | none => (kept, .raised)
            | some expected =>
              cfg.check { kept with expectedSources := kept.expectedSources.set requestId expected } requestId
                inputs expected := by
    unfold Config.receive
    rw [if_neg (not_not_intro (hsources hsource))]
  rw [hreceive]
  rcases h.expects with hnone | hsome
  · rw [show kept.expectedSources.get? requestId = none from hnone]
    cases hexpects with
    | all hfn hall =>
      rw [hfn]
      simp only
      rw [← hall]
      exact hknown kept rfl (.inr ⟨hfn, hnone⟩)
    | @resolved resolve hfn hnames hsome =>
      rw [hfn]
      simp only
      cases hresolve : resolve requestId source (data source) with
      | none =>
        have hunresolved : ∀ other ∈ arrived ++ [source], resolve requestId other (data other) = none := by
          intro other hother
          rcases List.mem_append.mp hother with hother | hother
          · exact h.resolved resolve hfn hnone other hother
          · rw [List.mem_singleton.mp hother]
            exact hresolve
        -- Some payload that is still to come names the set.
        have hmore : (arrived ++ [source]).toFinset ≠ expected := by
          intro he
          obtain ⟨other, hother, hnot⟩ := hsome
          rw [← he, List.mem_toFinset] at hother
          exact hnot (hunresolved other hother)
        rw [if_neg hmore]
        refine ⟨rfl, ⟨hpending, .inl hnone, fun resolve' hfn' _ => ?_⟩⟩
        cases hfn.symm.trans hfn'
        exact hunresolved
      | some resolved =>
        simp only
        rw [normalize_of_names (hnames source hsource resolved hresolve) ⟨source, hsource⟩ hsources]
        exact hknown _ rfl (.inl (Dict.get?_set_self _ _ _))
  · rw [show kept.expectedSources.get? requestId = some expected from hsome]
    exact hknown kept rfl (.inl hsome)

/-! ### The run -/

theorem outcomesOf_append (first second : List (String × Outcome π)) :
    outcomesOf requestId (first ++ second) = outcomesOf requestId first ++ outcomesOf requestId second := by
  rw [outcomesOf, List.filter_append, List.map_append]
  rfl

theorem run_cons (action : Action π) (rest : List (Action π)) :
    run cfg s (action :: rest)
      = ((run cfg (step cfg s action).1 rest).1,
        ((step cfg s action).2.map (action.requestId, ·)).toList ++ (run cfg (step cfg s action).1 rest).2) :=
  rfl

theorem run_others (cfg : Config π) {actions : List (Action π)} (h : ∀ action ∈ actions, requestId ≠ action.requestId) :
    outcomesOf requestId (run cfg s actions).2 = []
      ∧ (run cfg s actions).1.pending.get? requestId = s.pending.get? requestId
      ∧ (run cfg s actions).1.expectedSources.get? requestId = s.expectedSources.get? requestId := by
  induction actions generalizing s with
  | nil => exact ⟨rfl, rfl, rfl⟩
  | cons action rest ih =>
    have hne := h action List.mem_cons_self
    obtain ⟨houtcomes, hpending, hexpected⟩ := ih (s := (step cfg s action).1) fun action hmem =>
      h action (List.mem_cons_of_mem _ hmem)
    obtain ⟨hpending', hexpected'⟩ := step_other cfg s action hne
    rw [run_cons]
    refine ⟨?_, hpending.trans hpending', hexpected.trans hexpected'⟩
    rw [outcomesOf_append, houtcomes, List.append_nil]
    cases (step cfg s action).2 with
    | none => rfl
    | some outcome => simp [outcomesOf, Ne.symm hne]

theorem Waits.run {arrived rest : List String} {actions : List (Action π)}
    (h : Waits cfg s requestId data expected arrived) (hexpects : Expects cfg requestId data expected)
    (hsources : expected ⊆ cfg.sources) (hnodup : (arrived ++ rest).Nodup)
    (hexpected : (arrived ++ rest).toFinset = expected) (hrest : rest ≠ [])
    (hactions : actions.filter (fun action => requestId = action.requestId)
      = rest.map fun source => .receive requestId source (data source)) :
    ∃ inputs : Dict String π,
      inputs.entries = (arrived ++ rest).map (fun source => (source, data source))
        ∧ outcomesOf requestId (run cfg s actions).2
          = List.replicate (rest.length - 1) .waiting ++ [.merged (cfg.merge inputs)]
        ∧ Absent (run cfg s actions).1 requestId := by
  induction actions generalizing s arrived rest with
  | nil =>
    cases rest with
    | nil => exact absurd rfl hrest
    | cons source rest => cases hactions
  | cons action actions ih =>
    by_cases hown : requestId = action.requestId
    · rw [List.filter_cons_of_pos (by simpa using hown)] at hactions
      cases rest with
      | nil => cases hactions
      | cons source rest =>
        obtain ⟨rfl, htail⟩ := List.cons.inj hactions
        have hmem : ∀ other ∈ arrived ++ source :: rest, other ∈ expected := fun other hother => by
          rw [← hexpected]
          exact List.mem_toFinset.mpr hother
        have hnew : source ∉ arrived := fun hin =>
          (List.nodup_append.mp hnodup).2.2 source hin source List.mem_cons_self rfl
        obtain ⟨inputs, hinputs, hreceive⟩ := h.receive hexpects hsources
          (hmem source (List.mem_append_right _ List.mem_cons_self)) hnew
          fun other hother => hmem other (List.mem_append_left _ hother)
        rw [run_cons]
        have hfirst : ∀ outcome, (cfg.receive s requestId source (data source)).2 = outcome →
            outcomesOf requestId (((step cfg s (.receive requestId source (data source))).2.map
              ((Action.receive requestId source (data source)).requestId, ·)).toList) = [outcome] := by
          rintro outcome rfl
          simp [step, outcomesOf, Action.requestId]
        cases rest with
        | nil =>
          rw [if_pos hexpected] at hreceive
          obtain ⟨hmerged, habsent⟩ := hreceive
          have hothers : ∀ action ∈ actions, requestId ≠ action.requestId := fun action hin hid =>
            absurd (List.filter_eq_nil_iff.mp htail action hin) (by simpa using hid)
          obtain ⟨houtcomes, hpending, hexpected'⟩ := run_others cfg
            (s := (cfg.receive s requestId source (data source)).1) hothers
          refine ⟨inputs, hinputs, ?_, hpending.trans habsent.1, hexpected'.trans habsent.2⟩
          rw [outcomesOf_append, hfirst _ hmerged]
          exact congrArg (_ ++ ·) houtcomes
        | cons next rest =>
          have hmore : (arrived ++ [source]).toFinset ≠ expected := by
            intro he
            have hnext : next ∈ arrived ++ [source] := by
              rw [← List.mem_toFinset, he]
              exact hmem next (List.mem_append_right _ (List.mem_cons_of_mem _ List.mem_cons_self))
            rw [← List.singleton_append, ← List.append_assoc] at hnodup
            exact (List.nodup_append.mp hnodup).2.2 next hnext next List.mem_cons_self rfl
          rw [if_neg hmore] at hreceive
          obtain ⟨hwaiting, hwaits⟩ := hreceive
          have hsplit : arrived ++ source :: next :: rest = (arrived ++ [source]) ++ next :: rest := by
            rw [List.append_assoc]
            rfl
          rw [hsplit] at hnodup hexpected ⊢
          obtain ⟨inputs', hinputs', houtcomes, habsent⟩ :=
            ih hwaits hnodup hexpected (List.cons_ne_nil _ _) htail
          refine ⟨inputs', hinputs', ?_, habsent⟩
          rw [outcomesOf_append, hfirst _ hwaiting]
          exact congrArg ([Outcome.waiting] ++ ·) houtcomes
    · rw [List.filter_cons_of_neg (by simpa using hown)] at hactions
      obtain ⟨hpending, hexpected'⟩ := step_other cfg s action hown
      have hwaits : Waits cfg (step cfg s action).1 requestId data expected arrived :=
        { pending := by rw [hpending]; exact h.pending
          expects := by rw [hexpected']; exact h.expects
          resolved := by rw [hexpected']; exact h.resolved }
      obtain ⟨inputs, hinputs, houtcomes, habsent⟩ := ih hwaits hnodup hexpected hrest hactions
      refine ⟨inputs, hinputs, ?_, habsent⟩
      rw [run_cons, outcomesOf_append, houtcomes]
      have hnone : outcomesOf requestId
          ((step cfg s action).2.map (action.requestId, ·)).toList = [] := by
        cases (step cfg s action).2 with
        | none => rfl
        | some outcome => simp [outcomesOf, Ne.symm hown]
      rw [hnone]
      rfl

/-- The payloads of a request come in any order, one from each source that it is expected from, among any
calls for other requests: all but the last wait, the last is merged with the others, and nothing is kept. -/
theorem inputs_merged (cfg : Config π) (s : State π) (requestId : String) (data : String → π)
    (expected : Finset String) (order : List String) (actions : List (Action π))
    (hstart : Absent s requestId) (hexpects : Expects cfg requestId data expected)
    (hsources : expected ⊆ cfg.sources) (hne : expected.Nonempty) (hnodup : order.Nodup)
    (horder : order.toFinset = expected)
    (hactions : actions.filter (fun action => requestId = action.requestId)
      = order.map fun source => .receive requestId source (data source)) :
    ∃ inputs : Dict String π,
      (∀ source payload, inputs.get? source = some payload ↔ source ∈ expected ∧ payload = data source)
        ∧ outcomesOf requestId (run cfg s actions).2
          = List.replicate (order.length - 1) .waiting ++ [.merged (cfg.merge inputs)]
        ∧ Absent (run cfg s actions).1 requestId := by
  have hrest : order ≠ [] := by
    rintro rfl
    rw [← horder] at hne
    exact absurd hne (by simp)
  obtain ⟨inputs, hinputs, houtcomes, habsent⟩ :=
    hstart.waits.run hexpects hsources hnodup horder hrest hactions
  refine ⟨inputs, fun source payload => ?_, houtcomes, habsent⟩
  rw [← Dict.mem_entries_iff, hinputs, ← horder, List.mem_toFinset]
  constructor
  · intro hmem
    obtain ⟨other, hother, he⟩ := List.mem_map.mp hmem
    obtain ⟨rfl, rfl⟩ := Prod.mk.inj he
    exact ⟨hother, rfl⟩
  · rintro ⟨hmem, rfl⟩
    exact List.mem_map.mpr ⟨source, hmem, rfl⟩

/-- Two sources, of which the second one's payload says that both are expected. -/
def twoSources : Config Nat where
  sources := {"audio", "text"}
  merge inputs := (inputs.entries.map Prod.snd).sum
  expectedSourcesFn := some fun _ source _ =>
    if source = "text" then some (.many [some "text", some "audio"]) else none

theorem inputs_merged_twoSources :
    ∃ inputs : Dict String Nat,
      (∀ source payload, inputs.get? source = some payload
        ↔ source ∈ ({"audio", "text"} : Finset String) ∧ payload = source.length)
        ∧ outcomesOf "r" (run twoSources {} [.receive "r" "audio" 5, .receive "q" "text" 1, .cancel "q",
            .receive "r" "text" 4]).2
          = [.waiting, .merged (twoSources.merge inputs)]
        ∧ Absent (run twoSources {} [.receive "r" "audio" 5, .receive "q" "text" 1, .cancel "q",
            .receive "r" "text" 4]).1 "r" := by
  have hexpects : Expects twoSources "r" String.length {"audio", "text"} := by
    refine .resolved rfl (fun source hsource resolved h => ?_) ⟨"text", by decide, by decide⟩
    split at h
    · cases h
      exact ⟨by decide, by decide⟩
    · cases h
  exact inputs_merged twoSources {} "r" String.length {"audio", "text"} ["audio", "text"]
    [.receive "r" "audio" 5, .receive "q" "text" 1, .cancel "q", .receive "r" "text" 4]
    ⟨rfl, rfl⟩ hexpects (by decide) (by decide) (by decide) (by decide) rfl

end Stage.Input
