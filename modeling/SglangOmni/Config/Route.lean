import SglangOmni.Config.Accepted
import SglangOmni.Lib.Chase

/-! `session_route`, the chain of stages that a Session follows from the entry stage, and when it comes
to an end. -/

namespace Config

open Lib

/-- What `session_route` raises: the `KeyError` of an unknown stage, or the `ValueError` of a stage that
does not have one successor. -/
inductive RouteError
  | unknownStage (name : String)
  | forks (stage : String) (following : List String)
  deriving DecidableEq

namespace PipelineConfig

variable (config : PipelineConfig)

/-- The loop of `session_route` at `stage`, with `before` the stages of the route before it. -/
def routeFrom : Nat → List String → String → Option (Except RouteError (List String))
  | 0, _, _ => none
  | fuel + 1, before, stage =>
    match config.stageNamed stage with
    | none => some (.error (.unknownStage stage))
    | some declared =>
      match declared.next with
      | none => some (.ok (before ++ [stage]))
      | some (.stages [following]) => routeFrom fuel (before ++ [stage]) following
      | some (.stage following) => routeFrom fuel (before ++ [stage]) following
      | some (.stages following) => some (.error (.forks stage following))

/-- `session_route`; nothing is returned where the fuel runs out. -/
def sessionRoute (fuel : Nat) : Option (Except RouteError (List String)) :=
  config.routeFrom fuel [] config.resolvedEntryStage

def onlySuccessor (stage : String) : Option String :=
  match (config.stageNamed stage).bind (·.next) with
  | some (.stage following) => some following
  | some (.stages [following]) => some following
  | _ => none

def conclude (route : List String) (last : String) : Except RouteError (List String) :=
  match config.stageNamed last with
  | none => .error (.unknownStage last)
  | some declared =>
    match declared.next with
    | none => .ok route
    | some next => .error (.forks last next.targets)

theorem routeFrom_succ (fuel : Nat) (before : List String) (stage : String) :
    config.routeFrom (fuel + 1) before stage =
      match config.onlySuccessor stage with
      | some following => config.routeFrom fuel (before ++ [stage]) following
      | none => some (config.conclude (before ++ [stage]) stage) := by
  rw [routeFrom, onlySuccessor, conclude]
  cases config.stageNamed stage with
  | none => rfl
  | some declared =>
    simp only [Option.bind_some]
    match declared.next with
    | none => rfl
    | some (.stage following) => rfl
    | some (.stages []) => rfl
    | some (.stages [following]) => rfl
    | some (.stages (_ :: _ :: _)) => rfl

theorem routeFrom_eq (fuel : Nat) (before : List String) (stage : String) :
    match chase config.onlySuccessor fuel stage with
    | none => config.routeFrom fuel before stage = none
    | some rest => ∃ init last, rest = init ++ [last] ∧ config.onlySuccessor last = none ∧
        config.routeFrom fuel before stage = some (config.conclude (before ++ rest) last) := by
  induction fuel generalizing before stage with
  | zero => rfl
  | succ fuel ih =>
    rw [chase, routeFrom_succ]
    cases hnext : config.onlySuccessor stage with
    | none => exact ⟨[], stage, rfl, hnext, rfl⟩
    | some following =>
      have hrest := ih (before ++ [stage]) following
      cases hchase : chase config.onlySuccessor fuel following with
      | none =>
        rw [hchase] at hrest
        simp only [hchase, Option.map_none]
        exact hrest
      | some rest =>
        rw [hchase] at hrest
        obtain ⟨init, last, hsplit, hlast, hroute⟩ := hrest
        simp only [hchase, Option.map_some]
        refine ⟨stage :: init, last, by rw [hsplit]; rfl, hlast, ?_⟩
        rw [List.append_assoc] at hroute
        exact hroute

/-- The route of a Session: a chain of single successors without repetition, from the entry stage to a
terminal stage. -/
structure IsRoute (route : List String) : Prop where
  entry : route.head? = some config.resolvedEntryStage
  chain : route.IsChain (Follows config.onlySuccessor)
  nodup : route.Nodup
  terminal : ∃ name stage, route.getLast? = some name ∧ config.stageNamed name = some stage ∧
    stage.terminal = true

/-- `session_route` ends as it should: with a route, or with `ValueError` at a stage that declares several
successors. -/
def EndsRoute : Prop :=
  (∃ fuel route, config.sessionRoute fuel = some (.ok route) ∧ config.IsRoute route) ∨
    ∃ fuel name stage following, config.sessionRoute fuel = some (.error (.forks name following)) ∧
      config.stageNamed name = some stage ∧ stage.next = some (.stages following) ∧
      1 < following.length

/-- Following single successors from the entry stage meets no stage twice, and none whose list of
successors is empty. -/
def EndsChain : Prop :=
  ∀ name, Leads config.onlySuccessor config.resolvedEntryStage name →
    ¬ OnCycle config.onlySuccessor name ∧
    ∀ stage, config.stageNamed name = some stage → stage.next ≠ some (.stages [])

end PipelineConfig

section Accepted

variable {digits : Digits} {config : PipelineConfig}

theorem stageNamed_some {name : String} {stage : StageConfig}
    (h : config.stageNamed name = some stage) : stage ∈ config.stages ∧ stage.name = name :=
  ⟨List.mem_of_find?_eq_some h, by simpa using List.find?_some h⟩

theorem Accepted.stageNamed (_ : Accepted digits config) {name : String}
    (h : name ∈ config.stages.map (·.name)) : ∃ stage, config.stageNamed name = some stage := by
  obtain ⟨stage, hstage, hname⟩ := List.mem_map.mp h
  apply Option.isSome_iff_exists.mp
  rw [PipelineConfig.stageNamed, List.find?_isSome]
  exact ⟨stage, hstage, by simpa using hname⟩

theorem Accepted.onlySuccessor_mem (h : Accepted digits config) (name : String) (following : String)
    (hnext : config.onlySuccessor name = some following) :
    following ∈ config.stages.map (·.name) := by
  unfold PipelineConfig.onlySuccessor at hnext
  cases hstage : config.stageNamed name with
  | none =>
    rw [hstage] at hnext
    cases hnext
  | some stage =>
    have hwired := h.wired stage (stageNamed_some hstage).1
    rw [hstage, Option.bind_some] at hnext
    split at hnext
    · next target hdeclared =>
      cases hnext
      exact hwired.targets_mem _ hdeclared _ List.mem_cons_self
    · next target hdeclared =>
      cases hnext
      exact hwired.targets_mem _ hdeclared _ List.mem_cons_self
    · cases hnext

theorem Accepted.mem_of_leads (h : Accepted digits config) {name : String}
    (hleads : Leads config.onlySuccessor config.resolvedEntryStage name) :
    name ∈ config.stages.map (·.name) := by
  induction hleads with
  | refl => exact h.entry_mem
  | tail _ hstep _ => exact h.onlySuccessor_mem _ _ hstep

theorem next_of_onlySuccessor_none {name : String} {stage : StageConfig}
    (hstage : config.stageNamed name = some stage) (h : config.onlySuccessor name = none) :
    stage.next = none ∨ ∃ following, stage.next = some (.stages following) ∧ following.length ≠ 1 := by
  unfold PipelineConfig.onlySuccessor at h
  rw [hstage, Option.bind_some] at h
  match hnext : stage.next with
  | none => exact .inl rfl
  | some (.stage following) =>
    rw [hnext] at h
    cases h
  | some (.stages []) => exact .inr ⟨[], rfl, by decide⟩
  | some (.stages [following]) =>
    rw [hnext] at h
    cases h
  | some (.stages (a :: b :: rest)) => exact .inr ⟨a :: b :: rest, rfl, by simp⟩

theorem Accepted.endsRoute (h : Accepted digits config) (hends : config.EndsChain) :
    config.EndsRoute := by
  obtain ⟨rest, hchase⟩ := exists_chase h.entry_mem
    (fun name _ following hnext => h.onlySuccessor_mem name following hnext)
    fun name hleads => (hends name hleads).1
  have hof := ChaseOf.of_chase hchase
  have hroute := config.routeFrom_eq (config.stages.map (·.name)).length [] config.resolvedEntryStage
  rw [hchase] at hroute
  obtain ⟨init, last, rfl, hnone, hroute⟩ := hroute
  have hleads : Leads config.onlySuccessor config.resolvedEntryStage last :=
    hof.mem_iff.mp (List.mem_append_right _ (List.mem_singleton_self _))
  obtain ⟨stage, hstage⟩ := h.stageNamed (h.mem_of_leads hleads)
  simp only [List.nil_append, PipelineConfig.conclude, hstage] at hroute
  rcases next_of_onlySuccessor_none hstage hnone with hnext | ⟨following, hnext, hlength⟩
  · rw [hnext] at hroute
    refine .inl ⟨_, _, hroute, ?_, hof.isChain, hof.nodup, last, stage, ?_, hstage, ?_⟩
    · obtain ⟨tail, htail⟩ := hof.head_eq
      rw [htail]
      rfl
    · exact List.getLast?_concat
    · exact (h.wired stage (stageNamed_some hstage).1).terminal_iff.mpr hnext
  · rw [hnext] at hroute
    refine .inr ⟨_, last, stage, following, hroute, hstage, hnext, ?_⟩
    have hne : following ≠ [] := fun hnil => (hends last hleads).2 stage hstage (hnil ▸ hnext)
    have := List.length_pos_iff.mpr hne
    omega

theorem endsChain_of_endsRoute (hends : config.EndsRoute) : config.EndsChain := by
  obtain ⟨fuel, result, hresult, hnot⟩ : ∃ fuel result, config.sessionRoute fuel = some result ∧
      ∀ name, result ≠ .error (.forks name []) := by
    rcases hends with ⟨fuel, route, hroute, -⟩ | ⟨fuel, name, -, following, hroute, -, -, hlength⟩
    · exact ⟨fuel, _, hroute, nofun⟩
    · refine ⟨fuel, _, hroute, fun name' heq => ?_⟩
      cases heq
      exact absurd hlength (by decide)
  have hroute := config.routeFrom_eq fuel [] config.resolvedEntryStage
  cases hchase : chase config.onlySuccessor fuel config.resolvedEntryStage with
  | none =>
    rw [hchase] at hroute
    have hnone : config.sessionRoute fuel = none := hroute
    rw [hnone] at hresult
    cases hresult
  | some rest =>
    rw [hchase] at hroute
    obtain ⟨init, last, rfl, -, hroute⟩ := hroute
    have hof := ChaseOf.of_chase hchase
    intro name hleads
    refine ⟨hof.not_onCycle hleads, fun stage hstage hnext => ?_⟩
    -- a stage with an empty list has no successor, so it is the last of the route
    have hnone : config.onlySuccessor name = none := by
      simp only [PipelineConfig.onlySuccessor, hstage, Option.bind_some, hnext]
    have hlast : last = name := by
      have hget := hof.getLast?_eq (hof.mem_iff.mpr hleads) hnone
      rw [List.getLast?_concat] at hget
      exact Option.some.inj hget
    have hforks : config.sessionRoute fuel = some (.error (.forks name [])) := by
      show config.routeFrom fuel [] config.resolvedEntryStage = _
      rw [hroute, hlast]
      simp only [PipelineConfig.conclude, hstage, hnext]
      rfl
    rw [hforks] at hresult
    exact hnot name (Option.some.inj hresult).symm

/-- An accepted configuration has a route for its Sessions, or forks, exactly if the chain of its
stages ends. -/
theorem sessionRoute_ends_iff (digits : Digits) (config : PipelineConfig)
    (h : config.validate digits = .ok ()) : config.EndsRoute ↔ config.EndsChain :=
  ⟨endsChain_of_endsRoute, (accepted_of_validate h).endsRoute⟩

end Accepted

def chainConfig (stages : List (String × Option Next)) : PipelineConfig where
  modelPath := "model"
  stages := stages.map fun (name, next) =>
    { name, factoryPath := "factory", next, terminal := next.isNone, process := some "main",
      tp_pos := Nat.one_pos, process_ne := by decide }

theorem sessionRoute_ends_chain :
    (chainConfig [("thinker", some (.stage "talker")), ("talker", none)]).EndsRoute ↔
      (chainConfig [("thinker", some (.stage "talker")), ("talker", none)]).EndsChain :=
  sessionRoute_ends_iff asciiDigits _ (by decide +kernel)

/-- Two stages that follow each other pass the validation, and `session_route` never ends. -/
theorem sessionRoute_loops :
    (chainConfig [("thinker", some (.stage "talker")), ("talker", some (.stage "thinker"))]).validate
        asciiDigits = .ok () ∧
      ¬ (chainConfig [("thinker", some (.stage "talker")),
        ("talker", some (.stage "thinker"))]).EndsRoute := by
  refine ⟨by decide +kernel, fun hends => ?_⟩
  apply (endsChain_of_endsRoute hends "thinker" .refl).1
  exact Relation.TransGen.tail (.single (by decide +kernel : _ = some "talker"))
    (by decide +kernel : _ = some "thinker")

end Config
