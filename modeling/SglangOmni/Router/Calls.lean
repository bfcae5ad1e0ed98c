import SglangOmni.Router.Accounts
import SglangOmni.Router.Cohort

/-! What holds of a call at every point where it can be interrupted: the workers it has found eligible,
and, while it holds the selector, that their session permits are still there. -/

namespace Router

open State

/-- The calls and admissions for which a dispatch may return `Internal`. -/
def InternalAllowed (call : Option Call) (admitted : Option CapacityClass) : Prop :=
  match call with
  | some (.dispatch requirement) => admitted ≠ some requirement.capacityClass
  | some (.dispatchSession requirement) =>
      admitted ≠ some requirement.capacityClass ∨ admitted.any isSessionClass = false
  | some (.contentBlind _) => False
  | _ => True

def FreeSession (s : State) (worker : Nat) (cls : CapacityClass) : Prop :=
  ∃ free, s.sessions worker cls = some (free + 1)

def LeastLoaded (cfg : PoolConfig) (s : State) (worker : Nat) (eligible : List Nat) : Prop :=
  cfg.pool.strategy = .leastRequests → s.quiet = true → ∀ index ∈ eligible, s.load worker ≤ s.load index

/-- Workers found eligible under the selector: registered, and with a session permit where the call is
for a session. -/
structure Eligible (cfg : PoolConfig) (s : State) (session : Option CapacityClass)
    (eligible : List Nat) : Prop where
  registered : ∀ index ∈ eligible, index < cfg.count
  free : ∀ cls, session = some cls → ∀ index ∈ eligible, FreeSession s index cls

def PhaseOk (cfg : PoolConfig) (s : State) (id : Nat) : Phase → Prop
  | .idle => True
  | .scan _ _ eligible => ∀ index ∈ eligible, index < cfg.count
  | .wait eligible => eligible ≠ [] ∧ ∀ index ∈ eligible, index < cfg.count
  | .waitOwner worker session => ∀ cls, session = some cls → (cfg.sessionLimit worker cls).isSome = true
  | .waitSession search => search.eligible = []
  | .sessionHealth search =>
      s.selector = some id ∧ Eligible cfg s (some search.cls) search.eligible
  | .sessionPermits search =>
      s.selector = some id ∧ search.next < cfg.count
        ∧ Eligible cfg s (some search.cls) search.eligible
  | .compare session eligible rest found =>
      s.selector = some id ∧ eligible ≠ [] ∧ Eligible cfg s session eligible
        ∧ ∃ seen, eligible = seen.map Prod.fst ++ rest ∧ LeastFound seen found
          ∧ (s.quiet = true → ∀ observed ∈ seen, observed.2 = s.load observed.1)
  | .reserve session worker eligible =>
      s.selector = some id ∧ worker ∈ eligible ∧ LeastLoaded cfg s worker eligible
        ∧ ∀ cls error, session = some (cls, error) →
          (cfg.sessionLimit worker cls).isSome = true
            ∧ (error = .internal → FreeSession s worker cls)
  | .granted worker eligible =>
      s.selector = some id ∧ worker ∈ eligible ∧ LeastLoaded cfg s worker eligible

/-- What a lease owns at each point: no load before its call is granted a worker, and a session permit
only from then on. -/
def Lease.Fits (lease : Lease) : Prop :=
  match lease.phase with
  | .idle => lease.load = none → lease.session = none
  | .granted .. => lease.load = none
  | _ => lease.load = none ∧ lease.session = none

structure Kept (cfg : PoolConfig) (s : State) : Prop where
  accounts : Accounts cfg s
  recency : s.recency.Perm (List.range cfg.count)
  phases : ∀ id lease, s.leases.get? id = some lease → PhaseOk cfg s id lease.phase ∧ lease.Fits
  returned : ∀ r ∈ s.returned, r.result = .error .internal → InternalAllowed r.call r.admitted
  choices : ∀ choice ∈ s.choices, choice.worker ∈ choice.eligible
    ∧ (cfg.pool.strategy = .leastRequests → choice.quiet = true →
      ∀ index ∈ choice.eligible, choice.load choice.worker ≤ choice.load index)

variable {cfg : PoolConfig} {s t : State} {id : Nat} {lease : Lease}

/-- What a call relies on while it holds the selector is not taken from it by others. -/
structure Undisturbed (s t : State) (id : Nat) : Prop where
  selector : s.selector = some id → t.selector = some id
  free : s.selector = some id → ∀ worker cls, FreeSession s worker cls → FreeSession t worker cls
  quiet : s.selector = some id → t.quiet = true → s.quiet = true ∧ t.load = s.load

theorem Eligible.mono {session : Option CapacityClass} {eligible : List Nat}
    (h : Eligible cfg s session eligible)
    (hfree : ∀ worker cls, FreeSession s worker cls → FreeSession t worker cls) :
    Eligible cfg t session eligible :=
  ⟨h.registered, fun cls hcls index hindex => hfree index cls (h.free cls hcls index hindex)⟩

theorem LeastLoaded.mono {worker : Nat} {eligible : List Nat} (h : LeastLoaded cfg s worker eligible)
    (hquiet : t.quiet = true → s.quiet = true ∧ t.load = s.load) :
    LeastLoaded cfg t worker eligible := by
  intro hstrategy hq
  obtain ⟨hq', hload⟩ := hquiet hq
  rw [hload]
  exact h hstrategy hq'

theorem PhaseOk.mono {phase : Phase} (h : PhaseOk cfg s id phase) (hu : Undisturbed s t id) :
    PhaseOk cfg t id phase := by
  cases phase with
  | idle => trivial
  | scan => exact h
  | wait => exact h
  | waitOwner => exact h
  | waitSession => exact h
  | sessionHealth search =>
    obtain ⟨hsel, heligible⟩ := h
    exact ⟨hu.selector hsel, heligible.mono (hu.free hsel)⟩
  | sessionPermits search =>
    obtain ⟨hsel, hlt, heligible⟩ := h
    exact ⟨hu.selector hsel, hlt, heligible.mono (hu.free hsel)⟩
  | compare session eligible rest found =>
    obtain ⟨hsel, hne, heligible, seen, hseen, hfound, hload⟩ := h
    refine ⟨hu.selector hsel, hne, heligible.mono (hu.free hsel), seen, hseen, hfound, ?_⟩
    intro hq observed hobserved
    obtain ⟨hq', hl⟩ := hu.quiet hsel hq
    rw [hl]
    exact hload hq' observed hobserved
  | reserve session worker eligible =>
    obtain ⟨hsel, hmem, hleast, hsession⟩ := h
    refine ⟨hu.selector hsel, hmem, hleast.mono (hu.quiet hsel), ?_⟩
    intro cls error he
    obtain ⟨hsome, hfree⟩ := hsession cls error he
    exact ⟨hsome, fun hi => hu.free hsel worker cls (hfree hi)⟩
  | granted worker eligible =>
    obtain ⟨hsel, hmem, hleast⟩ := h
    exact ⟨hu.selector hsel, hmem, hleast.mono (hu.quiet hsel)⟩

/-! ### The outcomes of most operations -/

/-- The state of a call's own operation before it stores its next point: the counters unchanged, the
recency order permuted, the selector as it was or just locked. -/
structure Near (s t : State) (id : Nat) : Prop where
  counters : SameCounters s t
  recency : t.recency.Perm s.recency
  returned : t.returned = s.returned
  choices : t.choices = s.choices
  selector : (t.selector = s.selector ∧ t.quiet = s.quiet)
    ∨ (s.selector = none ∧ t.selector = some id)

theorem Near.refl (s : State) (id : Nat) : Near s s id :=
  ⟨⟨rfl, rfl, rfl, rfl, rfl, rfl⟩, List.Perm.refl _, rfl, rfl, .inl ⟨rfl, rfl⟩⟩

theorem near_lock (s : State) (id : Nat) (h : s.selector = none) : Near s (s.lock id) id :=
  ⟨⟨rfl, rfl, rfl, rfl, rfl, rfl⟩, List.Perm.refl _, rfl, rfl, .inr ⟨h, rfl⟩⟩

theorem Near.undisturbed (h : Near s t id) (other : Nat) : Undisturbed s t other := by
  rcases h.selector with ⟨hsel, hquiet⟩ | ⟨hnone, -⟩
  · refine ⟨fun h' => hsel.trans h', fun _ worker cls => ?_, fun _ hq => ⟨hquiet ▸ hq, h.counters.load⟩⟩
    rintro ⟨free, hfree⟩
    exact ⟨free, by rw [h.counters.sessions]; exact hfree⟩
  · refine ⟨fun h' => ?_, fun h' => ?_, fun h' => ?_⟩ <;> rw [hnone] at h' <;> cases h'

/-- What a call's operation comes to, unless it takes a permit or a lease: the call reaches its next
point, or fails with an error that is not an unexplained `Internal`. -/
inductive Outcome (cfg : PoolConfig) (s : State) (id : Nat) (lease : Lease) : State → Prop where
  | next (t : State) (phase : Phase) : Near s t id → PhaseOk cfg t id phase →
      phase ≠ .idle → (∀ worker eligible, phase ≠ .granted worker eligible) →
      Outcome cfg s id lease (t.setPhase id lease phase)
  | fail (t : State) (error : DispatchError) : Near s t id →
      (error = .internal → InternalAllowed lease.call (lease.admission.map (·.1))) →
      Outcome cfg s id lease (t.fail id lease error)

theorem PhaseOk.setLease {phase : Phase} {other : Nat} {lease' : Lease} :
    PhaseOk cfg (s.setLease other lease') id phase ↔ PhaseOk cfg s id phase := by
  have hs : Undisturbed s (s.setLease other lease') id :=
    ⟨fun h => h, fun _ _ _ h => h, fun _ h => ⟨h, rfl⟩⟩
  have hs' : Undisturbed (s.setLease other lease') s id :=
    ⟨fun h => h, fun _ _ _ h => h, fun _ h => ⟨h, rfl⟩⟩
  exact ⟨fun h => h.mono hs', fun h => h.mono hs⟩

theorem undisturbed_dropLease (s : State) (id other : Nat) (lease : Lease) :
    Undisturbed s (s.dropLease id lease) other := by
  refine ⟨fun h => h, fun _ worker cls => ?_, fun _ hq => ?_⟩
  · rintro ⟨free, hfree⟩
    refine ⟨free + (lease.sessionPermits worker cls).toNat, ?_⟩
    simp only [State.dropLease, addSessionPermit_eq, hfree, Option.map_some, Option.some.injEq]
    omega
  · simp only [State.dropLease, Bool.and_eq_true, Option.isNone_iff_eq_none] at hq
    exact ⟨hq.1, by simp only [State.dropLease, hq.2, decrementLoad]⟩

theorem Kept.dropLease (h : Kept cfg s) (hlease : s.leases.get? id = some lease) :
    Kept cfg (s.dropLease id lease) where
  accounts := h.accounts.dropLease hlease
  recency := h.recency
  phases other lease' hother := by
    obtain ⟨-, hold⟩ := Lib.Dict.get?_erase_some hother
    obtain ⟨hphase, hfits⟩ := h.phases other lease' hold
    exact ⟨hphase.mono (undisturbed_dropLease s id other lease), hfits⟩
  returned := h.returned
  choices := h.choices

theorem dropLease_congr (s : State) (id : Nat) {lease lease' : Lease}
    (h : SameHoldings lease lease') : s.dropLease id lease' = s.dropLease id lease := by
  simp only [State.dropLease, h.admission, h.session, h.load]

theorem SameCounters.unlogged {s t : State} (h : SameCounters s t) {lease : Lease}
    {result : Except DispatchError Nat} {id : Nat} :
    SameCounters s ((t.log lease result).unlock id) :=
  ⟨h.load, h.global, h.classes, h.sessions, h.leases, h.underflowed⟩

theorem Kept.fail (h : Kept cfg s) (hnear : Near s t id) {lease' : Lease} {error : DispatchError}
    (hlease : s.leases.get? id = some lease) (hsame : SameHoldings lease lease')
    (herror : error = .internal → InternalAllowed lease'.call (lease'.admission.map (·.1))) :
    Kept cfg (t.fail id lease' error) := by
  have hu : ∀ other, other ≠ id → Undisturbed s
      ((t.log lease' (.error error)).unlock id) other := by
    intro other hne
    have hn := hnear.undisturbed other
    refine ⟨fun hsel => ?_, hn.free, hn.quiet⟩
    have := hn.selector hsel
    simp only [State.unlock, State.log, this, Option.some.injEq, if_neg hne]
  exact {
    accounts := by
      have hcounters : Accounts cfg ((t.log lease' (.error error)).unlock id) :=
        h.accounts.same hnear.counters.unlogged
      rw [State.fail, dropLease_congr _ id hsame]
      refine hcounters.dropLease ?_
      change t.leases.get? id = some lease
      rw [hnear.counters.leases]
      exact hlease
    recency := hnear.recency.trans h.recency
    phases := fun other lease'' hother => by
      obtain ⟨hne, hold⟩ := Lib.Dict.get?_erase_some hother
      have hold' : s.leases.get? other = some lease'' := by
        rw [← hnear.counters.leases]
        exact hold
      obtain ⟨hphase, hfits⟩ := h.phases other lease'' hold'
      exact ⟨(hphase.mono (hu other hne)).mono (undisturbed_dropLease _ id other lease'), hfits⟩
    returned := fun r hr hinternal => by
      simp only [State.fail, State.dropLease, State.unlock, State.log, List.mem_append,
        List.mem_singleton] at hr
      rcases hr with hr | rfl
      · exact h.returned r (hnear.returned ▸ hr) hinternal
      · exact herror (by simpa using hinternal)
    choices := fun choice hchoice => h.choices choice (hnear.choices ▸ hchoice) }

theorem Kept.next (h : Kept cfg s) (hnear : Near s t id) {lease' : Lease} {phase : Phase}
    (hlease : s.leases.get? id = some lease) (hsame : SameHoldings lease lease')
    (hphase : PhaseOk cfg t id phase) (hfits : { lease' with phase }.Fits) :
    Kept cfg (t.setPhase id lease' phase) where
  accounts := by
    have hset : Accounts cfg (s.setLease id { lease' with phase }) :=
      h.accounts.setLease hlease ⟨hsame.admission, hsame.session, hsame.load⟩
    refine hset.same ⟨hnear.counters.load, hnear.counters.global, hnear.counters.classes,
      hnear.counters.sessions, ?_, hnear.counters.underflowed⟩
    simp only [State.setPhase, State.setLease, hnear.counters.leases]
  recency := hnear.recency.trans h.recency
  phases other lease'' hother := by
    simp only [State.setPhase, State.setLease, Lib.Dict.get?_set] at hother
    split at hother
    · next he =>
      cases hother
      subst he
      exact ⟨PhaseOk.setLease.mpr hphase, hfits⟩
    · rw [hnear.counters.leases] at hother
      obtain ⟨hold, hfits'⟩ := h.phases other lease'' hother
      exact ⟨PhaseOk.setLease.mpr (hold.mono (hnear.undisturbed other)), hfits'⟩
  returned r hr hinternal := h.returned r (hnear.returned ▸ hr) hinternal
  choices choice hchoice := h.choices choice (hnear.choices ▸ hchoice)

theorem Kept.outcome (h : Kept cfg s) {lease' : Lease} {s' : State}
    (hlease : s.leases.get? id = some lease) (hsame : SameHoldings lease lease')
    (hload : lease'.load = none) (hsession : lease'.session = none)
    (hout : Outcome cfg s id lease' s') : Kept cfg s' := by
  cases hout with
  | next t phase hnear hphase hidle hgranted =>
    refine h.next hnear hlease hsame hphase ?_
    unfold Lease.Fits
    cases phase with
    | idle => exact absurd rfl hidle
    | granted worker eligible => exact absurd rfl (hgranted worker eligible)
    | _ => exact ⟨hload, hsession⟩
  | fail t error hnear herror => exact h.fail hnear hlease hsame herror

end Router
