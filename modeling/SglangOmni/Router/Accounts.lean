import SglangOmni.Router.Leases

/-! What the leases own and what is free adds up: every semaphore's free permits and the leased ones make
its limit, and a worker's load is the weight of the leases on it. -/

namespace Router

open State

/-! ### What a lease owns -/

def Lease.classPermits (cls : CapacityClass) (lease : Lease) : Int :=
  match lease.admission with
  | some (c, credits) => if c = cls then credits else 0
  | none => 0

def Lease.sessionPermits (worker : Nat) (cls : CapacityClass) (lease : Lease) : Int :=
  if lease.session = some (worker, cls) then 1 else 0

def Lease.loadOn (worker : Nat) (lease : Lease) : Int :=
  match lease.load with
  | some (w, weight) => if w = worker then weight else 0
  | none => 0

/-- The weight that a request has by its admission: the credits, or one for a bare envelope. -/
def Lease.weight (lease : Lease) : Nat :=
  match lease.admission with
  | some (_, credits) => credits
  | none => 1

theorem Lease.classPermits_nonneg (cls : CapacityClass) (lease : Lease) :
    0 ≤ lease.classPermits cls := by
  unfold Lease.classPermits
  split
  · split <;> omega
  · omega

theorem Lease.sessionPermits_nonneg (worker : Nat) (cls : CapacityClass) (lease : Lease) :
    0 ≤ lease.sessionPermits worker cls := by
  unfold Lease.sessionPermits
  split <;> omega

theorem Lease.loadOn_nonneg (worker : Nat) (lease : Lease) : 0 ≤ lease.loadOn worker := by
  unfold Lease.loadOn
  split
  · split <;> omega
  · omega

structure SameHoldings (lease lease' : Lease) : Prop where
  admission : lease'.admission = lease.admission
  session : lease'.session = lease.session
  load : lease'.load = lease.load

/-! ### The accounts -/

/-- Free and leased permits make the limits, and the loads are the weights of the leases. -/
structure Accounts (cfg : PoolConfig) (s : State) : Prop where
  global : (s.global : Int) + s.leases.total (fun _ => 1) = cfg.globalLimit.toNat
  classes : ∀ cls, (((s.classes cls).getD 0 : Nat) : Int) + s.leases.total (Lease.classPermits cls)
    = (((cfg.classLimit cls).map (·.toNat)).getD 0 : Nat)
  sessions : ∀ worker cls, (((s.sessions worker cls).getD 0 : Nat) : Int)
      + s.leases.total (Lease.sessionPermits worker cls)
    = (((cfg.sessionLimit worker cls).map (·.toNat)).getD 0 : Nat)
  classesSome : ∀ cls, (s.classes cls).isSome = (cfg.classLimit cls).isSome
  sessionsSome : ∀ worker cls, (s.sessions worker cls).isSome = (cfg.sessionLimit worker cls).isSome
  load : ∀ worker, (s.load worker : Int) = s.leases.total (Lease.loadOn worker)
  weight : ∀ id lease, s.leases.get? id = some lease → ∀ worker weight,
    lease.load = some (worker, weight) → weight = lease.weight
  noUnderflow : s.underflowed = false

theorem accounts_initial (cfg : PoolConfig) : Accounts cfg (State.initial cfg) where
  global := by simp [State.initial]
  classes cls := by simp [State.initial]
  sessions worker cls := by simp [State.initial]
  classesSome cls := by simp [State.initial]
  sessionsSome worker cls := by simp [State.initial]
  load worker := by simp [State.initial]
  weight id lease h := by simp [State.initial] at h
  noUnderflow := rfl

variable {cfg : PoolConfig} {s : State} {id : Nat} {lease lease' : Lease}

theorem total_set_same (weight : Lease → Int) (lease' : Lease)
    (hlease : s.leases.get? id = some lease) (h : weight lease' = weight lease) :
    (s.leases.set id lease').total weight = s.leases.total weight := by
  rw [Lib.Dict.total_set, hlease]
  simp [h]

theorem Accounts.setLease (h : Accounts cfg s) (hlease : s.leases.get? id = some lease)
    (hsame : SameHoldings lease lease') : Accounts cfg (s.setLease id lease') where
  global := by
    have := total_set_same (fun _ => 1) lease' hlease rfl
    simpa [State.setLease, this] using h.global
  classes cls := by
    have := total_set_same (Lease.classPermits cls) lease' hlease
      (by simp [Lease.classPermits, hsame.admission])
    simpa [State.setLease, this] using h.classes cls
  sessions worker cls := by
    have := total_set_same (Lease.sessionPermits worker cls) lease' hlease
      (by simp [Lease.sessionPermits, hsame.session])
    simpa [State.setLease, this] using h.sessions worker cls
  classesSome := h.classesSome
  sessionsSome := h.sessionsSome
  load worker := by
    have := total_set_same (Lease.loadOn worker) lease' hlease
      (by simp [Lease.loadOn, hsame.load])
    simpa [State.setLease, this] using h.load worker
  weight id' other hother worker weight hload := by
    simp only [State.setLease, Lib.Dict.get?_set] at hother
    split at hother
    · cases hother
      rw [Lease.weight, hsame.admission]
      exact h.weight id lease hlease worker weight (hsame.load ▸ hload)
    · exact h.weight id' other hother worker weight hload
  noUnderflow := h.noUnderflow

structure SameCounters (s t : State) : Prop where
  load : t.load = s.load
  global : t.global = s.global
  classes : t.classes = s.classes
  sessions : t.sessions = s.sessions
  leases : t.leases = s.leases
  underflowed : t.underflowed = s.underflowed

theorem Accounts.same {t : State} (h : Accounts cfg s) (hst : SameCounters s t) :
    Accounts cfg t where
  global := by rw [hst.global, hst.leases]; exact h.global
  classes := by rw [hst.classes, hst.leases]; exact h.classes
  sessions := by rw [hst.sessions, hst.leases]; exact h.sessions
  classesSome := by rw [hst.classes]; exact h.classesSome
  sessionsSome := by rw [hst.sessions]; exact h.sessionsSome
  load := by rw [hst.load, hst.leases]; exact h.load
  weight := by rw [hst.leases]; exact h.weight
  noUnderflow := by rw [hst.underflowed]; exact h.noUnderflow

/-! ### The drop of a lease -/

theorem addClassPermits_eq (classes : CapacityClass → Option Nat) (lease : Lease)
    (cls : CapacityClass) : addClassPermits classes lease.admission cls
      = (classes cls).map (· + (lease.classPermits cls).toNat) := by
  unfold Lease.classPermits
  cases lease.admission with
  | none => simp [addClassPermits]
  | some admission =>
    simp only [addClassPermits]
    by_cases hcls : cls = admission.1
    · simp [hcls]
    · simp [hcls, Ne.symm hcls]

theorem addSessionPermit_eq (sessions : Nat → CapacityClass → Option Nat) (lease : Lease)
    (worker : Nat) (cls : CapacityClass) : addSessionPermit sessions lease.session worker cls
      = (sessions worker cls).map (· + (lease.sessionPermits worker cls).toNat) := by
  unfold Lease.sessionPermits
  cases lease.session with
  | none => simp [addSessionPermit]
  | some session =>
    simp only [addSessionPermit, Option.some.injEq]
    by_cases hpair : worker = session.1 ∧ cls = session.2
    · simp [hpair]
    · rw [if_neg hpair, if_neg (fun he => hpair (by rw [he]; exact ⟨rfl, rfl⟩))]
      simp

theorem decrementLoad_eq {load : Nat → Nat} {lease : Lease}
    (h : ∀ worker, lease.loadOn worker ≤ load worker) : underflows load lease.load = false
      ∧ ∀ worker, (decrementLoad load lease.load worker : Int) = load worker - lease.loadOn worker := by
  unfold Lease.loadOn at h ⊢
  cases hload : lease.load with
  | none => simp [underflows, decrementLoad]
  | some held =>
    obtain ⟨worker, weight⟩ := held
    have hle : weight ≤ load worker := by
      have := h worker
      simp only [hload, if_true] at this
      omega
    refine ⟨by simpa [underflows] using hle, fun w => ?_⟩
    simp only [decrementLoad, if_neg (Nat.not_lt.mpr hle)]
    by_cases hw : w = worker
    · subst hw
      simp only [if_true]
      omega
    · rw [if_neg hw, if_neg (Ne.symm hw)]
      omega

theorem getD_map_add (o : Option Nat) (k : Nat) (h : o = none → k = 0) :
    (o.map (· + k)).getD 0 = o.getD 0 + k := by
  cases o with
  | none => simp [h rfl]
  | some n => rfl

theorem eq_zero_of_none {free : Option Nat} {limit : Option UInt32} {leased permits : Int}
    (hsome : free.isSome = limit.isSome)
    (htotal : ((free.getD 0 : Nat) : Int) + leased = ((limit.map (·.toNat)).getD 0 : Nat))
    (hle : permits ≤ leased) : free = none → permits.toNat = 0 := by
  rintro rfl
  cases limit with
  | none =>
    simp only [Option.getD_none, Option.map_none] at htotal
    omega
  | some limit => cases hsome

theorem Accounts.dropLease (h : Accounts cfg s) (hlease : s.leases.get? id = some lease) :
    Accounts cfg (s.dropLease id lease) where
  global := by
    have := h.global
    simp only [State.dropLease, Lib.Dict.total_erase, hlease, Option.elim_some]
    omega
  classes cls := by
    have hle : lease.classPermits cls ≤ s.leases.total (Lease.classPermits cls) :=
      Lib.Dict.le_total (fun _ lease _ => lease.classPermits_nonneg cls) hlease
    have hzero := eq_zero_of_none (h.classesSome cls) (h.classes cls) hle
    have hnonneg := lease.classPermits_nonneg cls
    have := h.classes cls
    simp only [State.dropLease, addClassPermits_eq, getD_map_add _ _ hzero, Lib.Dict.total_erase,
      hlease, Option.elim_some]
    omega
  sessions worker cls := by
    have hle : lease.sessionPermits worker cls ≤ s.leases.total (Lease.sessionPermits worker cls) :=
      Lib.Dict.le_total (fun _ lease _ => lease.sessionPermits_nonneg worker cls) hlease
    have hzero := eq_zero_of_none (h.sessionsSome worker cls) (h.sessions worker cls) hle
    have hnonneg := lease.sessionPermits_nonneg worker cls
    have := h.sessions worker cls
    simp only [State.dropLease, addSessionPermit_eq, getD_map_add _ _ hzero, Lib.Dict.total_erase,
      hlease, Option.elim_some]
    omega
  classesSome cls := by
    simp only [State.dropLease, addClassPermits_eq, Option.isSome_map]
    exact h.classesSome cls
  sessionsSome worker cls := by
    simp only [State.dropLease, addSessionPermit_eq, Option.isSome_map]
    exact h.sessionsSome worker cls
  load worker := by
    have hle : ∀ worker, lease.loadOn worker ≤ s.load worker := fun worker => by
      rw [h.load]
      exact Lib.Dict.le_total (fun _ lease _ => lease.loadOn_nonneg worker) hlease
    have hload := (decrementLoad_eq hle).2 worker
    have := h.load worker
    simp only [State.dropLease, hload, Lib.Dict.total_erase, hlease, Option.elim_some]
    omega
  weight id' other hother := h.weight id' other (Lib.Dict.get?_erase_some hother).2
  noUnderflow := by
    have hle : ∀ worker, lease.loadOn worker ≤ s.load worker := fun worker => by
      rw [h.load]
      exact Lib.Dict.le_total (fun _ lease _ => lease.loadOn_nonneg worker) hlease
    simp only [State.dropLease, h.noUnderflow, (decrementLoad_eq hle).1, Bool.or_self]

/-! ### The loads stay below the machine word -/

def Lease.permits (lease : Lease) : Int :=
  lease.classPermits .generationHttp + lease.classPermits .speechHttp
    + lease.classPermits .speechBatch + lease.classPermits .transcriptionHttp
    + lease.classPermits .speechWebsocket + lease.classPermits .realtimeWebsocket + 1

theorem Lease.weight_le_permits (lease : Lease) : (lease.weight : Int) ≤ lease.permits := by
  unfold Lease.weight Lease.permits Lease.classPermits
  cases lease.admission with
  | none => simp
  | some admission =>
    obtain ⟨cls, credits⟩ := admission
    cases cls <;> simp

theorem total_permits (leases : Lib.Dict Nat Lease) : leases.total Lease.permits
    = leases.total (Lease.classPermits .generationHttp) + leases.total (Lease.classPermits .speechHttp)
      + leases.total (Lease.classPermits .speechBatch)
      + leases.total (Lease.classPermits .transcriptionHttp)
      + leases.total (Lease.classPermits .speechWebsocket)
      + leases.total (Lease.classPermits .realtimeWebsocket) + leases.total (fun _ => 1) := by
  unfold Lease.permits
  simp only [Lib.Dict.total_add]

theorem total_loadOn_lt (cfg : PoolConfig) {leases : Lib.Dict Nat Lease}
    (hglobal : leases.total (fun _ => 1) ≤ cfg.globalLimit.toNat)
    (hclasses : ∀ cls, leases.total (Lease.classPermits cls)
      ≤ (((cfg.classLimit cls).map (·.toNat)).getD 0 : Nat))
    (hweight : ∀ id lease, leases.get? id = some lease → ∀ worker weight,
      lease.load = some (worker, weight) → weight = lease.weight) (worker : Nat) :
    leases.total (Lease.loadOn worker) < 2 ^ 64 := by
  have hle : leases.total (Lease.loadOn worker) ≤ leases.total Lease.permits := by
    refine Lib.Dict.total_mono fun id lease hlease => ?_
    have hpermits := lease.weight_le_permits
    unfold Lease.loadOn
    split
    · next w weight hload =>
      have := hweight id lease hlease w weight hload
      split <;> omega
    · omega
  have hlimit : ∀ cls, leases.total (Lease.classPermits cls) ≤ 2 ^ 32 := fun cls => by
    refine Int.le_trans (hclasses cls) ?_
    cases cfg.classLimit cls with
    | none => simp
    | some limit =>
      have := limit.toNat_lt
      simp only [Option.map_some, Option.getD_some]
      omega
  have := cfg.globalLimit.toNat_lt
  have h₁ := hlimit .generationHttp
  have h₂ := hlimit .speechHttp
  have h₃ := hlimit .speechBatch
  have h₄ := hlimit .transcriptionHttp
  have h₅ := hlimit .speechWebsocket
  have h₆ := hlimit .realtimeWebsocket
  rw [total_permits] at hle
  omega

theorem Accounts.classes_le (h : Accounts cfg s) (cls : CapacityClass) :
    s.leases.total (Lease.classPermits cls) ≤ (((cfg.classLimit cls).map (·.toNat)).getD 0 : Nat) := by
  have := h.classes cls
  omega

theorem Accounts.load_le (h : Accounts cfg s) (worker : Nat) : s.load worker ≤ usizeMax := by
  have := total_loadOn_lt cfg (by have := h.global; omega) h.classes_le h.weight worker
  rw [← h.load] at this
  unfold usizeMax
  omega

theorem Accounts.addLoad (h : Accounts cfg s) (hlease : s.leases.get? id = some lease)
    (hload : lease.load = none) (worker : Nat) {lease' : Lease}
    (hadmission : lease'.admission = lease.admission) (hsession : lease'.session = lease.session)
    (hload' : lease'.load = some (worker, lease.weight)) :
    Accounts cfg ((s.incrementLoad worker lease.weight).setLease id lease') := by
  have hglobal : (s.leases.set id lease').total (fun _ => 1) = s.leases.total (fun _ => 1) :=
    total_set_same (fun _ => 1) lease' hlease rfl
  have hclasses : ∀ cls, (s.leases.set id lease').total (Lease.classPermits cls)
      = s.leases.total (Lease.classPermits cls) := fun cls =>
    total_set_same _ lease' hlease (by simp [Lease.classPermits, hadmission])
  have hsessions : ∀ worker cls, (s.leases.set id lease').total (Lease.sessionPermits worker cls)
      = s.leases.total (Lease.sessionPermits worker cls) := fun worker cls =>
    total_set_same _ lease' hlease (by simp [Lease.sessionPermits, hsession])
  have hweight : ∀ id' other, (s.leases.set id lease').get? id' = some other → ∀ w weight,
      other.load = some (w, weight) → weight = other.weight := by
    intro id' other hother w weight hw
    rw [Lib.Dict.get?_set] at hother
    split at hother
    · cases hother
      cases hload'.symm.trans hw
      rw [Lease.weight, Lease.weight, hadmission]
    · exact h.weight id' other hother w weight hw
  have htotal : ∀ w, (s.leases.set id lease').total (Lease.loadOn w)
      = s.load w + if w = worker then (lease.weight : Int) else 0 := by
    intro w
    have hold : lease.loadOn w = 0 := by simp [Lease.loadOn, hload]
    have hnew : lease'.loadOn w = if w = worker then (lease.weight : Int) else 0 := by
      simp only [Lease.loadOn, hload', eq_comm]
    rw [Lib.Dict.total_set, hlease, ← h.load w]
    simp only [Option.elim_some, hold, hnew]
    omega
  have hbound := total_loadOn_lt cfg (by have := h.global; omega)
    (fun cls => by rw [hclasses]; exact h.classes_le cls) hweight
  exact {
    global := by simpa only [State.setLease, State.incrementLoad, hglobal] using h.global
    classes := fun cls => by
      simpa only [State.setLease, State.incrementLoad, hclasses] using h.classes cls
    sessions := fun w cls => by
      simpa only [State.setLease, State.incrementLoad, hsessions] using h.sessions w cls
    classesSome := h.classesSome
    sessionsSome := h.sessionsSome
    load := fun w => by
      have hw := hbound w
      rw [htotal w] at hw
      simp only [State.setLease, State.incrementLoad, htotal]
      by_cases he : w = worker
      · simp only [he, if_true] at hw ⊢
        omega
      · simp only [he, if_false]
        omega
    weight := hweight
    noUnderflow := h.noUnderflow }

/-! ### Permits taken -/

theorem Accounts.admitEnvelope (h : Accounts cfg s) (hnew : s.leases.get? id = none)
    (hfree : s.global ≠ 0) :
    Accounts cfg (({ s with global := s.global - 1 } : State).setLease id {}) where
  global := by
    have := h.global
    simp only [State.setLease, Lib.Dict.total_set, hnew, Option.elim_none]
    omega
  classes cls := by
    have := h.classes cls
    simpa [State.setLease, Lib.Dict.total_set, hnew, Lease.classPermits] using this
  sessions worker cls := by
    have := h.sessions worker cls
    simpa [State.setLease, Lib.Dict.total_set, hnew, Lease.sessionPermits] using this
  classesSome := h.classesSome
  sessionsSome := h.sessionsSome
  load worker := by
    have := h.load worker
    simpa [State.setLease, Lib.Dict.total_set, hnew, Lease.loadOn] using this
  weight id' other hother w weight hw := by
    simp only [State.setLease, Lib.Dict.get?_set] at hother
    split at hother
    · cases hother
      cases hw
    · exact h.weight id' other hother w weight hw
  noUnderflow := h.noUnderflow

theorem Accounts.admitClass (h : Accounts cfg s) (hlease : s.leases.get? id = some lease)
    (hadmission : lease.admission = none) (hload : lease.load = none) {cls : CapacityClass}
    {free credits : Nat} (hfree : s.classes cls = some free) (hle : credits ≤ free) :
    Accounts cfg (({ s with
      classes := fun c => if c = cls then some (free - credits) else s.classes c } : State).setLease
        id { lease with admission := some (cls, credits) }) where
  global := by
    have := total_set_same (fun _ => 1)
      { lease with admission := some (cls, credits) } hlease rfl
    simpa [State.setLease, this] using h.global
  classes c := by
    have hold : lease.classPermits c = 0 := by simp [Lease.classPermits, hadmission]
    have := h.classes c
    simp only [State.setLease, Lib.Dict.total_set, hlease, Option.elim_some, hold]
    by_cases hc : c = cls
    · subst hc
      rw [hfree] at this
      simp only [if_true, Option.getD_some, Lease.classPermits] at this ⊢
      omega
    · simp only [hc, if_false, Lease.classPermits, Ne.symm hc]
      omega
  sessions worker c := by
    have := total_set_same (Lease.sessionPermits worker c)
      { lease with admission := some (cls, credits) } hlease rfl
    simpa [State.setLease, this] using h.sessions worker c
  classesSome c := by
    simp only [State.setLease]
    split
    · next hc =>
      rw [← h.classesSome c, hc, hfree]
      rfl
    · exact h.classesSome c
  sessionsSome := h.sessionsSome
  load worker := by
    have := total_set_same (Lease.loadOn worker)
      { lease with admission := some (cls, credits) } hlease rfl
    simpa [State.setLease, this] using h.load worker
  weight id' other hother w weight hw := by
    simp only [State.setLease, Lib.Dict.get?_set] at hother
    split at hother
    · cases hother
      cases hload.symm.trans hw
    · exact h.weight id' other hother w weight hw
  noUnderflow := h.noUnderflow

theorem Accounts.acquireSession (h : Accounts cfg s) (hlease : s.leases.get? id = some lease)
    (hsession : lease.session = none) {worker : Nat} {cls : CapacityClass} {free : Nat}
    (hfree : s.sessions worker cls = some (free + 1)) (phase : Phase) :
    Accounts cfg (({ s with
      sessions := fun w c => if w = worker ∧ c = cls then some free else s.sessions w c
      } : State).setLease id { lease with session := some (worker, cls), phase }) where
  global := by
    have := total_set_same (fun _ => 1)
      { lease with session := some (worker, cls), phase } hlease rfl
    simpa [State.setLease, this] using h.global
  classes c := by
    have := total_set_same (Lease.classPermits c)
      { lease with session := some (worker, cls), phase } hlease rfl
    simpa [State.setLease, this] using h.classes c
  sessions w c := by
    have hold : lease.sessionPermits w c = 0 := by simp [Lease.sessionPermits, hsession]
    have := h.sessions w c
    simp only [State.setLease, Lib.Dict.total_set, hlease, Option.elim_some, hold]
    by_cases hpair : w = worker ∧ c = cls
    · obtain ⟨rfl, rfl⟩ := hpair
      rw [hfree] at this
      simp only [and_self, if_true, Option.getD_some, Lease.sessionPermits] at this ⊢
      omega
    · have hne : (some (worker, cls) = some (w, c)) = False := by
        rw [eq_iff_iff, iff_false]
        rintro he
        cases he
        exact hpair ⟨rfl, rfl⟩
      simp only [hpair, if_false, Lease.sessionPermits, hne]
      omega
  classesSome := h.classesSome
  sessionsSome w c := by
    simp only [State.setLease]
    split
    · next hpair =>
      rw [← h.sessionsSome w c, hpair.1, hpair.2, hfree]
      rfl
    · exact h.sessionsSome w c
  load w := by
    have := total_set_same (Lease.loadOn w)
      { lease with session := some (worker, cls), phase } hlease rfl
    simpa [State.setLease, this] using h.load w
  weight id' other hother w weight hw := by
    simp only [State.setLease, Lib.Dict.get?_set] at hother
    split at hother
    · cases hother
      exact h.weight id lease hlease w weight hw
    · exact h.weight id' other hother w weight hw
  noUnderflow := h.noUnderflow

end Router
