import SglangOmni.Comm.Credits

/-! What the failure of a send job does to the transfers of other jobs.  The handler of a failed job
looks its object ID up in `pending`, and a second job of one payload has the ID of the first. -/

namespace Comm

open Lib

def Sends.raises (s : Sends) (j : Nat) (job : Job) : SendAction → Bool
  | .put i => i = j && job.ops.length + 1 = job.content.tensors &&
    s.pending.contains job.objectId
  | .putUnusable i => i = j
  | .fail i => i = j
  | .published i => i = j &&
    match s.pending.get? job.objectId with
    | none => true
    | some p => p.watch ≠ .unarmed || job.readyDone
  | .publishFails i => i = j
  | _ => false

/-- A job that raises there has its object ID, so that its handler calls `fail_pending`. -/
def SendAction.failsPending : SendAction → Bool
  | .put _ | .published _ | .publishFails _ => true
  | _ => false

def Sends.Registered (s : Sends) (k : Nat) (p : PendingTransfer) : Prop :=
  ∃ job, s.jobs[k]? = some job ∧ job.phase.isRegistered = true ∧ job.ops = p.ops

/-- No transfer of another job that waits for its ack or its watcher is pending under the object ID
that the handler of job `j` looks up. -/
def Sends.Apart (s : Sends) (j : Nat) (job : Job) (a : SendAction) : Prop :=
  a.failsPending = true → ∀ p, s.pending.get? job.objectId = some p →
    (∃ k, k ≠ j ∧ s.Registered k p) → p.ack ≠ .waiting ∧ p.watch ≠ .unarmed

def PendingTransfer.failed (p : PendingTransfer) : PendingTransfer :=
  { p with
    ack := if p.ack = .waiting then .failed else p.ack
    watch := if p.watch = .unarmed then .waitingAck else p.watch }

theorem PendingTransfer.failed_eq_self {p : PendingTransfer} :
    p.failed = p ↔ p.ack ≠ .waiting ∧ p.watch ≠ .unarmed := by
  obtain ⟨ops, ack, watch⟩ := p
  cases ack <;> cases watch <;> simp [PendingTransfer.failed]

theorem get?_failPending (s : Sends) (id id' : String) :
    (s.failPending id).pending.get? id' =
      if id' = id then (s.pending.get? id).map PendingTransfer.failed
      else s.pending.get? id' := by
  unfold Sends.failPending
  split
  · next hnone =>
    split
    · next he => rw [he, hnone]; rfl
    · rfl
  · next p hp =>
    simp only [Dict.get?_set, hp]
    rfl

theorem get?_of_raises {s s' : Sends} {a : SendAction} {j : Nat} {job : Job}
    (hs : s.step a = some s') (hj : s.jobs[j]? = some job) (hraises : s.raises j job a = true)
    (id : String) :
    s'.pending.get? id =
      if a.failsPending then (s.failPending job.objectId).pending.get? id
      else s.pending.get? id := by
  cases a with
  | put i =>
    simp only [Sends.raises, Bool.and_eq_true, decide_eq_true_eq] at hraises
    obtain ⟨⟨rfl, hlast⟩, hdup⟩ := hraises
    obtain ⟨job', hj', hp, hs⟩ := whenJob_eq_some hs
    cases hj.symm.trans hj'
    split at hs
    · cases hs
    · cases hs
      simp only [Sends.put, Sends.register, Sends.takeCredit, List.length_append,
        List.length_singleton, hlast, if_true, hdup, SendAction.failsPending]
      rw [Sends.setJob, get?_failPending, get?_failPending]
  | putUnusable i =>
    obtain ⟨job', -, -, hs⟩ := whenJob_eq_some hs
    split at hs
    · cases hs
    · cases hs
      rfl
  | fail i =>
    obtain ⟨job', -, -, hs⟩ := whenJob_eq_some hs
    cases hs
    rfl
  | published i =>
    simp only [Sends.raises, Bool.and_eq_true, decide_eq_true_eq] at hraises
    obtain ⟨rfl, hraises⟩ := hraises
    obtain ⟨job', hj', hp, hs⟩ := whenJob_eq_some hs
    cases hj.symm.trans hj'
    cases hs
    simp only [SendAction.failsPending, if_true, get?_failPending]
    unfold Sends.published
    cases hpending : s.pending.get? job.objectId with
    | none =>
      simp only [Sends.setJob, Option.map_none]
      split
      · next he => rw [he, hpending]
      · rfl
    | some p =>
      rw [hpending] at hraises
      by_cases harmed : p.watch = .unarmed
      · have hready : job.readyDone = true := by simpa [harmed] using hraises
        simp only [harmed, ne_eq, not_true_eq_false, if_false, hready, if_true, Sends.setJob,
          get?_failPending, Dict.get?_set, Option.map_some]
        split
        · simp [PendingTransfer.failed, harmed]
        · rfl
      · simp only [ne_eq, harmed, not_false_eq_true, if_true, Sends.setJob, get?_failPending,
          hpending]
  | publishFails i =>
    simp only [Sends.raises, decide_eq_true_eq] at hraises
    subst hraises
    obtain ⟨job', hj', hp, hs⟩ := whenJob_eq_some hs
    cases hj.symm.trans hj'
    cases hs
    rfl
  | _ => cases hraises

theorem others_unchanged_iff {s s' : Sends} {a : SendAction} {j : Nat} {job : Job}
    (hs : s.step a = some s') (hj : s.jobs[j]? = some job) (hraises : s.raises j job a = true) :
    (∀ id p, s.pending.get? id = some p → (∃ k, k ≠ j ∧ s.Registered k p) →
      s'.pending.get? id = some p) ↔ s.Apart j job a := by
  constructor
  · intro hall hfails p hp hother
    have hsame := hall job.objectId p hp hother
    rw [get?_of_raises hs hj hraises, if_pos hfails, get?_failPending, if_pos rfl, hp,
      Option.map_some, Option.some.injEq] at hsame
    exact PendingTransfer.failed_eq_self.mp hsame
  · intro hapart id p hp hother
    rw [get?_of_raises hs hj hraises]
    by_cases hfails : a.failsPending = true
    · rw [if_pos hfails, get?_failPending]
      split
      · next he =>
        subst he
        rw [hp, Option.map_some, PendingTransfer.failed_eq_self.mpr (hapart hfails p hp hother)]
      · exact hp
    · rw [if_neg hfails]
      exact hp

/-! ### A transfer until its ack, timeout or close -/

/-- The transfer of job `k` under `id` waits for its ack. -/
def Sends.Open (s : Sends) (k : Nat) (id : String) (ops : List Nat) : Prop :=
  ∃ p, s.pending.get? id = some p ∧ p.ack = .waiting ∧ p.ops = ops ∧ s.Registered k p

/-- Neither an ack of the transfer, its timeout nor the close, and no failure of its own job; another
job that fails is apart. -/
def Undisturbed (k : Nat) (id : String) (s : Sends) (a : SendAction) : Prop :=
  (∀ success, a ≠ .ack id success) ∧ a ≠ .watch id ∧ a ≠ .close ∧
    ∀ j job, s.jobs[j]? = some job → s.raises j job a = true → j ≠ k ∧ s.Apart j job a

theorem whenWatch_watch {s s' : Sends} {id : String} {watch : Watch}
    {next : PendingTransfer → Option Sends} (h : s.whenWatch id watch next = some s') :
    ∃ p, s.pending.get? id = some p ∧ p.watch = watch ∧ next p = some s' := by
  unfold Sends.whenWatch at h
  split at h
  · next p hp =>
    split at h
    · next hw => exact ⟨p, hp, hw, h⟩
    · cases h
  · cases h

/-- A watcher that completes the operations no longer waits for the ack. -/
def Acked (s : Sends) : Prop :=
  ∀ id p, s.pending.get? id = some p → p.watch = .completing → p.ack ≠ .waiting

theorem Acked.congr {s s' : Sends} (h : Acked s) (hsame : s'.pending = s.pending) : Acked s' := by
  intro id p hp
  rw [hsame] at hp
  exact h id p hp

theorem Acked.set {s s' : Sends} {id : String} {p : PendingTransfer} (h : Acked s)
    (hset : s'.pending = s.pending.set id p) (hp : p.watch = .completing → p.ack ≠ .waiting) :
    Acked s' := by
  intro id' p' hp' hw
  rw [hset, Dict.get?_set] at hp'
  split at hp'
  · cases hp'
    exact hp hw
  · exact h id' p' hp' hw

theorem Acked.failPending {s : Sends} (h : Acked s) (id : String) : Acked (s.failPending id) := by
  intro id' p' hp' hw
  rw [get?_failPending] at hp'
  split at hp'
  · obtain ⟨p, hp, rfl⟩ := Option.map_eq_some_iff.mp hp'
    have hkept := h id p hp
    revert hw hkept
    obtain ⟨ops, ack, watch⟩ := p
    cases ack <;> cases watch <;> simp [PendingTransfer.failed]
  · exact h id' p' hp' hw

theorem Acked.step {s s' : Sends} {a : SendAction} (h : Acked s) (hs : s.step a = some s') :
    Acked s' := by
  cases a with
  | enqueue content =>
    cases hs
    exact h.congr rfl
  | cancelReady j =>
    obtain ⟨job, -, rfl⟩ := Option.map_eq_some_iff.mp hs
    exact h.congr rfl
  | start j =>
    obtain ⟨job, -, -, hs⟩ := whenJob_eq_some hs
    split at hs
    · cases hs
    · cases hs
      exact h.congr rfl
  | put j =>
    obtain ⟨job, -, hw, hs⟩ := whenJob_eq_some hs
    split at hs
    · cases hs
    cases hs
    by_cases hlast : job.ops.length + 1 = job.content.tensors
    · cases hdup : s.pending.contains job.objectId with
      | true =>
        simp only [Sends.put, Sends.register, Sends.takeCredit, List.length_append,
          List.length_singleton, hlast, if_true, hdup]
        have hcredit : Acked (s.takeCredit job).1 := h.congr rfl
        exact (hcredit.failPending job.objectId).congr rfl
      | false =>
        rw [put_register hlast hdup]
        exact h.set rfl (fun hc => by cases hc)
    · rw [put_more hw hlast]
      exact h.congr rfl
  | putUnusable j =>
    obtain ⟨job, -, -, hs⟩ := whenJob_eq_some hs
    split at hs
    · cases hs
    · cases hs
      exact h.congr rfl
  | fail j =>
    obtain ⟨job, -, -, hs⟩ := whenJob_eq_some hs
    cases hs
    exact h.congr rfl
  | published j =>
    obtain ⟨job, -, -, hs⟩ := whenJob_eq_some hs
    cases hs
    unfold Sends.published
    split
    · exact h.congr rfl
    · next p hp =>
      split
      · exact (h.failPending job.objectId).congr rfl
      · have harmed : Acked { s with
            pending := s.pending.set job.objectId { p with watch := .waitingAck } } :=
          h.set rfl (fun hc => by cases hc)
        split
        · exact (harmed.failPending job.objectId).congr rfl
        · exact harmed.congr rfl
  | publishFails j =>
    obtain ⟨job, -, -, hs⟩ := whenJob_eq_some hs
    cases hs
    exact (h.failPending job.objectId).congr rfl
  | ack id success =>
    cases hs
    unfold Sends.ackTransfer
    split
    · exact h
    · split
      · exact h.set rfl (fun _ => by cases success <;> simp)
      · exact h
  | watch id =>
    obtain ⟨p, -, -, hs⟩ := whenWatch_watch hs
    cases hs
    exact h.set rfl (fun _ => by split <;> simp_all)
  | complete id =>
    obtain ⟨p, -, -, hs⟩ := whenWatch_watch hs
    obtain ⟨op, -, rfl⟩ := Option.map_eq_some_iff.mp hs
    exact h.congr rfl
  | pop id =>
    obtain ⟨p, -, -, hs⟩ := whenWatch_watch hs
    split at hs
    · cases hs
    · cases hs
      intro id' p' hp' hw
      rw [Dict.get?_erase] at hp'
      split at hp'
      · cases hp'
      · exact h id' p' hp' hw
  | close =>
    cases hs
    have hall : ∀ (ids : List String) (t : Sends), Acked t →
        Acked (ids.foldl Sends.failPending t) := by
      intro ids
      induction ids with
      | nil => exact fun _ ht => ht
      | cons id rest ih => exact fun t ht => ih _ (ht.failPending id)
    exact hall _ _ (h.congr rfl)

theorem registered_step {s s' : Sends} {a : SendAction} {k : Nat} {p : PendingTransfer}
    (hs : s.step a = some s') (h : s.Registered k p) : s'.Registered k p := by
  obtain ⟨job, hk, hreg, hops⟩ := h
  obtain hsame | ⟨content, -, hadd⟩ | ⟨j, old, new, hj, hchange, hset⟩ := step_jobs hs
  · exact ⟨job, by rw [hsame]; exact hk, hreg, hops⟩
  · refine ⟨job, ?_, hreg, hops⟩
    rw [hadd, List.getElem?_append_left (List.getElem?_eq_some_iff.mp hk).1]
    exact hk
  · by_cases he : j = k
    · subst he
      cases hj.symm.trans hk
      have hnew : s'.jobs[j]? = some new := by
        rw [hset, List.getElem?_set_self (List.getElem?_eq_some_iff.mp hj).1]
      cases hchange with
      | cancelReady => exact ⟨_, hnew, hreg, hops⟩
      | published hp => exact ⟨_, hnew, rfl, hops⟩
      | publishFails hp => exact ⟨_, hnew, rfl, hops⟩
      | start hp | more hp | duplicate hp | register hp | unusable hp | fail hp =>
        rw [hp] at hreg
        cases hreg
    · refine ⟨job, ?_, hreg, hops⟩
      rw [hset, List.getElem?_set_ne he]
      exact hk

theorem open_of_not_raises {s s' : Sends} {a : SendAction} {id : String} {p : PendingTransfer}
    (hacked : Acked s) (hs : s.step a = some s')
    (hraises : ∀ j job, s.jobs[j]? = some job → s.raises j job a = false)
    (hack : ∀ success, a ≠ .ack id success) (hwatch : a ≠ .watch id) (hclose : a ≠ .close)
    (hp : s.pending.get? id = some p) (hwaiting : p.ack = .waiting) :
    ∃ p', s'.pending.get? id = some p' ∧ p'.ack = .waiting ∧ p'.ops = p.ops := by
  cases a with
  | enqueue content =>
    cases hs
    exact ⟨p, hp, hwaiting, rfl⟩
  | cancelReady j =>
    obtain ⟨job, -, rfl⟩ := Option.map_eq_some_iff.mp hs
    exact ⟨p, hp, hwaiting, rfl⟩
  | start j =>
    obtain ⟨job, -, -, hs⟩ := whenJob_eq_some hs
    split at hs
    · cases hs
    · cases hs
      exact ⟨p, hp, hwaiting, rfl⟩
  | put j =>
    obtain ⟨job, hj, hw, hs⟩ := whenJob_eq_some hs
    have hno := hraises j job hj
    split at hs
    · cases hs
    cases hs
    by_cases hlast : job.ops.length + 1 = job.content.tensors
    · have hdup : s.pending.contains job.objectId = false := by
        simpa [Sends.raises, hlast] using hno
      rw [put_register hlast hdup]
      refine ⟨p, ?_, hwaiting, rfl⟩
      have hne : id ≠ job.objectId := by
        rintro rfl
        rw [Dict.contains_eq_false, hp] at hdup
        cases hdup
      simp only [Sends.setJob, Dict.get?_set, if_neg hne]
      exact hp
    · rw [put_more hw hlast]
      exact ⟨p, hp, hwaiting, rfl⟩
  | putUnusable j =>
    obtain ⟨job, -, -, hs⟩ := whenJob_eq_some hs
    split at hs
    · cases hs
    · cases hs
      exact ⟨p, hp, hwaiting, rfl⟩
  | fail j =>
    obtain ⟨job, -, -, hs⟩ := whenJob_eq_some hs
    cases hs
    exact ⟨p, hp, hwaiting, rfl⟩
  | published j =>
    obtain ⟨job, hj, hph, hs⟩ := whenJob_eq_some hs
    have hno := hraises j job hj
    cases hs
    unfold Sends.published
    cases hentry : s.pending.get? job.objectId with
    | none => exact ⟨p, hp, hwaiting, rfl⟩
    | some q =>
      simp only [Sends.raises, hentry, decide_true, Bool.true_and, Bool.or_eq_false_iff,
        decide_eq_false_iff_not, not_not] at hno
      simp only [hno.1, ne_eq, not_true_eq_false, if_false, hno.2, Bool.false_eq_true,
        Sends.setJob, Dict.get?_set]
      split
      · next he =>
        subst he
        cases hentry.symm.trans hp
        exact ⟨_, rfl, hwaiting, rfl⟩
      · exact ⟨p, hp, hwaiting, rfl⟩
  | publishFails j =>
    obtain ⟨job, hj, hph, hs⟩ := whenJob_eq_some hs
    have hno := hraises j job hj
    simp [Sends.raises] at hno
  | ack id' success =>
    have hne : id ≠ id' := fun he => hack success (he ▸ rfl)
    cases hs
    unfold Sends.ackTransfer
    split
    · exact ⟨p, hp, hwaiting, rfl⟩
    · split
      · exact ⟨p, by rw [Dict.get?_set, if_neg hne]; exact hp, hwaiting, rfl⟩
      · exact ⟨p, hp, hwaiting, rfl⟩
  | watch id' =>
    have hne : id ≠ id' := fun he => hwatch (he ▸ rfl)
    obtain ⟨q, -, -, hs⟩ := whenWatch_watch hs
    cases hs
    exact ⟨p, by rw [Dict.get?_set, if_neg hne]; exact hp, hwaiting, rfl⟩
  | complete id' =>
    obtain ⟨q, -, -, hs⟩ := whenWatch_watch hs
    obtain ⟨op, -, rfl⟩ := Option.map_eq_some_iff.mp hs
    exact ⟨p, hp, hwaiting, rfl⟩
  | pop id' =>
    obtain ⟨q, hq, hcompleting, hs⟩ := whenWatch_watch hs
    split at hs
    · cases hs
    · cases hs
      have hne : id ≠ id' := by
        rintro rfl
        cases hp.symm.trans hq
        exact hacked id p hp hcompleting hwaiting
      exact ⟨p, by rw [Dict.get?_erase, if_neg hne]; exact hp, hwaiting, rfl⟩
  | close => exact absurd rfl hclose

theorem open_step {s s' : Sends} {a : SendAction} {k : Nat} {id : String} {ops : List Nat}
    (hacked : Acked s) (hs : s.step a = some s') (hcalm : Undisturbed k id s a)
    (h : s.Open k id ops) : s'.Open k id ops := by
  obtain ⟨hack, hwatch, hclose, hraises⟩ := hcalm
  obtain ⟨p, hp, hwaiting, rfl, hreg⟩ := h
  by_cases hany : ∃ j job, s.jobs[j]? = some job ∧ s.raises j job a = true
  · obtain ⟨j, job, hj, hraise⟩ := hany
    obtain ⟨hne, hapart⟩ := hraises j job hj hraise
    exact ⟨p, (others_unchanged_iff hs hj hraise).mpr hapart id p hp ⟨k, hne.symm, hreg⟩, hwaiting,
      rfl, registered_step hs hreg⟩
  · have hnone : ∀ j job, s.jobs[j]? = some job → s.raises j job a = false := by
      intro j job hj
      exact Bool.eq_false_iff.mpr fun hraise => hany ⟨j, job, hj, hraise⟩
    obtain ⟨p', hp', hwaiting', hops⟩ :=
      open_of_not_raises hacked hs hnone hack hwatch hclose hp hwaiting
    obtain ⟨owner, howner, hregistered, hown⟩ := registered_step hs hreg
    exact ⟨p', hp', hwaiting', hops, owner, howner, hregistered, hown.trans hops.symm⟩

theorem acked_of_reaches {credits : Nat} {s : Sends}
    (h : (sends credits).Reaches Machine.anyAction s) : Acked s :=
  h.invariant (fun _ _ hp => by cases hp) fun _ _ _ hs _ hstep => Acked.step hs hstep

/-- In every run, a send that fails leaves each transfer that another job registered as it is
exactly if none of them that waits for its ack or its watcher is pending under the object ID that the
failed job looks up.  It then stays pending until its ack, its timeout or the close, through every
failure of which the same holds. -/
theorem failed_send_apart_iff {credits : Nat} {s s' : Sends} {a : SendAction} {j : Nat} {job : Job}
    (h : (sends credits).Reaches Machine.anyAction s) (hj : s.jobs[j]? = some job)
    (hraises : s.raises j job a = true) (hs : (sends credits).step s a = some s') :
    ((∀ id p, s.pending.get? id = some p → (∃ k, k ≠ j ∧ s.Registered k p) →
      s'.pending.get? id = some p) ↔ s.Apart j job a) ∧
    (s.Apart j job a → ∀ k id ops, k ≠ j → s.Open k id ops →
      ∀ t, (sends credits).Path (Undisturbed k id) s' t → t.Open k id ops) := by
  refine ⟨others_unchanged_iff hs hj hraises, ?_⟩
  rintro hapart k id ops hne ⟨p, hp, hwaiting, rfl, hreg⟩ t hpath
  have hopen : s'.Open k id p.ops :=
    ⟨p, (others_unchanged_iff hs hj hraises).mpr hapart id p hp ⟨k, hne, hreg⟩, hwaiting, rfl,
      registered_step hs hreg⟩
  have hkept : Acked t ∧ t.Open k id p.ops :=
    hpath.invariant (P := fun u => Acked u ∧ u.Open k id p.ops)
      ⟨Acked.step (acked_of_reaches h) hs, hopen⟩
      fun _ _ _ hu hcalm hstep => ⟨hu.1.step hstep, open_step hu.1 hstep hcalm hu.2⟩
  exact hkept.2

/-- A transfer to one stage waits for its ack while a job for another one publishes. -/
def twoStages : List SendAction :=
  [.enqueue (.payload "r" "a" "b"), .start 0, .put 0, .published 0,
    .enqueue (.payload "r" "a" "c"), .start 1, .put 1]

theorem failed_send_apart_two_stages :
    ∃ s s' p, (sends 2).exec (sends 2).init twoStages = some s ∧
      (sends 2).step s (.publishFails 1) = some s' ∧
      s.pending.get? "r:payload:a:b" = some p ∧ p.ack = .waiting ∧
      s'.pending.get? "r:payload:a:b" = some p := by
  let M := sends 2
  obtain ⟨s, hs⟩ : ∃ s, M.exec M.init twoStages = some s :=
    Option.isSome_iff_exists.mp (by decide +kernel)
  obtain ⟨s', hs'⟩ : ∃ s', (M.exec M.init twoStages).bind (M.step · (.publishFails 1)) =
      some s' := Option.isSome_iff_exists.mp (by decide +kernel)
  have hfirst : ((M.exec M.init twoStages).bind (·.jobs[0]?)).map
      (fun job => (job.ops, job.phase)) = some ([0], .ended true) := by decide +kernel
  have hsecond : ((M.exec M.init twoStages).bind (·.jobs[1]?)).map
      (fun job => (job.ops, job.objectId)) = some ([1], "r:payload:a:c") := by decide +kernel
  have hentry : ((M.exec M.init twoStages).bind (·.pending.get? "r:payload:a:b")).map
      (fun p => (p.ops, p.ack)) = some ([0], .waiting) := by decide +kernel
  have hown : ((M.exec M.init twoStages).bind (·.pending.get? "r:payload:a:c")).map (·.ops) =
      some [1] := by decide +kernel
  rw [hs] at hs' hentry hfirst hsecond hown
  obtain ⟨p, hp, hopen⟩ := Option.map_eq_some_iff.mp hentry
  obtain ⟨first, hfirst, hended⟩ := Option.map_eq_some_iff.mp hfirst
  obtain ⟨job, hj, hjob⟩ := Option.map_eq_some_iff.mp hsecond
  simp only [Prod.mk.injEq] at hopen hended hjob
  have hreach : (sends 2).Reaches Machine.anyAction s := Machine.path_of_exec hs
  have hapart : s.Apart 1 job (.publishFails 1) := by
    rintro - q hq ⟨k, hne, other, hk, -, hops⟩
    rw [hjob.2] at hq
    simp only [Option.bind_some, hq, Option.map_some, Option.some.injEq] at hown
    have hsame := (inv_of_reaches hreach).apart hj hk 1 (by rw [hjob.1]; simp)
      (by rw [hops, hown]; simp)
    exact absurd hsame.symm hne
  have hkept := (failed_send_apart_iff hreach hj (a := .publishFails 1) rfl hs').1.mpr hapart
  exact ⟨s, s', p, hs, hs', hp, hopen.2, hkept _ p hp
    ⟨0, by decide, first, hfirst, by rw [hended.2]; rfl, hended.1.trans hopen.1.symm⟩⟩

/-- A payload is sent a second time over one edge while the first transfer waits for its ack. -/
def secondOfOne : List SendAction :=
  [.enqueue (.payload "r" "a" "b"), .start 0, .put 0, .published 0,
    .enqueue (.payload "r" "a" "b"), .start 1]

/-- A second job of one payload fails the transfer of the first, which has come to its receiver. -/
theorem duplicate_send_fails_first :
    ∃ s s', (sends 2).exec (sends 2).init secondOfOne = some s ∧
      (sends 2).step s (.put 1) = some s' ∧
      (s.pending.get? "r:payload:a:b").map (fun p => (p.ops, p.ack)) = some ([0], Ack.waiting) ∧
      (s'.pending.get? "r:payload:a:b").map (fun p => (p.ops, p.ack)) =
        some ([0], Ack.failed) := by
  let M := sends 2
  obtain ⟨s, hs⟩ : ∃ s, M.exec M.init secondOfOne = some s :=
    Option.isSome_iff_exists.mp (by decide +kernel)
  obtain ⟨s', hs'⟩ : ∃ s', (M.exec M.init secondOfOne).bind (M.step · (.put 1)) = some s' :=
    Option.isSome_iff_exists.mp (by decide +kernel)
  have hbefore : ((M.exec M.init secondOfOne).bind (·.pending.get? "r:payload:a:b")).map
      (fun p => (p.ops, p.ack)) = some ([0], .waiting) := by decide +kernel
  have hafter : (((M.exec M.init secondOfOne).bind (M.step · (.put 1))).bind
      (·.pending.get? "r:payload:a:b")).map (fun p => (p.ops, p.ack)) = some ([0], .failed) := by
    decide +kernel
  rw [hs'] at hafter
  rw [hs] at hs' hbefore
  exact ⟨s, s', hs, hs', hbefore, hafter⟩

end Comm
