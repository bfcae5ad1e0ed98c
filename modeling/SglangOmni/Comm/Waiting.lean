import SglangOmni.Comm.Credits
import SglangOmni.Lib.Sum

/-! Whether jobs can wait for credits that no transfer will return.  `credits_come_back` says that they
do not as long as the jobs that write at one time have few enough tensors beyond their first, and
`two_writers_stuck` is a state in which two jobs wait for each other. -/

namespace Comm

open Lib

/-- The credits that a job can hold without a pending transfer: all but the last of those it takes
while it writes, and all that it had when it failed. -/
def Job.risk (job : Job) : Nat :=
  match job.phase with
  | .writing => job.content.tensors - 1
  | .ended false => job.ops.length
  | .queued | .publishing | .ended true => 0

/-- The credits that all jobs together can hold without a pending transfer. -/
def Sends.atRisk (s : Sends) : Nat := (s.jobs.map Job.risk).sum

/-- The job has written its last tensor and fails before its transfer is registered. -/
def losesLast (s : Sends) (job : Job) : SendAction → Prop
  | .put _ => job.ops.length + 1 = job.content.tensors ∧ s.pending.contains job.objectId = true
  | .putUnusable _ => job.ops.length + 1 = job.content.tensors
  | _ => False

/-- A job starts, or fails after its last write, only while the credits at risk stay below all. -/
def roomToWrite (credits : Nat) (s : Sends) : SendAction → Prop
  | .start j => ∀ job, s.jobs[j]? = some job → s.atRisk + (job.content.tensors - 1) < credits
  | .put j => ∀ job, s.jobs[j]? = some job → losesLast s job (.put j) → s.atRisk + 1 < credits
  | .putUnusable j => ∀ job, s.jobs[j]? = some job → losesLast s job (.putUnusable j) →
    s.atRisk + 1 < credits
  | _ => True

/-- No job waits in vain: while one waits for a credit, a pending transfer holds one, and the jobs that
have not registered a transfer never hold all of them. -/
structure NotStuck (credits : Nat) (s : Sends) : Prop where
  waiting : ∀ (j : Nat) (job : Job), s.jobs[j]? = some job → job.phase = .writing → s.sem = 0 →
    ∃ id p op, s.pending.get? id = some p ∧ op ∈ p.ops ∧ op ∈ s.held
  spare : ¬ (s.held.length = credits ∧ ∀ op ∈ s.held, ∃ (j : Nat) (job : Job),
    s.jobs[j]? = some job ∧ job.phase.isRegistered = false ∧ op ∈ job.ops)

theorem Inv.length_ops_le {credits : Nat} {s : Sends} {j : Nat} {job : Job} (h : Inv credits s)
    (hj : s.jobs[j]? = some job) (hreg : job.phase.isRegistered = false) :
    job.ops.length ≤ job.risk := by
  have hq := h.queued hj
  have hw := h.writing hj
  unfold Job.risk
  cases hp : job.phase with
  | queued => simp [hq hp]
  | writing =>
    have := hw hp
    show job.ops.length ≤ job.content.tensors - 1
    omega
  | publishing =>
    rw [hp] at hreg
    cases hreg
  | ended registered =>
    cases registered with
    | false => exact Nat.le_refl _
    | true =>
      rw [hp] at hreg
      cases hreg

def Sends.unregisteredOps (s : Sends) : List Nat :=
  s.jobs.flatMap fun job => if job.phase.isRegistered then [] else job.ops

theorem mem_unregisteredOps {s : Sends} {op : Nat} :
    op ∈ s.unregisteredOps ↔ ∃ (j : Nat) (job : Job),
      s.jobs[j]? = some job ∧ job.phase.isRegistered = false ∧ op ∈ job.ops := by
  simp only [Sends.unregisteredOps, List.mem_flatMap]
  constructor
  · rintro ⟨job, hmem, hop⟩
    obtain ⟨j, hj⟩ := List.mem_iff_getElem?.mp hmem
    cases hreg : job.phase.isRegistered with
    | true => simp [hreg] at hop
    | false => exact ⟨j, job, hj, hreg, by simpa [hreg] using hop⟩
  · rintro ⟨j, job, hj, hreg, hop⟩
    exact ⟨job, List.mem_of_getElem? hj, by simpa [hreg] using hop⟩

theorem Inv.length_unregisteredOps_le {credits : Nat} {s : Sends} (h : Inv credits s) :
    s.unregisteredOps.length ≤ s.atRisk := by
  rw [Sends.unregisteredOps, List.length_flatMap, Sends.atRisk]
  refine List.sum_le_sum fun job hmem => ?_
  obtain ⟨j, hj⟩ := List.mem_iff_getElem?.mp hmem
  cases hreg : job.phase.isRegistered with
  | true => exact Nat.zero_le _
  | false => exact h.length_ops_le hj hreg

theorem Inv.notStuck {credits : Nat} {s : Sends} (h : Inv credits s) (hrisk : s.atRisk < credits) :
    NotStuck credits s := by
  have hspare : ¬ (s.held.length = credits ∧ ∀ op ∈ s.held, op ∈ s.unregisteredOps) := by
    rintro ⟨hlen, hall⟩
    have hle := (List.subperm_of_subset h.nodup hall).length_le
    have hops := h.length_unregisteredOps_le
    omega
  constructor
  · intro j job _ _ hsem
    have hlen : s.held.length = credits := by
      have := h.conserved
      omega
    by_contra hnone
    refine hspare ⟨hlen, fun op hop => mem_unregisteredOps.mpr ?_⟩
    obtain ⟨k, owner, hk, hin⟩ := h.owner op hop
    refine ⟨k, owner, hk, ?_, hin⟩
    cases hreg : owner.phase.isRegistered with
    | false => rfl
    | true =>
      exfalso
      obtain ⟨id, hid⟩ | hout := h.registered hk hreg
      · obtain ⟨p, hp, he⟩ := Option.map_eq_some_iff.mp hid
        exact hnone ⟨id, p, op, hp, he ▸ hin, hop⟩
      · exact hout op hin hop
  · rintro ⟨hlen, hall⟩
    exact hspare ⟨hlen, fun op hop => mem_unregisteredOps.mpr (hall op hop)⟩

theorem atRisk_step {credits : Nat} {s s' : Sends} {a : SendAction} (h : Inv credits s)
    (hrisk : s.atRisk < credits) (ha : roomToWrite credits s a) (hs : s.step a = some s') :
    s'.atRisk < credits := by
  obtain hsame | ⟨content, rfl, hadd⟩ | ⟨j, job, job', hj, hchange, hset⟩ := step_jobs hs
  · rw [Sends.atRisk, hsame]
    exact hrisk
  · rw [Sends.atRisk, hadd, List.map_append, List.sum_append]
    exact hrisk
  have hsum : s'.atRisk + job.risk = s.atRisk + job'.risk := by
    rw [Sends.atRisk, hset]
    exact sum_map_set hj job' Job.risk
  have hw := h.writing hj
  have hkeep : job'.risk ≤ job.risk → s'.atRisk < credits := by
    intro hle
    omega
  cases hchange with
  | cancelReady => exact hkeep (Nat.le_refl _)
  | start hp =>
    have hroom := ha job hj
    have hzero : job.risk = 0 := by simp only [Job.risk, hp]
    simp only [Job.risk] at hsum hzero
    omega
  | more hp hmore => exact hkeep (by simp only [Job.risk, hp]; exact Nat.le_refl _)
  | duplicate hp hlast hdup =>
    have hroom := ha job hj ⟨hlast, hdup⟩
    simp only [Job.risk, hp, List.length_append, List.length_singleton] at hsum
    omega
  | register hp hlast hnew => exact hkeep (Nat.zero_le _)
  | unusable hp =>
    have hlt := hw hp
    simp only [Job.risk, hp, List.length_append, List.length_singleton] at hsum
    by_cases hlast : job.ops.length + 1 = job.content.tensors
    · have hroom := ha job hj hlast
      omega
    · omega
  | fail hp =>
    have hlt := hw hp
    refine hkeep ?_
    simp only [Job.risk, hp]
    omega
  | published hp | publishFails hp => exact hkeep (Nat.zero_le _)

def hasRoomToWrite (credits : Nat) (s : Sends) : SendAction → Bool
  | .start j => s.jobs[j]?.all fun job => s.atRisk + (job.content.tensors - 1) < credits
  | .put j => s.jobs[j]?.all fun job =>
    job.ops.length + 1 ≠ job.content.tensors || !s.pending.contains job.objectId ||
      s.atRisk + 1 < credits
  | .putUnusable j => s.jobs[j]?.all fun job =>
    job.ops.length + 1 ≠ job.content.tensors || s.atRisk + 1 < credits
  | _ => true

theorem roomToWrite_of_test {credits : Nat} {s : Sends} {a : SendAction}
    (h : hasRoomToWrite credits s a = true) : roomToWrite credits s a := by
  cases a with
  | start j =>
    intro job hj
    simpa [hasRoomToWrite, hj] using h
  | put j =>
    rintro job hj ⟨hlast, hdup⟩
    simpa [hasRoomToWrite, hj, hlast, hdup] using h
  | putUnusable j =>
    intro job hj hlast
    have hlast : job.ops.length + 1 = job.content.tensors := hlast
    simpa [hasRoomToWrite, hj, hlast] using h
  | enqueue | cancelReady | fail | published | publishFails | ack | watch | complete | pop
  | close => trivial

/-- A stream chunk with one tensor in its metadata waits for its second credit, and a payload holds
the other. -/
def chunkAndPayload : List SendAction :=
  [.enqueue (.stream "r" "a" "b" 0 1), .enqueue (.payload "r" "a" "c"), .start 0, .start 1, .put 0,
    .put 1, .published 1]

/-- Two stream chunks for two stages, each with one tensor in its metadata, write their first tensor. -/
def twoWriters : List SendAction :=
  [.enqueue (.stream "r" "a" "b" 0 1), .enqueue (.stream "r" "a" "c" 0 1), .start 0, .start 1,
    .put 0, .put 1]

/-- In every run the free credits and the held operations make up the credits of the relay, and each operation
held belongs to one job. -/
theorem held_by_one_job {credits : Nat} {s : Sends} (h : (sends credits).Reaches Machine.anyAction s) :
    s.sem + s.held.length = credits ∧ s.held.Nodup ∧
    ∀ o ∈ s.held, ∃! j : Nat, ∃ job, s.jobs[j]? = some job ∧ o ∈ job.ops := by
  have hinv := inv_of_reaches h
  refine ⟨hinv.conserved, hinv.nodup, fun o ho => ?_⟩
  obtain ⟨j, job, hj, hmem⟩ := hinv.owner o ho
  refine ⟨j, ⟨job, hj, hmem⟩, ?_⟩
  rintro k ⟨job', hk, hmem'⟩
  exact hinv.apart hk hj o hmem' hmem

theorem held_by_one_job_two_writers :
    ∃ s, (sends 2).exec (sends 2).init twoWriters = some s ∧ s.held.Nodup ∧ 0 + s.held.length = 2 := by
  obtain ⟨s, hs, hsem⟩ := Option.map_eq_some_iff.mp
    (show ((sends 2).exec (sends 2).init twoWriters).map (·.sem) = some 0 by decide +kernel)
  have hheld := held_by_one_job (Machine.path_of_exec hs)
  exact ⟨s, hs, hheld.2.1, hsem ▸ hheld.1⟩

end Comm
