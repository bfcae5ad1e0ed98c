import SglangOmni.Comm.Credits

/-! What becomes of the operations of a send job that fails.  `operations_owned_iff` says that a job
that ends leaves none of them behind exactly if it does not fail between its first put and the
registration of its transfer; `second_write_raises` is a job that does. -/

namespace Comm

open Lib

def JobPhase.isEnded : JobPhase → Bool
  | .ended _ => true
  | .queued | .writing | .publishing => false

/-- The operation belongs to a pending transfer or is completed, its credit given back. -/
def Owned (s : Sends) (op : Nat) : Prop :=
  (∃ id p, s.pending.get? id = some p ∧ op ∈ p.ops) ∨ op ∉ s.held

/-- The action fails job `j` after a put has returned and before its transfer is registered: it raises
in a later write or in what comes after the put, or finds its object ID pending. -/
def losesWrites (s : Sends) (j : Nat) : SendAction → Prop
  | .fail k => k = j ∧ ∃ job, s.jobs[j]? = some job ∧ job.ops ≠ []
  | .putUnusable k => k = j
  | .put k => k = j ∧ ∃ job, s.jobs[j]? = some job ∧
    job.ops.length + 1 = job.content.tensors ∧ s.pending.contains job.objectId = true
  | _ => False

theorem Inv.owned_iff {credits : Nat} {s : Sends} {j : Nat} {job : Job} {registered : Bool}
    (h : Inv credits s) (hj : s.jobs[j]? = some job) (hend : job.phase = .ended registered) :
    (∀ op ∈ job.ops, Owned s op) ↔ registered = true ∨ job.ops = [] := by
  have hreg : job.phase.isRegistered = registered := by
    rw [hend]
    cases registered <;> rfl
  constructor
  · intro hall
    cases registered with
    | true => exact .inl rfl
    | false =>
      refine .inr (List.eq_nil_iff_forall_not_mem.mpr fun op hop => ?_)
      obtain ⟨id, p, hp, hin⟩ | hout := hall op hop
      · obtain ⟨k, job', hk, hr, hops⟩ :=
          h.entry (show s.opsOf id = some p.ops by rw [Sends.opsOf, hp]; rfl)
        cases h.apart hj hk op hop (hops ▸ hin)
        cases hj.symm.trans hk
        rw [hreg] at hr
        cases hr
      · exact hout (h.kept hj hreg op hop)
  · rintro (rfl | hnil) op hop
    · obtain ⟨id, hid⟩ | hout := h.registered hj hreg
      · obtain ⟨p, hp, he⟩ := Option.map_eq_some_iff.mp hid
        exact .inl ⟨id, p, hp, he ▸ hop⟩
      · exact .inr (hout op hop)
    · rw [hnil] at hop
      cases hop

theorem ends_cases {s s' : Sends} {a : SendAction} {j : Nat} {job job' : Job}
    (hs : s.step a = some s') (hj : s.jobs[j]? = some job) (hrun : job.phase.isEnded = false)
    (hj' : s'.jobs[j]? = some job') (hend : job'.phase.isEnded = true) :
    ∃ registered, job'.phase = .ended registered ∧
      (registered = true ∨ job'.ops = [] ↔ ¬ losesWrites s j a) := by
  obtain hsame | ⟨content, rfl, hadd⟩ | ⟨k, old, new, hk, hchange, hset⟩ := step_jobs hs
  · rw [hsame, hj] at hj'
    cases hj'
    rw [hrun] at hend
    cases hend
  · rw [hadd, List.getElem?_append_left (List.getElem?_eq_some_iff.mp hj).1, hj] at hj'
    cases hj'
    rw [hrun] at hend
    cases hend
  rw [hset, List.getElem?_set] at hj'
  split at hj'
  · next he =>
    subst he
    cases hj.symm.trans hk
    rw [if_pos (List.getElem?_eq_some_iff.mp hj).1] at hj'
    cases hj'
    cases hchange with
    | cancelReady => exact absurd hend (by simp [hrun])
    | start | more | register => cases hend
    | duplicate hp hlast hdup => exact ⟨false, rfl, by simp [losesWrites, hj, hlast, hdup]⟩
    | unusable hp => exact ⟨false, rfl, by simp [losesWrites]⟩
    | fail hp => exact ⟨false, rfl, by simp [losesWrites, hj]⟩
    | published hp => exact ⟨true, rfl, by simp [losesWrites]⟩
    | publishFails hp => exact ⟨true, rfl, by simp [losesWrites]⟩
  · rw [hj] at hj'
    cases hj'
    rw [hrun] at hend
    cases hend

/-- In every run, a step that ends a job leaves each operation of the job with a pending transfer or
completed exactly if it does not fail the job between its first put and its registration. -/
theorem operations_owned_iff {credits : Nat} {s s' : Sends} {a : SendAction} {j : Nat}
    {job job' : Job} (h : (sends credits).Reaches Machine.anyAction s)
    (hs : (sends credits).step s a = some s') (hj : s.jobs[j]? = some job)
    (hrun : job.phase.isEnded = false) (hj' : s'.jobs[j]? = some job')
    (hend : job'.phase.isEnded = true) :
    (∀ op ∈ job'.ops, Owned s' op) ↔ ¬ losesWrites s j a := by
  obtain ⟨registered, hphase, hloses⟩ := ends_cases hs hj hrun hj' hend
  have hinv : Inv credits s' := Inv.step (inv_of_reaches h) hs
  exact (hinv.owned_iff hj' hphase).trans hloses

def publishingPayload : List SendAction := [.enqueue (.payload "r" "a" "b"), .start 0, .put 0]

theorem operations_owned_iff_publishing_payload :
    ∃ s s' job', (sends 2).Reaches Machine.anyAction s ∧
      (sends 2).step s (.publishFails 0) = some s' ∧ s'.jobs[0]? = some job' ∧ job'.ops = [0] ∧
      ∀ op ∈ job'.ops, Owned s' op := by
  let M := sends 2
  obtain ⟨s, hs⟩ : ∃ s, M.exec M.init publishingPayload = some s :=
    Option.isSome_iff_exists.mp (by decide +kernel)
  obtain ⟨s', hs'⟩ : ∃ s', (M.exec M.init publishingPayload).bind (M.step · (.publishFails 0)) =
      some s' := Option.isSome_iff_exists.mp (by decide +kernel)
  have hbefore : ((M.exec M.init publishingPayload).bind (·.jobs[0]?)).map (·.phase.isEnded) =
      some false := by decide +kernel
  have hafter : (((M.exec M.init publishingPayload).bind (M.step · (.publishFails 0))).bind
      (·.jobs[0]?)).map (fun job => (job.phase.isEnded, job.ops)) = some (true, [0]) := by
    decide +kernel
  rw [hs'] at hafter
  rw [hs] at hs' hbefore
  obtain ⟨job, hj, hrun⟩ := Option.map_eq_some_iff.mp hbefore
  obtain ⟨job', hj', hend⟩ := Option.map_eq_some_iff.mp hafter
  simp only [Prod.mk.injEq] at hend
  have hreach : (sends 2).Reaches Machine.anyAction s := Machine.path_of_exec hs
  exact ⟨s, s', job', hreach, hs', hj', hend.2,
    (operations_owned_iff hreach hs' hj hrun hj' hend.1).mpr id⟩

/-- A stream chunk with one tensor in its metadata: the write of the second tensor raises. -/
def secondWriteRaises : List SendAction :=
  [.enqueue (.stream "r" "a" "b" 0 1), .start 0, .put 0, .fail 0]

/-- The job has ended, and the operation of its first write holds one of two credits and belongs to
nothing. -/
theorem second_write_raises :
    ∃ s job, (sends 2).Reaches Machine.anyAction s ∧ s.jobs[0]? = some job ∧
      job.phase.isEnded = true ∧ job.ops = [0] ∧ ¬ Owned s 0 ∧ s.sem = 1 := by
  let M := sends 2
  obtain ⟨s, hs⟩ : ∃ s, M.exec M.init secondWriteRaises = some s :=
    Option.isSome_iff_exists.mp (by decide +kernel)
  have hobs : (M.exec M.init secondWriteRaises).map (fun s => (s.pending.entries.isEmpty, s.held, s.sem)) =
      some (true, [0], 1) := by decide +kernel
  have hjob : ((M.exec M.init secondWriteRaises).bind (·.jobs[0]?)).map
      (fun job => (job.phase.isEnded, job.ops)) = some (true, [0]) := by decide +kernel
  rw [hs] at hobs hjob
  obtain ⟨job, hj, hend⟩ := Option.map_eq_some_iff.mp hjob
  simp only [Option.map_some, Option.some.injEq, Prod.mk.injEq, List.isEmpty_iff] at hobs hend
  obtain ⟨hempty, hheld, hsem⟩ := hobs
  refine ⟨s, job, Machine.path_of_exec hs, hj, hend.1, hend.2, ?_, hsem⟩
  rintro (⟨id, p, hp, -⟩ | hout)
  · rw [Dict.get?, hempty] at hp
    cases hp
  · rw [hheld] at hout
    simp at hout

end Comm
