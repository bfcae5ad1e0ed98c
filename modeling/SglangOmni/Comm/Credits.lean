import Mathlib.Algebra.BigOperators.Group.List.Basic
import Mathlib.Algebra.Order.BigOperators.Group.List
import SglangOmni.Comm.Sends

/-! Who holds the relay's credits.  Every operation that is not completed belongs to one job, and to the
pending transfer of that job once it has registered one; an operation of a job that failed before that
belongs to nothing. -/

namespace Comm

open Lib

def JobPhase.isRegistered : JobPhase → Bool
  | .queued | .writing | .ended false => false
  | .publishing | .ended true => true

def Sends.opsOf (s : Sends) (objectId : String) : Option (List Nat) :=
  (s.pending.get? objectId).map (·.ops)

structure Inv (credits : Nat) (s : Sends) : Prop where
  conserved : s.sem + s.held.length = credits
  nodup : s.held.Nodup
  numbered : ∀ {j : Nat} {job : Job}, s.jobs[j]? = some job → ∀ o ∈ job.ops, o < s.nextOp
  apart : ∀ {j k : Nat} {job job' : Job}, s.jobs[j]? = some job → s.jobs[k]? = some job' →
    ∀ o ∈ job.ops, o ∈ job'.ops → j = k
  owner : ∀ o ∈ s.held, ∃ (j : Nat) (job : Job), s.jobs[j]? = some job ∧ o ∈ job.ops
  kept : ∀ {j : Nat} {job : Job}, s.jobs[j]? = some job → job.phase.isRegistered = false →
    ∀ o ∈ job.ops, o ∈ s.held
  queued : ∀ {j : Nat} {job : Job}, s.jobs[j]? = some job → job.phase = .queued → job.ops = []
  writing : ∀ {j : Nat} {job : Job}, s.jobs[j]? = some job → job.phase = .writing →
    job.ops.length < job.content.tensors
  entry : ∀ {id : String} {ops : List Nat}, s.opsOf id = some ops →
    ∃ (j : Nat) (job : Job), s.jobs[j]? = some job ∧ job.phase.isRegistered = true ∧ job.ops = ops
  registered : ∀ {j : Nat} {job : Job}, s.jobs[j]? = some job → job.phase.isRegistered = true →
    (∃ id, s.opsOf id = some job.ops) ∨ ∀ o ∈ job.ops, o ∉ s.held

theorem Content.tensors_pos (content : Content) : 0 < content.tensors := by
  cases content <;> simp [Content.tensors]

theorem getElem?_setJob {s : Sends} {j : Nat} {job : Job} (hj : s.jobs[j]? = some job) (job' : Job)
    (k : Nat) : (s.setJob j job').jobs[k]? = if j = k then some job' else s.jobs[k]? := by
  simp only [Sends.setJob, List.getElem?_set]
  rw [if_pos (List.getElem?_eq_some_iff.mp hj).1]

theorem of_getElem?_setJob {s : Sends} {j k : Nat} {job job' job'' : Job}
    (hj : s.jobs[j]? = some job) (h : (s.setJob j job').jobs[k]? = some job'') :
    (k = j ∧ job'' = job') ∨ (k ≠ j ∧ s.jobs[k]? = some job'') := by
  rw [getElem?_setJob hj] at h
  split at h
  · next he =>
    cases h
    exact .inl ⟨he.symm, rfl⟩
  · next he => exact .inr ⟨fun e => he e.symm, h⟩

/-! ### Pending transfers -/

theorem opsOf_set {s : Sends} {id : String} (p : PendingTransfer) (id' : String) :
    ({ s with pending := s.pending.set id p } : Sends).opsOf id' =
      if id' = id then some p.ops else s.opsOf id' := by
  simp only [Sends.opsOf, Dict.get?_set]
  split <;> rfl

theorem opsOf_set_same {s : Sends} {id : String} {p p' : PendingTransfer}
    (hp : s.pending.get? id = some p) (hops : p'.ops = p.ops) (id' : String) :
    ({ s with pending := s.pending.set id p' } : Sends).opsOf id' = s.opsOf id' := by
  rw [opsOf_set]
  split
  · next he => rw [he, hops, Sends.opsOf, hp]; rfl
  · rfl

/-- `s'` differs from `s` only in how far its pending transfers have come. -/
structure SameOps (s s' : Sends) : Prop where
  sem : s'.sem = s.sem
  held : s'.held = s.held
  nextOp : s'.nextOp = s.nextOp
  jobs : s'.jobs = s.jobs
  opsOf : ∀ id, s'.opsOf id = s.opsOf id

theorem SameOps.refl (s : Sends) : SameOps s s := ⟨rfl, rfl, rfl, rfl, fun _ => rfl⟩

theorem SameOps.trans {s s' s'' : Sends} (h : SameOps s s') (h' : SameOps s' s'') : SameOps s s'' :=
  ⟨h'.sem.trans h.sem, h'.held.trans h.held, h'.nextOp.trans h.nextOp, h'.jobs.trans h.jobs,
    fun id => (h'.opsOf id).trans (h.opsOf id)⟩

theorem SameOps.set {s : Sends} {id : String} {p p' : PendingTransfer}
    (hp : s.pending.get? id = some p) (hops : p'.ops = p.ops) :
    SameOps s { s with pending := s.pending.set id p' } :=
  ⟨rfl, rfl, rfl, rfl, opsOf_set_same hp hops⟩

theorem sameOps_failPending (s : Sends) (id : String) : SameOps s (s.failPending id) := by
  unfold Sends.failPending
  split
  · exact SameOps.refl s
  · next hp => exact SameOps.set hp rfl

theorem sameOps_ackTransfer (s : Sends) (id : String) (success : Bool) :
    SameOps s (s.ackTransfer id success) := by
  unfold Sends.ackTransfer
  split
  · exact SameOps.refl s
  · next hp =>
    split
    · exact SameOps.set hp rfl
    · exact SameOps.refl s

theorem sameOps_foldl_failPending (ids : List String) (s : Sends) :
    SameOps s (ids.foldl Sends.failPending s) := by
  induction ids generalizing s with
  | nil => exact SameOps.refl s
  | cons id rest ih => exact (sameOps_failPending s id).trans (ih _)

theorem Inv.sameOps {credits : Nat} {s s' : Sends} (h : Inv credits s) (hs : SameOps s s') :
    Inv credits s' where
  conserved := by rw [hs.sem, hs.held]; exact h.conserved
  nodup := hs.held ▸ h.nodup
  numbered := by rw [hs.jobs, hs.nextOp]; exact h.numbered
  apart := by rw [hs.jobs]; exact h.apart
  owner := by rw [hs.held, hs.jobs]; exact h.owner
  kept := by rw [hs.held, hs.jobs]; exact h.kept
  queued := by rw [hs.jobs]; exact h.queued
  writing := by rw [hs.jobs]; exact h.writing
  entry := by
    intro id ops hid
    rw [hs.opsOf] at hid
    rw [hs.jobs]
    exact h.entry hid
  registered := by
    intro j job hj hreg
    rw [hs.jobs] at hj
    rw [hs.held]
    simp only [hs.opsOf]
    exact h.registered hj hreg

/-! ### Jobs -/

theorem Inv.setJob {credits : Nat} {s : Sends} {j : Nat} {job job' : Job} (h : Inv credits s)
    (hj : s.jobs[j]? = some job) (hops : job'.ops = job.ops)
    (hreg : job'.phase.isRegistered = job.phase.isRegistered)
    (hqueued : job'.phase = .queued → job'.ops = [])
    (hwriting : job'.phase = .writing → job'.ops.length < job'.content.tensors) :
    Inv credits (s.setJob j job') := by
  have hold : ∀ {k : Nat} {new : Job}, (s.setJob j job').jobs[k]? = some new →
      ∃ old, s.jobs[k]? = some old ∧ new.ops = old.ops ∧
        new.phase.isRegistered = old.phase.isRegistered := by
    intro k new hk
    obtain ⟨rfl, rfl⟩ | ⟨-, hk⟩ := of_getElem?_setJob hj hk
    · exact ⟨job, hj, hops, hreg⟩
    · exact ⟨new, hk, rfl, rfl⟩
  have hnew : ∀ {k : Nat} {old : Job}, s.jobs[k]? = some old →
      ∃ new, (s.setJob j job').jobs[k]? = some new ∧ new.ops = old.ops ∧
        new.phase.isRegistered = old.phase.isRegistered := by
    intro k old hk
    rw [getElem?_setJob hj]
    by_cases he : j = k
    · subst he
      cases hj.symm.trans hk
      exact ⟨job', if_pos rfl, hops, hreg⟩
    · exact ⟨old, by rw [if_neg he, hk], rfl, rfl⟩
  constructor
  · exact h.conserved
  · exact h.nodup
  · intro k new hk o ho
    obtain ⟨old, hk, he, -⟩ := hold hk
    exact h.numbered hk o (he ▸ ho)
  · intro k l new new' hk hl o ho ho'
    obtain ⟨old, hk, he, -⟩ := hold hk
    obtain ⟨old', hl, he', -⟩ := hold hl
    exact h.apart hk hl o (he ▸ ho) (he' ▸ ho')
  · intro o ho
    obtain ⟨k, old, hk, hmem⟩ := h.owner o ho
    obtain ⟨new, hk, he, -⟩ := hnew hk
    exact ⟨k, new, hk, he ▸ hmem⟩
  · intro k new hk hr o ho
    obtain ⟨old, hk, he, hr'⟩ := hold hk
    exact h.kept hk (hr' ▸ hr) o (he ▸ ho)
  · intro k new hk hq
    obtain ⟨rfl, rfl⟩ | ⟨-, hk⟩ := of_getElem?_setJob hj hk
    · exact hqueued hq
    · exact h.queued hk hq
  · intro k new hk hw
    obtain ⟨rfl, rfl⟩ | ⟨-, hk⟩ := of_getElem?_setJob hj hk
    · exact hwriting hw
    · exact h.writing hk hw
  · intro id ops hid
    obtain ⟨k, old, hk, hr, rfl⟩ := h.entry hid
    obtain ⟨new, hk, he, hr'⟩ := hnew hk
    exact ⟨k, new, hk, hr'.trans hr, he⟩
  · intro k new hk hr
    obtain ⟨old, hk, he, hr'⟩ := hold hk
    rw [he]
    exact h.registered hk (hr' ▸ hr)

/-- The state after a put of job `j` that leaves it in a phase in which it is not registered. -/
def Sends.afterPut (s : Sends) (j : Nat) (job : Job) (phase : JobPhase) : Sends :=
  (s.takeCredit job).1.setJob j { (s.takeCredit job).2 with phase := phase }

theorem Inv.afterPut {credits : Nat} {s : Sends} {j : Nat} {job : Job} {phase : JobPhase}
    (h : Inv credits s) (hj : s.jobs[j]? = some job) (hw : job.phase = .writing) (hsem : s.sem ≠ 0)
    (hreg : phase.isRegistered = false) (hqueued : phase ≠ .queued)
    (hwriting : phase = .writing → job.ops.length + 1 < job.content.tensors) :
    Inv credits (s.afterPut j job phase) := by
  have hold : ∀ {k : Nat} {new : Job}, (s.afterPut j job phase).jobs[k]? = some new →
      (k = j ∧ new = { (s.takeCredit job).2 with phase := phase }) ∨
        (k ≠ j ∧ s.jobs[k]? = some new) :=
    fun {k new} hk => of_getElem?_setJob (s := (s.takeCredit job).1) hj hk
  have hmem : ∀ {o : Nat} {l : List Nat}, o ∈ l ++ [s.nextOp] ↔ o ∈ l ∨ o = s.nextOp := by
    intro o l
    rw [List.mem_append, List.mem_singleton]
  have hfresh : ∀ {k : Nat} {old : Job}, s.jobs[k]? = some old → s.nextOp ∉ old.ops :=
    fun hk hin => absurd (h.numbered hk _ hin) (Nat.lt_irrefl _)
  have hnew : s.nextOp ∉ s.held := by
    intro hin
    obtain ⟨k, old, hk, ho⟩ := h.owner _ hin
    exact hfresh hk ho
  have hunreg : job.phase.isRegistered = false := by
    rw [hw]
    rfl
  have hput : (s.afterPut j job phase).jobs[j]? =
      some { (s.takeCredit job).2 with phase := phase } := by
    rw [Sends.afterPut, getElem?_setJob (s := (s.takeCredit job).1) hj, if_pos rfl]
  have hother : ∀ {k : Nat}, k ≠ j → (s.afterPut j job phase).jobs[k]? = s.jobs[k]? := by
    intro k hne
    rw [Sends.afterPut, getElem?_setJob (s := (s.takeCredit job).1) hj, if_neg (Ne.symm hne)]
    rfl
  constructor
  · have := h.conserved
    simp only [Sends.afterPut, Sends.setJob, Sends.takeCredit, List.length_append,
      List.length_singleton]
    omega
  · refine List.nodup_append.mpr ⟨h.nodup, List.nodup_singleton _, fun a ha b hb => ?_⟩
    rw [List.mem_singleton.mp hb]
    exact fun he => hnew (he ▸ ha)
  · intro k new hk o ho
    show o < s.nextOp + 1
    obtain ⟨rfl, rfl⟩ | ⟨-, hk⟩ := hold hk
    · obtain ho | rfl := hmem.mp ho
      · exact Nat.lt_succ_of_lt (h.numbered hj o ho)
      · exact Nat.lt_succ_self _
    · exact Nat.lt_succ_of_lt (h.numbered hk o ho)
  · intro k l new new' hk hl o ho ho'
    obtain ⟨hkj, rfl⟩ | ⟨-, hk'⟩ := hold hk <;> obtain ⟨hlj, rfl⟩ | ⟨-, hl'⟩ := hold hl
    · exact hkj.trans hlj.symm
    · obtain ho | rfl := hmem.mp ho
      · exact hkj.trans (h.apart hj hl' o ho ho')
      · exact absurd ho' (hfresh hl')
    · obtain ho' | rfl := hmem.mp ho'
      · exact (h.apart hk' hj o ho ho').trans hlj.symm
      · exact absurd ho (hfresh hk')
    · exact h.apart hk' hl' o ho ho'
  · intro o ho
    obtain ho | rfl := hmem.mp ho
    · obtain ⟨k, old, hk, hin⟩ := h.owner o ho
      by_cases he : k = j
      · subst he
        cases hj.symm.trans hk
        exact ⟨k, _, hput, hmem.mpr (.inl hin)⟩
      · exact ⟨k, old, (hother he).trans hk, hin⟩
    · exact ⟨j, _, hput, hmem.mpr (.inr rfl)⟩
  · intro k new hk hr o ho
    refine hmem.mpr ?_
    obtain ⟨rfl, rfl⟩ | ⟨-, hk⟩ := hold hk
    · exact (hmem.mp ho).imp_left (h.kept hj hunreg o)
    · exact .inl (h.kept hk hr o ho)
  · intro k new hk hq
    obtain ⟨rfl, rfl⟩ | ⟨-, hk⟩ := hold hk
    · exact absurd hq hqueued
    · exact h.queued hk hq
  · intro k new hk hp
    obtain ⟨rfl, rfl⟩ | ⟨-, hk⟩ := hold hk
    · simp only [Sends.takeCredit, List.length_append, List.length_singleton]
      exact hwriting hp
    · exact h.writing hk hp
  · intro id ops hid
    obtain ⟨k, old, hk, hr, rfl⟩ := h.entry hid
    have hne : k ≠ j := by
      rintro rfl
      cases hj.symm.trans hk
      rw [hunreg] at hr
      cases hr
    exact ⟨k, old, (hother hne).trans hk, hr, rfl⟩
  · intro k new hk hr
    obtain ⟨rfl, rfl⟩ | ⟨-, hk⟩ := hold hk
    · rw [hreg] at hr
      cases hr
    · refine (h.registered hk hr).imp_right fun hout o ho hin => ?_
      obtain hin | rfl := hmem.mp hin
      · exact hout o ho hin
      · exact hfresh hk ho

theorem Inv.register {credits : Nat} {s : Sends} {j : Nat} {job : Job} (h : Inv credits s)
    (hj : s.jobs[j]? = some job) (hunreg : job.phase.isRegistered = false)
    (hnew : s.pending.get? job.objectId = none) :
    Inv credits ({ s with pending := s.pending.set job.objectId { ops := job.ops } }.setJob j
      { job with phase := .publishing }) := by
  have hold : ∀ {k : Nat} {new : Job},
      ({ s with pending := s.pending.set job.objectId { ops := job.ops } }.setJob j
        { job with phase := .publishing }).jobs[k]? = some new →
      ∃ old, s.jobs[k]? = some old ∧ new.ops = old.ops ∧
        (k = j ∧ new = { job with phase := .publishing } ∨ k ≠ j ∧ new = old) := by
    intro k new hk
    obtain ⟨rfl, rfl⟩ | ⟨hne, hk⟩ :=
      of_getElem?_setJob
        (s := { s with pending := s.pending.set job.objectId { ops := job.ops } }) hj hk
    · exact ⟨job, hj, rfl, .inl ⟨rfl, rfl⟩⟩
    · exact ⟨new, hk, rfl, .inr ⟨hne, rfl⟩⟩
  have hget : ∀ (k : Nat),
      ({ s with pending := s.pending.set job.objectId { ops := job.ops } }.setJob j
        { job with phase := .publishing }).jobs[k]? =
      if j = k then some { job with phase := .publishing } else s.jobs[k]? :=
    getElem?_setJob (s := { s with pending := s.pending.set job.objectId { ops := job.ops } }) hj _
  have hops : ∀ (id : String),
      ({ s with pending := s.pending.set job.objectId { ops := job.ops } }.setJob j
        { job with phase := .publishing }).opsOf id =
      if id = job.objectId then some job.ops else s.opsOf id :=
    opsOf_set { ops := job.ops }
  constructor
  · exact h.conserved
  · exact h.nodup
  · intro k new hk o ho
    obtain ⟨old, hk, he, -⟩ := hold hk
    exact h.numbered hk o (he ▸ ho)
  · intro k l new new' hk hl o ho ho'
    obtain ⟨old, hk, he, -⟩ := hold hk
    obtain ⟨old', hl, he', -⟩ := hold hl
    exact h.apart hk hl o (he ▸ ho) (he' ▸ ho')
  · intro o ho
    obtain ⟨k, old, hk, hin⟩ := h.owner o ho
    by_cases he : j = k
    · subst he
      cases hj.symm.trans hk
      exact ⟨j, _, (hget j).trans (if_pos rfl), hin⟩
    · exact ⟨k, old, (hget k).trans ((if_neg he).trans hk), hin⟩
  · intro k new hk hr o ho
    obtain ⟨old, hk, he, ⟨-, rfl⟩ | ⟨-, rfl⟩⟩ := hold hk
    · cases hr
    · exact h.kept hk hr o ho
  · intro k new hk hq
    obtain ⟨old, hk, he, ⟨-, rfl⟩ | ⟨-, rfl⟩⟩ := hold hk
    · cases hq
    · exact h.queued hk hq
  · intro k new hk hp
    obtain ⟨old, hk, he, ⟨-, rfl⟩ | ⟨-, rfl⟩⟩ := hold hk
    · cases hp
    · exact h.writing hk hp
  · intro id ops hid
    rw [hops] at hid
    split at hid
    · cases hid
      exact ⟨j, _, (hget j).trans (if_pos rfl), rfl, rfl⟩
    · obtain ⟨k, old, hk, hr, rfl⟩ := h.entry hid
      have hne : j ≠ k := by
        rintro rfl
        cases hj.symm.trans hk
        rw [hunreg] at hr
        cases hr
      exact ⟨k, old, (hget k).trans ((if_neg hne).trans hk), hr, rfl⟩
  · intro k new hk hr
    obtain ⟨old, hk, he, ⟨-, rfl⟩ | ⟨-, rfl⟩⟩ := hold hk
    · exact .inl ⟨job.objectId, (hops _).trans (if_pos rfl)⟩
    · refine (h.registered hk hr).imp_left fun ⟨id, hid⟩ => ⟨id, (hops id).trans ?_⟩
      have hne : id ≠ job.objectId := by
        rintro rfl
        rw [Sends.opsOf, hnew] at hid
        cases hid
      exact (if_neg hne).trans hid

theorem Inv.complete {credits : Nat} {s : Sends} {id : String} {p : PendingTransfer} {op : Nat}
    (h : Inv credits s) (hp : s.pending.get? id = some p) (hop : op ∈ p.ops) (hheld : op ∈ s.held) :
    Inv credits { s with sem := s.sem + 1, held := s.held.erase op } := by
  obtain ⟨j, job, hj, hr, hops⟩ := h.entry (show s.opsOf id = some p.ops by rw [Sends.opsOf, hp]; rfl)
  have hlen : (s.held.erase op).length + 1 = s.held.length := List.length_erase_add_one hheld
  constructor
  · have := h.conserved
    show s.sem + 1 + (s.held.erase op).length = credits
    omega
  · exact h.nodup.erase op
  · exact h.numbered
  · exact h.apart
  · exact fun o ho => h.owner o (List.mem_of_mem_erase ho)
  · intro k new hk hr' o ho
    refine (List.mem_erase_of_ne ?_).mpr (h.kept hk hr' o ho)
    rintro rfl
    cases h.apart hj hk o (hops ▸ hop) ho
    cases hj.symm.trans hk
    rw [hr] at hr'
    cases hr'
  · exact h.queued
  · exact h.writing
  · exact h.entry
  · intro k new hk hr'
    exact (h.registered hk hr').imp_right fun hout o ho hin => hout o ho (List.mem_of_mem_erase hin)

theorem Inv.pop {credits : Nat} {s : Sends} {id : String} {p : PendingTransfer} (h : Inv credits s)
    (hp : s.pending.get? id = some p) (hout : ∀ o ∈ p.ops, o ∉ s.held) :
    Inv credits { s with pending := s.pending.erase id } := by
  have hops : ∀ (id' : String), ({ s with pending := s.pending.erase id } : Sends).opsOf id' =
      if id' = id then none else s.opsOf id' := by
    intro id'
    simp only [Sends.opsOf, Dict.get?_erase]
    split <;> rfl
  refine ⟨h.conserved, h.nodup, h.numbered, h.apart, h.owner, h.kept, h.queued, h.writing, ?_, ?_⟩
  · intro id' ops hid
    rw [hops] at hid
    split at hid
    · cases hid
    · exact h.entry hid
  · intro k job hk hr
    obtain ⟨id', hid⟩ | hgone := h.registered hk hr
    · by_cases he : id' = id
      · subst he
        rw [Sends.opsOf, hp] at hid
        exact .inr (Option.some.inj hid ▸ hout)
      · exact .inl ⟨id', (hops id').trans ((if_neg he).trans hid)⟩
    · exact .inr hgone

theorem Inv.enqueue {credits : Nat} {s : Sends} (h : Inv credits s) (content : Content) :
    Inv credits { s with jobs := s.jobs ++ [{ content := content }] } := by
  have hold : ∀ {k : Nat} {new : Job}, (s.jobs ++ [{ content := content }])[k]? = some new →
      s.jobs[k]? = some new ∨ new = { content := content } := by
    intro k new hk
    rw [List.getElem?_append] at hk
    split at hk
    · exact .inl hk
    · exact .inr (List.mem_singleton.mp (List.mem_of_getElem? hk))
  have hnew : ∀ {k : Nat} {old : Job}, s.jobs[k]? = some old →
      (s.jobs ++ [{ content := content }])[k]? = some old := by
    intro k old hk
    rw [List.getElem?_append_left (List.getElem?_eq_some_iff.mp hk).1, hk]
  constructor
  · exact h.conserved
  · exact h.nodup
  · intro k new hk o ho
    obtain hk | rfl := hold hk
    · exact h.numbered hk o ho
    · cases ho
  · intro k l new new' hk hl o ho ho'
    obtain hk | rfl := hold hk
    · obtain hl | rfl := hold hl
      · exact h.apart hk hl o ho ho'
      · cases ho'
    · cases ho
  · intro o ho
    obtain ⟨k, old, hk, hin⟩ := h.owner o ho
    exact ⟨k, old, hnew hk, hin⟩
  · intro k new hk hr o ho
    obtain hk | rfl := hold hk
    · exact h.kept hk hr o ho
    · cases ho
  · intro k new hk hq
    obtain hk | rfl := hold hk
    · exact h.queued hk hq
    · rfl
  · intro k new hk hp
    obtain hk | rfl := hold hk
    · exact h.writing hk hp
    · cases hp
  · intro id ops hid
    obtain ⟨k, old, hk, hr, rfl⟩ := h.entry hid
    exact ⟨k, old, hnew hk, hr, rfl⟩
  · intro k new hk hr
    obtain hk | rfl := hold hk
    · exact h.registered hk hr
    · cases hr

/-! ### Steps -/

theorem whenJob_eq_some {s s' : Sends} {j : Nat} {phase : JobPhase} {next : Job → Option Sends}
    (h : s.whenJob j phase next = some s') :
    ∃ job, s.jobs[j]? = some job ∧ job.phase = phase ∧ next job = some s' := by
  unfold Sends.whenJob at h
  split at h
  · next job hj =>
    split at h
    · next hp => exact ⟨job, hj, hp, h⟩
    · cases h
  · cases h

theorem whenWatch_eq_some {s s' : Sends} {id : String} {watch : Watch}
    {next : PendingTransfer → Option Sends} (h : s.whenWatch id watch next = some s') :
    ∃ p, s.pending.get? id = some p ∧ next p = some s' := by
  unfold Sends.whenWatch at h
  split at h
  · next p hp =>
    split at h
    · exact ⟨p, hp, h⟩
    · cases h
  · cases h

theorem SameOps.setJob {s s' : Sends} (h : SameOps s s') (j : Nat) (job : Job) :
    SameOps (s.setJob j job) (s'.setJob j job) :=
  ⟨h.sem, h.held, h.nextOp, congrArg (·.set j job) h.jobs, h.opsOf⟩

theorem sameOps_put_duplicate {s : Sends} {j : Nat} {job : Job}
    (hlast : job.ops.length + 1 = job.content.tensors)
    (hdup : s.pending.contains job.objectId = true) :
    SameOps (s.afterPut j job (.ended false)) (s.put j job) := by
  simp only [Sends.put, Sends.register, Sends.takeCredit, List.length_append, List.length_singleton,
    hlast, if_true, hdup]
  exact (sameOps_failPending _ job.objectId).setJob j _

theorem put_register {s : Sends} {j : Nat} {job : Job}
    (hlast : job.ops.length + 1 = job.content.tensors)
    (hnew : s.pending.contains job.objectId = false) :
    s.put j job =
      { s.afterPut j job (.ended false) with
        pending := s.pending.set job.objectId { ops := job.ops ++ [s.nextOp] } }.setJob j
        { job with phase := .publishing, ops := job.ops ++ [s.nextOp] } := by
  simp only [Sends.put, Sends.register, Sends.takeCredit, List.length_append, List.length_singleton,
    hlast, if_true, hnew, Bool.false_eq_true, if_false, Sends.afterPut, Sends.setJob, List.set_set]

theorem put_more {s : Sends} {j : Nat} {job : Job} (hw : job.phase = .writing)
    (hmore : job.ops.length + 1 ≠ job.content.tensors) :
    s.put j job = s.afterPut j job .writing := by
  simp only [Sends.put, Sends.takeCredit, List.length_append, List.length_singleton, hmore, if_false,
    Sends.afterPut, ← hw]

theorem Inv.put {credits : Nat} {s : Sends} {j : Nat} {job : Job} (h : Inv credits s)
    (hj : s.jobs[j]? = some job) (hw : job.phase = .writing) (hsem : s.sem ≠ 0) :
    Inv credits (s.put j job) := by
  have hlt := h.writing hj hw
  by_cases hlast : job.ops.length + 1 = job.content.tensors
  · have hend : Inv credits (s.afterPut j job (.ended false)) :=
      h.afterPut hj hw hsem rfl (by decide) (fun he => by cases he)
    cases hdup : s.pending.contains job.objectId with
    | true => exact hend.sameOps (sameOps_put_duplicate hlast hdup)
    | false =>
      have hj' : (s.afterPut j job (.ended false)).jobs[j]? =
          some { (s.takeCredit job).2 with phase := .ended false } := by
        rw [Sends.afterPut, getElem?_setJob (s := (s.takeCredit job).1) hj, if_pos rfl]
      rw [put_register hlast hdup]
      exact hend.register hj' rfl ((Dict.contains_eq_false _ _).mp hdup)
  · rw [put_more hw hlast]
    exact h.afterPut hj hw hsem rfl (by decide) (fun _ => by omega)

theorem published_eq (s : Sends) (j : Nat) (job : Job) :
    ∃ s', SameOps s s' ∧ s.published j job = s'.setJob j { job with phase := .ended true } := by
  unfold Sends.published
  split
  · exact ⟨s, SameOps.refl s, rfl⟩
  · next p hp =>
    split
    · exact ⟨_, sameOps_failPending s job.objectId, rfl⟩
    · have hset : SameOps s
          { s with pending := s.pending.set job.objectId { p with watch := .waitingAck } } :=
        SameOps.set hp rfl
      split
      · exact ⟨_, hset.trans (sameOps_failPending _ job.objectId), rfl⟩
      · exact ⟨_, hset, rfl⟩

theorem Inv.endRegistered {credits : Nat} {s s' : Sends} {j : Nat} {job : Job} (h : Inv credits s)
    (hj : s.jobs[j]? = some job) (hp : job.phase = .publishing) (hs : SameOps s s') :
    Inv credits (s'.setJob j { job with phase := .ended true }) := by
  have hj' : s'.jobs[j]? = some job := by
    rw [hs.jobs]
    exact hj
  refine (h.sameOps hs).setJob hj' rfl ?_ (fun he => by cases he) (fun he => by cases he)
  rw [hp]
  rfl

theorem Inv.step {credits : Nat} {s s' : Sends} {a : SendAction} (h : Inv credits s)
    (hs : s.step a = some s') : Inv credits s' := by
  cases a with
  | enqueue content =>
    cases hs
    exact h.enqueue content
  | cancelReady j =>
    obtain ⟨job, hj, rfl⟩ := Option.map_eq_some_iff.mp hs
    have hq := h.queued hj
    have hw := h.writing hj
    exact h.setJob hj rfl rfl hq hw
  | start j =>
    obtain ⟨job, hj, hp, hs⟩ := whenJob_eq_some hs
    split at hs
    · cases hs
    · cases hs
      have hnil := h.queued hj hp
      have hsame : SameOps s
          { s with streamSendSequence := s.streamSendSequence + job.content.sequenceNumbers } :=
        ⟨rfl, rfl, rfl, rfl, fun _ => rfl⟩
      refine (h.sameOps hsame).setJob hj rfl ?_ (fun he => by simp at he) (fun _ => ?_)
      · rw [hp]
        rfl
      · simp only [hnil]
        exact job.content.tensors_pos
  | put j =>
    obtain ⟨job, hj, hp, hs⟩ := whenJob_eq_some hs
    split at hs
    · cases hs
    · next hsem =>
      cases hs
      exact h.put hj hp hsem
  | putUnusable j =>
    obtain ⟨job, hj, hp, hs⟩ := whenJob_eq_some hs
    split at hs
    · cases hs
    · next hsem =>
      cases hs
      exact h.afterPut hj hp hsem rfl (by decide) (fun he => by cases he)
  | fail j =>
    obtain ⟨job, hj, hp, hs⟩ := whenJob_eq_some hs
    cases hs
    refine h.setJob hj rfl ?_ (fun he => by cases he) (fun he => by cases he)
    rw [hp]
    rfl
  | published j =>
    obtain ⟨job, hj, hp, hs⟩ := whenJob_eq_some hs
    cases hs
    obtain ⟨t, ht, he⟩ := published_eq s j job
    rw [he]
    exact h.endRegistered hj hp ht
  | publishFails j =>
    obtain ⟨job, hj, hp, hs⟩ := whenJob_eq_some hs
    cases hs
    exact h.endRegistered hj hp (sameOps_failPending s job.objectId)
  | ack id success =>
    cases hs
    exact h.sameOps (sameOps_ackTransfer s id success)
  | watch id =>
    obtain ⟨p, hp, hs⟩ := whenWatch_eq_some hs
    cases hs
    exact h.sameOps (SameOps.set hp rfl)
  | complete id =>
    obtain ⟨p, hp, hs⟩ := whenWatch_eq_some hs
    obtain ⟨op, hop, rfl⟩ := Option.map_eq_some_iff.mp hs
    exact h.complete hp (List.mem_of_find?_eq_some hop) (by simpa using List.find?_some hop)
  | pop id =>
    obtain ⟨p, hp, hs⟩ := whenWatch_eq_some hs
    split at hs
    · cases hs
    · next hout =>
      cases hs
      exact h.pop hp (by simpa using hout)
  | close =>
    cases hs
    have hsame : SameOps s { s with closed := true } := ⟨rfl, rfl, rfl, rfl, fun _ => rfl⟩
    exact (h.sameOps hsame).sameOps (sameOps_foldl_failPending _ _)

theorem inv_of_reaches {credits : Nat} {allowed : Sends → SendAction → Prop} {s : Sends}
    (h : (sends credits).Reaches allowed s) : Inv credits s := by
  refine h.invariant ?_ (fun _ _ _ hs _ hstep => Inv.step hs hstep)
  constructor <;> intros <;> simp_all [sends, Sends.opsOf]

inductive Change (s : Sends) (j : Nat) (job : Job) : SendAction → Job → Prop
  | cancelReady : Change s j job (.cancelReady j) { job with readyDone := true }
  | start (hp : job.phase = .queued) : Change s j job (.start j)
      { job with phase := .writing, objectId := job.content.objectId s.streamSendSequence }
  | more (hp : job.phase = .writing) (hmore : job.ops.length + 1 ≠ job.content.tensors) :
      Change s j job (.put j) { job with phase := .writing, ops := job.ops ++ [s.nextOp] }
  | duplicate (hp : job.phase = .writing) (hlast : job.ops.length + 1 = job.content.tensors)
      (hdup : s.pending.contains job.objectId = true) :
      Change s j job (.put j) { job with phase := .ended false, ops := job.ops ++ [s.nextOp] }
  | register (hp : job.phase = .writing) (hlast : job.ops.length + 1 = job.content.tensors)
      (hnew : s.pending.contains job.objectId = false) :
      Change s j job (.put j) { job with phase := .publishing, ops := job.ops ++ [s.nextOp] }
  | unusable (hp : job.phase = .writing) : Change s j job (.putUnusable j)
      { job with phase := .ended false, ops := job.ops ++ [s.nextOp] }
  | fail (hp : job.phase = .writing) :
      Change s j job (.fail j) { job with phase := .ended false }
  | published (hp : job.phase = .publishing) :
      Change s j job (.published j) { job with phase := .ended true }
  | publishFails (hp : job.phase = .publishing) :
      Change s j job (.publishFails j) { job with phase := .ended true }

theorem step_jobs {s s' : Sends} {a : SendAction} (hs : s.step a = some s') :
    s'.jobs = s.jobs ∨
      (∃ content, a = .enqueue content ∧ s'.jobs = s.jobs ++ [{ content := content }]) ∨
      ∃ j job job', s.jobs[j]? = some job ∧ Change s j job a job' ∧ s'.jobs = s.jobs.set j job' := by
  cases a with
  | enqueue content =>
    cases hs
    exact .inr (.inl ⟨content, rfl, rfl⟩)
  | cancelReady j =>
    obtain ⟨job, hj, rfl⟩ := Option.map_eq_some_iff.mp hs
    exact .inr (.inr ⟨j, job, _, hj, .cancelReady, rfl⟩)
  | start j =>
    obtain ⟨job, hj, hp, hs⟩ := whenJob_eq_some hs
    split at hs
    · cases hs
    · cases hs
      exact .inr (.inr ⟨j, job, _, hj, .start hp, rfl⟩)
  | put j =>
    obtain ⟨job, hj, hp, hs⟩ := whenJob_eq_some hs
    split at hs
    · cases hs
    cases hs
    refine .inr (.inr ?_)
    by_cases hlast : job.ops.length + 1 = job.content.tensors
    · cases hdup : s.pending.contains job.objectId with
      | true =>
        exact ⟨j, job, _, hj, .duplicate hp hlast hdup, (sameOps_put_duplicate hlast hdup).jobs⟩
      | false =>
        refine ⟨j, job, _, hj, .register hp hlast hdup, ?_⟩
        rw [put_register hlast hdup]
        simp only [Sends.setJob, Sends.afterPut, Sends.takeCredit, List.set_set]
    · refine ⟨j, job, _, hj, .more hp hlast, ?_⟩
      rw [put_more hp hlast]
      rfl
  | putUnusable j =>
    obtain ⟨job, hj, hp, hs⟩ := whenJob_eq_some hs
    split at hs
    · cases hs
    · cases hs
      exact .inr (.inr ⟨j, job, _, hj, .unusable hp, rfl⟩)
  | fail j =>
    obtain ⟨job, hj, hp, hs⟩ := whenJob_eq_some hs
    cases hs
    exact .inr (.inr ⟨j, job, _, hj, .fail hp, rfl⟩)
  | published j =>
    obtain ⟨job, hj, hp, hs⟩ := whenJob_eq_some hs
    cases hs
    obtain ⟨t, ht, he⟩ := published_eq s j job
    refine .inr (.inr ⟨j, job, _, hj, .published hp, ?_⟩)
    rw [he, Sends.setJob, ht.jobs]
  | publishFails j =>
    obtain ⟨job, hj, hp, hs⟩ := whenJob_eq_some hs
    cases hs
    refine .inr (.inr ⟨j, job, _, hj, .publishFails hp, ?_⟩)
    rw [Sends.setJob, (sameOps_failPending s job.objectId).jobs]
  | ack id success =>
    cases hs
    exact .inl (sameOps_ackTransfer s id success).jobs
  | watch id =>
    obtain ⟨p, -, hs⟩ := whenWatch_eq_some hs
    cases hs
    exact .inl rfl
  | complete id =>
    obtain ⟨p, -, hs⟩ := whenWatch_eq_some hs
    obtain ⟨op, -, rfl⟩ := Option.map_eq_some_iff.mp hs
    exact .inl rfl
  | pop id =>
    obtain ⟨p, -, hs⟩ := whenWatch_eq_some hs
    split at hs
    · cases hs
    · cases hs
      exact .inl rfl
  | close =>
    cases hs
    exact .inl (sameOps_foldl_failPending _ _).jobs

end Comm
