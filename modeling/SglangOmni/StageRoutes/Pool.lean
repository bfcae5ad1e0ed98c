import Mathlib.Data.List.Basic
import SglangOmni.Lib.Machine

/-! The idle connections of a `StageRoutes` of `serve/stage_routes.py` on one event loop, whose clock
stops at a timer until the timer has run. -/

namespace StageRoutes

open Lib

/-- An idle connection, with the time at which it was parked and the sweeps that had run by then. -/
structure Idle where
  conn : ℕ
  parkedAt : ℕ
  sweeps : ℕ
deriving DecidableEq

/-- A `StageRoutes` and its loop. `idle` has the newest connection first, `sweep` is when the timer is
due, and `raised` says that `close_idle` popped an empty deque. -/
structure Pool where
  idle : List Idle := []
  untouched : ℕ := 0
  sweep : Option ℕ := none
  opened : ℕ := 0
  inUse : List ℕ := []
  now : ℕ := 0
  sweeps : ℕ := 0
  raised : Bool := false
deriving DecidableEq

/-- The loop of `connect`: the newest connection that the peer has not closed. -/
def popIdle (isClosed : ℕ → Bool) : List Idle → ℕ → Option Idle × List Idle × ℕ
  | [], untouched => (none, [], untouched)
  | newest :: rest, untouched =>
    let untouched := if rest.length < untouched then rest.length else untouched
    if isClosed newest.conn then popIdle isClosed rest untouched else (some newest, rest, untouched)

namespace Pool

variable (keepAlive : ℕ) (s : Pool)

def connect (isClosed : ℕ → Bool) : Pool :=
  let popped := popIdle isClosed s.idle s.untouched
  let s := { s with idle := popped.2.1, untouched := popped.2.2 }
  match popped.1 with
  | some found => { s with inUse := found.conn :: s.inUse }
  | none => { s with inUse := s.opened :: s.inUse, opened := s.opened + 1 }

def park (conn : ℕ) : Pool :=
  { s with
    idle := ⟨conn, s.now, s.sweeps⟩ :: s.idle
    inUse := s.inUse.erase conn
    sweep := s.sweep.or (some (s.now + keepAlive)) }

/-- What `close_idle` closes: the oldest connections, as many as are untouched. -/
def closed : List Idle := s.idle.drop (s.idle.length - s.untouched)

def closeIdle : Pool :=
  let s := { s with sweep := none, sweeps := s.sweeps + 1 }
  if s.idle.length < s.untouched then { s with raised := true }
  else
    let idle := s.idle.take (s.idle.length - s.untouched)
    { s with
      idle := idle
      untouched := idle.length
      sweep := if idle = [] then none else some (s.now + keepAlive) }

def IsDue : Prop := ∃ due ∈ s.sweep, due ≤ s.now

instance : Decidable s.IsDue := by unfold IsDue; infer_instance

end Pool

inductive Action where
  | connect (isClosed : ℕ → Bool)
  | park (conn : ℕ)
  | discard (conn : ℕ)
  | wait (ticks : ℕ)
  | closeIdle

def step (keepAlive : ℕ) (s : Pool) : Action → Option Pool
  | .connect isClosed => some (s.connect isClosed)
  | .park conn => if conn ∈ s.inUse then some (s.park keepAlive conn) else none
  | .discard conn => if conn ∈ s.inUse then some { s with inUse := s.inUse.erase conn } else none
  | .wait ticks => if ∀ due ∈ s.sweep, s.now + ticks ≤ due then some { s with now := s.now + ticks } else none
  | .closeIdle => if s.IsDue then some (s.closeIdle keepAlive) else none

def machine (keepAlive : ℕ) : Machine Pool Action := ⟨{}, step keepAlive⟩

/-! ### The counter of untouched connections -/

/-- The untouched connections are the ones that a sweep has passed, and it passed them once; the others
came since. The timer is due within a period of the parking of every connection that no sweep passed, and
between one and two periods after that of the others. -/
structure Kept (keepAlive : ℕ) (s : Pool) : Prop where
  quiet : s.raised = false
  parts : ∃ recent old, s.idle = recent ++ old ∧ old.length = s.untouched ∧
    (∀ e ∈ recent, e.sweeps = s.sweeps) ∧ ∀ e ∈ old, e.sweeps + 1 = s.sweeps
  armed : s.idle ≠ [] → s.sweep.isSome = true
  past : ∀ e ∈ s.idle, e.parkedAt ≤ s.now
  timer : ∀ due ∈ s.sweep, s.now ≤ due ∧ due ≤ s.now + keepAlive
  recent : ∀ due ∈ s.sweep, ∀ e ∈ s.idle, e.sweeps = s.sweeps → due ≤ e.parkedAt + keepAlive
  old : ∀ due ∈ s.sweep, ∀ e ∈ s.idle, e.sweeps + 1 = s.sweeps →
    e.parkedAt + keepAlive ≤ due ∧ due ≤ e.parkedAt + 2 * keepAlive

section Steps

variable {keepAlive : ℕ} {s s' : Pool}

theorem popIdle_parts (isClosed : ℕ → Bool) {current : ℕ} {idle recent old : List Idle} {untouched : ℕ}
    (hidle : idle = recent ++ old) (hold : old.length = untouched)
    (hrecent : ∀ e ∈ recent, e.sweeps = current) (holds : ∀ e ∈ old, e.sweeps + 1 = current) :
    (popIdle isClosed idle untouched).2.1 <:+ idle ∧
      ∃ recent' old', (popIdle isClosed idle untouched).2.1 = recent' ++ old' ∧
        old'.length = (popIdle isClosed idle untouched).2.2 ∧
        (∀ e ∈ recent', e.sweeps = current) ∧ ∀ e ∈ old', e.sweeps + 1 = current := by
  induction idle generalizing recent old untouched with
  | nil =>
    obtain ⟨rfl, rfl⟩ := List.append_eq_nil_iff.mp hidle.symm
    exact ⟨List.suffix_rfl, [], [], rfl, hold, hrecent, holds⟩
  | cons newest rest ih =>
    have hnext : ∃ recent' old', rest = recent' ++ old' ∧
        old'.length = (if rest.length < untouched then rest.length else untouched) ∧
        (∀ e ∈ recent', e.sweeps = current) ∧ ∀ e ∈ old', e.sweeps + 1 = current := by
      cases recent with
      | nil =>
        obtain rfl : newest :: rest = old := hidle
        refine ⟨[], rest, rfl, ?_, hrecent, fun e he => holds e (List.mem_cons_of_mem _ he)⟩
        rw [← hold, List.length_cons, if_pos (Nat.lt_succ_self _)]
      | cons first recent =>
        rw [List.cons_append, List.cons.injEq] at hidle
        refine ⟨recent, old, hidle.2, ?_, fun e he => hrecent e (List.mem_cons_of_mem _ he), holds⟩
        rw [hidle.2, List.length_append, if_neg (by omega), hold]
    obtain ⟨recent', old', hrest, hlength, hrecent', hold'⟩ := hnext
    by_cases hclosed : isClosed newest.conn = true
    · simp only [popIdle, if_pos hclosed]
      obtain ⟨hsuffix, hparts⟩ := ih hrest hlength hrecent' hold'
      exact ⟨hsuffix.trans (List.suffix_cons newest rest), hparts⟩
    · simp only [popIdle, if_neg hclosed]
      exact ⟨List.suffix_cons newest rest, recent', old', hrest, hlength, hrecent', hold'⟩

theorem Kept.shrink (h : Kept keepAlive s) (hraised : s'.raised = s.raised) (hsweep : s'.sweep = s.sweep)
    (hnow : s'.now = s.now) (hsweeps : s'.sweeps = s.sweeps) (hidle : ∀ e ∈ s'.idle, e ∈ s.idle)
    (hparts : ∃ recent old, s'.idle = recent ++ old ∧ old.length = s'.untouched ∧
      (∀ e ∈ recent, e.sweeps = s.sweeps) ∧ ∀ e ∈ old, e.sweeps + 1 = s.sweeps) : Kept keepAlive s' where
  quiet := hraised.trans h.quiet
  parts := by rwa [hsweeps]
  armed hne := by
    obtain ⟨e, he⟩ := List.exists_mem_of_ne_nil _ hne
    rw [hsweep]
    exact h.armed (List.ne_nil_of_mem (hidle e he))
  past e he := by rw [hnow]; exact h.past e (hidle e he)
  timer := by rw [hsweep, hnow]; exact h.timer
  recent due hdue e he := by
    rw [hsweep] at hdue
    rw [hsweeps]
    exact h.recent due hdue e (hidle e he)
  old due hdue e he := by
    rw [hsweep] at hdue
    rw [hsweeps]
    exact h.old due hdue e (hidle e he)

theorem Kept.connect (h : Kept keepAlive s) (isClosed : ℕ → Bool) : Kept keepAlive (s.connect isClosed) := by
  obtain ⟨recent, old, hidle, hold, hrecent, holds⟩ := h.parts
  obtain ⟨hsuffix, hparts⟩ := popIdle_parts isClosed hidle hold hrecent holds
  unfold Pool.connect
  simp only
  split
  · exact h.shrink rfl rfl rfl rfl (fun e he => hsuffix.mem he) hparts
  · exact h.shrink rfl rfl rfl rfl (fun e he => hsuffix.mem he) hparts

theorem Kept.park (h : Kept keepAlive s) (conn : ℕ) : Kept keepAlive (s.park keepAlive conn) := by
  obtain ⟨recent, old, hidle, hold, hrecent, holds⟩ := h.parts
  -- A timer that is not armed yet starts for a pool without connections.
  have hdue : ∀ due ∈ (s.park keepAlive conn).sweep,
      due ∈ s.sweep ∨ (s.idle = [] ∧ due = s.now + keepAlive) := by
    intro due hdue
    have hdue : due ∈ s.sweep.or (some (s.now + keepAlive)) := hdue
    cases hsweep : s.sweep with
    | some due' =>
      rw [hsweep] at hdue
      exact .inl hdue
    | none =>
      rw [hsweep, Option.none_or, Option.mem_some_iff] at hdue
      refine .inr ⟨?_, hdue.symm⟩
      by_contra hne
      have harmed := h.armed hne
      rw [hsweep] at harmed
      cases harmed
  refine ⟨h.quiet, ⟨⟨conn, s.now, s.sweeps⟩ :: recent, old, ?_, hold, ?_, holds⟩, fun _ => ?_, ?_, ?_, ?_, ?_⟩
  · show _ :: s.idle = _
    rw [hidle]
    rfl
  · exact List.forall_mem_cons.mpr ⟨rfl, hrecent⟩
  · show (s.sweep.or (some (s.now + keepAlive))).isSome = true
    cases s.sweep <;> rfl
  · exact List.forall_mem_cons.mpr ⟨Nat.le_refl _, h.past⟩
  · intro due hin
    rcases hdue due hin with hin | ⟨-, rfl⟩
    · exact h.timer due hin
    · exact ⟨Nat.le_add_right _ _, Nat.le_refl _⟩
  · intro due hin e he hsame
    rcases List.mem_cons.mp he with rfl | he
    · rcases hdue due hin with hin | ⟨-, rfl⟩
      · exact (h.timer due hin).2
      · exact Nat.le_refl _
    · rcases hdue due hin with hin | ⟨hnil, -⟩
      · exact h.recent due hin e he hsame
      · rw [hnil] at he
        cases he
  · intro due hin e he hnext
    rcases List.mem_cons.mp he with rfl | he
    · exact absurd hnext (Nat.succ_ne_self _)
    · rcases hdue due hin with hin | ⟨hnil, -⟩
      · exact h.old due hin e he hnext
      · rw [hnil] at he
        cases he

theorem Kept.wait (h : Kept keepAlive s) {ticks : ℕ} (hdue : ∀ due ∈ s.sweep, s.now + ticks ≤ due) :
    Kept keepAlive { s with now := s.now + ticks } where
  quiet := h.quiet
  parts := h.parts
  armed := h.armed
  past e he := Nat.le_trans (h.past e he) (Nat.le_add_right _ _)
  timer due hin := by
    refine ⟨hdue due hin, ?_⟩
    show due ≤ s.now + ticks + keepAlive
    have := (h.timer due hin).2
    omega
  recent := h.recent
  old := h.old

theorem Kept.sweep_parts (h : Kept keepAlive s) :
    (s.closeIdle keepAlive).idle ++ s.closed = s.idle ∧ (s.closeIdle keepAlive).raised = false ∧
      (s.closeIdle keepAlive).untouched = (s.closeIdle keepAlive).idle.length ∧
      (∀ e ∈ (s.closeIdle keepAlive).idle, e.sweeps = s.sweeps) ∧
      ∀ e ∈ s.closed, e.sweeps + 1 = s.sweeps := by
  obtain ⟨recent, old, hidle, hold, hrecent, holds⟩ := h.parts
  have hlength : s.idle.length - s.untouched = recent.length := by
    rw [hidle, List.length_append]
    omega
  have hshort : ¬s.idle.length < s.untouched := by
    rw [hidle, List.length_append]
    omega
  have hleft : s.idle.take (s.idle.length - s.untouched) = recent := by rw [hlength, hidle, List.take_left]
  have hclosed : s.closed = old := by rw [Pool.closed, hlength, hidle, List.drop_left]
  have hsweep : s.closeIdle keepAlive = { s with
      idle := recent
      untouched := recent.length
      sweep := if recent = [] then none else some (s.now + keepAlive)
      sweeps := s.sweeps + 1 } := by
    unfold Pool.closeIdle
    simp only [if_neg hshort, hleft]
  rw [hsweep, hclosed]
  exact ⟨hidle.symm, h.quiet, rfl, hrecent, holds⟩

theorem Kept.closeIdle (h : Kept keepAlive s) (hdue : s.IsDue) : Kept keepAlive (s.closeIdle keepAlive) := by
  obtain ⟨hparts, hraised, huntouched, hleft, -⟩ := h.sweep_parts
  obtain ⟨due, hin, hpast⟩ := hdue
  have hnow : s.now = due := Nat.le_antisymm (h.timer due hin).1 hpast
  have hidle : ∀ e ∈ (s.closeIdle keepAlive).idle, e ∈ s.idle := by
    intro e he
    rw [← hparts]
    exact List.mem_append_left _ he
  have hsame : (s.closeIdle keepAlive).now = s.now ∧ (s.closeIdle keepAlive).sweeps = s.sweeps + 1 := by
    unfold Pool.closeIdle
    simp only
    split <;> exact ⟨rfl, rfl⟩
  have hsweep : (s.closeIdle keepAlive).sweep =
      if (s.closeIdle keepAlive).idle = [] then none else some (s.now + keepAlive) := by
    have hquiet := hraised
    unfold Pool.closeIdle at hquiet ⊢
    simp only at hquiet ⊢
    split at hquiet
    · cases hquiet
    · next hlong => rw [if_neg hlong]
  have htimer : ∀ due' ∈ (s.closeIdle keepAlive).sweep, due' = s.now + keepAlive := by
    intro due' hin'
    rw [hsweep] at hin'
    split at hin'
    · cases hin'
    · exact (Option.mem_some_iff.mp hin').symm
  refine ⟨hraised, ⟨[], (s.closeIdle keepAlive).idle, rfl, huntouched.symm, by simp, ?_⟩, ?_, ?_, ?_, ?_, ?_⟩
  · intro e he
    rw [hleft e he, hsame.2]
  · intro hne
    rw [hsweep, if_neg hne]
    rfl
  · intro e he
    rw [hsame.1]
    exact h.past e (hidle e he)
  · intro due' hin'
    rw [htimer due' hin', hsame.1]
    exact ⟨Nat.le_add_right _ _, Nat.le_refl _⟩
  · intro due' _ e he hnever
    rw [hleft e he, hsame.2] at hnever
    exact absurd hnever (Nat.succ_ne_self _).symm
  · intro due' hin' e he _
    have hpast := h.past e (hidle e he)
    have hsoon := h.recent due hin e (hidle e he) (hleft e he)
    rw [htimer due' hin']
    omega

theorem Kept.step {a : Action} (h : Kept keepAlive s) (hstep : step keepAlive s a = some s') :
    Kept keepAlive s' := by
  cases a with
  | connect isClosed =>
    cases hstep
    exact h.connect isClosed
  | park conn =>
    rw [StageRoutes.step] at hstep
    split at hstep
    · cases hstep
      exact h.park conn
    · cases hstep
  | discard conn =>
    rw [StageRoutes.step] at hstep
    split at hstep
    · cases hstep
      exact h.shrink rfl rfl rfl rfl (fun _ he => he) h.parts
    · cases hstep
  | wait ticks =>
    rw [StageRoutes.step] at hstep
    split at hstep
    · next hdue =>
      cases hstep
      exact h.wait hdue
    · cases hstep
  | closeIdle =>
    rw [StageRoutes.step] at hstep
    split at hstep
    · next hdue =>
      cases hstep
      exact h.closeIdle hdue
    · cases hstep

end Steps

/-! ### When an idle connection closes -/

structure SweepKept (keepAlive : ℕ) (s : Pool) : Prop where
  bounded : s.untouched ≤ s.idle.length
  quiet : s.raised = false
  armed : s.idle ≠ [] → s.sweep.isSome = true
  closes : (s.closeIdle keepAlive).idle ++ s.closed = s.idle
  second : ∀ e ∈ s.idle, s.sweeps ≤ e.sweeps + 1 ∧ (e ∈ s.closed ↔ s.sweeps = e.sweeps + 1)
  early : s.IsDue → ∀ e ∈ s.closed, e.parkedAt + keepAlive ≤ s.now
  late : ∀ e ∈ s.idle, s.now ≤ e.parkedAt + 2 * keepAlive

/-- A sweep closes exactly the idle connections that one sweep passed since they were parked, so every
connection that is not reused closes at the second sweep, after one to two periods. -/
theorem idle_closed_by_second_sweep {keepAlive : ℕ} {s : Pool}
    (h : (machine keepAlive).Reaches Machine.anyAction s) : SweepKept keepAlive s := by
  have hkept : Kept keepAlive s := by
    refine h.invariant ?_ fun s a s' hs _ hstep => hs.step hstep
    exact ⟨rfl, ⟨[], [], rfl, rfl, by simp, by simp⟩, fun hne => absurd rfl hne, by simp [machine],
      by simp [machine], by simp [machine], by simp [machine]⟩
  obtain ⟨hcloses, -, -, hleft, hclosed⟩ := hkept.sweep_parts
  obtain ⟨recent, old, hidle, hold, -, -⟩ := hkept.parts
  have hpart : ∀ e ∈ s.idle, e.sweeps = s.sweeps ∧ e ∉ s.closed ∨ e.sweeps + 1 = s.sweeps ∧ e ∈ s.closed := by
    intro e he
    rw [← hcloses, List.mem_append] at he
    by_cases hin : e ∈ s.closed
    · exact .inr ⟨hclosed e hin, hin⟩
    · exact .inl ⟨hleft e (he.resolve_right hin), hin⟩
  refine ⟨?_, hkept.quiet, hkept.armed, hcloses, fun e he => ?_, ?_, fun e he => ?_⟩
  · rw [hidle, List.length_append]
    omega
  · rcases hpart e he with ⟨hsweeps, hnot⟩ | ⟨hsweeps, hin⟩
    · exact ⟨by omega, iff_of_false hnot (by omega)⟩
    · exact ⟨by omega, iff_of_true hin (by omega)⟩
  · rintro ⟨due, hin, hpast⟩ e he
    have hmem : e ∈ s.idle := hcloses ▸ List.mem_append_right _ he
    exact Nat.le_trans (hkept.old due hin e hmem (hclosed e he)).1 hpast
  · obtain ⟨due, hin⟩ := Option.isSome_iff_exists.mp (hkept.armed (List.ne_nil_of_mem he))
    have hnow := (hkept.timer due hin).1
    rcases hpart e he with ⟨hsweeps, -⟩ | ⟨hsweeps, -⟩
    · have := hkept.recent due hin e he hsweeps
      omega
    · have := (hkept.old due hin e he hsweeps).2
      omega

/-- Two requests over one connection: its second parking is at 60, and the second sweep after it at 240. -/
theorem idle_closed_at_240 : ∃ s, (machine 120).Reaches Machine.anyAction s ∧ s.now = 240 ∧ s.IsDue ∧
    s.closed = [⟨0, 60, 0⟩] ∧ SweepKept 120 s := by
  have hrun : (machine 120).exec {} [.connect fun _ => false, .park 0, .wait 60, .connect fun _ => false,
      .park 0, .wait 60, .closeIdle, .wait 120] =
      some { idle := [⟨0, 60, 0⟩], untouched := 1, sweep := some 240, opened := 1, now := 240, sweeps := 1 } :=
    rfl
  have hreaches := Machine.path_of_exec hrun
  exact ⟨_, hreaches, rfl, by decide, rfl, idle_closed_by_second_sweep hreaches⟩

/-- The sweep that parking a connection arms comes a whole period later and leaves the connection open. -/
theorem idle_left_by_first_sweep : ∃ s, (machine 120).Reaches Machine.anyAction s ∧ s.IsDue ∧
    ∃ e ∈ s.idle, e.parkedAt + 120 ≤ s.now ∧ e ∉ s.closed := by
  have hrun : (machine 120).exec {} [.connect fun _ => false, .park 0, .wait 120] =
      some { idle := [⟨0, 0, 0⟩], sweep := some 120, opened := 1, now := 120 } := rfl
  exact ⟨_, Machine.path_of_exec hrun, by decide, ⟨0, 0, 0⟩, by decide, by decide, by decide⟩

end StageRoutes
