import SglangOmni.Cascade.Dialog
import Mathlib.Data.List.Range

/-! Who has the floor in a dialog: utterances are queued by number, each is answered in turn with a
reply or found empty, and a reply that started ends once, done or interrupted. -/

namespace Cascade

/-- The reply that has the floor, and whether its interrupt was emitted. -/
structure Holder where
  turn : Nat
  isStopping : Bool := false
deriving DecidableEq

/-- The turns queued and answered so far, and the reply that has the floor. -/
structure Floor where
  queued : Nat := 0
  answered : Nat := 0
  holder : Option Holder := none
deriving DecidableEq

namespace Floor

def mayAnswer (f : Floor) (turn : Nat) : Prop :=
  f.holder = none ∧ turn = f.answered + 1 ∧ turn ≤ f.queued

instance (f : Floor) (turn : Nat) : Decidable (f.mayAnswer turn) :=
  inferInstanceAs (Decidable (_ ∧ _ ∧ _))

def after (f : Floor) : Moment → Option Floor
  | .emitted (.queued turn) => if turn = f.queued + 1 then some { f with queued := turn } else none
  | .emitted (.empty turn) => if f.mayAnswer turn then some { f with answered := turn } else none
  | .emitted (.started turn) =>
    if f.mayAnswer turn then some { f with answered := turn, holder := some ⟨turn, false⟩ } else none
  | .emitted (.messages _ turn _) => if f.holder = some ⟨turn, false⟩ then some f else none
  | .emitted (.interrupt turn) =>
    if f.holder = some ⟨turn, false⟩ then some { f with holder := some ⟨turn, true⟩ } else none
  | .emitted (.interrupted turn) =>
    if f.holder = some ⟨turn, true⟩ then some { f with holder := none } else none
  | .emitted (.heard _ _) => some f
  | .replyDone turn =>
    if f.holder = some ⟨turn, false⟩ then some { f with holder := none } else none

def run (log : List Moment) : Option Floor := log.foldlM after {}

theorem run_concat {log : List Moment} {f f' : Floor} {moment : Moment} (h : run log = some f)
    (hafter : f.after moment = some f') : run (log ++ [moment]) = some f' := by
  simp only [run] at h ⊢
  rw [List.foldlM_append, h]
  simp [hafter]

theorem of_run_concat {log : List Moment} {f' : Floor} {moment : Moment}
    (h : run (log ++ [moment]) = some f') : ∃ f, run log = some f ∧ f.after moment = some f' := by
  simp only [run] at h ⊢
  rw [List.foldlM_append] at h
  obtain ⟨f, hf, hlast⟩ := Option.bind_eq_some_iff.mp h
  exact ⟨f, hf, by simpa using hlast⟩

end Floor

/-! ### The turns of a log -/

@[simp] def Moment.queuedTurn : Moment → Option Nat
  | .emitted (.queued turn) => some turn
  | _ => none

@[simp] def Moment.answeredTurn : Moment → Option Nat
  | .emitted (.empty turn) | .emitted (.started turn) => some turn
  | _ => none

@[simp] def Moment.startedTurn : Moment → Option Nat
  | .emitted (.started turn) => some turn
  | _ => none

@[simp] def Moment.interruptTurn : Moment → Option Nat
  | .emitted (.interrupt turn) => some turn
  | _ => none

@[simp] def Moment.interruptedTurn : Moment → Option Nat
  | .emitted (.interrupted turn) => some turn
  | _ => none

/-- The turn whose interrupt was emitted and whose turn.interrupted was not. -/
@[simp] def stoppingTurn : Option Holder → List Nat
  | some ⟨turn, true⟩ => [turn]
  | _ => []

structure TurnsInOrder (log : List Moment) (f : Floor) : Prop where
  queued : log.filterMap Moment.queuedTurn = List.range' 1 f.queued
  answered : log.filterMap Moment.answeredTurn = List.range' 1 f.answered
  answered_le : f.answered ≤ f.queued
  holder : ∀ turn stopping, f.holder = some ⟨turn, stopping⟩ → turn = f.answered
  holds : ∀ turn stopping, f.holder = some ⟨turn, stopping⟩ → turn ∈ log.filterMap Moment.startedTurn
  started : ∀ turn ∈ log.filterMap Moment.interruptTurn, turn ∈ log.filterMap Moment.startedTurn
  interrupt : (log.filterMap Moment.interruptTurn).Pairwise (· < ·)
  interrupt_le : ∀ turn ∈ log.filterMap Moment.interruptTurn, turn ≤ f.answered
  interrupt_lt : ∀ turn, f.holder = some ⟨turn, false⟩ →
    ∀ t ∈ log.filterMap Moment.interruptTurn, t < f.answered
  interrupted : log.filterMap Moment.interruptTurn
    = log.filterMap Moment.interruptedTurn ++ stoppingTurn f.holder

theorem TurnsInOrder.nil : TurnsInOrder [] {} where
  queued := rfl
  answered := rfl
  answered_le := Nat.le_refl _
  holder := nofun
  holds := nofun
  started := nofun
  interrupt := .nil
  interrupt_le := nofun
  interrupt_lt := nofun
  interrupted := rfl

@[simp] theorem filterMap_single {α β : Type} (g : α → Option β) (a : α) :
    [a].filterMap g = (g a).toList := by
  cases h : g a <;> simp [h]

theorem range'_succ_last (n : Nat) : List.range' 1 (n + 1) = List.range' 1 n ++ [n + 1] := by
  rw [List.range'_concat]
  simp [Nat.add_comm]

variable {log : List Moment} {f : Floor}

theorem TurnsInOrder.queue (h : TurnsInOrder log f) :
    TurnsInOrder (log ++ [Moment.emitted (.queued (f.queued + 1))]) { f with queued := f.queued + 1 } where
  queued := by simp [h.queued, range'_succ_last]
  answered := by simpa using h.answered
  answered_le := Nat.le_succ_of_le h.answered_le
  holder := h.holder
  holds := by simpa using h.holds
  started := by simpa using h.started
  interrupt := by simpa using h.interrupt
  interrupt_le := by simpa using h.interrupt_le
  interrupt_lt := by simpa using h.interrupt_lt
  interrupted := by simpa using h.interrupted

theorem TurnsInOrder.empty (h : TurnsInOrder log f) (hnone : f.holder = none)
    (hle : f.answered + 1 ≤ f.queued) :
    TurnsInOrder (log ++ [Moment.emitted (.empty (f.answered + 1))])
      { f with answered := f.answered + 1 } where
  queued := by simpa using h.queued
  answered := by simp [h.answered, range'_succ_last]
  answered_le := hle
  holder := by simp [hnone]
  holds := by simp [hnone]
  started := by simpa using h.started
  interrupt := by simpa using h.interrupt
  interrupt_le turn hturn := Nat.le_succ_of_le (h.interrupt_le turn (by simpa using hturn))
  interrupt_lt := by simp [hnone]
  interrupted := by simpa using h.interrupted

theorem TurnsInOrder.start (h : TurnsInOrder log f) (hnone : f.holder = none)
    (hle : f.answered + 1 ≤ f.queued) :
    TurnsInOrder (log ++ [Moment.emitted (.started (f.answered + 1))])
      { f with answered := f.answered + 1, holder := some ⟨f.answered + 1, false⟩ } where
  queued := by simpa using h.queued
  answered := by simp [h.answered, range'_succ_last]
  answered_le := hle
  holder := by
    rintro turn stopping ⟨⟩
    rfl
  holds := by
    rintro turn stopping ⟨⟩
    simp
  started turn hturn := by
    rw [List.filterMap_append]
    exact List.mem_append_left _ (h.started turn (by simpa using hturn))
  interrupt := by simpa using h.interrupt
  interrupt_le turn hturn := Nat.le_succ_of_le (h.interrupt_le turn (by simpa using hturn))
  interrupt_lt _ _ turn hturn := Nat.lt_succ_of_le (h.interrupt_le turn (by simpa using hturn))
  interrupted := by simpa [hnone] using h.interrupted

theorem TurnsInOrder.quiet (h : TurnsInOrder log f) {moment : Moment}
    (hmoment : moment.queuedTurn = none ∧ moment.answeredTurn = none ∧ moment.startedTurn = none
      ∧ moment.interruptTurn = none ∧ moment.interruptedTurn = none) :
    TurnsInOrder (log ++ [moment]) f := by
  obtain ⟨hqueued, hanswered, hstarted, hinterrupt, hinterrupted⟩ := hmoment
  constructor
  case answered_le => exact h.answered_le
  case holder => exact h.holder
  all_goals simp only [List.filterMap_append, filterMap_single, hqueued, hanswered, hstarted,
    hinterrupt, hinterrupted, Option.toList_none, List.append_nil]
  exacts [h.queued, h.answered, h.holds, h.started, h.interrupt, h.interrupt_le, h.interrupt_lt,
    h.interrupted]

theorem TurnsInOrder.stop (h : TurnsInOrder log f) {turn : Nat} (hholder : f.holder = some ⟨turn, false⟩) :
    TurnsInOrder (log ++ [Moment.emitted (.interrupt turn)]) { f with holder := some ⟨turn, true⟩ } := by
  have hturn := h.holder turn false hholder
  have hlt := h.interrupt_lt turn hholder
  have hmatched := h.interrupted
  rw [hholder] at hmatched
  have hinterrupts : (log ++ [Moment.emitted (.interrupt turn)]).filterMap Moment.interruptTurn
      = log.filterMap Moment.interruptTurn ++ [turn] := by simp
  constructor
  case queued => simpa using h.queued
  case answered => simpa using h.answered
  case answered_le => exact h.answered_le
  case holder =>
    rintro turn stopping ⟨⟩
    exact hturn
  case holds =>
    rintro turn stopping ⟨⟩
    simpa using h.holds turn false hholder
  case started =>
    intro t ht
    rw [hinterrupts] at ht
    rcases List.mem_append.mp ht with ht | ht
    · simpa using h.started t ht
    · rw [List.mem_singleton.mp ht]
      simpa using h.holds turn false hholder
  case interrupt =>
    rw [hinterrupts, List.pairwise_append]
    refine ⟨h.interrupt, List.pairwise_singleton _ _, fun t ht t' ht' => ?_⟩
    rw [List.mem_singleton.mp ht', hturn]
    exact hlt t ht
  case interrupt_le =>
    intro t ht
    rw [hinterrupts] at ht
    rcases List.mem_append.mp ht with ht | ht
    · exact h.interrupt_le t ht
    · rw [List.mem_singleton.mp ht, hturn]
  case interrupt_lt => nofun
  case interrupted =>
    rw [hinterrupts, hmatched]
    simp

theorem TurnsInOrder.release (h : TurnsInOrder log f) {moment : Moment} {turn : Nat}
    (hmoment : moment = .emitted (.interrupted turn) ∧ f.holder = some ⟨turn, true⟩ ∨
      moment = .replyDone turn ∧ f.holder = some ⟨turn, false⟩) :
    TurnsInOrder (log ++ [moment]) { f with holder := none } := by
  rcases hmoment with ⟨rfl, hholder⟩ | ⟨rfl, hholder⟩
  all_goals
    exact {
      queued := by simpa using h.queued
      answered := by simpa using h.answered
      answered_le := h.answered_le
      holder := nofun
      holds := nofun
      started := by simpa using h.started
      interrupt := by simpa using h.interrupt
      interrupt_le := by simpa using h.interrupt_le
      interrupt_lt := nofun
      interrupted := by simpa [hholder] using h.interrupted }

theorem TurnsInOrder.concat (h : TurnsInOrder log f) {moment : Moment} {f' : Floor}
    (hafter : f.after moment = some f') : TurnsInOrder (log ++ [moment]) f' := by
  cases moment with
  | emitted output =>
    cases output
    case heard =>
      cases hafter
      exact h.quiet ⟨rfl, rfl, rfl, rfl, rfl⟩
    all_goals
      obtain ⟨hmay, ⟨⟩⟩ := Option.ite_none_right_eq_some.mp hafter
    case queued => exact hmay ▸ h.queue
    case empty =>
      obtain ⟨hnone, rfl, hle⟩ := hmay
      exact h.empty hnone hle
    case started =>
      obtain ⟨hnone, rfl, hle⟩ := hmay
      exact h.start hnone hle
    case messages => exact h.quiet ⟨rfl, rfl, rfl, rfl, rfl⟩
    case interrupt => exact h.stop hmay
    case interrupted => exact h.release (.inl ⟨rfl, hmay⟩)
  | replyDone turn =>
    obtain ⟨hmay, ⟨⟩⟩ := Option.ite_none_right_eq_some.mp hafter
    exact h.release (.inr ⟨rfl, hmay⟩)

theorem turnsInOrder_of_run (log : List Moment) {f : Floor} (h : Floor.run log = some f) :
    TurnsInOrder log f := by
  induction log using List.reverseRecOn generalizing f with
  | nil =>
    cases h
    exact .nil
  | append_singleton log moment ih =>
    obtain ⟨before, hbefore, hafter⟩ := Floor.of_run_concat h
    exact (ih hbefore).concat hafter

end Cascade
