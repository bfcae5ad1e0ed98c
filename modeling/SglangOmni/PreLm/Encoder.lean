import Mathlib.Data.List.Nodup
import Mathlib.Logic.Function.Basic
import SglangOmni.Lib.Machine

/-! `PreLMEncoderServiceBase` of `scheduling/pre_lm_encoder.py`: threads in `submit` and the worker
thread, one atomic step at a time. -/

namespace PreLm

open Lib

structure Hooks (ι η ε : Type) where
  /-- `encode_batch` and `split_embeddings`. -/
  encode : List ι → Except ε (List η)
  /-- What the hooks after them raise. -/
  finish : List ι → List η → Option ε

/-- The failure that is set of a failed batch, a retry of its items, or a raising hook. -/
inductive Handled (ε : Type) where
  | fails (exc : ε)
  | retries
  | raises (exc : ε)

structure Service (ι η ρ ε : Type) where
  maxQueueSize : ℕ
  /-- The item of each call of `submit`; its entry and its future have the call's number. -/
  item : ℕ → ι
  futureResult : η → ρ
  isInvalidStateError : ε → Bool
  lengthError : ℕ → ℕ → ε

inductive Call (ε : Type) where
  | start
  | enqueueing
  /-- `put` has raised `queue.Full`. -/
  | refused
  | queued
  /-- The worker's error is read, and `done` is asked next. -/
  | checking (exc : ε)
  /-- The future was not done, and `set_exception` comes next. -/
  | setting (exc : ε)
  | returned
  | workerFailed
  | invalidState

inductive Worker (ε : Type) where
  | collecting (taken : List ℕ)
  | running (batch : List ℕ)
  | retrying (tried rest : List ℕ)
  /-- `fail_worker` holds the lock. -/
  | draining (exc : ε) (pending : List ℕ)
  | failed

structure State (ι η ρ ε : Type) where
  call : ℕ → Call ε := fun _ => .start
  queue : List ℕ := []
  workerError : Option ε := none
  worker : Worker ε := .collecting []
  /-- The entries that the worker completes before it goes on. -/
  todo : List (ℕ × Except ε η) := []
  /-- The first of them was found not done. -/
  checked : Bool := false
  completions : List (ℕ × Except ε ρ) := []
  executed : List (Hooks ι η ε × List ℕ) := []
  failures : List (List ℕ × ε) := []

inductive Action (ι η ε : Type) where
  /-- The next step of a call of `submit`. -/
  | submit (c : ℕ)
  | get
  | nextBatch
  | nextBatchRaises (exc : ε)
  | execute (hooks : Hooks ι η ε) (handle : ε → Handled ε)
  | executeItem (hooks : Hooks ι η ε) (handle : ε → Except ε ε)
  | drain
  | release
  | check
  | set (raised : Option ε)

variable {ι η ρ ε : Type} (S : Service ι η ρ ε)

namespace Service

def executeBatch (hooks : Hooks ι η ε) (items : List ι) : Except ε (List η) :=
  match hooks.encode items with
  | .error exc => .error exc
  | .ok embeddings =>
    if embeddings.length ≠ items.length then .error (S.lengthError embeddings.length items.length)
    else
      match hooks.finish items embeddings with
      | some exc => .error exc
      | none => .ok embeddings

def isFull (queue : List ℕ) : Bool := decide (0 < S.maxQueueSize) && decide (S.maxQueueSize ≤ queue.length)

end Service

namespace State

variable (s : State ι η ρ ε)

def done (c : ℕ) : Bool := s.completions.any fun completion => completion.1 == c

def isLocked : Bool :=
  match s.worker with
  | .draining _ _ => true
  | _ => false

def move (c : ℕ) (call : Call ε) : State ι η ρ ε := { s with call := Function.update s.call c call }

def complete (c : ℕ) (outcome : Except ε ρ) : State ι η ρ ε := { s with completions := s.completions ++ [(c, outcome)] }

/-- The next atomic step of a call of `submit`. -/
def submit (c : ℕ) : Option (State ι η ρ ε) :=
  match s.call c with
  | .start | .refused =>
    if s.isLocked then none
    else some (s.move c (if s.workerError.isSome then .workerFailed else .enqueueing))
  | .enqueueing =>
    if S.isFull s.queue then some (s.move c .refused)
    else some ({ s with queue := s.queue ++ [c] }.move c .queued)
  | .queued =>
    if s.isLocked then none
    else
      match s.workerError with
      | none => some (s.move c .returned)
      | some exc => some (s.move c (.checking exc))
  | .checking exc => some (s.move c (if s.done c then .returned else .setting exc))
  | .setting exc =>
    if s.done c then some (s.move c .invalidState)
    else some ((s.complete c (.error exc)).move c .returned)
  | .returned | .workerFailed | .invalidState => none

/-- `execute_batch` of a whole batch, and what the worker does of its failure. -/
def executeAll (batch : List ℕ) (hooks : Hooks ι η ε) (handle : ε → Handled ε) : State ι η ρ ε :=
  match S.executeBatch hooks (batch.map S.item) with
  | .ok embeddings =>
    { s with
      worker := .collecting [], todo := batch.zip (embeddings.map .ok), executed := s.executed ++ [(hooks, batch)] }
  | .error exc =>
    match handle exc with
    | .fails exc =>
      { s with
        worker := .collecting [], todo := batch.map fun c => (c, .error exc), failures := s.failures ++ [(batch, exc)] }
    | .retries => { s with worker := .retrying [] batch }
    | .raises exc => { s with worker := .draining exc batch }

/-- `execute_batch` of one item of a batch that is retried. -/
def executeOne (tried : List ℕ) (c : ℕ) (rest : List ℕ) (hooks : Hooks ι η ε) (handle : ε → Except ε ε) :
    State ι η ρ ε :=
  let worker : Worker ε := if rest.isEmpty then .collecting [] else .retrying (tried ++ [c]) rest
  match S.executeBatch hooks [S.item c] with
  | .ok embeddings =>
    { s with worker, todo := [c].zip (embeddings.map .ok), executed := s.executed ++ [(hooks, [c])] }
  | .error exc =>
    match handle exc with
    | .ok exc => { s with worker, todo := [(c, .error exc)], failures := s.failures ++ [([c], exc)] }
    | .error exc => { s with worker := .draining exc (tried ++ c :: rest) }

def skip (todo : List (ℕ × Except ε η)) : State ι η ρ ε := { s with todo, checked := false }

/-- `set_exception` of a future that was found not done; `InvalidStateError` is caught. -/
def setException (c : ℕ) (exc : ε) (todo : List (ℕ × Except ε η)) : State ι η ρ ε :=
  if s.done c then s.skip todo else (s.complete c (.error exc)).skip todo

/-- `set_result` of a future that was found not done, with what `future_result` raises. -/
def setResult (c : ℕ) (embedding : η) (raised : Option ε) (todo : List (ℕ × Except ε η)) : State ι η ρ ε :=
  match raised with
  | none => if s.done c then s.skip todo else (s.complete c (.ok (S.futureResult embedding))).skip todo
  | some exc =>
    if S.isInvalidStateError exc then s.skip todo
    else { s with failures := s.failures ++ [([c], exc)] }.skip ((c, .error exc) :: todo)

def step (s : State ι η ρ ε) : Action ι η ε → Option (State ι η ρ ε)
  | .submit c => s.submit S c
  | .check =>
    match s.todo, s.checked with
    | (c, _) :: todo, false => if s.done c then some (s.skip todo) else some { s with checked := true }
    | _, _ => none
  | .set raised =>
    match s.todo, s.checked with
    | (c, .error exc) :: todo, true => some (s.setException c exc todo)
    | (c, .ok embedding) :: todo, true => some (s.setResult S c embedding raised todo)
    | _, _ => none
  | .get =>
    match s.todo, s.worker, s.queue with
    | [], .collecting taken, c :: queue => some { s with worker := .collecting (taken ++ [c]), queue }
    | _, _, _ => none
  | .nextBatch =>
    match s.todo, s.worker with
    | [], .collecting (c :: taken) => some { s with worker := .running (c :: taken) }
    | _, _ => none
  | .nextBatchRaises exc =>
    match s.todo, s.worker with
    | [], .collecting [] => some { s with worker := .draining exc [] }
    | _, _ => none
  | .execute hooks handle =>
    match s.todo, s.worker with
    | [], .running batch => some (s.executeAll S batch hooks handle)
    | _, _ => none
  | .executeItem hooks handle =>
    match s.todo, s.worker with
    | [], .retrying tried (c :: rest) => some (s.executeOne S tried c rest hooks handle)
    | _, _ => none
  | .drain =>
    match s.todo, s.worker, s.queue with
    | [], .draining exc pending, c :: queue => some { s with worker := .draining exc (pending ++ [c]), queue }
    | _, _, _ => none
  | .release =>
    match s.todo, s.worker, s.queue with
    | [], .draining exc pending, [] =>
      some { s with worker := .failed, todo := pending.map fun c => (c, .error exc), workerError := some exc }
    | _, _, _ => none

end State

def machine : Machine (State ι η ρ ε) (Action ι η ε) := ⟨{}, State.step S⟩

/-! ### Where an entry is -/

def Call.Put : Call ε → Prop
  | .start | .enqueueing | .refused | .workerFailed => False
  | _ => True

def Call.Ended : Call ε → Prop
  | .returned | .workerFailed | .invalidState => True
  | _ => False

def Worker.entries : Worker ε → List ℕ
  | .collecting taken => taken
  | .running batch => batch
  | .retrying _ rest => rest
  | .draining _ pending => pending
  | .failed => []

namespace State

def Holds (s : State ι η ρ ε) (c : ℕ) : Prop := c ∈ s.queue ∨ c ∈ s.worker.entries ∨ c ∈ s.todo.map Prod.fst

structure Placed (s : State ι η ρ ε) : Prop where
  put : ∀ c, (s.call c).Put → s.Holds c ∨ s.done c = true
  queued : ∀ c ∈ s.queue, (s.call c).Put
  failed : s.worker = .failed ↔ s.workerError.isSome = true
  reads : ∀ c exc, s.call c = .checking exc ∨ s.call c = .setting exc → s.workerError = some exc
  undone : ∀ c exc, s.call c = .setting exc → s.done c = false
  valid : ∀ c, s.call c ≠ .invalidState
  /-- What returns after the worker has failed has completed its own future. -/
  late : s.worker = .failed → ∀ c ∈ s.queue, s.call c = .returned → s.done c = true

/-- The payload has been made for the entry: by a batch with it, a failure handled for it, or the worker's failure. -/
def Explained (s : State ι η ρ ε) (c : ℕ) : Except ε η → Prop
  | .ok embedding => ∃ run ∈ s.executed, ∃ embeddings,
      S.executeBatch run.1 (run.2.map S.item) = .ok embeddings ∧ (c, embedding) ∈ run.2.zip embeddings
  | .error exc => s.workerError = some exc ∨ ∃ failure ∈ s.failures, failure.2 = exc ∧ c ∈ failure.1

def Accounts (s : State ι η ρ ε) (c : ℕ) : Except ε ρ → Prop
  | .ok result => ∃ embedding, s.Explained S c (.ok embedding) ∧ S.futureResult embedding = result
  | .error exc => s.Explained S c (.error exc)

structure Sourced (s : State ι η ρ ε) : Prop where
  nodup : (s.completions.map Prod.fst).Nodup
  todo : ∀ entry ∈ s.todo, s.Explained S entry.1 entry.2
  completions : ∀ completion ∈ s.completions, s.Accounts S completion.1 completion.2

structure Kept (s : State ι η ρ ε) : Prop where
  placed : s.Placed
  sourced : s.Sourced S

section Parts

variable {S} {s s' : State ι η ρ ε} {c : ℕ}

theorem done_iff : s.done c = true ↔ c ∈ s.completions.map Prod.fst := by
  simp only [done, List.any_eq_true, beq_iff_eq, List.mem_map]

theorem done_complete {other : ℕ} {outcome : Except ε ρ} :
    (s.complete c outcome).done other = (s.done other || c == other) := by
  simp [done, complete]

theorem Placed.update (h : s.Placed) {next : Call ε} {queue : List ℕ} (hkept : s.queue ⊆ queue)
    (hnew : ∀ other ∈ queue, other ∈ s.queue ∨ other = c) (hput : next.Put → (s.call c).Put ∨ c ∈ queue)
    (hqueued : c ∈ queue → next.Put)
    (hreads : ∀ exc, next = .checking exc ∨ next = .setting exc → s.workerError = some exc)
    (hundone : ∀ exc, next = .setting exc → s.done c = false) (hvalid : next ≠ .invalidState)
    (hlate : next = .returned → s.workerError.isSome = true → s.done c = true) :
    ({ s with queue }.move c next : State ι η ρ ε).Placed := by
  have hcases : ∀ {P : ℕ → Call ε → Prop}, P c next → (∀ other, other ≠ c → P other (s.call other)) →
      ∀ other, P other (Function.update s.call c next other) := by
    intro P hc hother other
    by_cases heq : other = c
    · subst heq
      rw [Function.update_self]
      exact hc
    · rw [Function.update_of_ne heq]
      exact hother other heq
  have hholds : ∀ other, s.Holds other → ({ s with queue }.move c next : State ι η ρ ε).Holds other := fun _ =>
    Or.imp_left fun hmem => hkept hmem
  have hold {other : ℕ} (hne : other ≠ c) (hmem : other ∈ queue) : other ∈ s.queue :=
    (hnew other hmem).resolve_right hne
  exact {
    put := hcases (P := fun other call => call.Put → _ ∨ s.done other = true)
      (fun hnext => (hput hnext).elim (fun hput => (h.put c hput).imp_left (hholds c)) fun hmem => .inl (.inl hmem))
      fun other _ hother => (h.put other hother).imp_left (hholds other)
    queued := hcases (P := fun other call => other ∈ queue → call.Put) hqueued
      fun other hne hmem => h.queued other (hold hne hmem)
    failed := h.failed
    reads := hcases (P := fun _ call => ∀ exc, call = .checking exc ∨ call = .setting exc → s.workerError = some exc)
      hreads fun other _ => h.reads other
    undone := hcases (P := fun other call => ∀ exc, call = .setting exc → s.done other = false) hundone
      fun other _ => h.undone other
    valid := hcases (P := fun _ call => call ≠ .invalidState) hvalid fun other _ => h.valid other
    late := fun hworker => hcases (P := fun other call => other ∈ queue → call = .returned → s.done other = true)
      (fun _ hnext => hlate hnext (h.failed.mp hworker))
      fun other hne hmem => h.late hworker other (hold hne hmem) }

theorem Placed.move (h : s.Placed) {next : Call ε} (hput : next.Put ↔ (s.call c).Put)
    (hreads : ∀ exc, next = .checking exc ∨ next = .setting exc → s.workerError = some exc)
    (hundone : ∀ exc, next = .setting exc → s.done c = false) (hvalid : next ≠ .invalidState)
    (hlate : next = .returned → s.workerError.isSome = true → s.done c = true) : (s.move c next).Placed :=
  h.update (List.Subset.refl _) (fun _ => .inl) (fun hnext => .inl (hput.mp hnext))
    (fun hmem => hput.mpr (h.queued c hmem)) hreads hundone hvalid hlate

theorem Placed.complete (h : s.Placed) (hcall : ∀ exc, s.call c ≠ .setting exc) (outcome : Except ε ρ) :
    (s.complete c outcome).Placed := by
  have hmono : ∀ {other : ℕ}, s.done other = true → (s.complete c outcome).done other = true := fun hdone => by
    rw [done_complete, hdone, Bool.true_or]
  refine ⟨fun other hput => (h.put other hput).imp_right hmono, h.queued, h.failed, h.reads, fun other exc hset => ?_,
    h.valid, fun hworker other hmem hreturned => hmono (h.late hworker other hmem hreturned)⟩
  have hne : c ≠ other := fun heq => hcall exc (heq ▸ hset)
  rw [done_complete, h.undone other exc hset, Bool.false_or, beq_eq_false_iff_ne.mpr hne]

theorem Placed.rearrange (h : s.Placed) (hcall : s'.call = s.call) (hdone : s'.completions = s.completions)
    (herror : s'.workerError = s.workerError) (hworker : s'.worker = .failed ↔ s.worker = .failed)
    (hqueue : s'.queue ⊆ s.queue) (hholds : ∀ c, s.Holds c → s'.Holds c ∨ s.done c = true) : s'.Placed := by
  have hsame (c : ℕ) : s'.done c = s.done c := by rw [done, hdone, done]
  refine ⟨fun c hput => ?_, fun c hmem => ?_, ?_, ?_, fun c exc hset => ?_, ?_, fun hfailed c hmem hreturned => ?_⟩
  · rw [hsame]
    exact (h.put c (hcall ▸ hput)).elim (hholds c) .inr
  · exact hcall ▸ h.queued c (hqueue hmem)
  · rw [hworker, herror]
    exact h.failed
  · rw [hcall, herror]
    exact h.reads
  · rw [hsame]
    exact h.undone c exc (hcall ▸ hset)
  · rw [hcall]
    exact h.valid
  · rw [hsame]
    exact h.late (hworker.mp hfailed) c (hqueue hmem) (hcall ▸ hreturned)

theorem Explained.mono {payload : Except ε η} (h : s.Explained S c payload) (hexecuted : s.executed ⊆ s'.executed)
    (hfailures : s.failures ⊆ s'.failures) (herror : ∀ exc, s.workerError = some exc → s'.workerError = some exc) :
    s'.Explained S c payload := by
  cases payload with
  | ok embedding =>
    obtain ⟨run, hrun, hmade⟩ := h
    exact ⟨run, hexecuted hrun, hmade⟩
  | error exc =>
    rcases h with h | ⟨failure, hfailure, hfor⟩
    · exact .inl (herror exc h)
    · exact .inr ⟨failure, hfailures hfailure, hfor⟩

theorem Sourced.grow (h : s.Sourced S) (hexecuted : s.executed ⊆ s'.executed) (hfailures : s.failures ⊆ s'.failures)
    (herror : ∀ exc, s.workerError = some exc → s'.workerError = some exc) (hsame : s'.completions = s.completions)
    (htodo : ∀ entry ∈ s'.todo, entry ∈ s.todo ∨ s'.Explained S entry.1 entry.2) : s'.Sourced S := by
  refine ⟨hsame ▸ h.nodup, fun entry hentry => ?_, fun completion hmem => ?_⟩
  · rcases htodo entry hentry with hold | hnew
    · exact (h.todo entry hold).mono hexecuted hfailures herror
    · exact hnew
  · have haccounts := h.completions completion (hsame ▸ hmem)
    obtain ⟨c, outcome⟩ := completion
    cases outcome with
    | error exc =>
      have hexplained : s.Explained S c (.error exc) := haccounts
      exact hexplained.mono hexecuted hfailures herror
    | ok result =>
      obtain ⟨embedding, hexplained, hresult⟩ := haccounts
      exact ⟨embedding, hexplained.mono hexecuted hfailures herror, hresult⟩

theorem Sourced.complete (h : s.Sourced S) (hundone : s.done c = false) {outcome : Except ε ρ}
    (haccounts : s.Accounts S c outcome) : (s.complete c outcome).Sourced S := by
  refine ⟨?_, h.todo, fun completion hmem => ?_⟩
  · have hnot : c ∉ s.completions.map Prod.fst := fun hmem => Bool.noConfusion (hundone.symm.trans (done_iff.mpr hmem))
    simp only [State.complete, List.map_append, List.map_cons, List.map_nil]
    exact List.nodup_append.mpr ⟨h.nodup, List.nodup_singleton c, fun a ha b hb hab =>
      hnot (List.mem_singleton.mp hb ▸ hab ▸ ha)⟩
  · rcases List.mem_append.mp hmem with hold | hnew
    · exact h.completions completion hold
    · cases List.mem_singleton.mp hnew
      exact haccounts

theorem Sourced.move (h : s.Sourced S) (c : ℕ) (next : Call ε) : (s.move c next).Sourced S :=
  h.grow (List.Subset.refl _) (List.Subset.refl _) (fun _ => id) rfl fun _ => .inl

theorem submit_kept (h : s.Kept S) (hstep : s.submit S c = some s') : s'.Kept S := by
  obtain ⟨hplaced, hsourced⟩ := h
  rw [submit] at hstep
  cases hcall : s.call c with
  | start | refused =>
    rw [hcall] at hstep
    simp only at hstep
    split at hstep
    · cases hstep
    cases hstep
    refine ⟨hplaced.move ?_ ?_ ?_ ?_ ?_, hsourced.move _ _⟩
    · rw [hcall]
      split <;> exact Iff.rfl
    all_goals split <;> nofun
  | enqueueing =>
    rw [hcall] at hstep
    simp only at hstep
    split at hstep
    · cases hstep
      exact ⟨hplaced.move (by rw [hcall]; exact Iff.rfl) nofun nofun nofun nofun, hsourced.move _ _⟩
    cases hstep
    have hqueue : ({ s with queue := s.queue ++ [c] } : State ι η ρ ε).Sourced S :=
      hsourced.grow (List.Subset.refl _) (List.Subset.refl _) (fun _ => id) rfl fun _ => .inl
    refine ⟨hplaced.update (List.subset_append_left _ _) (fun other hmem => ?_) (fun _ => .inr (by simp))
      (fun _ => trivial) nofun nofun nofun nofun, hqueue.move _ _⟩
    exact (List.mem_append.mp hmem).imp_right List.mem_singleton.mp
  | queued =>
    rw [hcall] at hstep
    simp only at hstep
    split at hstep
    · cases hstep
    split at hstep
    · next hnone =>
      cases hstep
      refine ⟨hplaced.move (by rw [hcall]; exact Iff.rfl) nofun nofun nofun fun _ hsome => ?_, hsourced.move _ _⟩
      rw [hnone] at hsome
      cases hsome
    · next exc hsome =>
      cases hstep
      refine ⟨hplaced.move (by rw [hcall]; exact Iff.rfl) ?_ nofun nofun nofun, hsourced.move _ _⟩
      rintro _ (⟨⟨⟩⟩ | ⟨⟨⟩⟩)
      exact hsome
  | checking exc =>
    rw [hcall] at hstep
    cases hstep
    have herror := hplaced.reads c exc (.inl hcall)
    refine ⟨hplaced.move ?_ ?_ ?_ ?_ ?_, hsourced.move _ _⟩
    · rw [hcall]
      split <;> exact Iff.rfl
    · split
      · nofun
      · rintro _ (⟨⟨⟩⟩ | ⟨⟨⟩⟩)
        exact herror
    · split
      · nofun
      · next hdone => exact fun _ _ => Bool.not_eq_true _ ▸ hdone
    · split <;> nofun
    · split
      · next hdone => exact fun _ _ => hdone
      · nofun
  | setting exc =>
    rw [hcall] at hstep
    have hundone := hplaced.undone c exc hcall
    have herror := hplaced.reads c exc (.inr hcall)
    simp only [hundone, Bool.false_eq_true, if_false] at hstep
    cases hstep
    -- Back at the check, the call completes its future like the worker does.
    have hback : (s.move c (.checking exc)).Placed := by
      refine hplaced.move (by rw [hcall]; exact Iff.rfl) ?_ nofun nofun nofun
      rintro _ (⟨⟨⟩⟩ | ⟨⟨⟩⟩)
      exact herror
    have hself : (s.move c (.checking exc)).call c = .checking exc := Function.update_self ..
    have hcompleted := hback.complete (c := c) (by rw [hself]; nofun) (.error exc)
    have hreturned : ((s.complete c (.error exc)).move c .returned) =
        ((s.move c (.checking exc)).complete c (.error exc)).move c .returned := by
      simp only [State.move, State.complete, Function.update_idem]
    have haccounts : s.Accounts S c (.error exc) := Or.inl herror
    refine ⟨?_, (hsourced.complete hundone haccounts).move _ _⟩
    rw [hreturned]
    refine hcompleted.move ?_ nofun nofun nofun fun _ _ => ?_
    · show Call.Put .returned ↔ ((s.move c (.checking exc)).call c).Put
      rw [hself]
      exact Iff.rfl
    · rw [done_complete, beq_self_eq_true, Bool.or_true]
  | returned | workerFailed | invalidState =>
    rw [hcall] at hstep
    cases hstep

theorem Kept.rearrange (h : s.Kept S)
    (hframe : s'.call = s.call ∧ s'.completions = s.completions ∧ s'.workerError = s.workerError ∧ s'.queue ⊆ s.queue)
    (hlogs : s.executed ⊆ s'.executed ∧ s.failures ⊆ s'.failures)
    (hworker : s'.worker = .failed ↔ s.worker = .failed)
    (hholds : ∀ c, s.Holds c → s'.Holds c ∨ s.done c = true)
    (htodo : ∀ entry ∈ s'.todo, entry ∈ s.todo ∨ s'.Explained S entry.1 entry.2) : s'.Kept S :=
  ⟨h.placed.rearrange hframe.1 hframe.2.1 hframe.2.2.1 hworker hframe.2.2.2 hholds,
    h.sourced.grow hlogs.1 hlogs.2 (fun _ => hframe.2.2.1 ▸ id) hframe.2.1 htodo⟩

variable {payload : Except ε η} {todo : List (ℕ × Except ε η)}

theorem Kept.skip (h : s.Kept S) (htodo : s.todo = (c, payload) :: todo) (hdone : s.done c = true) :
    (s.skip todo).Kept S := by
  refine h.rearrange ⟨rfl, rfl, rfl, List.Subset.refl _⟩ ⟨List.Subset.refl _, List.Subset.refl _⟩ Iff.rfl ?_ ?_
  · rintro other (hmem | hmem | hmem)
    · exact .inl (.inl hmem)
    · exact .inl (.inr (.inl hmem))
    · rw [htodo, List.map_cons, List.mem_cons] at hmem
      rcases hmem with rfl | hmem
      · exact .inr hdone
      · exact .inl (.inr (.inr hmem))
  · intro entry hmem
    exact .inl (htodo ▸ List.mem_cons_of_mem _ hmem)

theorem Kept.complete_skip (h : s.Kept S) (htodo : s.todo = (c, payload) :: todo)
    (hcall : ∀ exc, s.call c ≠ .setting exc) {outcome : Except ε ρ} (haccounts : s.Accounts S c outcome) :
    (if s.done c then s.skip todo else (s.complete c outcome).skip todo).Kept S := by
  cases hdone : s.done c with
  | true => exact h.skip htodo hdone
  | false =>
    have hcompleted : (s.complete c outcome).Kept S :=
      ⟨h.placed.complete hcall outcome, h.sourced.complete hdone haccounts⟩
    exact hcompleted.skip htodo (by rw [done_complete, beq_self_eq_true, Bool.or_true])

theorem Kept.setResult (h : s.Kept S) {embedding : η} (htodo : s.todo = (c, .ok embedding) :: todo)
    (hcall : ∀ exc, s.call c ≠ .setting exc) (raised : Option ε)
    (hraised : ∀ exc ∈ raised, S.isInvalidStateError exc = false) : (s.setResult S c embedding raised todo).Kept S := by
  have hexplained : s.Explained S c (.ok embedding) := h.sourced.todo _ (htodo ▸ List.mem_cons_self ..)
  cases raised with
  | none => exact h.complete_skip htodo hcall ⟨embedding, hexplained, rfl⟩
  | some exc =>
    rw [State.setResult, hraised exc rfl]
    refine h.rearrange ⟨rfl, rfl, rfl, List.Subset.refl _⟩ ⟨List.Subset.refl _, List.subset_append_left _ _⟩ Iff.rfl
      (fun other hholds => .inl ?_) fun entry hmem => ?_
    · show _ ∨ _ ∨ other ∈ c :: todo.map Prod.fst
      have hsame : s.todo.map Prod.fst = c :: todo.map Prod.fst := by rw [htodo, List.map_cons]
      exact hsame ▸ hholds
    · rcases List.mem_cons.mp hmem with rfl | hmem
      · exact .inr (.inr ⟨_, List.mem_append_right _ (List.mem_singleton_self _), rfl, List.mem_singleton_self c⟩)
      · exact .inl (htodo ▸ List.mem_cons_of_mem _ hmem)

theorem executeBatch_length {hooks : Hooks ι η ε} {items : List ι} {embeddings : List η}
    (h : S.executeBatch hooks items = .ok embeddings) : embeddings.length = items.length := by
  rw [Service.executeBatch] at h
  split at h
  · cases h
  · split at h
    · cases h
    · next hlength =>
      split at h
      · cases h
      · cases h
        exact not_not.mp hlength

theorem holds_of_entries (htodo : s.todo = []) (hqueue : s.queue ⊆ s'.queue)
    (hentries : ∀ c ∈ s.worker.entries, c ∈ s'.worker.entries ∨ c ∈ s'.todo.map Prod.fst) (c : ℕ) (h : s.Holds c) :
    s'.Holds c ∨ s.done c = true := by
  rcases h with hmem | hmem | hmem
  · exact .inl (.inl (hqueue hmem))
  · exact .inl (.inr (hentries c hmem))
  · rw [htodo] at hmem
    cases hmem

theorem Kept.take (h : s.Kept S) (htodo : s.todo = []) {queue : List ℕ} (hqueue : s.queue = c :: queue)
    {worker : Worker ε} (hworker : worker = .failed ↔ s.worker = .failed)
    (hentries : worker.entries = s.worker.entries ++ [c]) : ({ s with worker, queue } : State ι η ρ ε).Kept S := by
  refine h.rearrange ⟨rfl, rfl, rfl, ?_⟩ ⟨List.Subset.refl _, List.Subset.refl _⟩ hworker ?_ fun _ => .inl
  · rw [hqueue]
    exact List.subset_cons_self c queue
  · rintro other (hmem | hmem | hmem)
    · rw [hqueue] at hmem
      rcases List.mem_cons.mp hmem with rfl | hmem
      · exact .inl (.inr (.inl (hentries ▸ List.mem_append_right _ (List.mem_singleton_self _))))
      · exact .inl (.inl hmem)
    · exact .inl (.inr (.inl (hentries ▸ List.mem_append_left _ hmem)))
    · rw [htodo] at hmem
      cases hmem

theorem Kept.executeAll (h : s.Kept S) (htodo : s.todo = []) {batch : List ℕ} (hworker : s.worker = .running batch)
    (hooks : Hooks ι η ε) (handle : ε → Handled ε) : (s.executeAll S batch hooks handle).Kept S := by
  have hholds {s' : State ι η ρ ε} (hqueue : s'.queue = s.queue)
      (hbatch : ∀ c ∈ batch, c ∈ s'.worker.entries ∨ c ∈ s'.todo.map Prod.fst) :
      ∀ c, s.Holds c → s'.Holds c ∨ s.done c = true :=
    holds_of_entries htodo (by rw [hqueue]; exact List.Subset.refl _) (by rw [hworker]; exact hbatch)
  rw [State.executeAll]
  cases hexecute : S.executeBatch hooks (batch.map S.item) with
  | ok embeddings =>
    have hlength : (embeddings.map (Except.ok : η → Except ε η)).length = batch.length := by
      rw [List.length_map, executeBatch_length hexecute, List.length_map]
    refine h.rearrange ⟨rfl, rfl, rfl, List.Subset.refl _⟩ ⟨List.subset_append_left _ _, List.Subset.refl _⟩
      (by rw [hworker]; exact ⟨nofun, nofun⟩) (hholds rfl fun c hmem => .inr ?_) fun entry hmem => .inr ?_
    · show c ∈ (batch.zip (embeddings.map Except.ok)).map Prod.fst
      rwa [List.map_fst_zip (Nat.le_of_eq hlength.symm)]
    · obtain ⟨c, payload⟩ := entry
      have hmem : (c, payload) ∈ batch.zip (embeddings.map Except.ok) := hmem
      rw [List.zip_map_right, List.mem_map] at hmem
      obtain ⟨⟨_, embedding⟩, hpair, heq⟩ := hmem
      cases heq
      exact ⟨_, List.mem_append_right _ (List.mem_singleton_self _), embeddings, hexecute, hpair⟩
  | error exc =>
    simp only
    cases hhandle : handle exc with
    | retries =>
      exact h.rearrange ⟨rfl, rfl, rfl, List.Subset.refl _⟩ ⟨List.Subset.refl _, List.Subset.refl _⟩
        (by rw [hworker]; exact ⟨nofun, nofun⟩) (hholds rfl fun _ => .inl) fun _ => .inl
    | raises exc =>
      exact h.rearrange ⟨rfl, rfl, rfl, List.Subset.refl _⟩ ⟨List.Subset.refl _, List.Subset.refl _⟩
        (by rw [hworker]; exact ⟨nofun, nofun⟩) (hholds rfl fun _ => .inl) fun _ => .inl
    | fails exc =>
      refine h.rearrange ⟨rfl, rfl, rfl, List.Subset.refl _⟩ ⟨List.Subset.refl _, List.subset_append_left _ _⟩
        (by rw [hworker]; exact ⟨nofun, nofun⟩) (hholds rfl fun c hmem => .inr ?_) fun entry hmem => .inr ?_
      · exact List.mem_map.mpr ⟨_, List.mem_map_of_mem hmem, rfl⟩
      · obtain ⟨c, hc, rfl⟩ := List.mem_map.mp hmem
        exact .inr ⟨_, List.mem_append_right _ (List.mem_singleton_self _), rfl, hc⟩

theorem Kept.executeOne (h : s.Kept S) (htodo : s.todo = []) {tried rest : List ℕ}
    (hworker : s.worker = .retrying tried (c :: rest)) (hooks : Hooks ι η ε) (handle : ε → Except ε ε) :
    (s.executeOne S tried c rest hooks handle).Kept S := by
  have hholds {s' : State ι η ρ ε} (hqueue : s'.queue = s.queue)
      (hbatch : ∀ other ∈ c :: rest, other ∈ s'.worker.entries ∨ other ∈ s'.todo.map Prod.fst) :
      ∀ other, s.Holds other → s'.Holds other ∨ s.done other = true :=
    holds_of_entries htodo (by rw [hqueue]; exact List.Subset.refl _) (by rw [hworker]; exact hbatch)
  -- The item that was tried is completed next, the others are still to be tried.
  have hrest {s' : State ι η ρ ε} (hnext : s'.worker = if rest.isEmpty then .collecting [] else .retrying (tried ++ [c]) rest)
      (hfirst : c ∈ s'.todo.map Prod.fst) :
      ∀ other ∈ c :: rest, other ∈ s'.worker.entries ∨ other ∈ s'.todo.map Prod.fst := by
    intro other hmem
    rcases List.mem_cons.mp hmem with rfl | hmem
    · exact .inr hfirst
    · rw [hnext, if_neg (by simp [List.ne_nil_of_mem hmem])]
      exact .inl hmem
  have hgoing {s' : State ι η ρ ε} (hnext : s'.worker = if rest.isEmpty then .collecting [] else .retrying (tried ++ [c]) rest) :
      s'.worker = .failed ↔ s.worker = .failed := by
    rw [hnext, hworker]
    split <;> exact ⟨nofun, nofun⟩
  rw [State.executeOne]
  cases hexecute : S.executeBatch hooks [S.item c] with
  | ok embeddings =>
    obtain ⟨embedding, rfl⟩ := List.length_eq_one_iff.mp (executeBatch_length hexecute)
    refine h.rearrange ⟨rfl, rfl, rfl, List.Subset.refl _⟩ ⟨List.subset_append_left _ _, List.Subset.refl _⟩
      (hgoing rfl) (hholds rfl (hrest rfl (List.mem_singleton_self c))) fun entry hmem => .inr ?_
    cases List.mem_singleton.mp hmem
    exact ⟨_, List.mem_append_right _ (List.mem_singleton_self _), _, hexecute, List.mem_singleton_self _⟩
  | error exc =>
    simp only
    cases hhandle : handle exc with
    | error exc =>
      exact h.rearrange ⟨rfl, rfl, rfl, List.Subset.refl _⟩ ⟨List.Subset.refl _, List.Subset.refl _⟩
        (by rw [hworker]; exact ⟨nofun, nofun⟩)
        (hholds rfl fun other hmem => .inl (List.mem_append_right tried hmem)) fun _ => .inl
    | ok exc =>
      refine h.rearrange ⟨rfl, rfl, rfl, List.Subset.refl _⟩ ⟨List.Subset.refl _, List.subset_append_left _ _⟩
        (hgoing rfl) (hholds rfl (hrest rfl (List.mem_singleton_self c))) fun entry hmem => .inr ?_
      cases List.mem_singleton.mp hmem
      exact .inr ⟨_, List.mem_append_right _ (List.mem_singleton_self _), rfl, List.mem_singleton_self c⟩

theorem Kept.release (h : s.Kept S) (htodo : s.todo = []) {exc : ε} {pending : List ℕ}
    (hworker : s.worker = .draining exc pending) (hqueue : s.queue = []) :
    State.Kept S { s with
      worker := .failed, todo := pending.map fun c => (c, Except.error exc), workerError := some exc } := by
  have hnone : s.workerError = none := by
    rw [← Option.not_isSome_iff_eq_none, ← h.placed.failed, hworker]
    nofun
  obtain ⟨hplaced, hsourced⟩ := h
  refine ⟨⟨fun c hput => ?_, hplaced.queued, ⟨fun _ => rfl, fun _ => rfl⟩, fun c exc hread => ?_, hplaced.undone,
    hplaced.valid, fun _ c hmem => ?_⟩, ?_⟩
  · refine (hplaced.put c hput).imp_left ?_
    rintro (hmem | hmem | hmem)
    · exact .inl hmem
    · rw [hworker] at hmem
      exact .inr (.inr (List.mem_map.mpr ⟨_, List.mem_map_of_mem hmem, rfl⟩))
    · rw [htodo] at hmem
      cases hmem
  · exact absurd (hplaced.reads c exc hread) (by rw [hnone]; nofun)
  · rw [hqueue] at hmem
    cases hmem
  · refine hsourced.grow (List.Subset.refl _) (List.Subset.refl _) (fun _ hsome => ?_) rfl fun entry hmem => .inr ?_
    · rw [hnone] at hsome
      cases hsome
    · obtain ⟨c, _, rfl⟩ := List.mem_map.mp hmem
      exact .inl rfl

end Parts

/-- The worker completes no future while its call of `submit` stands between the check and the set, and
`future_result` does not raise `InvalidStateError`. -/
def Orderly (s : State ι η ρ ε) : Action ι η ε → Prop
  | .set raised => (∀ entry ∈ s.todo.head?, ∀ exc, s.call entry.1 ≠ .setting exc) ∧
      ∀ exc ∈ raised, S.isInvalidStateError exc = false
  | _ => True

theorem step_kept {s s' : State ι η ρ ε} {a : Action ι η ε} (h : s.Kept S) (horderly : s.Orderly S a)
    (hstep : s.step S a = some s') : s'.Kept S := by
  cases a with
  | submit c => exact submit_kept h hstep
  | check =>
    rw [step] at hstep
    split at hstep
    · next c payload todo htodo _ =>
      split at hstep
      · next hdone =>
        cases hstep
        exact h.skip htodo hdone
      · cases hstep
        exact h.rearrange ⟨rfl, rfl, rfl, List.Subset.refl _⟩ ⟨List.Subset.refl _, List.Subset.refl _⟩ Iff.rfl
          (fun _ => .inl) fun _ => .inl
    · cases hstep
  | set raised =>
    rw [step] at hstep
    split at hstep
    · next c exc todo htodo _ =>
      cases hstep
      have hcall := horderly.1 (c, .error exc) (by rw [htodo]; rfl)
      exact h.complete_skip htodo hcall (h.sourced.todo (c, .error exc) (htodo ▸ List.mem_cons_self ..))
    · next c embedding todo htodo _ =>
      cases hstep
      exact h.setResult htodo (horderly.1 (c, .ok embedding) (by rw [htodo]; rfl)) raised horderly.2
    · cases hstep
  | get =>
    rw [step] at hstep
    split at hstep
    · next taken c queue htodo hworker hqueue =>
      cases hstep
      exact h.take htodo hqueue (by rw [hworker]; exact ⟨nofun, nofun⟩) (by rw [hworker]; rfl)
    · cases hstep
  | nextBatch =>
    rw [step] at hstep
    split at hstep
    · next c taken htodo hworker =>
      cases hstep
      exact h.rearrange ⟨rfl, rfl, rfl, List.Subset.refl _⟩ ⟨List.Subset.refl _, List.Subset.refl _⟩
        (by rw [hworker]; exact ⟨nofun, nofun⟩)
        (holds_of_entries htodo (List.Subset.refl _) (by rw [hworker]; exact fun _ => .inl)) fun _ => .inl
    · cases hstep
  | nextBatchRaises exc =>
    rw [step] at hstep
    split at hstep
    · next htodo hworker =>
      cases hstep
      exact h.rearrange ⟨rfl, rfl, rfl, List.Subset.refl _⟩ ⟨List.Subset.refl _, List.Subset.refl _⟩
        (by rw [hworker]; exact ⟨nofun, nofun⟩)
        (holds_of_entries htodo (List.Subset.refl _) (by rw [hworker]; exact fun _ => .inl)) fun _ => .inl
    · cases hstep
  | execute hooks handle =>
    rw [step] at hstep
    split at hstep
    · next batch htodo hworker =>
      cases hstep
      exact h.executeAll htodo hworker hooks handle
    · cases hstep
  | executeItem hooks handle =>
    rw [step] at hstep
    split at hstep
    · next tried c rest htodo hworker =>
      cases hstep
      exact h.executeOne htodo hworker hooks handle
    · cases hstep
  | drain =>
    rw [step] at hstep
    split at hstep
    · next exc pending c queue htodo hworker hqueue =>
      cases hstep
      exact h.take htodo hqueue (by rw [hworker]; exact ⟨nofun, nofun⟩) (by rw [hworker]; rfl)
    · cases hstep
  | release =>
    rw [step] at hstep
    split at hstep
    · next exc pending htodo hworker hqueue =>
      cases hstep
      exact h.release htodo hworker hqueue
    · cases hstep

theorem init_kept : (machine S).init.Kept S := by
  have hcall (c : ℕ) : (machine S).init.call c = .start := rfl
  refine ⟨⟨fun c hput => hput.elim, nofun, ⟨nofun, nofun⟩, fun c exc hread => ?_, fun c exc hset => ?_, fun c => ?_, nofun⟩,
    List.nodup_nil, nofun, nofun⟩
  · rw [hcall] at hread
    rcases hread with hread | hread <;> cases hread
  · rw [hcall] at hset
    cases hset
  · rw [hcall]
    nofun

/-- The worker waits for an entry, or it has failed and completed what it had. -/
def Rests (s : State ι η ρ ε) : Prop :=
  s.todo = [] ∧ (s.worker = .collecting [] ∧ s.queue = [] ∨ s.worker = .failed)

end State

open State in
/-- In a run of orderly steps, `submit` raises only that the worker has failed; no future is completed twice or with
what was not made for its entry; those returned are complete when the worker rests, and those left in the queue when
it has failed and their call has ended. -/
theorem submitted_complete {s : State ι η ρ ε} (h : (machine S).Reaches (State.Orderly S) s) :
    (∀ c, s.call c ≠ .invalidState) ∧ (s.completions.map Prod.fst).Nodup ∧
      (∀ completion ∈ s.completions, s.Accounts S completion.1 completion.2) ∧
      (s.Rests → ∀ c, s.call c = .returned → s.done c = true) ∧
      (s.worker = .failed → ∀ c ∈ s.queue, (s.call c).Ended → s.done c = true) := by
  obtain ⟨hplaced, hsourced⟩ := h.invariant (P := State.Kept S) (init_kept S) fun _ _ _ => step_kept S
  refine ⟨hplaced.valid, hsourced.nodup, hsourced.completions, ?_, ?_⟩
  · rintro ⟨htodo, hrests⟩ c hreturned
    refine (hplaced.put c (by rw [hreturned]; trivial)).elim ?_ id
    rintro (hmem | hmem | hmem)
    · rcases hrests with ⟨-, hqueue⟩ | hfailed
      · rw [hqueue] at hmem
        cases hmem
      · exact hplaced.late hfailed c hmem hreturned
    · rcases hrests with ⟨hworker, -⟩ | hworker <;> rw [hworker] at hmem <;> cases hmem
    · rw [htodo] at hmem
      cases hmem
  · intro hfailed c hmem hended
    have hput := hplaced.queued c hmem
    cases hcall : s.call c with
    | returned => exact hplaced.late hfailed c hmem hcall
    | invalidState => exact absurd hcall (hplaced.valid c)
    | _ => rw [hcall] at hput hended; first | exact hput.elim | exact hended.elim

/-- Items are doubled, one waits at most, and no hook's own error is an `InvalidStateError`. -/
def doubling : Service ℕ ℕ ℕ String := ⟨1, id, id, fun _ => false, fun _ _ => "length"⟩

def doublingHooks : Hooks ℕ ℕ String := ⟨fun items => .ok (items.map (2 * ·)), fun _ _ => none⟩

theorem submitted_complete_one : ∃ s, (machine doubling).Reaches (State.Orderly doubling) s ∧
    s.completions = [(0, .ok 0)] ∧ s.call 0 = .returned ∧ s.done 0 = true := by
  have hnext {s s' : State ℕ ℕ ℕ String} (h : (machine doubling).Reaches (State.Orderly doubling) s)
      (a : Action ℕ ℕ String) (ha : s.Orderly doubling a) (hstep : s.step doubling a = some s') :
      (machine doubling).Reaches (State.Orderly doubling) s' := Machine.Path.tail h ha hstep
  have hqueued := hnext (hnext (hnext (Machine.Path.refl _) (.submit 0) trivial rfl) (.submit 0) trivial rfl)
    (.submit 0) trivial rfl
  have hexecuted := hnext (hnext (hnext hqueued .get trivial rfl) .nextBatch trivial rfl)
    (.execute doublingHooks .fails) trivial rfl
  have hset := hnext (hnext hexecuted .check trivial rfl) (.set none)
    ⟨fun entry hentry exc => by cases hentry; nofun, nofun⟩ rfl
  exact ⟨_, hset, rfl, rfl, (submitted_complete doubling hset).2.2.2.1 ⟨rfl, .inl ⟨rfl, rfl⟩⟩ 0 rfl⟩

/-- The worker fails and completes a future that its call of `submit` has just found not done: the call raises
`InvalidStateError`. -/
theorem submit_raises_invalidState : ∃ s, (machine doubling).Reaches Machine.anyAction s ∧
    s.call 0 = .invalidState := by
  have hrun : (machine doubling).exec (machine doubling).init
      [.submit 0, .submit 0, .get, .nextBatch, .execute ⟨fun _ => .error "encode", fun _ _ => none⟩ .raises, .release,
        .submit 0, .submit 0, .check, .set none, .submit 0] = some _ := rfl
  exact ⟨_, Machine.path_of_exec hrun, rfl⟩

end PreLm
