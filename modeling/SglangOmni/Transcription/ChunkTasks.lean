import Mathlib.Data.List.Basic
import SglangOmni.Lib.Machine

/-! `transcribe_audio_chunks` of `serve/transcriptions.py`: the chunk tasks, the task that gathers them or
decodes them in order, and its cleanup, from one await to the next. -/

namespace Transcription.ChunkTasks

open Lib

abbrev Result := String × Option String

abbrev Request := ℕ × Bool

structure Job where
  requestId : String
  /-- `has_speech` of the plan's spans. -/
  speech : List Bool
  maxConcurrent : ℕ
  isOrdered : Bool

/-- What `client.completion` does; `cancelled` is a `CancelledError`. -/
inductive Outcome where
  | returned (result : Result)
  | raised
  | cancelled

inductive Chunk where
  | waiting
  | encoding
  | completing
  | done (result : Result)
  | failed
  | cancelled
deriving DecidableEq

inductive Stage where
  | next
  | encoding (retry : Bool)
  | completing (retry : Bool)
  | deciding (result : Result)
deriving DecidableEq

inductive Outer where
  | gathering (cancelled : Bool)
  | decoding (stage : Stage) (kept : List Result)
  /-- The cleanup waits for the tasks, with the requests that it aborts then. -/
  | joining (pending : List Request) (cancelled : Bool)
  /-- An abort is awaited, and the others follow. -/
  | aborting (rest : List Request)
  | returned (texts : List String) (finishReason : Option String)
  | raised
deriving DecidableEq

structure State where
  chunks : List Chunk
  outer : Outer
  /-- The tasks of the chunks have been cancelled. -/
  cancelling : Bool := false
  inFlight : List Request := []
  handed : List Request := []
  ended : List Request := []
  aborted : List Request := []
  results : List (Request × Result) := []

inductive Action where
  | start (i : ℕ)
  | encode (i : ℕ) (raises : Bool)
  | complete (i : ℕ) (outcome : Outcome)
  /-- A chunk's task ends with the `CancelledError` of its cancellation. -/
  | interrupt (i : ℕ)
  | next (raises : Bool)
  | encodeNext (raises : Bool)
  | completeNext (outcome : Outcome)
  /-- `should_retry_chunk_without_context` returns, or raises. -/
  | decide (verdict : Option Bool)
  | resume
  | join
  | abortEnds
  /-- A cancellation of `transcribe_audio_chunks` arrives at its await. -/
  | cancel
  /-- It arrives when the gathering is over, which does not reach the tasks. -/
  | cancelLate

variable (J : Job)

def chunkedFinishReason (reasons : List (Option String)) : Option String :=
  if reasons.any (· == some "length") then some "length" else none

def chunkRequestId (request : Request) : String :=
  J.requestId ++ "-chunk-" ++ toString request.1 ++ if request.2 then "-retry" else ""

namespace Chunk

def holdsSlot : Chunk → Bool
  | .encoding | .completing => true
  | _ => false

def isRunning : Chunk → Bool
  | .waiting | .encoding | .completing => true
  | _ => false

def raised : Chunk → Bool
  | .failed | .cancelled => true
  | _ => false

def result? : Chunk → Option Result
  | .done result => some result
  | _ => none

end Chunk

namespace State

variable (s : State)

def setChunk (i : ℕ) (chunk : Chunk) : State := { s with chunks := s.chunks.set i chunk }

def handOver (request : Request) : State :=
  { s with inFlight := s.inFlight ++ [request], handed := s.handed ++ [request] }

def discard (request : Request) : State :=
  { s with inFlight := s.inFlight.filter (· != request), ended := s.ended ++ [request] }

def record (request : Request) (result : Result) : State :=
  { s.discard request with results := s.results ++ [(request, result)] }

def abortNext : List Request → State
  | [] => { s with outer := .raised }
  | request :: rest => { s with outer := .aborting rest, aborted := s.aborted ++ [request] }

def pending : List Request :=
  s.inFlight.mergeSort fun first second => decide (chunkRequestId J first ≤ chunkRequestId J second)

/-- The `except BaseException` of the gathered tasks; without tasks the cleanup's `gather` does not wait. -/
def cleanUp : State := { s with outer := .joining (s.pending J) false, cancelling := true }

def cleanUpDecoding : State := s.abortNext (s.pending J)

def keep (kept : List Result) (result : Result) : State := { s with outer := .decoding .next (kept ++ [result]) }

def succeed (kept : List Result) : State :=
  { s with outer := .returned (kept.map Prod.fst) (chunkedFinishReason (kept.map Prod.snd)) }

def chunkStep : Action → Option State
  | .start i =>
    if s.cancelling || s.chunks[i]? != some .waiting then none
    else if J.speech[i]? == some false then some (s.setChunk i (.done ("", none)))
    else if s.chunks.countP Chunk.holdsSlot < J.maxConcurrent then some (s.setChunk i .encoding)
    else none
  | .encode i raises =>
    if s.cancelling || s.chunks[i]? != some .encoding then none
    else if raises then some (s.setChunk i .failed)
    else some ((s.handOver (i, false)).setChunk i .completing)
  | .complete i outcome =>
    if s.chunks[i]? != some .completing then none
    else
      match outcome with
      | .returned result => some ((s.record (i, false) result).setChunk i (.done result))
      | .raised => some ((s.discard (i, false)).setChunk i .failed)
      | .cancelled => some (s.setChunk i .cancelled)
  | .interrupt i =>
    if s.cancelling && s.chunks[i]?.any Chunk.isRunning then some (s.setChunk i .cancelled) else none
  | _ => none

def decodeStep (stage : Stage) (kept : List Result) : Action → Option State
  | .next raises =>
    if stage != .next then none
    else
      match J.speech[kept.length]? with
      | none => some (s.succeed kept)
      | some false => some (s.keep kept ("", none))
      | some true =>
        if raises then some (s.cleanUpDecoding J) else some { s with outer := .decoding (.encoding false) kept }
  | .encodeNext raises =>
    match stage with
    | .encoding retry =>
      if raises then some (s.cleanUpDecoding J)
      else some { s.handOver (kept.length, retry) with outer := .decoding (.completing retry) kept }
    | _ => none
  | .completeNext outcome =>
    match stage, outcome with
    | .completing true, .returned result => some ((s.record (kept.length, true) result).keep kept result)
    | .completing false, .returned result =>
      some { s.record (kept.length, false) result with outer := .decoding (.deciding result) kept }
    | .completing retry, .raised => some ((s.discard (kept.length, retry)).cleanUpDecoding J)
    | .completing _, .cancelled => some (s.cleanUpDecoding J)
    | _, _ => none
  | .decide verdict =>
    match stage, verdict with
    | .deciding _, none => some (s.cleanUpDecoding J)
    | .deciding _, some true => some { s with outer := .decoding (.encoding true) kept }
    | .deciding result, some false => some (s.keep kept result)
    | _, _ => none
  | .cancel => if stage == .next then none else some (s.cleanUpDecoding J)
  | _ => none

def step (s : State) (a : Action) : Option State :=
  match s.outer, a with
  | .decoding stage kept, _ => s.decodeStep J stage kept a
  | .gathering cancelled, .resume =>
    if s.chunks.any Chunk.raised then some (s.cleanUp J)
    else (s.chunks.mapM Chunk.result?).map fun kept => if cancelled then s.cleanUp J else s.succeed kept
  | .gathering _, .cancel =>
    if s.chunks.isEmpty then none else some { s with outer := .gathering true, cancelling := true }
  | .gathering _, .cancelLate =>
    if s.chunks.any Chunk.raised then some { s with outer := .gathering true } else none
  | .joining pending cancelled, .join =>
    if s.chunks.any Chunk.isRunning then none
    else if cancelled then some { s with outer := .raised } else some (s.abortNext pending)
  | .joining pending _, .cancel => some { s with outer := .joining pending true }
  | .aborting rest, .abortEnds => some (s.abortNext rest)
  | .aborting _, .cancel => some { s with outer := .raised }
  | _, _ => s.chunkStep J a

end State

def machine : Machine State Action where
  init :=
    if J.isOrdered then { chunks := [], outer := .decoding .next [] }
    else { chunks := List.replicate J.speech.length .waiting, outer := .gathering false }
  step := State.step J

/-! ### What holds at each await -/

def Stage.requests : Stage → ℕ → List Request
  | .completing retry, span => [(span, retry)]
  | _, _ => []

namespace State

/-- What was handed to `client.completion` has ended or is one of the others. -/
def Settled (s : State) (others : List Request) : Prop := ∀ request ∈ s.handed, request ∈ s.ended ∨ request ∈ others

/-- The result of a span: nothing of a silent one, else the retry's or the only request's. -/
def KeptAs (s : State) (i : ℕ) (result : Result) : Prop :=
  J.speech[i]? = some false ∧ result = ("", none) ∨
    J.speech[i]? = some true ∧ (((i, true), result) ∈ s.results ∨
      ((i, false), result) ∈ s.results ∧ ∀ other, ((i, true), other) ∉ s.results)

structure Gathers (s : State) : Prop where
  flight : s.Settled s.inFlight
  running : ∀ request ∈ s.inFlight, request.2 = false ∧
    (s.chunks[request.1]? = some Chunk.completing ∨ s.chunks[request.1]? = some Chunk.cancelled)
  length : s.chunks.length = J.speech.length
  speech : ∀ i : ℕ, s.chunks[i]? = some Chunk.encoding ∨ s.chunks[i]? = some Chunk.completing → J.speech[i]? = some true
  first : ∀ entry ∈ s.results, entry.1.2 = false
  done : ∀ i result, s.chunks[i]? = some (.done result) → s.KeptAs J i result

structure Decodes (s : State) (stage : Stage) (kept : List Result) : Prop where
  flight : s.Settled s.inFlight
  inFlight : s.inFlight = stage.requests kept.length
  chunks : s.chunks = []
  speech : stage ≠ .next → J.speech[kept.length]? = some true
  retried : ∀ entry ∈ s.results, entry.1.2 = true → entry.1.1 < kept.length
  keptAs : ∀ i result, kept[i]? = some result → s.KeptAs J i result
  deciding : ∀ result, stage = .deciding result → ((kept.length, false), result) ∈ s.results
  length : kept.length ≤ J.speech.length

/-- One text for each span, in the order of the spans, and `length` exactly if a kept chunk stopped on it. -/
def Returns (s : State) (texts : List String) (finishReason : Option String) : Prop :=
  ∃ kept : List Result, kept.length = J.speech.length ∧ texts = kept.map Prod.fst ∧
    (finishReason = some "length" ↔ ∃ result ∈ kept, result.2 = some "length") ∧
    ∀ i result, kept[i]? = some result → s.KeptAs J i result

def Quiet (s : State) : Prop := s.cancelling = true ∨ ∀ chunk ∈ s.chunks, chunk.isRunning = false

def Phase (s : State) : Prop :=
  match s.outer with
  | .gathering _ => s.Gathers J
  | .decoding stage kept => s.Decodes J stage kept
  | .joining pending cancelled => s.Quiet ∧ s.Settled pending ∧ (cancelled = true → pending = [])
  | .aborting rest => s.Quiet ∧ s.Settled (s.aborted ++ rest)
  | .returned texts finishReason => (∀ chunk ∈ s.chunks, chunk.isRunning = false) ∧ s.Settled [] ∧
      s.Returns J texts finishReason
  | .raised => s.Quiet ∧ s.Settled s.aborted

section Steps

variable {J} {s s' : State}

theorem mem_pending {request : Request} : request ∈ s.pending J ↔ request ∈ s.inFlight := List.mem_mergeSort

theorem abortNext_phase {requests : List Request} (hquiet : s.Quiet) (h : s.Settled (s.aborted ++ requests)) :
    (s.abortNext requests).Phase J := by
  cases requests with
  | nil => exact ⟨hquiet, by rwa [List.append_nil] at h⟩
  | cons request rest =>
    refine ⟨hquiet, fun handed hmem => ?_⟩
    show _ ∨ handed ∈ s.aborted ++ [request] ++ rest
    rw [List.append_assoc]
    exact h handed hmem

theorem Settled.pending (h : s.Settled s.inFlight) : s.Settled (s.pending J) := fun request hmem =>
  (h request hmem).imp_right mem_pending.mpr

theorem cleanUpDecoding_phase (hchunks : s.chunks = []) (h : s.Settled s.inFlight) :
    (s.cleanUpDecoding J).Phase J :=
  abortNext_phase (.inr (by rw [hchunks]; nofun)) fun request hmem =>
    (h.pending request hmem).imp_right (List.mem_append_right _)

theorem chunkedFinishReason_eq (reasons : List (Option String)) :
    chunkedFinishReason reasons = some "length" ↔ some "length" ∈ reasons := by
  rw [chunkedFinishReason]
  split
  · next h =>
    obtain ⟨_, hmem, heq⟩ := List.any_eq_true.mp h
    exact iff_of_true rfl (beq_iff_eq.mp heq ▸ hmem)
  · next h => exact iff_of_false nofun fun hmem => h (List.any_eq_true.mpr ⟨_, hmem, beq_self_eq_true _⟩)

theorem succeed_phase {kept : List Result} (hchunks : ∀ chunk ∈ s.chunks, chunk.isRunning = false)
    (hsettled : s.Settled []) (hlength : kept.length = J.speech.length)
    (hkept : ∀ i result, kept[i]? = some result → s.KeptAs J i result) : (s.succeed kept).Phase J := by
  refine ⟨hchunks, hsettled, kept, hlength, rfl, ?_, hkept⟩
  rw [chunkedFinishReason_eq, List.mem_map]

theorem Settled.discard {others : List Request} (h : s.Settled others) (request : Request) :
    (s.discard request).Settled (others.filter (· != request)) := by
  intro handed hmem
  by_cases heq : handed = request
  · exact .inl (heq ▸ List.mem_append_right _ (List.mem_singleton_self _))
  · exact (h handed hmem).imp (List.mem_append_left _) fun hother => List.mem_filter.mpr ⟨hother, by simpa using heq⟩

theorem Settled.mono {others : List Request} (h : s.Settled others) (hhanded : s'.handed = s.handed)
    (hended : s.ended ⊆ s'.ended) : s'.Settled others := fun request hmem =>
  (h request (hhanded ▸ hmem)).imp_left fun hmem => hended hmem

theorem Settled.handOver (h : s.Settled s.inFlight) (request : Request) :
    (s.handOver request).Settled (s.handOver request).inFlight := by
  intro handed hmem
  rcases List.mem_append.mp hmem with hmem | hmem
  · exact (h handed hmem).imp_right (List.mem_append_left _)
  · exact .inr (List.mem_append_right _ hmem)

theorem KeptAs.mono {i : ℕ} {result : Result} (h : s.KeptAs J i result) (hresults : s.results ⊆ s'.results)
    (hretry : ∀ other, ((i, true), other) ∈ s'.results → ((i, true), other) ∈ s.results) : s'.KeptAs J i result :=
  h.imp_right fun ⟨hspeech, hmade⟩ => ⟨hspeech, hmade.imp (fun hmem => hresults hmem)
    fun ⟨hmem, hnot⟩ => ⟨hresults hmem, fun other hother => hnot other (hretry other hother)⟩⟩

/-! ### The steps -/

inductive ChunkStep (s : State) : State → Prop where
  | silent {i : ℕ} (hold : s.chunks[i]? = some .waiting) (hspeech : J.speech[i]? = some false) :
      ChunkStep s (s.setChunk i (.done ("", none)))
  | start {i : ℕ} (hold : s.chunks[i]? = some .waiting) (hspeech : J.speech[i]? ≠ some false) :
      ChunkStep s (s.setChunk i .encoding)
  | hand {i : ℕ} (hold : s.chunks[i]? = some .encoding) (hgoing : s.cancelling = false) :
      ChunkStep s ((s.handOver (i, false)).setChunk i .completing)
  | stop {i : ℕ} {old new : Chunk} (hold : s.chunks[i]? = some old) (hrunning : old.isRunning = true)
      (hnew : new = .failed ∧ old ≠ .completing ∨ new = .cancelled) : ChunkStep s (s.setChunk i new)
  | returned {i : ℕ} (hold : s.chunks[i]? = some .completing) (result : Result) :
      ChunkStep s ((s.record (i, false) result).setChunk i (.done result))
  | raised {i : ℕ} (hold : s.chunks[i]? = some .completing) : ChunkStep s ((s.discard (i, false)).setChunk i .failed)

theorem chunkStep_cases {a : Action} (h : s.chunkStep J a = some s') : ChunkStep (J := J) s s' := by
  cases a with
  | start i =>
    rw [chunkStep] at h
    split at h
    · cases h
    next hold =>
    simp only [Bool.or_eq_true, bne_iff_ne, ne_eq, not_or, not_not] at hold
    split at h
    · next hspeech =>
      cases h
      exact .silent hold.2 (beq_iff_eq.mp hspeech)
    · next hspeech =>
      split at h
      · cases h
        exact .start hold.2 fun heq => hspeech (beq_iff_eq.mpr heq)
      · cases h
  | encode i raises =>
    rw [chunkStep] at h
    split at h
    · cases h
    next hold =>
    simp only [Bool.or_eq_true, bne_iff_ne, ne_eq, not_or, not_not, Bool.not_eq_true] at hold
    split at h
    · cases h
      exact .stop hold.2 rfl (.inl ⟨rfl, nofun⟩)
    · cases h
      exact .hand hold.2 hold.1
  | complete i outcome =>
    rw [chunkStep.eq_def] at h
    dsimp only at h
    split at h
    · cases h
    next hold =>
    simp only [bne_iff_ne, ne_eq, not_not] at hold
    cases outcome with
    | returned result => cases h; exact .returned hold result
    | raised => cases h; exact .raised hold
    | cancelled => cases h; exact .stop hold rfl (.inr rfl)
  | interrupt i =>
    rw [chunkStep] at h
    split at h
    · next hrunning =>
      cases h
      have hrunning := ((Bool.and_eq_true _ _).mp hrunning).2
      cases hold : s.chunks[i]? with
      | none =>
        rw [hold] at hrunning
        cases hrunning
      | some chunk =>
        rw [hold] at hrunning
        exact .stop hold hrunning (.inr rfl)
    · cases h
  | _ => cases h

theorem ChunkStep.quiet (h : ChunkStep (J := J) s s') (hquiet : s.Quiet) {others : List Request}
    (hsettled : s.Settled others) :
    s'.outer = s.outer ∧ s'.aborted = s.aborted ∧ s'.Quiet ∧ s'.Settled others := by
  have hset {i : ℕ} {old new : Chunk} (hold : s.chunks[i]? = some old) (hrunning : old.isRunning = true) :
      s.cancelling = true ∨ ∀ chunk ∈ s.chunks.set i new, chunk.isRunning = false := by
    refine hquiet.imp_right fun hall => ?_
    rw [hall old (List.mem_of_getElem? hold)] at hrunning
    cases hrunning
  cases h with
  | silent hold _ => exact ⟨rfl, rfl, hset hold rfl, hsettled⟩
  | start hold _ => exact ⟨rfl, rfl, hset hold rfl, hsettled⟩
  | stop hold hrunning _ => exact ⟨rfl, rfl, hset hold hrunning, hsettled⟩
  | returned hold result => exact ⟨rfl, rfl, hset hold rfl, hsettled.mono rfl (List.subset_append_left _ _)⟩
  | raised hold => exact ⟨rfl, rfl, hset hold rfl, hsettled.mono rfl (List.subset_append_left _ _)⟩
  | hand hold hgoing =>
    rcases hquiet with hcancelling | hall
    · rw [hgoing] at hcancelling
      cases hcancelling
    · cases hall _ (List.mem_of_getElem? hold)

theorem Gathers.set (h : s.Gathers J) {i : ℕ} {old new : Chunk} (hold : s.chunks[i]? = some old)
    (hrunning : old.isRunning = true) (hopen : old = .completing → new = .completing ∨ new = .cancelled)
    (hspeech : new = .encoding ∨ new = .completing → J.speech[i]? = some true)
    (hdone : ∀ result, new = .done result → s.KeptAs J i result) : (s.setChunk i new).Gathers J := by
  have hlt : i < s.chunks.length := (List.getElem?_eq_some_iff.mp hold).1
  have hget (j : ℕ) : (s.setChunk i new).chunks[j]? = if i = j then some new else s.chunks[j]? := by
    show (s.chunks.set i new)[j]? = _
    rw [List.getElem?_set, if_pos hlt]
  refine ⟨h.flight, fun request hmem => ⟨(h.running request hmem).1, ?_⟩, ?_, fun j hj => ?_, h.first,
    fun j result hj => ?_⟩
  · rw [hget]
    split
    · next heq =>
      have hrequest := (h.running request hmem).2
      rw [← heq, hold] at hrequest
      rcases hrequest with hrequest | hrequest
      · cases hrequest
        exact (hopen rfl).imp (congrArg some) (congrArg some)
      · cases hrequest
        cases hrunning
    · exact (h.running request hmem).2
  · show (s.chunks.set i new).length = _
    rw [List.length_set]
    exact h.length
  · rw [hget] at hj
    split at hj
    · next heq => exact heq ▸ hspeech (hj.imp Option.some.inj Option.some.inj)
    · exact h.speech j hj
  · rw [hget] at hj
    split at hj
    · next heq => exact heq ▸ hdone result (Option.some.inj hj)
    · exact h.done j result hj

theorem Gathers.discard (h : s.Gathers J) {i : ℕ} (hold : s.chunks[i]? = some Chunk.completing)
    {results : List (Request × Result)} (hresults : s.results ⊆ results)
    (hfirst : ∀ entry ∈ results, entry.1.2 = false) {new : Chunk} (hrunning : new.isRunning = false)
    (hdone : ∀ result, new = .done result → ((i, false), result) ∈ results) :
    State.Gathers J ({ s.discard (i, false) with results }.setChunk i new) := by
  have hother (request : Request) (hmem : request ∈ s.inFlight.filter (· != (i, false))) :
      request.2 = false ∧ request.1 ≠ i ∧ request ∈ s.inFlight := by
    obtain ⟨hmem, hne⟩ := List.mem_filter.mp hmem
    have hretry := (h.running request hmem).1
    refine ⟨hretry, fun heq => ?_, hmem⟩
    have hsame : request = (i, false) := Prod.ext heq hretry
    simp [hsame] at hne
  have hget (j : ℕ) : (s.chunks.set i new)[j]? = if i = j then some new else s.chunks[j]? := by
    rw [List.getElem?_set, if_pos (List.getElem?_eq_some_iff.mp hold).1]
  refine ⟨h.flight.discard (i, false), fun request hmem => ?_, ?_, fun j hj => ?_, hfirst, fun j result hj => ?_⟩
  · obtain ⟨hretry, hne, hmem⟩ := hother request hmem
    refine ⟨hretry, ?_⟩
    show (s.chunks.set i new)[request.1]? = _ ∨ (s.chunks.set i new)[request.1]? = _
    rw [hget, if_neg (Ne.symm hne)]
    exact (h.running request hmem).2
  · show (s.chunks.set i new).length = _
    rw [List.length_set]
    exact h.length
  · have hj : (s.chunks.set i new)[j]? = some Chunk.encoding ∨ (s.chunks.set i new)[j]? = some Chunk.completing := hj
    rw [hget] at hj
    split at hj
    · rcases hj with hj | hj <;> cases hj <;> cases hrunning
    · exact h.speech j hj
  · have hset : (s.chunks.set i new)[j]? = some (.done result) := hj
    have hretry (j : ℕ) (other : Result) : ((j, true), other) ∉ results := fun hmem => by cases hfirst _ hmem
    rw [hget] at hset
    split at hset
    · next heq =>
      subst heq
      exact .inr ⟨h.speech i (.inr hold), .inr ⟨hdone result (Option.some.inj hset), hretry i⟩⟩
    · exact (h.done j result hset).mono hresults fun other hmem => absurd hmem (hretry j other)

theorem ChunkStep.gathers (hstep : ChunkStep (J := J) s s') (h : s.Gathers J) :
    s'.outer = s.outer ∧ s'.Gathers J := by
  cases hstep with
  | silent hold hspeech =>
    refine ⟨rfl, h.set hold rfl nofun (by rintro (heq | heq) <;> cases heq) fun result heq => ?_⟩
    cases heq
    exact .inl ⟨hspeech, rfl⟩
  | @start i hold hspeech =>
    refine ⟨rfl, h.set hold rfl nofun (fun _ => ?_) nofun⟩
    have hlt : i < J.speech.length := h.length ▸ (List.getElem?_eq_some_iff.mp hold).1
    cases hvalue : J.speech[i]? with
    | none => exact absurd (List.getElem?_eq_none_iff.mp hvalue) (by omega)
    | some value =>
      cases value with
      | true => rfl
      | false => exact absurd hvalue hspeech
  | stop hold hrunning hnew =>
    refine ⟨rfl, h.set hold hrunning (fun heq => ?_) ?_ ?_⟩
    · exact .inr (hnew.resolve_left fun hfailed => hfailed.2 heq)
    · rcases hnew with ⟨rfl, -⟩ | rfl <;> (rintro (heq | heq) <;> cases heq)
    · rcases hnew with ⟨rfl, -⟩ | rfl <;> nofun
  | returned hold result =>
    refine ⟨rfl, h.discard hold (List.subset_append_left _ _) (fun entry hmem => ?_) rfl fun other heq => ?_⟩
    · rcases List.mem_append.mp hmem with hmem | hmem
      · exact h.first entry hmem
      · rw [List.mem_singleton.mp hmem]
    · cases heq
      exact List.mem_append_right _ (List.mem_singleton_self _)
  | raised hold => exact ⟨rfl, h.discard hold (List.Subset.refl _) h.first rfl nofun⟩
  | @hand i hold hgoing =>
    refine ⟨rfl, ?_⟩
    have hbase : (s.setChunk i .completing).Gathers J :=
      h.set hold rfl (fun _ => .inl rfl) (fun _ => h.speech i (.inl hold)) nofun
    have hhanded : ((s.handOver (i, false)).setChunk i .completing).Settled (s.inFlight ++ [(i, false)]) :=
      h.flight.handOver (i, false)
    refine ⟨hhanded, fun request hmem => ?_, hbase.length, hbase.speech, hbase.first, hbase.done⟩
    rcases List.mem_append.mp hmem with hmem | hmem
    · exact hbase.running request hmem
    · rw [List.mem_singleton.mp hmem]
      refine ⟨rfl, .inl ?_⟩
      show (s.chunks.set i .completing)[i]? = _
      rw [List.getElem?_set_self (List.getElem?_eq_some_iff.mp hold).1]

theorem mapM_result {chunks : List Chunk} {kept : List Result} (h : chunks.mapM Chunk.result? = some kept) :
    chunks = kept.map .done := by
  induction chunks generalizing kept with
  | nil => cases h; rfl
  | cons chunk chunks ih =>
    simp only [List.mapM_cons, Option.bind_eq_bind, Option.bind_eq_some_iff] at h
    obtain ⟨result, hresult, others, hothers, heq⟩ := h
    cases heq
    cases chunk with
    | done result => cases hresult; rw [ih hothers]; rfl
    | _ => cases hresult

theorem Gathers.cleanUp (h : s.Gathers J) : (s.cleanUp J).Phase J :=
  ⟨.inl rfl, h.flight.pending, nofun⟩

theorem Gathers.succeed (h : s.Gathers J) {kept : List Result} (hchunks : s.chunks = kept.map .done) :
    (s.succeed kept).Phase J := by
  have hget (i : ℕ) : s.chunks[i]? = kept[i]?.map .done := by rw [hchunks, List.getElem?_map]
  refine succeed_phase (fun chunk hmem => ?_) (fun request hmem => .inl ?_) ?_ fun i result hkept => h.done i result ?_
  · rw [hchunks] at hmem
    obtain ⟨_, -, rfl⟩ := List.mem_map.mp hmem
    rfl
  · refine (h.flight request hmem).resolve_right fun hflight => ?_
    have hrunning := (h.running request hflight).2
    rw [hget] at hrunning
    cases kept[request.1]? <;> simp at hrunning
  · rw [← h.length, hchunks, List.length_map]
  · rw [hget, hkept]
    rfl

theorem keep_phase {kept : List Result} (hflight : s.Settled []) (hnone : s.inFlight = []) (hchunks : s.chunks = [])
    (hretried : ∀ entry ∈ s.results, entry.1.2 = true → entry.1.1 ≤ kept.length)
    (hkept : ∀ i result, kept[i]? = some result → s.KeptAs J i result) {result : Result}
    (hresult : s.KeptAs J kept.length result) : (s.keep kept result).Phase J := by
  have hlt : kept.length < J.speech.length := by
    rcases hresult with ⟨hspeech, -⟩ | ⟨hspeech, -⟩ <;> exact (List.getElem?_eq_some_iff.mp hspeech).1
  refine ⟨fun request hmem => (hflight request hmem).imp_right nofun, hnone, hchunks, fun hne => absurd rfl hne,
    fun entry hmem hretry => ?_, fun i other hget => ?_, nofun, ?_⟩
  · rw [List.length_append]
    exact Nat.lt_succ_of_le (hretried entry hmem hretry)
  · rcases Nat.lt_trichotomy i kept.length with hi | rfl | hi
    · rw [List.getElem?_append_left hi] at hget
      exact hkept i other hget
    · rw [List.getElem?_concat_length] at hget
      cases hget
      exact hresult
    · rw [List.getElem?_eq_none (by rw [List.length_append]; exact hi)] at hget
      cases hget
  · rw [List.length_append]
    exact hlt

theorem Decodes.stageTo {stage new : Stage} {kept : List Result} (h : s.Decodes J stage kept)
    (hflight : s.inFlight = new.requests kept.length) (hspeech : J.speech[kept.length]? = some true)
    (hdeciding : ∀ result, new = .deciding result → ((kept.length, false), result) ∈ s.results) :
    State.Phase J { s with outer := .decoding new kept } :=
  ⟨h.flight, hflight, h.chunks, fun _ => hspeech, h.retried, h.keptAs, hdeciding, h.length⟩

theorem Decodes.settled {stage : Stage} {kept : List Result} (h : s.Decodes J stage kept)
    (hstage : stage.requests kept.length = []) : s.Settled [] := h.inFlight.trans hstage ▸ h.flight

theorem Decodes.keptAs_record {stage : Stage} {kept : List Result} (h : s.Decodes J stage kept) (retry : Bool)
    (result : Result) {i : ℕ} {other : Result} (hget : kept[i]? = some other) :
    (s.record (kept.length, retry) result).KeptAs J i other := by
  have hlt := (List.getElem?_eq_some_iff.mp hget).1
  refine (h.keptAs i other hget).mono (List.subset_append_left _ _) fun _ hmem => ?_
  rcases List.mem_append.mp hmem with hmem | hmem
  · exact hmem
  · cases List.mem_singleton.mp hmem
    exact absurd hlt (Nat.lt_irrefl _)

theorem decodeStep_phase {stage : Stage} {kept : List Result} {a : Action} (h : s.Decodes J stage kept)
    (hstep : s.decodeStep J stage kept a = some s') : s'.Phase J := by
  have hcleanUp := cleanUpDecoding_phase (J := J) h.chunks h.flight
  have hretried (entry : Request × Result) (hmem : entry ∈ s.results) (hretry : entry.1.2 = true) :
      entry.1.1 ≤ kept.length := Nat.le_of_lt (h.retried entry hmem hretry)
  cases a with
  | next raises =>
    rw [decodeStep] at hstep
    split at hstep
    · cases hstep
    next hnext =>
    simp only [bne_iff_ne, ne_eq, not_not] at hnext
    subst hnext
    cases hspeech : J.speech[kept.length]? with
    | none =>
      rw [hspeech] at hstep
      cases hstep
      have hlength := Nat.le_antisymm h.length (List.getElem?_eq_none_iff.mp hspeech)
      exact succeed_phase (by rw [h.chunks]; nofun) (h.settled rfl) hlength h.keptAs
    | some hasSpeech =>
      rw [hspeech] at hstep
      cases hasSpeech with
      | false =>
        cases hstep
        exact keep_phase (h.settled rfl) h.inFlight h.chunks hretried h.keptAs (.inl ⟨hspeech, rfl⟩)
      | true =>
        cases raises with
        | true => cases hstep; exact hcleanUp
        | false => cases hstep; exact h.stageTo h.inFlight hspeech nofun
  | encodeNext raises =>
    cases stage with
    | encoding retry =>
      cases raises with
      | true => cases hstep; exact hcleanUp
      | false =>
        cases hstep
        have hflight : s.inFlight = [] := h.inFlight
        refine ⟨h.flight.handOver _, ?_, h.chunks, fun _ => h.speech nofun, h.retried, h.keptAs, nofun, h.length⟩
        show s.inFlight ++ _ = _
        rw [hflight]
        rfl
    | _ => cases hstep
  | completeNext outcome =>
    cases stage with
    | completing retry =>
      have hspeech := h.speech nofun
      have hnone : s.inFlight.filter (· != (kept.length, retry)) = [] := by simp [h.inFlight, Stage.requests]
      have hflight := h.flight.discard (kept.length, retry)
      have hsettled : (s.discard (kept.length, retry)).Settled [] := by rwa [hnone] at hflight
      cases outcome with
      | raised => cases retry <;> (cases hstep; exact cleanUpDecoding_phase h.chunks hflight)
      | cancelled => cases retry <;> (cases hstep; exact hcleanUp)
      | returned result =>
        have hrecord : ((kept.length, retry), result) ∈ (s.record (kept.length, retry) result).results :=
          List.mem_append_right _ (List.mem_singleton_self _)
        cases retry with
        | true =>
          cases hstep
          refine keep_phase (s := s.record (kept.length, true) result) hsettled hnone h.chunks
            (fun entry hmem hretry => ?_) (fun i other => h.keptAs_record true result) (.inr ⟨hspeech, .inl hrecord⟩)
          rcases List.mem_append.mp hmem with hmem | hmem
          · exact hretried entry hmem hretry
          · obtain rfl := List.mem_singleton.mp hmem
            exact Nat.le_refl _
        | false =>
          cases hstep
          refine ⟨hflight, hnone, h.chunks, fun _ => hspeech, fun entry hmem hretry => ?_,
            fun i other => h.keptAs_record false result, fun other heq => ?_, h.length⟩
          · rcases List.mem_append.mp hmem with hmem | hmem
            · exact h.retried entry hmem hretry
            · rw [List.mem_singleton.mp hmem] at hretry
              cases hretry
          · cases heq
            exact hrecord
    | _ => cases outcome <;> cases hstep
  | decide verdict =>
    cases stage with
    | deciding result =>
      cases verdict with
      | none => cases hstep; exact hcleanUp
      | some verdict =>
        have hspeech := h.speech nofun
        cases verdict with
        | true => cases hstep; exact h.stageTo h.inFlight hspeech nofun
        | false =>
          cases hstep
          refine keep_phase (h.settled rfl) h.inFlight h.chunks hretried h.keptAs
            (.inr ⟨hspeech, .inr ⟨h.deciding result rfl, fun other hmem => ?_⟩⟩)
          exact Nat.lt_irrefl _ (h.retried _ hmem rfl)
    | _ => cases verdict <;> cases hstep
  | cancel =>
    rw [decodeStep] at hstep
    split at hstep
    · cases hstep
    · cases hstep
      exact hcleanUp
  | _ => cases hstep

end Steps

/-- No cancellation arrives in the cleanup while requests are left to abort. -/
def Orderly (s : State) : Action → Prop
  | .cancel => ∀ requests, (∃ cancelled, s.outer = .joining requests cancelled) ∨ s.outer = .aborting requests →
      requests = []
  | _ => True

theorem step_phase {s s' : State} {a : Action} (h : s.Phase J) (horderly : s.Orderly a)
    (hstep : s.step J a = some s') : s'.Phase J := by
  rw [Phase.eq_def] at h
  cases houter : s.outer with
  | decoding stage kept =>
    rw [houter] at h
    rw [step.eq_def, houter] at hstep
    exact decodeStep_phase h hstep
  | gathering cancelled =>
    rw [houter] at h
    have hchunk (hstep : s.chunkStep J a = some s') : s'.Phase J := by
      obtain ⟨hsame, hgathers⟩ := (chunkStep_cases hstep).gathers h
      rw [Phase, hsame, houter]
      exact hgathers
    rw [step.eq_def, houter] at hstep
    cases a with
    | resume =>
      dsimp only at hstep
      split at hstep
      · cases hstep
        exact h.cleanUp
      · obtain ⟨kept, hkept, heq⟩ := Option.map_eq_some_iff.mp hstep
        split at heq
        · cases heq
          exact h.cleanUp
        · cases heq
          exact h.succeed (mapM_result hkept)
    | cancel =>
      dsimp only at hstep
      split at hstep
      · cases hstep
      · cases hstep
        exact ⟨h.flight, h.running, h.length, h.speech, h.first, h.done⟩
    | cancelLate =>
      dsimp only at hstep
      split at hstep
      · cases hstep
        exact ⟨h.flight, h.running, h.length, h.speech, h.first, h.done⟩
      · cases hstep
    | _ => exact hchunk hstep
  | joining pending cancelled =>
    rw [houter] at h
    obtain ⟨hquiet, hsettled, hcancelled⟩ := h
    have hchunk (hstep : s.chunkStep J a = some s') : s'.Phase J := by
      obtain ⟨hsame, -, hquiet, hsettled⟩ := (chunkStep_cases hstep).quiet hquiet hsettled
      rw [Phase, hsame, houter]
      exact ⟨hquiet, hsettled, hcancelled⟩
    rw [step.eq_def, houter] at hstep
    cases a with
    | join =>
      dsimp only at hstep
      split at hstep
      · cases hstep
      split at hstep
      · next hlate =>
        cases hstep
        exact ⟨hquiet, fun request hmem => (hsettled request hmem).imp_right (by rw [hcancelled hlate]; nofun)⟩
      · cases hstep
        exact abortNext_phase hquiet fun request hmem => (hsettled request hmem).imp_right (List.mem_append_right _)
    | cancel =>
      cases hstep
      exact ⟨hquiet, hsettled, fun _ => horderly pending (.inl ⟨cancelled, houter⟩)⟩
    | _ => exact hchunk hstep
  | aborting rest =>
    rw [houter] at h
    obtain ⟨hquiet, hsettled⟩ := h
    have hchunk (hstep : s.chunkStep J a = some s') : s'.Phase J := by
      obtain ⟨hsame, haborted, hkept⟩ := (chunkStep_cases hstep).quiet hquiet hsettled
      rw [Phase, hsame, houter]
      exact haborted ▸ hkept
    rw [step.eq_def, houter] at hstep
    cases a with
    | abortEnds => cases hstep; exact abortNext_phase hquiet hsettled
    | cancel =>
      cases hstep
      rw [horderly rest (.inr houter), List.append_nil] at hsettled
      exact ⟨hquiet, hsettled⟩
    | _ => exact hchunk hstep
  | returned texts finishReason =>
    rw [houter] at h
    have hchunk (hstep : s.chunkStep J a = some s') : s'.Phase J := by
      have hnone {i : ℕ} {chunk : Chunk} (hold : s.chunks[i]? = some chunk) : chunk.isRunning = false :=
        h.1 chunk (List.mem_of_getElem? hold)
      cases chunkStep_cases hstep with
      | silent hold _ => cases hnone hold
      | start hold _ => cases hnone hold
      | hand hold _ => cases hnone hold
      | stop hold hrunning _ => rw [hnone hold] at hrunning; cases hrunning
      | returned hold _ => cases hnone hold
      | raised hold => cases hnone hold
    rw [step.eq_def, houter] at hstep
    cases a <;> exact hchunk hstep
  | raised =>
    rw [houter] at h
    obtain ⟨hquiet, hsettled⟩ := h
    have hchunk (hstep : s.chunkStep J a = some s') : s'.Phase J := by
      obtain ⟨hsame, haborted, hkept⟩ := (chunkStep_cases hstep).quiet hquiet hsettled
      rw [Phase, hsame, houter]
      exact haborted ▸ hkept
    rw [step.eq_def, houter] at hstep
    cases a <;> exact hchunk hstep

theorem init_phase : (machine J).init.Phase J := by
  rw [machine]
  cases hordered : J.isOrdered with
  | true => exact ⟨nofun, rfl, rfl, fun hne => absurd rfl hne, nofun, nofun, nofun, Nat.zero_le _⟩
  | false =>
    have hwaiting {i : ℕ} {chunk : Chunk} (hget : (List.replicate J.speech.length Chunk.waiting)[i]? = some chunk) :
        chunk = .waiting := List.eq_of_mem_replicate (List.mem_of_getElem? hget)
    refine ⟨nofun, nofun, List.length_replicate, ?_, nofun, fun i result hget => by cases hwaiting hget⟩
    rintro i (hget | hget) <;> cases hwaiting hget

/-- `transcribe_audio_chunks` has returned or raised. -/
def Ended (s : State) : Prop := s.outer = .raised ∨ ∃ texts finishReason, s.outer = .returned texts finishReason

end State

/-- In a run without a cancellation that cuts the aborts short, every request handed over has ended or been aborted
when the function has, and what it returns has one text for each span and `length` exactly if a kept chunk does. -/
theorem chunks_settled {s : State} (h : (machine J).Reaches State.Orderly s) :
    (s.Ended → s.Settled s.aborted) ∧
      ∀ texts finishReason, s.outer = .returned texts finishReason → s.Returns J texts finishReason := by
  have hphase := h.invariant (P := State.Phase J) (State.init_phase J) fun _ _ _ => State.step_phase J
  rw [State.Phase.eq_def] at hphase
  refine ⟨?_, fun texts finishReason houter => ?_⟩
  · rintro (houter | ⟨texts, finishReason, houter⟩)
    · rw [houter] at hphase
      exact hphase.2
    · rw [houter] at hphase
      exact fun request hmem => (hphase.2.1 request hmem).imp_right nofun
  · rw [houter] at hphase
    exact hphase.2.2

theorem chunks_settled_two : ∃ s, (machine ⟨"req", [true, false], 1, false⟩).Reaches State.Orderly s ∧
    s.outer = .returned ["a", ""] (some "length") ∧ s.handed = [(0, false)] ∧ s.Settled s.aborted ∧
    s.Returns ⟨"req", [true, false], 1, false⟩ ["a", ""] (some "length") := by
  have hnext {s s' : State} (h : (machine ⟨"req", [true, false], 1, false⟩).Reaches State.Orderly s) (a : Action)
      (ha : s.Orderly a) (hstep : s.step ⟨"req", [true, false], 1, false⟩ a = some s') :
      (machine ⟨"req", [true, false], 1, false⟩).Reaches State.Orderly s' := Machine.Path.tail h ha hstep
  have hhanded := hnext (hnext (hnext (Machine.Path.refl _) (.start 0) trivial rfl) (.start 1) trivial rfl)
    (.encode 0 false) trivial rfl
  have hdone := hnext (hnext hhanded (.complete 0 (.returned ("a", some "length"))) trivial rfl) .resume trivial rfl
  have hsettled := chunks_settled ⟨"req", [true, false], 1, false⟩ hdone
  exact ⟨_, hdone, rfl, rfl, hsettled.1 (.inr ⟨_, _, rfl⟩), hsettled.2 _ _ rfl⟩

/-- A cancellation that arrives while the cleanup of a failed chunk waits for the tasks skips the abort of the other
chunk's request. -/
theorem cancel_skips_abort : ∃ s, (machine ⟨"req", [true, true], 2, false⟩).Reaches Machine.anyAction s ∧
    s.outer = .raised ∧ (1, false) ∈ s.handed ∧ (1, false) ∉ s.ended ∧ (1, false) ∉ s.aborted := by
  have hrun : (machine ⟨"req", [true, true], 2, false⟩).exec (machine ⟨"req", [true, true], 2, false⟩).init
      [.start 0, .start 1, .encode 0 false, .encode 1 false, .complete 0 .raised, .resume, .cancel, .interrupt 1,
        .join] = some _ := rfl
  exact ⟨_, Machine.path_of_exec hrun, rfl, by decide, by decide, by decide⟩

end Transcription.ChunkTasks
