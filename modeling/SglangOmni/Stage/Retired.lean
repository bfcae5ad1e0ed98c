import Mathlib.Data.Finset.Sort
import Mathlib.Data.String.Basic
import SglangOmni.Lib.Machine

/-! The bounded sets in which a stage records the request IDs it has retired: `Stage.aborted`, the
engine's `aborted_kv_requests` and the stream queue's `closed`.  A set that grows past 10000 IDs drops
the first of them in its iteration order, which nothing ties to their age.  `retired_until_pruned`
says that an ID stays retired as long as no new ID meets a full set, and that a new ID that does may
be dropped at once; `full_set_drops_new_id` is a run in which it is. -/

namespace Stage

open Lib

/-- An order in which Python may iterate over a set: each element once. -/
structure Iteration where
  order : Finset String → List String
  nodup : ∀ ids, (order ids).Nodup
  toFinset : ∀ ids, (order ids).toFinset = ids

/-- `record_bounded_request_id`: add the ID, and drop IDs down to 5000 once there are over 10000. -/
def recordBoundedRequestId (it : Iteration) (ids : Finset String) (requestId : String) :
    Finset String :=
  let ids := insert requestId ids
  if 10000 < ids.card then
    ids \ ((it.order ids).take (ids.card - 5000)).toFinset
  else
    ids

/-- What a stage and its engine know of retired requests.  `recorded` and `recordedKv` are the IDs
recorded in the two sets so far, the latest first. -/
structure Retired where
  aborted : Finset String := ∅
  abortedKvRequests : Finset String := ∅
  streamClosed : Option (Finset String) := none
  closed : Bool := false
  recorded : List String := []
  recordedKv : List String := []

def recordAbortedRequestId (it : Iteration) (requestId : String) (s : Retired) : Retired :=
  { s with
    aborted := recordBoundedRequestId it s.aborted requestId
    recorded := requestId :: s.recorded }

/-- The retirement part of `CommEngine.cleanup`. -/
def cleanup (it : Iteration) (requestId : String) (s : Retired) : Retired :=
  { s with
    abortedKvRequests := recordBoundedRequestId it s.abortedKvRequests requestId
    recordedKv := requestId :: s.recordedKv }

/-- The stream queue's part of `clear_request_state`. -/
def clearRequestState (it : Iteration) (requestId : String) (s : Retired) : Retired :=
  { s with streamClosed := s.streamClosed.map (recordBoundedRequestId it · requestId) }

def onAbort (it kv stream : Iteration) (requestId : String) (s : Retired) : Retired :=
  clearRequestState stream requestId (cleanup kv requestId (recordAbortedRequestId it requestId s))

def openStream (requestId : String) (s : Retired) : Retired :=
  { s with streamClosed := s.streamClosed.map (·.erase requestId) }

/-- `CommEngine.close`. -/
def closeEngine (s : Retired) : Retired :=
  if s.closed then s else { s with closed := true, abortedKvRequests := ∅ }

inductive Arrival
  | submit
  | data
  | localPayload
  | streamChunk
  | batchedChunk
  | localChunk
  | kvPrepare
  | kvData
  deriving DecidableEq

/-- What the stage does with an arrival: handle it, answer with a failure, read and discard the data
behind it, pass over it, or answer the sending rank with a failure. -/
inductive Answer
  | handle
  | failure (error : String)
  | discard
  | skip
  | kvFailure (requestId : String)
  deriving DecidableEq

def answer (s : Retired) (requestId : String) : Arrival → Answer
  | .submit =>
    if requestId ∈ s.aborted then
      .failure
        s!"Request {requestId} (retired after abort or failure, use a fresh request ID) already exists"
    else
      .handle
  | .data | .streamChunk => if requestId ∈ s.aborted then .discard else .handle
  | .localPayload | .batchedChunk | .localChunk => if requestId ∈ s.aborted then .skip else .handle
  | .kvPrepare | .kvData =>
    if requestId ∈ s.abortedKvRequests then .kvFailure requestId else .handle

/-- What can happen to the sets.  A failure is recorded before its report is sent and the request's
state is cleared after it, so other steps may come between. -/
inductive RetireAction
  | onAbort (requestId : String) (it kv stream : Iteration)
  | sendFailure (requestId : String) (it : Iteration)
  | clearRequestState (requestId : String) (stream : Iteration)
  | cleanup (requestId : String) (kv : Iteration)
  | openStream (requestId : String)
  | close

/-- A stage's retirement sets, for a stage with or without a stream queue. -/
def retirement (hasStreamQueue : Bool) : Machine Retired RetireAction where
  init := { streamClosed := if hasStreamQueue then some ∅ else none }
  step s
    | .onAbort id it kv stream => some (onAbort it kv stream id s)
    | .sendFailure id it => some (recordAbortedRequestId it id s)
    | .clearRequestState id stream => some (clearRequestState stream id s)
    | .cleanup id kv => some (cleanup kv id s)
    | .openStream id => some (openStream id s)
    | .close => some (closeEngine s)

/-- The other IDs recorded since `requestId` was last recorded. -/
def othersSince (log : List String) (requestId : String) : Finset String :=
  (log.takeWhile (· ≠ requestId)).toFinset

/-- Every ID recorded is in the set until 5000 others have been recorded after it. -/
def Retains (log : List String) (ids : Finset String) : Prop :=
  ∀ id ∈ log, (othersSince log id).card < 5000 → id ∈ ids

/-- The stage refuses whatever arrives for a request it aborted or failed until 5000 others were, and
every key-value transfer of one its engine cleaned up. -/
structure Refuses (s : Retired) : Prop where
  aborted : Retains s.recorded s.aborted
  abortedKv : Retains s.recordedKv s.abortedKvRequests
  arrivals : ∀ id ∈ s.recorded, (othersSince s.recorded id).card < 5000 →
    ∀ a, a ≠ .kvPrepare → a ≠ .kvData → answer s id a ≠ .handle
  transfers : ∀ id ∈ s.recordedKv, (othersSince s.recordedKv id).card < 5000 →
    answer s id .kvPrepare ≠ .handle ∧ answer s id .kvData ≠ .handle

def HasRoom (ids : Finset String) (requestId : String) : Prop := requestId ∈ ids ∨ ids.card < 10000

/-- No new ID is recorded in a set of 10000, and the engine stays open. -/
def roomToRecord (s : Retired) : RetireAction → Prop
  | .onAbort id _ _ _ => HasRoom s.aborted id ∧ HasRoom s.abortedKvRequests id
  | .sendFailure id _ => HasRoom s.aborted id
  | .cleanup id _ => HasRoom s.abortedKvRequests id
  | .clearRequestState _ _ | .openStream _ => True
  | .close => False

section Record

variable {it : Iteration} {ids : Finset String} {id : String}

theorem recordBoundedRequestId_of_room (hcard : ids.card ≤ 10000) (h : HasRoom ids id) :
    recordBoundedRequestId it ids id = insert id ids := by
  have hle : (insert id ids).card ≤ 10000 := by
    rcases h with h | h
    · rwa [Finset.insert_eq_of_mem h]
    · exact (Finset.card_insert_le _ _).trans h
  simp only [recordBoundedRequestId]
  rw [if_neg (by omega)]

theorem recordBoundedRequestId_of_full (h : ¬ HasRoom ids id)
    (hfirst : (it.order (insert id ids)).head? = some id) :
    id ∉ recordBoundedRequestId it ids id := by
  have hnew : id ∉ ids := fun hm => h (.inl hm)
  have hfull : 10000 ≤ ids.card := by
    by_contra hc
    exact h (.inr (by omega))
  have hcard : (insert id ids).card = ids.card + 1 := Finset.card_insert_of_notMem hnew
  simp only [recordBoundedRequestId]
  rw [if_pos (by omega), Finset.mem_sdiff, List.mem_toFinset, not_and_not_right]
  intro _
  obtain ⟨rest, hrest⟩ := List.head?_eq_some_iff.mp hfirst
  have hpos : (insert id ids).card - 5000 = (ids.card - 5000) + 1 := by omega
  rw [hrest, hpos, List.take_succ_cons]
  exact List.mem_cons_self

/-- The iteration order that puts one ID first and the others in their own order. -/
def Iteration.from (id : String) : Iteration where
  order ids := if id ∈ ids then id :: (ids.erase id).sort (· ≤ ·) else ids.sort (· ≤ ·)
  nodup ids := by
    split
    · exact List.nodup_cons.mpr ⟨by simp, Finset.sort_nodup _ _⟩
    · exact Finset.sort_nodup _ _
  toFinset ids := by
    split
    · next h => rw [List.toFinset_cons, Finset.sort_toFinset, Finset.insert_erase h]
    · exact Finset.sort_toFinset _ _

theorem Iteration.from_head (id : String) (ids : Finset String) :
    ((Iteration.from id).order (insert id ids)).head? = some id := by
  simp [Iteration.from]

end Record

/-! ### Retention -/

section Retention

variable {log : List String} {ids : Finset String} {id : String}

theorem othersSince_self : othersSince (id :: log) id = ∅ := by
  simp [othersSince]

theorem othersSince_cons (id' : String) : id' ≠ id →
    (othersSince log id').card ≤ (othersSince (id :: log) id').card := by
  intro hne
  refine Finset.card_le_card fun x hx => ?_
  simp only [othersSince, List.mem_toFinset] at hx ⊢
  rw [List.takeWhile_cons_of_pos (by simpa using Ne.symm hne)]
  exact List.mem_cons_of_mem _ hx

theorem Retains.record (h : Retains log ids) : Retains (id :: log) (insert id ids) := by
  intro id' hmem hcard
  rcases eq_or_ne id' id with rfl | hne
  · exact Finset.mem_insert_self _ _
  · have hold : id' ∈ log := (List.mem_cons.mp hmem).resolve_left hne
    have hsince := (othersSince_cons id' hne).trans_lt hcard
    exact Finset.mem_insert_of_mem (h id' hold hsince)

theorem not_retains_of_notMem (h : id ∉ ids) : ¬ Retains (id :: log) ids := by
  intro hret
  exact h (hret id List.mem_cons_self (by simp [othersSince_self]))

end Retention

/-- Both sets retain what was recorded in them, and neither is over its bound. -/
structure Kept (s : Retired) : Prop where
  aborted : Retains s.recorded s.aborted
  abortedKv : Retains s.recordedKv s.abortedKvRequests
  card : s.aborted.card ≤ 10000
  cardKv : s.abortedKvRequests.card ≤ 10000

section Steps

variable {s : Retired} {id : String}

theorem card_insert_of_room {ids : Finset String} (hcard : ids.card ≤ 10000) (h : HasRoom ids id) :
    (insert id ids).card ≤ 10000 := by
  rcases h with h | h
  · rwa [Finset.insert_eq_of_mem h]
  · exact (Finset.card_insert_le _ _).trans h

theorem Kept.recordAborted (h : Kept s) (hroom : HasRoom s.aborted id) (it : Iteration) :
    Kept (recordAbortedRequestId it id s) where
  aborted := by
    simp only [recordAbortedRequestId, recordBoundedRequestId_of_room h.card hroom]
    exact h.aborted.record
  abortedKv := h.abortedKv
  card := by
    simp only [recordAbortedRequestId, recordBoundedRequestId_of_room h.card hroom]
    exact card_insert_of_room h.card hroom
  cardKv := h.cardKv

theorem Kept.cleanup (h : Kept s) (hroom : HasRoom s.abortedKvRequests id) (it : Iteration) :
    Kept (cleanup it id s) where
  aborted := h.aborted
  abortedKv := by
    simp only [Stage.cleanup, recordBoundedRequestId_of_room h.cardKv hroom]
    exact h.abortedKv.record
  card := h.card
  cardKv := by
    simp only [Stage.cleanup, recordBoundedRequestId_of_room h.cardKv hroom]
    exact card_insert_of_room h.cardKv hroom

theorem Kept.stream (h : Kept s) (streamClosed : Option (Finset String)) :
    Kept { s with streamClosed } :=
  ⟨h.aborted, h.abortedKv, h.card, h.cardKv⟩

theorem Kept.step {hasStreamQueue : Bool} {a : RetireAction} {s' : Retired} (h : Kept s)
    (ha : roomToRecord s a) (hs : (retirement hasStreamQueue).step s a = some s') : Kept s' := by
  cases a with
  | onAbort id it kv stream =>
    cases hs
    have hrecorded := h.recordAborted ha.1 it
    exact (hrecorded.cleanup ha.2 kv).stream _
  | sendFailure id it =>
    cases hs
    exact h.recordAborted ha it
  | clearRequestState id stream =>
    cases hs
    exact h.stream _
  | cleanup id kv =>
    cases hs
    exact h.cleanup ha kv
  | openStream id =>
    cases hs
    exact h.stream _
  | close => exact ha.elim

theorem Kept.refuses (h : Kept s) : Refuses s where
  aborted := h.aborted
  abortedKv := h.abortedKv
  arrivals := by
    intro id hmem hcard a hprepare hdata
    have hin := h.aborted id hmem hcard
    cases a with
    | kvPrepare => exact absurd rfl hprepare
    | kvData => exact absurd rfl hdata
    | submit | data | localPayload | streamChunk | batchedChunk | localChunk =>
      simp [answer, hin]
  transfers := by
    intro id hmem hcard
    have hin := h.abortedKv id hmem hcard
    simp [answer, hin]

end Steps

/-- While no new ID is recorded in a full set and the engine is open, an aborted or failed request is
refused until 5000 others have been recorded after it.  A new ID that meets a full set, in any state
of any run, may be dropped from it at once. -/
theorem retired_until_pruned (hasStreamQueue : Bool) :
    (∀ s, (retirement hasStreamQueue).Reaches roomToRecord s → Refuses s) ∧
    ∀ s id, (retirement hasStreamQueue).Reaches Machine.anyAction s →
      (¬ HasRoom s.aborted id →
        (∀ kv stream, ∃ it s', (retirement hasStreamQueue).step s (.onAbort id it kv stream) = some s' ∧
          ¬ Refuses s') ∧
        ∃ it s', (retirement hasStreamQueue).step s (.sendFailure id it) = some s' ∧ ¬ Refuses s') ∧
      (¬ HasRoom s.abortedKvRequests id →
        ∃ kv, (∀ it stream, ∃ s',
          (retirement hasStreamQueue).step s (.onAbort id it kv stream) = some s' ∧ ¬ Refuses s') ∧
          ∃ s', (retirement hasStreamQueue).step s (.cleanup id kv) = some s' ∧ ¬ Refuses s') := by
  constructor
  · intro s hs
    have hinit : Kept (retirement hasStreamQueue).init :=
      ⟨by simp [Retains, retirement], by simp [Retains, retirement], by simp [retirement],
        by simp [retirement]⟩
    exact (hs.invariant hinit fun _ _ _ h ha he => h.step ha he).refuses
  · intro s id _
    have hdropped {ids : Finset String} (hfull : ¬ HasRoom ids id) :
        id ∉ recordBoundedRequestId (.from id) ids id :=
      recordBoundedRequestId_of_full hfull (Iteration.from_head id ids)
    refine ⟨fun hfull => ⟨fun kv stream => ⟨.from id, _, rfl, fun h => ?_⟩,
      .from id, _, rfl, fun h => ?_⟩,
      fun hfull => ⟨.from id, fun it stream => ⟨_, rfl, fun h => ?_⟩, _, rfl, fun h => ?_⟩⟩
    · exact not_retains_of_notMem (hdropped hfull) h.aborted
    · exact not_retains_of_notMem (hdropped hfull) h.aborted
    · exact not_retains_of_notMem (hdropped hfull) h.abortedKv
    · exact not_retains_of_notMem (hdropped hfull) h.abortedKv

/-! ### A full set -/

def fillerId (n : Nat) : String := String.ofList (List.replicate n 'r')

theorem fillerId_injective : Function.Injective fillerId := by
  intro m n h
  have hlist : List.replicate m 'r' = List.replicate n 'r' := String.ofList_injective h
  simpa using congrArg List.length hlist

def fillers (n : Nat) : Finset String := (Finset.range n).image fillerId

theorem card_fillers (n : Nat) : (fillers n).card = n := by
  rw [fillers, Finset.card_image_of_injective _ fillerId_injective, Finset.card_range]

theorem record_fillers {n : Nat} (hn : n < 10000) (it : Iteration) :
    recordBoundedRequestId it (fillers n) (fillerId n) = fillers (n + 1) := by
  have hcard := card_fillers n
  have hroom : HasRoom (fillers n) (fillerId n) := .inr (by omega)
  rw [recordBoundedRequestId_of_room (by omega) hroom]
  simp [fillers, Finset.range_add_one]

theorem late_notMem_record_fillers :
    "late" ∉ recordBoundedRequestId (.from "late") (fillers 10000) "late" := by
  have hnew : "late" ∉ fillers 10000 := by
    intro hmem
    obtain ⟨n, -, hn⟩ := Finset.mem_image.mp hmem
    have hl : 'l' ∈ List.replicate n 'r' := by
      have hlist : List.replicate n 'r' = "late".toList := by
        rw [← hn, fillerId, String.toList_ofList]
      rw [hlist]
      decide
    exact absurd (List.eq_of_mem_replicate hl) (by decide)
  have hfull : ¬ HasRoom (fillers 10000) "late" := by
    have hcard := card_fillers 10000
    rintro (h | h)
    · exact hnew h
    · omega
  exact recordBoundedRequestId_of_full hfull (Iteration.from_head "late" _)

theorem reaches_filled (n : Nat) (hn : n ≤ 10000) :
    ∃ s, (retirement true).Reaches Machine.anyAction s ∧
      s.aborted = fillers n ∧ s.abortedKvRequests = fillers n := by
  induction n with
  | zero => exact ⟨_, Machine.Path.refl _, rfl, rfl⟩
  | succ n ih =>
    obtain ⟨s, hs, haborted, hkv⟩ := ih (by omega)
    have hrecord := record_fillers (show n < 10000 by omega) (.from (fillerId n))
    refine ⟨_, hs.tail (a := .onAbort (fillerId n) (.from (fillerId n)) (.from (fillerId n))
      (.from (fillerId n))) trivial rfl, ?_, ?_⟩
    · simp [onAbort, clearRequestState, Stage.cleanup, recordAbortedRequestId, haborted, hrecord]
    · simp [onAbort, clearRequestState, Stage.cleanup, recordAbortedRequestId, hkv, hrecord]

/-- After ten thousand aborts, the abort of one more request may leave it in neither set: its submits,
late data and key-value transfers are then handled. -/
theorem full_set_drops_new_id :
    ∃ s s' it, (retirement true).Reaches Machine.anyAction s ∧
      (retirement true).step s (.onAbort "late" it it it) = some s' ∧
      "late" ∉ s'.aborted ∧ "late" ∉ s'.abortedKvRequests ∧
      (othersSince s'.recorded "late").card = 0 ∧
      ∀ a, answer s' "late" a = .handle := by
  obtain ⟨s, hs, haborted, hkv⟩ := reaches_filled 10000 le_rfl
  have hdropped := late_notMem_record_fillers
  have haborted' : "late" ∉ (onAbort (.from "late") (.from "late") (.from "late") "late" s).aborted := by
    simpa only [onAbort, clearRequestState, Stage.cleanup, recordAbortedRequestId, haborted]
      using hdropped
  have hkv' : "late" ∉
      (onAbort (.from "late") (.from "late") (.from "late") "late" s).abortedKvRequests := by
    simpa only [onAbort, clearRequestState, Stage.cleanup, recordAbortedRequestId, hkv]
      using hdropped
  refine ⟨s, _, .from "late", hs, rfl, haborted', hkv', ?_, fun a => ?_⟩
  · simp [onAbort, clearRequestState, Stage.cleanup, recordAbortedRequestId, othersSince_self]
  · cases a <;> simp only [answer, haborted', hkv', if_false]

end Stage
