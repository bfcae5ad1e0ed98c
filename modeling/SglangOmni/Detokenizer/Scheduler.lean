import Mathlib.Data.List.Basic
import SglangOmni.Lib.Dict

/-! `StreamingDetokenizeScheduler` of `scheduling/streaming_detokenizer.py`: the messages of many
requests, handled one after the other. -/

namespace Detokenizer

open Lib

abbrev Text := List Char

def replacement : Char := '\uFFFD'

def DONE_SEEN_MAX : ℕ := 10000

def DONE_SEEN_EVICT_TO : ℕ := 5000

structure RequestState (κ π : Type) where
  pendingTokens : List κ := []
  payload : Option π := none
  done : Bool := false

/-- The tokenizer, a payload's `stream` parameter and `build_result`. -/
structure Hooks (κ π ρ : Type) where
  decode : List κ → Text
  isStreaming : π → Bool
  buildResult : π → Bool → ρ

inductive Output (ρ : Type) where
  | stream (text : Text)
  | result (data : ρ)

inductive Message (κ π : Type) where
  | newRequest (payload : π)
  | streamChunk (token : κ)
  | streamDone
  | abort

structure Scheduler (κ π ρ : Type) where
  requestStates : Dict String (RequestState κ π) := ∅
  doneSeen : Dict String Unit := ∅
  outbox : List (String × Output ρ) := []

variable {κ π ρ : Type} (hooks : Hooks κ π ρ)

def textDelta (text : Text) : List (Output ρ) := if text.isEmpty then [] else [.stream text]

def ending (pendingTokens : List κ) (payload : π) : List (Output ρ) :=
  (if pendingTokens.isEmpty then [] else textDelta (hooks.decode pendingTokens)) ++
    [.result (hooks.buildResult payload (hooks.isStreaming payload))]

/-- `popitem(last=False)`, as often as `n`. -/
def evictOldest (doneSeen : Dict String Unit) (n : ℕ) : Dict String Unit :=
  ⟨doneSeen.entries.drop n, ((List.drop_sublist n _).map Prod.fst).nodup doneSeen.nodup⟩

namespace Scheduler

variable (s : Scheduler κ π ρ) (requestId : String)

def emit (outputs : List (Output ρ)) : Scheduler κ π ρ :=
  { s with outbox := s.outbox ++ outputs.map (Prod.mk requestId) }

def abort : Scheduler κ π ρ :=
  { s with requestStates := s.requestStates.erase requestId, doneSeen := s.doneSeen.erase requestId }

def ensureRequestState : RequestState κ π := (s.requestStates.get? requestId).getD {}

def finalize : Scheduler κ π ρ :=
  match s.requestStates.get? requestId with
  | some ⟨pendingTokens, some payload, _⟩ =>
    (s.abort requestId).emit requestId (ending hooks pendingTokens payload)
  | _ => s.abort requestId

def onStreamChunk (token : κ) : Scheduler κ π ρ :=
  let state := s.ensureRequestState requestId
  let pending := state.pendingTokens ++ [token]
  let candidate := hooks.decode pending
  if candidate.getLast? = some replacement then
    { s with requestStates := s.requestStates.set requestId { state with pendingTokens := pending } }
  else
    ({ s with requestStates := s.requestStates.set requestId { state with pendingTokens := [] } } :
      Scheduler κ π ρ).emit requestId (textDelta candidate)

def onStreamDone : Scheduler κ π ρ :=
  match s.requestStates.get? requestId with
  | none =>
    let doneSeen := s.doneSeen.set requestId ()
    { s with
      doneSeen := if DONE_SEEN_MAX < doneSeen.size then
        evictOldest doneSeen (doneSeen.size - DONE_SEEN_EVICT_TO) else doneSeen }
  | some state =>
    let s := { s with requestStates := s.requestStates.set requestId { state with done := true } }
    if state.payload.isSome then finalize hooks s requestId else s

def onNewRequest (payload : π) : Scheduler κ π ρ :=
  let state := s.ensureRequestState requestId
  let done := state.done || s.doneSeen.contains requestId
  let s := { s with
    requestStates := s.requestStates.set requestId { state with payload := some payload, done }
    doneSeen := s.doneSeen.erase requestId }
  if done || !hooks.isStreaming payload then finalize hooks s requestId else s

def handle (message : String × Message κ π) : Scheduler κ π ρ :=
  match message.2 with
  | .newRequest payload => s.onNewRequest hooks message.1 payload
  | .streamChunk token => s.onStreamChunk hooks message.1 token
  | .streamDone => s.onStreamDone hooks message.1
  | .abort => s.abort message.1

def run (messages : List (String × Message κ π)) : Scheduler κ π ρ := messages.foldl (handle hooks) s

def NeverFull : Scheduler κ π ρ → List (String × Message κ π) → Prop
  | _, [] => True
  | s, message :: rest => s.doneSeen.size < DONE_SEEN_MAX ∧ NeverFull (s.handle hooks message) rest

end Scheduler

/-! ### One request -/

structure Local (κ π ρ : Type) where
  state : Option (RequestState κ π)
  isDoneSeen : Bool
  outputs : List (Output ρ)

namespace Local

variable (l : Local κ π ρ)

def finalize : Local κ π ρ :=
  match l.state with
  | some ⟨pendingTokens, some payload, _⟩ =>
    ⟨none, false, l.outputs ++ ending hooks pendingTokens payload⟩
  | _ => ⟨none, false, l.outputs⟩

def onStreamChunk (token : κ) : Local κ π ρ :=
  let state := l.state.getD {}
  let pending := state.pendingTokens ++ [token]
  if (hooks.decode pending).getLast? = some replacement then
    { l with state := some { state with pendingTokens := pending } }
  else
    { l with
      state := some { state with pendingTokens := [] }
      outputs := l.outputs ++ textDelta (hooks.decode pending) }

def onStreamDone : Local κ π ρ :=
  match l.state with
  | none => { l with isDoneSeen := true }
  | some state =>
    let l := { l with state := some { state with done := true } }
    if state.payload.isSome then finalize hooks l else l

def onNewRequest (payload : π) : Local κ π ρ :=
  let state := l.state.getD {}
  let done := state.done || l.isDoneSeen
  let l := { l with state := some { state with payload := some payload, done }, isDoneSeen := false }
  if done || !hooks.isStreaming payload then finalize hooks l else l

def handle : Message κ π → Local κ π ρ
  | .newRequest payload => l.onNewRequest hooks payload
  | .streamChunk token => l.onStreamChunk hooks token
  | .streamDone => l.onStreamDone hooks
  | .abort => ⟨none, false, l.outputs⟩

end Local

section View

variable (s : Scheduler κ π ρ) (requestId : String)

def outputsOf (outbox : List (String × Output ρ)) : List (Output ρ) :=
  outbox.filterMap fun sent => if sent.1 = requestId then some sent.2 else none

def Scheduler.view : Local κ π ρ :=
  ⟨s.requestStates.get? requestId, s.doneSeen.contains requestId, outputsOf requestId s.outbox⟩

def own (messages : List (String × Message κ π)) : List (Message κ π) :=
  messages.filterMap fun message => if message.1 = requestId then some message.2 else none

variable {s requestId} {other : String}

theorem outputsOf_emit (outbox : List (String × Output ρ)) (outputs : List (Output ρ)) :
    outputsOf requestId (outbox ++ outputs.map (Prod.mk other)) =
      outputsOf requestId outbox ++ if other = requestId then outputs else [] := by
  rw [outputsOf, List.filterMap_append, List.filterMap_map]
  congr 1
  split
  · next h =>
    subst h
    exact (List.filterMap_congr fun output _ => if_pos rfl).trans List.filterMap_some
  · next h =>
    rw [List.filterMap_eq_nil_iff]
    exact fun output _ => if_neg h

theorem view_emit (outputs : List (Output ρ)) : (s.emit other outputs).view requestId =
    { s.view requestId with
      outputs := (s.view requestId).outputs ++ if other = requestId then outputs else [] } := by
  simp only [Scheduler.view, Scheduler.emit, outputsOf_emit]

theorem view_abort : (s.abort other).view requestId =
    if other = requestId then ⟨none, false, (s.view requestId).outputs⟩ else s.view requestId := by
  simp only [Scheduler.view, Scheduler.abort, Dict.contains, Dict.get?_erase]
  by_cases h : requestId = other
  · rw [if_pos h, if_pos h, if_pos h.symm]
    rfl
  · rw [if_neg h, if_neg h, if_neg (Ne.symm h)]

theorem view_finalize : (s.finalize hooks other).view requestId =
    if other = requestId then (s.view requestId).finalize hooks else s.view requestId := by
  by_cases h : other = requestId
  · subst h
    rw [if_pos rfl]
    unfold Scheduler.finalize Local.finalize
    show _ = match s.requestStates.get? other with
      | some ⟨pendingTokens, some payload, _⟩ => _
      | _ => _
    split
    · rw [view_emit, view_abort, if_pos rfl, if_pos rfl]
    · rw [view_abort, if_pos rfl]
  · rw [if_neg h]
    unfold Scheduler.finalize
    split
    · rw [view_emit, view_abort, if_neg h, if_neg h, List.append_nil]
    · rw [view_abort, if_neg h]

theorem view_handle (hfull : s.doneSeen.size < DONE_SEEN_MAX) (message : String × Message κ π) :
    (s.handle hooks message).view requestId =
      if message.1 = requestId then (s.view requestId).handle hooks message.2 else s.view requestId := by
  obtain ⟨other, message⟩ := message
  have hset (state : RequestState κ π) : (s.requestStates.set other state).get? requestId =
      if other = requestId then some state else s.requestStates.get? requestId := by
    rw [Dict.get?_set]
    exact if_congr eq_comm rfl rfl
  cases message with
  | abort => exact view_abort
  | streamChunk token =>
    show (s.onStreamChunk hooks other token).view requestId = _
    unfold Scheduler.onStreamChunk
    simp only
    split
    · next hragged =>
      simp only [Scheduler.view, hset]
      split
      · next h =>
        subst h
        simp only [Local.handle, Local.onStreamChunk]
        exact (if_pos hragged).symm
      · rfl
    · next hwhole =>
      rw [view_emit]
      simp only [Scheduler.view, hset]
      split
      · next h =>
        subst h
        simp only [Local.handle, Local.onStreamChunk]
        exact (if_neg hwhole).symm
      · rw [List.append_nil]
  | streamDone =>
    show (s.onStreamDone hooks other).view requestId = _
    unfold Scheduler.onStreamDone
    split
    · next hnone =>
      have hsize : ¬DONE_SEEN_MAX < (s.doneSeen.set other ()).size := by
        have := s.doneSeen.size_set_le other ()
        omega
      simp only [if_neg hsize, Scheduler.view, Dict.contains, Dict.get?_set]
      by_cases h : requestId = other
      · subst h
        rw [if_pos rfl, if_pos rfl]
        simp only [Local.handle, Local.onStreamDone, hnone]
        rfl
      · rw [if_neg h, if_neg (Ne.symm h)]
    · next state hstate =>
      by_cases h : other = requestId
      · subst h
        simp only [if_true, Local.handle, Local.onStreamDone, Scheduler.view, hstate]
        split
        · rw [← Scheduler.view, view_finalize, if_pos rfl]
          simp only [Scheduler.view, hset, if_true]
        · simp only [hset, if_true]
      · simp only [if_neg h]
        split
        · rw [view_finalize, if_neg h]
          simp only [Scheduler.view, hset, if_neg h]
        · simp only [Scheduler.view, hset, if_neg h]
  | newRequest payload =>
    show (s.onNewRequest hooks other payload).view requestId = _
    unfold Scheduler.onNewRequest
    simp only
    by_cases h : other = requestId
    · subst h
      have hview (state : RequestState κ π) :
          Scheduler.view { s with
            requestStates := s.requestStates.set other state
            doneSeen := s.doneSeen.erase other } other =
          (⟨some state, false, outputsOf other s.outbox⟩ : Local κ π ρ) := by
        simp [Scheduler.view, Dict.contains]
      rw [if_pos rfl]
      split
      · next hends =>
        rw [view_finalize, if_pos rfl, hview]
        exact (if_pos hends).symm
      · next hwaits =>
        rw [hview]
        exact (if_neg hwaits).symm
    · have hview (state : RequestState κ π) :
          Scheduler.view { s with
            requestStates := s.requestStates.set other state
            doneSeen := s.doneSeen.erase other } requestId = s.view requestId := by
        simp only [Scheduler.view, hset, if_neg h, Dict.contains, Dict.get?_erase, if_neg (Ne.symm h)]
      rw [if_neg h]
      split
      · rw [view_finalize, if_neg h, hview]
      · exact hview _

theorem view_run {messages : List (String × Message κ π)} (hfull : s.NeverFull hooks messages) :
    (s.run hooks messages).view requestId =
      (own requestId messages).foldl (Local.handle hooks) (s.view requestId) := by
  induction messages generalizing s with
  | nil => rfl
  | cons message rest ih =>
    obtain ⟨hsize, hrest⟩ := hfull
    show ((s.handle hooks message).run hooks rest).view requestId = _
    have hown : own requestId (message :: rest) =
        if message.1 = requestId then message.2 :: own requestId rest else own requestId rest := by
      unfold own
      rw [List.filterMap_cons]
      by_cases h : message.1 = requestId
      · simp only [if_pos h]
      · simp only [if_neg h]
    rw [ih hrest, view_handle hooks hsize, hown]
    split <;> rfl

end View

/-! ### The text of a request -/

structure Hooks.Lawful : Prop where
  decode_nil : hooks.decode [] = []
  decode_append : ∀ a b, (hooks.decode a).getLast? ≠ some replacement →
    hooks.decode (a ++ b) = hooks.decode a ++ hooks.decode b

section Request

variable {hooks} {l : Local κ π ρ} {base : List (Output ρ)} {tokens : List κ} {payload : π}

def Emitted (hooks : Hooks κ π ρ) (tokens pending : List κ) (texts : List Text) : Prop :=
  ∃ sent, tokens = sent ++ pending ∧ texts.flatten = hooks.decode sent ∧
    (hooks.decode sent).getLast? ≠ some replacement

/-- A request that waits for its payload, a chunk or its stream_done. -/
structure Waits (hooks : Hooks κ π ρ) (base : List (Output ρ)) (payload : Option π) (tokens : List κ)
    (l : Local κ π ρ) : Prop where
  unseen : l.isDoneSeen = false
  state : ∃ pending texts, (l.state = some ⟨pending, payload, false⟩ ∨
      l.state = none ∧ payload = none ∧ pending = [] ∧ tokens = []) ∧
    l.outputs = base ++ texts.map Output.stream ∧ Emitted hooks tokens pending texts

/-- The request has its result behind all of its text, and nothing is held of it. -/
structure Over (hooks : Hooks κ π ρ) (base : List (Output ρ)) (payload : π) (tokens : List κ)
    (l : Local κ π ρ) : Prop where
  state : l.state = none
  unseen : l.isDoneSeen = false
  outputs : ∃ texts : List Text, l.outputs = base ++ (texts.map Output.stream ++
      [Output.result (hooks.buildResult payload (hooks.isStreaming payload))]) ∧
    texts.flatten = hooks.decode tokens

theorem textDelta_eq (text : Text) : ∃ texts : List Text,
    textDelta text = (texts.map Output.stream : List (Output ρ)) ∧ texts.flatten = text := by
  unfold textDelta
  split
  · next h => exact ⟨[], rfl, (List.isEmpty_iff.mp h).symm⟩
  · exact ⟨[text], rfl, List.append_nil text⟩

theorem Waits.chunk {payload : Option π} (hlaw : hooks.Lawful) (h : Waits hooks base payload tokens l)
    (token : κ) : Waits hooks base payload (tokens ++ [token]) (l.onStreamChunk hooks token) := by
  obtain ⟨pending, texts, hstate, houtputs, sent, htokens, htexts, hwhole⟩ := h.state
  have hget : l.state.getD {} = ⟨pending, payload, false⟩ := by
    rcases hstate with hstate | ⟨hstate, rfl, rfl, -⟩ <;> rw [hstate] <;> rfl
  have hnext := hlaw.decode_append sent (pending ++ [token]) hwhole
  unfold Local.onStreamChunk
  simp only [hget]
  split
  · refine ⟨h.unseen, pending ++ [token], texts, .inl rfl, houtputs, sent, ?_, htexts, hwhole⟩
    rw [htokens, List.append_assoc]
  · next hcomplete =>
    obtain ⟨delta, hdelta, hflatten⟩ : ∃ texts : List Text,
        textDelta (hooks.decode (pending ++ [token])) = (texts.map Output.stream : List (Output ρ)) ∧
          texts.flatten = hooks.decode (pending ++ [token]) := textDelta_eq _
    refine ⟨h.unseen, [], texts ++ delta, .inl rfl, ?_, sent ++ (pending ++ [token]), ?_, ?_, ?_⟩
    · show l.outputs ++ textDelta _ = _
      rw [hdelta, houtputs, List.map_append, List.append_assoc]
    · rw [htokens, List.append_nil, List.append_assoc]
    · rw [List.flatten_append, hflatten, htexts, hnext]
    · rw [hnext, List.getLast?_append]
      intro hragged
      cases hlast : (hooks.decode (pending ++ [token])).getLast? with
      | none =>
        rw [hlast, Option.none_or] at hragged
        exact hwhole hragged
      | some c =>
        rw [hlast, Option.some_or] at hragged
        exact hcomplete (hlast.trans hragged)

theorem Waits.chunks {payload : Option π} (hlaw : hooks.Lawful) (h : Waits hooks base payload tokens l)
    (more : List κ) : Waits hooks base payload (tokens ++ more)
      ((more.map Message.streamChunk).foldl (Local.handle hooks) l) := by
  induction more generalizing tokens l with
  | nil =>
    rw [List.append_nil]
    exact h
  | cons token rest ih =>
    have hrest := ih (h.chunk hlaw token)
    rw [List.append_assoc] at hrest
    exact hrest

theorem over_finalize (hlaw : hooks.Lawful) {pending : List κ} {texts : List Text} {done : Bool}
    (hstate : l.state = some ⟨pending, some payload, done⟩) (houtputs : l.outputs = base ++ texts.map Output.stream)
    (hemitted : Emitted hooks tokens pending texts) : Over hooks base payload tokens (l.finalize hooks) := by
  obtain ⟨sent, htokens, htexts, hwhole⟩ := hemitted
  have hleftover : ∃ rest : List Text, (if pending.isEmpty then [] else textDelta (hooks.decode pending)) =
      (rest.map Output.stream : List (Output ρ)) ∧ rest.flatten = hooks.decode pending := by
    split
    · next hempty =>
      rw [List.isEmpty_iff.mp hempty, hlaw.decode_nil]
      exact ⟨[], rfl, rfl⟩
    · exact textDelta_eq _
  obtain ⟨rest, hrest, hflatten⟩ := hleftover
  unfold Local.finalize
  simp only [hstate]
  refine ⟨rfl, rfl, texts ++ rest, ?_, ?_⟩
  · show l.outputs ++ ending hooks pending payload = _
    rw [ending, hrest, houtputs, List.map_append, List.append_assoc, List.append_assoc]
  · rw [List.flatten_append, htexts, hflatten, htokens, hlaw.decode_append _ _ hwhole]

theorem Waits.done (hlaw : hooks.Lawful) (h : Waits hooks base (some payload) tokens l) :
    Over hooks base payload tokens (l.onStreamDone hooks) := by
  obtain ⟨pending, texts, hstate | ⟨-, hnone, -⟩, houtputs, hemitted⟩ := h.state
  · unfold Local.onStreamDone
    simp only [hstate, Option.isSome_some, if_true]
    exact over_finalize hlaw rfl houtputs hemitted
  · cases hnone

theorem Waits.done_new (hlaw : hooks.Lawful) (h : Waits hooks base none tokens l) (payload : π) :
    Over hooks base payload tokens ((l.onStreamDone hooks).onNewRequest hooks payload) := by
  obtain ⟨pending, texts, hstate | ⟨hstate, -, rfl, -⟩, houtputs, hemitted⟩ := h.state
  · unfold Local.onStreamDone
    simp only [hstate, Option.isSome_none, Bool.false_eq_true, if_false]
    unfold Local.onNewRequest
    simp only [Option.getD_some, Bool.true_or, if_true]
    exact over_finalize hlaw rfl houtputs hemitted
  · unfold Local.onStreamDone
    simp only [hstate]
    unfold Local.onNewRequest
    simp only [Option.getD_none, Bool.or_true, Bool.true_or, if_true]
    exact over_finalize hlaw rfl houtputs hemitted

theorem Waits.new (h : Waits hooks base none tokens l) (hstreaming : hooks.isStreaming payload = true) :
    Waits hooks base (some payload) tokens (l.onNewRequest hooks payload) := by
  obtain ⟨pending, texts, hstate, houtputs, hemitted⟩ := h.state
  have hget : l.state.getD {} = ⟨pending, none, false⟩ := by
    rcases hstate with hstate | ⟨hstate, -, rfl, -⟩ <;> rw [hstate] <;> rfl
  unfold Local.onNewRequest
  simp only [hget, h.unseen, hstreaming, Bool.or_false, Bool.not_true, Bool.false_eq_true, if_false]
  exact ⟨rfl, pending, texts, .inl rfl, houtputs, hemitted⟩

theorem Waits.new_plain (hlaw : hooks.Lawful) (h : Waits hooks base none tokens l)
    (hplain : hooks.isStreaming payload = false) :
    Over hooks base payload tokens (l.onNewRequest hooks payload) := by
  obtain ⟨pending, texts, hstate, houtputs, hemitted⟩ := h.state
  have hget : l.state.getD {} = ⟨pending, none, false⟩ := by
    rcases hstate with hstate | ⟨hstate, -, rfl, -⟩ <;> rw [hstate] <;> rfl
  unfold Local.onNewRequest
  simp only [hget, hplain, Bool.not_false, Bool.or_true, if_true]
  exact over_finalize hlaw rfl houtputs hemitted

end Request

/-- A request leaves exactly its text, its result and nothing behind if it is streaming, or if its
stream_done comes before its payload. Otherwise its id stays among the stream_dones without a request. -/
theorem request_over_iff {hooks : Hooks κ π ρ} (hlaw : hooks.Lawful) {s : Scheduler κ π ρ}
    {requestId : String} {messages : List (String × Message κ π)} {before after : List (Message κ π)}
    {payload : π} {tokens : List κ} (hfresh : s.requestStates.get? requestId = none)
    (hunseen : s.doneSeen.contains requestId = false) (hfull : s.NeverFull hooks messages)
    (hown : own requestId messages = before ++ Message.newRequest payload :: after)
    (hrest : before ++ after = tokens.map Message.streamChunk ++ [Message.streamDone])
    (hplain : hooks.isStreaming payload = false → tokens = []) :
    Over hooks (outputsOf requestId s.outbox) payload tokens ((s.run hooks messages).view requestId) ↔
      hooks.isStreaming payload = true ∨ after = [] := by
  have hwaits : Waits hooks (outputsOf requestId s.outbox) none [] (s.view requestId) := by
    refine ⟨hunseen, [], [], .inr ⟨hfresh, rfl, rfl, rfl⟩, (List.append_nil _).symm, [], rfl, ?_, ?_⟩
    · exact hlaw.decode_nil.symm
    · rw [hlaw.decode_nil]
      exact nofun
  rw [view_run hooks hfull, hown, List.foldl_append, List.foldl_cons]
  rcases List.eq_nil_or_concat after with rfl | ⟨later, last, rfl⟩
  · rw [List.append_nil] at hrest
    rw [hrest, List.foldl_append]
    have hchunks := hwaits.chunks hlaw tokens
    exact iff_of_true (hchunks.done_new hlaw payload) (.inr rfl)
  · rw [List.concat_eq_append, ← List.append_assoc] at hrest
    obtain ⟨hchunks, hlast⟩ := List.append_inj' hrest rfl
    obtain rfl : last = Message.streamDone := List.head_eq_of_cons_eq hlast
    obtain ⟨first, second, rfl, rfl, rfl⟩ := List.map_eq_append_iff.mp hchunks.symm
    rw [List.concat_eq_append, List.foldl_append]
    cases hstreaming : hooks.isStreaming payload with
    | true =>
      have hnew := (hwaits.chunks hlaw first).new hstreaming
      have hall := (hnew.chunks hlaw second).done hlaw
      rw [List.nil_append] at hall
      exact iff_of_true hall (.inl rfl)
    | false =>
      obtain ⟨rfl, rfl⟩ := List.append_eq_nil_iff.mp (hplain hstreaming)
      have hover := hwaits.new_plain hlaw hstreaming
      refine iff_of_false (fun h => ?_) (by simp)
      have hseen := h.unseen
      simp only [List.map_nil, List.foldl_nil, List.foldl_cons, Local.handle, Local.onStreamDone,
        hover.state] at hseen
      cases hseen

def plainHooks : Hooks Char Bool Bool := ⟨id, id, fun payload _ => payload⟩

theorem plainHooks_lawful : plainHooks.Lawful := ⟨rfl, fun _ _ _ => rfl⟩

theorem request_over_streaming :
    let messages : List (String × Message Char Bool) := [("a", .streamChunk 'h'), ("b", .streamDone),
      ("a", .newRequest true), ("a", .streamChunk 'i'), ("a", .streamDone)]
    Over plainHooks [] true ['h', 'i'] ((Scheduler.run plainHooks {} messages).view "a") := by
  intro messages
  have hown : own "a" messages = [Message.streamChunk 'h'] ++
      Message.newRequest true :: [Message.streamChunk 'i', Message.streamDone] := by
    simp [own, messages]
  have hfull : Scheduler.NeverFull plainHooks {} messages :=
    ⟨by decide +kernel, by decide +kernel, by decide +kernel, by decide +kernel, by decide +kernel, trivial⟩
  have hrest : [Message.streamChunk 'h'] ++ [Message.streamChunk 'i', Message.streamDone] =
      (['h', 'i'].map Message.streamChunk ++ [Message.streamDone] : List (Message Char Bool)) := rfl
  have hiff := request_over_iff plainHooks_lawful rfl rfl hfull hown hrest nofun
  exact hiff.mpr (.inl rfl)

/-- A payload that is answered at once, and its stream_done after it: the next request of that id is
over before its first token. -/
theorem request_leaves_done_seen :
    let messages : List (String × Message Char Bool) := [("a", .newRequest false), ("a", .streamDone)]
    ¬Over plainHooks [] false [] ((Scheduler.run plainHooks {} messages).view "a") ∧
      ((Scheduler.run plainHooks {} (messages ++ [("a", .newRequest true)])).requestStates.get? "a").isNone := by
  refine ⟨fun h => ?_, by decide +kernel⟩
  have hseen := h.unseen
  revert hseen
  decide +kernel

end Detokenizer
