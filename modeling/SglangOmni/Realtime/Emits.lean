import SglangOmni.Lib.Lists
import SglangOmni.Realtime.OutputBuffer

/-! Lists of events that keep the lifecycle of every response: its creation comes first and once, its
parts carry one item, and nothing but a report of what was heard follows its end.  Emitting such a list
into an output buffer with enough room never raises. -/

namespace Realtime

open Lib

namespace OutputEvent

def labels? : OutputEvent → Option (String × String)
  | responseHeard id item _ => some (id, item)
  | event => event.part?

def finishes? : OutputEvent → Option String
  | responseFinished id _ _ _ _ _ => some id
  | _ => none

def isWhole : OutputEvent → Bool
  | audioDelta _ _ pcm => pcm.length % 2 = 0
  | _ => true

/-- The characters that an event adds to the text of its response, at most. -/
def chars : OutputEvent → Nat
  | textDelta _ _ text | textFinished _ _ text => text.length
  | _ => 0

def bytes (event : OutputEvent) : Nat := envelopeSizeBytes { event := .output event }

end OutputEvent

open OutputEvent

inductive Legal (before : List OutputEvent) : OutputEvent → Prop
  | started {id : String} (hnew : ∀ e ∈ before, e.responseId? ≠ some id) :
    Legal before (.responseStarted id)
  | part {e : OutputEvent} {id item : String} (hpart : e.part? = some (id, item))
    (hstarted : .responseStarted id ∈ before) (hopen : ∀ e' ∈ before, e'.finishes? ≠ some id)
    (hitem : ∀ e' ∈ before, ∀ item', e'.labels? = some (id, item') → item' = item)
    (hwhole : e.isWhole = true) : Legal before e
  | heard {id item : String} {textEnd : Int} (hstarted : .responseStarted id ∈ before)
    (hitem : ∀ e' ∈ before, ∀ item', e'.labels? = some (id, item') → item' = item) :
    Legal before (.responseHeard id item textEnd)
  | other {e : OutputEvent} (hnone : e.responseId? = none) : Legal before e

variable {limits : OutputLimits} {b : OutputBuffer} {modalities : List Modality}
  {l : List OutputEvent} {e : OutputEvent} {id item : String}

def OutputBuffer.emitAll (limits : OutputLimits) (modalities : List Modality) :
    OutputBuffer → List OutputEvent → OutputBuffer × Option EmitError
  | b, [] => (b, none)
  | b, e :: rest =>
    match b.emit limits e modalities with
    | (b, some error) => (b, some error)
    | (b, none) => emitAll limits modalities b rest

structure ResponseKept (modalities : List Modality) (l : List OutputEvent) (id : String)
    (state : ResponseState) : Prop where
  started : .responseStarted id ∈ l
  terminal : state.isTerminal = true → ∃ e ∈ l, e.finishes? = some id
  item : state.itemId ≠ "" → ∃ e ∈ l, e.labels? = some (id, state.itemId)
  text : state.text.length ≤ (l.map chars).sum
  modalities : state.outputModalities = modalities

structure Knows (modalities : List Modality) (l : List OutputEvent)
    (responses : Dict String ResponseState) : Prop where
  known : ∀ id state, responses.get? id = some state → ResponseKept modalities l id state
  started : ∀ id, .responseStarted id ∈ l → ∃ state, responses.get? id = some state

structure EmitKept (modalities : List Modality) (l : List OutputEvent) (b : OutputBuffer) : Prop where
  bytes : b.queuedBytes ≤ (l.map bytes).sum
  queued : b.queuedBytes = (b.queuedEnvelopes.map Prod.snd).sum
  knows : Knows modalities l b.responses

theorem ResponseKept.mono {state : ResponseState} (h : ResponseKept modalities l id state)
    (e : OutputEvent) : ResponseKept modalities (l ++ [e]) id state := by
  refine ⟨List.mem_append_left _ h.started, fun ht => ?_, fun hi => ?_, ?_, h.modalities⟩
  · obtain ⟨e', he', hf⟩ := h.terminal ht
    exact ⟨e', List.mem_append_left _ he', hf⟩
  · obtain ⟨e', he', hl⟩ := h.item hi
    exact ⟨e', List.mem_append_left _ he', hl⟩
  · rw [List.map_append, List.sum_append]
    exact h.text.trans (Nat.le_add_right _ _)

theorem Knows.mono {responses : Dict String ResponseState} (h : Knows modalities l responses)
    (hnot : ∀ id, e ≠ .responseStarted id) : Knows modalities (l ++ [e]) responses := by
  refine ⟨fun id state hstate => (h.known id state hstate).mono e, fun id hid => ?_⟩
  rcases List.mem_append.mp hid with hid | hid
  · exact h.started id hid
  · exact absurd (List.mem_singleton.mp hid).symm (hnot id)

theorem Knows.set {responses : Dict String ResponseState} (h : Knows modalities l responses)
    {state : ResponseState} (hstate : ResponseKept modalities (l ++ [e]) id state)
    (hnot : ∀ id', e = .responseStarted id' → id' = id) :
    Knows modalities (l ++ [e]) (responses.set id state) := by
  refine ⟨fun id' state' hget => ?_, fun id' hid => ?_⟩
  · rw [Dict.get?_set] at hget
    split at hget
    · next heq =>
      cases hget
      rw [heq]
      exact hstate
    · exact (h.known id' state' hget).mono e
  · rw [Dict.get?_set]
    split
    · exact ⟨state, rfl⟩
    · next hne =>
      rcases List.mem_append.mp hid with hid | hid
      · exact h.started id' hid
      · exact absurd (hnot id' (List.mem_singleton.mp hid).symm) hne

theorem modalitiesOf_known {state : ResponseState} (hid : e.responseId? = some id)
    (hstate : b.responses.get? id = some state) (hmodalities : state.outputModalities = modalities) :
    b.modalitiesOf e modalities = modalities := by
  rw [OutputBuffer.modalitiesOf, hid]
  simp only [Option.bind_some, hstate, hmodalities, ite_self]

theorem modalitiesOf_unknown (hnone : e.responseId?.bind b.responses.get? = none) :
    b.modalitiesOf e modalities = modalities := by
  rw [OutputBuffer.modalitiesOf, hnone]

def OutputBuffer.outputEnvelope (b : OutputBuffer) (event : OutputEvent)
    (modalities : List Modality) : Envelope where
  event := .output event
  chunkIndex := b.nextChunkIndex
  outputModalities := some modalities

def OutputBuffer.withOutput (b : OutputBuffer) (event : OutputEvent) (modalities : List Modality) :
    OutputBuffer :=
  { b with
    queuedEnvelopes := b.queuedEnvelopes ++ [(b.outputEnvelope event modalities, event.bytes)]
    queuedBytes := b.queuedBytes + event.bytes
    nextChunkIndex := b.nextChunkIndex + 1 }

theorem queueOutput_eq (limits : OutputLimits) (b : OutputBuffer) (e : OutputEvent)
    (modalities : List Modality) :
    b.queueOutput limits e modalities =
      if limits.maxOutputBytes < b.queuedBytes + e.bytes then (b, some .outputBudget)
      else (b.withOutput e modalities, none) := by
  have henqueue : b.enqueue limits (b.outputEnvelope e modalities) =
      if limits.maxOutputBytes < b.queuedBytes + e.bytes then (b, some .outputBudget)
      else (b.appendUnbounded (b.outputEnvelope e modalities) e.bytes, none) := rfl
  unfold OutputBuffer.queueOutput
  change (match b.enqueue limits (b.outputEnvelope e modalities) with
    | (b, some error) => (b, some error)
    | (b, none) => ({ b with nextChunkIndex := b.nextChunkIndex + 1 }, none)) = _
  rw [henqueue]
  by_cases hfull : limits.maxOutputBytes < b.queuedBytes + e.bytes
  · rw [if_pos hfull, if_pos hfull]
  · rw [if_neg hfull, if_neg hfull]
    rfl

theorem EmitKept.queueOutput {e' : OutputEvent} (hbytes : b.queuedBytes ≤ (l.map OutputEvent.bytes).sum)
    (hqueued : b.queuedBytes = (b.queuedEnvelopes.map Prod.snd).sum)
    (hknows : Knows modalities (l ++ [e]) b.responses) (hsize : e'.bytes = e.bytes)
    (hroom : ((l ++ [e]).map OutputEvent.bytes).sum ≤ limits.maxOutputBytes) :
    (b.queueOutput limits e' modalities).2 = none ∧
      EmitKept modalities (l ++ [e]) (b.queueOutput limits e' modalities).1 := by
  have hsum : ((l ++ [e]).map OutputEvent.bytes).sum = (l.map OutputEvent.bytes).sum + e.bytes := by
    rw [List.map_append, List.sum_append]
    rfl
  rw [queueOutput_eq, if_neg (by omega)]
  refine ⟨rfl, ?_, ?_, hknows⟩
  · show b.queuedBytes + e'.bytes ≤ _
    omega
  · show b.queuedBytes + e'.bytes = ((b.queuedEnvelopes ++ [(_, e'.bytes)]).map Prod.snd).sum
    rw [List.map_append, List.sum_append, ← hqueued]
    rfl

theorem purge_bytes (b : OutputBuffer) (keeps : Envelope → Bool)
    (hqueued : b.queuedBytes = (b.queuedEnvelopes.map Prod.snd).sum) :
    (b.purge keeps).queuedBytes ≤ b.queuedBytes := by
  rw [hqueued]
  exact (List.filter_sublist.map Prod.snd).sum_le_sum fun _ _ => Nat.zero_le _

/-! ### Parts of a response -/

theorem part_responseId {e : OutputEvent} (h : e.part? = some (id, item)) :
    e.responseId? = some id ∧ e.labels? = some (id, item) ∧ ∀ id', e ≠ .responseStarted id' := by
  cases e <;> simp_all [part?, responseId?, labels?]

theorem withoutAudio_same (e : OutputEvent) :
    e.withoutAudio.part? = e.part? ∧ e.withoutAudio.bytes = e.bytes ∧ e.withoutAudio.chars = e.chars ∧
      e.withoutAudio.isWhole = e.isWhole ∧ e.withoutAudio.finishes? = e.finishes? := by
  cases e <;> exact ⟨rfl, rfl, rfl, rfl, rfl⟩

theorem notePart_queues (b : OutputBuffer) (state : ResponseState) (hpart : e.part? = some (id, item))
    (hwhole : e.isWhole = true) (hroom : state.text.length + e.chars ≤ limits.maxHistoryChars) :
    ∃ b' state', b.notePart limits e id state = .queues b' ∧
      b'.responses = b.responses.set id state' ∧
      (b' = b.setResponse id state' ∨ ∃ keeps, b' = (b.setResponse id state').purge keeps) ∧
      state'.itemId = state.itemId ∧ state'.text.length ≤ state.text.length + e.chars ∧
      state'.outputModalities = state.outputModalities ∧
      (state'.isTerminal = true → state.isTerminal = true ∨ e.finishes? = some id) := by
  cases e with
  | textDelta id' item' text =>
    have hlength : (state.text ++ text).length = state.text.length + text.length :=
      String.length_append _ _
    refine ⟨_, { state with text := state.text ++ text }, if_neg ?_, rfl, .inl rfl, rfl, hlength.le, rfl,
      .inl⟩
    rw [hlength]
    exact Nat.not_lt.mpr hroom
  | textFinished id' item' text =>
    refine ⟨_, { state with text := text }, if_neg ?_, rfl, .inl rfl, rfl, Nat.le_add_left _ _, rfl, .inl⟩
    exact Nat.not_lt.mpr ((Nat.le_add_left _ _).trans hroom)
  | audioDelta id' item' pcm =>
    refine ⟨_, state, if_neg ?_, rfl, .inl rfl, rfl, Nat.le_add_right _ _, rfl, .inl⟩
    exact not_not.mpr (of_decide_eq_true hwhole)
  | responseFinished id' item' text hasAudio status reason =>
    obtain ⟨rfl, rfl⟩ := Prod.mk.inj (Option.some.inj hpart)
    by_cases hcancelled : status = .cancelled
    · refine ⟨_, { state with isTerminal := true }, congrArg Noted.queues (if_pos hcancelled), rfl,
        .inr ⟨_, rfl⟩, rfl, Nat.le_add_right _ _, rfl, fun _ => .inr rfl⟩
    · exact ⟨_, { state with isTerminal := true }, congrArg Noted.queues (if_neg hcancelled), rfl,
        .inl rfl, rfl, Nat.le_add_right _ _, rfl, fun _ => .inr rfl⟩
  | responseProgress id' item' textEnd audioMs =>
    exact ⟨_, state, rfl, rfl, .inl rfl, rfl, Nat.le_add_right _ _, rfl, .inl⟩
  | audioFinished id' item' =>
    exact ⟨_, state, rfl, rfl, .inl rfl, rfl, Nat.le_add_right _ _, rfl, .inl⟩
  | _ => cases hpart

theorem note_part {state : ResponseState} (hpart : e.part? = some (id, item))
    (hstate : b.responses.get? id = some state) (hterminal : state.isTerminal = false)
    (hitem : state.itemId ≠ "" → item = state.itemId) :
    b.note limits e modalities = b.notePart limits e id { state with itemId := item } := by
  have hnot := (part_responseId hpart).2.2
  have hnote : b.note limits e modalities =
      if state.isTerminal then .returns b
      else if state.itemId ≠ "" ∧ item ≠ state.itemId then .raises b .secondItem
      else b.notePart limits e id { state with itemId := item } := by
    unfold OutputBuffer.note
    split
    · next id' => exact absurd rfl (hnot id')
    · simp only [hpart, hstate]
  rw [hnote, hterminal, if_neg Bool.false_ne_true, if_neg]
  rintro ⟨hne, hother⟩
  exact hother (hitem hne)

/-! ### Legal lists -/

theorem emit_queues {b' : OutputBuffer} (hmodalities : b.modalitiesOf e modalities = modalities)
    (hkeeps : ¬ (e.isAudio = true ∧ .audio ∉ modalities))
    (hnote : b.note limits (if .audio ∈ modalities then e else e.withoutAudio) modalities =
      .queues b') :
    b.emit limits e modalities =
      b'.queueOutput limits (if .audio ∈ modalities then e else e.withoutAudio) modalities := by
  unfold OutputBuffer.emit
  simp only [hmodalities]
  rw [if_neg hkeeps, hnote]

theorem emit_part (h : EmitKept modalities l b) (hpart : e.part? = some (id, item))
    (hstarted : .responseStarted id ∈ l) (hopen : ∀ e' ∈ l, e'.finishes? ≠ some id)
    (hitem : ∀ e' ∈ l, ∀ item', e'.labels? = some (id, item') → item' = item)
    (hwhole : e.isWhole = true)
    (hbytes : ((l ++ [e]).map OutputEvent.bytes).sum ≤ limits.maxOutputBytes)
    (hchars : ((l ++ [e]).map chars).sum ≤ limits.maxHistoryChars) :
    (b.emit limits e modalities).2 = none ∧
      EmitKept modalities (l ++ [e]) (b.emit limits e modalities).1 := by
  obtain ⟨hid, hlabels, hnot⟩ := part_responseId hpart
  obtain ⟨state, hstate⟩ := h.knows.started id hstarted
  have hkept := h.knows.known id state hstate
  have hmodalities := modalitiesOf_known hid hstate hkept.modalities
  have hsum : ((l ++ [e]).map chars).sum = (l.map chars).sum + e.chars := by
    rw [List.map_append, List.sum_append]
    rfl
  by_cases hdrops : e.isAudio = true ∧ .audio ∉ modalities
  · have hemit : b.emit limits e modalities = (b, none) := by
      unfold OutputBuffer.emit
      simp only [hmodalities]
      rw [if_pos hdrops]
    rw [hemit]
    refine ⟨rfl, ?_, h.queued, h.knows.mono hnot⟩
    rw [List.map_append, List.sum_append]
    exact h.bytes.trans (Nat.le_add_right _ _)
  · have hterminal : state.isTerminal = false := by
      by_contra hterminal
      obtain ⟨e', he', hf⟩ := hkept.terminal (Bool.not_eq_false _ ▸ hterminal)
      exact hopen e' he' hf
    have hsameItem : state.itemId ≠ "" → item = state.itemId := by
      intro hne
      obtain ⟨e', he', hl⟩ := hkept.item hne
      exact (hitem e' he' _ hl).symm
    have hsame : ∃ e', e' = (if .audio ∈ modalities then e else e.withoutAudio) ∧ e'.part? = e.part? ∧
        e'.bytes = e.bytes ∧ e'.chars = e.chars ∧ e'.isWhole = e.isWhole ∧
        e'.finishes? = e.finishes? := by
      refine ⟨_, rfl, ?_⟩
      split
      · exact ⟨rfl, rfl, rfl, rfl, rfl⟩
      · exact withoutAudio_same e
    obtain ⟨e', he', hpart', hbytes', hchars', hwhole', hfinishes'⟩ := hsame
    have htext := hkept.text
    obtain ⟨b', state', hnote, hresponses, hbuffer, hitem', htext', hmodalities', hterminal'⟩ :=
      notePart_queues b { state with itemId := item } (hpart'.trans hpart) (hwhole'.trans hwhole)
        (show state.text.length + e'.chars ≤ limits.maxHistoryChars by omega)
    have hqueues : b.note limits (if .audio ∈ modalities then e else e.withoutAudio) modalities =
        .queues b' := by
      rw [← he', note_part (hpart'.trans hpart) hstate hterminal hsameItem]
      exact hnote
    have hkept' : ResponseKept modalities (l ++ [e]) id state' := by
      refine ⟨List.mem_append_left _ hstarted, fun ht => ?_, fun _ => ?_, ?_,
        hmodalities'.trans hkept.modalities⟩
      · rcases hterminal' ht with hold | hnew
        · cases hterminal.symm.trans hold
        · exact ⟨e, List.mem_append_right _ (List.mem_singleton.mpr rfl), hfinishes' ▸ hnew⟩
      · refine ⟨e, List.mem_append_right _ (List.mem_singleton.mpr rfl), ?_⟩
        rw [hitem']
        exact hlabels
      · have htext' : state'.text.length ≤ state.text.length + e'.chars := htext'
        omega
    have hknows : Knows modalities (l ++ [e]) b'.responses := by
      rw [hresponses]
      exact h.knows.set hkept' fun id' he => absurd he (hnot id')
    have hqueue : b'.queuedBytes ≤ b.queuedBytes ∧
        b'.queuedBytes = (b'.queuedEnvelopes.map Prod.snd).sum := by
      rcases hbuffer with rfl | ⟨keeps, rfl⟩
      · exact ⟨Nat.le_refl _, h.queued⟩
      · exact ⟨purge_bytes (b.setResponse id state') keeps h.queued, rfl⟩
    rw [emit_queues hmodalities hdrops hqueues, ← he']
    exact EmitKept.queueOutput (hqueue.1.trans h.bytes) hqueue.2 hknows hbytes' hbytes

theorem emit_started (h : EmitKept modalities l b) (hnew : ∀ e ∈ l, e.responseId? ≠ some id)
    (hbytes : ((l ++ [responseStarted id]).map OutputEvent.bytes).sum ≤ limits.maxOutputBytes) :
    (b.emit limits (.responseStarted id) modalities).2 = none ∧
      EmitKept modalities (l ++ [responseStarted id])
        (b.emit limits (.responseStarted id) modalities).1 := by
  have hnone : b.responses.get? id = none := by
    by_contra hsome
    obtain ⟨state, hstate⟩ := Option.ne_none_iff_exists'.mp hsome
    exact hnew _ (h.knows.known id state hstate).started rfl
  have hmodalities : b.modalitiesOf (OutputEvent.responseStarted id) modalities = modalities :=
    modalitiesOf_unknown hnone
  have hnote : b.note limits (if .audio ∈ modalities then OutputEvent.responseStarted id
      else (OutputEvent.responseStarted id).withoutAudio) modalities =
      .queues { b with responses := b.responses.set id { outputModalities := modalities } } := by
    have hsame : (if .audio ∈ modalities then OutputEvent.responseStarted id
        else (OutputEvent.responseStarted id).withoutAudio) = .responseStarted id := ite_self _
    have hcontains : ¬ b.responses.contains id = true := by
      rw [Bool.not_eq_true, Dict.contains_eq_false]
      exact hnone
    rw [hsame]
    exact if_neg hcontains
  rw [emit_queues hmodalities (fun hdrops => by cases hdrops.1) hnote]
  refine EmitKept.queueOutput h.bytes h.queued (h.knows.set ?_ fun id' he => ?_) ?_ hbytes
  · refine ⟨List.mem_append_right _ (List.mem_singleton.mpr rfl), fun ht => ?_, fun hi => ?_,
      Nat.zero_le _, rfl⟩
    · cases ht
    · exact absurd rfl hi
  · cases he
    rfl
  · split
    · rfl
    · rfl

theorem emit_other (h : EmitKept modalities l b)
    (hmodalities : b.modalitiesOf e modalities = modalities) (hpart : e.part? = none)
    (hnot : ∀ id, e ≠ .responseStarted id)
    (hbytes : ((l ++ [e]).map OutputEvent.bytes).sum ≤ limits.maxOutputBytes) :
    (b.emit limits e modalities).2 = none ∧
      EmitKept modalities (l ++ [e]) (b.emit limits e modalities).1 := by
  have hkeeps : ¬ (e.isAudio = true ∧ .audio ∉ modalities) := by
    rintro ⟨haudio, -⟩
    cases e <;> simp_all [part?, isAudio]
  have hsame : (if .audio ∈ modalities then e else e.withoutAudio) = e := by
    split
    · rfl
    · cases e <;> first | rfl | cases hpart
  have hnote : b.note limits (if .audio ∈ modalities then e else e.withoutAudio) modalities =
      .queues b := by
    rw [hsame]
    unfold OutputBuffer.note
    split
    · next id' => exact absurd rfl (hnot id')
    · rw [hpart]
  rw [emit_queues hmodalities hkeeps hnote, hsame]
  exact EmitKept.queueOutput h.bytes h.queued (h.knows.mono hnot) rfl hbytes

theorem emit_legal (h : EmitKept modalities l b) (hlegal : Legal l e)
    (hbytes : ((l ++ [e]).map OutputEvent.bytes).sum ≤ limits.maxOutputBytes)
    (hchars : ((l ++ [e]).map chars).sum ≤ limits.maxHistoryChars) :
    (b.emit limits e modalities).2 = none ∧
      EmitKept modalities (l ++ [e]) (b.emit limits e modalities).1 := by
  cases hlegal with
  | started hnew => exact emit_started h hnew hbytes
  | part hpart hstarted hopen hitem hwhole =>
    exact emit_part h hpart hstarted hopen hitem hwhole hbytes hchars
  | @heard id item textEnd hstarted hitem =>
    obtain ⟨state, hstate⟩ := h.knows.started id hstarted
    refine emit_other h ?_ rfl (fun id' he => by cases he) hbytes
    exact modalitiesOf_known rfl hstate (h.knows.known id state hstate).modalities
  | other hnone =>
    refine emit_other h ?_ ?_ ?_ hbytes
    · refine modalitiesOf_unknown ?_
      rw [hnone]
      rfl
    · cases e <;> first | rfl | cases hnone
    · rintro id rfl
      cases hnone

theorem emitAll_legal {rest : List OutputEvent} (h : EmitKept modalities l b)
    (hlegal : Along Legal (l ++ rest))
    (hbytes : ((l ++ rest).map OutputEvent.bytes).sum ≤ limits.maxOutputBytes)
    (hchars : ((l ++ rest).map chars).sum ≤ limits.maxHistoryChars) :
    (b.emitAll limits modalities rest).2 = none := by
  induction rest generalizing l b with
  | nil => rfl
  | cons e rest ih =>
    have hcons : l ++ e :: rest = (l ++ [e]) ++ rest := by
      rw [List.append_assoc, List.singleton_append]
    have hfront : ∀ f : OutputEvent → Nat, ((l ++ [e]).map f).sum ≤ ((l ++ e :: rest).map f).sum := by
      intro f
      rw [hcons]
      exact ((List.sublist_append_left _ rest).map f).sum_le_sum fun _ _ => Nat.zero_le _
    obtain ⟨hnone, hkept⟩ := emit_legal h (hlegal l e rest rfl) ((hfront _).trans hbytes)
      ((hfront _).trans hchars)
    have hemit : b.emitAll limits modalities (e :: rest) =
        (b.emit limits e modalities).1.emitAll limits modalities rest := by
      rw [OutputBuffer.emitAll]
      split
      · next error heq => rw [heq] at hnone; cases hnone
      · next heq => rw [heq]
    rw [hemit]
    rw [hcons] at hlegal hbytes hchars
    exact ih hkept hlegal hbytes hchars

theorem emitKept_empty (modalities : List Modality) : EmitKept modalities [] {} := by
  refine ⟨Nat.zero_le _, rfl, fun id state hstate => ?_, fun id hid => ?_⟩
  · cases hstate
  · cases hid

end Realtime
