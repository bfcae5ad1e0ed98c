import SglangOmni.Lib.Machine
import SglangOmni.Lib.Parts
import SglangOmni.Session.Delivery

/-! What a pacer keeps of the audio it is offered.  A queue has a trace: the bytes of its audio in
order, where each `eos` chunk ends, and its `turn.done`s.  Cutting a chunk, joining two and holding
back the end of a queue leave its trace, and dropping a turn takes that turn's marks out of it. -/

namespace Session

open Proto

/-- What is heard of an output: a byte of audio, the end of an `eos` chunk, the end of a turn. -/
inductive Mark
  | sample (turn : Option Turn) (format : Option String) (byte : UInt8)
  | eos (turn : Option Turn)
  | done (turn : Option Turn)
  deriving DecidableEq

namespace Mark

def turn : Mark → Option Turn
  | sample turn _ _ => turn
  | eos turn => turn
  | done turn => turn

def byteOf? (turn : Option Turn) : Mark → Option UInt8
  | sample turn' _ byte => if turn' = turn then some byte else none
  | _ => none

end Mark

def payloadBytes : ChunkPayload → List UInt8
  | .bytes data => data
  | _ => []

def isBytes : ChunkPayload → Bool
  | .bytes _ => true
  | _ => false

def marks (output : OutputChunk) : List Mark :=
  if isReplyAudio output then
    (payloadBytes output.payload).map (Mark.sample output.turn output.format) ++
      if output.eos then [Mark.eos output.turn] else []
  else if outputControlType output = some turnDone then [Mark.done output.turn]
  else []

def trace (queue : List Budgeted) : List Mark := queue.flatMap fun item => marks item.1

/-- Whether an output leaves in the order offered: audio, and a `turn.done`. -/
def isOrdered (output : OutputChunk) : Bool :=
  isReplyAudio output || outputControlType output = some turnDone

def ordered (queue : List Budgeted) : List Budgeted := queue.filter fun item => isOrdered item.1

def audioOf (turn : Option Turn) (output : OutputChunk) : List UInt8 :=
  if isReplyAudio output ∧ output.turn = turn then payloadBytes output.payload else []

def turnAudio (turn : Option Turn) (queue : List Budgeted) : List UInt8 :=
  queue.flatMap fun item => audioOf turn item.1

/-- What `split_audio` asserts of reply audio: its payload is bytes. -/
def hasAudioBytes (output : OutputChunk) : Bool := !isReplyAudio output || isBytes output.payload

/-! ### Traces -/

@[simp] theorem trace_nil : trace [] = [] := rfl

theorem trace_cons (item : Budgeted) (rest : List Budgeted) :
    trace (item :: rest) = marks item.1 ++ trace rest := rfl

@[simp] theorem trace_append (first second : List Budgeted) :
    trace (first ++ second) = trace first ++ trace second :=
  List.flatMap_append ..

@[simp] theorem trace_singleton (item : Budgeted) : trace [item] = marks item.1 :=
  List.append_nil _

@[simp] theorem ordered_append (first second : List Budgeted) :
    ordered (first ++ second) = ordered first ++ ordered second :=
  List.filter_append ..

theorem marks_audio {output : OutputChunk} (h : isReplyAudio output = true) :
    marks output = (payloadBytes output.payload).map (Mark.sample output.turn output.format) ++
      if output.eos then [Mark.eos output.turn] else [] :=
  if_pos h

theorem marks_of_not_isOrdered {output : OutputChunk} (h : isOrdered output = false) :
    marks output = [] := by
  simp only [isOrdered, Bool.or_eq_false_iff, decide_eq_false_iff_not] at h
  unfold marks
  rw [if_neg (by simp [h.1]), if_neg h.2]

theorem mem_marks_turn {output : OutputChunk} {mark : Mark} (h : mark ∈ marks output) :
    mark.turn = output.turn := by
  unfold marks at h
  split at h
  · rcases List.mem_append.mp h with h | h
    · obtain ⟨byte, -, rfl⟩ := List.mem_map.mp h
      rfl
    · split at h
      · rw [List.mem_singleton.mp h]
        rfl
      · cases h
  · split at h
    · rw [List.mem_singleton.mp h]
      rfl
    · cases h

theorem audioOf_eq (turn : Option Turn) (output : OutputChunk) :
    audioOf turn output = (marks output).filterMap (Mark.byteOf? turn) := by
  unfold audioOf marks
  by_cases haudio : isReplyAudio output
  · have heos : (if output.eos then [Mark.eos output.turn] else []).filterMap
        (Mark.byteOf? turn) = [] := by
      split <;> rfl
    rw [if_pos haudio, List.filterMap_append, heos, List.append_nil, List.filterMap_map]
    by_cases hturn : output.turn = turn
    · have hsame : Mark.byteOf? turn ∘ Mark.sample output.turn output.format = some := by
        funext byte
        simp [Mark.byteOf?, hturn]
      rw [if_pos ⟨haudio, hturn⟩, hsame, List.filterMap_some]
    · have hnone : Mark.byteOf? turn ∘ Mark.sample output.turn output.format = fun _ => none := by
        funext byte
        simp [Mark.byteOf?, hturn]
      rw [if_neg fun h => hturn h.2, hnone]
      simp
  · rw [if_neg fun h => haudio h.1, if_neg haudio]
    split <;> rfl

theorem turnAudio_eq (turn : Option Turn) (queue : List Budgeted) :
    turnAudio turn queue = (trace queue).filterMap (Mark.byteOf? turn) := by
  induction queue with
  | nil => rfl
  | cons item rest ih =>
    rw [trace_cons, List.filterMap_append, ← ih, ← audioOf_eq]
    rfl

/-! ### Cutting and joining -/

theorem splitAudio_eq_cut {p : Packer} {output : OutputChunk} {size : Nat} {headMs : ℚ}
    {head tail : Budgeted} (h : splitAudio p output size headMs = .cut head tail) :
    ∃ payload, output.payload = .bytes payload ∧ cutBytes output payload headMs ≠ 0 ∧
      head.1 = audioHead output payload (cutBytes output payload headMs) ∧
      tail.1 = audioTail output payload (cutBytes output payload headMs) := by
  unfold splitAudio at h
  split at h
  · next payload hpayload =>
    simp only at h
    split at h
    · cases h
    · next hcut =>
      cases h
      exact ⟨payload, hpayload, hcut, rfl, rfl⟩
  · cases h

theorem marks_splitAudio {p : Packer} {output : OutputChunk} {size : Nat} {headMs : ℚ}
    {head tail : Budgeted} (haudio : isReplyAudio output = true)
    (h : splitAudio p output size headMs = .cut head tail) :
    marks head.1 ++ marks tail.1 = marks output := by
  obtain ⟨payload, hpayload, -, hhead, htail⟩ := splitAudio_eq_cut h
  have hheadAudio : isReplyAudio head.1 = true := by
    rw [hhead]
    exact haudio
  have htailAudio : isReplyAudio tail.1 = true := by
    rw [htail]
    exact haudio
  rw [marks_audio hheadAudio, marks_audio htailAudio, marks_audio haudio, hhead, htail, hpayload]
  simp only [audioHead, audioTail, payloadBytes, Bool.false_eq_true, if_false, List.append_nil]
  rw [← List.append_assoc, ← List.map_append, List.take_append_drop]
  rfl

theorem hasAudioBytes_splitAudio {p : Packer} {output : OutputChunk} {size : Nat} {headMs : ℚ}
    {head tail : Budgeted} (h : splitAudio p output size headMs = .cut head tail) :
    hasAudioBytes head.1 = true ∧ hasAudioBytes tail.1 = true := by
  obtain ⟨payload, -, -, hhead, htail⟩ := splitAudio_eq_cut h
  rw [hhead, htail]
  exact ⟨Bool.or_true _, Bool.or_true _⟩

/-- What `joins` says of the two chunks. -/
structure Joinable (leadMs : ℚ) (previous output : OutputChunk) : Prop where
  audio : isReplyAudio output = true
  previousAudio : isReplyAudio previous = true
  format : previous.format = output.format
  turn : previous.turn = output.turn
  unended : previous.eos = false
  near : isClose (previous.tStartMs + previous.durationMs) output.tStartMs = true
  lead : previous.durationMs + output.durationMs ≤ leadMs

theorem joinable_of_joins {leadMs : ℚ} {previous output : OutputChunk}
    (h : joins leadMs previous output = true) : Joinable leadMs previous output := by
  simp only [joins, Bool.and_eq_true, decide_eq_true_eq, Bool.not_eq_true'] at h
  obtain ⟨⟨⟨⟨⟨⟨haudio, hkind⟩, hformat⟩, hturn⟩, heos⟩, hnear⟩, hlead⟩ := h
  have hprevious : isReplyAudio previous = true := by
    unfold isReplyAudio at haudio ⊢
    rw [hformat]
    simp only [Bool.and_eq_true, decide_eq_true_eq] at haudio ⊢
    exact ⟨hkind, haudio.2⟩
  exact ⟨haudio, hprevious, hformat, hturn, heos, hnear, hlead⟩

theorem marks_joinAudio {leadMs : ℚ} {previous output joined : Budgeted}
    (hjoins : joins leadMs previous.1 output.1 = true)
    (h : joinAudio previous output = some joined) :
    marks joined.1 = marks previous.1 ++ marks output.1 := by
  have hj := joinable_of_joins hjoins
  rw [marks_audio hj.previousAudio, marks_audio hj.audio, hj.unended]
  unfold joinAudio at h
  split at h
  · next first second hfirst hsecond =>
    cases h
    refine Eq.trans (marks_audio ?_) ?_
    · exact hj.previousAudio
    simp only [hfirst, hsecond, payloadBytes, hj.format, hj.turn, List.map_append,
      Bool.false_eq_true, if_false, List.append_nil, List.append_assoc]
  · cases h

theorem joinAudio_isSome {leadMs : ℚ} {previous output : Budgeted}
    (hjoins : joins leadMs previous.1 output.1 = true) (hprevious : hasAudioBytes previous.1 = true)
    (houtput : hasAudioBytes output.1 = true) :
    ∃ joined, joinAudio previous output = some joined ∧ hasAudioBytes joined.1 = true := by
  have hj := joinable_of_joins hjoins
  unfold hasAudioBytes at hprevious houtput
  rw [hj.previousAudio] at hprevious
  rw [hj.audio] at houtput
  unfold joinAudio
  cases hfirst : previous.1.payload with
  | none => simp [hfirst, isBytes] at hprevious
  | dict fields => simp [hfirst, isBytes] at hprevious
  | bytes first =>
    cases hsecond : output.1.payload with
    | none => simp [hsecond, isBytes] at houtput
    | dict fields => simp [hsecond, isBytes] at houtput
    | bytes second => exact ⟨_, rfl, Bool.or_true _⟩

/-! ### Queues of one trace -/

/-- A chunk that is another, or is cut from it or begins with it, as queues hold them. -/
structure Piece (item part : Budgeted) : Prop where
  descends : Descends item.1 part.1
  format : part.1.format = item.1.format

theorem Piece.refl (item : Budgeted) : Piece item item := ⟨.refl _, rfl⟩

theorem Piece.trans {first second third : Budgeted} (h : Piece first second)
    (h' : Piece second third) : Piece first third :=
  ⟨h.descends.trans h'.descends, h'.format.trans h.format⟩

theorem Piece.isOrdered {item part : Budgeted} (h : Piece item part) :
    isOrdered part.1 = isOrdered item.1 := by
  unfold Session.isOrdered isReplyAudio
  rw [h.descends.kind, h.format, h.descends.event]

def Sound (queue : List Budgeted) : Prop := ∀ item ∈ queue, hasAudioBytes item.1 = true

theorem sound_append {first second : List Budgeted} :
    Sound (first ++ second) ↔ Sound first ∧ Sound second :=
  List.forall_mem_append

/-- A queue in the place of another: it has its trace, and pieces of its audio in order. -/
structure Reshapes (before after : List Budgeted) : Prop where
  trace : trace after = trace before
  parts : Lib.PartsOf Piece (ordered before) (ordered after)
  sound : Sound before → Sound after

namespace Reshapes

variable {first second third : List Budgeted}

theorem refl (queue : List Budgeted) : Reshapes queue queue :=
  ⟨rfl, .refl Piece.refl _, id⟩

theorem trans (h : Reshapes first second) (h' : Reshapes second third) : Reshapes first third :=
  ⟨h'.trace.trans h.trace, h.parts.trans Piece.trans h'.parts, h'.sound ∘ h.sound⟩

theorem append {first' second' : List Budgeted} (h : Reshapes first second)
    (h' : Reshapes first' second') : Reshapes (first ++ first') (second ++ second') where
  trace := by rw [trace_append, trace_append, h.trace, h'.trace]
  parts := by
    rw [ordered_append, ordered_append]
    exact h.parts.append h'.parts
  sound hboth := by
    rw [sound_append] at hboth ⊢
    exact ⟨h.sound hboth.1, h'.sound hboth.2⟩

theorem swap {item : Budgeted} (queue : List Budgeted) (h : isOrdered item.1 = false) :
    Reshapes (queue ++ [item]) (item :: queue) where
  trace := by
    rw [trace_append, trace_cons, trace_singleton, marks_of_not_isOrdered h, List.nil_append,
      List.append_nil]
  parts := by
    have hnone : ordered [item] = [] := List.filter_cons_of_neg (by simp [h])
    have hcons : ordered (item :: queue) = ordered [item] ++ ordered queue :=
      ordered_append [item] queue
    rw [ordered_append, hcons, hnone, List.nil_append, List.append_nil]
    exact .refl Piece.refl _
  sound hsound := by
    rw [sound_append] at hsound
    rw [← List.singleton_append, sound_append]
    exact hsound.symm

end Reshapes

theorem splitAudio_pieces {p : Packer} {item head tail : Budgeted} {headMs : ℚ}
    (haudio : isReplyAudio item.1 = true)
    (h : splitAudio p item.1 item.2 headMs = .cut head tail) : Piece item head ∧ Piece item tail := by
  obtain ⟨hhead, htail⟩ := splitAudio_descends (Bool.and_eq_true_iff.mp haudio).2 h
  obtain ⟨payload, -, -, heq, heq'⟩ := splitAudio_eq_cut h
  refine ⟨⟨hhead, ?_⟩, ⟨htail, ?_⟩⟩
  · rw [heq]
    rfl
  · rw [heq']
    rfl

theorem reshapes_splitAudio {p : Packer} {item head tail : Budgeted} {headMs : ℚ}
    (haudio : isReplyAudio item.1 = true)
    (h : splitAudio p item.1 item.2 headMs = .cut head tail) : Reshapes [item] [head, tail] where
  trace := by
    rw [trace_singleton, ← marks_splitAudio haudio h, trace_cons, trace_singleton]
  parts := by
    obtain ⟨hhead, htail⟩ := splitAudio_pieces haudio h
    have hparts : Lib.PartsOf Piece [item] [head, tail] := .take hhead (.take htail (.nil _))
    exact hparts.filter fun hpiece => hpiece.isOrdered
  sound _ := by
    obtain ⟨hhead, htail⟩ := hasAudioBytes_splitAudio h
    intro part hpart
    rcases List.mem_cons.mp hpart with rfl | hpart
    · exact hhead
    · rw [List.mem_singleton.mp hpart]
      exact htail

theorem reshapes_joinAudio {leadMs : ℚ} {previous output joined : Budgeted}
    (hjoins : joins leadMs previous.1 output.1 = true)
    (h : joinAudio previous output = some joined) (hbytes : hasAudioBytes joined.1 = true) :
    Reshapes [previous, output] [joined] where
  trace := by
    rw [trace_singleton, marks_joinAudio hjoins h, trace_cons, trace_singleton]
  parts := by
    have hformat : joined.1.format = previous.1.format := by
      unfold joinAudio at h
      split at h
      · cases h
        rfl
      · cases h
    have hparts : Lib.PartsOf Piece [previous, output] [joined] :=
      .take ⟨joinAudio_descends hjoins h, hformat⟩ (.nil _)
    exact hparts.filter fun hpiece => hpiece.isOrdered
  sound _ := by
    intro part hpart
    rw [List.mem_singleton.mp hpart]
    exact hbytes

theorem coalesceFrom_reshapes (leadMs : ℚ) {rest : List Budgeted} {last : Budgeted}
    (h : Sound (last :: rest)) :
    ∃ coalesced, coalesceFrom leadMs last rest = some coalesced ∧
      Reshapes (last :: rest) coalesced := by
  induction rest generalizing last with
  | nil => exact ⟨[last], rfl, .refl _⟩
  | cons next rest ih =>
    have hlast := h last List.mem_cons_self
    have hnext := h next (List.mem_cons_of_mem _ List.mem_cons_self)
    have hrest : Sound rest := fun item hitem =>
      h item (List.mem_cons_of_mem _ (List.mem_cons_of_mem _ hitem))
    unfold coalesceFrom
    by_cases hjoins : joins leadMs last.1 next.1 = true
    · obtain ⟨joined, hjoin, hbytes⟩ := joinAudio_isSome hjoins hlast hnext
      obtain ⟨coalesced, hcoalesced, hreshapes⟩ := ih (List.forall_mem_cons.mpr ⟨hbytes, hrest⟩)
      refine ⟨coalesced, ?_, ?_⟩
      · simpa only [if_pos hjoins, hjoin] using hcoalesced
      · exact ((reshapes_joinAudio hjoins hjoin hbytes).append (.refl rest)).trans hreshapes
    · obtain ⟨coalesced, hcoalesced, hreshapes⟩ := ih (List.forall_mem_cons.mpr ⟨hnext, hrest⟩)
      refine ⟨last :: coalesced, ?_, ?_⟩
      · simp only [if_neg hjoins, hcoalesced]
      · exact (Reshapes.refl [last]).append hreshapes

theorem coalesce_reshapes (leadMs : ℚ) {released : List Budgeted} (h : Sound released) :
    ∃ coalesced, coalesce leadMs released = some coalesced ∧ Reshapes released coalesced := by
  cases released with
  | nil => exact ⟨[], rfl, .refl _⟩
  | cons first rest => exact coalesceFrom_reshapes leadMs h

/-! ### The first loop of `release` -/

namespace Releasing

variable {p : Packer} {leadMs now : ℚ} {r r' : Releasing} {next : Budgeted}

theorem item_cases (h : r.item p leadMs now next = some r') :
    (r'.released = r.released ∧ r'.held = r.held ++ [next]) ∨
    (r'.released = r.released ++ [next] ∧ r'.held = r.held ∧
      (r.held = [] ∨ isOrdered next.1 = false)) ∨
    ∃ headMs head tail, isReplyAudio next.1 = true ∧
      splitAudio p next.1 next.2 headMs = .cut head tail ∧ r.held = [] ∧
      r'.released = r.released ++ [head] ∧ r'.held = [tail] := by
  unfold item at h
  split at h
  · cases h
    exact .inl ⟨rfl, rfl⟩
  · next hfirst =>
    have hfree : r.held = [] ∨ isOrdered next.1 = false := by
      simp only [Bool.and_eq_true, Bool.not_eq_true', not_and, Bool.not_eq_true] at hfirst
      by_cases hheld : r.held = []
      · exact .inl hheld
      · exact .inr (hfirst (by simpa using hheld))
    split at h
    · next haudio =>
      have hreply := (Bool.and_eq_true_iff.mp haudio).1
      have hheld : r.held = [] := hfree.resolve_right (by simp [isOrdered, hreply])
      unfold paceAudio at h
      simp only at h
      split at h
      · cases h
        exact .inr (.inl ⟨rfl, rfl, hfree⟩)
      · split at h
        · cases h
          exact .inl ⟨rfl, rfl⟩
        · split at h
          · split at h
            · cases h
            · cases h
              exact .inl ⟨rfl, rfl⟩
            · next head tail hsplit =>
              cases h
              refine .inr (.inr ⟨_, head, tail, hreply, hsplit, hheld, rfl, ?_⟩)
              simp [keep, letAudioOut, hheld]
          · cases h
            exact .inr (.inl ⟨rfl, rfl, hfree⟩)
    · split at h
      · cases h
        exact .inl ⟨rfl, rfl⟩
      · cases h
        exact .inr (.inl ⟨rfl, rfl, hfree⟩)

theorem item_isSome (p : Packer) (leadMs now : ℚ) (r : Releasing)
    (h : hasAudioBytes next.1 = true) : ∃ r', r.item p leadMs now next = some r' := by
  unfold item
  split
  · exact ⟨_, rfl⟩
  · split
    · next haudio =>
      have hreply := (Bool.and_eq_true_iff.mp haudio).1
      have hbytes : isBytes next.1.payload = true := by simpa [hasAudioBytes, hreply] using h
      unfold paceAudio
      simp only
      split
      · exact ⟨_, rfl⟩
      · split
        · exact ⟨_, rfl⟩
        · split
          · split
            · next hfails =>
              unfold splitAudio at hfails
              cases hpayload : next.1.payload with
              | none => simp [hpayload, isBytes] at hbytes
              | dict fields => simp [hpayload, isBytes] at hbytes
              | bytes data =>
                simp only [hpayload] at hfails
                split at hfails <;> cases hfails
            · exact ⟨_, rfl⟩
            · exact ⟨_, rfl⟩
          · exact ⟨_, rfl⟩
    · split <;> exact ⟨_, rfl⟩

theorem item_reshapes (h : r.item p leadMs now next = some r') :
    Reshapes (r.all ++ [next]) r'.all := by
  unfold all
  rcases item_cases h with ⟨hreleased, hheld⟩ | ⟨hreleased, hheld, hfree⟩ |
    ⟨headMs, head, tail, haudio, hsplit, hempty, hreleased, hheld⟩
  · rw [hreleased, hheld, List.append_assoc]
    exact .refl _
  · rw [hreleased, hheld, List.append_assoc, List.append_assoc]
    refine (Reshapes.refl r.released).append ?_
    rcases hfree with hempty | hfree
    · rw [hempty]
      exact .refl _
    · exact Reshapes.swap r.held hfree
  · rw [hreleased, hheld, hempty, List.append_nil, List.append_assoc]
    exact (Reshapes.refl r.released).append (reshapes_splitAudio haudio hsplit)

theorem items_reshapes (p : Packer) (leadMs now : ℚ) (r : Releasing) {queue : List Budgeted}
    (hsound : Sound queue) :
    ∃ r', items p leadMs now r queue = some r' ∧ Reshapes (r.all ++ queue) r'.all := by
  induction queue generalizing r with
  | nil =>
    refine ⟨r, rfl, ?_⟩
    rw [List.append_nil]
    exact .refl _
  | cons next rest ih =>
    obtain ⟨r₁, h₁⟩ := item_isSome p leadMs now r (hsound next List.mem_cons_self)
    obtain ⟨r', hr', hreshapes⟩ := ih r₁ fun item hitem =>
      hsound item (List.mem_cons_of_mem _ hitem)
    refine ⟨r', ?_, ?_⟩
    · unfold items
      simpa only [h₁] using hr'
    · have hfirst := (item_reshapes h₁).append (.refl rest)
      rw [List.append_assoc, List.singleton_append] at hfirst
      exact hfirst.trans hreshapes

end Releasing

theorem Pacer.release_reshapes (p : Packer) (leadMs now : ℚ) {pacer : Pacer}
    (hsound : Sound pacer.items) :
    ∃ pacer' released, pacer.release p leadMs now = (pacer', some released) ∧
      Reshapes pacer.items (released ++ pacer'.items) := by
  obtain ⟨r, hr, hreshapes⟩ := Releasing.items_reshapes p leadMs now { pacer := pacer } hsound
  obtain ⟨coalesced, hcoalesced, hjoined⟩ := coalesce_reshapes leadMs
    (sound_append.mp (hreshapes.sound hsound)).1
  refine ⟨{ r.pacer with items := r.held }, coalesced, ?_, ?_⟩
  · unfold release
    simp only [hr, hcoalesced]
  · exact hreshapes.trans (hjoined.append (.refl r.held))

/-! ### Dropping a turn -/

def withoutTurn (turn : Turn) (log : List Mark) : List Mark :=
  log.filter fun mark => mark.turn ≠ some turn

theorem filter_marks_of_turn {output : OutputChunk} {turn : Turn} (h : output.turn = some turn) :
    withoutTurn turn (marks output) = [] := by
  refine List.filter_eq_nil_iff.mpr fun mark hmark => ?_
  simp [mem_marks_turn hmark, h]

theorem filter_marks_of_other {output : OutputChunk} {turn : Turn} (h : output.turn ≠ some turn) :
    withoutTurn turn (marks output) = marks output := by
  refine List.filter_eq_self.mpr fun mark hmark => ?_
  simp [mem_marks_turn hmark, h]

theorem marks_of_interruption {output : OutputChunk}
    (h : interruptionControls.contains (outputControlType output) = true) :
    marks output = [] := by
  have hdone : outputControlType output ≠ some turnDone := by
    intro hdone
    rw [hdone] at h
    revert h
    decide
  unfold marks
  rw [if_neg, if_neg hdone]
  intro haudio
  rw [outputControlType, controlTypeOf_audio (Bool.and_eq_true_iff.mp haudio).2] at h
  revert h
  decide

theorem trace_filter (turn : Turn) (queue : List Budgeted) :
    trace (queue.filter fun item => !outputInterruptedReply item.1 turn) =
      withoutTurn turn (trace queue) := by
  induction queue with
  | nil => rfl
  | cons item rest ih =>
    have hsplit : withoutTurn turn (trace (item :: rest)) =
        withoutTurn turn (marks item.1) ++ withoutTurn turn (trace rest) :=
      List.filter_append ..
    rw [hsplit, ← ih]
    by_cases hturn : item.1.turn = some turn
    · rw [filter_marks_of_turn hturn, List.nil_append, List.filter_cons]
      split
      · next hkept =>
        simp only [outputInterruptedReply, interruptedReplyOf, hturn, decide_true, Bool.true_and,
          Bool.not_not] at hkept
        rw [trace_cons, marks_of_interruption hkept, List.nil_append]
      · rfl
    · have hkept : (!outputInterruptedReply item.1 turn) = true := by
        simp [outputInterruptedReply, interruptedReplyOf, hturn]
      rw [filter_marks_of_other hturn, List.filter_cons, if_pos hkept, trace_cons]

/-! ### Runs of a pacer -/

inductive PacerCall
  | offer (output : OutputChunk) (size : Nat)
  | purge (turn : Option Turn)
  | endInput
  | release (now : ℚ)

def PacerCall.isSound : PacerCall → Bool
  | offer output _ => hasAudioBytes output
  | _ => true

/-- A pacer with what went through it: the outputs queued, released and purged, the bytes that its
calls returned as dropped, and the marks of what was offered and not purged, in the order offered.
`raised` says that a `release` raised, and `time` is when the latest one was. -/
structure Account where
  pacer : Pacer := {}
  time : Option ℚ := none
  offered : List Budgeted := []
  released : List Budgeted := []
  purged : List Budgeted := []
  returned : Int := 0
  log : List Mark := []
  raised : Bool := false

namespace Account

def logWithout (a : Account) (turn : Option Turn) : List Mark :=
  match turn with
  | none => a.log
  | some turn =>
    a.log.take (trace a.released).length ++
      withoutTurn turn (a.log.drop (trace a.released).length)

def dropped (a : Account) (turn : Option Turn) : List Budgeted :=
  match turn with
  | none => []
  | some turn => a.pacer.items.filter fun item => outputInterruptedReply item.1 turn

def purge (a : Account) (turn : Option Turn) : Account :=
  { a with
    pacer := a.pacer.purge turn
    purged := a.purged ++ a.dropped turn
    returned := a.returned + a.pacer.purged turn
    log := a.logWithout turn }

def purgedBy (output : OutputChunk) : Option Turn :=
  if outputControlType output = some turnInterrupted then output.turn else none

/-- `offer`, which raises at once on a control without a type. -/
def offer (a : Account) (output : OutputChunk) (size : Nat) : Account :=
  if malformedControl output.format output.payload then a
  else
    { a with
      pacer := a.pacer.offer output size
      offered := a.offered ++ [(output, size)]
      purged := a.purged ++ a.dropped (purgedBy output)
      returned := a.returned + a.pacer.offered output
      log := a.logWithout (purgedBy output) ++ marks output }

def release (p : Packer) (leadMs now : ℚ) (a : Account) : Account :=
  match a.pacer.release p leadMs now with
  | (pacer, none) => { a with pacer := pacer, time := some now, raised := true }
  | (pacer, some released) =>
    { a with pacer := pacer, time := some now, released := a.released ++ released }

def call (p : Packer) (leadMs : ℚ) (a : Account) : PacerCall → Account
  | .offer output size => a.offer output size
  | .purge turn => a.purge turn
  | .endInput => { a with pacer := a.pacer.endInput }
  | .release now => a.release p leadMs now

end Account

def pacing (p : Packer) (leadMs : ℚ) : Lib.Machine Account PacerCall where
  init := {}
  step a call := some (a.call p leadMs call)

structure Account.Kept (a : Account) : Prop where
  sound : Sound a.pacer.items
  trace : trace (a.released ++ a.pacer.items) = a.log
  parts : Lib.PartsOf Piece (ordered a.offered) (ordered (a.released ++ a.pacer.items))
  bytes : budget a.released + budget a.pacer.items + budget a.purged = budget a.offered
  returned : a.returned = budget a.purged
  whole : ∀ turn, (∀ item ∈ a.purged, item.1.turn ≠ turn) →
    a.log.filterMap (Mark.byteOf? turn) = turnAudio turn a.offered
  unsent : a.pacer.unsent = []
  returns : a.raised = false

namespace Account.Kept

variable {p : Packer} {leadMs now : ℚ} {a : Account}

theorem log_purge (h : a.Kept) (turn : Option Turn) :
    Session.trace (a.released ++ (a.pacer.purge turn).items) = a.logWithout turn := by
  cases turn with
  | none => exact h.trace
  | some turn =>
    have htake : a.log.take (Session.trace a.released).length = Session.trace a.released := by
      rw [← h.trace, trace_append]
      exact List.take_left
    have hdrop : a.log.drop (Session.trace a.released).length = Session.trace a.pacer.items := by
      rw [← h.trace, trace_append]
      exact List.drop_left
    rw [logWithout, htake, hdrop, trace_append, ← trace_filter]
    rfl

theorem items_purge_of_nil {turn : Option Turn} (h : a.dropped turn = []) :
    (a.pacer.purge turn).items = a.pacer.items := by
  cases turn with
  | none => rfl
  | some turn =>
    refine List.filter_eq_self.mpr fun item hitem => ?_
    simpa using List.filter_eq_nil_iff.mp h item hitem

theorem turn_of_mem_dropped {turn : Option Turn} {item : Budgeted} (h : item ∈ a.dropped turn) :
    item.1.turn = turn := by
  cases turn with
  | none => cases h
  | some turn =>
    have hreply := (List.mem_filter.mp h).2
    simp only [outputInterruptedReply, interruptedReplyOf, Bool.and_eq_true,
      decide_eq_true_eq] at hreply
    exact hreply.1

theorem filterMap_withoutTurn {turn : Turn} {other : Option Turn} (h : other ≠ some turn)
    (log : List Mark) :
    (withoutTurn turn log).filterMap (Mark.byteOf? other) =
      log.filterMap (Mark.byteOf? other) := by
  unfold withoutTurn
  rw [List.filterMap_filter]
  refine congrArg (List.filterMap · log) (funext fun mark => ?_)
  split
  · rfl
  · next hturn =>
    simp only [ne_eq, decide_not, Bool.not_eq_true', decide_eq_false_iff_not, not_not] at hturn
    cases mark with
    | sample turn' format byte =>
      refine (if_neg ?_).symm
      rintro rfl
      exact h hturn
    | eos turn' => rfl
    | done turn' => rfl

theorem logWithout_audio (h : a.Kept) {turn other : Option Turn}
    (hother : ∀ item ∈ a.dropped turn, item.1.turn ≠ other) :
    (a.logWithout turn).filterMap (Mark.byteOf? other) =
      a.log.filterMap (Mark.byteOf? other) := by
  by_cases hturn : other = turn
  · have hnil : a.dropped turn = [] := by
      refine List.eq_nil_iff_forall_not_mem.mpr fun item hitem => hother item hitem ?_
      rw [turn_of_mem_dropped hitem, hturn]
    rw [← h.log_purge turn, items_purge_of_nil hnil, h.trace]
  · cases turn with
    | none => rfl
    | some turn =>
      rw [logWithout, List.filterMap_append, filterMap_withoutTurn hturn, ← List.filterMap_append,
        List.take_append_drop]

theorem sublist_purge (a : Account) (turn : Option Turn) :
    (a.pacer.purge turn).items.Sublist a.pacer.items := by
  cases turn with
  | none => exact List.Sublist.refl _
  | some turn => exact List.filter_sublist

theorem budget_dropped (a : Account) (turn : Option Turn) :
    budget (a.pacer.purge turn).items + budget (a.dropped turn) = budget a.pacer.items := by
  cases turn with
  | none => rfl
  | some turn =>
    have hsplit := budget_filter (fun item => !outputInterruptedReply item.1 turn) a.pacer.items
    simp only [Bool.not_not] at hsplit
    exact hsplit

theorem unsent_purge (h : a.Kept) (turn : Option Turn) : (a.pacer.purge turn).unsent = [] := by
  cases turn with
  | none => exact h.unsent
  | some turn =>
    unfold Pacer.purge
    rw [h.unsent]
    rfl

theorem returned_purge (h : a.Kept) (turn : Option Turn) :
    a.pacer.purged turn = budget (a.dropped turn) := by
  have hbytes := budget_dropped a turn
  unfold Pacer.purged Pacer.held
  rw [h.unsent, h.unsent_purge turn]
  simp only [budget_nil]
  omega

theorem parts_purge (h : a.Kept) (turn : Option Turn) :
    Lib.PartsOf Piece (ordered a.offered) (ordered (a.released ++ (a.pacer.purge turn).items)) := by
  refine h.parts.trans Piece.trans (.of_sublist Piece.refl ?_)
  exact ((List.Sublist.refl _).append (sublist_purge a turn)).filter _

theorem purge (h : a.Kept) (turn : Option Turn) : (a.purge turn).Kept where
  sound item hitem := h.sound item ((sublist_purge a turn).subset hitem)
  trace := h.log_purge turn
  parts := h.parts_purge turn
  bytes := by
    have hbytes := budget_dropped a turn
    have hbefore := h.bytes
    simp only [Account.purge, budget_append]
    omega
  returned := by
    simp only [Account.purge, budget_append, h.returned, h.returned_purge]
    push_cast
    rfl
  whole other hother := by
    have hbefore : ∀ item ∈ a.purged, item.1.turn ≠ other := fun item hitem =>
      hother item (List.mem_append_left _ hitem)
    exact (h.logWithout_audio fun item hitem => hother item (List.mem_append_right _ hitem)).trans
      (h.whole other hbefore)
  unsent := h.unsent_purge turn
  returns := h.returns

theorem beforeOffer_eq (pacer : Pacer) (output : OutputChunk) :
    pacer.beforeOffer output = pacer.purge (purgedBy output) := by
  unfold Pacer.beforeOffer purgedBy
  split <;> rfl

theorem queue (h : a.Kept) (item : Budgeted) (hbytes : hasAudioBytes item.1 = true) :
    Account.Kept { a with
      pacer := { a.pacer with items := a.pacer.items ++ [item] }
      offered := a.offered ++ [item]
      log := a.log ++ marks item.1 } where
  sound := sound_append.mpr ⟨h.sound, fun part hpart => by
    rw [List.mem_singleton.mp hpart]
    exact hbytes⟩
  trace := by
    simp only
    rw [← List.append_assoc, trace_append, h.trace, trace_singleton]
  parts := by
    simp only
    rw [← List.append_assoc, ordered_append, ordered_append (a.released ++ a.pacer.items)]
    exact h.parts.append (.refl Piece.refl _)
  bytes := by
    have hbefore := h.bytes
    simp only [budget_append]
    omega
  returned := h.returned
  whole turn hturn := by
    simp only
    rw [List.filterMap_append, h.whole turn hturn, ← audioOf_eq]
    simp [turnAudio]
  unsent := h.unsent
  returns := h.returns

theorem offer (h : a.Kept) {output : OutputChunk} (hbytes : hasAudioBytes output = true)
    (size : Nat) : (a.offer output size).Kept := by
  unfold Account.offer
  split
  · exact h
  · have hqueued := (h.purge (purgedBy output)).queue (output, size) hbytes
    have hreturned : a.pacer.offered output = a.pacer.purged (purgedBy output) := by
      unfold Pacer.offered Pacer.purged
      rw [beforeOffer_eq]
    rw [hreturned, Pacer.offer, beforeOffer_eq]
    exact hqueued

theorem release (h : a.Kept) : (a.release p leadMs now).Kept := by
  obtain ⟨pacer', released, hrelease, hreshapes⟩ := Pacer.release_reshapes p leadMs now h.sound
  obtain ⟨hbudget, hunsent⟩ := Pacer.release_spec hrelease
  have hall := (Reshapes.refl a.released).append hreshapes
  rw [← List.append_assoc] at hall
  have hstate : a.release p leadMs now =
      { a with pacer := pacer', time := some now, released := a.released ++ released } := by
    unfold Account.release
    rw [hrelease]
  rw [hstate]
  exact {
    sound := (sound_append.mp (hreshapes.sound h.sound)).2
    trace := hall.trace.trans h.trace
    parts := h.parts.trans Piece.trans hall.parts
    bytes := by
      have hbefore := h.bytes
      simp only [budget_append]
      omega
    returned := h.returned
    whole := h.whole
    unsent := hunsent.trans h.unsent
    returns := h.returns }

theorem init : Account.Kept {} where
  sound _ hitem := by cases hitem
  trace := rfl
  parts := .nil _
  bytes := rfl
  returned := rfl
  whole _ _ := rfl
  unsent := rfl
  returns := rfl

theorem call (h : a.Kept) {call : PacerCall} (hsound : call.isSound = true) :
    (a.call p leadMs call).Kept := by
  cases call with
  | offer output size => exact h.offer hsound size
  | purge turn => exact h.purge turn
  | endInput => exact ⟨h.sound, h.trace, h.parts, h.bytes, h.returned, h.whole, h.unsent, h.returns⟩
  | release now => exact h.release

end Account.Kept

theorem Account.kept_of_reaches {p : Packer} {leadMs : ℚ} {a : Account}
    (h : (pacing p leadMs).Reaches (fun _ call => call.isSound = true) a) : a.Kept := by
  refine h.invariant .init fun a call a' hkept hsound hstep => ?_
  cases hstep
  exact hkept.call hsound

/-- Through every run of a pacer on audio with bytes, nothing raises; what left and what is held have
the marks of what was offered and not purged, in the order offered, so that the audio of each turn
is whole (all that was offered, where nothing of the turn was purged) and the `eos` stands where its
chunk ends; audio and `turn.done`s are in the order offered;
and the bytes of the output budget add up. -/
theorem pacing_keeps_audio {p : Packer} {leadMs : ℚ} {a : Account}
    (h : (pacing p leadMs).Reaches (fun _ call => call.isSound = true) a) :
    a.raised = false ∧
    (∀ turn, turnAudio turn a.released ++ turnAudio turn a.pacer.items =
      a.log.filterMap (Mark.byteOf? turn)) ∧
    (∀ turn, (∀ item ∈ a.purged, item.1.turn ≠ turn) →
      a.log.filterMap (Mark.byteOf? turn) = turnAudio turn a.offered) ∧
    trace a.released ++ trace a.pacer.items = a.log ∧
    Lib.PartsOf Piece (ordered a.offered) (ordered a.released ++ ordered a.pacer.items) ∧
    budget a.released + budget a.pacer.items + budget a.purged = budget a.offered ∧
    a.returned = budget a.purged := by
  have hkept := Account.kept_of_reaches h
  have htrace := hkept.trace
  have hparts := hkept.parts
  rw [trace_append] at htrace
  rw [ordered_append] at hparts
  refine ⟨hkept.returns, fun turn => ?_, hkept.whole, htrace, hparts, hkept.bytes, hkept.returned⟩
  rw [turnAudio_eq, turnAudio_eq, ← List.filterMap_append, htrace]

def shortAudio (tStartMs : ℚ) (payload : List UInt8) (eos : Bool) : OutputChunk where
  sessionIdentity := { id := "session" }
  seq := 0
  inputSeq := 0
  modality := "audio"
  tStartMs := tStartMs
  durationMs := 25 * payload.length
  payload := .bytes payload
  format := some pcm16
  eos := eos
  turn := some 1

def replyControl (type : String) (turn : Turn) : OutputChunk where
  sessionIdentity := { id := "session" }
  seq := 0
  inputSeq := 0
  modality := "control"
  tStartMs := 0
  durationMs := 0
  payload := .dict [("type", .str type)]
  format := some sessionControl
  turn := some turn

/-- Two chunks of audio and the end of their turn: the second chunk is cut, its head leaves joined to
the first, and its tail is purged. -/
def shortCalls : List PacerCall :=
  [.offer (shortAudio 0 [1, 2, 3, 4] false) 10, .offer (shortAudio 100 [5, 6, 7, 8] true) 10,
    .offer (replyControl turnDone 1) 5, .release 0, .release (1 / 40),
    .offer (replyControl turnInterrupted 1) 5]

def shortAccount : Account :=
  shortCalls.foldl (Account.call ⟨fun _ => [], fun _ => []⟩ 150) {}

theorem pacing_keeps_audio_cut :
    turnAudio (some 1) shortAccount.released = [1, 2, 3, 4, 5, 6] ∧
    shortAccount.released.length = 1 ∧
    trace shortAccount.released ++ trace shortAccount.pacer.items = shortAccount.log ∧
    budget shortAccount.released + budget shortAccount.pacer.items +
      budget shortAccount.purged = 30 := by
  have hrun : (pacing ⟨fun _ => [], fun _ => []⟩ 150).Reaches (fun _ call => call.isSound = true)
      shortAccount := by
    have hexec : (pacing ⟨fun _ => [], fun _ => []⟩ 150).execWhere (fun _ call => call.isSound) {}
        shortCalls = some shortAccount := rfl
    exact Lib.Machine.path_of_execWhere (fun _ _ h => h) hexec
  obtain ⟨-, -, -, htrace, -, hbytes, -⟩ := pacing_keeps_audio hrun
  have haudio : turnAudio (some 1) shortAccount.released = [1, 2, 3, 4, 5, 6] ∧
      shortAccount.released.length = 1 ∧ budget shortAccount.offered = 30 := by
    decide +kernel
  exact ⟨haudio.1, haudio.2.1, htrace, hbytes.trans haudio.2.2⟩

end Session
