import Mathlib.Algebra.GroupWithZero.Nat
import Mathlib.Algebra.Order.Ring.Rat
import SglangOmni.Proto.Streams

/-! The pacer of a node that publishes audio: outputs on their way to the client, each with the
bytes it holds of the output budget.  `release` lets out what may leave now and keeps the rest; it
cuts a chunk at the horizon and joins contiguous audio of one turn, so one reservation may become
two and two may become one. -/

namespace Session

open Proto

abbrev Budgeted := OutputChunk × Nat

def budget (queue : List Budgeted) : Nat := (queue.map Prod.snd).sum

def isReplyAudio (output : OutputChunk) : Bool :=
  output.kind = .data && isAudioFormat output.format

/-- `DeliveryPacer`, less its wake-up event.  `replyStartedAt` is absent before any turn's audio,
where the code has minus infinity. -/
structure Pacer where
  items : List Budgeted := []
  unsent : List Budgeted := []
  replyStartMs : ℚ := 0
  replyStartedAt : Option ℚ := none
  clockTurn : Option Turn := none
  isInputEnded : Bool := false
  sentTurn : Option Turn := none
  sentMs : ℚ := 0
  releasedTurn : Option Turn := none
  releasedEndMs : ℚ := 0

/-! ### Cutting and joining -/

/-- What `split_audio` does with a chunk: it fails on a payload that is not bytes, leaves a chunk
whose head holds no whole sample, or cuts it. -/
inductive Split
  | fails
  | whole
  | cut (head tail : Budgeted)

/-- Where `split_audio` cuts a payload: the whole samples of its first `headMs`. -/
def cutBytes (output : OutputChunk) (payload : List UInt8) (headMs : ℚ) : Nat :=
  let sampleBytes := if output.format = some pcmF32 then 4 else 2
  (payload.length * headMs / output.durationMs).floor.toNat / sampleBytes * sampleBytes

/-- The duration of the first `cut` bytes of a payload. -/
def headDurationMs (output : OutputChunk) (payload : List UInt8) (cut : Nat) : ℚ :=
  output.durationMs * cut / payload.length

/-- The first `cut` bytes of an audio chunk. -/
def audioHead (output : OutputChunk) (payload : List UInt8) (cut : Nat) : OutputChunk :=
  { output with
    durationMs := headDurationMs output payload cut
    payload := .bytes (payload.take cut)
    eos := false }

/-- An audio chunk after its first `cut` bytes. -/
def audioTail (output : OutputChunk) (payload : List UInt8) (cut : Nat) : OutputChunk :=
  { output with
    tStartMs := output.tStartMs + headDurationMs output payload cut
    durationMs := output.durationMs - headDurationMs output payload cut
    payload := .bytes (payload.drop cut) }

def splitAudio (p : Packer) (output : OutputChunk) (size : Nat) (headMs : ℚ) : Split :=
  match output.payload with
  | .bytes payload =>
    let cut := cutBytes output payload headMs
    let headSize := min (p.outputSize (audioHead output payload cut)) size
    if cut = 0 then .whole
    else .cut (audioHead output payload cut, headSize)
      (audioTail output payload cut, size - headSize)
  | _ => .fails

/-- Whether a payload counts as true: bytes or an object with anything in it. -/
def hasContent : ChunkPayload → Bool
  | .none => false
  | .bytes data => !data.isEmpty
  | .dict fields => !fields.isEmpty

/-- `math.isclose` at its default tolerance. -/
def isClose (a b : ℚ) : Bool := |a - b| ≤ max |a| |b| / 1000000000

def joins (leadMs : ℚ) (previous output : OutputChunk) : Bool :=
  isReplyAudio output && previous.kind = .data && previous.format = output.format &&
    previous.turn = output.turn && !previous.eos &&
    isClose (previous.tStartMs + previous.durationMs) output.tStartMs &&
    previous.durationMs + output.durationMs ≤ leadMs

def joinAudio (previous output : Budgeted) : Option Budgeted :=
  match previous.1.payload, output.1.payload with
  | .bytes first, .bytes second =>
    some ({ previous.1 with
      durationMs := previous.1.durationMs + output.1.durationMs
      payload := .bytes (first ++ second)
      eos := output.1.eos }, previous.2 + output.2)
  | _, _ => none

/-- The chunks after `last`, each joined to the one before it where that may be. -/
def coalesceFrom (leadMs : ℚ) : Budgeted → List Budgeted → Option (List Budgeted)
  | last, [] => some [last]
  | last, next :: rest =>
    if joins leadMs last.1 next.1 then
      match joinAudio last next with
      | none => none
      | some joined => coalesceFrom leadMs joined rest
    else
      match coalesceFrom leadMs next rest with
      | none => none
      | some coalesced => some (last :: coalesced)

def coalesce (leadMs : ℚ) : List Budgeted → Option (List Budgeted)
  | [] => some []
  | first :: rest => coalesceFrom leadMs first rest

namespace Pacer

/-- `purge`: drop the held and the unsent chunks of the turn. -/
def purge (pacer : Pacer) (turn : Option Turn) : Pacer :=
  match turn with
  | none => pacer
  | some turn =>
    { pacer with
      items := pacer.items.filter fun item => !outputInterruptedReply item.1 turn
      unsent := pacer.unsent.filter fun item => !outputInterruptedReply item.1 turn }

def held (pacer : Pacer) : Nat := budget pacer.items + budget pacer.unsent

def purged (pacer : Pacer) (turn : Option Turn) : Int := pacer.held - (pacer.purge turn).held

/-- `offer` before it queues the output: a `turn.interrupted` drops its turn. -/
def beforeOffer (pacer : Pacer) (output : OutputChunk) : Pacer :=
  if outputControlType output = some turnInterrupted then pacer.purge output.turn else pacer

def offer (pacer : Pacer) (output : OutputChunk) (size : Nat) : Pacer :=
  { pacer.beforeOffer output with items := (pacer.beforeOffer output).items ++ [(output, size)] }

def offered (pacer : Pacer) (output : OutputChunk) : Int :=
  pacer.held - (pacer.beforeOffer output).held

/-- `sent`: count an output handed to the client toward its turn's delivered audio. -/
def sent (pacer : Pacer) (output : OutputChunk) : Pacer :=
  if isReplyAudio output then
    { pacer with
      sentTurn := output.turn
      sentMs := (if output.turn = pacer.sentTurn then pacer.sentMs else 0) + output.durationMs }
  else pacer

/-- `delivered_ms`: the audio of the turn handed to the client. -/
def deliveredMs (pacer : Pacer) (turn : Turn) : ℚ :=
  if some turn = pacer.sentTurn then pacer.sentMs else 0

def endInput (pacer : Pacer) : Pacer := { pacer with isInputEnded := true }

/-- `horizon_ms`, absent where it is infinite. -/
def horizonMs (pacer : Pacer) (leadMs now : ℚ) : Option ℚ :=
  pacer.replyStartedAt.map fun started =>
    pacer.replyStartMs + (now - started) * 1000 + leadMs

def startClock (pacer : Pacer) (output : OutputChunk) (now : ℚ) : Pacer :=
  if output.turn ≠ pacer.clockTurn then
    { pacer with
      clockTurn := output.turn, replyStartMs := output.tStartMs, replyStartedAt := some now }
  else pacer

/-- `take_audio`, less the list it adds to. -/
def takeAudio (pacer : Pacer) (output : OutputChunk) : Pacer :=
  { pacer with
    releasedTurn := output.turn, releasedEndMs := output.tStartMs + output.durationMs }

/-- Whether a `turn.done` waits until the client has played its turn's audio. -/
def awaitsPlayed (pacer : Pacer) (leadMs now : ℚ) (output : OutputChunk) : Bool :=
  outputControlType output = some turnDone && !pacer.isInputEnded &&
    output.turn = pacer.releasedTurn &&
    (pacer.horizonMs leadMs now).any fun horizon => horizon - leadMs < pacer.releasedEndMs

end Pacer

/-- The first loop of `release` under way: the pacer's clock, what leaves and what stays. -/
structure Releasing where
  pacer : Pacer
  released : List Budgeted := []
  held : List Budgeted := []

namespace Releasing

def keep (r : Releasing) (item : Budgeted) : Releasing := { r with held := r.held ++ [item] }

def letOut (r : Releasing) (item : Budgeted) : Releasing :=
  { r with released := r.released ++ [item] }

def letAudioOut (r : Releasing) (item : Budgeted) : Releasing :=
  { r with pacer := r.pacer.takeAudio item.1, released := r.released ++ [item] }

/-- Audio that no earlier audio holds back: it stays, leaves, or is cut at the horizon. -/
def paceAudio (p : Packer) (leadMs now : ℚ) (r : Releasing) (item : Budgeted) :
    Option Releasing :=
  let r := { r with pacer := r.pacer.startClock item.1 now }
  match r.pacer.horizonMs leadMs now with
  | none => some (r.letAudioOut item)
  | some horizon =>
    if horizon ≤ item.1.tStartMs then some (r.keep item)
    else if horizon < item.1.tStartMs + item.1.durationMs ∧ hasContent item.1.payload then
      match splitAudio p item.1 item.2 (horizon - item.1.tStartMs) with
      | .fails => none
      | .whole => some (r.keep item)
      | .cut head tail => some ((r.letAudioOut head).keep tail)
    else some (r.letAudioOut item)

/-- One output of the first loop of `release`; nothing where `split_audio` fails. -/
def item (p : Packer) (leadMs now : ℚ) (r : Releasing) (item : Budgeted) : Option Releasing :=
  if !r.held.isEmpty && (isReplyAudio item.1 || outputControlType item.1 = some turnDone) then
    some (r.keep item)
  else if isReplyAudio item.1 && !r.pacer.isInputEnded then r.paceAudio p leadMs now item
  else if r.pacer.awaitsPlayed leadMs now item.1 then some (r.keep item)
  else some (r.letOut item)

def items (p : Packer) (leadMs now : ℚ) : Releasing → List Budgeted → Option Releasing
  | r, [] => some r
  | r, next :: rest =>
    match r.item p leadMs now next with
    | none => none
    | some r => items p leadMs now r rest

end Releasing

/-- `release`: the pacer afterwards and what leaves it, or nothing where it raises.  No one reads the
clock of a pacer whose `release` raised, so it is left as it was. -/
def Pacer.release (p : Packer) (leadMs now : ℚ) (pacer : Pacer) :
    Pacer × Option (List Budgeted) :=
  match Releasing.items p leadMs now { pacer := pacer } pacer.items with
  | none => (pacer, none)
  | some r => ({ r.pacer with items := r.held }, coalesce leadMs r.released)

/-! ### The byte budget -/

@[simp] theorem budget_nil : budget [] = 0 := rfl

@[simp] theorem budget_cons (item : Budgeted) (rest : List Budgeted) :
    budget (item :: rest) = item.2 + budget rest := rfl

@[simp] theorem budget_append (first second : List Budgeted) :
    budget (first ++ second) = budget first + budget second := by
  simp [budget]

theorem budget_filter (keep : Budgeted → Bool) (queue : List Budgeted) :
    budget (queue.filter keep) + budget (queue.filter fun item => !keep item) = budget queue := by
  induction queue with
  | nil => rfl
  | cons item rest ih =>
    by_cases h : keep item
    · simp [h]
      omega
    · simp [h]
      omega

theorem budget_filter_le (keep : Budgeted → Bool) (queue : List Budgeted) :
    budget (queue.filter keep) ≤ budget queue := by
  have := budget_filter keep queue
  omega

theorem splitAudio_budget {p : Packer} {output : OutputChunk} {size : Nat} {headMs : ℚ}
    {head tail : Budgeted} (h : splitAudio p output size headMs = .cut head tail) :
    head.2 + tail.2 = size := by
  unfold splitAudio at h
  split at h
  · simp only at h
    split at h
    · cases h
    · cases h
      simp only
      omega
  · cases h

theorem joinAudio_budget {previous output joined : Budgeted}
    (h : joinAudio previous output = some joined) : joined.2 = previous.2 + output.2 := by
  unfold joinAudio at h
  split at h
  · cases h
    rfl
  · cases h

theorem coalesceFrom_budget {leadMs : ℚ} {rest coalesced : List Budgeted} {last : Budgeted}
    (h : coalesceFrom leadMs last rest = some coalesced) :
    budget coalesced = last.2 + budget rest := by
  induction rest generalizing last coalesced with
  | nil =>
    cases h
    rfl
  | cons next rest ih =>
    unfold coalesceFrom at h
    split at h
    · split at h
      · cases h
      · next joined hjoin =>
        rw [ih h, joinAudio_budget hjoin, budget_cons]
        omega
    · split at h
      · cases h
      · next tail htail =>
        cases h
        rw [budget_cons, ih htail, budget_cons]

theorem coalesce_budget {leadMs : ℚ} {released coalesced : List Budgeted}
    (h : coalesce leadMs released = some coalesced) : budget coalesced = budget released := by
  cases released with
  | nil =>
    cases h
    rfl
  | cons first rest => exact coalesceFrom_budget h

namespace Releasing

def total (r : Releasing) : Nat := budget r.released + budget r.held

theorem total_keep (r : Releasing) (item : Budgeted) : (r.keep item).total = r.total + item.2 := by
  simp [total, keep]
  omega

theorem total_letOut (r : Releasing) (item : Budgeted) :
    (r.letOut item).total = r.total + item.2 := by
  simp [total, letOut]
  omega

theorem total_letAudioOut (r : Releasing) (item : Budgeted) :
    (r.letAudioOut item).total = r.total + item.2 := by
  simp [total, letAudioOut]
  omega

theorem total_paceAudio {p : Packer} {leadMs now : ℚ} {r r' : Releasing} {item : Budgeted}
    (h : r.paceAudio p leadMs now item = some r') : r'.total = r.total + item.2 := by
  unfold paceAudio at h
  simp only at h
  split at h
  · cases h
    exact total_letAudioOut _ item
  · split at h
    · cases h
      exact total_keep _ item
    · split at h
      · split at h
        · cases h
        · cases h
          exact total_keep _ item
        · next head tail hsplit =>
          cases h
          rw [total_keep, total_letAudioOut, Nat.add_assoc, splitAudio_budget hsplit]
          rfl
      · cases h
        exact total_letAudioOut _ item

theorem total_item {p : Packer} {leadMs now : ℚ} {r r' : Releasing} {next : Budgeted}
    (h : r.item p leadMs now next = some r') : r'.total = r.total + next.2 := by
  unfold item at h
  split at h
  · cases h
    exact total_keep r next
  · split at h
    · exact total_paceAudio h
    · split at h
      · cases h
        exact total_keep r next
      · cases h
        exact total_letOut r next

theorem total_items {p : Packer} {leadMs now : ℚ} {queue : List Budgeted} {r r' : Releasing}
    (h : items p leadMs now r queue = some r') : r'.total = r.total + budget queue := by
  induction queue generalizing r with
  | nil =>
    cases h
    rfl
  | cons next rest ih =>
    unfold items at h
    split at h
    · cases h
    · next r₁ h₁ => rw [ih h, total_item h₁, budget_cons, Nat.add_assoc]

end Releasing

/-! ### What the first loop leaves alone -/

@[simp] theorem Pacer.unsent_startClock (pacer : Pacer) (output : OutputChunk) (now : ℚ) :
    (pacer.startClock output now).unsent = pacer.unsent := by
  unfold Pacer.startClock
  split <;> rfl

theorem Releasing.unsent_item {p : Packer} {leadMs now : ℚ} {r r' : Releasing} {next : Budgeted}
    (h : r.item p leadMs now next = some r') : r'.pacer.unsent = r.pacer.unsent := by
  unfold item at h
  split at h
  · cases h
    rfl
  · split at h
    · unfold paceAudio at h
      simp only at h
      split at h
      · cases h
        simp [letAudioOut, Pacer.takeAudio]
      · split at h
        · cases h
          simp [keep]
        · split at h
          · split at h
            · cases h
            · cases h
              simp [keep]
            · cases h
              simp [keep, letAudioOut, Pacer.takeAudio]
          · cases h
            simp [letAudioOut, Pacer.takeAudio]
    · split at h
      · cases h
        rfl
      · cases h
        rfl

theorem Releasing.unsent_items {p : Packer} {leadMs now : ℚ} {queue : List Budgeted}
    {r r' : Releasing} (h : items p leadMs now r queue = some r') :
    r'.pacer.unsent = r.pacer.unsent := by
  induction queue generalizing r with
  | nil =>
    cases h
    rfl
  | cons next rest ih =>
    unfold items at h
    split at h
    · cases h
    · next r₁ h₁ => rw [ih h, unsent_item h₁]

theorem Pacer.release_spec {p : Packer} {leadMs now : ℚ} {pacer pacer' : Pacer}
    {released : List Budgeted} (h : pacer.release p leadMs now = (pacer', some released)) :
    budget released + budget pacer'.items = budget pacer.items ∧ pacer'.unsent = pacer.unsent := by
  unfold release at h
  split at h
  · cases h
  · next r hitems =>
    obtain ⟨rfl, hreleased⟩ := Prod.mk.inj h
    have htotal := Releasing.total_items hitems
    refine ⟨?_, Releasing.unsent_items hitems⟩
    rw [coalesce_budget hreleased]
    simpa [Releasing.total] using htotal

theorem Pacer.held_purge_le (pacer : Pacer) (turn : Option Turn) :
    (pacer.purge turn).held ≤ pacer.held := by
  cases turn with
  | none => exact le_rfl
  | some turn =>
    unfold Pacer.held
    exact Nat.add_le_add (budget_filter_le _ _) (budget_filter_le _ _)

theorem Pacer.held_beforeOffer_le (pacer : Pacer) (output : OutputChunk) :
    (pacer.beforeOffer output).held ≤ pacer.held := by
  unfold Pacer.beforeOffer
  split
  · exact pacer.held_purge_le _
  · exact le_rfl

theorem Pacer.held_offer (pacer : Pacer) (output : OutputChunk) (size : Nat) :
    (pacer.offer output size).held = (pacer.beforeOffer output).held + size := by
  simp [Pacer.offer, Pacer.held]
  omega

@[simp] theorem Pacer.held_sent (pacer : Pacer) (output : OutputChunk) :
    (pacer.sent output).held = pacer.held := by
  unfold Pacer.sent
  split <;> rfl

/-! ### Where the chunks of a pacer come from -/

/-- A chunk that is another, or is cut from it, or begins with it: they have one number and turn. -/
structure Descends (output part : OutputChunk) : Prop where
  kind : part.kind = output.kind
  seq : part.seq = output.seq
  turn : part.turn = output.turn
  event : outputControlType part = outputControlType output

theorem Descends.refl (output : OutputChunk) : Descends output output :=
  ⟨rfl, rfl, rfl, rfl⟩

theorem Descends.trans {first second third : OutputChunk} (h : Descends first second)
    (h' : Descends second third) : Descends first third :=
  ⟨h'.kind.trans h.kind, h'.seq.trans h.seq, h'.turn.trans h.turn, h'.event.trans h.event⟩

def AllDescend (queue parts : List Budgeted) : Prop :=
  ∀ part ∈ parts, ∃ item ∈ queue, Descends item.1 part.1

theorem controlTypeOf_audio {format : Option String} (h : isAudioFormat format = true)
    (payload : ChunkPayload) : controlTypeOf format payload = none := by
  refine if_pos fun hcontrol => ?_
  rw [hcontrol] at h
  revert h
  decide

theorem splitAudio_descends {p : Packer} {output : OutputChunk} {size : Nat} {headMs : ℚ}
    {head tail : Budgeted} (haudio : isAudioFormat output.format = true)
    (h : splitAudio p output size headMs = .cut head tail) :
    Descends output head.1 ∧ Descends output tail.1 := by
  have hnone : ∀ payload, controlTypeOf output.format payload = outputControlType output :=
    fun payload =>
      (controlTypeOf_audio haudio payload).trans (controlTypeOf_audio haudio output.payload).symm
  unfold splitAudio at h
  split at h
  · simp only at h
    split at h
    · cases h
    · cases h
      exact ⟨⟨rfl, rfl, rfl, hnone _⟩, ⟨rfl, rfl, rfl, hnone _⟩⟩
  · cases h

theorem joinAudio_descends {leadMs : ℚ} {previous output joined : Budgeted}
    (hjoins : joins leadMs previous.1 output.1 = true)
    (h : joinAudio previous output = some joined) : Descends previous.1 joined.1 := by
  have haudio : isAudioFormat previous.1.format = true := by
    simp only [joins, isReplyAudio, Bool.and_eq_true, decide_eq_true_eq] at hjoins
    obtain ⟨⟨⟨⟨⟨⟨⟨-, haudio⟩, -⟩, hformat⟩, -⟩, -⟩, -⟩, -⟩ := hjoins
    rw [hformat]
    exact haudio
  unfold joinAudio at h
  split at h
  · cases h
    refine ⟨rfl, rfl, rfl, ?_⟩
    exact (controlTypeOf_audio haudio _).trans (controlTypeOf_audio haudio previous.1.payload).symm
  · cases h

theorem coalesceFrom_descends {leadMs : ℚ} {rest coalesced : List Budgeted} {last : Budgeted}
    (h : coalesceFrom leadMs last rest = some coalesced) : AllDescend (last :: rest) coalesced := by
  induction rest generalizing last coalesced with
  | nil =>
    cases h
    exact fun part hpart => ⟨part, hpart, .refl _⟩
  | cons next rest ih =>
    unfold coalesceFrom at h
    split at h
    · next hjoins =>
      split at h
      · cases h
      · next joined hjoin =>
        intro part hpart
        obtain ⟨item, hitem, hdescends⟩ := ih h part hpart
        rcases List.mem_cons.mp hitem with rfl | hrest
        · exact ⟨last, List.mem_cons_self, (joinAudio_descends hjoins hjoin).trans hdescends⟩
        · exact ⟨item, List.mem_cons_of_mem _ (List.mem_cons_of_mem _ hrest), hdescends⟩
    · split at h
      · cases h
      · next tail htail =>
        cases h
        intro part hpart
        rcases List.mem_cons.mp hpart with rfl | hpart
        · exact ⟨part, List.mem_cons_self, .refl _⟩
        · obtain ⟨item, hitem, hdescends⟩ := ih htail part hpart
          exact ⟨item, List.mem_cons_of_mem _ hitem, hdescends⟩

theorem coalesce_descends {leadMs : ℚ} {released coalesced : List Budgeted}
    (h : coalesce leadMs released = some coalesced) : AllDescend released coalesced := by
  cases released with
  | nil =>
    cases h
    exact fun part hpart => ⟨part, hpart, .refl _⟩
  | cons first rest => exact coalesceFrom_descends h

namespace Releasing

def all (r : Releasing) : List Budgeted := r.released ++ r.held

theorem mem_all_keep {r : Releasing} {item part : Budgeted} :
    part ∈ (r.keep item).all ↔ part ∈ r.all ∨ part = item := by
  simp [all, keep, or_assoc]

theorem mem_all_letOut {r : Releasing} {item part : Budgeted} :
    part ∈ (r.letOut item).all ↔ part ∈ r.all ∨ part = item := by
  simp [all, letOut]
  tauto

theorem mem_all_letAudioOut {r : Releasing} {item part : Budgeted} :
    part ∈ (r.letAudioOut item).all ↔ part ∈ r.all ∨ part = item :=
  mem_all_letOut

theorem paceAudio_descends {p : Packer} {leadMs now : ℚ} {r r' : Releasing} {item : Budgeted}
    (haudio : isReplyAudio item.1 = true) (h : r.paceAudio p leadMs now item = some r') :
    ∀ part ∈ r'.all, part ∈ r.all ∨ Descends item.1 part.1 := by
  have hformat : isAudioFormat item.1.format = true := (Bool.and_eq_true_iff.mp haudio).2
  have hone : ∀ part, part ∈ r.all ∨ part = item → part ∈ r.all ∨ Descends item.1 part.1 := by
    rintro part (hpart | rfl)
    · exact .inl hpart
    · exact .inr (.refl _)
  intro part hpart
  unfold paceAudio at h
  simp only at h
  split at h
  · cases h
    exact hone part (mem_all_letAudioOut.mp hpart)
  · split at h
    · cases h
      exact hone part (mem_all_keep.mp hpart)
    · split at h
      · split at h
        · cases h
        · cases h
          exact hone part (mem_all_keep.mp hpart)
        · next head tail hsplit =>
          cases h
          obtain ⟨hhead, htail⟩ := splitAudio_descends hformat hsplit
          rcases mem_all_keep.mp hpart with hpart | rfl
          · rcases mem_all_letAudioOut.mp hpart with hpart | rfl
            · exact .inl hpart
            · exact .inr hhead
          · exact .inr htail
      · cases h
        exact hone part (mem_all_letAudioOut.mp hpart)

theorem item_descends {p : Packer} {leadMs now : ℚ} {r r' : Releasing} {next : Budgeted}
    (h : r.item p leadMs now next = some r') :
    ∀ part ∈ r'.all, part ∈ r.all ∨ Descends next.1 part.1 := by
  have hone : ∀ part, part ∈ r.all ∨ part = next → part ∈ r.all ∨ Descends next.1 part.1 := by
    rintro part (hpart | rfl)
    · exact .inl hpart
    · exact .inr (.refl _)
  unfold item at h
  split at h
  · cases h
    exact fun part hpart => hone part (mem_all_keep.mp hpart)
  · split at h
    · next haudio => exact paceAudio_descends (Bool.and_eq_true_iff.mp haudio).1 h
    · split at h
      · cases h
        exact fun part hpart => hone part (mem_all_keep.mp hpart)
      · cases h
        exact fun part hpart => hone part (mem_all_letOut.mp hpart)

theorem items_descend {p : Packer} {leadMs now : ℚ} {queue : List Budgeted} {r r' : Releasing}
    (h : items p leadMs now r queue = some r') :
    ∀ part ∈ r'.all, part ∈ r.all ∨ ∃ item ∈ queue, Descends item.1 part.1 := by
  induction queue generalizing r with
  | nil =>
    cases h
    exact fun part hpart => .inl hpart
  | cons next rest ih =>
    unfold items at h
    split at h
    · cases h
    · next r₁ h₁ =>
      intro part hpart
      rcases ih h part hpart with hmid | ⟨item, hitem, hdescends⟩
      · rcases item_descends h₁ part hmid with hstart | hdescends
        · exact .inl hstart
        · exact .inr ⟨next, List.mem_cons_self, hdescends⟩
      · exact .inr ⟨item, List.mem_cons_of_mem _ hitem, hdescends⟩

end Releasing

theorem Pacer.release_descends {p : Packer} {leadMs now : ℚ} {pacer pacer' : Pacer}
    {out : Option (List Budgeted)} (h : pacer.release p leadMs now = (pacer', out)) :
    AllDescend pacer.items pacer'.items ∧ pacer'.unsent = pacer.unsent ∧
      ∀ released, out = some released → AllDescend pacer.items released := by
  unfold release at h
  split at h
  · cases h
    exact ⟨fun part hpart => ⟨part, hpart, .refl _⟩, rfl, fun _ h => (by cases h)⟩
  · next r hitems =>
    obtain ⟨rfl, rfl⟩ := Prod.mk.inj h
    have hall : AllDescend pacer.items r.all := fun part hpart =>
      (Releasing.items_descend hitems part hpart).resolve_left List.not_mem_nil
    refine ⟨fun part hpart => hall part (List.mem_append_right _ hpart),
      Releasing.unsent_items hitems, fun released hreleased part hpart => ?_⟩
    obtain ⟨item, hitem, hdescends⟩ := coalesce_descends hreleased part hpart
    obtain ⟨source, hsource, hfirst⟩ := hall item (List.mem_append_left _ hitem)
    exact ⟨source, hsource, hfirst.trans hdescends⟩

/-! ### Turn ends keep their order -/

def turnEnds (queue : List Budgeted) : List Budgeted :=
  queue.filter fun item => outputControlType item.1 = some turnDone

@[simp] theorem turnEnds_append (first second : List Budgeted) :
    turnEnds (first ++ second) = turnEnds first ++ turnEnds second :=
  List.filter_append ..

namespace Releasing

end Releasing

end Session
