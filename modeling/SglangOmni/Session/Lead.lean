import Mathlib.Data.Rat.Floor
import Mathlib.Tactic.Linarith
import SglangOmni.Session.Pacing

/-! How far a pacer lets audio run ahead of the client.  The clock of the reply that is playing starts
at the first audio of its turn that `release` looks at; audio leaves up to the lead past it, and the
`turn.done` of that turn leaves once the clock has reached the end of the turn's released audio. -/

namespace Session

open Proto

def endMs (output : OutputChunk) : ℚ := output.tStartMs + output.durationMs

/-- Where the client is on the timeline of the clock's turn; absent before any clock starts, where the
code has infinity. -/
def Pacer.playedMs (pacer : Pacer) (now : ℚ) : Option ℚ :=
  pacer.replyStartedAt.map fun started => pacer.replyStartMs + (now - started) * 1000

structure Audible (output : OutputChunk) : Prop where
  content : ∃ data, output.payload = .bytes data ∧ data ≠ []
  duration : 0 ≤ output.durationMs

/-- Where both are audio of one turn, the first ends before the second starts. -/
def Before (first second : Budgeted) : Prop :=
  isReplyAudio first.1 = true → isReplyAudio second.1 = true → first.1.turn = second.1.turn →
    endMs first.1 ≤ second.1.tStartMs

def Within (queue : List Budgeted) (item : Budgeted) : Prop :=
  ∃ source ∈ queue, isReplyAudio source.1 = true ∧ source.1.turn = item.1.turn ∧
    endMs item.1 ≤ endMs source.1

/-! ### Cuts -/

theorem cutBytes_le (output : OutputChunk) (payload : List UInt8) {headMs : ℚ}
    (hhead : 0 ≤ headMs) (hduration : headMs < output.durationMs) :
    (cutBytes output payload headMs : ℚ) * output.durationMs ≤ payload.length * headMs := by
  have hpositive : 0 < output.durationMs := lt_of_le_of_lt hhead hduration
  have hratio : 0 ≤ payload.length * headMs / output.durationMs :=
    div_nonneg (mul_nonneg (Nat.cast_nonneg _) hhead) hpositive.le
  have hwhole : cutBytes output payload headMs ≤
      (payload.length * headMs / output.durationMs).floor.toNat :=
    Nat.div_mul_le_self _ _
  have hfloor : ((payload.length * headMs / output.durationMs).floor.toNat : ℚ) ≤
      payload.length * headMs / output.durationMs := by
    have hnonneg : 0 ≤ (payload.length * headMs / output.durationMs).floor :=
      Rat.le_floor_iff.mpr (by exact_mod_cast hratio)
    have hcast : ((payload.length * headMs / output.durationMs).floor.toNat : ℚ) =
        ((payload.length * headMs / output.durationMs).floor : ℚ) := by
      exact_mod_cast Int.toNat_of_nonneg hnonneg
    rw [hcast]
    exact Rat.floor_le _
  have hcut : (cutBytes output payload headMs : ℚ) ≤
      payload.length * headMs / output.durationMs :=
    le_trans (by exact_mod_cast hwhole) hfloor
  exact (le_div_iff₀ hpositive).mp hcut

structure Cut (output head tail : OutputChunk) (headMs : ℚ) : Prop where
  headStart : head.tStartMs = output.tStartMs
  fits : head.durationMs ≤ headMs
  meets : tail.tStartMs = endMs head
  ends : endMs tail = endMs output
  headAudible : Audible head
  tailAudible : Audible tail

theorem Cut.head_ends {output head tail : OutputChunk} {headMs : ℚ}
    (h : Cut output head tail headMs) : endMs head ≤ endMs output := by
  rw [← h.ends, ← h.meets, endMs]
  exact le_add_of_nonneg_right h.tailAudible.duration

theorem Cut.tail_starts {output head tail : OutputChunk} {headMs : ℚ}
    (h : Cut output head tail headMs) : output.tStartMs ≤ tail.tStartMs := by
  rw [h.meets, endMs, h.headStart]
  exact le_add_of_nonneg_right h.headAudible.duration

theorem splitAudio_cut {p : Packer} {output : OutputChunk} {size : Nat} {headMs : ℚ}
    {head tail : Budgeted} (haudible : Audible output) (hhead : 0 < headMs)
    (hduration : headMs < output.durationMs)
    (h : splitAudio p output size headMs = .cut head tail) :
    Cut output head.1 tail.1 headMs := by
  obtain ⟨data, hdata, hcontent⟩ := haudible.content
  obtain ⟨payload, hpayload, hcut, hheadEq, htailEq⟩ := splitAudio_eq_cut h
  obtain rfl : payload = data := by
    rw [hdata] at hpayload
    exact (ChunkPayload.bytes.inj hpayload).symm
  have hlength : (0 : ℚ) < payload.length :=
    Nat.cast_pos.mpr (List.length_pos_iff.mpr hcontent)
  have hpositive : 0 < output.durationMs := hhead.trans hduration
  have hle := cutBytes_le output payload hhead.le hduration
  generalize cutBytes output payload headMs = cut at hle hcut hheadEq htailEq
  have hfits : headDurationMs output payload cut ≤ headMs := by
    unfold headDurationMs
    rw [div_le_iff₀ hlength]
    linarith
  have hnonneg : 0 ≤ headDurationMs output payload cut :=
    div_nonneg (mul_nonneg hpositive.le (Nat.cast_nonneg _)) hlength.le
  have hshort : cut < payload.length := by
    have hmul : (cut : ℚ) * output.durationMs < payload.length * output.durationMs :=
      lt_of_le_of_lt hle (mul_lt_mul_of_pos_left hduration hlength)
    exact_mod_cast lt_of_mul_lt_mul_right hmul hpositive.le
  rw [hheadEq, htailEq]
  exact {
    headStart := rfl
    fits := hfits
    meets := rfl
    ends := by
      simp only [endMs, audioTail]
      ring
    headAudible := by
      refine ⟨⟨payload.take cut, rfl, ?_⟩, hnonneg⟩
      simpa [List.take_eq_nil_iff] using ⟨hcut, hcontent⟩
    tailAudible := by
      refine ⟨⟨payload.drop cut, rfl, ?_⟩, ?_⟩
      · simpa [List.drop_eq_nil_iff] using hshort
      · simp only [audioTail]
        linarith }

/-! ### The line of a turn's audio -/

/-- The line of outputs in the course of a `release`: in each turn, audio ends before the next starts
and after what left `before`, and none goes past what was offered. -/
structure Line (before offered line : List Budgeted) : Prop where
  chained : line.Pairwise Before
  after : ∀ chunk ∈ before, ∀ item ∈ line, Before chunk item
  within : ∀ item ∈ line, isReplyAudio item.1 = true → Within offered item

namespace Line

variable {before offered first last : List Budgeted} {item : Budgeted}

theorem of_filter {line line' : List Budgeted} (h : Line before offered line)
    (hsame : (line'.filter fun item => isReplyAudio item.1) =
      line.filter fun item => isReplyAudio item.1) : Line before offered line' := by
  have hpairs : ∀ queue : List Budgeted, queue.Pairwise Before ↔
      (queue.filter fun item => isReplyAudio item.1).Pairwise fun first second =>
        first.1.turn = second.1.turn → endMs first.1 ≤ second.1.tStartMs := by
    intro queue
    rw [List.pairwise_filter]
    rfl
  have hmem : ∀ item ∈ line', isReplyAudio item.1 = true → item ∈ line := by
    intro item hitem haudio
    have hfiltered : item ∈ line'.filter fun item => isReplyAudio item.1 :=
      List.mem_filter.mpr ⟨hitem, haudio⟩
    rw [hsame] at hfiltered
    exact (List.mem_filter.mp hfiltered).1
  refine ⟨?_, ?_, fun item hitem haudio => h.within item (hmem item hitem haudio) haudio⟩
  · rw [hpairs, hsame, ← hpairs]
    exact h.chained
  · intro chunk hchunk item hitem hfirst hsecond
    exact h.after chunk hchunk item (hmem item hitem hsecond) hfirst hsecond

theorem cut {head tail : Budgeted} {headMs : ℚ} (h : Line before offered (first ++ item :: last))
    (haudio : isReplyAudio item.1 = true) (hhead : Piece item head) (htail : Piece item tail)
    (hcut : Cut item.1 head.1 tail.1 headMs) :
    Line before offered (first ++ head :: tail :: last) := by
  have hitem : item ∈ first ++ item :: last := List.mem_append_right _ List.mem_cons_self
  -- what comes before the chunk comes before its parts, and what comes after it after them
  have hbefore : ∀ chunk, Before chunk item → Before chunk head ∧ Before chunk tail := by
    intro chunk hchunk
    refine ⟨fun hfirst _ hturn => ?_, fun hfirst _ hturn => ?_⟩
    · rw [hcut.headStart]
      exact hchunk hfirst haudio (hturn.trans hhead.descends.turn)
    · exact (hchunk hfirst haudio (hturn.trans htail.descends.turn)).trans hcut.tail_starts
  have hafter : ∀ chunk, Before item chunk → Before head chunk ∧ Before tail chunk := by
    intro chunk hchunk
    refine ⟨fun _ hsecond hturn => ?_, fun _ hsecond hturn => ?_⟩
    · exact hcut.head_ends.trans (hchunk haudio hsecond (hhead.descends.turn.symm.trans hturn))
    · rw [hcut.ends]
      exact hchunk haudio hsecond (htail.descends.turn.symm.trans hturn)
  obtain ⟨hfirst, hlast, hacross⟩ := List.pairwise_append.mp h.chained
  obtain ⟨hitemLast, hlast⟩ := List.pairwise_cons.mp hlast
  refine ⟨?_, ?_, ?_⟩
  · refine List.pairwise_append.mpr ⟨hfirst, ?_, ?_⟩
    · refine List.pairwise_cons.mpr ⟨?_, List.pairwise_cons.mpr ⟨?_, hlast⟩⟩
      · intro chunk hchunk
        rcases List.mem_cons.mp hchunk with rfl | hchunk
        · exact fun _ _ _ => hcut.meets.ge
        · exact (hafter chunk (hitemLast chunk hchunk)).1
      · exact fun chunk hchunk => (hafter chunk (hitemLast chunk hchunk)).2
    · intro chunk hchunk part hpart
      rcases List.mem_cons.mp hpart with rfl | hpart
      · exact (hbefore chunk (hacross chunk hchunk item List.mem_cons_self)).1
      · rcases List.mem_cons.mp hpart with rfl | hpart
        · exact (hbefore chunk (hacross chunk hchunk item List.mem_cons_self)).2
        · exact hacross chunk hchunk part (List.mem_cons_of_mem _ hpart)
  · intro chunk hchunk part hpart
    rcases List.mem_append.mp hpart with hpart | hpart
    · exact h.after chunk hchunk part (List.mem_append_left _ hpart)
    rcases List.mem_cons.mp hpart with rfl | hpart
    · exact (hbefore chunk (h.after chunk hchunk item hitem)).1
    rcases List.mem_cons.mp hpart with rfl | hpart
    · exact (hbefore chunk (h.after chunk hchunk item hitem)).2
    · exact h.after chunk hchunk part
        (List.mem_append_right _ (List.mem_cons_of_mem _ hpart))
  · obtain ⟨source, hsource, hsourceAudio, hturn, hends⟩ := h.within item hitem haudio
    intro part hpart hpartAudio
    rcases List.mem_append.mp hpart with hpart | hpart
    · exact h.within part (List.mem_append_left _ hpart) hpartAudio
    rcases List.mem_cons.mp hpart with rfl | hpart
    · exact ⟨source, hsource, hsourceAudio, hturn.trans hhead.descends.turn.symm,
        hcut.head_ends.trans hends⟩
    rcases List.mem_cons.mp hpart with rfl | hpart
    · exact ⟨source, hsource, hsourceAudio, hturn.trans htail.descends.turn.symm,
        hcut.ends.le.trans hends⟩
    · exact h.within part (List.mem_append_right _ (List.mem_cons_of_mem _ hpart)) hpartAudio

end Line

/-! ### The first loop, before the input's end -/

namespace Releasing

variable {p : Packer} {leadMs now : ℚ} {r r' : Releasing} {next : Budgeted}

def clocked (r : Releasing) (output : OutputChunk) (now : ℚ) : Releasing :=
  { r with pacer := r.pacer.startClock output now }

/-- What the first loop does with audio that nothing holds back: it stays, leaves within the horizon,
or is cut with its head within the horizon. -/
def Paces (leadMs now : ℚ) (r r' : Releasing) (next : Budgeted) : Prop :=
  r' = r.keep next ∨
  (r' = r.letAudioOut next ∧
    ∀ horizon, r.pacer.horizonMs leadMs now = some horizon → endMs next.1 ≤ horizon) ∨
  ∃ horizon head tail, r.pacer.horizonMs leadMs now = some horizon ∧ Piece next head ∧
    Piece next tail ∧ Cut next.1 head.1 tail.1 (horizon - next.1.tStartMs) ∧
    r' = (r.letAudioOut head).keep tail

theorem paceAudio_paces (haudio : isReplyAudio next.1 = true) (haudible : Audible next.1)
    (h : r.paceAudio p leadMs now next = some r') : Paces leadMs now (r.clocked next.1 now) r' next := by
  obtain ⟨data, hdata, hcontent⟩ := haudible.content
  have hhas : hasContent next.1.payload = true := by
    rw [hdata]
    simpa [hasContent] using hcontent
  unfold paceAudio at h
  simp only at h
  split at h
  · next hnone =>
    cases h
    exact .inr (.inl ⟨rfl, fun horizon hsome => by
      rw [clocked, hnone] at hsome
      cases hsome⟩)
  · next horizon hhorizon =>
    split at h
    · cases h
      exact .inl rfl
    · next hstart =>
      split at h
      · next hends =>
        split at h
        · cases h
        · cases h
          exact .inl rfl
        · next head tail hsplit =>
          cases h
          have hcut := splitAudio_cut haudible (by linarith [not_le.mp hstart])
            (by linarith [hends.1]) hsplit
          obtain ⟨hhead, htail⟩ := splitAudio_pieces haudio hsplit
          exact .inr (.inr ⟨horizon, head, tail, hhorizon, hhead, htail, hcut, rfl⟩)
      · next hends =>
        cases h
        refine .inr (.inl ⟨rfl, fun horizon' hsome => ?_⟩)
        rw [clocked, hhorizon] at hsome
        cases hsome
        exact not_lt.mp fun hlate => hends ⟨hlate, hhas⟩

theorem item_open (hopen : r.pacer.isInputEnded = false)
    (haudible : isReplyAudio next.1 = true → Audible next.1)
    (h : r.item p leadMs now next = some r') :
    r' = r.keep next ∨
    (isReplyAudio next.1 = false ∧ r' = r.letOut next ∧
      r.pacer.awaitsPlayed leadMs now next.1 = false) ∨
    (isReplyAudio next.1 = true ∧ r.held = [] ∧
      Paces leadMs now (r.clocked next.1 now) r' next) := by
  unfold item at h
  split at h
  · cases h
    exact .inl rfl
  · next hfirst =>
    split at h
    · next haudio =>
      have hreply := (Bool.and_eq_true_iff.mp haudio).1
      refine .inr (.inr ⟨hreply, ?_, paceAudio_paces hreply (haudible hreply) h⟩)
      simpa [hreply] using hfirst
    · next hnot =>
      have hreply : isReplyAudio next.1 = false := by
        simpa [hopen] using hnot
      split at h
      · cases h
        exact .inl rfl
      · next hwaits =>
        cases h
        exact .inr (.inl ⟨hreply, rfl, Bool.not_eq_true _ ▸ hwaits⟩)

end Releasing

/-- What holds as the first loop goes through the queue, with `before` the audio that left in earlier
calls: the clock of the turn that plays has come to the end of what left of that turn, or the last
audio that left is of that turn and ends no earlier. -/
structure Paced (leadMs now : ℚ) (before offered : List Budgeted) (r : Releasing)
    (rest : List Budgeted) : Prop where
  isOpen : r.pacer.isInputEnded = false
  audible : ∀ item ∈ r.held ++ rest, isReplyAudio item.1 = true → Audible item.1
  line : Line before offered (r.released ++ (r.held ++ rest))
  started : ∀ t, r.pacer.replyStartedAt = some t → t ≤ now
  clock : ∀ chunk ∈ before ++ r.released, isReplyAudio chunk.1 = true →
    chunk.1.turn = r.pacer.clockTurn → endMs chunk.1 ≤ r.pacer.replyStartMs ∨
      (r.pacer.releasedTurn = r.pacer.clockTurn ∧ endMs chunk.1 ≤ r.pacer.releasedEndMs)
  horizon : ∀ chunk ∈ r.released, isReplyAudio chunk.1 = true →
    chunk.1.turn = r.pacer.clockTurn → ∀ horizon, r.pacer.horizonMs leadMs now = some horizon →
      endMs chunk.1 ≤ horizon

namespace Paced

variable {p : Packer} {leadMs now : ℚ} {before offered rest : List Budgeted} {r r' : Releasing}
  {next : Budgeted}

theorem keep (h : Paced leadMs now before offered r (next :: rest)) :
    Paced leadMs now before offered (r.keep next) rest := by
  have hline : (r.keep next).held ++ rest = r.held ++ next :: rest := by
    simp [Releasing.keep]
  refine ⟨h.isOpen, ?_, ?_, h.started, h.clock, h.horizon⟩
  · rw [hline]
    exact h.audible
  · rw [hline]
    exact h.line

theorem letOut (h : Paced leadMs now before offered r (next :: rest))
    (haudio : isReplyAudio next.1 = false) :
    Paced leadMs now before offered (r.letOut next) rest := by
  have hnext : ∀ chunk ∈ r.released ++ [next], isReplyAudio chunk.1 = true → chunk ∈ r.released := by
    intro chunk hchunk hreply
    rcases List.mem_append.mp hchunk with hchunk | hchunk
    · exact hchunk
    · rw [List.mem_singleton.mp hchunk, haudio] at hreply
      cases hreply
  refine ⟨h.isOpen, ?_, ?_, h.started, ?_, ?_⟩
  · intro item hitem
    refine h.audible item ?_
    rcases List.mem_append.mp hitem with hitem | hitem
    · exact List.mem_append_left _ hitem
    · exact List.mem_append_right _ (List.mem_cons_of_mem _ hitem)
  · refine h.line.of_filter ?_
    simp [Releasing.letOut, haudio]
  · intro chunk hchunk hreply
    refine h.clock chunk ?_ hreply
    rcases List.mem_append.mp hchunk with hchunk | hchunk
    · exact List.mem_append_left _ hchunk
    · exact List.mem_append_right _ (hnext chunk hchunk hreply)
  · exact fun chunk hchunk hreply => h.horizon chunk (hnext chunk hchunk hreply) hreply

theorem letAudioOut (h : Paced leadMs now before offered r (next :: rest))
    (haudio : isReplyAudio next.1 = true) (hheld : r.held = [])
    (hturn : next.1.turn = r.pacer.clockTurn)
    (hends : ∀ horizon, r.pacer.horizonMs leadMs now = some horizon → endMs next.1 ≤ horizon) :
    Paced leadMs now before offered (r.letAudioOut next) rest := by
  have hqueue : r.held ++ next :: rest = next :: rest := by rw [hheld, List.nil_append]
  have hnext : next ∈ r.held ++ next :: rest := by
    rw [hqueue]
    exact List.mem_cons_self
  have hduration := (h.audible next hnext haudio).duration
  have hearlier : ∀ chunk ∈ before ++ r.released, Before chunk next := by
    intro chunk hchunk
    rcases List.mem_append.mp hchunk with hchunk | hchunk
    · exact h.line.after chunk hchunk next (List.mem_append_right _ hnext)
    · exact (List.pairwise_append.mp h.line.chained).2.2 chunk hchunk next hnext
  refine ⟨h.isOpen, ?_, ?_, h.started, ?_, ?_⟩
  · intro item hitem
    refine h.audible item ?_
    rw [hqueue]
    simp only [Releasing.letAudioOut, hheld, List.nil_append] at hitem
    exact List.mem_cons_of_mem _ hitem
  · have hline : (r.letAudioOut next).released ++ ((r.letAudioOut next).held ++ rest) =
        r.released ++ (r.held ++ next :: rest) := by
      simp [Releasing.letAudioOut, hheld]
    rw [hline]
    exact h.line
  · intro chunk hchunk hreply hclock
    refine .inr ⟨hturn, ?_⟩
    have hchunk : chunk ∈ (before ++ r.released) ++ [next] := by
      rw [List.append_assoc]
      exact hchunk
    rcases List.mem_append.mp hchunk with hchunk | hchunk
    · have hbefore := hearlier chunk hchunk hreply haudio (Eq.trans hclock hturn.symm)
      simp only [Releasing.letAudioOut, Pacer.takeAudio]
      linarith
    · rw [List.mem_singleton.mp hchunk]
      exact le_rfl
  · intro chunk hchunk hreply hclock
    rcases List.mem_append.mp hchunk with hchunk | hchunk
    · exact h.horizon chunk hchunk hreply hclock
    · rw [List.mem_singleton.mp hchunk]
      exact hends

theorem clocked (hlead : 0 ≤ leadMs) (h : Paced leadMs now before offered r (next :: rest))
    (haudio : isReplyAudio next.1 = true) :
    Paced leadMs now before offered (r.clocked next.1 now) (next :: rest) := by
  have hnext : next ∈ r.held ++ next :: rest := List.mem_append_right _ List.mem_cons_self
  by_cases hturn : next.1.turn = r.pacer.clockTurn
  · have hsame : r.clocked next.1 now = r := by
      unfold Releasing.clocked Pacer.startClock
      rw [if_neg (not_not.mpr hturn)]
    rw [hsame]
    exact h
  · have hstart : r.clocked next.1 now = { r with pacer := { r.pacer with
        clockTurn := next.1.turn, replyStartMs := next.1.tStartMs,
        replyStartedAt := some now } } := by
      unfold Releasing.clocked Pacer.startClock
      rw [if_pos hturn]
    rw [hstart]
    refine ⟨h.isOpen, h.audible, h.line, ?_, ?_, ?_⟩
    · rintro t ⟨⟩
      exact le_rfl
    · intro chunk hchunk hreply hclock
      refine .inl ?_
      rcases List.mem_append.mp hchunk with hchunk | hchunk
      · exact h.line.after chunk hchunk next (List.mem_append_right _ hnext) hreply haudio hclock
      · exact (List.pairwise_append.mp h.line.chained).2.2 chunk hchunk next hnext hreply haudio
          hclock
    · rintro chunk hchunk hreply hclock horizon ⟨⟩
      have hbefore := (List.pairwise_append.mp h.line.chained).2.2 chunk hchunk next hnext hreply
        haudio hclock
      simp only [sub_self, zero_mul, add_zero]
      linarith

theorem cut {head tail : Budgeted} {headMs : ℚ}
    (h : Paced leadMs now before offered r (next :: rest)) (haudio : isReplyAudio next.1 = true)
    (hheld : r.held = []) (hhead : Piece next head) (htail : Piece next tail)
    (hcut : Cut next.1 head.1 tail.1 headMs) :
    Paced leadMs now before offered r (head :: tail :: rest) := by
  have hline := h.line
  rw [hheld, List.nil_append] at hline
  refine ⟨h.isOpen, ?_, ?_, h.started, h.clock, h.horizon⟩
  · intro item hitem hreply
    rw [hheld, List.nil_append] at hitem
    rcases List.mem_cons.mp hitem with rfl | hitem
    · exact hcut.headAudible
    rcases List.mem_cons.mp hitem with rfl | hitem
    · exact hcut.tailAudible
    · exact h.audible item (List.mem_append_right _ (List.mem_cons_of_mem _ hitem)) hreply
  · rw [hheld, List.nil_append]
    exact hline.cut haudio hhead htail hcut

theorem paces (h : Paced leadMs now before offered r (next :: rest))
    (haudio : isReplyAudio next.1 = true) (hheld : r.held = [])
    (hturn : next.1.turn = r.pacer.clockTurn) (hpaces : Releasing.Paces leadMs now r r' next) :
    Paced leadMs now before offered r' rest := by
  rcases hpaces with rfl | ⟨rfl, hends⟩ | ⟨horizon, head, tail, hhorizon, hhead, htail, hcut, rfl⟩
  · exact h.keep
  · exact h.letAudioOut haudio hheld hturn hends
  · have hheadAudio : isReplyAudio head.1 = true := by
      unfold isReplyAudio at haudio ⊢
      rw [hhead.descends.kind, hhead.format]
      exact haudio
    refine ((h.cut haudio hheld hhead htail hcut).letAudioOut hheadAudio hheld
      (hhead.descends.turn.trans hturn) fun horizon' hsome => ?_).keep
    rw [hhorizon] at hsome
    cases hsome
    have hfits := hcut.fits
    have hstart := hcut.headStart
    unfold endMs
    linarith

theorem item (hlead : 0 ≤ leadMs) (h : Paced leadMs now before offered r (next :: rest))
    (hitem : r.item p leadMs now next = some r') : Paced leadMs now before offered r' rest := by
  have hnext : next ∈ r.held ++ next :: rest := List.mem_append_right _ List.mem_cons_self
  rcases Releasing.item_open h.isOpen (h.audible next hnext) hitem with
    rfl | ⟨haudio, rfl, -⟩ | ⟨haudio, hheld, hpaces⟩
  · exact h.keep
  · exact h.letOut haudio
  · refine (h.clocked hlead haudio).paces haudio hheld ?_ hpaces
    unfold Releasing.clocked Pacer.startClock
    split
    · rfl
    · next hturn => exact not_not.mp hturn

theorem front {front : List Budgeted} (hlead : 0 ≤ leadMs)
    (h : Paced leadMs now before offered r (front ++ rest))
    (hfront : Releasing.items p leadMs now r front = some r') :
    Paced leadMs now before offered r' rest := by
  induction front generalizing r with
  | nil =>
    cases hfront
    exact h
  | cons next front ih =>
    unfold Releasing.items at hfront
    split at hfront
    · cases hfront
    · next r₁ h₁ => exact ih (h.item hlead h₁) hfront

theorem items (hlead : 0 ≤ leadMs) (h : Paced leadMs now before offered r rest)
    (hitems : Releasing.items p leadMs now r rest = some r') :
    Paced leadMs now before offered r' [] :=
  front hlead (by rwa [List.append_nil]) hitems

theorem played (h : Paced leadMs now before offered r rest)
    (hdone : outputControlType next.1 = some turnDone)
    (hturn : next.1.turn = r.pacer.clockTurn)
    (hleaves : r.pacer.awaitsPlayed leadMs now next.1 = false) {chunk : Budgeted}
    (hchunk : chunk ∈ before ++ r.released) (haudio : isReplyAudio chunk.1 = true)
    (hsame : chunk.1.turn = next.1.turn) {played : ℚ}
    (hplayed : r.pacer.playedMs now = some played) : endMs chunk.1 ≤ played := by
  obtain ⟨started, hstarted, rfl⟩ := Option.map_eq_some_iff.mp hplayed
  have hnow := h.started started hstarted
  rcases h.clock chunk hchunk haudio (hsame.trans hturn) with hstart | ⟨hreleased, hend⟩
  · linarith
  · have hhorizon : r.pacer.horizonMs leadMs now =
        some (r.pacer.replyStartMs + (now - started) * 1000 + leadMs) := by
      unfold Pacer.horizonMs
      rw [hstarted]
      rfl
    simp only [Pacer.awaitsPlayed, hdone, h.isOpen, hturn, hreleased, hhorizon, Option.any_some,
      decide_true, Bool.not_false, Bool.true_and, decide_eq_false_iff_not, not_lt] at hleaves
    linarith

end Paced

/-! ### Joined audio -/

def JoinOf (leadMs : ℚ) (group : List Budgeted) (chunk : Budgeted) : Prop :=
  group = [chunk] ∨ (1 < group.length ∧ chunk.1.durationMs ≤ leadMs)

theorem joinAudio_times {previous output joined : Budgeted}
    (h : joinAudio previous output = some joined) :
    joined.1.tStartMs = previous.1.tStartMs ∧
      joined.1.durationMs = previous.1.durationMs + output.1.durationMs ∧
      joined.1.turn = previous.1.turn := by
  unfold joinAudio at h
  split at h
  · cases h
    exact ⟨rfl, rfl, rfl⟩
  · cases h

theorem coalesceFrom_groups {leadMs : ℚ} {rest group coalesced : List Budgeted} {last : Budgeted}
    (hlast : JoinOf leadMs group last) (h : coalesceFrom leadMs last rest = some coalesced) :
    ∃ groups : List (List Budgeted), groups.flatten = group ++ rest ∧
      List.Forall₂ (JoinOf leadMs) groups coalesced := by
  induction rest generalizing last group coalesced with
  | nil =>
    cases h
    exact ⟨[group], by simp, .cons hlast .nil⟩
  | cons next rest ih =>
    unfold coalesceFrom at h
    split at h
    · next hjoins =>
      split at h
      · cases h
      · next joined hjoin =>
        have hlength : 0 < group.length := by
          rcases hlast with rfl | ⟨hlength, -⟩
          · exact Nat.one_pos
          · omega
        have hjoined : JoinOf leadMs (group ++ [next]) joined := by
          refine .inr ⟨by simpa using hlength, ?_⟩
          rw [(joinAudio_times hjoin).2.1]
          exact (joinable_of_joins hjoins).lead
        obtain ⟨groups, hflatten, hgroups⟩ := ih hjoined h
        refine ⟨groups, ?_, hgroups⟩
        rw [hflatten, List.append_assoc, List.singleton_append]
    · split at h
      · cases h
      · next tail htail =>
        cases h
        obtain ⟨groups, hflatten, hgroups⟩ := ih (.inl rfl : JoinOf leadMs [next] next) htail
        refine ⟨group :: groups, ?_, .cons hlast hgroups⟩
        rw [List.flatten_cons, hflatten, List.singleton_append]

theorem coalesce_groups {leadMs : ℚ} {released coalesced : List Budgeted}
    (h : coalesce leadMs released = some coalesced) :
    ∃ groups : List (List Budgeted), groups.flatten = released ∧
      List.Forall₂ (JoinOf leadMs) groups coalesced := by
  cases released with
  | nil =>
    cases h
    exact ⟨[], rfl, .nil⟩
  | cons first rest =>
    exact coalesceFrom_groups (.inl rfl : JoinOf leadMs [first] first) h

theorem coalesceFrom_within {leadMs : ℚ} {rest coalesced : List Budgeted} {last : Budgeted}
    (hchained : (last :: rest).Pairwise Before)
    (h : coalesceFrom leadMs last rest = some coalesced) :
    ∀ chunk ∈ coalesced, isReplyAudio chunk.1 = true → Within (last :: rest) chunk := by
  induction rest generalizing last coalesced with
  | nil =>
    cases h
    intro chunk hchunk haudio
    exact ⟨chunk, hchunk, haudio, rfl, le_rfl⟩
  | cons next rest ih =>
    obtain ⟨hlast, hrest⟩ := List.pairwise_cons.mp hchained
    have hnext := (List.pairwise_cons.mp hrest).1
    unfold coalesceFrom at h
    split at h
    · next hjoins =>
      split at h
      · cases h
      · next joined hjoin =>
        have hj := joinable_of_joins hjoins
        obtain ⟨hstart, hduration, hturn⟩ := joinAudio_times hjoin
        have hends : endMs joined.1 ≤ endMs next.1 := by
          have hmeets := hlast next List.mem_cons_self hj.previousAudio hj.audio hj.turn
          unfold endMs at hmeets ⊢
          rw [hstart, hduration]
          linarith
        have hjoined : (joined :: rest).Pairwise Before := by
          refine List.pairwise_cons.mpr ⟨fun item hitem _ hreply hsame => ?_,
            (List.pairwise_cons.mp hrest).2⟩
          exact hends.trans
            (hnext item hitem hj.audio hreply (hj.turn.symm.trans (hturn.symm.trans hsame)))
        intro chunk hchunk haudio
        obtain ⟨source, hsource, hreply, hsame, hle⟩ := ih hjoined h chunk hchunk haudio
        rcases List.mem_cons.mp hsource with rfl | hsource
        · exact ⟨next, List.mem_cons_of_mem _ List.mem_cons_self, hj.audio,
            hj.turn.symm.trans (hturn.symm.trans hsame), hle.trans hends⟩
        · exact ⟨source, List.mem_cons_of_mem _ (List.mem_cons_of_mem _ hsource), hreply, hsame, hle⟩
    · split at h
      · cases h
      · next tail htail =>
        cases h
        intro chunk hchunk haudio
        rcases List.mem_cons.mp hchunk with rfl | hchunk
        · exact ⟨chunk, List.mem_cons_self, haudio, rfl, le_rfl⟩
        · obtain ⟨source, hsource, hsame⟩ := ih hrest htail chunk hchunk haudio
          exact ⟨source, List.mem_cons_of_mem _ hsource, hsame⟩

theorem coalesce_within {leadMs : ℚ} {released coalesced : List Budgeted}
    (hchained : released.Pairwise Before) (h : coalesce leadMs released = some coalesced) :
    ∀ chunk ∈ coalesced, isReplyAudio chunk.1 = true → Within released chunk := by
  cases released with
  | nil =>
    cases h
    exact fun _ hchunk => by cases hchunk
  | cons first rest => exact coalesceFrom_within hchained h

/-! ### Runs before the input's end -/

/-- The calls before the input's end: audio with something in it that starts after the turn's earlier
audio ended, and releases at times that do not decrease. -/
def Timely (a : Account) : PacerCall → Prop
  | .offer output _ => isReplyAudio output = true → Audible output ∧
      ∀ item ∈ a.offered, isReplyAudio item.1 = true → item.1.turn = output.turn →
        endMs item.1 ≤ output.tStartMs
  | .purge _ => True
  | .endInput => False
  | .release now => ∀ t, a.time = some t → t ≤ now

theorem Timely.isSound {a : Account} {call : PacerCall} (h : Timely a call) :
    call.isSound = true := by
  cases call with
  | offer output size =>
    refine show hasAudioBytes output = true from ?_
    unfold hasAudioBytes
    by_cases haudio : isReplyAudio output = true
    · obtain ⟨data, hdata, -⟩ := (h haudio).1.content
      rw [hdata]
      exact Bool.or_true _
    · simp [haudio]
  | purge turn => rfl
  | endInput => rfl
  | release now => rfl

structure Account.Timed (a : Account) : Prop where
  isOpen : a.pacer.isInputEnded = false
  audible : ∀ item ∈ a.pacer.items, isReplyAudio item.1 = true → Audible item.1
  line : Line a.released a.offered a.pacer.items
  within : ∀ chunk ∈ a.released, isReplyAudio chunk.1 = true → Within a.offered chunk
  started : ∀ t, a.pacer.replyStartedAt = some t → ∃ now, a.time = some now ∧ t ≤ now
  clock : ∀ chunk ∈ a.released, isReplyAudio chunk.1 = true →
    chunk.1.turn = a.pacer.clockTurn → endMs chunk.1 ≤ a.pacer.replyStartMs ∨
      (a.pacer.releasedTurn = a.pacer.clockTurn ∧ endMs chunk.1 ≤ a.pacer.releasedEndMs)

namespace Account.Timed

variable {p : Packer} {leadMs now : ℚ} {a : Account}

theorem init : Account.Timed {} where
  isOpen := rfl
  audible _ hitem := by cases hitem
  line := ⟨.nil, fun _ hchunk => (by cases hchunk), fun _ hitem => (by cases hitem)⟩
  within _ hchunk := by cases hchunk
  started _ ht := by cases ht
  clock _ hchunk := by cases hchunk

theorem paced (h : a.Timed) (leadMs : ℚ) (hnow : ∀ t, a.time = some t → t ≤ now) :
    Paced leadMs now a.released a.offered { pacer := a.pacer } a.pacer.items where
  isOpen := h.isOpen
  audible := h.audible
  line := h.line
  started t ht := by
    obtain ⟨time, htime, hle⟩ := h.started t ht
    exact hle.trans (hnow time htime)
  clock chunk hchunk := h.clock chunk (by simpa using hchunk)
  horizon _ hchunk := by cases hchunk

theorem release_eq (h : a.Timed) (hkept : a.Kept) (hlead : 0 ≤ leadMs)
    (hnow : ∀ t, a.time = some t → t ≤ now) (p : Packer) :
    ∃ r released, Releasing.items p leadMs now { pacer := a.pacer } a.pacer.items = some r ∧
      Paced leadMs now a.released a.offered r [] ∧ coalesce leadMs r.released = some released ∧
      a.pacer.release p leadMs now = ({ r.pacer with items := r.held }, some released) := by
  obtain ⟨r, hr, hreshapes⟩ :=
    Releasing.items_reshapes p leadMs now { pacer := a.pacer } hkept.sound
  obtain ⟨released, hreleased, -⟩ := coalesce_reshapes leadMs
    (sound_append.mp (hreshapes.sound hkept.sound)).1
  refine ⟨r, released, hr, (h.paced leadMs hnow).items hlead hr, hreleased, ?_⟩
  unfold Pacer.release
  simp only [hr, hreleased]

theorem release (h : a.Timed) (hkept : a.Kept) (hlead : 0 ≤ leadMs)
    (hnow : ∀ t, a.time = some t → t ≤ now) : (a.release p leadMs now).Timed := by
  obtain ⟨r, released, -, hpaced, hreleased, hrelease⟩ := h.release_eq hkept hlead hnow p
  have hline := hpaced.line
  rw [List.append_nil] at hline
  obtain ⟨hchained, hheld, hacross⟩ := List.pairwise_append.mp hline.chained
  have hpiece := coalesce_within hchained hreleased
  have hstate : a.release p leadMs now = { a with
      pacer := { r.pacer with items := r.held }
      time := some now
      released := a.released ++ released } := by
    unfold Account.release
    rw [hrelease]
  rw [hstate]
  refine ⟨hpaced.isOpen, ?_, ⟨hheld, ?_, ?_⟩, ?_, fun t ht => ⟨now, rfl, hpaced.started t ht⟩, ?_⟩
  · exact fun item hitem => hpaced.audible item (List.mem_append_left _ hitem)
  · intro chunk hchunk item hitem haudio hreply hturn
    rcases List.mem_append.mp hchunk with hchunk | hchunk
    · exact hline.after chunk hchunk item (List.mem_append_right _ hitem) haudio hreply hturn
    · obtain ⟨piece, hmem, hpieceAudio, hsame, hle⟩ := hpiece chunk hchunk haudio
      exact hle.trans (hacross piece hmem item hitem hpieceAudio hreply (hsame.trans hturn))
  · exact fun item hitem => hline.within item (List.mem_append_right _ hitem)
  · intro chunk hchunk haudio
    rcases List.mem_append.mp hchunk with hchunk | hchunk
    · exact h.within chunk hchunk haudio
    · obtain ⟨piece, hmem, hpieceAudio, hsame, hle⟩ := hpiece chunk hchunk haudio
      obtain ⟨source, hsource, hreply, hturn, hends⟩ :=
        hline.within piece (List.mem_append_left _ hmem) hpieceAudio
      exact ⟨source, hsource, hreply, hturn.trans hsame, hle.trans hends⟩
  · intro chunk hchunk haudio hturn
    rcases List.mem_append.mp hchunk with hchunk | hchunk
    · exact hpaced.clock chunk (List.mem_append_left _ hchunk) haudio hturn
    · obtain ⟨piece, hmem, hpieceAudio, hsame, hle⟩ := hpiece chunk hchunk haudio
      rcases hpaced.clock piece (List.mem_append_right _ hmem) hpieceAudio (hsame.trans hturn) with
        hstart | ⟨hreleasedTurn, hend⟩
      · exact .inl (hle.trans hstart)
      · exact .inr ⟨hreleasedTurn, hle.trans hend⟩

theorem purge (h : a.Timed) (turn : Option Turn) : (a.purge turn).Timed := by
  have hsub := Account.Kept.sublist_purge a turn
  have hclock : (a.pacer.purge turn).isInputEnded = a.pacer.isInputEnded ∧
      (a.pacer.purge turn).replyStartedAt = a.pacer.replyStartedAt ∧
      (a.pacer.purge turn).replyStartMs = a.pacer.replyStartMs ∧
      (a.pacer.purge turn).clockTurn = a.pacer.clockTurn ∧
      (a.pacer.purge turn).releasedTurn = a.pacer.releasedTurn ∧
      (a.pacer.purge turn).releasedEndMs = a.pacer.releasedEndMs := by
    cases turn <;> exact ⟨rfl, rfl, rfl, rfl, rfl, rfl⟩
  obtain ⟨hended, hstartedAt, hstart, hturn, hreleasedTurn, hend⟩ := hclock
  refine ⟨hended.trans h.isOpen, fun item hitem => h.audible item (hsub.subset hitem),
    ⟨h.line.chained.sublist hsub, ?_, ?_⟩, h.within, ?_, ?_⟩
  · exact fun chunk hchunk item hitem => h.line.after chunk hchunk item (hsub.subset hitem)
  · exact fun item hitem => h.line.within item (hsub.subset hitem)
  · exact fun t ht => h.started t (hstartedAt.symm.trans ht)
  · intro chunk hchunk haudio hsame
    simp only [Account.purge, hturn, hstart, hreleasedTurn, hend] at hsame ⊢
    exact h.clock chunk hchunk haudio hsame

theorem queue (h : a.Timed) (item : Budgeted)
    (haudible : isReplyAudio item.1 = true → Audible item.1)
    (hlater : ∀ earlier ∈ a.offered, Before earlier item) :
    Account.Timed { a with
      pacer := { a.pacer with items := a.pacer.items ++ [item] }
      offered := a.offered ++ [item]
      log := a.log ++ marks item.1 } := by
  have hafter : ∀ chunk, (isReplyAudio chunk.1 = true → Within a.offered chunk) →
      Before chunk item := by
    intro chunk hwithin haudio hreply hturn
    obtain ⟨source, hsource, hsourceAudio, hsame, hle⟩ := hwithin haudio
    exact hle.trans (hlater source hsource hsourceAudio hreply (hsame.trans hturn))
  have hwider : ∀ chunk, Within a.offered chunk → Within (a.offered ++ [item]) chunk :=
    fun _ ⟨source, hsource, hrest⟩ => ⟨source, List.mem_append_left _ hsource, hrest⟩
  refine ⟨h.isOpen, ?_, ⟨?_, ?_, ?_⟩, ?_, h.started, h.clock⟩
  · intro part hpart hreply
    rcases List.mem_append.mp hpart with hpart | hpart
    · exact h.audible part hpart hreply
    · rw [List.mem_singleton.mp hpart] at hreply ⊢
      exact haudible hreply
  · refine List.pairwise_append.mpr ⟨h.line.chained, List.pairwise_singleton _ _, ?_⟩
    intro chunk hchunk part hpart
    rw [List.mem_singleton.mp hpart]
    exact hafter chunk (h.line.within chunk hchunk)
  · intro chunk hchunk part hpart
    rcases List.mem_append.mp hpart with hpart | hpart
    · exact h.line.after chunk hchunk part hpart
    · rw [List.mem_singleton.mp hpart]
      exact hafter chunk (h.within chunk hchunk)
  · intro part hpart hreply
    rcases List.mem_append.mp hpart with hpart | hpart
    · exact hwider part (h.line.within part hpart hreply)
    · rw [List.mem_singleton.mp hpart] at hreply ⊢
      exact ⟨item, List.mem_append_right _ List.mem_cons_self, hreply, rfl, le_rfl⟩
  · exact fun chunk hchunk haudio => hwider chunk (h.within chunk hchunk haudio)

theorem offer (h : a.Timed) {output : OutputChunk} {size : Nat}
    (htimely : Timely a (.offer output size)) : (a.offer output size).Timed := by
  unfold Account.offer
  split
  · exact h
  · have hqueued : Account.Timed _ := (h.purge (Account.purgedBy output)).queue (output, size)
      (fun haudio => (htimely haudio).1)
      (fun earlier hearlier hfirst hreply => (htimely hreply).2 earlier hearlier hfirst)
    have hreturned : a.pacer.offered output = a.pacer.purged (Account.purgedBy output) := by
      unfold Pacer.offered Pacer.purged
      rw [Account.Kept.beforeOffer_eq]
    rw [hreturned, Pacer.offer, Account.Kept.beforeOffer_eq]
    exact hqueued

end Account.Timed

theorem Account.timed_of_reaches {p : Packer} {leadMs : ℚ} {a : Account} (hlead : 0 ≤ leadMs)
    (h : (pacing p leadMs).Reaches Timely a) : a.Kept ∧ a.Timed := by
  refine h.invariant (P := fun a => a.Kept ∧ a.Timed) ⟨.init, .init⟩ ?_
  rintro a call a' ⟨hkept, htimed⟩ htimely ⟨⟩
  refine ⟨hkept.call htimely.isSound, ?_⟩
  cases call with
  | offer output size => exact htimed.offer htimely
  | purge turn => exact htimed.purge turn
  | endInput => exact htimely.elim
  | release now => exact htimed.release hkept hlead htimely

/-- In every run before the input's end, a `release` lets audio of the clock's turn out only up to the
lead past the clock; a chunk that joins pieces lasts at most the lead; and a `turn.done` of the turn
whose clock runs when the loop comes to it leaves only once that clock has reached the end of all
audio of the turn that left. -/
theorem release_within_lead {p : Packer} {leadMs now : ℚ} {a : Account} (hlead : 0 ≤ leadMs)
    (h : (pacing p leadMs).Reaches Timely a) (hnow : ∀ t, a.time = some t → t ≤ now) :
    ∃ r released, Releasing.items p leadMs now { pacer := a.pacer } a.pacer.items = some r ∧
      a.pacer.release p leadMs now = ({ r.pacer with items := r.held }, some released) ∧
      (∀ chunk ∈ released, isReplyAudio chunk.1 = true → chunk.1.turn = r.pacer.clockTurn →
        ∀ horizon, r.pacer.horizonMs leadMs now = some horizon → endMs chunk.1 ≤ horizon) ∧
      (∃ groups : List (List Budgeted), groups.flatten = r.released ∧
        List.Forall₂ (JoinOf leadMs) groups released) ∧
      ∀ front item back r₁ r₂, a.pacer.items = front ++ item :: back →
        Releasing.items p leadMs now { pacer := a.pacer } front = some r₁ →
        r₁.item p leadMs now item = some r₂ → r₂.released = r₁.released ++ [item] →
        outputControlType item.1 = some turnDone → item.1.turn = r₁.pacer.clockTurn →
        ∀ chunk ∈ a.released ++ r₁.released, isReplyAudio chunk.1 = true →
          chunk.1.turn = item.1.turn →
          ∀ played, r₁.pacer.playedMs now = some played → endMs chunk.1 ≤ played := by
  obtain ⟨hkept, htimed⟩ := Account.timed_of_reaches hlead h
  obtain ⟨r, released, hr, hpaced, hreleased, hrelease⟩ := htimed.release_eq hkept hlead hnow p
  refine ⟨r, released, hr, hrelease, ?_, coalesce_groups hreleased, ?_⟩
  · intro chunk hchunk haudio hturn horizon hhorizon
    have hchained := (List.pairwise_append.mp hpaced.line.chained).1
    obtain ⟨piece, hmem, hpieceAudio, hsame, hle⟩ :=
      coalesce_within hchained hreleased chunk hchunk haudio
    exact hle.trans
      (hpaced.horizon piece hmem hpieceAudio (hsame.trans hturn) horizon hhorizon)
  · intro front item back r₁ r₂ hitems hfront hitem hleaves hdone hturn chunk hchunk haudio hsame
      played hplayed
    have hreached : Paced leadMs now a.released a.offered r₁ (item :: back) := by
      have hstart := htimed.paced leadMs hnow
      rw [hitems] at hstart
      exact hstart.front hlead hfront
    have hmem : item ∈ r₁.held ++ item :: back := List.mem_append_right _ List.mem_cons_self
    rcases Releasing.item_open hreached.isOpen (hreached.audible item hmem) hitem with
      rfl | ⟨-, -, hwaits⟩ | ⟨hreply, -, -⟩
    · have hlength := congrArg List.length hleaves
      simp [Releasing.keep] at hlength
    · exact hreached.played hdone hturn hwaits hchunk haudio hsame hplayed
    · rw [outputControlType, controlTypeOf_audio (Bool.and_eq_true_iff.mp hreply).2] at hdone
      cases hdone

def timelyCheck (a : Account) : PacerCall → Bool
  | .offer output _ =>
    !isReplyAudio output ||
      (isBytes output.payload && hasContent output.payload && decide (0 ≤ output.durationMs) &&
        a.offered.all fun item =>
          !isReplyAudio item.1 || decide (item.1.turn = output.turn → endMs item.1 ≤ output.tStartMs))
  | .purge _ => true
  | .endInput => false
  | .release now => a.time.all fun t => decide (t ≤ now)

theorem timely_of_check {a : Account} {call : PacerCall} (h : timelyCheck a call = true) :
    Timely a call := by
  cases call with
  | purge turn => trivial
  | endInput => cases h
  | release now =>
    intro t ht
    simpa [timelyCheck, ht] using h
  | offer output size =>
    intro haudio
    simp only [timelyCheck, haudio, Bool.not_true, Bool.false_or, Bool.and_eq_true,
      decide_eq_true_eq, List.all_eq_true, Bool.or_eq_true, Bool.not_eq_true'] at h
    obtain ⟨⟨⟨hbytes, hcontent⟩, hduration⟩, hlater⟩ := h
    refine ⟨⟨?_, hduration⟩, fun item hitem hreply => ?_⟩
    · cases hpayload : output.payload with
      | none => simp [hpayload, isBytes] at hbytes
      | dict fields => simp [hpayload, isBytes] at hbytes
      | bytes data => exact ⟨data, rfl, by simpa [hpayload, hasContent] using hcontent⟩
    · rcases hlater item hitem with hnot | hle
      · rw [hreply] at hnot
        cases hnot
      · exact hle

theorem reaches_of_check (p : Packer) (leadMs : ℚ) (calls : List PacerCall)
    (h : ((pacing p leadMs).execWhere timelyCheck {} calls).isSome = true) :
    (pacing p leadMs).Reaches Timely (calls.foldl (Account.call p leadMs) {}) := by
  obtain ⟨a, ha⟩ := Option.isSome_iff_exists.mp h
  have hstate : ∀ (calls : List PacerCall) (s a : Account),
      (pacing p leadMs).execWhere timelyCheck s calls = some a →
      a = calls.foldl (Account.call p leadMs) s := by
    intro calls
    induction calls with
    | nil =>
      intro s a ha
      cases ha
      rfl
    | cons call rest ih =>
      intro s a ha
      simp only [Lib.Machine.execWhere, List.foldlM_cons, bind, Option.bind_eq_some_iff] at ha
      obtain ⟨t, ht, hrest⟩ := ha
      split at ht
      · cases ht
        exact ih _ a hrest
      · cases ht
  rw [← hstate calls {} a ha]
  exact Lib.Machine.path_of_execWhere (fun _ _ h => timely_of_check h) ha

/-- The pacer with two chunks of a reply and its `turn.done`, of which 150 ms have left. -/
def leadAccount : Account :=
  (shortCalls.take 4).foldl (Account.call ⟨fun _ => [], fun _ => []⟩ 150) {}

theorem release_within_lead_reply : ∃ pacer released,
    leadAccount.pacer.release ⟨fun _ => [], fun _ => []⟩ 150 (1 / 5) = (pacer, some released) ∧
    pacer.horizonMs 150 (1 / 5) = some 350 ∧
    ∀ chunk ∈ released, isReplyAudio chunk.1 = true → chunk.1.turn = pacer.clockTurn →
      endMs chunk.1 ≤ 350 := by
  have hrun : (pacing ⟨fun _ => [], fun _ => []⟩ 150).Reaches Timely leadAccount :=
    reaches_of_check _ _ _ (by decide +kernel)
  have hnow : ∀ t, leadAccount.time = some t → t ≤ 1 / 5 := by
    have htime : leadAccount.time = some 0 := by decide +kernel
    intro t ht
    rw [htime] at ht
    cases ht
    norm_num
  have hclock : (leadAccount.pacer.release ⟨fun _ => [], fun _ => []⟩ 150 (1 / 5)).1.horizonMs 150
      (1 / 5) = some 350 := by
    decide +kernel
  obtain ⟨r, released, -, hrelease, hwithin, -⟩ :=
    release_within_lead (by norm_num) hrun hnow
  rw [hrelease] at hclock
  exact ⟨_, released, hrelease, hclock, fun chunk hchunk haudio hturn =>
    hwithin chunk hchunk haudio hturn 350 hclock⟩

/-- Audio of one turn, and once it left the audio of another turn and the `turn.done` of the first. -/
def crossedCalls : List PacerCall :=
  [.offer (shortAudio 0 [1, 2, 3, 4] false) 10, .release 0,
    .offer { shortAudio 0 [5, 6, 7, 8] false with turn := some 2 } 10,
    .offer (replyControl turnDone 1) 5]

def crossedAccount : Account :=
  crossedCalls.foldl (Account.call ⟨fun _ => [], fun _ => []⟩ 250) {}

/-- The `turn.done` of a turn leaves at once where another turn's audio came before it, though 100 ms
of its audio left and its clock shows none of it played. -/
theorem turn_end_leaves_unplayed :
    (pacing ⟨fun _ => [], fun _ => []⟩ 250).Reaches Timely crossedAccount ∧
    crossedAccount.time = some 0 ∧
    (crossedAccount.released.map fun item => (item.1.turn, endMs item.1)) = [(some 1, 100)] ∧
    crossedAccount.pacer.clockTurn = some 1 ∧ crossedAccount.pacer.playedMs 0 = some 0 ∧
    ((crossedAccount.pacer.release ⟨fun _ => [], fun _ => []⟩ 250 0).2.map fun released =>
      released.map fun item => (item.1.turn, outputControlType item.1)) =
        some [(some 2, none), (some 1, some turnDone)] := by
  refine ⟨reaches_of_check _ _ _ (by decide +kernel), ?_⟩
  decide +kernel

end Session
