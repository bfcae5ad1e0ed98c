import SglangOmni.Lib.Lists
import SglangOmni.Route.Budget

/-! The order of appends and controls on a session.  The pump stops before the first barrier, and an
ordered control goes out when its barrier is the first and the appends before it are over, or submitted
where it preempts them.  `controls_in_order` reads off the log of every run what that amounts to. -/

namespace Route

open Lib Proto Session

variable {cfg : Config} {s s' : State}

/-- An append is over: it completed, or an interrupt of a graph took it off the node. -/
def Done (cfg : Config) (log : List Event) (seq : Nat) : Prop :=
  .completed seq ∈ log ∨ (cfg.isNode = true ∧ .dropped seq ∈ log)

def Settled (cfg : Config) (log : List Event) (shouldPreempt : Bool) (seq : Nat) : Prop :=
  Done cfg log seq ∨ (shouldPreempt = true ∧ .submitted seq ∈ log)

/-- How an event stands to those before it.  An ordered control is sent once every append accepted
before its call is settled, and after the ordered controls called before it; an append accepted after
the call of a control is submitted once that control is finished. -/
structure InOrder (cfg : Config) (before : List Event) (e : Event) : Prop where
  afterAppends : ∀ i owner shouldPreempt, e = .sent i owner shouldPreempt true →
    ∀ seq, Precedes before (.accepted seq) (.called i) → Settled cfg before shouldPreempt seq
  beforeAppends : ∀ seq, e = .submitting seq ∨ e = .submitted seq →
    ∀ i, Precedes before (.called i) (.accepted seq) → .finished i ∈ before
  amongControls : ∀ i owner shouldPreempt, e = .sent i owner shouldPreempt true →
    ∀ j owner' shouldPreempt', .sent j owner' shouldPreempt' true ∈ before →
      j = i ∨ Precedes before (.called j) (.called i)

/-! ### Appends -/

/-- The numbers of the appends: those that are not over are in order, and while the session is open
every other accepted one is over. -/
structure Numbered (cfg : Config) (s : State) : Prop where
  sorted : (s.unfinished.map fun p => p.chunk.seq).Pairwise (· < ·)
  below : ∀ p ∈ s.unfinished, p.chunk.seq < s.nextInput
  accepted : ∀ seq, .accepted seq ∈ s.log → seq < s.nextInput
  flight : s.inFlightAppend = none → s.pump.held = none
  submitted : ∀ p, s.pump.held = some p → s.inFlightAppend = some .submitted →
    .submitted p.chunk.seq ∈ s.log
  settled : s.isClosing = false → ∀ seq < s.nextInput,
    Done cfg s.log seq ∨ ∃ p ∈ s.unfinished, p.chunk.seq = seq
  failing : ∀ p, s.pump = .failing p → s.isClosing = true

theorem Done.append {log : List Event} {seq : Nat} (h : Done cfg log seq) (rest : List Event) :
    Done cfg (log ++ rest) seq :=
  h.imp (List.mem_append_left _) fun ⟨hnode, hmem⟩ => ⟨hnode, List.mem_append_left _ hmem⟩

theorem Settled.append {log : List Event} {shouldPreempt : Bool} {seq : Nat}
    (h : Settled cfg log shouldPreempt seq) (rest : List Event) :
    Settled cfg (log ++ rest) shouldPreempt seq :=
  h.imp (·.append rest) fun ⟨hpreempt, hmem⟩ => ⟨hpreempt, List.mem_append_left _ hmem⟩

theorem Numbered.closing (h : Numbered cfg s) : Numbered cfg s.closing :=
  ⟨h.sorted, h.below, h.accepted, h.flight, h.submitted, (fun hopen => by cases hopen), fun _ _ => rfl⟩

theorem Numbered.record (h : Numbered cfg s) {e : Event} (he : ∀ seq, e ≠ .accepted seq) :
    Numbered cfg (s.record e) := by
  refine ⟨h.sorted, h.below, fun seq hseq => ?_, h.flight, fun p hp hf => ?_, fun hopen seq hseq => ?_,
    h.failing⟩
  · rcases List.mem_append.mp hseq with hseq | hseq
    · exact h.accepted seq hseq
    · exact absurd (List.mem_singleton.mp hseq).symm (he seq)
  · exact List.mem_append_left _ (h.submitted p hp hf)
  · exact (h.settled hopen seq hseq).imp_left (·.append [e])

theorem Numbered.accept (h : Numbered cfg s) {p : PendingChunk} (hseq : p.chunk.seq = s.nextInput) :
    Numbered cfg (s.accept p) := by
  have hunfinished : (s.accept p).unfinished = s.unfinished ++ [p] :=
    (List.append_assoc _ _ _).symm
  refine ⟨?_, fun q hq => ?_, fun seq hmem => ?_, h.flight, fun q hq hf => ?_, fun hopen seq hlt => ?_,
    h.failing⟩
  · rw [hunfinished, List.map_append, List.pairwise_append]
    refine ⟨h.sorted, List.pairwise_singleton _ _, fun n hn m hm => ?_⟩
    obtain ⟨q, hq, rfl⟩ := List.mem_map.mp hn
    rw [List.mem_singleton.mp hm]
    exact (h.below q hq).trans_eq hseq.symm
  · rw [hunfinished] at hq
    rcases List.mem_append.mp hq with hq | hq
    · exact (h.below q hq).trans (Nat.lt_succ_self _)
    · rw [List.mem_singleton.mp hq, hseq]
      exact Nat.lt_succ_self _
  · rcases List.mem_append.mp hmem with hmem | hmem
    · exact (h.accepted seq hmem).trans (Nat.lt_succ_self _)
    · cases List.mem_singleton.mp hmem
      rw [hseq]
      exact Nat.lt_succ_self _
  · exact List.mem_append_left _ (h.submitted q hq hf)
  · rw [hunfinished]
    rcases Nat.lt_succ_iff_lt_or_eq.mp hlt with hlt | rfl
    · obtain hdone | ⟨q, hq, hqseq⟩ := h.settled hopen seq hlt
      · exact .inl (hdone.append _)
      · exact .inr ⟨q, List.mem_append_left _ hq, hqseq⟩
    · exact .inr ⟨p, List.mem_append_right _ (List.mem_singleton_self p), hseq⟩

theorem Numbered.take (h : Numbered cfg s) {p : PendingChunk} {rest : List PendingChunk}
    (hpump : s.pump = .ready) (hpending : s.pending = p :: rest) : Numbered cfg (s.take p rest) := by
  have hrecord := h.record (e := .submitting p.chunk.seq) fun _ he => by cases he
  have hsame : (s.take p rest).unfinished = s.unfinished := by
    simp only [State.unfinished, State.take, hpump, hpending]
    rfl
  refine ⟨?_, ?_, hrecord.accepted, (fun hf => by cases hf), (fun _ _ hf => by cases hf),
    fun hopen seq hlt => ?_, (fun _ hf => by cases hf)⟩
  · rw [hsame]
    exact h.sorted
  · rw [hsame]
    exact h.below
  · rw [hsame]
    exact hrecord.settled hopen seq hlt

theorem Numbered.release (h : Numbered cfg s) {p : PendingChunk} {pump : Pump}
    (hheld : s.pump.held = some p) (hnext : pump.held = none)
    (hdone : s.isClosing = false → Done cfg s.log p.chunk.seq) :
    Numbered cfg (s.release p pump) := by
  have hold : s.unfinished = p :: s.pending := by simp only [State.unfinished, hheld]; rfl
  have hnew : (s.release p pump).unfinished = s.pending := by
    simp only [State.unfinished, State.release, hnext]
    rfl
  have hsorted := h.sorted
  rw [hold, List.map_cons] at hsorted
  refine ⟨?_, fun q hq => ?_, h.accepted, fun _ => hnext, fun q hq => ?_, fun hopen seq hlt => ?_,
    fun q hq => ?_⟩
  · rw [hnew]
    exact (List.pairwise_cons.mp hsorted).2
  · rw [hnew] at hq
    exact h.below q (hold ▸ List.mem_cons_of_mem _ hq)
  · cases hnext.symm.trans hq
  · rw [hnew]
    obtain hdone' | ⟨q, hq, hqseq⟩ := h.settled hopen seq hlt
    · exact .inl hdone'
    · rw [hold] at hq
      rcases List.mem_cons.mp hq with rfl | hq
      · exact .inl (hqseq ▸ hdone hopen)
      · exact .inr ⟨q, hq, hqseq⟩
  · rw [show pump = .failing q from hq] at hnext
    cases hnext

theorem Numbered.keep (h : Numbered cfg s) (hnode : cfg.isNode = true)
    (kept : PendingChunk → Bool) : Numbered cfg (s.keep kept) := by
  have hsub : (s.keep kept).unfinished.Sublist s.unfinished :=
    (List.Sublist.refl _).append (List.filter_sublist (p := kept) (l := s.pending))
  refine ⟨h.sorted.sublist (hsub.map _), fun q hq => h.below q (hsub.subset hq), fun seq hmem => ?_,
    h.flight, fun q hq hf => List.mem_append_left _ (h.submitted q hq hf), fun hopen seq hlt => ?_,
    h.failing⟩
  · rcases List.mem_append.mp hmem with hmem | hmem
    · exact h.accepted seq hmem
    · obtain ⟨q, -, hq⟩ := List.mem_map.mp hmem
      cases hq
  · obtain hdone | ⟨q, hq, hqseq⟩ := h.settled hopen seq hlt
    · exact .inl (hdone.append _)
    · rcases List.mem_append.mp hq with hq | hq
      · exact .inr ⟨q, List.mem_append_left _ hq, hqseq⟩
      · cases hkept : kept q with
        | true =>
          exact .inr ⟨q, List.mem_append_right _ (List.mem_filter.mpr ⟨hq, hkept⟩), hqseq⟩
        | false =>
          refine .inl (.inr ⟨hnode, List.mem_append_right _ (List.mem_map.mpr ⟨q, ?_, ?_⟩)⟩)
          · exact List.mem_filter.mpr ⟨hq, by rw [hkept]; rfl⟩
          · rw [hqseq]

theorem Numbered.setPump (h : Numbered cfg s) {pump : Pump} (hheld : pump.held = s.pump.held)
    (hfailing : ∀ p, pump = .failing p → s.isClosing = true) :
    Numbered cfg { s with pump := pump } := by
  have hsame : ({ s with pump := pump } : State).unfinished = s.unfinished := by
    simp only [State.unfinished, hheld]
  refine ⟨?_, ?_, h.accepted, fun hf => hheld.trans (h.flight hf),
    fun p hp hf => h.submitted p (hheld.symm.trans hp) hf, ?_, hfailing⟩
  · rw [hsame]
    exact h.sorted
  · rw [hsame]
    exact h.below
  · rw [hsame]
    exact h.settled

theorem Numbered.move {a : Action} (h : Numbered cfg s) (hlife : LifeKept s)
    (hmove : Move cfg s a s') : Numbered cfg s' := by
  cases hmove with
  | closes => exact h.closing
  | opens hopening =>
    have hready : Numbered cfg { s with pump := .ready } :=
      h.setPump (by rw [(hlife.opening hopening).1]; rfl) fun _ hf => by cases hf
    exact ⟨hready.sorted, hready.below, hready.accepted, hready.flight, hready.submitted,
      hready.settled, hready.failing⟩
  | openFails =>
    have hclosing := h.closing
    exact ⟨hclosing.sorted, hclosing.below, hclosing.accepted, hclosing.flight, hclosing.submitted,
      hclosing.settled, hclosing.failing⟩
  | append _ hseq => exact h.accept hseq
  | takes hpump hpending => exact h.take hpump hpending
  | @submits _ p hpump =>
    have hrecord := h.record (e := .submitted p.chunk.seq) fun _ he => by cases he
    refine ⟨h.sorted, h.below, hrecord.accepted, (fun hf => by cases hf), fun q hq _ => ?_,
      hrecord.settled, h.failing⟩
    have hheld : s.pump.held = some p := by rw [hpump]; rfl
    cases hheld.symm.trans hq
    exact List.mem_append_right _ (List.mem_singleton_self _)
  | @submitFails _ p hpump =>
    exact h.closing.release (show s.pump.held = some p by rw [hpump]; rfl) rfl
      fun hopen => by cases hopen
  | @completes _ p hpump =>
    refine (h.record (e := .completed p.chunk.seq) fun _ he => by cases he).release
      (show s.pump.held = some p by rw [hpump]; rfl) rfl fun _ => .inl ?_
    exact List.mem_append_right _ (List.mem_singleton_self _)
  | @completesFull _ p hpump =>
    refine (h.record (e := .completed p.chunk.seq) fun _ he => by cases he).closing.release
      (show s.pump.held = some p by rw [hpump]; rfl) rfl fun hopen => by cases hopen
  | @operationFails _ p hpump =>
    exact h.closing.setPump (show _ = s.pump.held by rw [hpump]; rfl) fun _ _ => rfl
  | @pumpEnds _ p hpump =>
    have hclosing : s.isClosing = true := by
      rcases hpump with hpump | ⟨-, hcleanup⟩
      · exact h.failing p hpump
      · exact hlife.cleanup (by rw [hcleanup]; decide)
    refine h.release ?_ rfl fun hopen => by cases hopen.symm.trans hclosing
    rcases hpump with hpump | ⟨hpump, -⟩
    · rw [hpump]
      rfl
    · rw [hpump]
      rfl
  | exits hpump => exact h.setPump (by rw [hpump]; rfl) fun _ hf => by cases hf
  | exitsIdle hpump =>
    exact h.closing.setPump (show _ = s.pump.held by rw [hpump]; rfl) fun _ hf => by cases hf
  | calls =>
    have hrecord := h.record (e := .called s.calls.length) fun _ he => by cases he
    exact ⟨h.sorted, h.below, hrecord.accepted, h.flight, hrecord.submitted, hrecord.settled, h.failing⟩
  | @sends _ i call owner =>
    have hrecord := h.record (e := .sent i owner call.shouldPreempt call.isOrdered)
      fun _ he => by cases he
    exact ⟨h.sorted, h.below, hrecord.accepted, h.flight, hrecord.submitted, hrecord.settled, h.failing⟩
  | @ends _ i =>
    have hrecord := h.record (e := .finished i) fun _ he => by cases he
    exact ⟨h.sorted, h.below, hrecord.accepted, h.flight, hrecord.submitted, hrecord.settled, h.failing⟩
  | @fails _ i =>
    have hrecord := h.closing.record (e := .finished i) fun _ he => by cases he
    exact ⟨h.sorted, h.below, hrecord.accepted, h.flight, hrecord.submitted, hrecord.settled,
      hrecord.failing⟩
  | fence hnode => exact h.keep hnode _
  | cleanupStarts =>
    have hclosing := h.closing
    exact ⟨hclosing.sorted, hclosing.below, hclosing.accepted, hclosing.flight, hclosing.submitted,
      hclosing.settled, hclosing.failing⟩
  | drops hcleanup hpump =>
    have hclosing := hlife.cleanup hcleanup
    have hheld : s.pump.held = none := by
      rcases hpump with hpump | hpump
      · rw [hpump]
        rfl
      · rw [hpump]
        rfl
    have hnone : s.dropPending.unfinished = [] := by
      simp only [State.unfinished, State.dropPending, hheld]
      rfl
    refine ⟨?_, fun p hp => ?_, h.accepted, h.flight, h.submitted, fun hopen => ?_, h.failing⟩
    · rw [hnone]
      exact List.Pairwise.nil
    · rw [hnone] at hp
      cases hp
    · cases hopen.symm.trans hclosing
  | _ =>
    exact ⟨h.sorted, h.below, h.accepted, h.flight, h.submitted, h.settled, h.failing⟩

theorem Numbered.settled_of_mayGo (h : Numbered cfg s) {i : Nat} {call : Call}
    (hopen : s.isClosing = false) (hle : call.arrivedAt ≤ s.nextInput)
    (hmay : s.mayGo i call = true) :
    ∀ seq < call.arrivedAt, Settled cfg s.log call.shouldPreempt seq := by
  intro seq hlt
  simp only [State.mayGo, Bool.and_eq_true, Bool.or_eq_true, decide_eq_true_eq] at hmay
  obtain ⟨⟨-, hpending⟩, hflight⟩ := hmay
  obtain hdone | ⟨p, hp, rfl⟩ := h.settled hopen seq (hlt.trans_le hle)
  · exact .inl hdone
  · rcases List.mem_append.mp hp with hheld | hp
    · have hheld := Option.mem_toList.mp hheld
      rcases hflight with hflight | ⟨hpreempt, hflight⟩
      · cases (h.flight hflight).symm.trans hheld
      · exact .inr ⟨hpreempt, h.submitted p hheld hflight⟩
    · -- the first pending chunk is not before the control, and none is before the first
      unfold State.pendingAfter at hpending
      split at hpending
      · next hnil =>
        rw [hnil] at hp
        cases hp
      · next first rest hfirst =>
        have hfrom : call.arrivedAt ≤ first.chunk.seq := of_decide_eq_true hpending
        have hsorted := h.sorted
        rw [State.unfinished, List.map_append, List.pairwise_append, hfirst, List.map_cons,
          List.pairwise_cons] at hsorted
        rw [hfirst] at hp
        rcases List.mem_cons.mp hp with rfl | hp
        · omega
        · have := hsorted.2.1.1 _ (List.mem_map.mpr ⟨p, hp, rfl⟩)
          omega

/-! ### Barriers -/

/-- The barriers are those of the calls that are not finished, in the order of the calls, and the log
has the appends accepted before and after each call on their sides of its number. -/
structure Barred (s : State) : Prop where
  barriers : ∀ n i, (n, i) ∈ s.controlBarriers ↔
    ∃ call, s.calls[i]? = some call ∧ call.arrivedAt = n ∧ call.phase ≠ .ended
  order : s.controlBarriers.Pairwise fun b c => b.2 < c.2
  arrived : ∀ {i j : Nat} {c d : Call}, i ≤ j → s.calls[i]? = some c → s.calls[j]? = some d →
    c.arrivedAt ≤ d.arrivedAt
  arrived_le : ∀ {i : Nat} {c : Call}, s.calls[i]? = some c → c.arrivedAt ≤ s.nextInput
  finished : ∀ {i : Nat} {c : Call}, s.calls[i]? = some c → c.phase = .ended → .finished i ∈ s.log
  called : ∀ i, .called i ∈ s.log ↔ i < s.calls.length
  calledOrder : ∀ {i j : Nat}, i < j → j < s.calls.length → Precedes s.log (.called i) (.called j)
  before : ∀ {seq i : Nat} {c : Call}, Precedes s.log (.accepted seq) (.called i) →
    s.calls[i]? = some c → seq < c.arrivedAt
  after : ∀ {seq i : Nat} {c : Call}, Precedes s.log (.called i) (.accepted seq) →
    s.calls[i]? = some c → c.arrivedAt ≤ seq

theorem Barred.record (h : Barred s) {e : Event} (hcalled : ∀ i, e ≠ .called i)
    (haccepted : ∀ seq, e ≠ .accepted seq) : Barred (s.record e) := by
  refine ⟨h.barriers, h.order, h.arrived, h.arrived_le,
    fun hc hended => List.mem_append_left _ (h.finished hc hended), fun i => ?_,
    fun hij hj => (h.calledOrder hij hj).concat e, fun hp hc => ?_, fun hp hc => ?_⟩
  · refine Iff.trans ?_ (h.called i)
    rw [State.record, List.mem_append, List.mem_singleton, or_iff_left]
    exact fun he => hcalled i he.symm
  · rcases precedes_concat.mp hp with hp | ⟨he, -⟩
    · exact h.before hp hc
    · exact absurd he.symm (hcalled _)
  · rcases precedes_concat.mp hp with hp | ⟨he, -⟩
    · exact h.after hp hc
    · exact absurd he.symm (haccepted _)

theorem Barred.accept (h : Barred s) {p : PendingChunk} (hseq : p.chunk.seq = s.nextInput) :
    Barred (s.accept p) := by
  refine ⟨h.barriers, h.order, h.arrived, fun hc => (h.arrived_le hc).trans (Nat.le_succ _),
    fun hc hended => List.mem_append_left _ (h.finished hc hended), fun i => ?_,
    fun hij hj => (h.calledOrder hij hj).concat _, fun hp hc => ?_, fun hp hc => ?_⟩
  · refine Iff.trans ?_ (h.called i)
    rw [State.accept, List.mem_append, List.mem_singleton, or_iff_left]
    exact fun he => by cases he
  · rcases precedes_concat.mp hp with hp | ⟨he, -⟩
    · exact h.before hp hc
    · cases he
  · rcases precedes_concat.mp hp with hp | ⟨he, -⟩
    · exact h.after hp hc
    · cases he
      rw [hseq]
      exact h.arrived_le hc

theorem Barred.keep (h : Barred s) (kept : PendingChunk → Bool) : Barred (s.keep kept) := by
  have hrecords : ∀ (seqs : List Nat) {s : State}, Barred s →
      Barred { s with log := s.log ++ seqs.map .dropped } := by
    intro seqs
    induction seqs with
    | nil =>
      intro s hs
      rw [List.map_nil, List.append_nil]
      exact hs
    | cons seq rest ih =>
      intro s hs
      have hrest := ih (hs.record (e := .dropped seq) (fun _ he => by cases he)
        fun _ he => by cases he)
      rw [State.record, List.append_assoc, List.singleton_append] at hrest
      exact hrest
  have hall := hrecords ((s.pending.filter fun p => !kept p).map fun p => p.chunk.seq) h
  rw [List.map_map] at hall
  exact ⟨hall.barriers, hall.order, hall.arrived, hall.arrived_le, hall.finished, hall.called,
    hall.calledOrder, hall.before, hall.after⟩

theorem Barred.addBarrier (h : Barred s) (haccepted : ∀ seq, Event.accepted seq ∈ s.log → seq < s.nextInput)
    (owners : List String) (shouldPreempt isOrdered : Bool) :
    Barred (s.addBarrier owners shouldPreempt isOrdered) := by
  set new : Call := {
    arrivedAt := s.nextInput, owners := owners, shouldPreempt := shouldPreempt,
    isOrdered := isOrdered, phase := if isOrdered then .waiting else .sending owners } with hnew
  have hopen : new.phase ≠ .ended := by
    rw [hnew]
    simp only
    split <;> exact fun he => by cases he
  have hcalls : (s.addBarrier owners shouldPreempt isOrdered).calls = s.calls ++ [new] := rfl
  have hold : ∀ {k : Nat} {c : Call}, (s.calls ++ [new])[k]? = some c →
      s.calls[k]? = some c ∨ (k = s.calls.length ∧ c = new) := of_getElem?_concat
  have hlast : (s.calls ++ [new])[s.calls.length]? = some new := List.getElem?_concat_length
  have hlt : ∀ {k : Nat} {c : Call}, s.calls[k]? = some c → k < s.calls.length :=
    fun hk => (List.getElem?_eq_some_iff.mp hk).1
  constructor
  · intro n i
    rw [hcalls]
    show (n, i) ∈ s.controlBarriers ++ [(s.nextInput, s.calls.length)] ↔ _
    rw [List.mem_append, List.mem_singleton, h.barriers]
    constructor
    · rintro (⟨c, hc, hrest⟩ | he)
      · exact ⟨c, getElem?_concat_of_some hc new, hrest⟩
      · cases he
        exact ⟨new, hlast, rfl, hopen⟩
    · rintro ⟨c, hc, rfl, hrest⟩
      rcases hold hc with hc | ⟨rfl, rfl⟩
      · exact .inl ⟨c, hc, rfl, hrest⟩
      · exact .inr rfl
  · refine List.pairwise_append.mpr ⟨h.order, List.pairwise_singleton _ _, fun b hb c hc => ?_⟩
    rw [List.mem_singleton.mp hc]
    obtain ⟨n, i⟩ := b
    obtain ⟨call, hcall, -⟩ := (h.barriers n i).mp hb
    exact hlt hcall
  · intro i j c d hij hc hd
    rcases hold hd with hd | ⟨rfl, rfl⟩
    · rcases hold hc with hc | ⟨rfl, rfl⟩
      · exact h.arrived hij hc hd
      · exact absurd (hlt hd) (Nat.not_lt.mpr hij)
    · rcases hold hc with hc | ⟨rfl, rfl⟩
      · exact h.arrived_le hc
      · exact le_rfl
  · intro i c hc
    rcases hold hc with hc | ⟨rfl, rfl⟩
    · exact h.arrived_le hc
    · exact le_rfl
  · intro i c hc hended
    rcases hold hc with hc | ⟨rfl, rfl⟩
    · exact List.mem_append_left _ (h.finished hc hended)
    · exact absurd hended hopen
  · intro i
    show _ ∈ s.log ++ [Event.called s.calls.length] ↔ _
    rw [List.mem_append, List.mem_singleton, h.called i, hcalls, List.length_append,
      List.length_singleton, Nat.lt_succ_iff_lt_or_eq, Event.called.injEq]
  · intro i j hij hj
    rw [hcalls, List.length_append, List.length_singleton, Nat.lt_succ_iff_lt_or_eq] at hj
    rcases hj with hj | rfl
    · exact (h.calledOrder hij hj).concat _
    · exact precedes_concat.mpr (.inr ⟨rfl, (h.called i).mpr hij⟩)
  · intro seq i c hp hc
    rcases precedes_concat.mp hp with hp | ⟨he, hmem⟩
    · rcases hold hc with hc | ⟨rfl, rfl⟩
      · exact h.before hp hc
      · exact absurd ((h.called _).mp hp.mem_right) (Nat.lt_irrefl _)
    · cases he
      rcases hold hc with hc | ⟨-, rfl⟩
      · exact absurd (hlt hc) (Nat.lt_irrefl _)
      · exact haccepted seq hmem
  · intro seq i c hp hc
    rcases precedes_concat.mp hp with hp | ⟨he, -⟩
    · rcases hold hc with hc | ⟨rfl, rfl⟩
      · exact h.after hp hc
      · exact absurd ((h.called _).mp hp.mem_left) (Nat.lt_irrefl _)
    · cases he

theorem of_setPhase {i k : Nat} {call c : Call} {phase : CallPhase}
    (hcall : s.calls[i]? = some call) (hc : (s.setPhase i call phase).calls[k]? = some c) :
    ∃ d, s.calls[k]? = some d ∧ d.arrivedAt = c.arrivedAt ∧ d.isOrdered = c.isOrdered ∧
      d.shouldPreempt = c.shouldPreempt ∧ ((k = i ∧ c.phase = phase) ∨ (k ≠ i ∧ c.phase = d.phase)) := by
  rcases of_getElem?_set hcall hc with ⟨rfl, rfl⟩ | ⟨hne, hc⟩
  · exact ⟨call, hcall, rfl, rfl, rfl, .inl ⟨rfl, rfl⟩⟩
  · exact ⟨c, hc, rfl, rfl, rfl, .inr ⟨hne, rfl⟩⟩

theorem setPhase_of_ne {i k : Nat} {call c : Call} {phase : CallPhase}
    (hcall : s.calls[i]? = some call) (hne : k ≠ i) (hc : s.calls[k]? = some c) :
    (s.setPhase i call phase).calls[k]? = some c := by
  rw [State.setPhase, getElem?_set_of_some hcall, if_neg hne.symm]
  exact hc

theorem setPhase_self {i : Nat} {call : Call} {phase : CallPhase} (hcall : s.calls[i]? = some call) :
    (s.setPhase i call phase).calls[i]? = some { call with phase := phase } := by
  rw [State.setPhase, getElem?_set_of_some hcall, if_pos rfl]

theorem Barred.setPhase (h : Barred s) {i : Nat} {call : Call} {phase : CallPhase}
    (hcall : s.calls[i]? = some call) (hphase : call.phase ≠ .ended) (hnext : phase ≠ .ended) :
    Barred (s.setPhase i call phase) := by
  have hlength : (s.setPhase i call phase).calls.length = s.calls.length := List.length_set
  refine ⟨fun n k => ?_, h.order, fun hij hc hd => ?_, fun hc => ?_, fun hc hended => ?_, fun k => ?_,
    fun hij hj => h.calledOrder hij (hlength ▸ hj), fun hp hc => ?_, fun hp hc => ?_⟩
  · refine (h.barriers n k).trans ⟨?_, ?_⟩
    · rintro ⟨c, hc, rfl, hopen⟩
      by_cases hk : k = i
      · subst hk
        cases hcall.symm.trans hc
        exact ⟨_, setPhase_self hcall, rfl, hnext⟩
      · exact ⟨c, setPhase_of_ne hcall hk hc, rfl, hopen⟩
    · rintro ⟨c, hc, rfl, hopen⟩
      obtain ⟨d, hd, hat, -, -, ⟨rfl, -⟩ | ⟨-, hp⟩⟩ := of_setPhase hcall hc
      · cases hcall.symm.trans hd
        exact ⟨call, hcall, hat, hphase⟩
      · exact ⟨d, hd, hat, hp ▸ hopen⟩
  · obtain ⟨c', hc', hat, -⟩ := of_setPhase hcall hc
    obtain ⟨d', hd', hat', -⟩ := of_setPhase hcall hd
    rw [← hat, ← hat']
    exact h.arrived hij hc' hd'
  · obtain ⟨c', hc', hat, -⟩ := of_setPhase hcall hc
    rw [← hat]
    exact h.arrived_le hc'
  · obtain ⟨c', hc', -, -, -, ⟨rfl, hp⟩ | ⟨-, hp⟩⟩ := of_setPhase hcall hc
    · exact absurd (hp.symm.trans hended) hnext
    · exact h.finished hc' (hp.symm.trans hended)
  · rw [hlength]
    exact h.called k
  · obtain ⟨c', hc', hat, -⟩ := of_setPhase hcall hc
    rw [← hat]
    exact h.before hp hc'
  · obtain ⟨c', hc', hat, -⟩ := of_setPhase hcall hc
    rw [← hat]
    exact h.after hp hc'

theorem Barred.endCall (h : Barred s) {i : Nat} {call : Call} (hcall : s.calls[i]? = some call) :
    Barred (s.endCall i call) := by
  have hlength : (s.endCall i call).calls.length = s.calls.length := List.length_set
  have hnodup : s.controlBarriers.Nodup :=
    h.order.imp fun {b c} hlt heq => by
      subst heq
      exact Nat.lt_irrefl _ hlt
  have hof : ∀ {k : Nat} {c : Call}, (s.endCall i call).calls[k]? = some c →
      ∃ d, s.calls[k]? = some d ∧ d.arrivedAt = c.arrivedAt ∧ d.isOrdered = c.isOrdered ∧
        d.shouldPreempt = c.shouldPreempt ∧
          ((k = i ∧ c.phase = .ended) ∨ (k ≠ i ∧ c.phase = d.phase)) := of_setPhase hcall
  have hrecord := h.record (e := .finished i) (fun _ he => by cases he) fun _ he => by cases he
  refine ⟨fun n k => ?_, h.order.sublist List.erase_sublist, fun hij hc hd => ?_, fun hc => ?_,
    fun hc hended => ?_, fun k => ?_, fun hij hj => hrecord.calledOrder hij (hlength ▸ hj),
    fun hp hc => ?_, fun hp hc => ?_⟩
  · show (n, k) ∈ s.controlBarriers.erase (call.arrivedAt, i) ↔ _
    rw [hnodup.mem_erase_iff, h.barriers]
    constructor
    · rintro ⟨hne, c, hc, rfl, hopen⟩
      have hk : k ≠ i := by
        rintro rfl
        cases hcall.symm.trans hc
        exact hne rfl
      exact ⟨c, setPhase_of_ne hcall hk hc, rfl, hopen⟩
    · rintro ⟨c, hc, rfl, hopen⟩
      obtain ⟨d, hd, hat, -, -, ⟨rfl, hp⟩ | ⟨hk, hp⟩⟩ := hof hc
      · exact absurd hp hopen
      · exact ⟨fun he => hk (Prod.mk.inj he).2, d, hd, hat, hp ▸ hopen⟩
  · obtain ⟨c', hc', hat, -⟩ := hof hc
    obtain ⟨d', hd', hat', -⟩ := hof hd
    rw [← hat, ← hat']
    exact h.arrived hij hc' hd'
  · obtain ⟨c', hc', hat, -⟩ := hof hc
    rw [← hat]
    exact h.arrived_le hc'
  · obtain ⟨c', hc', -, -, -, ⟨rfl, hp⟩ | ⟨-, hp⟩⟩ := hof hc
    · exact List.mem_append_right _ (List.mem_singleton_self _)
    · exact hrecord.finished hc' (hp.symm.trans hended)
  · rw [hlength]
    exact hrecord.called k
  · obtain ⟨c', hc', hat, -⟩ := hof hc
    rw [← hat]
    exact hrecord.before hp hc'
  · obtain ⟨c', hc', hat, -⟩ := hof hc
    rw [← hat]
    exact hrecord.after hp hc'

theorem Barred.of_eq (h : Barred s) (hbarriers : s'.controlBarriers = s.controlBarriers)
    (hcalls : s'.calls = s.calls) (hlog : s'.log = s.log) (hnext : s'.nextInput = s.nextInput) :
    Barred s' := by
  constructor <;> simp only [hbarriers, hcalls, hlog, hnext]
  · exact h.barriers
  · exact h.order
  · exact h.arrived
  · exact h.arrived_le
  · exact h.finished
  · exact h.called
  · exact h.calledOrder
  · exact h.before
  · exact h.after

theorem Barred.move {a : Action} (h : Barred s)
    (haccepted : ∀ seq, Event.accepted seq ∈ s.log → seq < s.nextInput) (hmove : Move cfg s a s') :
    Barred s' := by
  have hrecord : ∀ (e : Event), (∀ i, e ≠ .called i) → (∀ seq, e ≠ .accepted seq) →
      Barred (s.record e) := fun e hc ha => h.record hc ha
  cases hmove with
  | append _ hseq => exact h.accept hseq
  | @takes _ p =>
    exact (hrecord (.submitting p.chunk.seq) (fun _ he => by cases he)
      (fun _ he => by cases he)).of_eq rfl rfl rfl rfl
  | @submits _ p =>
    exact (hrecord (.submitted p.chunk.seq) (fun _ he => by cases he)
      (fun _ he => by cases he)).of_eq rfl rfl rfl rfl
  | @completes _ p | @completesFull _ p =>
    exact (hrecord (.completed p.chunk.seq) (fun _ he => by cases he)
      (fun _ he => by cases he)).of_eq rfl rfl rfl rfl
  | calls => exact h.addBarrier haccepted _ _ _
  | goes hcall hphase => exact h.setPhase hcall (by rw [hphase]; decide) fun he => by cases he
  | sends hcall hphase =>
    exact (h.setPhase hcall (by rw [hphase]; exact fun he => by cases he)
      (fun he => by cases he)).record (fun _ he => by cases he) fun _ he => by cases he
  | ends hcall => exact h.endCall hcall
  | fails hcall => exact (h.endCall hcall).of_eq rfl rfl rfl rfl
  | fence => exact h.keep _
  | _ => exact h.of_eq rfl rfl rfl rfl

theorem Barred.head_le (h : Barred s) {n i : Nat} (hhead : s.controlBarriers.head? = some (n, i))
    {k : Nat} {c : Call} (hc : s.calls[k]? = some c) (hopen : c.phase ≠ .ended) :
    i ≤ k ∧ n ≤ c.arrivedAt := by
  obtain ⟨rest, hbarriers⟩ := List.head?_eq_some_iff.mp hhead
  have hmem : (c.arrivedAt, k) ∈ s.controlBarriers := (h.barriers _ _).mpr ⟨c, hc, rfl, hopen⟩
  have hfirst : (n, i) ∈ s.controlBarriers := by
    rw [hbarriers]
    exact List.mem_cons_self
  obtain ⟨d, hd, rfl, -⟩ := (h.barriers n i).mp hfirst
  have hle : i ≤ k := by
    have horder := h.order
    rw [hbarriers] at hmem horder
    rcases List.mem_cons.mp hmem with he | hmem
    · exact (Prod.mk.inj he).2.ge
    · exact ((List.pairwise_cons.mp horder).1 _ hmem).le
  exact ⟨hle, h.arrived hle hd hc⟩

theorem Barred.finished_of_mayTake (h : Barred s) {p : PendingChunk} (hmay : s.mayTake p = true)
    {i : Nat} (hp : Precedes s.log (.called i) (.accepted p.chunk.seq)) : .finished i ∈ s.log := by
  have hi := (h.called i).mp hp.mem_left
  have hcall := List.getElem?_eq_getElem hi
  by_cases hended : s.calls[i].phase = .ended
  · exact h.finished hcall hended
  · have hafter := h.after hp hcall
    unfold State.mayTake at hmay
    split at hmay
    · next hnone =>
      have hmem := (h.barriers _ i).mpr ⟨_, hcall, rfl, hended⟩
      rw [hnone] at hmem
      cases hmem
    · next barrier rest hbarriers =>
      have hlt : p.chunk.seq < barrier.1 := of_decide_eq_true hmay
      have hhead : s.controlBarriers.head? = some (barrier.1, barrier.2) := by rw [hbarriers]; rfl
      have := (h.head_le hhead hcall hended).2
      omega

/-! ### What was sent -/

/-- An ordered control that goes out is the first and its appends are settled, the chunk in flight was
accepted before every control that is not finished, and what was sent was sent in order. -/
structure Sent (cfg : Config) (s : State) : Prop where
  going : ∀ {i : Nat} {c : Call} {left : List String}, s.calls[i]? = some c → c.isOrdered = true →
    c.phase = .sending left → s.controlBarriers.head? = some (c.arrivedAt, i) ∧
      ∀ seq < c.arrivedAt, Settled cfg s.log c.shouldPreempt seq
  held : ∀ {p : PendingChunk}, s.pump.held = some p → ∀ {i : Nat},
    Precedes s.log (.called i) (.accepted p.chunk.seq) → .finished i ∈ s.log
  last : ∀ {j : Nat} {owner : String} {shouldPreempt : Bool},
    .sent j owner shouldPreempt true ∈ s.log → j < s.calls.length ∧
      ∀ {i : Nat} {c : Call}, i < j → s.calls[i]? = some c → c.phase = .ended
  along : Along (InOrder cfg) s.log

theorem InOrder.other {before : List Event} {e : Event}
    (hsent : ∀ i owner shouldPreempt isOrdered, e ≠ .sent i owner shouldPreempt isOrdered)
    (hsubmit : ∀ seq, e ≠ .submitting seq ∧ e ≠ .submitted seq) : InOrder cfg before e where
  afterAppends := fun i owner shouldPreempt he => absurd he (hsent i owner shouldPreempt true)
  beforeAppends := fun seq he => by
    rcases he with he | he
    · exact absurd he (hsubmit seq).1
    · exact absurd he (hsubmit seq).2
  amongControls := fun i owner shouldPreempt he => absurd he (hsent i owner shouldPreempt true)

theorem InOrder.submission {before : List Event} {seq : Nat} {e : Event}
    (he : e = .submitting seq ∨ e = .submitted seq)
    (h : ∀ i, Precedes before (.called i) (.accepted seq) → .finished i ∈ before) :
    InOrder cfg before e where
  afterAppends := fun _ _ _ hsent => by rcases he with rfl | rfl <;> cases hsent
  beforeAppends := fun seq' he' i hp => by
    have hseq : seq' = seq := by
      rcases he with rfl | rfl <;> rcases he' with he' | he' <;> cases he' <;> rfl
    exact h i (hseq ▸ hp)
  amongControls := fun _ _ _ hsent => by rcases he with rfl | rfl <;> cases hsent

theorem Sent.of_eq (h : Sent cfg s) (hbarriers : s'.controlBarriers = s.controlBarriers)
    (hcalls : s'.calls = s.calls) (hlog : s'.log = s.log)
    (hheld : ∀ p, s'.pump.held = some p → s.pump.held = some p) : Sent cfg s' := by
  constructor
  · rw [hcalls, hbarriers, hlog]
    exact h.going
  · rw [hlog]
    exact fun hp => h.held (hheld _ hp)
  · rw [hcalls, hlog]
    exact h.last
  · rw [hlog]
    exact h.along

theorem Sent.record (h : Sent cfg s) {e : Event} (hfit : InOrder cfg s.log e)
    (hsent : ∀ i owner shouldPreempt, e ≠ .sent i owner shouldPreempt true)
    (haccepted : ∀ p, s.pump.held = some p → e ≠ .accepted p.chunk.seq) : Sent cfg (s.record e) := by
  refine ⟨fun hc hordered hphase => ?_, fun {p} hp {i} hprec => ?_, fun hmem => ?_,
    h.along.concat hfit⟩
  · obtain ⟨hhead, hsettled⟩ := h.going hc hordered hphase
    exact ⟨hhead, fun seq hseq => (hsettled seq hseq).append [e]⟩
  · rcases precedes_concat.mp hprec with hprec | ⟨he, -⟩
    · exact List.mem_append_left _ (h.held hp hprec)
    · exact absurd he.symm (haccepted p hp)
  · rcases List.mem_append.mp hmem with hmem | hmem
    · exact h.last hmem
    · exact absurd (List.mem_singleton.mp hmem).symm (hsent _ _ _)

theorem Sent.keep (h : Sent cfg s) (kept : PendingChunk → Bool) : Sent cfg (s.keep kept) := by
  have hrecords : ∀ (seqs : List Nat) {s : State}, Sent cfg s →
      Sent cfg { s with log := s.log ++ seqs.map .dropped } := by
    intro seqs
    induction seqs with
    | nil =>
      intro s hs
      rw [List.map_nil, List.append_nil]
      exact hs
    | cons seq rest ih =>
      intro s hs
      have hrest := ih (hs.record (e := .dropped seq)
        (.other (fun _ _ _ _ he => by cases he) fun _ => ⟨(fun he => by cases he), fun he => by cases he⟩)
        (fun _ _ _ he => by cases he) fun _ _ he => by cases he)
      rw [State.record, List.append_assoc, List.singleton_append] at hrest
      exact hrest
  have hall := hrecords ((s.pending.filter fun p => !kept p).map fun p => p.chunk.seq) h
  rw [List.map_map] at hall
  exact ⟨hall.going, hall.held, hall.last, hall.along⟩

theorem Sent.addBarrier (h : Sent cfg s) (owners : List String) (shouldPreempt isOrdered : Bool) :
    Sent cfg (s.addBarrier owners shouldPreempt isOrdered) := by
  have hrecord := h.record (e := .called s.calls.length)
    (.other (fun _ _ _ _ he => by cases he) fun _ => ⟨(fun he => by cases he), fun he => by cases he⟩)
    (fun _ _ _ he => by cases he) fun _ _ he => by cases he
  refine ⟨fun {i c left} hc hordered hphase => ?_, hrecord.held, fun hmem => ?_, hrecord.along⟩
  · rcases of_getElem?_concat hc with hc | ⟨-, rfl⟩
    · obtain ⟨hhead, hsettled⟩ := hrecord.going hc hordered hphase
      obtain ⟨rest, hbarriers⟩ := List.head?_eq_some_iff.mp hhead
      refine ⟨?_, hsettled⟩
      show (s.controlBarriers ++ _).head? = _
      rw [show s.controlBarriers = _ from hbarriers]
      rfl
    · simp only at hordered hphase
      rw [hordered] at hphase
      cases hphase
  · obtain ⟨hj, hended⟩ := hrecord.last hmem
    refine ⟨?_, fun {i c} hij hc => ?_⟩
    · show _ < (s.calls ++ _).length
      rw [List.length_append]
      exact Nat.lt_add_right _ hj
    · rcases of_getElem?_concat hc with hc | ⟨rfl, -⟩
      · exact hended hij hc
      · exact absurd hj (Nat.not_lt.mpr hij.le)

theorem Sent.setPhase (h : Sent cfg s) {i : Nat} {call : Call} {phase : CallPhase}
    (hcall : s.calls[i]? = some call) (hopen : call.phase ≠ .ended)
    (hgoing : call.isOrdered = true → s.controlBarriers.head? = some (call.arrivedAt, i) ∧
      ∀ seq < call.arrivedAt, Settled cfg s.log call.shouldPreempt seq) :
    Sent cfg (s.setPhase i call phase) := by
  refine ⟨fun {k c left} hc hordered hphase => ?_, h.held, fun hmem => ?_, h.along⟩
  · obtain ⟨d, hd, hat, hord, hpre, ⟨rfl, -⟩ | ⟨-, hp⟩⟩ := of_setPhase hcall hc
    · cases hcall.symm.trans hd
      rw [← hat, ← hpre]
      exact hgoing (hord.trans hordered)
    · rw [← hat, ← hpre]
      exact h.going hd (hord.trans hordered) (hp.symm.trans hphase)
  · obtain ⟨hj, hended⟩ := h.last hmem
    refine ⟨?_, fun {k c} hkj hc => ?_⟩
    · show _ < (s.calls.set i _).length
      rw [List.length_set]
      exact hj
    · obtain ⟨d, hd, -, -, -, ⟨rfl, -⟩ | ⟨-, hp⟩⟩ := of_setPhase hcall hc
      · exact absurd (hended hkj hcall) hopen
      · rw [hp]
        exact hended hkj hd

theorem Sent.send (h : Sent cfg s) (hbarred : Barred s) {i : Nat} {call : Call} {owner : String}
    {rest : List String} (hcall : s.calls[i]? = some call)
    (hphase : call.phase = .sending (owner :: rest)) :
    Sent cfg ((s.setPhase i call (.sending rest)).record
      (.sent i owner call.shouldPreempt call.isOrdered)) := by
  have hopen : call.phase ≠ .ended := by
    rw [hphase]
    exact fun he => by cases he
  have hset : Sent cfg (s.setPhase i call (.sending rest)) :=
    h.setPhase hcall hopen fun hordered => h.going hcall hordered hphase
  have hi : i < s.calls.length := (List.getElem?_eq_some_iff.mp hcall).1
  have hlength : (s.setPhase i call (.sending rest)).calls.length = s.calls.length := List.length_set
  refine ⟨fun hc hordered hp => ?_, fun {p} hp {k} hprec => ?_, fun {j owner' pre} hmem => ?_,
    hset.along.concat ⟨?_, ?_, ?_⟩⟩
  · obtain ⟨hhead, hsettled⟩ := hset.going hc hordered hp
    exact ⟨hhead, fun seq hseq => (hsettled seq hseq).append _⟩
  · rcases precedes_concat.mp hprec with hprec | ⟨he, -⟩
    · exact List.mem_append_left _ (hset.held hp hprec)
    · cases he
  · rcases List.mem_append.mp hmem with hmem | hmem
    · exact hset.last hmem
    · have he := List.mem_singleton.mp hmem
      simp only [Event.sent.injEq] at he
      obtain ⟨rfl, -, -, hordered⟩ := he
      refine ⟨by show _ < (s.setPhase j call (.sending rest)).calls.length; rw [hlength]; exact hi,
        fun {k c} hkj hc => ?_⟩
      have hc' : s.calls[k]? = some c := by
        obtain ⟨d, hd, -, -, -, ⟨rfl, -⟩ | ⟨hne, -⟩⟩ := of_setPhase hcall hc
        · exact absurd hkj (Nat.lt_irrefl _)
        · rcases of_getElem?_set hcall hc with ⟨rfl, -⟩ | ⟨-, hc⟩
          · exact absurd rfl hne
          · exact hc
      by_contra hne
      have := (hbarred.head_le (h.going hcall hordered.symm hphase).1 hc' hne).1
      omega
  · intro k owner' pre he seq hp
    simp only [Event.sent.injEq] at he
    obtain ⟨rfl, -, rfl, hordered⟩ := he
    exact (h.going hcall hordered hphase).2 seq (hbarred.before hp hcall)
  · intro seq he
    rcases he with he | he <;> cases he
  · intro k owner' pre he j owner'' pre' hmem
    simp only [Event.sent.injEq] at he
    obtain ⟨rfl, -, -, -⟩ := he
    obtain ⟨hj, hended⟩ := h.last hmem
    -- a control called after this one would have waited for it
    have hle : j ≤ i := by
      by_contra hlt
      exact hopen (hended (by omega) hcall)
    rcases Nat.lt_or_eq_of_le hle with hlt | rfl
    · exact .inr (hbarred.calledOrder hlt hi)
    · exact .inl rfl

theorem Sent.endCall (h : Sent cfg s) {i : Nat} {call : Call} (hcall : s.calls[i]? = some call) :
    Sent cfg (s.endCall i call) := by
  have hrecord := h.record (e := .finished i)
    (.other (fun _ _ _ _ he => by cases he) fun _ => ⟨(fun he => by cases he), fun he => by cases he⟩)
    (fun _ _ _ he => by cases he) fun _ _ he => by cases he
  have hof : ∀ {k : Nat} {c : Call}, (s.endCall i call).calls[k]? = some c →
      ∃ d, s.calls[k]? = some d ∧ d.arrivedAt = c.arrivedAt ∧ d.isOrdered = c.isOrdered ∧
        d.shouldPreempt = c.shouldPreempt ∧
          ((k = i ∧ c.phase = .ended) ∨ (k ≠ i ∧ c.phase = d.phase)) := of_setPhase hcall
  refine ⟨fun {k c left} hc hordered hphase => ?_, hrecord.held, fun hmem => ?_, hrecord.along⟩
  · obtain ⟨d, hd, hat, hord, hpre, ⟨-, hp⟩ | ⟨hne, hp⟩⟩ := hof hc
    · cases hp.symm.trans hphase
    · obtain ⟨hhead, hsettled⟩ := hrecord.going hd (hord.trans hordered) (hp.symm.trans hphase)
      rw [← hat, ← hpre]
      refine ⟨?_, hsettled⟩
      obtain ⟨rest, hbarriers⟩ := List.head?_eq_some_iff.mp hhead
      show (s.controlBarriers.erase (call.arrivedAt, i)).head? = _
      rw [show s.controlBarriers = _ from hbarriers, List.erase_cons_tail]
      · rfl
      · rw [beq_iff_eq]
        exact fun he => hne (Prod.mk.inj he).2
  · obtain ⟨hj, hended⟩ := hrecord.last hmem
    refine ⟨?_, fun {k c} hkj hc => ?_⟩
    · show _ < (s.calls.set i _).length
      rw [List.length_set]
      exact hj
    · obtain ⟨d, hd, -, -, -, ⟨-, hp⟩ | ⟨-, hp⟩⟩ := hof hc
      · exact hp
      · rw [hp]
        exact hended hkj hd

theorem Sent.move {a : Action} (h : Sent cfg s) (hlife : LifeKept s) (hnumbered : Numbered cfg s)
    (hbarred : Barred s) (hmove : Move cfg s a s') : Sent cfg s' := by
  have hplain : ∀ {e : Event}, (∀ i owner shouldPreempt isOrdered,
      e ≠ .sent i owner shouldPreempt isOrdered) →
      (∀ seq, e ≠ .submitting seq ∧ e ≠ .submitted seq) →
      (∀ p, s.pump.held = some p → e ≠ .accepted p.chunk.seq) → Sent cfg (s.record e) :=
    fun hsent hsubmit haccepted =>
      h.record (.other hsent hsubmit) (fun i owner pre => hsent i owner pre true) haccepted
  cases hmove with
  | opens hopening =>
    refine h.of_eq rfl rfl rfl fun p hp => by cases hp
  | @append _ p _ hseq =>
    refine (hplain (e := .accepted p.chunk.seq) (fun _ _ _ _ he => by cases he)
      (fun _ => ⟨(fun he => by cases he), fun he => by cases he⟩) fun q hq he => ?_).of_eq rfl rfl rfl
        fun _ hp => hp
    have hsame := Event.accepted.inj he
    have := hnumbered.below q (List.mem_append_left _ (Option.mem_toList.mpr hq))
    omega
  | @takes _ p rest hpump hpending hclosing hmay =>
    have hrecord := h.record (e := .submitting p.chunk.seq)
      (.submission (.inl rfl) fun i hp => hbarred.finished_of_mayTake hmay hp)
      (fun _ _ _ he => by cases he) fun _ _ he => by cases he
    refine ⟨hrecord.going, fun {q} hq {i} hp => ?_, hrecord.last, hrecord.along⟩
    cases hq
    rcases precedes_concat.mp hp with hp | ⟨he, -⟩
    · exact List.mem_append_left _ (hbarred.finished_of_mayTake hmay hp)
    · cases he
  | @submits _ p hpump =>
    refine (h.record (e := .submitted p.chunk.seq) (.submission (.inr rfl) fun i hp => ?_)
      (fun _ _ _ he => by cases he) fun _ _ he => by cases he).of_eq rfl rfl rfl fun _ hp => hp
    exact h.held (show s.pump.held = some p by rw [hpump]; rfl) hp
  | submitFails hpump => exact h.of_eq rfl rfl rfl fun _ hp => by cases hp
  | @completes _ p | @completesFull _ p =>
    exact (hplain (e := .completed p.chunk.seq) (fun _ _ _ _ he => by cases he)
      (fun _ => ⟨(fun he => by cases he), fun he => by cases he⟩) fun _ _ he => by cases he).of_eq
        rfl rfl rfl fun _ hp => by cases hp
  | operationFails hpump =>
    refine h.of_eq rfl rfl rfl fun _ hp => ?_
    rw [hpump]
    exact hp
  | pumpEnds => exact h.of_eq rfl rfl rfl fun _ hp => by cases hp
  | exits | exitsIdle => exact h.of_eq rfl rfl rfl fun _ hp => by cases hp
  | calls => exact h.addBarrier _ _ _
  | goes hcall hphase hopen hmay =>
    refine h.setPhase hcall (by rw [hphase]; decide) fun _ => ⟨?_, ?_⟩
    · simp only [State.mayGo, Bool.and_eq_true, decide_eq_true_eq] at hmay
      exact hmay.1.1
    · exact hnumbered.settled_of_mayGo hopen (hbarred.arrived_le hcall) hmay
  | sends hcall hphase => exact h.send hbarred hcall hphase
  | ends hcall => exact h.endCall hcall
  | fails hcall => exact (h.endCall hcall).of_eq rfl rfl rfl fun _ hp => hp
  | fence => exact h.keep _
  | _ => exact h.of_eq rfl rfl rfl fun _ hp => hp

/-- In every run of a session, and at every event of its log: an ordered control is sent to an owner
only once every append accepted before it has completed, or is submitted where it preempts, or was taken
off a node by an interrupt; no append accepted after a control is submitted before that control is
finished; and ordered controls are sent in the order of their calls. -/
theorem controls_in_order (cfg : Config) {s : State}
    (h : (session cfg).Reaches Machine.anyAction s) {before after : List Event} {e : Event}
    (hlog : s.log = before ++ e :: after) : InOrder cfg before e := by
  have hall : LifeKept s ∧ Numbered cfg s ∧ Barred s ∧ Sent cfg s := by
    refine h.invariant (P := fun s => LifeKept s ∧ Numbered cfg s ∧ Barred s ∧ Sent cfg s) ?_ ?_
    · refine ⟨lifeKept_init, ?_, ?_, ?_⟩
      · constructor <;> intros <;> simp_all [session, State.unfinished, Pump.held]
      · constructor <;> intros <;> simp_all [session, Precedes]
      · constructor <;> intros <;> simp_all [session, Along, Precedes]
    · rintro s a s' ⟨hlife, hnumbered, hbarred, hsent⟩ - hs
      obtain ⟨t, hmove, heq⟩ := step_move hs
      have hlife' := hlife.move hmove
      have hnumbered' := hnumbered.move hlife hmove
      have hbarred' := hbarred.move hnumbered.accepted hmove
      have hsent' := hsent.move hlife hnumbered hbarred hmove
      rw [heq]
      exact ⟨⟨hlife'.opening, hlife'.cleanup, hlife'.closed, hlife'.dropped⟩,
        ⟨hnumbered'.sorted, hnumbered'.below, hnumbered'.accepted, hnumbered'.flight,
          hnumbered'.submitted, hnumbered'.settled, hnumbered'.failing⟩,
        hbarred'.of_eq rfl rfl rfl rfl, hsent'.of_eq rfl rfl rfl fun _ hp => hp⟩
  exact hall.2.2.2.along before e after hlog

def interruption : TimedChunk where
  modality := Proto.control
  tStartMs := 20
  durationMs := 0
  seq := 0
  payload := .dict [("type", .str interrupt)]
  format := some sessionControl
  turn := some 0

/-- The first append is submitted and preempted by a control, and the second waits for it. -/
def preemptRun : List Action :=
  [.opens false, .append (speech 0) false, .pumpTakes, .control interruption none true true,
    .append (speech 1) false, .pumpSubmits, .controlLooks 0, .controlSends 0, .operationEnds,
    .controlEnds 0, .pumpTakes, .pumpSubmits]

theorem controls_in_order_preempt : ∃ s, (session oneStage).Reaches Machine.anyAction s ∧
    s.log = [.accepted 0, .submitting 0, .called 0, .accepted 1, .submitted 0] ++
      .sent 0 "asr" true true :: [.completed 0, .finished 0, .submitting 1, .submitted 1] ∧
    InOrder oneStage [.accepted 0, .submitting 0, .called 0, .accepted 1, .submitted 0]
      (.sent 0 "asr" true true) := by
  have hrun : ((session oneStage).exec {} preemptRun).map State.log =
      some ([.accepted 0, .submitting 0, .called 0, .accepted 1, .submitted 0] ++
        .sent 0 "asr" true true :: [.completed 0, .finished 0, .submitting 1, .submitted 1]) := by
    decide +kernel
  obtain ⟨s, hs, hlog⟩ := Option.map_eq_some_iff.mp hrun
  have hreach : (session oneStage).Reaches Machine.anyAction s := Machine.path_of_exec hs
  exact ⟨s, hreach, hlog, controls_in_order oneStage hreach hlog⟩

end Route
