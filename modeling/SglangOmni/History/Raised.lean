import Mathlib.Algebra.Order.Ring.Nat
import SglangOmni.History.Drop

/-! What a cut that raises leaves behind.  `drop_history` edits the token ids before it checks the KV,
and both before it checks the spans, so only a cut that the token ids already refuse changes nothing. -/

namespace History

open Lib

variable {K V E : Type}

inductive Ran (σ : Type)
  | ok (s : σ)
  | raised (error : CutError) (s : σ)

def Ran.result {σ : Type} : Ran σ → Except CutError σ
  | .ok s => .ok s
  | .raised error _ => .error error

/-- The loop over the layers, up to the first one that has not one row per slot. -/
def moveLayers (shiftKeyPositions : List K → List Nat → List K) (sources targets distances : List Nat)
    (rows : Nat) : List (Layer K V) → List (Layer K V) × Bool
  | [] => ([], true)
  | layer :: rest =>
    if layer.rows == rows then
      let (moved, fits) := moveLayers shiftKeyPositions sources targets distances rows rest
      (moveLayer shiftKeyPositions sources targets distances layer :: moved, fits)
    else (layer :: rest, false)

/-- `cut_retained_kv`, with what it leaves where it raises. -/
def runCutRetainedKv (shiftKeyPositions : List K → List Nat → List K) (s : Store K V E)
    (kv : RetainedKv) (cut : HistoryCut) : Ran (Store K V E) :=
  if cut.firstStart < kv.cacheProtectedLen then
    .raised (.reachesTreePrefix cut.firstStart kv.cacheProtectedLen) s
  else if kv.kvCommittedLen < cut.lastEnd then
    .raised (.passesCommittedKv cut.ranges kv.kvCommittedLen) s
  else
    let keptLength := kv.kvCommittedLen - cut.length
    let row := s.reqToToken kv.reqPoolIdx
    let kept := keptPositions cut.ranges kv.kvCommittedLen
    let moved := List.range' cut.firstStart (keptLength - cut.firstStart)
    let (layers, fits) := moveLayers shiftKeyPositions (kept.map row) (moved.map row)
      (List.zipWith (· - ·) kept moved) (s.cache.size + s.cache.pageSize) s.cache.layers
    let s := { s with cache := { s.cache with layers := layers } }
    if fits then
      let tailStart := ceilAlign keptLength s.pageSize
      .ok { s with
        freed :=
          if tailStart < kv.kvAllocatedLen then
            s.freed ++ (List.range' tailStart (kv.kvAllocatedLen - tailStart)).map row
          else s.freed
        record := some { kv with kvAllocatedLen := keptLength, kvCommittedLen := keptLength } }
    else .raised .notOneRowPerSlot s

/-- The KV is cut where the session holds any, with what that leaves. -/
def runDropKv (shiftKeyPositions : List K → List Nat → List K) (s : Store K V E) (cut : HistoryCut) :
    Ran (Store K V E) :=
  match s.record with
  | some kv => if kv.holdsKv then runCutRetainedKv shiftKeyPositions s kv cut else .ok s
  | none => .ok s

/-- `ARSessionBridge.drop_history`, with what it leaves where it raises.  `cut_token_ids` checks before
it edits. -/
def runDropHistory (shiftKeyPositions : List K → List Nat → List K) (s : Store K V E)
    (cut : HistoryCut) : Ran (Store K V E) :=
  match cutTokenIds s cut with
  | .error error => .raised error s
  | .ok cutIds =>
    match runDropKv shiftKeyPositions cutIds cut with
    | .raised error left => .raised error left
    | .ok cutKv =>
      match moveSpans cut cutKv.embeddingSpans with
      | .error error => .raised error cutKv
      | .ok spans => .ok { cutKv with embeddingSpans := spans }

variable {shiftKeyPositions : List K → List Nat → List K} {s s' : Store K V E} {cut : HistoryCut}

/-! ### The same results -/

theorem moveLayers_eq (sources targets distances : List Nat) (rows : Nat)
    (layers : List (Layer K V)) :
    let (moved, fits) := moveLayers shiftKeyPositions sources targets distances rows layers
    fits = layers.all (fun layer => layer.rows == rows) ∧
      (fits = true →
        moved = layers.map (moveLayer shiftKeyPositions sources targets distances)) := by
  induction layers with
  | nil => exact ⟨rfl, fun _ => rfl⟩
  | cons layer rest ih =>
    unfold moveLayers
    by_cases hrows : (layer.rows == rows) = true
    · rw [if_pos hrows]
      obtain ⟨hfits, hmoved⟩ := ih
      refine ⟨?_, fun h => ?_⟩
      · rw [List.all_cons, hrows, Bool.true_and]
        exact hfits
      · rw [List.map_cons]
        exact congrArg _ (hmoved h)
    · rw [if_neg hrows]
      refine ⟨?_, fun h => nomatch h⟩
      rw [List.all_cons, Bool.eq_false_iff.mpr hrows, Bool.false_and]

/-! ### When it changes nothing -/

/-- The token ids have one last request, and the cut lies within its committed ids. -/
def IdsFit (s : Store K V E) (cut : HistoryCut) : Prop :=
  s.native.reqNodes.length = 1 ∧
    cut.lastEnd ≤ min (min s.native.committedOriginLen s.native.committedUnpaddedLen)
      s.native.committedFillLen

/-- KV that the session holds is cut past the tree-owned prefix and within what is committed, and has
one row per slot. -/
def KvFits (s : Store K V E) (cut : HistoryCut) : Prop :=
  ∀ kv ∈ s.record, kv.holdsKv = true →
    kv.cacheProtectedLen ≤ cut.firstStart ∧ cut.lastEnd ≤ kv.kvCommittedLen ∧
      ∀ layer ∈ s.cache.layers, layer.rows = s.cache.size + s.cache.pageSize

def SpansFit (s : Store K V E) (cut : HistoryCut) : Prop :=
  ∀ span ∈ s.embeddingSpans, ∃ dropped, cut.drops span.start span.stop = .ok dropped

/-- The token arrays and lengths, the KV record and the spans are as they were. -/
structure Untouched (s s' : Store K V E) : Prop where
  arrays : s'.arrays = s.arrays
  native : s'.native = s.native
  record : s'.record = s.record
  spans : s'.embeddingSpans = s.embeddingSpans

def UntouchedIfRaised (s : Store K V E) (ran : Ran (Store K V E)) : Prop :=
  ∀ error left, ran = .raised error left → Untouched s left

theorem HistoryCut.length_pos (cut : HistoryCut) : 0 < cut.length := by
  have hmem : cut.ranges.head cut.ranges_ne_nil ∈ cut.ranges := List.head_mem _
  have hproper := cut.apart.1 _ hmem
  have hle : (cut.ranges.head cut.ranges_ne_nil).2 - (cut.ranges.head cut.ranges_ne_nil).1 ≤
      cut.length := by
    refine List.single_le_sum (fun _ _ => Nat.zero_le _) _ ?_
    exact List.mem_map_of_mem (f := fun r : CutRange => r.2 - r.1) hmem
  omega

theorem moveSpans_raises_iff {spans : List (EmbeddingSpan E)} :
    (∃ error, moveSpans cut spans = .error error) ↔
      ¬ ∀ span ∈ spans, ∃ dropped, cut.drops span.start span.stop = .ok dropped := by
  induction spans with
  | nil =>
    constructor
    · rintro ⟨error, h⟩
      cases h
    · intro h
      exact absurd (fun span hspan => nomatch hspan) h
  | cons span rest ih =>
    rw [List.forall_mem_cons]
    unfold moveSpans
    cases hdrops : cut.drops span.start span.stop with
    | error error =>
      constructor
      · rintro - ⟨⟨dropped, h⟩, -⟩
        cases h
      · exact fun _ => ⟨error, rfl⟩
    | ok dropped =>
      simp only [bind, Except.bind]
      cases hmoved : moveSpans cut rest with
      | error error =>
        rw [hmoved] at ih
        constructor
        · exact fun _ h => ih.mp ⟨error, rfl⟩ h.2
        · exact fun _ => ⟨error, rfl⟩
      | ok moved =>
        rw [hmoved] at ih
        constructor
        · rintro ⟨error, h⟩
          cases h
        · intro h
          refine absurd ⟨⟨dropped, rfl⟩, ?_⟩ h
          by_contra hnot
          obtain ⟨error, herror⟩ := ih.mpr hnot
          cases herror

theorem cutTokenIds_raises (h : ¬ IdsFit s cut) : ∃ error, cutTokenIds s cut = .error error := by
  unfold cutTokenIds
  split
  · next request hnodes =>
    rw [if_neg fun hle => h ⟨by rw [hnodes]; rfl, hle⟩]
    exact ⟨_, rfl⟩
  · exact ⟨_, rfl⟩

theorem cutTokenIds_shortens (h : IdsFit s cut) : ∃ cutIds, cutTokenIds s cut = .ok cutIds ∧
    cutIds.native.committedOriginLen < s.native.committedOriginLen ∧ cutIds.record = s.record ∧
    cutIds.cache = s.cache ∧ cutIds.embeddingSpans = s.embeddingSpans := by
  obtain ⟨hone, hle⟩ := h
  obtain ⟨request, hnodes⟩ := List.length_eq_one_iff.mp hone
  unfold cutTokenIds
  rw [hnodes]
  simp only
  rw [if_pos hle]
  refine ⟨_, rfl, ?_, rfl, rfl, rfl⟩
  have hpos := cut.length_pos
  have hlength := cut.length_le (hle.trans ((min_le_left _ _).trans (min_le_left _ _)))
  show s.native.committedOriginLen - cut.length < s.native.committedOriginLen
  omega

theorem runDropKv_cases (shiftKeyPositions : List K → List Nat → List K) (s : Store K V E)
    (cut : HistoryCut) :
    (KvFits s cut ∧ ∃ s', runDropKv shiftKeyPositions s cut = .ok s' ∧ s'.native = s.native ∧
      s'.embeddingSpans = s.embeddingSpans) ∨
    (¬ KvFits s cut ∧ ∃ error left, runDropKv shiftKeyPositions s cut = .raised error left ∧
      left.native = s.native) := by
  unfold runDropKv
  cases hrecord : s.record with
  | none =>
    refine .inl ⟨fun kv hkv => ?_, s, rfl, rfl, rfl⟩
    rw [hrecord] at hkv
    cases hkv
  | some kv =>
    have hfits : KvFits s cut ↔ (kv.holdsKv = true → kv.cacheProtectedLen ≤ cut.firstStart ∧
        cut.lastEnd ≤ kv.kvCommittedLen ∧
        ∀ layer ∈ s.cache.layers, layer.rows = s.cache.size + s.cache.pageSize) := by
      constructor
      · exact fun h => h kv hrecord
      · intro h kv' hkv'
        rw [hrecord] at hkv'
        cases hkv'
        exact h
    simp only
    by_cases hholds : kv.holdsKv = true
    · rw [if_pos hholds]
      unfold runCutRetainedKv
      by_cases htree : cut.firstStart < kv.cacheProtectedLen
      · rw [if_pos htree]
        refine .inr ⟨fun h => ?_, _, _, rfl, rfl⟩
        have := (hfits.mp h hholds).1
        omega
      rw [if_neg htree]
      by_cases hcommitted : kv.kvCommittedLen < cut.lastEnd
      · rw [if_pos hcommitted]
        refine .inr ⟨fun h => ?_, _, _, rfl, rfl⟩
        have := (hfits.mp h hholds).2.1
        omega
      rw [if_neg hcommitted]
      have hlayers := @moveLayers_eq K V shiftKeyPositions
        ((keptPositions cut.ranges kv.kvCommittedLen).map (s.reqToToken kv.reqPoolIdx))
        ((List.range' cut.firstStart (kv.kvCommittedLen - cut.length - cut.firstStart)).map
          (s.reqToToken kv.reqPoolIdx))
        (List.zipWith (· - ·) (keptPositions cut.ranges kv.kvCommittedLen)
          (List.range' cut.firstStart (kv.kvCommittedLen - cut.length - cut.firstStart)))
        (s.cache.size + s.cache.pageSize) s.cache.layers
      simp only
      generalize moveLayers shiftKeyPositions _ _ _ _ s.cache.layers = outcome at hlayers
      obtain ⟨layers, fits⟩ := outcome
      obtain ⟨hrows, -⟩ := hlayers
      cases fits with
      | true =>
        rw [if_pos rfl]
        refine .inl ⟨hfits.mpr fun _ => ⟨not_lt.mp htree, not_lt.mp hcommitted, fun layer hlayer => ?_⟩,
          _, rfl, rfl, rfl⟩
        exact beq_iff_eq.mp (List.all_eq_true.mp hrows.symm layer hlayer)
      | false =>
        rw [if_neg Bool.false_ne_true]
        refine .inr ⟨fun h => ?_, _, _, rfl, rfl⟩
        have hall : s.cache.layers.all
            (fun layer => layer.rows == s.cache.size + s.cache.pageSize) = true :=
          List.all_eq_true.mpr fun layer hlayer =>
            beq_iff_eq.mpr ((hfits.mp h hholds).2.2 layer hlayer)
        rw [hall] at hrows
        cases hrows
    · rw [if_neg hholds]
      exact .inl ⟨hfits.mpr fun h => absurd h hholds, s, rfl, rfl, rfl⟩

/-- A cut that raises leaves a session as it was just where the token ids refuse it or nothing does. -/
theorem drop_history_untouched_iff :
    UntouchedIfRaised s (runDropHistory shiftKeyPositions s cut) ↔
      (IdsFit s cut → KvFits s cut ∧ SpansFit s cut) := by
  unfold runDropHistory
  by_cases hids : IdsFit s cut
  · obtain ⟨cutIds, hcut, hshort, hrecord, hcache, hspans⟩ := cutTokenIds_shortens hids
    rw [hcut]
    simp only [hids, true_implies]
    have hsame : KvFits cutIds cut ↔ KvFits s cut := by
      unfold KvFits
      rw [hrecord, hcache]
    -- what is left has the shorter ids
    have htouched : ∀ left : Store K V E, left.native = cutIds.native → ¬ Untouched s left := by
      intro left hnative huntouched
      rw [← hnative, huntouched.native] at hshort
      exact lt_irrefl _ hshort
    rcases runDropKv_cases shiftKeyPositions cutIds cut with
      ⟨hfits, cutKv, hran, hnative, hkept⟩ | ⟨hnot, error, left, hran, hnative⟩
    · rw [hran]
      simp only
      have hfits' : KvFits s cut := hsame.mp hfits
      have hiff := @moveSpans_raises_iff E cut cutKv.embeddingSpans
      rw [hkept, hspans] at hiff ⊢
      cases hmoved : moveSpans cut s.embeddingSpans with
      | error error =>
        have hcross : ¬ SpansFit s cut := hiff.mp ⟨error, hmoved⟩
        constructor
        · intro h
          exact absurd (h error cutKv rfl) (htouched cutKv hnative)
        · exact fun h => absurd h.2 hcross
      | ok moved =>
        constructor
        · intro _
          refine ⟨hfits', ?_⟩
          by_contra hcross
          obtain ⟨error, herror⟩ := hiff.mpr hcross
          rw [hmoved] at herror
          cases herror
        · intro _ error left hraised
          cases hraised
    · rw [hran]
      constructor
      · intro h
        exact absurd (h error left rfl) (htouched left hnative)
      · exact fun h => absurd (hsame.mpr h.1) hnot
  · obtain ⟨error, herror⟩ := cutTokenIds_raises hids
    rw [herror]
    constructor
    · exact fun _ h => absurd h hids
    · intro _ error' left hraised
      cases hraised
      exact ⟨rfl, rfl, rfl, rfl⟩

/-- Two ranges of a history of eight tokens, of which five have their KV: the token ids lose both, and
the KV refuses the second. -/
theorem drop_history_shortens_ids :
    let cut : HistoryCut := ⟨[(1, 2), (3, 6)], by decide, by decide⟩
    let s : Store Nat Nat Nat := {
      arrays := fun id => if id = 0 then [10, 11, 12, 13, 14, 15, 16, 17] else []
      native := ⟨[⟨0, 0, 0⟩], 8, 8, 8⟩
      record := some ⟨0, 1, 5, 8, true⟩
      reqToToken := fun _ position => position + 2
      pageSize := 2
      cache := ⟨16, 2, [⟨18, fun slot => slot, fun slot => slot⟩]⟩
      freed := []
      embeddingSpans := [⟨6, 8, 0⟩] }
    ∃ left, runDropHistory (fun keys _ => keys) s cut =
        .raised (.passesCommittedKv [(1, 2), (3, 6)] 5) left ∧
      left.arrays 0 = [10, 12, 16, 17] ∧ left.native.committedOriginLen = 4 ∧
      left.record = s.record ∧ ¬ UntouchedIfRaised s (runDropHistory (fun keys _ => keys) s cut) := by
  refine ⟨_, rfl, rfl, rfl, rfl, fun h => ?_⟩
  have hnative := (h _ _ rfl).native
  exact absurd (congrArg NativeSession.committedOriginLen hnative) (by decide)

end History
