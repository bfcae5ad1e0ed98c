import SglangOmni.History.Drop
import Mathlib.Algebra.Order.Ring.Nat
import Mathlib.Data.List.Dedup

/-! What a cut does to a session: the token arrays, the KV that is found through the session row, and
the embedding spans all follow `new_position`. -/

namespace History

open Lib

variable {K V E : Type} {cut : HistoryCut}

/-! ### Token ids -/

theorem delRanges_cons (r : CutRange) (rest : List CutRange) (ids : List Int) :
    delRanges (r :: rest) ids = delRange r (delRanges rest ids) := by
  simp [delRanges, List.foldl_append]

theorem delRanges_eq_sieve {ranges : List CutRange} (h : Apart ranges) (ids : List Int) :
    delRanges ranges ids = sieve (keepsAll ranges) ids := by
  induction ranges with
  | nil => exact (sieve_of_all fun _ _ => rfl).symm
  | cons r rest ih =>
    have hproper : r.1 < r.2 := h.1 r List.mem_cons_self
    have hlater : ∀ r' ∈ rest, r.2 < r'.1 := (List.pairwise_cons.mp h.2).1
    have hearly : ∀ i < r.2, keepsAll rest i = true := fun i hi =>
      keepsAll_of_lt fun r' hr' => lt_trans hi (hlater r' hr')
    have hsame : ∀ i, keepsAll (r :: rest) (i + r.2) = keepsAll rest (i + r.2) := by
      intro i
      rw [keepsAll_cons, decide_eq_false (Nat.not_lt.mpr (Nat.le_add_left r.2 i)), Bool.and_false,
        Bool.not_false, Bool.true_and]
    -- The positions before the end of the first range: those before its start.
    have hfront : sieve (keepsAll (r :: rest)) (ids.take r.2) = ids.take r.1 := by
      rw [sieve_split r.1, List.take_take, min_eq_left hproper.le, sieve_of_all, sieve_of_none,
        List.append_nil]
      · intro i hi
        rw [List.length_drop, List.length_take] at hi
        rw [keepsAll_cons, decide_eq_true (Nat.le_add_left r.1 i), decide_eq_true (by omega)]
        rfl
      · intro i hi
        rw [List.length_take] at hi
        rw [keepsAll_cons, decide_eq_false (by omega), hearly i (by omega)]
        rfl
    have hback : sieve (keepsAll rest) (ids.take r.2) = ids.take r.2 := by
      refine sieve_of_all fun i hi => hearly i ?_
      rw [List.length_take] at hi
      omega
    have hall : sieve (keepsAll (r :: rest)) ids =
        ids.take r.1 ++ sieve (fun i => keepsAll rest (i + r.2)) (ids.drop r.2) := by
      rw [sieve_split r.2, hfront, sieve_congr fun i _ => hsame i]
    have hothers : sieve (keepsAll rest) ids =
        ids.take r.2 ++ sieve (fun i => keepsAll rest (i + r.2)) (ids.drop r.2) := by
      rw [sieve_split r.2, hback]
    rw [delRanges_cons, ih h.tail, hall, hothers]
    by_cases hlen : r.2 ≤ ids.length
    · have htake : (ids.take r.2).length = r.2 := List.length_take_of_le hlen
      rw [delRange, List.take_append_of_le_length (by omega), List.take_take,
        min_eq_left hproper.le, List.drop_append_of_le_length (by omega),
        List.drop_of_length_le (by omega), List.nil_append]
    · have hall : ids.take r.2 = ids := List.take_of_length_le (by omega)
      have hnone : ids.drop r.2 = [] := List.drop_of_length_le (by omega)
      rw [hall, hnone, sieve_nil, List.append_nil, List.append_nil, delRange, hnone,
        List.append_nil]

theorem foldl_update_nodup {α : Type} (f : α → α) (ids : List Nat) (arrays : Nat → α)
    (h : ids.Nodup) (id : Nat) :
    ids.foldl (fun arrays id => Function.update arrays id (f (arrays id))) arrays id =
      if id ∈ ids then f (arrays id) else arrays id := by
  induction ids generalizing arrays with
  | nil => rfl
  | cons first rest ih =>
    obtain ⟨hnew, hrest⟩ := List.nodup_cons.mp h
    rw [List.foldl_cons, ih _ hrest]
    by_cases he : id = first
    · subst he
      simp [hnew]
    · simp [he]

/-! ### KV -/

theorem keptPositions_cons (r r' : CutRange) (rest : List CutRange) (n : Nat) :
    keptPositions (r :: r' :: rest) n =
      List.range' r.2 (r'.1 - r.2) ++ keptPositions (r' :: rest) n := rfl

theorem keptPositions_singleton (r : CutRange) (n : Nat) :
    keptPositions [r] n = List.range' r.2 (n - r.2) := by
  simp [keptPositions]

theorem range'_split {lo mid hi : Nat} (h : lo ≤ mid) (h' : mid ≤ hi) :
    List.range' lo (hi - lo) = List.range' lo (mid - lo) ++ List.range' mid (hi - mid) := by
  have hmid : mid = lo + (mid - lo) := by omega
  have hlen : hi - lo = (mid - lo) + (hi - mid) := by omega
  conv_rhs => rw [hmid]
  rw [hlen, ← List.range'_append_1]
  congr 2 <;> omega

theorem filter_keepsAll_first {r : CutRange} {rest : List CutRange} {lo n : Nat}
    (h : Apart (r :: rest)) (hlo : lo ≤ r.1) (hend : r.2 ≤ n) :
    (List.range' lo (n - lo)).filter (keepsAll (r :: rest)) =
      List.range' lo (r.1 - lo) ++ (List.range' r.2 (n - r.2)).filter (keepsAll rest) := by
  have hproper : r.1 < r.2 := h.1 r List.mem_cons_self
  have hlater : ∀ r' ∈ rest, r.2 < r'.1 := (List.pairwise_cons.mp h.2).1
  have hfront : (List.range' lo (r.1 - lo)).filter (keepsAll (r :: rest)) =
      List.range' lo (r.1 - lo) := by
    refine List.filter_eq_self.mpr fun p hp => keepsAll_of_lt fun r' hr' => ?_
    rw [List.mem_range'_1] at hp
    rcases List.mem_cons.mp hr' with rfl | hr'
    · omega
    · have := hlater r' hr'
      omega
  have hhole : (List.range' r.1 (r.2 - r.1)).filter (keepsAll (r :: rest)) = [] := by
    refine List.filter_eq_nil_iff.mpr fun p hp hkeep => ?_
    rw [List.mem_range'_1] at hp
    exact keepsAll_iff.mp hkeep r List.mem_cons_self ⟨hp.1, by omega⟩
  have hback : (List.range' r.2 (n - r.2)).filter (keepsAll (r :: rest)) =
      (List.range' r.2 (n - r.2)).filter (keepsAll rest) := by
    refine List.filter_congr fun p hp => ?_
    rw [List.mem_range'_1] at hp
    rw [keepsAll_cons, decide_eq_false (Nat.not_lt.mpr hp.1), Bool.and_false, Bool.not_false,
      Bool.true_and]
  rw [range'_split hlo (by omega : r.1 ≤ n), range'_split hproper.le hend, List.filter_append,
    List.filter_append, hfront, hhole, hback, List.nil_append]

theorem filter_keepsAll {r : CutRange} {rest : List CutRange} {lo n : Nat} (h : Apart (r :: rest))
    (hlo : lo ≤ r.1) (hn : ∀ r' ∈ r :: rest, r'.2 ≤ n) :
    (List.range' lo (n - lo)).filter (keepsAll (r :: rest)) =
      List.range' lo (r.1 - lo) ++ keptPositions (r :: rest) n := by
  rw [filter_keepsAll_first h hlo (hn r List.mem_cons_self)]
  congr 1
  induction rest generalizing r lo with
  | nil =>
    rw [keptPositions_singleton]
    exact List.filter_eq_self.mpr fun _ _ => rfl
  | cons r' rest ih =>
    have hnext : r.2 ≤ r'.1 := ((List.pairwise_cons.mp h.2).1 r' List.mem_cons_self).le
    have hmem : ∀ r'' ∈ r' :: rest, r''.2 ≤ n := fun r'' hr'' => hn r'' (List.mem_cons_of_mem _ hr'')
    rw [filter_keepsAll_first h.tail hnext (hmem r' List.mem_cons_self),
      ih h.tail (le_refl r'.1) hmem, keptPositions_cons]

variable {n p : Nat}

theorem filter_keeps (hn : cut.lastEnd ≤ n) :
    (List.range n).filter cut.keeps = List.range cut.firstStart ++ keptPositions cut.ranges n := by
  obtain ⟨r, rest, hranges⟩ := List.exists_cons_of_ne_nil cut.ranges_ne_nil
  have hfirst : cut.firstStart = r.1 := by
    simp only [HistoryCut.firstStart, hranges, List.head_cons]
  have hends : ∀ r' ∈ r :: rest, r'.2 ≤ n := by
    intro r' hr'
    rw [← hranges] at hr'
    exact (cut.le_lastEnd hr').trans hn
  have happly := filter_keepsAll (hranges ▸ cut.apart) (Nat.zero_le r.1) hends
  rw [Nat.sub_zero, Nat.sub_zero, ← List.range_eq_range', ← List.range_eq_range'] at happly
  have hkeeps : cut.keeps = keepsAll (r :: rest) := by
    funext q
    rw [HistoryCut.keeps, hranges]
  rw [hfirst, hkeeps, hranges, ← happly]

theorem newPosition_of_lt (h : p ≤ cut.firstStart) : cut.newPosition p = p := by
  obtain ⟨r, rest, hranges⟩ := List.exists_cons_of_ne_nil cut.ranges_ne_nil
  have hfirst : cut.firstStart = r.1 := by
    simp only [HistoryCut.firstStart, hranges, List.head_cons]
  have hapart : Apart (r :: rest) := hranges ▸ cut.apart
  rw [cut.newPosition_eq_count, Nat.count_iff_forall]
  intro q hq
  rw [HistoryCut.keeps, hranges]
  refine keepsAll_of_lt fun r' hr' => ?_
  rcases List.mem_cons.mp hr' with rfl | hr'
  · omega
  · have hlater := (List.pairwise_cons.mp hapart.2).1 r' hr'
    have hproper := hapart.1 r List.mem_cons_self
    omega

theorem firstStart_le_newPosition (h : cut.firstStart ≤ p) : cut.firstStart ≤ cut.newPosition p := by
  have hmono : cut.newPosition cut.firstStart ≤ cut.newPosition p := by
    rw [cut.newPosition_eq_count, cut.newPosition_eq_count]
    exact Nat.count_monotone _ h
  rw [newPosition_of_lt (le_refl _)] at hmono
  exact hmono

theorem getElem?_keptPositions (hn : cut.lastEnd ≤ n) (hp : p < n) (hkeep : cut.keeps p = true)
    (hfirst : cut.firstStart ≤ p) :
    (keptPositions cut.ranges n)[cut.newPosition p - cut.firstStart]? = some p := by
  have hat : ((List.range n).filter cut.keeps)[cut.newPosition p]? = some p := by
    rw [← sieve_range, cut.newPosition_eq_count, getElem?_sieve _ hkeep, List.getElem?_range hp]
  have hle := firstStart_le_newPosition hfirst
  rw [filter_keeps hn, List.getElem?_append_right (by simpa using hle), List.length_range] at hat
  exact hat

theorem newPosition_lt (hn : cut.lastEnd ≤ n) (hp : p < n) (hkeep : cut.keeps p = true) :
    cut.newPosition p < n - cut.length :=
  (cut.newPosition_bijOn hn).mapsTo ⟨hp, hkeep⟩

theorem newPosition_lt_self (hkeep : cut.keeps p = true) (hfirst : cut.firstStart ≤ p) :
    cut.newPosition p < p := by
  obtain ⟨r, rest, hranges⟩ := List.exists_cons_of_ne_nil cut.ranges_ne_nil
  have hstart : cut.firstStart = r.1 := by
    simp only [HistoryCut.firstStart, hranges, List.head_cons]
  have hmem : r ∈ cut.ranges := hranges ▸ List.mem_cons_self
  have hproper := cut.apart.1 r hmem
  have hout := keepsAll_iff.mp hkeep r hmem
  have hsome : 0 < below p r := by
    unfold below
    rw [if_pos (by omega)]
    omega
  have hsum : below p r ≤ (cut.ranges.map (below p)).sum :=
    List.single_le_sum (fun _ _ => Nat.zero_le _) _ (List.mem_map_of_mem hmem)
  unfold HistoryCut.newPosition
  omega

/-! Rows that are copied to distinct slots. -/

theorem indexCopy_of_not_mem {α : Type} (buffer : Nat → α) (slots : List Nat) (rows : List α)
    {slot : Nat} (h : slot ∉ slots) : indexCopy buffer slots rows slot = buffer slot := by
  unfold indexCopy
  induction slots generalizing buffer rows with
  | nil => rfl
  | cons first rest ih =>
    cases rows with
    | nil => rfl
    | cons row rows =>
      rw [List.zip_cons_cons, List.foldl_cons, ih _ _ fun hm => h (List.mem_cons_of_mem _ hm)]
      exact Function.update_of_ne (fun he : slot = first => h (he ▸ List.mem_cons_self)) ..

theorem indexCopy_getElem? {α : Type} (buffer : Nat → α) {slots : List Nat} {rows : List α}
    {i slot : Nat} {row : α} (h : slots.Nodup) (hslot : slots[i]? = some slot)
    (hrow : rows[i]? = some row) : indexCopy buffer slots rows slot = row := by
  induction slots generalizing buffer rows i with
  | nil => cases hslot
  | cons first rest ih =>
    obtain ⟨hnew, hrest⟩ := List.nodup_cons.mp h
    cases rows with
    | nil => cases hrow
    | cons row' rows =>
      cases i with
      | zero =>
        obtain rfl : first = slot := by simpa using hslot
        obtain rfl : row' = row := by simpa using hrow
        have hlater := indexCopy_of_not_mem (Function.update buffer first row') rest rows hnew
        rw [Function.update_self] at hlater
        exact hlater
      | succ i => exact ih (Function.update buffer first row') hrest hslot hrow

theorem nodup_slots {row : Nat → Nat} {n lo len : Nat}
    (hrow : ∀ i < n, ∀ j < n, row i = row j → i = j) (hle : lo + len ≤ n) :
    ((List.range' lo len).map row).Nodup := by
  refine List.Nodup.map_on (fun i hi j hj he => ?_) (List.nodup_range' ..)
  rw [List.mem_range'_1] at hi hj
  exact hrow i (by omega) j (by omega) he

theorem getElem?_movedPositions (hn : cut.lastEnd ≤ n) (hp : p < n) (hkeep : cut.keeps p = true)
    (hfirst : cut.firstStart ≤ p) :
    (List.range' cut.firstStart (n - cut.length - cut.firstStart))[cut.newPosition p -
      cut.firstStart]? = some (cut.newPosition p) := by
  have hlands := newPosition_lt hn hp hkeep
  have hle := firstStart_le_newPosition hfirst
  rw [List.getElem?_range' (by omega)]
  congr 1
  omega

theorem indexCopy_moved {α : Type} {row : Nat → Nat} {buffer : Nat → α} {rows : List α} {x : α}
    (hrow : ∀ i < n, ∀ j < n, row i = row j → i = j) (hn : cut.lastEnd ≤ n) (hp : p < n)
    (hkeep : cut.keeps p = true)
    (hx : cut.firstStart ≤ p → rows[cut.newPosition p - cut.firstStart]? = some x) :
    indexCopy buffer ((List.range' cut.firstStart (n - cut.length - cut.firstStart)).map row) rows
        (row (cut.newPosition p)) =
      if p = cut.newPosition p then buffer (row p) else x := by
  have hlength := cut.length_le hn
  by_cases hfirst : cut.firstStart ≤ p
  · have hself := newPosition_lt_self hkeep hfirst
    have hlands := newPosition_lt hn hp hkeep
    have hle := firstStart_le_newPosition hfirst
    rw [if_neg (by omega)]
    refine indexCopy_getElem? (i := cut.newPosition p - cut.firstStart) buffer
      (nodup_slots hrow (by omega)) ?_ (hx hfirst)
    rw [List.getElem?_map, getElem?_movedPositions hn hp hkeep hfirst]
    rfl
  · have hsame : cut.newPosition p = p := newPosition_of_lt (Nat.le_of_not_le hfirst)
    rw [hsame, if_pos rfl]
    refine indexCopy_of_not_mem _ _ _ fun hmem => ?_
    obtain ⟨q, hq, he⟩ := List.mem_map.mp hmem
    rw [List.mem_range'_1] at hq
    have := hrow q (by omega) p hp he
    omega

/-! ### Spans -/

def Respects (cut : HistoryCut) (span : EmbeddingSpan E) : Prop :=
  ∀ r ∈ cut.ranges,
    (r.1 ≤ span.start ∧ span.stop ≤ r.2) ∨ span.stop ≤ r.1 ∨ r.2 ≤ span.start

def goesWith (cut : HistoryCut) (span : EmbeddingSpan E) : Bool :=
  cut.ranges.any fun r => decide (r.1 ≤ span.start) && decide (span.stop ≤ r.2)

def EmbeddingSpan.moved (cut : HistoryCut) (span : EmbeddingSpan E) : EmbeddingSpan E :=
  ⟨cut.newPosition span.start, cut.newPosition span.stop, span.inputEmbeds⟩

def EmbeddingSpan.covers {α : Type} (span : EmbeddingSpan E) (tokens : List α) : List α :=
  (tokens.drop span.start).take (span.stop - span.start)

theorem dropsIn_eq {ranges : List CutRange} {start stop : Nat}
    (h : ∀ r ∈ ranges, (r.1 ≤ start ∧ stop ≤ r.2) ∨ stop ≤ r.1 ∨ r.2 ≤ start) :
    cut.dropsIn start stop ranges =
      .ok (ranges.any fun r => decide (r.1 ≤ start) && decide (stop ≤ r.2)) := by
  induction ranges with
  | nil => rfl
  | cons r rest ih =>
    unfold HistoryCut.dropsIn
    by_cases hin : r.1 ≤ start ∧ stop ≤ r.2
    · rw [if_pos hin, List.any_cons, decide_eq_true hin.1, decide_eq_true hin.2]
      rfl
    · have hout : (decide (r.1 ≤ start) && decide (stop ≤ r.2)) = false := by
        rw [← Bool.decide_and]
        exact decide_eq_false hin
      rw [if_neg hin, if_pos ((h r List.mem_cons_self).resolve_left hin), List.any_cons, hout,
        Bool.false_or]
      exact ih fun r' hr' => h r' (List.mem_cons_of_mem _ hr')

theorem moveSpans_eq {spans : List (EmbeddingSpan E)} (h : ∀ span ∈ spans, Respects cut span) :
    moveSpans cut spans =
      .ok ((spans.filter fun span => !goesWith cut span).map (EmbeddingSpan.moved cut)) := by
  induction spans with
  | nil => rfl
  | cons span rest ih =>
    have hdrops : cut.drops span.start span.stop = .ok (goesWith cut span) :=
      dropsIn_eq (h span List.mem_cons_self)
    rw [moveSpans, hdrops, ih fun s hs => h s (List.mem_cons_of_mem _ hs)]
    cases hgoes : goesWith cut span with
    | true =>
      rw [List.filter_cons_of_neg (by simp [hgoes])]
      rfl
    | false =>
      rw [List.filter_cons_of_pos (by simp [hgoes])]
      rfl

theorem covers_moved {α : Type} {span : EmbeddingSpan E} (hspan : Respects cut span)
    (hstays : goesWith cut span = false) (tokens : List α) :
    (span.moved cut).covers (sieve cut.keeps tokens) = span.covers tokens := by
  have hkeeps : ∀ i < span.stop - span.start, cut.keeps (span.start + i) = true := by
    intro i hi
    refine keepsAll_iff.mpr fun r hr hin => ?_
    rcases hspan r hr with hinside | happart | happart
    · have hgoes : goesWith cut span = true :=
        List.any_eq_true.mpr ⟨r, hr, by simp [hinside.1, hinside.2]⟩
      rw [hgoes] at hstays
      cases hstays
    · omega
    · omega
  have hlength : cut.newPosition span.stop - cut.newPosition span.start =
      span.stop - span.start := by
    rw [cut.newPosition_eq_count, cut.newPosition_eq_count]
    by_cases hle : span.start ≤ span.stop
    · have hall := count_add_of_all hkeeps
      rw [Nat.add_sub_cancel' hle] at hall
      omega
    · have hmono := Nat.count_monotone (cut.keeps · = true) (Nat.le_of_not_le hle)
      omega
  unfold EmbeddingSpan.covers EmbeddingSpan.moved
  rw [hlength, cut.newPosition_eq_count]
  exact sieve_slice tokens hkeeps

/-! ### The whole cut -/

/-- An idle session that a cut fits: it has one node, the cut is within its committed ids and its
committed KV and past its tree-owned prefix, no span crosses the cut, and the committed positions of
its row have a slot each. -/
structure Fits (cut : HistoryCut) (request : LastRequest) (s : Store K V E) : Prop where
  node : s.native.reqNodes = [request]
  origin : cut.lastEnd ≤ s.native.committedOriginLen
  unpadded : cut.lastEnd ≤ s.native.committedUnpaddedLen
  fill : cut.lastEnd ≤ s.native.committedFillLen
  tree : ∀ kv ∈ s.record, kv.holdsKv = true → kv.cacheProtectedLen ≤ cut.firstStart
  committed : ∀ kv ∈ s.record, kv.holdsKv = true → cut.lastEnd ≤ kv.kvCommittedLen
  slots : ∀ kv ∈ s.record, kv.holdsKv = true → ∀ i < kv.kvCommittedLen, ∀ j < kv.kvCommittedLen,
    s.reqToToken kv.reqPoolIdx i = s.reqToToken kv.reqPoolIdx j → i = j
  layers : ∀ layer ∈ s.cache.layers, layer.rows = s.cache.size + s.cache.pageSize
  spans : ∀ span ∈ s.embeddingSpans, Respects cut span

def shifted (shiftKey : K → Nat → K) (key : K) (distance : Nat) : K :=
  if distance = 0 then key else shiftKey key distance

structure LayerMoved (shiftKey : K → Nat → K) (cut : HistoryCut) (kv : RetainedKv) (row : Nat → Nat)
    (layer layer' : Layer K V) : Prop where
  key : ∀ p < kv.kvCommittedLen, cut.keeps p = true →
    layer'.key (row (cut.newPosition p)) =
      shifted shiftKey (layer.key (row p)) (p - cut.newPosition p)
  value : ∀ p < kv.kvCommittedLen, cut.keeps p = true →
    layer'.value (row (cut.newPosition p)) = layer.value (row p)

structure KvMoved (shiftKey : K → Nat → K) (cut : HistoryCut) (kv : RetainedKv)
    (s s' : Store K V E) : Prop where
  record : s'.record = some { kv with
    kvAllocatedLen := kv.kvCommittedLen - cut.length
    kvCommittedLen := kv.kvCommittedLen - cut.length }
  layers : List.Forall₂ (LayerMoved shiftKey cut kv (s'.reqToToken kv.reqPoolIdx)) s.cache.layers
    s'.cache.layers
  freed : s'.freed = s.freed ++
    (List.range' (ceilAlign (kv.kvCommittedLen - cut.length) s.pageSize)
      (kv.kvAllocatedLen - ceilAlign (kv.kvCommittedLen - cut.length) s.pageSize)).map
        (s.reqToToken kv.reqPoolIdx)

/-- A cut applied to a session: `s'` is `s` with the positions of the cut dropped everywhere. -/
structure Applied (shiftKey : K → Nat → K) (cut : HistoryCut) (request : LastRequest)
    (s s' : Store K V E) : Prop where
  arrays : ∀ id, s'.arrays id =
    if id ∈ request.arrayIds then sieve cut.keeps (s.arrays id) else s.arrays id
  origin : s'.native.committedOriginLen + cut.length = s.native.committedOriginLen
  unpadded : s'.native.committedUnpaddedLen + cut.length = s.native.committedUnpaddedLen
  fill : s'.native.committedFillLen + cut.length = s.native.committedFillLen
  increasing : StrictMonoOn cut.newPosition {p | cut.keeps p = true}
  onto : ∀ n, cut.lastEnd ≤ n →
    Set.BijOn cut.newPosition {p | p < n ∧ cut.keeps p = true} (Set.Iio (n - cut.length))
  row : s'.reqToToken = s.reqToToken
  kv : ∀ kv ∈ s.record, kv.holdsKv = true → KvMoved shiftKey cut kv s s'
  noKv : (∀ kv ∈ s.record, kv.holdsKv = false) →
    s'.cache = s.cache ∧ s'.freed = s.freed ∧ s'.record = s.record
  spans : s'.embeddingSpans =
    (s.embeddingSpans.filter fun span => !goesWith cut span).map (EmbeddingSpan.moved cut)
  covered : ∀ span ∈ s.embeddingSpans, goesWith cut span = false → ∀ id ∈ request.arrayIds,
    (span.moved cut).covers (s'.arrays id) = span.covers (s.arrays id)

variable {request : LastRequest} {s : Store K V E} {shiftKey : K → Nat → K}
  {shiftKeyPositions : List K → List Nat → List K}

theorem cutTokenIds_ok (h : Fits cut request s) :
    ∃ arrays native, cutTokenIds s cut = .ok { s with arrays := arrays, native := native } ∧
      (∀ id, arrays id = if id ∈ request.arrayIds then sieve cut.keeps (s.arrays id) else s.arrays id) ∧
      native.committedOriginLen + cut.length = s.native.committedOriginLen ∧
      native.committedUnpaddedLen + cut.length = s.native.committedUnpaddedLen ∧
      native.committedFillLen + cut.length = s.native.committedFillLen := by
  have hfits : cut.lastEnd ≤ min (min s.native.committedOriginLen s.native.committedUnpaddedLen)
      s.native.committedFillLen := le_min (le_min h.origin h.unpadded) h.fill
  have horigin := cut.length_le h.origin
  have hunpadded := cut.length_le h.unpadded
  have hfill := cut.length_le h.fill
  simp only [cutTokenIds, h.node, if_pos hfits]
  refine ⟨_, _, rfl, fun id => ?_, ?_, ?_, ?_⟩
  · rw [foldl_update_nodup (delRanges cut.ranges) request.arrayIds _ (List.nodup_dedup _)]
    simp only [delRanges_eq_sieve cut.apart]
    rfl
  · exact Nat.sub_add_cancel horigin
  · exact Nat.sub_add_cancel hunpadded
  · exact Nat.sub_add_cancel hfill

theorem moveLayer_moved {kv : RetainedKv} {row : Nat → Nat}
    (hrowwise : ∀ keys distances,
      shiftKeyPositions keys distances = List.zipWith shiftKey keys distances)
    (hend : cut.lastEnd ≤ kv.kvCommittedLen)
    (hslots : ∀ i < kv.kvCommittedLen, ∀ j < kv.kvCommittedLen, row i = row j → i = j)
    (layer : Layer K V) :
    LayerMoved shiftKey cut kv row layer
      (moveLayer shiftKeyPositions ((keptPositions cut.ranges kv.kvCommittedLen).map row)
        ((List.range' cut.firstStart (kv.kvCommittedLen - cut.length - cut.firstStart)).map row)
        (List.zipWith (· - ·) (keptPositions cut.ranges kv.kvCommittedLen)
          (List.range' cut.firstStart (kv.kvCommittedLen - cut.length - cut.firstStart)))
        layer) := by
  constructor
  · intro p hp hkeep
    have hle := cut.newPosition_le p
    have hmoved : cut.firstStart ≤ p →
        (List.zipWith shiftKey (indexSelect layer.key
          ((keptPositions cut.ranges kv.kvCommittedLen).map row))
          (List.zipWith (· - ·) (keptPositions cut.ranges kv.kvCommittedLen)
            (List.range' cut.firstStart (kv.kvCommittedLen - cut.length - cut.firstStart))))[
              cut.newPosition p - cut.firstStart]? =
          some (shiftKey (layer.key (row p)) (p - cut.newPosition p)) := by
      intro hfirst
      rw [List.getElem?_zipWith, indexSelect, List.getElem?_map, List.getElem?_map,
        List.getElem?_zipWith, getElem?_keptPositions hend hp hkeep hfirst,
        getElem?_movedPositions hend hp hkeep hfirst]
      rfl
    simp only [moveLayer, hrowwise]
    rw [indexCopy_moved hslots hend hp hkeep hmoved, shifted]
    exact if_congr (by omega) rfl rfl
  · intro p hp hkeep
    have hmoved : cut.firstStart ≤ p →
        (indexSelect layer.value ((keptPositions cut.ranges kv.kvCommittedLen).map row))[
          cut.newPosition p - cut.firstStart]? = some (layer.value (row p)) := by
      intro hfirst
      rw [indexSelect, List.getElem?_map, List.getElem?_map,
        getElem?_keptPositions hend hp hkeep hfirst]
      rfl
    simp only [moveLayer]
    rw [indexCopy_moved hslots hend hp hkeep hmoved, ite_self]

theorem cutRetainedKv_ok {kv : RetainedKv}
    (hrowwise : ∀ keys distances,
      shiftKeyPositions keys distances = List.zipWith shiftKey keys distances)
    (htree : kv.cacheProtectedLen ≤ cut.firstStart) (hend : cut.lastEnd ≤ kv.kvCommittedLen)
    (hslots : ∀ i < kv.kvCommittedLen, ∀ j < kv.kvCommittedLen,
      s.reqToToken kv.reqPoolIdx i = s.reqToToken kv.reqPoolIdx j → i = j)
    (hlayers : ∀ layer ∈ s.cache.layers, layer.rows = s.cache.size + s.cache.pageSize) :
    ∃ s', cutRetainedKv shiftKeyPositions s kv cut = .ok s' ∧ s'.arrays = s.arrays ∧
      s'.native = s.native ∧ s'.reqToToken = s.reqToToken ∧
      s'.embeddingSpans = s.embeddingSpans ∧ KvMoved shiftKey cut kv s s' := by
  have hrows : (s.cache.layers.all fun layer =>
      layer.rows == s.cache.size + s.cache.pageSize) = true :=
    List.all_eq_true.mpr fun layer hlayer => beq_iff_eq.mpr (hlayers layer hlayer)
  rw [cutRetainedKv, if_neg (Nat.not_lt.mpr htree), if_neg (Nat.not_lt.mpr hend), if_pos hrows]
  refine ⟨_, rfl, rfl, rfl, rfl, rfl, rfl, ?_, ?_⟩
  · rw [List.forall₂_map_right_iff]
    exact List.forall₂_same.mpr fun layer _ => moveLayer_moved hrowwise hend hslots layer
  · simp only
    split
    · rfl
    · next hnone =>
      rw [Nat.sub_eq_zero_of_le (Nat.not_lt.mp hnone)]
      simp

/-- What `dropKv` does to a store, whether the session holds KV or not. -/
structure KvDropped (shiftKey : K → Nat → K) (cut : HistoryCut) (s s' : Store K V E) : Prop where
  arrays : s'.arrays = s.arrays
  native : s'.native = s.native
  row : s'.reqToToken = s.reqToToken
  spans : s'.embeddingSpans = s.embeddingSpans
  kv : ∀ kv ∈ s.record, kv.holdsKv = true → KvMoved shiftKey cut kv s s'
  noKv : (∀ kv ∈ s.record, kv.holdsKv = false) →
    s'.cache = s.cache ∧ s'.freed = s.freed ∧ s'.record = s.record

theorem KvDropped.refl (hnone : ∀ kv ∈ s.record, kv.holdsKv = false) :
    KvDropped shiftKey cut s s := by
  refine ⟨rfl, rfl, rfl, rfl, fun kv hkv hholds => ?_, fun _ => ⟨rfl, rfl, rfl⟩⟩
  rw [hnone kv hkv] at hholds
  cases hholds

theorem dropKv_ok
    (hrowwise : ∀ keys distances,
      shiftKeyPositions keys distances = List.zipWith shiftKey keys distances)
    (h : Fits cut request s) (arrays : Nat → List Int) (native : NativeSession) :
    ∃ s', dropKv shiftKeyPositions { s with arrays := arrays, native := native } cut = .ok s' ∧
      KvDropped shiftKey cut { s with arrays := arrays, native := native } s' := by
  unfold dropKv
  cases hrecord : s.record with
  | none =>
    refine ⟨_, rfl, .refl fun kv hkv => ?_⟩
    cases hkv
  | some kv =>
    cases hholds : kv.holdsKv with
    | false =>
      refine ⟨_, ?_, .refl fun kv' hkv' => ?_⟩
      · simp only [hholds, Bool.false_eq_true, if_false]
      · cases hkv'
        exact hholds
    | true =>
      obtain ⟨s', hs', harrays, hnative, hrow, hspans, hmoved⟩ :=
        cutRetainedKv_ok (s := { s with arrays := arrays, native := native }) hrowwise
          (h.tree kv hrecord hholds) (h.committed kv hrecord hholds) (h.slots kv hrecord hholds)
          h.layers
      refine ⟨s', ?_, harrays, hnative, hrow, hspans, fun kv' hkv' _ => ?_, fun hnone => ?_⟩
      · simp only [hholds, if_true]
        rw [hrecord] at hs'
        exact hs'
      · cases hkv'
        rw [hrecord] at hmoved
        exact hmoved
      · rw [hnone kv rfl] at hholds
        cases hholds

/-- A cut that fits an idle session is applied to its ids, its KV and its spans alike. -/
theorem drop_history_applies
    (hrowwise : ∀ keys distances,
      shiftKeyPositions keys distances = List.zipWith shiftKey keys distances)
    (h : Fits cut request s) :
    ∃ s', dropHistory shiftKeyPositions s cut = .ok s' ∧ Applied shiftKey cut request s s' := by
  obtain ⟨arrays, native, hids, harrays, horigin, hunpadded, hfill⟩ := cutTokenIds_ok h
  obtain ⟨t, ht, hdropped⟩ := dropKv_ok hrowwise h arrays native
  have hrespect : ∀ span ∈ t.embeddingSpans, Respects cut span := by
    rw [hdropped.spans]
    exact h.spans
  have hspans := moveSpans_eq hrespect
  rw [hdropped.spans] at hspans
  refine ⟨{ t with embeddingSpans :=
    (s.embeddingSpans.filter fun span => !goesWith cut span).map (EmbeddingSpan.moved cut) }, ?_, ?_⟩
  · simp only [dropHistory, hids, bind, Except.bind, ht, hdropped.spans, hspans]
    rfl
  constructor
  case arrays =>
    intro id
    simp only [hdropped.arrays]
    exact harrays id
  case origin =>
    simp only [hdropped.native]
    exact horigin
  case unpadded =>
    simp only [hdropped.native]
    exact hunpadded
  case fill =>
    simp only [hdropped.native]
    exact hfill
  case increasing => exact cut.newPosition_strictMonoOn
  case onto => exact fun n hn => cut.newPosition_bijOn hn
  case row => exact hdropped.row
  case kv =>
    intro kv hkv hholds
    have hmoved := hdropped.kv kv hkv hholds
    exact ⟨hmoved.record, hmoved.layers, hmoved.freed⟩
  case noKv => exact hdropped.noKv
  case spans => rfl
  case covered =>
    intro span hspan hstays id hid
    simp only [hdropped.arrays, harrays id, if_pos hid]
    exact covers_moved (h.spans span hspan) hstays _

def twoRanges : HistoryCut := ⟨[(1, 2), (3, 5)], by decide, by decide⟩

/-- A session whose unpadded ids are its origin ids.  A key is its position, a value is its slot. -/
def eightTokens : Store Int Nat String where
  arrays id := if id = 0 then [10, 11, 12, 13, 14, 15, 16, 17] else [20, 21, 22, 23, 24, 25, 26, 27]
  native := ⟨[⟨0, 0, 1⟩], 8, 8, 8⟩
  record := some ⟨0, 1, 8, 8, true⟩
  reqToToken _ position := position + 2
  pageSize := 2
  cache := ⟨16, 2, [⟨18, fun slot => slot - 2, fun slot => slot⟩]⟩
  freed := []
  embeddingSpans := [⟨3, 5, "dropped"⟩, ⟨5, 7, "kept"⟩]

theorem drop_history_applies_eightTokens :
    Fits twoRanges ⟨0, 0, 1⟩ eightTokens ∧
      ∃ s', dropHistory (List.zipWith fun key distance => key - (distance : Int)) eightTokens
          twoRanges = .ok s' ∧
        Applied (fun key distance => key - (distance : Int)) twoRanges ⟨0, 0, 1⟩ eightTokens s' := by
  have hfits : Fits twoRanges ⟨0, 0, 1⟩ eightTokens := by
    refine ⟨rfl, by decide, by decide, by decide, ?_, ?_, ?_, ?_, ?_⟩
    · rintro kv hkv -
      cases hkv
      decide
    · rintro kv hkv -
      cases hkv
      decide
    · rintro kv - - i - j - he
      exact Nat.add_right_cancel he
    · intro layer hlayer
      obtain rfl := List.mem_singleton.mp hlayer
      rfl
    · intro span hspan
      unfold Respects
      revert span
      decide
  exact ⟨hfits, drop_history_applies (fun _ _ => rfl) hfits⟩

end History
