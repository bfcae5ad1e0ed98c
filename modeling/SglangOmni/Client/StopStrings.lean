import Mathlib.Data.List.Basic
import Mathlib.Data.List.Infix

/-! Stop strings in `client/client.py`: the text that `Client.completion` returns, and the pieces that
`Client.completion_stream` yields. -/

namespace Client

abbrev Text := List Char

def find (sub : Text) : Text → Option ℕ
  | [] => if sub = [] then some 0 else none
  | c :: rest => if sub.isPrefixOf (c :: rest) then some 0 else (find sub rest).map (· + 1)

def stopStringStart (text : Text) (stop : List Text) : Option ℕ := stop.findSome? fun s => find s text

def cutAt (text : Text) (stop : List Text) : Text :=
  (stopStringStart text stop).elim text text.take

structure StreamedStopTrimmer where
  stop : List Text
  heldText : Text := []
  isStopped : Bool := false

def heldLengths (stop : List Text) (text : Text) : List ℕ :=
  stop.flatMap fun s =>
    (List.range' 1 (min text.length (s.length - 1))).filter fun n => (s.take n).isSuffixOf text

def heldLength (stop : List Text) (text : Text) : ℕ := (heldLengths stop text).max?.getD 0

namespace StreamedStopTrimmer

variable (t : StreamedStopTrimmer)

def push (text : Text) : Text × StreamedStopTrimmer :=
  if t.isStopped then ([], t)
  else
    let held := t.heldText ++ text
    match stopStringStart held t.stop with
    | some start => (held.take start, { t with isStopped := true, heldText := [] })
    | none =>
      let released := held.length - heldLength t.stop held
      (held.take released, { t with heldText := held.drop released })

def finish : Text × StreamedStopTrimmer :=
  (if t.isStopped then [] else t.heldText, { t with heldText := [] })

end StreamedStopTrimmer

structure GenerateChunk where
  text : Option Text
  isText : Bool := true
  isFinished : Bool := false

def orNone (text : Text) : Option Text := if text = [] then none else some text

/-- `Client.completion`: the text that it returns. -/
def completionText (stop : List Text) (chunks : List GenerateChunk) : Text :=
  cutAt (chunks.flatMap fun chunk => chunk.text.getD []) stop

/-- The state of `Client.completion_stream`. -/
structure CompletionStream where
  streamedText : Text := []
  trimmer : Option StreamedStopTrimmer

namespace CompletionStream

variable (s : CompletionStream) (chunk : GenerateChunk)

/-- The text of a chunk without what was streamed, and the text that was streamed with it. -/
def unstreamed : Option Text × Text :=
  match chunk.text with
  | none => (none, s.streamedText)
  | some text =>
    if chunk.isText ∧ text ≠ [] then
      if ¬chunk.isFinished then (some text, s.streamedText ++ text)
      else if s.streamedText ≠ [] ∧ s.streamedText.isPrefixOf text then
        (orNone (text.drop s.streamedText.length), s.streamedText)
      else (some text, s.streamedText)
    else (some text, s.streamedText)

def next : Option Text × CompletionStream :=
  let (text, streamedText) := s.unstreamed chunk
  let (text, trimmer) := match s.trimmer, text with
    | some trimmer, some pushed =>
      if chunk.isText ∧ pushed ≠ [] then
        let (released, trimmer) := trimmer.push pushed
        (orNone released, some trimmer)
      else (text, some trimmer)
    | trimmer, text => (text, trimmer)
  if chunk.isText ∧ chunk.isFinished then
    match trimmer with
    | none => (text, { streamedText, trimmer })
    | some trimmer =>
      let (held, trimmer) := trimmer.finish
      (if held = [] then text else some (text.getD [] ++ held), { streamedText, trimmer := some trimmer })
  else (text, { streamedText, trimmer })

def yielded (s : CompletionStream) : List GenerateChunk → List (Option Text)
  | [] => s.trimmer.toList.filterMap fun trimmer => some (orNone trimmer.finish.1)
  | chunk :: rest => (s.next chunk).1 :: yielded (s.next chunk).2 rest

end CompletionStream

/-- `Client.completion_stream`: its text. -/
def streamedText (stop : List Text) (chunks : List GenerateChunk) : Text :=
  (CompletionStream.yielded ⟨[], if stop = [] then none else some { stop }⟩ chunks).flatMap (Option.getD · [])

/-! ### The first occurrence -/

section Find

variable {sub text x y : Text} {i : ℕ} {stop : List Text}

theorem find_eq_some_iff : find sub text = some i ↔
    i ≤ text.length ∧ sub <+: text.drop i ∧ ∀ j < i, ¬sub <+: text.drop j := by
  induction text generalizing i with
  | nil =>
    unfold find
    split
    · next hnil =>
      subst hnil
      constructor
      · intro h
        cases h
        exact ⟨Nat.le_refl _, List.nil_prefix, nofun⟩
      · rintro ⟨hle, -, -⟩
        rw [Nat.le_zero.mp hle]
    · next hne =>
      refine iff_of_false nofun fun h => hne ?_
      rw [List.drop_nil] at h
      exact List.prefix_nil.mp h.2.1
  | cons c rest ih =>
    unfold find
    split
    · next hprefix =>
      rw [List.isPrefixOf_iff_prefix] at hprefix
      constructor
      · intro h
        cases h
        exact ⟨Nat.zero_le _, hprefix, nofun⟩
      · rintro ⟨-, -, hfirst⟩
        rcases Nat.eq_zero_or_pos i with rfl | hpos
        · rfl
        · exact absurd hprefix (hfirst 0 hpos)
    · next hnot =>
      rw [List.isPrefixOf_iff_prefix] at hnot
      cases i with
      | zero =>
        refine iff_of_false ?_ fun h => hnot h.2.1
        simp
      | succ i =>
        rw [Option.map_eq_some_iff]
        simp only [Nat.add_right_cancel_iff, exists_eq_right, ih, List.length_cons, List.drop_succ_cons,
          Nat.add_le_add_iff_right]
        refine and_congr_right fun _ => and_congr_right fun _ => ⟨fun h j hj => ?_, fun h j hj => ?_⟩
        · cases j with
          | zero => exact hnot
          | succ j => exact h j (Nat.lt_of_succ_lt_succ hj)
        · exact h (j + 1) (Nat.succ_lt_succ hj)

theorem find_append (h : ∀ i < x.length, ¬sub <+: (x ++ y).drop i) :
    find sub (x ++ y) = (find sub y).map (· + x.length) := by
  induction x with
  | nil =>
    show find sub y = (find sub y).map (· + 0)
    cases find sub y <;> rfl
  | cons c x ih =>
    have hhead := h 0 (Nat.succ_pos _)
    have hrest : ∀ i < x.length, ¬sub <+: (x ++ y).drop i := fun i hi => h (i + 1) (Nat.succ_lt_succ hi)
    rw [List.cons_append, find, if_neg (by rwa [List.isPrefixOf_iff_prefix]), ih hrest, Option.map_map]
    rfl

theorem find_eq_none (h : find sub text = none) : ∀ i ≤ text.length, ¬sub <+: text.drop i := by
  induction text with
  | nil =>
    intro i _ hprefix
    rw [List.drop_nil] at hprefix
    rw [find, if_pos (List.prefix_nil.mp hprefix)] at h
    cases h
  | cons c rest ih =>
    unfold find at h
    split at h
    · cases h
    next hnot =>
    rw [List.isPrefixOf_iff_prefix] at hnot
    intro i hi
    cases i with
    | zero => exact hnot
    | succ i => exact ih (Option.map_eq_none_iff.mp h) i (Nat.le_of_succ_le_succ hi)

theorem stopStringStart_le (h : stopStringStart text stop = some i) : i ≤ text.length := by
  obtain ⟨s, -, hs⟩ := List.exists_of_findSome?_eq_some h
  exact (find_eq_some_iff.mp hs).1

theorem stopStringStart_isSome_append (h : (stopStringStart x stop).isSome = true) (y : Text) :
    (stopStringStart (x ++ y) stop).isSome = true := by
  obtain ⟨i, hi⟩ := Option.isSome_iff_exists.mp h
  obtain ⟨s, hmem, hs⟩ := List.exists_of_findSome?_eq_some hi
  obtain ⟨hle, hprefix, -⟩ := find_eq_some_iff.mp hs
  rw [stopStringStart, List.findSome?_isSome_iff]
  refine ⟨s, hmem, ?_⟩
  cases hfind : find s (x ++ y) with
  | some _ => rfl
  | none =>
    refine absurd ( hprefix.trans ?_) (find_eq_none hfind i (by rw [List.length_append]; omega))
    rw [List.drop_append_of_le_length hle]
    exact List.prefix_append _ _

end Find

/-! ### The text held back -/

section Held

variable {stop : List Text} {seen out held delta : Text}

theorem mem_heldLengths {n : ℕ} : n ∈ heldLengths stop seen ↔
    ∃ s ∈ stop, 0 < n ∧ n < s.length ∧ s.take n <:+ seen := by
  simp only [heldLengths, List.mem_flatMap, List.mem_filter, List.mem_range'_1, List.isSuffixOf_iff_suffix]
  refine exists_congr fun s => and_congr_right fun _ => ⟨fun ⟨hrange, hsuffix⟩ => ⟨by omega, by omega, hsuffix⟩,
    fun ⟨hpos, hlt, hsuffix⟩ => ⟨?_, hsuffix⟩⟩
  have hle := hsuffix.length_le
  rw [List.length_take] at hle
  omega

def HoldsBack (stop : List Text) (seen : Text) (n : ℕ) : Prop :=
  ∀ s ∈ stop, ∀ m, 0 < m → m < s.length → s.take m <:+ seen → m ≤ n

theorem heldLength_holdsBack (stop : List Text) (seen : Text) :
    HoldsBack stop seen (heldLength stop seen) ∧ heldLength stop seen ≤ seen.length := by
  unfold heldLength
  cases hmax : (heldLengths stop seen).max? with
  | none =>
    have hnil := List.max?_eq_none_iff.mp hmax
    refine ⟨fun s hs m hpos hlt hsuffix => ?_, Nat.zero_le _⟩
    have hmem := mem_heldLengths.mpr ⟨s, hs, hpos, hlt, hsuffix⟩
    rw [hnil] at hmem
    cases hmem
  | some n =>
    have hle := (List.max?_le_iff hmax).mp (Nat.le_refl n)
    refine ⟨fun s hs m hpos hlt hsuffix => hle m (mem_heldLengths.mpr ⟨s, hs, hpos, hlt, hsuffix⟩), ?_⟩
    obtain ⟨s, -, -, hlt, hsuffix⟩ := mem_heldLengths.mp (List.max?_mem hmax)
    have hlength := hsuffix.length_le
    rw [List.length_take] at hlength
    show n ≤ seen.length
    omega

theorem stopStringStart_append (hseen : out ++ held = seen) (hback : HoldsBack stop seen held.length)
    (hnone : stopStringStart seen stop = none) (delta : Text) :
    stopStringStart (seen ++ delta) stop =
      (stopStringStart (held ++ delta) stop).map (· + out.length) := by
  have hfind : ∀ s ∈ stop, find s (seen ++ delta) = (find s (held ++ delta)).map (· + out.length) := by
    intro s hs
    rw [← hseen, List.append_assoc]
    refine find_append fun i hi hprefix => ?_
    rw [← List.append_assoc, hseen] at hprefix
    have hlength := congrArg List.length hseen
    rw [List.length_append] at hlength
    have hnot : ¬s <+: seen.drop i :=
      find_eq_none (List.findSome?_eq_none_iff.mp hnone s hs) i (by omega)
    rw [List.drop_append_of_le_length (by omega)] at hprefix
    have hlong : (seen.drop i).length < s.length := by
      by_contra hshort
      exact hnot (List.prefix_of_prefix_length_le hprefix (List.prefix_append _ _) (by omega))
    have htake : s.take (seen.drop i).length = seen.drop i := by
      have hpart := List.prefix_of_prefix_length_le (List.prefix_append (seen.drop i) delta) hprefix (by omega)
      exact (List.prefix_iff_eq_take.mp hpart).symm
    have hle := hback s hs (seen.drop i).length (by rw [List.length_drop]; omega) hlong
      (by rw [htake]; exact List.drop_suffix i seen)
    rw [List.length_drop] at hle
    omega
  unfold stopStringStart
  clear hback hnone
  induction stop with
  | nil => rfl
  | cons s rest ih =>
    have hrest := ih fun s' hs' => hfind s' (List.mem_cons_of_mem s hs')
    rw [List.findSome?_cons, List.findSome?_cons, hfind s List.mem_cons_self]
    cases find s (held ++ delta) with
    | none => exact hrest
    | some i => rfl

theorem holdsBack_append {n : ℕ} (hseen : out ++ held = seen) (hback : HoldsBack stop seen held.length)
    (hnext : HoldsBack stop (held ++ delta) n) : HoldsBack stop (seen ++ delta) n := by
  intro s hs m hpos hlt hsuffix
  refine hnext s hs m hpos hlt ?_
  have hwhole : held ++ delta <:+ seen ++ delta := by
    rw [← hseen, List.append_assoc]
    exact List.suffix_append _ _
  refine List.suffix_of_suffix_length_le hsuffix hwhole ?_
  by_contra hlong
  -- the part of a longer end that was seen before is an end that was held back
  rw [List.length_append, List.length_take] at hlong
  obtain ⟨before, hbefore⟩ := hsuffix
  have hpart : s.take (m - delta.length) <:+ seen := by
    refine ⟨before, ?_⟩
    have hcut : (before ++ s.take m).take seen.length = seen := by rw [hbefore, List.take_left]
    have hlength := congrArg List.length hbefore
    simp only [List.length_append, List.length_take] at hlength
    rw [List.take_append, List.take_of_length_le (by omega), List.take_take] at hcut
    rw [show m - delta.length = min (seen.length - before.length) m by omega]
    exact hcut
  have hle := hback s hs (m - delta.length) (by omega) (by omega) hpart
  omega

end Held

/-! ### The text that is streamed -/

section Streamed

variable {stop : List Text} {seen out : Text} {s : CompletionStream}

def deltaChunk (delta : Text) : GenerateChunk := { text := some delta }

def terminalChunk (whole : Text) : GenerateChunk := { text := some whole, isFinished := true }

structure Seeking (stop : List Text) (seen out : Text) (s : CompletionStream) : Prop where
  streamed : s.streamedText = seen
  notFound : stopStringStart seen stop = none
  trimmer : stop = [] ∧ s.trimmer = none ∧ out = seen ∨
    ∃ held, s.trimmer = some ⟨stop, held, false⟩ ∧ out ++ held = seen ∧ HoldsBack stop seen held.length

structure Stopped (stop : List Text) (seen : Text) (s : CompletionStream) : Prop where
  streamed : s.streamedText = seen
  trimmer : s.trimmer = some ⟨stop, [], true⟩

theorem orNone_getD (text : Text) : (orNone text).getD [] = text := by
  unfold orNone
  split
  · next h => exact h.symm
  · rfl

theorem next_delta {delta : Text} (hdelta : delta ≠ []) : s.next (deltaChunk delta) =
    match s.trimmer with
    | none => (some delta, ⟨s.streamedText ++ delta, none⟩)
    | some trimmer =>
      (orNone (trimmer.push delta).1, ⟨s.streamedText ++ delta, some (trimmer.push delta).2⟩) := by
  obtain ⟨streamedText, _ | trimmer⟩ := s <;>
    simp [CompletionStream.next, CompletionStream.unstreamed, deltaChunk, hdelta]

theorem next_empty : s.next (deltaChunk []) = (some [], s) := by
  obtain ⟨streamedText, _ | trimmer⟩ := s <;>
    simp [CompletionStream.next, CompletionStream.unstreamed, deltaChunk]

theorem Seeking.delta (h : Seeking stop seen out s) (delta : Text) :
    stopStringStart (seen ++ delta) stop = none ∧
        Seeking stop (seen ++ delta) (out ++ (s.next (deltaChunk delta)).1.getD []) (s.next (deltaChunk delta)).2 ∨
      ∃ start, stopStringStart (seen ++ delta) stop = some start ∧
        Stopped stop (seen ++ delta) (s.next (deltaChunk delta)).2 ∧
        out ++ (s.next (deltaChunk delta)).1.getD [] = (seen ++ delta).take start := by
  by_cases hdelta : delta = []
  · subst hdelta
    rw [next_empty, List.append_nil]
    refine .inl ⟨h.notFound, ?_⟩
    rwa [Option.getD_some, List.append_nil]
  rw [next_delta hdelta]
  rcases h.trimmer with ⟨rfl, htrimmer, rfl⟩ | ⟨held, htrimmer, hseen, hback⟩
  · rw [htrimmer]
    exact .inl ⟨rfl, ⟨by rw [h.streamed], rfl, .inl ⟨rfl, rfl, rfl⟩⟩⟩
  rw [htrimmer]
  have hstart := stopStringStart_append hseen hback h.notFound delta
  have hwhole : out ++ (held ++ delta) = seen ++ delta := by rw [← List.append_assoc, hseen]
  simp only [StreamedStopTrimmer.push, Bool.false_eq_true, if_false]
  cases hfound : stopStringStart (held ++ delta) stop with
  | some start =>
    rw [hfound] at hstart
    refine .inr ⟨_, hstart, ⟨by rw [h.streamed], rfl⟩, ?_⟩
    show out ++ (orNone ((held ++ delta).take start)).getD [] = (seen ++ delta).take (start + out.length)
    rw [orNone_getD, ← hwhole, Nat.add_comm, List.take_length_add_append]
  | none =>
    rw [hfound] at hstart
    obtain ⟨hnext, hle⟩ := heldLength_holdsBack stop (held ++ delta)
    refine .inl ⟨hstart, by rw [h.streamed], hstart, .inr ⟨_, rfl, ?_, ?_⟩⟩
    · rw [orNone_getD, List.append_assoc, List.take_append_drop, hwhole]
    · have hlength : ((held ++ delta).drop ((held ++ delta).length - heldLength stop (held ++ delta))).length =
          heldLength stop (held ++ delta) := by
        rw [List.length_drop]
        omega
      rw [hlength]
      exact holdsBack_append hseen hback hnext

theorem Stopped.delta (h : Stopped stop seen s) (delta : Text) :
    Stopped stop (seen ++ delta) (s.next (deltaChunk delta)).2 ∧ (s.next (deltaChunk delta)).1.getD [] = [] := by
  by_cases hdelta : delta = []
  · subst hdelta
    rw [next_empty, List.append_nil]
    exact ⟨h, rfl⟩
  · rw [next_delta hdelta, h.trimmer]
    exact ⟨⟨by rw [h.streamed], rfl⟩, rfl⟩

theorem yielded_end (h : s.streamedText = seen) (isTerminal : Bool) :
    (s.yielded (if isTerminal then [terminalChunk seen] else [])).flatMap (Option.getD · []) =
      s.trimmer.elim [] fun trimmer => trimmer.finish.1 := by
  subst h
  obtain ⟨streamedText, trimmer⟩ := s
  cases isTerminal with
  | false => cases trimmer <;> simp [CompletionStream.yielded, orNone_getD]
  | true =>
    have hprefix : streamedText.isPrefixOf streamedText = true :=
      List.isPrefixOf_iff_prefix.mpr List.prefix_rfl
    by_cases hempty : streamedText = []
    · subst hempty
      cases trimmer with
      | none => simp [CompletionStream.yielded, CompletionStream.next, CompletionStream.unstreamed, terminalChunk]
      | some trimmer =>
        obtain ⟨stop, held, isStopped⟩ := trimmer
        cases isStopped <;> by_cases hheld : held = [] <;>
          simp [CompletionStream.yielded, CompletionStream.next, CompletionStream.unstreamed, terminalChunk,
            StreamedStopTrimmer.finish, orNone, hheld]
    · cases trimmer with
      | none =>
        simp [CompletionStream.yielded, CompletionStream.next, CompletionStream.unstreamed, terminalChunk,
          hempty, orNone]
      | some trimmer =>
        obtain ⟨stop, held, isStopped⟩ := trimmer
        cases isStopped <;> by_cases hheld : held = [] <;>
          simp [CompletionStream.yielded, CompletionStream.next, CompletionStream.unstreamed, terminalChunk,
            StreamedStopTrimmer.finish, orNone, hempty, hheld]

def firstStop (stop : List Text) : Text → List Text → Option Text
  | _, [] => none
  | seen, delta :: rest =>
    if (stopStringStart (seen ++ delta) stop).isSome then some (seen ++ delta)
    else firstStop stop (seen ++ delta) rest

theorem Stopped.yielded (h : Stopped stop seen s) (deltas : List Text) (isTerminal : Bool) :
    (s.yielded (deltas.map deltaChunk ++ if isTerminal then [terminalChunk (seen ++ deltas.flatten)] else [])).flatMap
      (Option.getD · []) = [] := by
  induction deltas generalizing seen s with
  | nil =>
    have hend := yielded_end h.streamed isTerminal
    rw [List.map_nil, List.nil_append, List.flatten_nil, List.append_nil, hend, h.trimmer]
    rfl
  | cons delta rest ih =>
    obtain ⟨hnext, hnothing⟩ := h.delta delta
    have hrest := ih hnext
    rw [List.append_assoc] at hrest
    show (s.next (deltaChunk delta)).1.getD [] ++ _ = _
    rw [hnothing, List.nil_append]
    exact hrest

theorem Seeking.yielded (h : Seeking stop seen out s) (deltas : List Text) (isTerminal : Bool) :
    out ++ (s.yielded (deltas.map deltaChunk ++
        if isTerminal then [terminalChunk (seen ++ deltas.flatten)] else [])).flatMap (Option.getD · []) =
      (firstStop stop seen deltas).elim (seen ++ deltas.flatten) fun text => cutAt text stop := by
  induction deltas generalizing seen out s with
  | nil =>
    have hend := yielded_end h.streamed isTerminal
    rw [List.map_nil, List.nil_append, List.flatten_nil, List.append_nil, hend]
    rcases h.trimmer with ⟨-, htrimmer, rfl⟩ | ⟨held, htrimmer, hseen, -⟩
    · rw [htrimmer]
      exact List.append_nil _
    · rw [htrimmer]
      exact hseen
  | cons delta rest ih =>
    have hflatten : seen ++ (delta :: rest).flatten = (seen ++ delta) ++ rest.flatten := by
      rw [List.flatten_cons, List.append_assoc]
    rw [hflatten]
    show out ++ ((s.next (deltaChunk delta)).1.getD [] ++ _) = _
    rw [← List.append_assoc, firstStop]
    rcases h.delta delta with ⟨hnone, hnext⟩ | ⟨start, hstart, hstopped, hout⟩
    · rw [hnone]
      exact ih hnext
    · have hrest := hstopped.yielded rest isTerminal
      rw [hstart]
      show _ ++ (CompletionStream.yielded _ _).flatMap _ = cutAt (seen ++ delta) stop
      rw [hout, cutAt, hstart]
      exact (congrArg (_ ++ ·) hrest).trans (List.append_nil _)

theorem firstStop_spec {deltas : List Text} {text : Text} (h : firstStop stop seen deltas = some text) :
    text <+: seen ++ deltas.flatten ∧ (stopStringStart text stop).isSome = true := by
  induction deltas generalizing seen with
  | nil => cases h
  | cons delta rest ih =>
    rw [List.flatten_cons, ← List.append_assoc]
    rw [firstStop] at h
    split at h
    · next hsome =>
      cases h
      exact ⟨List.prefix_append _ _, hsome⟩
    · exact ih h

theorem firstStop_eq_none {deltas : List Text} (h : firstStop stop seen deltas = none)
    (hseen : stopStringStart seen stop = none) : stopStringStart (seen ++ deltas.flatten) stop = none := by
  induction deltas generalizing seen with
  | nil =>
    rw [List.flatten_nil, List.append_nil]
    exact hseen
  | cons delta rest ih =>
    rw [List.flatten_cons, ← List.append_assoc]
    rw [firstStop] at h
    split at h
    · cases h
    · next hnone => exact ih h (Option.not_isSome_iff_eq_none.mp hnone)

end Streamed

end Client
