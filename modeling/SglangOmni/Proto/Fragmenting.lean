import SglangOmni.Proto.Encoding
import SglangOmni.Proto.Fragments

/-! The fragments of a chunk that `fragment_chunk` yields, and the chunk that `join_fragments` restores
from them.  The depth that msgpack packs and its decoder are parameters. -/

namespace Proto

/-- How the generator ends: past the last fragment, on an envelope that leaves no room for a payload,
or on a value that msgpack does not take. -/
inductive Ending
  | finished
  | noRoom
  | unencodable
  deriving DecidableEq

/-- The fragments that the generator yielded, each with whether another follows, and its end. -/
structure Fragmentation where
  fragments : List (TimedChunk × Bool)
  ending : Ending

/-- The fragment numbered `seq` before it takes a piece of the encoding. -/
def emptyFragment (chunk : TimedChunk) (seq : Nat) : TimedChunk :=
  { chunk with seq := seq, payload := .bytes [] }

theorem next_gt {p : Packer} {maxChunkBytes : Nat} {chunk : TimedChunk} {seq start : Nat}
    {fragment : Fragment} (h : p.fragmentFrom maxChunkBytes chunk seq start = some fragment) :
    start < fragment.next := by
  simp only [Packer.fragmentFrom] at h
  split at h
  · cases h
  · cases h
    simp only
    omega

/-- The loop of `fragment_chunk` from `start` of the encoding on. -/
def fragmentsFrom (levels maxChunkBytes : Nat) (chunk : TimedChunk) (seq start : Nat) :
    Fragmentation :=
  if start < (msgpack.packChunk chunk).length then
    if (Msgpack.wireSize levels (emptyFragment chunk seq).toDict).isNone then ⟨[], .unencodable⟩
    else
      match hfragment : msgpack.fragmentFrom maxChunkBytes chunk seq start with
      | none => ⟨[], .noRoom⟩
      | some fragment =>
        have := next_gt hfragment
        let rest := fragmentsFrom levels maxChunkBytes chunk (seq + 1) fragment.next
        ⟨(fragment.chunk, fragment.continues) :: rest.fragments, rest.ending⟩
  else ⟨[], .finished⟩
termination_by (msgpack.packChunk chunk).length - start

def fragmentChunk (levels maxChunkBytes : Nat) (chunk : TimedChunk) (seq : Nat) : Fragmentation :=
  match Msgpack.packb levels (.map chunk.toDict) with
  | none => ⟨[], .unencodable⟩
  | some _ => fragmentsFrom levels maxChunkBytes chunk seq 0

/-- `b"".join` of the fragments' payloads. -/
def joinedPayloads : List TimedChunk → Option (List UInt8)
  | [] => some []
  | fragment :: rest =>
    match fragment.payload with
    | .bytes data => (joinedPayloads rest).map (data ++ ·)
    | _ => none

/-- `join_fragments`, where `decode` is `TimedChunk.from_dict` of `msgpack.unpackb`. -/
def joinFragments (decode : List UInt8 → Option TimedChunk) (fragments : List TimedChunk) :
    Option TimedChunk := do
  let encoded ← joinedPayloads fragments
  let chunk ← decode encoded
  let last ← fragments.getLast?
  return { chunk with seq := last.seq }

/-! ### What the loop yields -/

variable {levels maxChunkBytes : Nat} {chunk : TimedChunk}

theorem wireSize_toDict {size : Nat} (h : Msgpack.wireSize levels chunk.toDict = some size) :
    msgpack.wireSize chunk = size := by
  obtain ⟨modality, tStartMs, durationMs, seq, payload, format, eos, turn⟩ := chunk
  cases payload with
  | bytes data =>
    obtain ⟨packed, hpacked, hsize⟩ := Option.map_eq_some_iff.mp h
    obtain ⟨-, rfl⟩ := Msgpack.packb_eq_some.mp hpacked
    rw [← hsize, Packer.wireSize]
    exact congrArg (fun bytes : List UInt8 => bytes.length + data.length + headerGrowth data.length)
      (Msgpack.packValue_toDict
        ⟨modality, tStartMs, durationMs, seq, .bytes [], format, eos, turn⟩).symm
  | _ =>
    obtain ⟨packed, hpacked, rfl⟩ := Option.map_eq_some_iff.mp h
    obtain ⟨-, rfl⟩ := Msgpack.packb_eq_some.mp hpacked
    rw [Msgpack.packValue_toDict]
    rfl

theorem wireSize_bytes (levels : Nat) (chunk : TimedChunk) (data : List UInt8) :
    Msgpack.wireSize levels { chunk with payload := .bytes data }.toDict =
      (Msgpack.packb levels (.map { chunk with payload := .bytes [] }.toDict)).map
        fun packed => packed.length + data.length + headerGrowth data.length := rfl

theorem headerGrowth_le (n : Nat) : headerGrowth n ≤ 3 := by
  unfold headerGrowth
  split
  · omega
  · split <;> omega

theorem wireSize_fragment {seq start : Nat} {fragment : Fragment}
    (hencodes : (Msgpack.wireSize levels (emptyFragment chunk seq).toDict).isSome = true)
    (h : msgpack.fragmentFrom maxChunkBytes chunk seq start = some fragment) :
    ∃ size, Msgpack.wireSize levels fragment.chunk.toDict = some size ∧ size ≤ maxChunkBytes := by
  obtain ⟨envelope, henvelope⟩ := Option.isSome_iff_exists.mp hencodes
  have hempty : msgpack.wireSize (emptyFragment chunk seq) = envelope := wireSize_toDict henvelope
  obtain ⟨packed, hpacked, hlength⟩ := Option.map_eq_some_iff.mp
    ((wireSize_bytes levels (emptyFragment chunk seq) []).symm.trans henvelope)
  simp only [Packer.fragmentFrom] at h
  split at h
  case isTrue => cases h
  case isFalse hroom =>
    cases h
    have henv : msgpack.envelopeBytes chunk seq = envelope + 3 := congrArg (· + 3) hempty
    rw [henv] at hroom ⊢
    refine ⟨_, (wireSize_bytes levels (emptyFragment chunk seq) _).trans
      (congrArg (Option.map _) hpacked), ?_⟩
    have hgrowth := headerGrowth_le
      (((msgpack.packChunk chunk).drop start).take (maxChunkBytes - (envelope + 3))).length
    have hpiece := List.length_take_le (maxChunkBytes - (envelope + 3))
      ((msgpack.packChunk chunk).drop start)
    have hnil : headerGrowth 0 = 0 := rfl
    simp only [List.length_nil, hnil] at hlength
    dsimp only
    omega

theorem fragmentFrom_eq {seq start : Nat} {fragment : Fragment}
    (h : msgpack.fragmentFrom maxChunkBytes chunk seq start = some fragment) :
    fragment.chunk.seq = seq ∧
      fragment.chunk.payload = .bytes
        (((msgpack.packChunk chunk).drop start).take (fragment.next - start)) ∧
      fragment.continues = decide (fragment.next < (msgpack.packChunk chunk).length) := by
  simp only [Packer.fragmentFrom] at h
  split at h
  · cases h
  · cases h
    refine ⟨rfl, ?_, rfl⟩
    simp only [Nat.add_sub_cancel_left]

theorem fragmentsFrom_seq (seq start : Nat) :
    ((fragmentsFrom levels maxChunkBytes chunk seq start).fragments.map fun f => f.1.seq) =
      List.range' seq (fragmentsFrom levels maxChunkBytes chunk seq start).fragments.length := by
  fun_induction fragmentsFrom levels maxChunkBytes chunk seq start with
  | case1 => rfl
  | case2 => rfl
  | case3 seq start hmore hencodes fragment hfragment hnext rest ih =>
    rw [List.map_cons, List.length_cons, List.range'_succ, (fragmentFrom_eq hfragment).1, ih]
  | case4 => rfl

theorem fragmentsFrom_size (seq start : Nat) :
    ∀ fragment ∈ (fragmentsFrom levels maxChunkBytes chunk seq start).fragments,
      ∃ size, Msgpack.wireSize levels fragment.1.toDict = some size ∧ size ≤ maxChunkBytes := by
  fun_induction fragmentsFrom levels maxChunkBytes chunk seq start with
  | case1 => exact fun _ h => absurd h List.not_mem_nil
  | case2 => exact fun _ h => absurd h List.not_mem_nil
  | case3 seq start hmore hencodes fragment hfragment hnext rest ih =>
    intro f hf
    rcases List.mem_cons.mp hf with rfl | hf
    · exact wireSize_fragment (by
        rwa [Option.isNone_iff_eq_none, ← ne_eq, ← Option.isSome_iff_ne_none] at hencodes) hfragment
    · exact ih f hf
  | case4 => exact fun _ h => absurd h List.not_mem_nil

theorem fragmentsFrom_noRoom (seq start : Nat)
    (h : (fragmentsFrom levels maxChunkBytes chunk seq start).ending = .noRoom) :
    maxChunkBytes ≤ msgpack.envelopeBytes chunk
      (seq + (fragmentsFrom levels maxChunkBytes chunk seq start).fragments.length) := by
  fun_induction fragmentsFrom levels maxChunkBytes chunk seq start with
  | case1 => cases h
  | case2 seq start hmore hencodes hnone =>
    simp only [Packer.fragmentFrom] at hnone
    split at hnone
    · assumption
    · cases hnone
  | case3 seq start hmore hencodes fragment hfragment hnext rest ih =>
    have := ih h
    rwa [List.length_cons, Nat.add_comm rest.fragments.length 1, ← Nat.add_assoc]
  | case4 => cases h

theorem fragmentsFrom_unencodable (seq start : Nat)
    (h : (fragmentsFrom levels maxChunkBytes chunk seq start).ending = .unencodable) :
    Msgpack.wireSize levels (emptyFragment chunk
      (seq + (fragmentsFrom levels maxChunkBytes chunk seq start).fragments.length)).toDict =
        none := by
  fun_induction fragmentsFrom levels maxChunkBytes chunk seq start with
  | case1 seq start hmore hnone => simpa using hnone
  | case2 => cases h
  | case3 seq start hmore hencodes fragment hfragment hnext rest ih =>
    have := ih h
    rwa [List.length_cons, Nat.add_comm rest.fragments.length 1, ← Nat.add_assoc]
  | case4 => cases h

theorem fragmentsFrom_joined (seq start : Nat)
    (h : (fragmentsFrom levels maxChunkBytes chunk seq start).ending = .finished) :
    joinedPayloads ((fragmentsFrom levels maxChunkBytes chunk seq start).fragments.map
      Prod.fst) = some ((msgpack.packChunk chunk).drop start) := by
  fun_induction fragmentsFrom levels maxChunkBytes chunk seq start with
  | case1 => cases h
  | case2 => cases h
  | case3 seq start hmore hencodes fragment hfragment hnext rest ih =>
    rw [List.map_cons, joinedPayloads]
    simp only [(fragmentFrom_eq hfragment).2.1, rest] at ih h ⊢
    rw [ih h, Option.map_some, Option.some.injEq]
    calc ((msgpack.packChunk chunk).drop start).take (fragment.next - start) ++
          (msgpack.packChunk chunk).drop fragment.next
        = ((msgpack.packChunk chunk).drop start).take (fragment.next - start) ++
          ((msgpack.packChunk chunk).drop start).drop (fragment.next - start) := by
            rw [List.drop_drop, Nat.add_sub_cancel' (Nat.le_of_lt hnext)]
      _ = (msgpack.packChunk chunk).drop start := List.take_append_drop _ _
  | case4 seq start hend =>
    rw [List.drop_eq_nil_of_le (Nat.le_of_not_lt hend)]
    rfl

theorem fragmentsFrom_continues (seq start : Nat)
    (h : (fragmentsFrom levels maxChunkBytes chunk seq start).ending = .finished)
    (hstart : start < (msgpack.packChunk chunk).length) :
    ∃ leading last, (fragmentsFrom levels maxChunkBytes chunk seq start).fragments =
      leading ++ [last] ∧ (∀ fragment ∈ leading, fragment.2 = true) ∧ last.2 = false := by
  fun_induction fragmentsFrom levels maxChunkBytes chunk seq start with
  | case1 => cases h
  | case2 => cases h
  | case3 seq start hmore hencodes fragment hfragment hnext rest ih =>
    have hcontinues := (fragmentFrom_eq hfragment).2.2
    by_cases hfollowed : fragment.next < (msgpack.packChunk chunk).length
    · obtain ⟨leading, last, hfragments, hleading, hlast⟩ := ih h hfollowed
      refine ⟨(fragment.chunk, fragment.continues) :: leading, last, by rw [hfragments]; rfl, ?_,
        hlast⟩
      intro f hf
      rcases List.mem_cons.mp hf with rfl | hf
      · exact hcontinues.trans (decide_eq_true hfollowed)
      · exact hleading f hf
    · refine ⟨[], (fragment.chunk, fragment.continues), ?_, fun _ hf => absurd hf List.not_mem_nil,
        hcontinues.trans (decide_eq_false hfollowed)⟩
      have hrest : rest.fragments = [] := by
        simp only [rest]
        rw [fragmentsFrom, if_neg hfollowed]
      rw [hrest]
      rfl
  | case4 => contradiction

theorem wireSize_emptyFragment {seq : Nat} {bytes : List UInt8}
    (hchunk : Msgpack.packb levels (.map chunk.toDict) = some bytes)
    (hseq : seq < 18446744073709551616) :
    (Msgpack.wireSize levels (emptyFragment chunk seq).toDict).isSome = true := by
  obtain ⟨hfits, -⟩ := Msgpack.packb_eq_some.mp hchunk
  have hfits' : Msgpack.fits (.map (emptyFragment chunk seq).toDict) levels = true := by
    simp only [Msgpack.fits, TimedChunk.toDict, Msgpack.fieldsFit, Bool.and_eq_true] at hfits
    simp only [Msgpack.fits, TimedChunk.toDict, Msgpack.fieldsFit, emptyFragment, hfits,
      ChunkPayload.toValue, Msgpack.intFits, Bool.and_eq_true]
    simp [Msgpack.lengthFits]
    omega
  rw [Msgpack.wireSize_eq (Msgpack.packb_eq_some.mpr ⟨hfits', rfl⟩)]
  rfl

theorem packChunk_ne_nil (chunk : TimedChunk) : 0 < (msgpack.packChunk chunk).length := by
  show 0 < (Msgpack.packChunk chunk).length
  simp [Msgpack.packChunk, Msgpack.mapHeader]

theorem length_packInt_le (n : Int) : (Msgpack.packInt n).length ≤ 9 := by
  simp only [Msgpack.packInt, Msgpack.header]
  repeat' split
  all_goals simp [Msgpack.length_bigEndian]

theorem envelopeBytes_le (chunk : TimedChunk) (seq : Nat) :
    msgpack.envelopeBytes chunk seq ≤ msgpack.envelopeBytes chunk 4294967296 := by
  have hseq := length_packInt_le seq
  have hwide : (Msgpack.packInt (4294967296 : Nat)).length = 9 := by decide
  show (Msgpack.packChunk _).length + 0 + 0 + 3 ≤ (Msgpack.packChunk _).length + 0 + 0 + 3
  simp only [Msgpack.packChunk, List.length_append, hwide]
  omega

theorem fragmentsFrom_length (seq start : Nat) :
    (fragmentsFrom levels maxChunkBytes chunk seq start).fragments.length ≤
      (msgpack.packChunk chunk).length - start := by
  fun_induction fragmentsFrom levels maxChunkBytes chunk seq start with
  | case1 => exact Nat.zero_le _
  | case2 => exact Nat.zero_le _
  | case3 seq start hmore hencodes fragment hfragment hnext rest ih =>
    have hrest : rest.fragments.length ≤ (msgpack.packChunk chunk).length - fragment.next := ih
    rw [List.length_cons]
    omega
  | case4 => exact Nat.zero_le _

theorem fragmentChunk_finished {seq : Nat} {bytes : List UInt8}
    (hchunk : Msgpack.packb levels (.map chunk.toDict) = some bytes)
    (hroom : msgpack.envelopeBytes chunk 4294967296 < maxChunkBytes)
    (hseq : seq + (msgpack.packChunk chunk).length < 18446744073709551616) :
    (fragmentChunk levels maxChunkBytes chunk seq).ending = .finished := by
  unfold fragmentChunk
  rw [hchunk]
  dsimp only
  cases hending : (fragmentsFrom levels maxChunkBytes chunk seq 0).ending with
  | finished => rfl
  | noRoom =>
    have hnone := fragmentsFrom_noRoom seq 0 hending
    have hle := envelopeBytes_le chunk
      (seq + (fragmentsFrom levels maxChunkBytes chunk seq 0).fragments.length)
    omega
  | unencodable =>
    have hlength :
        (fragmentsFrom levels maxChunkBytes chunk seq 0).fragments.length ≤
          (msgpack.packChunk chunk).length := fragmentsFrom_length seq 0
    have hlt : seq + (fragmentsFrom levels maxChunkBytes chunk seq 0).fragments.length <
        18446744073709551616 := by omega
    have hsome := wireSize_emptyFragment hchunk hlt
    rw [fragmentsFrom_unencodable seq 0 hending] at hsome
    cases hsome

theorem joinFragments_eq {decode : List UInt8 → Option TimedChunk}
    {leading : List (TimedChunk × Bool)} {last : TimedChunk × Bool}
    (hjoined : joinedPayloads ((leading ++ [last]).map Prod.fst) = some (msgpack.packChunk chunk))
    (hdecode : decode (msgpack.packChunk chunk) = some chunk) :
    joinFragments decode ((leading ++ [last]).map Prod.fst) =
      some { chunk with seq := last.1.seq } := by
  unfold joinFragments
  rw [hjoined]
  simp [hdecode]

def unitChunk : TimedChunk where
  modality := "control"
  tStartMs := 0
  durationMs := 0
  seq := 0
  payload := .bytes (List.replicate 40 7)
  format := some "unit"
  turn := some 1

end Proto
