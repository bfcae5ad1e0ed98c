import SglangOmni.Lib.Machine
import Mathlib.Data.List.Infix

/-! The windows that a code2wav stream without a codec state slot decodes, and the window lengths for
which graphs are captured at startup. -/

namespace Code2Wav

/-! ### The keys of startup -/

/-- The walk of `serial_window_frames`, for at most `bound` decodes more. -/
def serialWalk (streamChunkSize leftContextSize initial : Nat) : Nat → Nat → List Nat → List Nat
  | 0, _, frames => frames
  | bound + 1, emitted, frames =>
    let step := if emitted = 0 ∧ initial ≠ 0 then initial else streamChunkSize
    let window := min leftContextSize emitted + step
    let frames := if window ∈ frames then frames else frames ++ [window]
    if window = leftContextSize + streamChunkSize then frames
    else serialWalk streamChunkSize leftContextSize initial bound (emitted + step) frames

def initialFrames (initialChunkFrames : Int) (streamChunkSize : Nat) : Nat :=
  (min (max initialChunkFrames 0) streamChunkSize).toNat

def serialWindowFrames (streamChunkSize leftContextSize : Nat) (initialChunkFrames : Int) : List Nat :=
  serialWalk streamChunkSize leftContextSize (initialFrames initialChunkFrames streamChunkSize)
    (leftContextSize + 2) 0 []

inductive Decode where
  | window
  | first
  | next
deriving DecidableEq

structure GraphKey where
  batchSize : Nat
  frames : Nat
  decode : Decode := .window
deriving DecidableEq

def windowGraphKeys (streamChunkSize leftContextSize maxReplayRows : Nat) (initialChunkFrames : Int) :
    List GraphKey :=
  (List.range' 1 maxReplayRows).flatMap fun rows =>
    (serialWindowFrames streamChunkSize leftContextSize initialChunkFrames).map fun frames =>
      { batchSize := rows, frames }

/-- The best-effort keys of `create_code2wav_scheduler` for the last window of a stream. -/
def finalWindowKeys (streamChunkSize leftContextSize : Nat) (graphKeys : List GraphKey) : List GraphKey :=
  ((List.range' 1 (leftContextSize + streamChunkSize)).map fun frames =>
    { batchSize := 1, frames }).filter fun key => key ∉ graphKeys

/-- The windows' graph keys that `create_code2wav_scheduler` builds, and the keys of last windows. -/
def startupKeys (streamChunkSize leftContextSize : Nat) (initialChunkFrames maxReplayRows : Int)
    (hasCodecPool : Bool) : List GraphKey × List GraphKey :=
  let rows := if hasCodecPool then 1 else (max maxReplayRows 1).toNat
  let graphKeys := windowGraphKeys streamChunkSize leftContextSize rows initialChunkFrames
  (graphKeys, finalWindowKeys streamChunkSize leftContextSize graphKeys)

/-! ### The scheduler -/

structure Code2WavScheduler where
  streamChunkSize : Nat
  leftContextSize : Nat
  initialCodecChunkFrames : Nat
  codecEosTokenId : Int
  eosLazyScan : Bool

/-- `Code2WavScheduler.__init__`, of a chunk size and a left context that the factory bounded. -/
def Code2WavScheduler.create (streamChunkSize leftContextSize : Nat) (initialChunkFrames : Int)
    (codecEosTokenId : Int) (eosLazyScan : Bool) : Code2WavScheduler where
  streamChunkSize := streamChunkSize
  leftContextSize := leftContextSize
  initialCodecChunkFrames := initialFrames initialChunkFrames streamChunkSize
  codecEosTokenId := codecEosTokenId
  eosLazyScan := eosLazyScan

/-- A codec frame: its rank and its leading code, which a frame of rank 0 does not have. -/
structure Frame where
  ndim : Nat
  head : Int

/-- The codes of one message: a tensor of rank 2 holds a frame in each row. -/
inductive Codes where
  | rows (frames : List Frame)
  | frame (frame : Frame)

/-- A decoded window: its length, the rows decoded with it, and whether it is what a finished stream
had left. -/
structure Window where
  frames : Nat
  rows : Nat
  isFinal : Bool := false
deriving DecidableEq

/-- A stream without a codec state slot; `windows` records what it decoded. -/
structure Code2WavStreamState where
  chunks : List Frame := []
  emitted : Nat := 0
  checked : Nat := 0
  windows : List Window := []
  isDone : Bool := false

namespace Code2WavScheduler

variable (sched : Code2WavScheduler) (state : Code2WavStreamState)

def isEos (frame : Frame) : Bool := 1 ≤ frame.ndim && frame.head == sched.codecEosTokenId

def ready : Nat := state.chunks.length - state.emitted

def windowNewFrames : Nat :=
  if state.emitted = 0 ∧ sched.initialCodecChunkFrames ≠ 0 then sched.initialCodecChunkFrames
  else sched.streamChunkSize

/-- `context_frames`, without a codec state slot. -/
def contextFrames : Nat := min sched.leftContextSize state.emitted

def windowLength : Nat := sched.contextFrames state + sched.windowNewFrames state

def scanUnchecked : Code2WavStreamState :=
  let chunks := state.chunks.take state.checked
    ++ (state.chunks.drop state.checked).filter fun frame => !sched.isEos frame
  { state with chunks, checked := chunks.length }

/-- `window_ready`, with the scan that it may make first. -/
def windowReady : Bool × Code2WavStreamState :=
  let newFrames := sched.windowNewFrames state
  let state := if sched.eosLazyScan ∧ state.checked < state.chunks.length ∧ newFrames ≤ ready state then
    sched.scanUnchecked state else state
  (decide (newFrames ≤ ready state), state)

def ingest : Codes → Code2WavStreamState
  | .rows frames =>
    let chunks := state.chunks ++ frames
    { state with chunks, checked := chunks.length }
  | .frame frame =>
    if sched.eosLazyScan || !sched.isEos frame then { state with chunks := state.chunks ++ [frame] }
    else state

/-- The stream's part of `decode_windows`, one of `rows` participants. -/
def decodeWindow (rows : Nat) : Code2WavStreamState :=
  { state with
    windows := state.windows ++ [{ frames := sched.windowLength state, rows }]
    emitted := state.emitted + sched.windowNewFrames state }

/-- The stream's part of `run_ready_step`, with `otherRows` more rows in its group. -/
def readyStep (otherRows : Nat) : Code2WavStreamState :=
  let (isReady, state) := sched.windowReady state
  if isReady then sched.decodeWindow state (otherRows + 1) else state

/-- `finish_windows`: the ready windows of a finished stream, each decoded alone. -/
def finishWindows : Nat → Code2WavStreamState → Code2WavStreamState
  | 0, state => state
  | bound + 1, state =>
    let (isReady, state) := sched.windowReady state
    if isReady then finishWindows bound (sched.decodeWindow state 1) else state

/-- `decode_delta`: what a finished stream has left, as one window decoded alone. -/
def decodeDelta : Code2WavStreamState :=
  let state := if sched.eosLazyScan then sched.scanUnchecked state else state
  let stop := state.chunks.length
  if stop ≤ state.emitted then state
  else
    { state with
      windows := state.windows ++
        [{ frames := sched.contextFrames state + (stop - state.emitted), rows := 1, isFinal := true }]
      emitted := stop }

/-- `on_stream_done`; each window of the loop takes one of the frames at least. -/
def onStreamDone : Code2WavStreamState :=
  { sched.decodeDelta (sched.finishWindows (state.chunks.length + 1) state) with isDone := true }

end Code2WavScheduler

/-- What happens next to a stream: codes arrive, a ready step looks at it and decodes its window with
those of other streams, or it is done. -/
inductive Event where
  | codes (codes : Codes)
  | readyStep (otherRows : Nat)
  | done

def stream (sched : Code2WavScheduler) : Lib.Machine Code2WavStreamState Event where
  init := {}
  step state
    | .codes codes => if state.isDone then none else some (sched.ingest state codes)
    | .readyStep otherRows => if state.isDone then none else some (sched.readyStep state otherRows)
    | .done => if state.isDone then none else some (sched.onStreamDone state)

/-! ### The windows of an unbounded stream -/

namespace Code2WavScheduler

variable (sched : Code2WavScheduler)

/-- The frames that an unbounded stream has decoded before each of its windows. -/
def emittedBefore : Nat → Nat
  | 0 => 0
  | k + 1 => emittedBefore k + sched.windowNewFrames { emitted := emittedBefore k }

def visited (k : Nat) : Nat := sched.windowLength { emitted := sched.emittedBefore k }

def firstVisits (k : Nat) : List Nat := ((List.range k).map sched.visited).eraseDups

end Code2WavScheduler

variable {sched : Code2WavScheduler} {streamChunkSize leftContextSize k n : Nat}
  {initialChunkFrames codecEosTokenId : Int} {eosLazyScan : Bool}

theorem firstVisits_succ (k : Nat) : sched.firstVisits (k + 1) =
    if sched.visited k ∈ sched.firstVisits k then sched.firstVisits k
    else sched.firstVisits k ++ [sched.visited k] := by
  have hsplit : sched.firstVisits (k + 1) = sched.firstVisits k
      ++ ([sched.visited k].removeAll ((List.range k).map sched.visited)).eraseDups := by
    simp only [Code2WavScheduler.firstVisits]
    rw [List.range_succ, List.map_append, List.eraseDups_append]
    rfl
  rw [hsplit]
  have hmem : sched.visited k ∈ sched.firstVisits k ↔ sched.visited k ∈ (List.range k).map sched.visited :=
    List.mem_eraseDups
  split
  · next h =>
    rw [List.removeAll, List.filter_cons_of_neg (by simpa using hmem.mp h)]
    exact List.append_nil _
  · next h =>
    rw [List.removeAll, List.filter_cons_of_pos (by simpa using mt hmem.mpr h)]
    rfl

theorem firstVisits_isPrefix (k : Nat) : sched.firstVisits k <+: sched.firstVisits (k + 1) := by
  rw [firstVisits_succ]
  split
  · exact List.prefix_rfl
  · exact List.prefix_append _ _

theorem firstVisits_isPrefix_add (k m : Nat) : sched.firstVisits k <+: sched.firstVisits (k + m) := by
  induction m with
  | zero => exact List.prefix_rfl
  | succ m ih => exact ih.trans (firstVisits_isPrefix _)

theorem nodup_firstVisits (k : Nat) : (sched.firstVisits k).Nodup := by
  induction k with
  | zero => exact List.nodup_nil
  | succ k ih =>
    rw [firstVisits_succ]
    split
    · exact ih
    · next hmem => exact List.nodup_append.mpr ⟨ih, List.nodup_cons.mpr ⟨List.not_mem_nil, .nil⟩, by grind⟩

/-- A first chunk, which is what a scheduler is created with, is no longer than a chunk. -/
structure Code2WavScheduler.Bounded (sched : Code2WavScheduler) : Prop where
  positive : 1 ≤ sched.streamChunkSize
  initial_le : sched.initialCodecChunkFrames ≤ sched.streamChunkSize

theorem bounded_create (h : 1 ≤ streamChunkSize) (leftContextSize : Nat)
    (initialChunkFrames codecEosTokenId : Int) (eosLazyScan : Bool) :
    (Code2WavScheduler.create streamChunkSize leftContextSize initialChunkFrames codecEosTokenId
      eosLazyScan).Bounded where
  positive := h
  initial_le := by
    show initialFrames initialChunkFrames streamChunkSize ≤ streamChunkSize
    unfold initialFrames
    omega

namespace Code2WavScheduler.Bounded

variable (h : sched.Bounded) (state : Code2WavStreamState)

include h

theorem windowNewFrames_pos : 1 ≤ sched.windowNewFrames state := by
  have := h.positive
  unfold windowNewFrames
  split <;> omega

theorem windowNewFrames_le : sched.windowNewFrames state ≤ sched.streamChunkSize := by
  have := h.initial_le
  unfold windowNewFrames
  split <;> omega

theorem visited_bounds (k : Nat) :
    1 ≤ sched.visited k ∧ sched.visited k ≤ sched.leftContextSize + sched.streamChunkSize := by
  have hpos := h.windowNewFrames_pos { emitted := sched.emittedBefore k }
  have hle := h.windowNewFrames_le { emitted := sched.emittedBefore k }
  simp only [visited, windowLength, contextFrames]
  omega

theorem le_emittedBefore (k : Nat) : k ≤ sched.emittedBefore k := by
  induction k with
  | zero => exact Nat.zero_le _
  | succ k ih =>
    have := h.windowNewFrames_pos { emitted := sched.emittedBefore k }
    simp only [emittedBefore]
    omega

theorem visited_of_saturated {k : Nat} (hk : 0 < k) (hemitted : sched.leftContextSize ≤ sched.emittedBefore k) :
    sched.visited k = sched.leftContextSize + sched.streamChunkSize := by
  have hle := h.le_emittedBefore k
  have hnew : sched.windowNewFrames { emitted := sched.emittedBefore k } = sched.streamChunkSize :=
    if_neg fun hzero => by
      have := hzero.1
      simp only at this
      omega
  rw [visited, windowLength, hnew, contextFrames, Nat.min_eq_left hemitted]

theorem visited_of_full {k : Nat} (hfull : sched.visited k = sched.leftContextSize + sched.streamChunkSize)
    (m : Nat) : sched.visited (k + m) = sched.leftContextSize + sched.streamChunkSize := by
  cases m with
  | zero => exact hfull
  | succ m =>
    have hle := h.windowNewFrames_le { emitted := sched.emittedBefore k }
    have hgrows : sched.emittedBefore k ≤ sched.emittedBefore (k + (m + 1)) := by
      clear hfull
      induction m with
      | zero => exact Nat.le_add_right _ _
      | succ m ih => exact ih.trans (Nat.le_add_right _ _)
    refine h.visited_of_saturated (by omega) (Nat.le_trans ?_ hgrows)
    simp only [visited, windowLength, contextFrames] at hfull
    omega

theorem firstVisits_of_full {k : Nat} (hfull : sched.visited k = sched.leftContextSize + sched.streamChunkSize)
    (m : Nat) : sched.firstVisits (k + 1 + m) = sched.firstVisits (k + 1) := by
  induction m with
  | zero => rfl
  | succ m ih =>
    have hmem : sched.visited (k + 1 + m) ∈ sched.firstVisits (k + 1) := by
      rw [Nat.add_assoc, h.visited_of_full hfull, firstVisits, List.mem_eraseDups]
      exact List.mem_map.mpr ⟨k, List.mem_range.mpr (Nat.lt_succ_self k), hfull⟩
    rw [← Nat.add_assoc, firstVisits_succ, ih, if_pos hmem]

end Code2WavScheduler.Bounded

/-! ### The walk of startup -/

theorem serialWalk_eq (h : sched.Bounded) (bound k : Nat) :
    serialWalk sched.streamChunkSize sched.leftContextSize sched.initialCodecChunkFrames bound
      (sched.emittedBefore k) (sched.firstVisits k) = sched.firstVisits (k + bound) := by
  induction bound generalizing k with
  | zero => rfl
  | succ bound ih =>
    have hframes : (if sched.visited k ∈ sched.firstVisits k then sched.firstVisits k
        else sched.firstVisits k ++ [sched.visited k]) = sched.firstVisits (k + 1) :=
      (firstVisits_succ k).symm
    show (if sched.visited k = sched.leftContextSize + sched.streamChunkSize then
        if sched.visited k ∈ sched.firstVisits k then sched.firstVisits k
        else sched.firstVisits k ++ [sched.visited k]
      else serialWalk _ _ _ bound (sched.emittedBefore (k + 1))
        (if sched.visited k ∈ sched.firstVisits k then sched.firstVisits k
        else sched.firstVisits k ++ [sched.visited k])) = _
    rw [hframes, ih (k + 1), show k + (bound + 1) = k + 1 + bound by omega]
    split
    · next hfull => exact (h.firstVisits_of_full hfull bound).symm
    · rfl

theorem serialWindowFrames_eq (h : 1 ≤ streamChunkSize) (initialChunkFrames codecEosTokenId : Int)
    (eosLazyScan : Bool) (hn : leftContextSize + 2 ≤ n) :
    serialWindowFrames streamChunkSize leftContextSize initialChunkFrames =
      (Code2WavScheduler.create streamChunkSize leftContextSize initialChunkFrames codecEosTokenId
        eosLazyScan).firstVisits n := by
  have hbounded := bounded_create h leftContextSize initialChunkFrames codecEosTokenId eosLazyScan
  generalize hsched : Code2WavScheduler.create streamChunkSize leftContextSize initialChunkFrames
    codecEosTokenId eosLazyScan = sched at hbounded
  have hwalk := serialWalk_eq hbounded (leftContextSize + 2) 0
  rw [Nat.zero_add] at hwalk
  have hleft : sched.leftContextSize = leftContextSize := hsched ▸ rfl
  have hfull := hbounded.visited_of_saturated (Nat.succ_pos leftContextSize)
    (hleft.symm ▸ Nat.le_of_succ_le (hbounded.le_emittedBefore (leftContextSize + 1)))
  obtain ⟨m, rfl⟩ := Nat.exists_eq_add_of_le hn
  rw [hbounded.firstVisits_of_full hfull m, ← hwalk]
  subst hsched
  rfl

/-! ### The windows of a stream -/

/-- The windows of a stream that is not done are the first ones of an unbounded stream. -/
structure Walked (sched : Code2WavScheduler) (state : Code2WavStreamState) : Prop where
  windows : state.windows.map (·.frames) = (List.range state.windows.length).map sched.visited
  emitted : state.emitted = sched.emittedBefore state.windows.length

variable {state state' : Code2WavStreamState}

theorem Walked.same (h : Walked sched state) (hwindows : state'.windows = state.windows)
    (hemitted : state'.emitted = state.emitted) : Walked sched state' :=
  ⟨by rw [hwindows, h.windows], by rw [hemitted, hwindows, h.emitted]⟩

theorem windowReady_same (sched : Code2WavScheduler) (state : Code2WavStreamState) :
    (sched.windowReady state).2.windows = state.windows
      ∧ (sched.windowReady state).2.emitted = state.emitted := by
  simp only [Code2WavScheduler.windowReady]
  split <;> exact ⟨rfl, rfl⟩

theorem ingest_same (state : Code2WavStreamState) (codes : Codes) :
    (sched.ingest state codes).windows = state.windows
      ∧ (sched.ingest state codes).emitted = state.emitted := by
  cases codes with
  | rows frames => exact ⟨rfl, rfl⟩
  | frame frame =>
    simp only [Code2WavScheduler.ingest]
    split <;> exact ⟨rfl, rfl⟩

theorem Walked.windowReady (h : Walked sched state) : Walked sched (sched.windowReady state).2 :=
  h.same (windowReady_same sched state).1 (windowReady_same sched state).2

theorem Walked.decodeWindow (h : Walked sched state) (rows : Nat) :
    Walked sched (sched.decodeWindow state rows) := by
  have hnew : sched.windowNewFrames state
      = sched.windowNewFrames { emitted := sched.emittedBefore state.windows.length } := by
    simp only [Code2WavScheduler.windowNewFrames, h.emitted]
  have hlength : sched.windowLength state = sched.visited state.windows.length := by
    simp only [Code2WavScheduler.visited, Code2WavScheduler.windowLength, hnew,
      Code2WavScheduler.contextFrames, h.emitted]
  refine ⟨?_, ?_⟩
  · simp only [Code2WavScheduler.decodeWindow, List.map_append, List.map_cons, List.map_nil,
      List.length_append, List.length_singleton, List.range_succ, h.windows, hlength]
  · simp only [Code2WavScheduler.decodeWindow, List.length_append, List.length_singleton]
    rw [h.emitted, hnew]
    rfl

theorem Walked.readyStep (h : Walked sched state) (otherRows : Nat) :
    Walked sched (sched.readyStep state otherRows) := by
  have hchecked := h.windowReady
  unfold Code2WavScheduler.readyStep
  generalize sched.windowReady state = checked at *
  obtain ⟨isReady, after⟩ := checked
  cases isReady
  · exact hchecked
  · exact hchecked.decodeWindow _

theorem Walked.frames_bounds (h : Walked sched state) (hsched : sched.Bounded) {window : Window}
    (hmem : window ∈ state.windows) :
    1 ≤ window.frames ∧ window.frames ≤ sched.leftContextSize + sched.streamChunkSize := by
  have hframes : window.frames ∈ state.windows.map (·.frames) := List.mem_map_of_mem hmem
  rw [h.windows] at hframes
  obtain ⟨k, -, hk⟩ := List.mem_map.mp hframes
  exact hk ▸ hsched.visited_bounds k

theorem ready_scanUnchecked (state : Code2WavStreamState) :
    Code2WavScheduler.ready (sched.scanUnchecked state) ≤ Code2WavScheduler.ready state := by
  have hfilter := List.length_filter_le (fun frame => !sched.isEos frame) (state.chunks.drop state.checked)
  simp only [Code2WavScheduler.scanUnchecked, Code2WavScheduler.ready, List.length_append,
    List.length_take]
  rw [List.length_drop] at hfilter
  omega

theorem ready_windowReady (sched : Code2WavScheduler) (state : Code2WavStreamState) :
    Code2WavScheduler.ready (sched.windowReady state).2 ≤ Code2WavScheduler.ready state := by
  simp only [Code2WavScheduler.windowReady]
  split
  · exact ready_scanUnchecked state
  · exact Nat.le_refl _

theorem finishWindows_spec (hsched : sched.Bounded) (h : Walked sched state) {bound : Nat}
    (hbound : Code2WavScheduler.ready state < bound) :
    Walked sched (sched.finishWindows bound state)
      ∧ Code2WavScheduler.ready (sched.finishWindows bound state)
        < sched.windowNewFrames (sched.finishWindows bound state) := by
  induction bound generalizing state with
  | zero => exact absurd hbound (Nat.not_lt_zero _)
  | succ bound ih =>
    rw [Code2WavScheduler.finishWindows]
    have hsame := windowReady_same sched state
    have hready : (sched.windowReady state).1
        = decide (sched.windowNewFrames state ≤ Code2WavScheduler.ready (sched.windowReady state).2) := rfl
    have hnew : sched.windowNewFrames (sched.windowReady state).2 = sched.windowNewFrames state := by
      simp only [Code2WavScheduler.windowNewFrames, hsame.2]
    have hle := ready_windowReady sched state
    have hwalked := h.windowReady
    generalize sched.windowReady state = checked at *
    obtain ⟨isReady, after⟩ := checked
    simp only at *
    rw [← hnew] at hready
    split
    · next htrue =>
      rw [htrue, eq_comm, decide_eq_true_eq] at hready
      refine ih (hwalked.decodeWindow 1) ?_
      have hpos := hsched.windowNewFrames_pos after
      simp only [Code2WavScheduler.decodeWindow, Code2WavScheduler.ready] at *
      omega
    · next hfalse =>
      rw [Bool.eq_false_iff.mpr hfalse, eq_comm, decide_eq_false_iff_not] at hready
      exact ⟨hwalked, Nat.lt_of_not_le hready⟩

theorem decodeDelta_cases (h : Code2WavScheduler.ready state < sched.windowNewFrames state)
    (hsched : sched.Bounded) :
    (sched.decodeDelta state).windows = state.windows ∨ ∃ window : Window,
      (sched.decodeDelta state).windows = state.windows ++ [window] ∧ window.rows = 1
        ∧ 1 ≤ window.frames ∧ window.frames ≤ sched.leftContextSize + sched.streamChunkSize := by
  have hle := hsched.windowNewFrames_le state
  have hscanned : Code2WavScheduler.ready (if sched.eosLazyScan then sched.scanUnchecked state else state)
      ≤ Code2WavScheduler.ready state := by
    split
    · exact ready_scanUnchecked state
    · exact Nat.le_refl _
  have hwindows : (if sched.eosLazyScan then sched.scanUnchecked state else state).windows
      = state.windows := by split <;> rfl
  unfold Code2WavScheduler.decodeDelta
  generalize (if sched.eosLazyScan then sched.scanUnchecked state else state) = scanned at *
  simp only
  split
  · exact .inl hwindows
  · next hmore =>
    refine .inr ⟨_, congrArg (· ++ _) hwindows, rfl, ?_⟩
    simp only [Code2WavScheduler.contextFrames, Code2WavScheduler.ready] at *
    omega

/-- What a run leaves: the windows of an unbounded stream, and at the end what was left. -/
structure Decoded (sched : Code2WavScheduler) (state : Code2WavStreamState) : Prop where
  walked : state.isDone = false → Walked sched state
  bounds : ∀ window ∈ state.windows,
    1 ≤ window.frames ∧ window.frames ≤ sched.leftContextSize + sched.streamChunkSize

theorem Walked.decoded (h : Walked sched state) (hsched : sched.Bounded) : Decoded sched state :=
  ⟨fun _ => h, fun _ hmem => h.frames_bounds hsched hmem⟩

theorem Walked.onStreamDone (h : Walked sched state) (hsched : sched.Bounded) :
    Decoded sched (sched.onStreamDone state) := by
  obtain ⟨hwalked, hready⟩ := finishWindows_spec hsched h
    (Nat.lt_succ_of_le (Nat.sub_le state.chunks.length state.emitted))
  refine ⟨nofun, fun window hmem => ?_⟩
  rcases decodeDelta_cases hready hsched with hsame | ⟨last, hlast, -, hbounds⟩
  · exact hwalked.frames_bounds hsched (hsame ▸ hmem)
  · have hmem : window ∈ (sched.finishWindows (state.chunks.length + 1) state).windows ++ [last] :=
      hlast ▸ hmem
    rcases List.mem_append.mp hmem with hmem | hmem
    · exact hwalked.frames_bounds hsched hmem
    · exact List.mem_singleton.mp hmem ▸ hbounds

theorem Decoded.step (h : Decoded sched state) (hsched : sched.Bounded) {event : Event}
    (hstep : (stream sched).step state event = some state') : Decoded sched state' := by
  cases event with
  | codes codes =>
    obtain ⟨hopen, hstep⟩ := Option.ite_none_left_eq_some.mp hstep
    have hwalked := h.walked (Bool.eq_false_iff.mpr hopen)
    obtain rfl := Option.some.inj hstep
    exact (hwalked.same (ingest_same state codes).1 (ingest_same state codes).2).decoded hsched
  | readyStep otherRows =>
    obtain ⟨hopen, hstep⟩ := Option.ite_none_left_eq_some.mp hstep
    obtain rfl := Option.some.inj hstep
    exact ((h.walked (Bool.eq_false_iff.mpr hopen)).readyStep otherRows).decoded hsched
  | done =>
    obtain ⟨hopen, hstep⟩ := Option.ite_none_left_eq_some.mp hstep
    obtain rfl := Option.some.inj hstep
    exact (h.walked (Bool.eq_false_iff.mpr hopen)).onStreamDone hsched

theorem decoded_of_reaches (hsched : sched.Bounded)
    (h : (stream sched).Reaches Lib.Machine.anyAction state) : Decoded sched state :=
  Lib.Machine.Reaches.invariant h (Walked.decoded ⟨rfl, rfl⟩ hsched)
    fun _ _ _ hdecoded _ hstep => hdecoded.step hsched hstep

theorem exists_windows (sched : Code2WavScheduler) (n : Nat) :
    ∃ state, (stream sched).Reaches Lib.Machine.anyAction state ∧ state.isDone = false
      ∧ state.windows.length = n ∧ state.checked = state.chunks.length
      ∧ state.emitted = state.chunks.length := by
  induction n with
  | zero => exact ⟨{}, .refl _, rfl, rfl, rfl, rfl⟩
  | succ n ih =>
    obtain ⟨state, hreaches, hopen, hlength, hchecked, hemitted⟩ := ih
    let frames := List.replicate (sched.windowNewFrames state) (Frame.mk 0 0)
    let filled := sched.ingest state (.rows frames)
    have hnew : sched.windowNewFrames filled = sched.windowNewFrames state := rfl
    have hready : Code2WavScheduler.ready filled = sched.windowNewFrames state := by
      simp [filled, frames, Code2WavScheduler.ready, Code2WavScheduler.ingest, hemitted]
    have hwindowReady : sched.windowReady filled = (true, filled) := by
      have hscanned : ¬ (sched.eosLazyScan = true ∧ filled.checked < filled.chunks.length
          ∧ sched.windowNewFrames filled ≤ Code2WavScheduler.ready filled) :=
        fun hlazy => Nat.lt_irrefl _ hlazy.2.1
      unfold Code2WavScheduler.windowReady
      dsimp only
      rw [if_neg hscanned, hnew, hready, decide_eq_true (Nat.le_refl _)]
    refine ⟨sched.decodeWindow filled 1, ?_, hopen, ?_, rfl, ?_⟩
    · have hfilled : (stream sched).step state (.codes (.rows frames)) = some filled :=
        if_neg (Bool.eq_false_iff.mp hopen)
      have hdecoded : (stream sched).step filled (.readyStep 0) = some (sched.decodeWindow filled 1) := by
        refine (if_neg (Bool.eq_false_iff.mp hopen)).trans ?_
        rw [Code2WavScheduler.readyStep, hwindowReady]
        rfl
      exact (hreaches.tail trivial hfilled).tail trivial hdecoded
    · simp only [Code2WavScheduler.decodeWindow, List.length_append, List.length_singleton]
      rw [← hlength]
      rfl
    · have hchunks : filled.chunks.length = state.chunks.length + sched.windowNewFrames state := by
        simp [filled, frames, Code2WavScheduler.ingest]
      exact (congrArg₂ (· + ·) hemitted hnew).trans hchunks.symm

/-! ### The lengths captured at startup -/

theorem mem_startupKeys {frames : Nat} (initialChunkFrames maxReplayRows : Int) (hasCodecPool : Bool)
    (hpos : 1 ≤ frames) (hle : frames ≤ leftContextSize + streamChunkSize) :
    { batchSize := 1, frames : GraphKey } ∈
        (startupKeys streamChunkSize leftContextSize initialChunkFrames maxReplayRows hasCodecPool).1 ∨
      { batchSize := 1, frames : GraphKey } ∈
        (startupKeys streamChunkSize leftContextSize initialChunkFrames maxReplayRows hasCodecPool).2 := by
  refine or_iff_not_imp_left.mpr fun hmissing => List.mem_filter.mpr ⟨?_, decide_eq_true hmissing⟩
  exact List.mem_map.mpr ⟨frames, List.mem_range'_1.mpr ⟨hpos, by omega⟩, rfl⟩

/-- The states of a stream over every run under the settings of a server. -/
def StreamReaches (streamChunkSize leftContextSize : Nat) (initialChunkFrames codecEosTokenId : Int)
    (eosLazyScan : Bool) (state : Code2WavStreamState) : Prop :=
  (stream (.create streamChunkSize leftContextSize initialChunkFrames codecEosTokenId eosLazyScan)).Reaches
    Lib.Machine.anyAction state

/-- The lengths captured at startup are those that a stream visits, in the order of its first visits, and
every window that is decoded alone has a key. -/
theorem serialWindowFrames_exact (streamChunkSize leftContextSize : Nat) (h : 1 ≤ streamChunkSize)
    (initialChunkFrames maxReplayRows codecEosTokenId : Int) (hasCodecPool eosLazyScan : Bool) :
    (serialWindowFrames streamChunkSize leftContextSize initialChunkFrames).Nodup ∧
      (∀ state, StreamReaches streamChunkSize leftContextSize initialChunkFrames codecEosTokenId eosLazyScan state →
        state.isDone = false →
          (state.windows.map (·.frames)).eraseDups
              <+: serialWindowFrames streamChunkSize leftContextSize initialChunkFrames ∧
            (leftContextSize + 2 ≤ state.windows.length → (state.windows.map (·.frames)).eraseDups
              = serialWindowFrames streamChunkSize leftContextSize initialChunkFrames)) ∧
      (∀ n, ∃ state,
        StreamReaches streamChunkSize leftContextSize initialChunkFrames codecEosTokenId eosLazyScan state ∧
          state.isDone = false ∧ state.windows.length = n) ∧
      ∀ state, StreamReaches streamChunkSize leftContextSize initialChunkFrames codecEosTokenId eosLazyScan state →
        (∀ last, state.windows.getLast? = some last →
          1 ≤ last.frames ∧ last.frames ≤ leftContextSize + streamChunkSize) ∧
        ∀ window ∈ state.windows, window.rows = 1 →
          { batchSize := 1, frames := window.frames : GraphKey } ∈
              (startupKeys streamChunkSize leftContextSize initialChunkFrames maxReplayRows hasCodecPool).1 ∨
            { batchSize := 1, frames := window.frames : GraphKey } ∈
              (startupKeys streamChunkSize leftContextSize initialChunkFrames maxReplayRows hasCodecPool).2 := by
  have hsched := bounded_create h leftContextSize initialChunkFrames codecEosTokenId eosLazyScan
  have hframes (n : Nat) (hn : leftContextSize + 2 ≤ n) :
      serialWindowFrames streamChunkSize leftContextSize initialChunkFrames = _ :=
    serialWindowFrames_eq h initialChunkFrames codecEosTokenId eosLazyScan hn
  refine ⟨hframes _ (Nat.le_refl _) ▸ nodup_firstVisits _, fun state hstate hopen => ?_, fun n => ?_,
    fun state hstate => ?_⟩
  · have hwalked := (decoded_of_reaches hsched hstate).walked hopen
    rw [hwalked.windows]
    refine ⟨?_, fun hn => (hframes _ hn).symm⟩
    rw [hframes (leftContextSize + 2 + state.windows.length) (Nat.le_add_right _ _),
      Nat.add_comm (leftContextSize + 2)]
    exact firstVisits_isPrefix_add _ _
  · obtain ⟨state, hreaches, hopen, hlength, -, -⟩ := exists_windows _ n
    exact ⟨state, hreaches, hopen, hlength⟩
  · have hbounds := (decoded_of_reaches hsched hstate).bounds
    refine ⟨fun last hlast => hbounds last (List.mem_of_mem_getLast? hlast), fun window hmem _ => ?_⟩
    obtain ⟨hpos, hle⟩ := hbounds window hmem
    exact mem_startupKeys _ _ _ hpos hle

theorem serialWindowFrames_exact_offset :
    serialWindowFrames 10 25 4 = [4, 14, 24, 34, 35] ∧ (serialWindowFrames 10 25 4).Nodup :=
  ⟨by decide, (serialWindowFrames_exact 10 25 (by decide) 4 8 2150 false true).1⟩

end Code2Wav
