import Mathlib.Algebra.Order.Ring.Int

/-! The decoder window of a streaming vocoder: a row of frames of a fixed size, in which the frames of the
stream stand first and zeros after them. -/

namespace DotsTts

variable {α : Type}

/-- `scatter_` along a row: `source` takes the places from `index` on. -/
def scatter (index : ℕ) (source row : List α) : List α :=
  row.take index ++ source ++ row.drop (index + source.length)

variable [Zero α]

/-- One row of `append_decoder_input_per_row`. -/
def appendRow (decoderInput window : List α) (validFrames : ℤ) : Except String (List α) :=
  let chunkSize := decoderInput.length
  let windowSize := window.length
  if chunkSize ≥ windowSize then
    .error s!"decoder window size {windowSize} must be larger than chunk_size {chunkSize}."
  else
    let clippedValid := min validFrames.toNat windowSize
    let combined := scatter clippedValid decoderInput (window ++ List.replicate chunkSize 0)
    let newValid := min (clippedValid + chunkSize) windowSize
    let start := clippedValid + chunkSize - windowSize
    .ok ((List.range windowSize).map fun position =>
      if position < newValid then combined.getD (min (start + position) (combined.length - 1)) 0
      else 0)

def appendDecoderInputPerRow (decoderInput window : List (List α)) (validFrames : List ℤ) :
    Except String (List (List α)) :=
  if validFrames.length ≠ window.length then
    .error s!"valid_frames must have shape [batch], got ({validFrames.length},) for window batch {window.length}"
  else
    (decoderInput.zip (window.zip validFrames)).mapM fun row => appendRow row.1 row.2.1 row.2.2

/-- The row of `windowSize` that shows a stream: the last of its frames, then zeros. -/
def shown (windowSize : ℕ) (frames : List α) : List α :=
  frames.drop (frames.length - windowSize) ++ List.replicate (windowSize - frames.length) 0

theorem length_shown (windowSize : ℕ) (frames : List α) :
    (shown windowSize frames).length = windowSize := by
  simp only [shown, List.length_append, List.length_drop, List.length_replicate]
  omega

theorem getElem?_shown {windowSize : ℕ} {frames : List α} {position : ℕ}
    (h : position < min frames.length windowSize) :
    (shown windowSize frames)[position]? = frames[frames.length - windowSize + position]? := by
  rw [shown, List.getElem?_append_left (by simp only [List.length_drop]; omega), List.getElem?_drop]

theorem getElem?_shown_zero {windowSize : ℕ} {frames : List α} {position : ℕ}
    (hvalid : min frames.length windowSize ≤ position) (h : position < windowSize) :
    (shown windowSize frames)[position]? = some 0 := by
  rw [shown, List.getElem?_append_right (by simp only [List.length_drop]; omega),
    List.getElem?_replicate_of_lt (by simp only [List.length_drop]; omega)]

/-- Where the row shows a stream, the scatter leaves the stream's frames and the chunk after them. -/
theorem getElem?_scatter_shown {windowSize : ℕ} {frames input : List α} {position : ℕ}
    (h : position < min frames.length windowSize + input.length) :
    (scatter (min frames.length windowSize) input
      (shown windowSize frames ++ List.replicate input.length 0))[position]? =
      (frames ++ input)[frames.length - windowSize + position]? := by
  have hlength : ((shown windowSize frames ++ List.replicate input.length (0 : α)).take
      (min frames.length windowSize)).length = min frames.length windowSize := by
    simp only [List.length_take, List.length_append, length_shown]
    omega
  rw [scatter, List.append_assoc]
  by_cases hold : position < min frames.length windowSize
  · rw [List.getElem?_append_left (by rw [hlength]; exact hold), List.getElem?_take_of_lt hold,
      List.getElem?_append_left (by rw [length_shown]; omega), getElem?_shown hold,
      List.getElem?_append_left (by omega)]
  · rw [List.getElem?_append_right (by omega), hlength, List.getElem?_append_left (by omega),
      List.getElem?_append_right (by omega)]
    congr 1
    omega

/-- The window that shows a stream goes over to the one that shows the stream with the chunk. -/
theorem appendRow_shown {windowSize : ℕ} (frames : List α) {input : List α}
    (h : input.length < windowSize) :
    appendRow input (shown windowSize frames) (min frames.length windowSize : ℕ) =
      .ok (shown windowSize (frames ++ input)) := by
  unfold appendRow
  simp only [length_shown, Int.toNat_natCast, min_assoc, min_self]
  rw [if_neg (by omega)]
  congr 1
  apply List.ext_getElem?
  intro position
  by_cases hposition : position < windowSize
  · rw [List.getElem?_map, List.getElem?_range hposition, Option.map_some]
    by_cases hvalid : position < min (min frames.length windowSize + input.length) windowSize
    · rw [if_pos hvalid, getElem?_shown (by rw [List.length_append]; omega), List.length_append]
      set row := scatter (min frames.length windowSize) input
        (shown windowSize frames ++ List.replicate input.length 0) with hrow
      have hmin : min (min frames.length windowSize + input.length - windowSize + position)
          (row.length - 1) = min frames.length windowSize + input.length - windowSize + position := by
        simp only [hrow, scatter, List.length_append, List.length_take, List.length_drop,
          length_shown, List.length_replicate]
        omega
      rw [hmin]
      have hget : row[min frames.length windowSize + input.length - windowSize + position]? =
          (frames ++ input)[frames.length + input.length - windowSize + position]? := by
        rw [hrow, getElem?_scatter_shown (by omega)]
        congr 1
        omega
      rw [List.getD_eq_getElem?_getD, hget]
      have hlt : frames.length + input.length - windowSize + position < (frames ++ input).length := by
        rw [List.length_append]
        omega
      rw [List.getElem?_eq_getElem hlt, Option.getD_some]
    · rw [if_neg hvalid, getElem?_shown_zero (by rw [List.length_append]; omega) hposition]
  · rw [List.getElem?_eq_none (by simpa using hposition),
      List.getElem?_eq_none (by rw [length_shown]; omega)]

end DotsTts
