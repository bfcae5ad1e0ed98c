import Mathlib.Algebra.Order.Ring.Nat

/-! Lists that consist of blocks of one length. -/

namespace Lib

variable {α : Type} {k m n i : ℕ} {l r : List α}

def block (k : ℕ) (l : List α) (i : ℕ) : List α := (l.drop (i * k)).take k

theorem block_drop (l : List α) : block k (l.drop (m * k)) i = block k l (m + i) := by
  rw [block, block, List.drop_drop, ← Nat.add_mul]

theorem block_append_left (h : (i + 1) * k ≤ l.length) : block k (l ++ r) i = block k l i := by
  rw [Nat.succ_mul] at h
  rw [block, block, List.drop_append_of_le_length (by omega), List.take_append_of_le_length]
  rw [List.length_drop]
  omega

theorem block_append_right (h : l.length = m * k) (hle : m ≤ i) :
    block k (l ++ r) i = block k r (i - m) := by
  have hmul : m * k ≤ i * k := Nat.mul_le_mul_right k hle
  rw [block, block, List.drop_append, List.drop_eq_nil_of_le (by omega), List.nil_append, h,
    Nat.sub_mul]

theorem eq_of_blocks (hl : l.length = n * k) (hr : r.length = n * k)
    (h : ∀ i < n, block k l i = block k r i) : l = r := by
  induction n generalizing l r with
  | zero =>
    rw [Nat.zero_mul] at hl hr
    rw [List.length_eq_zero_iff.mp hl, List.length_eq_zero_iff.mp hr]
  | succ n ih =>
    rw [Nat.succ_mul] at hl hr
    have hhead : l.take k = r.take k := by
      have hfirst := h 0 (by omega)
      simpa [block] using hfirst
    have htail : l.drop k = r.drop k := by
      apply ih
      · rw [List.length_drop]
        omega
      · rw [List.length_drop]
        omega
      · intro i hi
        have hnext := h (1 + i) (by omega)
        rw [← block_drop, ← block_drop, Nat.one_mul] at hnext
        exact hnext
    rw [← List.take_append_drop k l, hhead, htail, List.take_append_drop]

end Lib
