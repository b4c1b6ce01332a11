import Mathlib.Algebra.Order.Floor.Div

namespace Slices

variable (size total : Nat)

-- A total is cut into slices of one size; the last one has what is left.
def slice (index : Nat) : Nat := min size (total - index * size)

variable {size total}

theorem slice_le (index : Nat) : slice size total index ≤ size := Nat.min_le_left _ _

theorem slice_pos_iff (hs : 0 < size) {index : Nat} :
    0 < slice size total index ↔ index < total ⌈/⌉ size := by
  have hl : 0 < total - index * size ↔ ¬total ≤ size * index := by
    rw [Nat.mul_comm size index]
    omega
  rw [slice, Nat.lt_min, and_iff_right hs, hl, ← ceilDiv_le_iff_le_mul hs, not_le]

-- The first slices are as many as fit in the total.
theorem sum_slice (count : Nat) :
    ((List.range count).map (slice size total)).sum = min total (count * size) := by
  induction count with
  | zero => simp
  | succ count ih =>
    rw [List.range_succ, List.map_append, List.sum_append, ih, List.map_singleton,
      List.sum_singleton, slice, Nat.succ_mul]
    omega

theorem sum_slices (hs : 0 < size) :
    ((List.range (total ⌈/⌉ size)).map (slice size total)).sum = total := by
  have hf : total ≤ size * (total ⌈/⌉ size) := (ceilDiv_le_iff_le_mul hs).mp le_rfl
  rw [sum_slice, Nat.mul_comm, Nat.min_eq_left hf]

end Slices
