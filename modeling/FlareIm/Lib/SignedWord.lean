import Mathlib.Algebra.Order.Ring.Int

namespace SignedWord

section Saturating

-- The word closest to an integer.
def saturate (value : Int) : Int64 := Int64.ofInt (max (-2 ^ 63) (min value (2 ^ 63 - 1)))

def saturatingMul (a b : Int64) : Int64 := saturate (a.toInt * b.toInt)

def saturatingSub (a b : Int64) : Int64 := saturate (a.toInt - b.toInt)

theorem toInt_saturate (value : Int) :
    (saturate value).toInt = max (-2 ^ 63) (min value (2 ^ 63 - 1)) :=
  Int64.toInt_ofInt_of_le (by omega) (by omega)

end Saturating

section Exact

variable {a b : Int64}

theorem toInt_max : (max a b).toInt = max a.toInt b.toInt := by
  change (if a ≤ b then b else a).toInt = max a.toInt b.toInt
  split
  · rename_i hle
    rw [max_eq_right (Int64.le_iff_toInt_le.mp hle)]
  · rename_i hle
    rw [max_eq_left (le_of_lt (not_le.mp fun h => hle (Int64.le_iff_toInt_le.mpr h)))]

theorem toInt_min : (min a b).toInt = min a.toInt b.toInt := by
  change (if a ≤ b then a else b).toInt = min a.toInt b.toInt
  split
  · rename_i hle
    rw [min_eq_left (Int64.le_iff_toInt_le.mp hle)]
  · rename_i hle
    rw [min_eq_right (le_of_lt (not_le.mp fun h => hle (Int64.le_iff_toInt_le.mpr h)))]

-- A sum that stays in range is the sum of the integers.
theorem toInt_add (hl : -2 ^ 63 ≤ a.toInt + b.toInt) (hh : a.toInt + b.toInt < 2 ^ 63) :
    (a + b).toInt = a.toInt + b.toInt := by
  rw [Int64.toInt_add]
  exact Int.bmod_eq_of_le (by omega) (by omega)

theorem toInt_sub (hl : -2 ^ 63 ≤ a.toInt - b.toInt) (hh : a.toInt - b.toInt < 2 ^ 63) :
    (a - b).toInt = a.toInt - b.toInt := by
  rw [Int64.toInt_sub]
  exact Int.bmod_eq_of_le (by omega) (by omega)

theorem toInt_div (ha : 0 ≤ a.toInt) (hb : 0 < b.toInt) : (a / b).toInt = a.toInt / b.toInt := by
  have hl : 0 ≤ a.toInt / b.toInt := Int.ediv_nonneg ha (by omega)
  have hh : a.toInt / b.toInt ≤ a.toInt := Int.ediv_le_self _ ha
  have hr := a.toInt_lt
  rw [Int64.toInt_div, Int.tdiv_eq_ediv_of_nonneg ha]
  exact Int.bmod_eq_of_le (by omega) (by omega)

end Exact

end SignedWord
