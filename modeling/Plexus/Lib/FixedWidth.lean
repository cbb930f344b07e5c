import Mathlib.Data.Int.Order.Basic
import Mathlib.Tactic.Linarith

/-! Arithmetic of fixed width is exact where the result fits. -/

namespace Int32

open Int

variable {a b : Int32}

theorem toInt_add_exact (hlow : -2 ^ 31 ≤ a.toInt + b.toInt) (hhigh : a.toInt + b.toInt < 2 ^ 31) :
    (a + b).toInt = a.toInt + b.toInt := by
  rw [toInt_add]
  exact bmod_eq_of_le (by omega) (by omega)

theorem toInt_sub_exact (hlow : -2 ^ 31 ≤ a.toInt - b.toInt) (hhigh : a.toInt - b.toInt < 2 ^ 31) :
    (a - b).toInt = a.toInt - b.toInt := by
  rw [toInt_sub]
  exact bmod_eq_of_le (by omega) (by omega)

theorem toInt_mul_exact (hlow : -2 ^ 31 ≤ a.toInt * b.toInt) (hhigh : a.toInt * b.toInt < 2 ^ 31) :
    (a * b).toInt = a.toInt * b.toInt := by
  rw [toInt_mul]
  exact bmod_eq_of_le (by omega) (by omega)

/-- Division of numbers that are not negative. -/
theorem toInt_div_exact (ha : 0 ≤ a.toInt) (hb : 0 ≤ b.toInt) :
    (a / b).toInt = a.toInt / b.toInt := by
  have hlt := a.toInt_lt
  have hnonneg : 0 ≤ a.toInt / b.toInt := ediv_nonneg ha hb
  have hle : a.toInt / b.toInt ≤ a.toInt := ediv_le_self _ ha
  rw [toInt_div, tdiv_eq_ediv_of_nonneg ha]
  exact bmod_eq_of_le (by omega) (by omega)

end Int32

namespace Int64

variable {a b : Int64}

theorem toInt_mul_exact (hlow : -2 ^ 63 ≤ a.toInt * b.toInt) (hhigh : a.toInt * b.toInt < 2 ^ 63) :
    (a * b).toInt = a.toInt * b.toInt := by
  rw [toInt_mul]
  exact Int.bmod_eq_of_le (by omega) (by omega)

theorem toInt_div_exact (ha : 0 ≤ a.toInt) (hb : 0 ≤ b.toInt) :
    (a / b).toInt = a.toInt / b.toInt := by
  have hlt := a.toInt_lt
  have hnonneg : 0 ≤ a.toInt / b.toInt := Int.ediv_nonneg ha hb
  have hle : a.toInt / b.toInt ≤ a.toInt := Int.ediv_le_self _ ha
  rw [toInt_div, Int.tdiv_eq_ediv_of_nonneg ha]
  exact Int.bmod_eq_of_le (by omega) (by omega)

theorem toInt_toInt32_exact (hlow : -2 ^ 31 ≤ a.toInt) (hhigh : a.toInt < 2 ^ 31) :
    a.toInt32.toInt = a.toInt := by
  rw [toInt_toInt32]
  exact Int.bmod_eq_of_le (by omega) (by omega)

end Int64
