import Mathlib.Algebra.Order.Round
import Mathlib.Tactic.Linarith

/-!
# Rounded quotients

A quotient of integers is rounded up to the least multiplier that reaches the
dividend, or to the nearest integer with halves up. Both are read off the
quotient and the remainder, and so are the sums that programs form before they
divide.
-/

set_option autoImplicit false

namespace RoundedQuotients

variable {a b c n : ℤ}

/-- What is added before the division carries into the quotient at most once. -/
theorem add_div_carry (positive : 0 < b) (nonneg : 0 ≤ c) (small : c < b) :
    (a + c) / b = a / b + if b ≤ a % b + c then 1 else 0 := by
  rw [Int.add_ediv_of_pos positive, Int.ediv_eq_zero_of_lt nonneg small,
    Int.emod_eq_of_lt nonneg small, add_zero]

theorem is_least_multiplier_iff (positive : 0 < b) :
    IsLeast {n : ℤ | a ≤ b * n} n ↔ a ≤ b * n ∧ b * (n - 1) < a := by
  constructor
  · intro least
    have below : ¬a ≤ b * (n - 1) := by
      intro reaches
      have order : n ≤ n - 1 := least.2 reaches
      omega
    exact ⟨least.1, not_le.mp below⟩
  · intro bounds
    refine ⟨bounds.1, ?_⟩
    intro m reaches
    have above : b * (n - 1) < b * m := lt_of_lt_of_le bounds.2 reaches
    have order : n - 1 < m := lt_of_mul_lt_mul_left above positive.le
    omega

theorem is_least_quotient (positive : 0 < b) :
    IsLeast {n : ℤ | a ≤ b * n} (a / b + if a % b = 0 then 0 else 1) := by
  have division := Int.mul_ediv_add_emod a b
  have lower := Int.emod_nonneg a positive.ne'
  have upper := Int.emod_lt_of_pos a positive
  rw [is_least_multiplier_iff positive]
  by_cases divides : a % b = 0
  · rw [if_pos divides, add_zero, mul_sub, mul_one]
    omega
  · rw [if_neg divides, mul_sub, mul_add, mul_one]
    omega

theorem add_pred_div (positive : 0 < b) :
    (a + (b - 1)) / b = a / b + if a % b = 0 then 0 else 1 := by
  have lower := Int.emod_nonneg a positive.ne'
  rw [add_div_carry positive (by omega) (by omega)]
  by_cases divides : a % b = 0
  · rw [if_pos divides, if_neg (by omega)]
  · rw [if_neg divides, if_pos (by omega)]

/-- The least multiple is the least multiplier times the divisor. -/
theorem is_least_multiple (positive : 0 < b) (least : IsLeast {n : ℤ | a ≤ b * n} n) :
    IsLeast {m : ℤ | b ∣ m ∧ a ≤ m} (b * n) := by
  refine ⟨⟨Int.dvd_mul_right b n, least.1⟩, ?_⟩
  intro m multiple
  obtain ⟨k, same⟩ := multiple.1
  have reaches : a ≤ b * k := same ▸ multiple.2
  rw [same]
  exact mul_le_mul_of_nonneg_left (least.2 reaches) positive.le

theorem add_remainder_div (positive : 0 < b) :
    (a + a % b) / b = a / b + if b ≤ 2 * (a % b) then 1 else 0 := by
  have lower := Int.emod_nonneg a positive.ne'
  have upper := Int.emod_lt_of_pos a positive
  rw [add_div_carry positive lower upper, two_mul]

theorem add_half_div (positive : 0 < b) :
    (a + b / 2) / b = a / b + if b ≤ 2 * (a % b) then 1 else 0 := by
  have half : b ≤ a % b + b / 2 ↔ b ≤ 2 * (a % b) := by omega
  rw [add_div_carry positive (by omega) (by omega), if_congr half rfl rfl]

variable {K : Type*} [Field K] [LinearOrder K] [IsStrictOrderedRing K] [FloorRing K]

theorem round_div_eq (positive : 0 < b) :
    round ((a : K) / b) = a / b + if b ≤ 2 * (a % b) then 1 else 0 := by
  have divisor : (0 : K) < b := Int.cast_pos.mpr positive
  have doubled : (a : K) / b + 1 / 2 = ((2 * a + b : ℤ) : K) / ((2 * b : ℤ) : K) := by
    push_cast
    field_simp
  have halved : (2 * a + b) / 2 = a + b / 2 := by omega
  calc round ((a : K) / b) = (2 * a + b) / (2 * b) := by
        rw [round_eq, doubled, Int.floor_div_cast_of_nonneg (by omega), Int.floor_intCast]
    _ = (2 * a + b) / 2 / b := (Int.ediv_ediv_of_nonneg (by omega)).symm
    _ = (a + b / 2) / b := by rw [halved]
    _ = a / b + if b ≤ 2 * (a % b) then 1 else 0 := add_half_div positive

/-- To nearest is upwards unless a remainder is below one half. -/
theorem is_least_round_iff (positive : 0 < b) :
    IsLeast {n : ℤ | a ≤ b * n} (round ((a : K) / b)) ↔ a % b = 0 ∨ b ≤ 2 * (a % b) := by
  have least := is_least_quotient (a := a) positive
  have same : IsLeast {n : ℤ | a ≤ b * n} (round ((a : K) / b)) ↔
      round ((a : K) / b) = a / b + if a % b = 0 then 0 else 1 :=
    ⟨fun rounded => rounded.unique least, fun equal => equal ▸ least⟩
  rw [same, round_div_eq positive, add_right_inj]
  by_cases divides : a % b = 0
  · simp [divides, positive]
  · simp [divides]

end RoundedQuotients
