import Testings.BitFields
import Testings.IntegerMacros

/-!
# The integer macros on words

On words of 32 bits sums wrap. Where the sums that a macro forms fit, the word
that it returns stands for the integer that it computes without a limit, so it
is exact up to the ends of the range: all but one divisor of one macro.
-/

set_option autoImplicit false

namespace Testings.Macros

/-- The integer that a word stands for. -/
def ideal (A : BitVec 32) : Unbounded := ⟨A.toNat⟩

section words

variable {A B : BitVec 32}

@[simp] theorem ideal_val : (ideal A).val = A.toNat := rfl

theorem ideal_nonneg : 0 ≤ (ideal A).val := Int.natCast_nonneg A.toNat

theorem ideal_positive (positive : 0 < B) : 0 < (ideal B).val :=
  Int.natCast_pos.mpr (BitVec.lt_def.mp positive)

theorem ideal_inj : ideal A = ideal B ↔ A = B := by
  rw [Unbounded.ext_iff, ideal_val, ideal_val, Int.natCast_inj, BitVec.toNat_inj]

theorem ideal_lt_iff : ideal A < ideal B ↔ A < B := by
  rw [Unbounded.lt_iff, ideal_val, ideal_val, Int.ofNat_lt, BitVec.lt_def]

theorem ideal_le_iff : ideal A ≤ ideal B ↔ A ≤ B := by
  rw [Unbounded.le_iff, ideal_val, ideal_val, Int.ofNat_le, BitVec.le_def]

theorem ideal_div : ideal (A / B) = ideal A / ideal B := rfl

theorem ideal_mod : ideal (A % B) = ideal A % ideal B := rfl

theorem ideal_add (fits : A.toNat + B.toNat < 2 ^ 32) : ideal (A + B) = ideal A + ideal B := by
  apply Unbounded.ext
  rw [ideal_val, BitVec.toNat_add_of_lt fits, Nat.cast_add]
  rfl

theorem ideal_mul (fits : A.toNat * B.toNat < 2 ^ 32) : ideal (A * B) = ideal A * ideal B := by
  apply Unbounded.ext
  rw [ideal_val, BitVec.toNat_mul, Nat.mod_eq_of_lt fits, Nat.cast_mul]
  rfl

theorem to_nat_truth (p : Prop) [Decidable p] :
    (truth p : BitVec 32).toNat = if p then 1 else 0 := by
  rw [truth, apply_ite BitVec.toNat]
  rfl

theorem ideal_truth (p : Prop) [Decidable p] : ideal (truth p) = truth p := by
  apply Unbounded.ext
  rw [ideal_val, to_nat_truth, Unbounded.val_truth, Nat.cast_ite, Nat.cast_one, Nat.cast_zero]

/-- Where a remainder is left the quotient can be counted up. -/
theorem carry_fits (positive : 0 < B) (p : Prop) [Decidable p] (left : p → A % B ≠ 0) :
    (A / B).toNat + (truth p : BitVec 32).toNat < 2 ^ 32 := by
  have bound := A.isLt
  have division := Nat.div_add_mod A.toNat B.toNat
  have quotient : A.toNat / B.toNat ≤ B.toNat * (A.toNat / B.toNat) :=
    Nat.le_mul_of_pos_left _ (BitVec.lt_def.mp positive)
  rw [to_nat_truth, BitVec.toNat_udiv]
  by_cases holds : p
  · have remainder : A.toNat % B.toNat ≠ 0 := by
      intro zero
      exact left holds (BitVec.eq_of_toNat_eq zero)
    rw [if_pos holds]
    omega
  · rw [if_neg holds]
    omega

theorem HelloWorld.ideal_ceil_div (positive : 0 < B) :
    ideal (HelloWorld.ceilDiv A B) = HelloWorld.ceilDiv (ideal A) (ideal B) := by
  have fits := carry_fits positive (A % B ≠ 0) id
  have same : A % B ≠ 0 ↔ ideal A % ideal B ≠ 0 := by
    rw [ne_eq, ne_eq, ← ideal_mod]
    exact (not_congr ideal_inj).symm
  rw [HelloWorld.ceilDiv, ideal_add fits, ideal_truth, ideal_div, HelloWorld.ceilDiv]
  simp only [same]

/-- The divisor must have a successor. -/
theorem HelloWorld.ideal_round_div (positive : 0 < B) (successor : B.toNat + 1 < 2 ^ 32) :
    ideal (HelloWorld.roundDiv A B) = HelloWorld.roundDiv (ideal A) (ideal B) := by
  have half : ideal ((B + 1) / 2) = (ideal B + 1) / 2 := by
    rw [ideal_div, ideal_add successor]
    rfl
  have same : A % B ≥ (B + 1) / 2 ↔ ideal A % ideal B ≥ (ideal B + 1) / 2 := by
    rw [← half, ← ideal_mod]
    exact ideal_le_iff.symm
  have left : A % B ≥ (B + 1) / 2 → A % B ≠ 0 := by
    intro reached zero
    rw [zero, ge_iff_le, BitVec.le_def, BitVec.toNat_udiv, BitVec.toNat_add_of_lt successor]
      at reached
    have above : 0 < B.toNat := BitVec.lt_def.mp positive
    change (B.toNat + 1) / 2 ≤ 0 at reached
    omega
  have fits := carry_fits positive _ left
  rw [HelloWorld.roundDiv, ideal_add fits, ideal_truth, ideal_div, HelloWorld.roundDiv]
  simp only [same]

/-- Unless the aligned size itself does not fit. -/
theorem HelloWorld.ideal_align_buffer_size (positive : 0 < B)
    (fits : (HelloWorld.alignBufferSize (ideal A) (ideal B)).val < 2 ^ 32) :
    ideal (HelloWorld.alignBufferSize A B) =
      HelloWorld.alignBufferSize (ideal A) (ideal B) := by
  rw [HelloWorld.align_buffer_size_eq] at fits
  rw [HelloWorld.align_buffer_size_eq, HelloWorld.align_buffer_size_eq]
  by_cases below : A < B
  · rw [if_pos below, if_pos (ideal_lt_iff.mpr below)]
  · have order : ¬ideal A < ideal B := (not_congr ideal_lt_iff).mpr below
    have count := HelloWorld.ideal_ceil_div (A := A) positive
    rw [if_neg order, ← count, Unbounded.val_mul, ideal_val, ideal_val] at fits
    have product : B.toNat * (HelloWorld.ceilDiv A B).toNat < 2 ^ 32 := by exact_mod_cast fits
    rw [if_neg below, if_neg order, ideal_mul product, count]

theorem HelloWorld.is_least_ceil_div_word (positive : 0 < B) :
    IsLeast {n : ℤ | (A.toNat : ℤ) ≤ B.toNat * n} (HelloWorld.ceilDiv A B).toNat := by
  have divisor := ideal_positive positive
  have least := HelloWorld.is_least_ceil_div (a := ideal A) ideal_nonneg divisor
  rw [← HelloWorld.ideal_ceil_div positive] at least
  exact least

theorem HelloWorld.align_buffer_size_word (positive : 0 < B) {m : ℤ}
    (least : IsLeast {m : ℤ | (B.toNat : ℤ) ∣ m ∧ A.toNat ≤ m ∧ B.toNat ≤ m} m)
    (fits : m < 2 ^ 32) : ((HelloWorld.alignBufferSize A B).toNat : ℤ) = m := by
  have divisor := ideal_positive positive
  have value : (HelloWorld.alignBufferSize (ideal A) (ideal B)).val = m :=
    (HelloWorld.is_least_align_buffer_size ideal_nonneg divisor).unique least
  have word := HelloWorld.ideal_align_buffer_size (A := A) positive (value ▸ fits)
  rw [← value, ← word, ideal_val]

/-- A multiple of a power of two that fits leaves room for the rest of its unit. -/
theorem unit_fits {m : ℤ} {k : Nat} (power : B.toNat = 2 ^ k) (multiple : (B.toNat : ℤ) ∣ m)
    (fits : m < 2 ^ 32) : m + B.toNat ≤ 2 ^ 32 := by
  have order : k < 32 := by
    have bound := B.isLt
    rw [power] at bound
    exact (Nat.pow_lt_pow_iff_right (by omega)).mp bound
  have whole : (B.toNat : ℤ) ∣ 2 ^ 32 := by
    rw [power]
    exact_mod_cast Nat.pow_dvd_pow 2 order.le
  obtain ⟨n, same⟩ := multiple
  obtain ⟨q, total⟩ := whole
  have positive : (0 : ℤ) < B.toNat := by
    rw [power]
    exact_mod_cast Nat.two_pow_pos k
  have below : n < q := by
    rw [same, total] at fits
    exact lt_of_mul_lt_mul_left fits positive.le
  calc m + B.toNat = B.toNat * (n + 1) := by rw [same, mul_add, mul_one]
    _ ≤ B.toNat * q := mul_le_mul_of_nonneg_left below positive.le
    _ = 2 ^ 32 := total.symm

theorem HelloWorld.align_of_word {m : ℤ} {k : Nat} (power : B.toNat = 2 ^ k)
    (least : IsLeast {m : ℤ | (B.toNat : ℤ) ∣ m ∧ A.toNat ≤ m} m) (fits : m < 2 ^ 32) :
    ((HelloWorld.alignOf A B).toNat : ℤ) = m := by
  have room := unit_fits power least.1.1 fits
  have above : (A.toNat : ℤ) ≤ m := least.1.2
  have positive : 0 < B.toNat := power ▸ Nat.two_pow_pos k
  have mask : (B - 1).toNat = B.toNat - 1 := BitVec.toNat_sub_of_le (BitVec.le_def.mpr positive)
  have sum : (A + (B - 1)).toNat = A.toNat + (B.toNat - 1) := by
    rw [BitVec.toNat_add_of_lt, mask]
    rw [mask]
    omega
  have cut : (HelloWorld.alignOf A B).toNat =
      B.toNat * ((A.toNat + (B.toNat - 1)) / B.toNat) := by
    rw [HelloWorld.alignOf, BitFields.to_nat_and_not_mask (k := k), sum, power]
    rw [mask, power]
  have divisor : (0 : ℤ) < B.toNat := Int.natCast_pos.mpr positive
  have least_multiplier := RoundedQuotients.is_least_quotient (a := A.toNat) divisor
  rw [← RoundedQuotients.add_pred_div divisor] at least_multiplier
  have aligned := RoundedQuotients.is_least_multiple divisor least_multiplier
  rw [← aligned.unique least, cut]
  push_cast [positive]
  rfl

/-- One too many where the successor of the divisor wraps to zero. -/
theorem HelloWorld.round_div_top (A : BitVec 32) :
    HelloWorld.roundDiv A 0xFFFFFFFF = A / 0xFFFFFFFF + 1 := by
  have half : ((0xFFFFFFFF : BitVec 32) + 1) / 2 = 0 := by decide
  have reached : A % 0xFFFFFFFF ≥ (0xFFFFFFFF + 1) / 2 := by
    rw [half]
    exact BitVec.le_def.mpr (Nat.zero_le _)
  rw [HelloWorld.roundDiv, truth, if_pos reached]

theorem round_word (positive : 0 < B) : round ((A.toNat : ℚ) / B.toNat) =
    ((A.toNat / B.toNat + if B.toNat ≤ 2 * (A.toNat % B.toNat) then 1 else 0 : Nat) : ℤ) := by
  have divisor : (0 : ℤ) < B.toNat := ideal_positive positive
  have rounded := RoundedQuotients.round_div_eq (K := ℚ) (a := A.toNat) divisor
  rw [Int.cast_natCast, Int.cast_natCast] at rounded
  rw [rounded]
  norm_cast

/-- Below the greatest divisor the word is the nearest integer. -/
theorem HelloWorld.round_div_word (positive : 0 < B) (below : B ≠ 0xFFFFFFFF) :
    ((HelloWorld.roundDiv A B).toNat : ℤ) = round ((A.toNat : ℚ) / B.toNat) := by
  have divisor := ideal_positive positive
  have successor : B.toNat + 1 < 2 ^ 32 := by
    have bound := B.isLt
    have other : B.toNat ≠ 0xFFFFFFFF := fun same => below (BitVec.eq_of_toNat_eq same)
    omega
  have word := HelloWorld.round_div_val (a := ideal A) ideal_nonneg divisor
  rw [← HelloWorld.ideal_round_div positive successor, ideal_val, ideal_val, ideal_val,
    Int.cast_natCast, Int.cast_natCast] at word
  exact word

theorem HelloWorld.round_div_top_iff : ((HelloWorld.roundDiv A 0xFFFFFFFF).toNat : ℤ) =
    round ((A.toNat : ℚ) / (0xFFFFFFFF : BitVec 32).toNat) ↔
      0x80000000 ≤ A ∧ A ≠ 0xFFFFFFFF := by
  have bound := A.isLt
  have value : (HelloWorld.roundDiv A 0xFFFFFFFF).toNat = A.toNat / 0xFFFFFFFF + 1 := by
    have quotient : (A / 0xFFFFFFFF).toNat = A.toNat / 0xFFFFFFFF := rfl
    have one : (1 : BitVec 32).toNat = 1 := rfl
    rw [HelloWorld.round_div_top, BitVec.toNat_add_of_lt, quotient, one]
    rw [quotient, one]
    omega
  have half : 0x80000000 ≤ A ↔ 2 ^ 31 ≤ A.toNat := Iff.rfl
  have top : A ≠ 0xFFFFFFFF ↔ A.toNat ≠ 2 ^ 32 - 1 := not_congr BitVec.toNat_inj.symm
  have divisor : (0xFFFFFFFF : BitVec 32).toNat = 2 ^ 32 - 1 := rfl
  rw [round_word (by decide), value, Int.natCast_inj, half, top, divisor]
  split <;> omega

end words

/-- The words that the macros return are the integers that they stand for. -/
structure MacrosExact (A B : BitVec 32) : Prop where
  ceilDiv : IsLeast {n : ℤ | (A.toNat : ℤ) ≤ B.toNat * n} (HelloWorld.ceilDiv A B).toNat
  roundDiv : ((HelloWorld.roundDiv A B).toNat : ℤ) = round ((A.toNat : ℚ) / B.toNat)
  alignOf : ∀ (k : Nat) (m : ℤ), B.toNat = 2 ^ k →
    IsLeast {m : ℤ | (B.toNat : ℤ) ∣ m ∧ A.toNat ≤ m} m → m < 2 ^ 32 →
      ((HelloWorld.alignOf A B).toNat : ℤ) = m
  alignBufferSize : ∀ m : ℤ,
    IsLeast {m : ℤ | (B.toNat : ℤ) ∣ m ∧ A.toNat ≤ m ∧ B.toNat ≤ m} m → m < 2 ^ 32 →
      ((HelloWorld.alignBufferSize A B).toNat : ℤ) = m

/-- Only the greatest divisor, whose successor wraps, is rounded wrongly. -/
theorem macros_exact_iff (A B : BitVec 32) (positive : 0 < B) :
    MacrosExact A B ↔ B ≠ 0xFFFFFFFF ∨ 0x80000000 ≤ A ∧ A ≠ 0xFFFFFFFF := by
  have rounded : ((HelloWorld.roundDiv A B).toNat : ℤ) = round ((A.toNat : ℚ) / B.toNat) ↔
      B ≠ 0xFFFFFFFF ∨ 0x80000000 ≤ A ∧ A ≠ 0xFFFFFFFF := by
    by_cases top : B = 0xFFFFFFFF
    · subst top
      rw [HelloWorld.round_div_top_iff]
      simp
    · simp only [HelloWorld.round_div_word positive top, top, ne_eq, not_false_eq_true, true_or]
  constructor
  · intro macros_exact
    exact rounded.mp macros_exact.roundDiv
  · intro range
    exact {
      ceilDiv := HelloWorld.is_least_ceil_div_word positive
      roundDiv := rounded.mpr range
      alignOf := fun k m power least fits => HelloWorld.align_of_word power least fits
      alignBufferSize := fun m least fits =>
        HelloWorld.align_buffer_size_word positive least fits }

theorem macros_exact_near_top : MacrosExact 0xFFFFFFFF 0xFFFFFFFE :=
  (macros_exact_iff 0xFFFFFFFF 0xFFFFFFFE (by decide)).mpr (Or.inl (by decide))

/-- `ROUND_DIV(1, 0xFFFFFFFF)` is one. -/
theorem macros_inexact_top : ¬∀ A B : BitVec 32, 0 < B → MacrosExact A B := by
  intro macros_exact
  have rounded := (macros_exact 1 0xFFFFFFFF (by decide)).roundDiv
  rw [HelloWorld.round_div_top_iff] at rounded
  exact absurd rounded.1 (by decide)

end Testings.Macros
