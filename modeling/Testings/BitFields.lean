import Mathlib.Data.BitVec

/-!
# Bit fields of natural numbers

Shifting and or-ing parts that do not overlap is positional notation; masking is
the remainder. Readers and writers of packed fields are compared through these.
-/

set_option autoImplicit false

namespace BitFields

theorem shift_or (width : Nat) {low : Nat} (fits : low < 2 ^ width) (high : Nat) :
    (high <<< width) ||| low = high * 2 ^ width + low := by
  rw [← Nat.shiftLeft_add_eq_or_of_lt fits, Nat.shiftLeft_eq]

/-- Two neighbouring parts, both still to be shifted. -/
theorem shift_or_shift (width shift : Nat) {low : Nat} (fits : low < 2 ^ width) (high : Nat) :
    (high <<< (width + shift)) ||| (low <<< shift) = (high * 2 ^ width + low) <<< shift := by
  rw [Nat.shiftLeft_add, ← Nat.shiftLeft_or_distrib, shift_or width fits]

theorem mask_mod (value width : Nat) : value &&& (2 ^ width - 1) = value % 2 ^ width :=
  Nat.and_two_pow_sub_one_eq_mod value width

/-- A field of `width` bits read back from under a reserved part. -/
theorem masked_field (width : Nat) {field : Nat} (fits : field < 2 ^ width) (reserved : Nat) :
    (reserved * 2 ^ width + field) &&& (2 ^ width - 1) = field := by
  rw [mask_mod, Nat.mul_add_mod_self_right, Nat.mod_eq_of_lt fits]

/-- Clearing the low bits rounds down to a multiple of their weight. -/
theorem to_nat_and_not_mask {w k : Nat} {mask : BitVec w} (y : BitVec w)
    (low : mask.toNat = 2 ^ k - 1) : (y &&& ~~~mask).toNat = 2 ^ k * (y.toNat / 2 ^ k) := by
  apply Nat.eq_of_testBit_eq
  intro i
  have bit : (~~~mask).toNat.testBit i = (decide (i < w) && !decide (i < k)) := by
    rw [← BitVec.getLsbD, BitVec.getLsbD_not, BitVec.getLsbD, low, Nat.testBit_two_pow_sub_one]
  rw [BitVec.toNat_and, Nat.testBit_and, bit, Nat.testBit_two_pow_mul, Nat.testBit_div_two_pow]
  by_cases cleared : i < k
  · simp [cleared]
  · have kept : k ≤ i := not_lt.mp cleared
    have back : i - k + k = i := Nat.sub_add_cancel kept
    by_cases inside : i < w
    · simp [kept, inside, back]
    · have outside : y.toNat.testBit i = false := BitVec.getLsbD_of_ge y i (not_lt.mp inside)
      simp [back, outside]

theorem append_to_nat {high low : Nat} (first : BitVec high) (second : BitVec low) :
    (first ++ second).toNat = first.toNat * 2 ^ low + second.toNat := by
  rw [BitVec.toNat_append]
  exact shift_or low second.isLt first.toNat

theorem part_to_nat {width : Nat} (word : BitVec width) (first count : Nat) :
    (word.extractLsb' first count).toNat = word.toNat / 2 ^ first % 2 ^ count := by
  rw [BitVec.extractLsb'_toNat, Nat.shiftRight_eq_div_pow]

/-- The bytes of a word, the high one first. -/
def bytesOf (count : Nat) {width : Nat} (word : BitVec width) : List (BitVec 8) :=
  (List.range count).reverse.map fun place => word.extractLsb' (8 * place) 8

end BitFields
