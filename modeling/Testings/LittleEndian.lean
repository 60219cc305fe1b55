import Mathlib.Data.BitVec

/-!
# Little-endian numbers

A number as a fixed count of bytes, the low byte first.
-/

set_option autoImplicit false

namespace LittleEndian

def encode : Nat → Nat → List (BitVec 8)
  | 0, _ => []
  | count + 1, value => BitVec.ofNat 8 value :: encode count (value / 256)

def decode : List (BitVec 8) → Nat
  | [] => 0
  | byte :: rest => byte.toNat + 256 * decode rest

@[simp] theorem encode_length (count value : Nat) : (encode count value).length = count := by
  induction count generalizing value with
  | zero => rfl
  | succ count ih => rw [encode, List.length_cons, ih]

theorem decode_pair_lt (low high : BitVec 8) : decode [low, high] < 65536 := by
  have lowBound : low.toNat < 256 := low.isLt
  have highBound : high.toNat < 256 := high.isLt
  simp only [decode]
  omega

theorem decode_encode {count value : Nat} (fits : value < 256 ^ count) :
    decode (encode count value) = value := by
  induction count generalizing value with
  | zero => exact (Nat.lt_one_iff.mp fits).symm
  | succ count ih =>
      have high : value / 256 < 256 ^ count := by
        rw [Nat.pow_succ] at fits
        omega
      rw [encode, decode, ih high, BitVec.toNat_ofNat]
      exact Nat.mod_add_div value 256

/-- Numbers one behind the other, each with its count of bytes. None of them is cut off. -/
def pack : List (Nat × Nat) → Option (List (BitVec 8))
  | [] => some []
  | (count, value) :: rest =>
      if value < 256 ^ count then (pack rest).map (encode count value ++ ·) else none

theorem pack_fits {fields : List (Nat × Nat)} (fits : ∀ field ∈ fields, field.2 < 256 ^ field.1) :
    pack fields = some (fields.flatMap fun field => encode field.1 field.2) := by
  induction fields with
  | nil => rfl
  | cons field rest ih =>
      obtain ⟨first, others⟩ := List.forall_mem_cons.mp fits
      rw [pack, if_pos first, ih others]
      rfl

theorem pack_overflows {fields : List (Nat × Nat)} {count value : Nat}
    (member : (count, value) ∈ fields) (large : 256 ^ count ≤ value) : pack fields = none := by
  induction fields with
  | nil => cases member
  | cons field rest ih =>
      cases List.mem_cons.mp member with
      | inl here =>
          rw [← here, pack, if_neg (Nat.not_lt.mpr large)]
      | inr later =>
          rw [pack, ih later]
          split_ifs <;> rfl

end LittleEndian
