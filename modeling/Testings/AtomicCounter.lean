import Mathlib.Data.Nat.Notation
import Mathlib.Tactic.SplitIfs

/-!
# Atomic counters of the kernel

A signed 32-bit counter as the atomic operations see it: it wraps around, and
`atomic_fetch_add_unless` is what keeps it below `INT_MAX`.
-/

set_option autoImplicit false

namespace AtomicCounter

def intMax : BitVec 32 := 0x7FFFFFFF#32

def intMin : BitVec 32 := 0x80000000#32

/-- The counter after `atomic_fetch_add_unless`, and the value that it finds. -/
def fetchAddUnless (count amount limit : BitVec 32) : BitVec 32 × BitVec 32 :=
  (if count = limit then count else count + amount, count)

/-- The value that `atomic_dec` leaves and `atomic_dec_return` returns. -/
def decReturn (count : BitVec 32) : BitVec 32 := count - 1

def Positive (count : BitVec 32) : Prop := 0 < count.toInt

instance (count : BitVec 32) : Decidable (Positive count) := inferInstanceAs (Decidable (_ < _))

theorem positive_iff (count : BitVec 32) :
    Positive count ↔ 0 < count.toNat ∧ count.toNat < 2147483648 := by
  have bound := count.isLt
  rw [Positive, BitVec.toInt_eq_toNat_cond]
  split_ifs <;> omega

theorem positive_add_one {count : BitVec 32} (room : count ≠ intMax) (opened : count ≠ 0) :
    Positive (count + 1) ↔ Positive count := by
  have bound := count.isLt
  have notMax : count.toNat ≠ 2147483647 := fun same => room (BitVec.eq_of_toNat_eq same)
  have notZero : count.toNat ≠ 0 := fun same => opened (BitVec.eq_of_toNat_eq same)
  have sum : (count + 1).toNat = (count.toNat + 1) % 2 ^ 32 := BitVec.toNat_add count 1
  rw [positive_iff, positive_iff]
  omega

theorem positive_sub_one {count : BitVec 32} (inRange : count ≠ intMin) (left : count - 1 ≠ 0) :
    Positive (count - 1) ↔ Positive count := by
  have bound := count.isLt
  have notMin : count.toNat ≠ 2147483648 := fun same => inRange (BitVec.eq_of_toNat_eq same)
  have difference : (count - 1).toNat = (2 ^ 32 - 1 + count.toNat) % 2 ^ 32 :=
    BitVec.toNat_sub count 1
  have notZero : (count - 1).toNat ≠ 0 := fun same => left (BitVec.eq_of_toNat_eq same)
  rw [positive_iff, positive_iff]
  omega

/-- Only from zero does a fetched addition make the counter positive. -/
theorem positive_fetch_add {count : BitVec 32} (opened : count ≠ 0) :
    Positive (fetchAddUnless count 1 intMax).1 ↔ Positive count := by
  dsimp only [fetchAddUnless]
  split_ifs with full
  · rfl
  · exact positive_add_one full opened

theorem dec_return_zero {count : BitVec 32} (last : decReturn count = 0) : count = 1 := by
  rw [← BitVec.sub_add_cancel count 1]
  exact congrArg (· + 1) last

/-- Away from the ends of its range a decrement makes the counter positive or
not only where it leaves zero. -/
theorem positive_dec_return {count : BitVec 32} (inRange : count ≠ intMin) (more : count ≠ 1) :
    Positive (decReturn count) ↔ Positive count := by
  apply positive_sub_one inRange
  exact fun last => more (dec_return_zero last)

end AtomicCounter
