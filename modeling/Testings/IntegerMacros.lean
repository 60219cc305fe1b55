import Mathlib.Data.Rat.Floor
import Testings.RoundedQuotients

/-!
# The integer macros of the headers

A macro has no types of its own: it is written over any type with the operators
that it uses. On integers that do not overflow every formula is a quotient
rounded upwards or to nearest, whatever its name promises.
-/

set_option autoImplicit false

namespace Testings.Macros

section macros

variable {T : Type} [Add T] [Sub T] [Mul T] [Div T] [Mod T] [AndOp T] [Complement T]
  [LT T] [LE T] [DecidableEq T] [DecidableLT T] [DecidableLE T]
  [OfNat T 0] [OfNat T 1] [OfNat T 2]

/-- A comparison is one or zero. -/
def truth (p : Prop) [Decidable p] : T := if p then 1 else 0

namespace HelloWorld

/-- `((A) / (B) + ((A) % (B) != 0))` -/
def ceilDiv (A B : T) : T := A / B + truth (A % B ≠ 0)

/-- `((A) / (B) + ((A) % (B) >= ((B) + 1) / 2))` -/
def roundDiv (A B : T) : T := A / B + truth (A % B ≥ (B + 1) / 2)

/-- `(((x) + ((sz) - 1)) & ~((sz) - 1))` -/
def alignOf (x sz : T) : T := (x + (sz - 1)) &&& ~~~(sz - 1)

/-- `((x)<(Z)?(Z):(Z)*((x)/(Z)+((x)%(Z)?1:0)))` -/
def alignBufferSize (x Z : T) : T :=
  if x < Z then Z else Z * (x / Z + if x % Z ≠ 0 then 1 else 0)

end HelloWorld

namespace C

/-- `(((a)+(a)%(b))/(b))` -/
def mathDiv (a b : T) : T := (a + a % b) / b

/-- `((((n) < 0) == ((d) < 0)) ? (((n) + (d)/2)/(d)) : (((n) - (d)/2)/(d)))` -/
def divRoundClosest (n d : T) : T :=
  if decide (n < 0) = decide (d < 0) then (n + d / 2) / d else (n - d / 2) / d

/-- `(((a) + (b) - 1) / (b))` -/
def ceilDiv (a b : T) : T := (a + b - 1) / b

end C

namespace SlaveSpi

/-- `(((a)+(a)%(b))/(b))`, to return the smallest `N` such that `x <= y * N`. -/
def ceilDiv (a b : T) : T := (a + a % b) / b

end SlaveSpi

namespace CeilDiv

/-- `(((A) + (B) - 1) / (B))` -/
def ceilDiv (A B : T) : T := (A + B - 1) / B

/-- `(((A) + (A)%(B)) / (B))` -/
def roundDiv (A B : T) : T := (A + A % B) / B

end CeilDiv

end macros

/-- From one unit on, the aligned size counts whole units. -/
theorem HelloWorld.align_buffer_size_eq {T : Type} [Add T] [Mul T] [Div T] [Mod T] [LT T]
    [DecidableEq T] [DecidableLT T] [OfNat T 0] [OfNat T 1] (x Z : T) :
    HelloWorld.alignBufferSize x Z = if x < Z then Z else Z * HelloWorld.ceilDiv x Z := rfl

/-- An integer under the operators of C, whose division truncates. -/
@[ext] structure Unbounded where
  val : ℤ
deriving DecidableEq

namespace Unbounded

instance (n : Nat) : OfNat Unbounded n := ⟨⟨n⟩⟩
instance : Add Unbounded := ⟨fun a b => ⟨a.val + b.val⟩⟩
instance : Sub Unbounded := ⟨fun a b => ⟨a.val - b.val⟩⟩
instance : Mul Unbounded := ⟨fun a b => ⟨a.val * b.val⟩⟩
instance : Div Unbounded := ⟨fun a b => ⟨a.val.tdiv b.val⟩⟩
instance : Mod Unbounded := ⟨fun a b => ⟨a.val.tmod b.val⟩⟩
instance : LT Unbounded := ⟨fun a b => a.val < b.val⟩
instance : LE Unbounded := ⟨fun a b => a.val ≤ b.val⟩
instance : DecidableLT Unbounded := fun a b => inferInstanceAs (Decidable (a.val < b.val))
instance : DecidableLE Unbounded := fun a b => inferInstanceAs (Decidable (a.val ≤ b.val))

variable {a b : Unbounded}

@[simp] theorem val_zero : (0 : Unbounded).val = 0 := rfl
@[simp] theorem val_one : (1 : Unbounded).val = 1 := rfl
@[simp] theorem val_two : (2 : Unbounded).val = 2 := rfl
@[simp] theorem val_add : (a + b).val = a.val + b.val := rfl
@[simp] theorem val_sub : (a - b).val = a.val - b.val := rfl
@[simp] theorem val_mul : (a * b).val = a.val * b.val := rfl
theorem lt_iff : a < b ↔ a.val < b.val := Iff.rfl
theorem le_iff : a ≤ b ↔ a.val ≤ b.val := Iff.rfl

@[simp] theorem val_truth (p : Prop) [Decidable p] :
    (truth p : Unbounded).val = if p then 1 else 0 := by
  rw [truth, apply_ite val, val_one, val_zero]

/-- Below a dividend that is not negative, truncating is rounding down. -/
theorem val_div (nonneg : 0 ≤ a.val) : (a / b).val = a.val / b.val :=
  Int.tdiv_eq_ediv_of_nonneg nonneg

theorem val_mod (nonneg : 0 ≤ a.val) : (a % b).val = a.val % b.val :=
  Int.tmod_eq_emod_of_nonneg nonneg

end Unbounded

section values

open RoundedQuotients

variable {a b : Unbounded}

theorem HelloWorld.is_least_ceil_div (nonneg : 0 ≤ a.val) (positive : 0 < b.val) :
    IsLeast {n : ℤ | a.val ≤ b.val * n} (HelloWorld.ceilDiv a b).val := by
  have value : (HelloWorld.ceilDiv a b).val =
      a.val / b.val + if a.val % b.val = 0 then 0 else 1 := by
    rw [HelloWorld.ceilDiv, Unbounded.val_add, Unbounded.val_div nonneg, Unbounded.val_truth,
      ite_not]
    simp only [Unbounded.ext_iff, Unbounded.val_mod nonneg, Unbounded.val_zero]
  rw [value]
  exact is_least_quotient positive

theorem C.is_least_ceil_div (nonneg : 0 ≤ a.val) (positive : 0 < b.val) :
    IsLeast {n : ℤ | a.val ≤ b.val * n} (C.ceilDiv a b).val := by
  have value : (C.ceilDiv a b).val = a.val / b.val + if a.val % b.val = 0 then 0 else 1 := by
    have sum : (a + b - 1).val = a.val + (b.val - 1) := by
      rw [Unbounded.val_sub, Unbounded.val_add, Unbounded.val_one, add_sub_assoc]
    rw [C.ceilDiv, Unbounded.val_div (by omega), sum, add_pred_div positive]
  rw [value]
  exact is_least_quotient positive

theorem HelloWorld.is_least_align_buffer_size (nonneg : 0 ≤ a.val) (positive : 0 < b.val) :
    IsLeast {m : ℤ | b.val ∣ m ∧ a.val ≤ m ∧ b.val ≤ m} (HelloWorld.alignBufferSize a b).val := by
  rw [HelloWorld.align_buffer_size_eq]
  by_cases below : a < b
  · rw [if_pos below]
    have order : a.val ≤ b.val := (Unbounded.lt_iff.mp below).le
    exact ⟨⟨Int.dvd_refl b.val, order, le_refl b.val⟩, fun m multiple => multiple.2.2⟩
  · rw [if_neg below]
    have order : b.val ≤ a.val := not_lt.mp below
    have least := is_least_multiple positive (HelloWorld.is_least_ceil_div nonneg positive)
    constructor
    · exact ⟨least.1.1, least.1.2, order.trans least.1.2⟩
    · intro m multiple
      exact least.2 ⟨multiple.1, multiple.2.1⟩

theorem HelloWorld.round_div_val (nonneg : 0 ≤ a.val) (positive : 0 < b.val) :
    (HelloWorld.roundDiv a b).val = round ((a.val : ℚ) / b.val) := by
  have half : (b.val + 1) / 2 ≤ a.val % b.val ↔ b.val ≤ 2 * (a.val % b.val) := by omega
  have divisor : 0 ≤ (b + 1).val := by
    rw [Unbounded.val_add, Unbounded.val_one]
    omega
  rw [round_div_eq positive, HelloWorld.roundDiv, Unbounded.val_add, Unbounded.val_div nonneg,
    Unbounded.val_truth]
  simp only [ge_iff_le, Unbounded.le_iff, Unbounded.val_div divisor, Unbounded.val_mod nonneg,
    Unbounded.val_add, Unbounded.val_one, Unbounded.val_two, half]

theorem C.math_div_val (nonneg : 0 ≤ a.val) (positive : 0 < b.val) :
    (C.mathDiv a b).val = round ((a.val : ℚ) / b.val) := by
  have remainder := Int.emod_nonneg a.val positive.ne'
  have sum : (a + a % b).val = a.val + a.val % b.val := by
    rw [Unbounded.val_add, Unbounded.val_mod nonneg]
  rw [round_div_eq positive, C.mathDiv, Unbounded.val_div (by omega), sum,
    add_remainder_div positive]

theorem C.div_round_closest_val (nonneg : 0 ≤ a.val) (positive : 0 < b.val) :
    (C.divRoundClosest a b).val = round ((a.val : ℚ) / b.val) := by
  have sum : (a + b / 2).val = a.val + b.val / 2 := by
    rw [Unbounded.val_add, Unbounded.val_div positive.le, Unbounded.val_two]
  have signs : decide (a < 0) = decide (b < 0) := by
    simp only [Unbounded.lt_iff, Unbounded.val_zero, not_lt.mpr nonneg, not_lt.mpr positive.le]
  rw [round_div_eq positive, C.divRoundClosest, if_pos signs, Unbounded.val_div (by omega), sum,
    add_half_div positive]

/-- The formula of `MATH_DIV` under another name. -/
theorem CeilDiv.round_div_val (nonneg : 0 ≤ a.val) (positive : 0 < b.val) :
    (CeilDiv.roundDiv a b).val = round ((a.val : ℚ) / b.val) :=
  C.math_div_val nonneg positive

/-- So is the formula of the header of the driver, which names it a ceiling. -/
theorem SlaveSpi.ceil_div_val (nonneg : 0 ≤ a.val) (positive : 0 < b.val) :
    (SlaveSpi.ceilDiv a b).val = round ((a.val : ℚ) / b.val) :=
  C.math_div_val nonneg positive

end values

/-- One name computes one value, whichever header it comes from. -/
structure VariantsAgree (a b : ℤ) : Prop where
  helloWorld : IsLeast {n : ℤ | a ≤ b * n} (HelloWorld.ceilDiv (⟨a⟩ : Unbounded) ⟨b⟩).val
  c : IsLeast {n : ℤ | a ≤ b * n} (C.ceilDiv (⟨a⟩ : Unbounded) ⟨b⟩).val
  slaveSpi : IsLeast {n : ℤ | a ≤ b * n} (SlaveSpi.ceilDiv (⟨a⟩ : Unbounded) ⟨b⟩).val
  mathDiv : C.mathDiv (⟨a⟩ : Unbounded) ⟨b⟩ = HelloWorld.roundDiv ⟨a⟩ ⟨b⟩
  divRoundClosest : C.divRoundClosest (⟨a⟩ : Unbounded) ⟨b⟩ = HelloWorld.roundDiv ⟨a⟩ ⟨b⟩
  roundDiv : CeilDiv.roundDiv (⟨a⟩ : Unbounded) ⟨b⟩ = HelloWorld.roundDiv ⟨a⟩ ⟨b⟩

theorem variants_agree_iff (a b : ℤ) (nonneg : 0 ≤ a) (positive : 0 < b) :
    VariantsAgree a b ↔ a % b = 0 ∨ b ≤ 2 * (a % b) := by
  have rounded : IsLeast {n : ℤ | a ≤ b * n} (SlaveSpi.ceilDiv (⟨a⟩ : Unbounded) ⟨b⟩).val ↔
      a % b = 0 ∨ b ≤ 2 * (a % b) := by
    rw [SlaveSpi.ceil_div_val nonneg positive]
    exact RoundedQuotients.is_least_round_iff positive
  have reference := HelloWorld.round_div_val (a := ⟨a⟩) (b := ⟨b⟩) nonneg positive
  constructor
  · intro agree
    exact rounded.mp agree.slaveSpi
  · intro remainder
    exact {
      helloWorld := HelloWorld.is_least_ceil_div nonneg positive
      c := C.is_least_ceil_div nonneg positive
      slaveSpi := rounded.mpr remainder
      mathDiv := Unbounded.ext ((C.math_div_val nonneg positive).trans reference.symm)
      divRoundClosest :=
        Unbounded.ext ((C.div_round_closest_val nonneg positive).trans reference.symm)
      roundDiv := Unbounded.ext ((CeilDiv.round_div_val nonneg positive).trans reference.symm) }

theorem variants_agree_eight : VariantsAgree 8 3 :=
  (variants_agree_iff 8 3 (by decide) (by decide)).mpr (Or.inr (by decide))

theorem variants_disagree_ten : ¬∀ a b : ℤ, 0 ≤ a → 0 < b → VariantsAgree a b := by
  intro agree
  have least := (agree 10 3 (by decide) (by decide)).slaveSpi.1
  revert least
  decide

end Testings.Macros
