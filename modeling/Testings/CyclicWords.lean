import Mathlib.Algebra.FreeMonoid.Basic
import Mathlib.Algebra.Group.Commute.Defs

/-!
# Words read over and over

The endless repetition of a word, and when two words have the same one: exactly when they
commute.
-/

set_option autoImplicit false

namespace CyclicWords

variable {α : Type*}

/-- The letter at a position of the endless repetition of a word. -/
def cyclic (word : List α) (i : Nat) : Option α := word[i % word.length]?

def power (word : List α) : Nat → List α
  | 0 => []
  | n + 1 => word ++ power word n

theorem cyclic_of_lt {word : List α} {i : Nat} (inside : i < word.length) :
    cyclic word i = word[i]? := by
  rw [cyclic, Nat.mod_eq_of_lt inside]

theorem cyclic_add_length (word : List α) (i : Nat) :
    cyclic word (word.length + i) = cyclic word i := by
  rw [cyclic, Nat.add_mod_left, cyclic]

theorem cyclic_sub_length {word : List α} {i : Nat} (behind : word.length ≤ i) :
    cyclic word (i - word.length) = cyclic word i := by
  rw [← cyclic_add_length, Nat.add_sub_cancel' behind]

theorem length_power (word : List α) (n : Nat) : (power word n).length = n * word.length := by
  induction n with
  | zero => simp [power]
  | succ n ih => rw [power, List.length_append, ih, Nat.succ_mul, Nat.add_comm]

/-- A power is an initial part of the repetition. -/
theorem power_get {word : List α} {n i : Nat} (inside : i < n * word.length) :
    (power word n)[i]? = cyclic word i := by
  induction n generalizing i with
  | zero => simp at inside
  | succ n ih =>
      rw [Nat.succ_mul] at inside
      rw [power]
      by_cases first : i < word.length
      · rw [List.getElem?_append_left first, cyclic_of_lt first]
      · have behind : word.length ≤ i := Nat.le_of_not_lt first
        rw [List.getElem?_append_right behind, ih (by omega), cyclic_sub_length behind]

theorem ofList_power (word : List α) (n : Nat) :
    FreeMonoid.ofList (power word n) = FreeMonoid.ofList word ^ n := by
  induction n with
  | zero => rfl
  | succ n ih => rw [power, FreeMonoid.ofList_append, ih, pow_succ']

theorem power_comm {u v : List α} (comm : u ++ v = v ++ u) (m n : Nat) :
    power u m ++ power v n = power v n ++ power u m := by
  have commute : Commute (FreeMonoid.ofList u) (FreeMonoid.ofList v) :=
    congrArg FreeMonoid.ofList comm
  have powers := (commute.pow_pow m n).eq
  rw [← ofList_power, ← ofList_power] at powers
  exact FreeMonoid.ofList.injective powers

/-- Two powers of one length that commute are equal. -/
theorem power_eq {u v : List α} (comm : u ++ v = v ++ u) (n : Nat) :
    power u (n * v.length) = power v (n * u.length) := by
  have lengths : (power u (n * v.length)).length = (power v (n * u.length)).length := by
    rw [length_power, length_power, Nat.mul_right_comm]
  exact (List.append_inj (power_comm comm _ _) lengths).1

/-- A word followed by another with the same repetition is an initial part of it. -/
theorem append_get {u v : List α} (same : ∀ i, cyclic u i = cyclic v i) {i : Nat}
    (inside : i < u.length + v.length) : (u ++ v)[i]? = cyclic u i := by
  by_cases first : i < u.length
  · rw [List.getElem?_append_left first, cyclic_of_lt first]
  · have behind : u.length ≤ i := Nat.le_of_not_lt first
    have second : i - u.length < v.length := by omega
    rw [List.getElem?_append_right behind, ← cyclic_of_lt second, ← same, cyclic_sub_length behind]

theorem cyclic_eq_iff_comm {u v : List α} (some : u ≠ []) (other : v ≠ []) :
    (∀ i, cyclic u i = cyclic v i) ↔ u ++ v = v ++ u := by
  constructor
  · intro same
    apply List.ext_getElem?
    intro i
    by_cases inside : i < u.length + v.length
    · rw [append_get same inside, append_get (fun j => (same j).symm) (by omega), same]
    · have past : u.length + v.length ≤ i := Nat.le_of_not_lt inside
      rw [List.getElem?_eq_none (by rw [List.length_append]; exact past),
        List.getElem?_eq_none (by rw [List.length_append]; omega)]
  · intro comm i
    have positive : 0 < u.length * v.length :=
      Nat.mul_pos (List.length_pos_of_ne_nil some) (List.length_pos_of_ne_nil other)
    -- enough turns to reach the position
    have far : i < (i + 1) * (u.length * v.length) :=
      Nat.lt_of_lt_of_le (Nat.lt_succ_self i) (Nat.le_mul_of_pos_right _ positive)
    calc cyclic u i = (power u ((i + 1) * v.length))[i]? := by
          rw [power_get (by rw [Nat.mul_assoc, Nat.mul_comm v.length]; exact far)]
      _ = (power v ((i + 1) * u.length))[i]? := by rw [power_eq comm]
      _ = cyclic v i := power_get (by rw [Nat.mul_assoc]; exact far)

end CyclicWords
