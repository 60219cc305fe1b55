import Mathlib.Data.List.Basic
import Mathlib.Logic.Function.Basic

/-!
# Memory that remembers where it was written

A store is remembered by its address whether or not it changes the cell, so
that a statement about what a program writes does not depend on what was
there before.
-/

set_option autoImplicit false

structure StoredMemory (Value : Type*) where
  cells : Nat → Value
  touched : List Nat

namespace StoredMemory

variable {Value : Type*}

def untouched (cells : Nat → Value) : StoredMemory Value := ⟨cells, []⟩

def store (memory : StoredMemory Value) (address : Nat) (value : Value) : StoredMemory Value where
  cells := Function.update memory.cells address value
  touched := memory.touched ++ [address]

/-- Stores to ascending addresses. -/
def storeAll (memory : StoredMemory Value) (address : Nat) : List Value → StoredMemory Value
  | [] => memory
  | value :: rest => storeAll (memory.store address value) (address + 1) rest

theorem store_all_append (memory : StoredMemory Value) (address : Nat)
    (first second : List Value) :
    memory.storeAll address (first ++ second) =
      (memory.storeAll address first).storeAll (address + first.length) second := by
  induction first generalizing memory address with
  | nil => rfl
  | cons value rest ih =>
      simp only [List.cons_append, storeAll, List.length_cons]
      rw [ih, Nat.add_right_comm, Nat.add_assoc]

theorem store_all_touched (memory : StoredMemory Value) (address : Nat) (values : List Value) :
    (memory.storeAll address values).touched =
      memory.touched ++ List.range' address values.length := by
  induction values generalizing memory address with
  | nil => simp [storeAll]
  | cons value rest ih =>
      rw [storeAll, ih, List.length_cons, List.range'_succ]
      simp [store]

theorem store_all_outside (memory : StoredMemory Value) {address position : Nat}
    {values : List Value} (outside : position < address ∨ address + values.length ≤ position) :
    (memory.storeAll address values).cells position = memory.cells position := by
  induction values generalizing memory address with
  | nil => rfl
  | cons value rest ih =>
      rw [List.length_cons] at outside
      rw [storeAll, ih _ (by omega)]
      exact Function.update_of_ne (by omega) _ _

theorem store_all_inside (memory : StoredMemory Value) (address : Nat) {offset : Nat}
    {values : List Value} (inside : offset < values.length) :
    values[offset]? = some ((memory.storeAll address values).cells (address + offset)) := by
  induction values generalizing memory address offset with
  | nil => cases inside
  | cons value rest ih =>
      cases offset with
      | zero =>
          rw [Nat.add_zero, storeAll, store_all_outside _ (.inl (by omega))]
          simp [store]
      | succ offset =>
          have later := ih (memory.store address value) (address + 1)
            (Nat.lt_of_succ_lt_succ inside)
          rwa [Nat.add_right_comm, Nat.add_assoc] at later

end StoredMemory
