import Mathlib.Logic.Function.Basic
import Mathlib.Data.List.Basic

/-!
# Last-writer stores

A store is a partial map, a write sets or deletes one key, and a log of writes
is applied from its head. What a key holds afterwards is decided by the last
write to it.
-/

set_option autoImplicit false

namespace LastWriter

variable {Key Value : Type*} [DecidableEq Key]

/-- A value to set, or `none` to delete. -/
abbrev Write (Key Value : Type*) := Key × Option Value

def applyWrite (store : Key → Option Value) (write : Write Key Value) : Key → Option Value :=
  Function.update store write.1 write.2

def applyAll (store : Key → Option Value) (log : List (Write Key Value)) : Key → Option Value :=
  log.foldl applyWrite store

def lastWrite (key : Key) (log : List (Write Key Value)) : Option (Write Key Value) :=
  (log.filter fun write => write.1 = key).getLast?

theorem apply_all_append (store : Key → Option Value) (first second : List (Write Key Value)) :
    applyAll store (first ++ second) = applyAll (applyAll store first) second :=
  List.foldl_append

theorem last_write_append (key : Key) (first second : List (Write Key Value)) :
    lastWrite key (first ++ second) = (lastWrite key second).or (lastWrite key first) := by
  rw [lastWrite, List.filter_append, List.getLast?_append]
  rfl

/-- The last-writer law. -/
theorem apply_all_lookup (store : Key → Option Value) (log : List (Write Key Value)) (key : Key) :
    applyAll store log key =
      match lastWrite key log with
      | some write => write.2
      | none => store key := by
  induction log generalizing store with
  | nil => rfl
  | cons write rest ih =>
      have first : applyAll store (write :: rest) = applyAll (applyWrite store write) rest := rfl
      have split : lastWrite key (write :: rest) =
          (lastWrite key rest).or (lastWrite key [write]) :=
        last_write_append key [write] rest
      rw [first, split, ih]
      cases lastWrite key rest with
      | some later => rfl
      | none =>
          rw [Option.none_or, applyWrite]
          by_cases same : write.1 = key
          · have written : lastWrite key [write] = some write := by simp [lastWrite, same]
            rw [written, ← same]
            exact Function.update_self ..
          · have untouched : lastWrite key [write] = none := by simp [lastWrite, same]
            rw [untouched]
            exact Function.update_of_ne (Ne.symm same) ..

end LastWriter
