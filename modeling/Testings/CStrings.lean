import Mathlib.Data.List.TakeWhile
import Mathlib.Data.List.Basic
import Mathlib.Tactic.SplitIfs

/-!
# Strings in buffers

Byte buffers that fault when written outside, the string functions of the C library
on them, and decimal numbers. A string is given without its terminator.
-/

set_option autoImplicit false

namespace CStrings

abbrev Chars := List (BitVec 8)

def isDigit (c : BitVec 8) : Bool := decide (0x30 ≤ c.toNat ∧ c.toNat ≤ 0x39)

/-- Digits and at least one. -/
def isDigits (s : Chars) : Bool := !s.isEmpty && s.all isDigit

def decimal (digits : Chars) : Nat :=
  digits.foldl (fun value c => 10 * value + (c.toNat - 0x30)) 0

def isSpace (c : BitVec 8) : Bool := decide (c.toNat = 0x20 ∨ 9 ≤ c.toNat ∧ c.toNat ≤ 13)

/-- `atoi`, where the number fits. -/
def atoi (s : Chars) : Int :=
  let s := s.dropWhile isSpace
  if s.head? = some 0x2D then -(decimal (s.tail.takeWhile isDigit) : Int)
  else if s.head? = some 0x2B then decimal (s.tail.takeWhile isDigit)
  else decimal (s.takeWhile isDigit)

theorem is_digits_iff {s : Chars} : isDigits s = true ↔ s ≠ [] ∧ ∀ c ∈ s, isDigit c = true := by
  cases s <;> simp [isDigits]

theorem atoi_digits {s : Chars} (digits : isDigits s = true) : atoi s = decimal s := by
  obtain ⟨nonempty, all⟩ := is_digits_iff.mp digits
  cases s with
  | nil => exact absurd rfl nonempty
  | cons c rest =>
      have first : 0x30 ≤ c.toNat ∧ c.toNat ≤ 0x39 :=
        of_decide_eq_true (all c List.mem_cons_self)
      have noSpace : ¬isSpace c = true := by
        intro space
        have kind : c.toNat = 0x20 ∨ 9 ≤ c.toNat ∧ c.toNat ≤ 13 := of_decide_eq_true space
        omega
      have noMinus : c ≠ 0x2D := by
        rintro rfl
        exact absurd first.1 (by decide)
      have noPlus : c ≠ 0x2B := by
        rintro rfl
        exact absurd first.1 (by decide)
      have whole : (c :: rest).takeWhile isDigit = c :: rest := List.takeWhile_eq_self_iff.mpr all
      have minus : (c :: rest).head? ≠ some 0x2D := fun same => noMinus (Option.some.inj same)
      have plus : (c :: rest).head? ≠ some 0x2B := fun same => noPlus (Option.some.inj same)
      simp only [atoi, List.dropWhile_cons_of_neg noSpace, if_neg minus, if_neg plus, whole]

inductive Fault where
  | outOfBounds
  | exited
  deriving DecidableEq

/-- `buffer[i] = c` -/
def store (buffer : Chars) (i : Nat) (c : BitVec 8) : Except Fault Chars :=
  if i < buffer.length then .ok (buffer.set i c) else .error .outOfBounds

def storeAll (buffer : Chars) (i : Nat) : Chars → Except Fault Chars
  | [] => .ok buffer
  | c :: rest => do
      let buffer ← store buffer i c
      storeAll buffer (i + 1) rest

/-- `strncpy` writes `n` bytes, zeros after the end of a shorter string. -/
def strncpy (buffer s : Chars) (n : Nat) : Except Fault Chars :=
  storeAll buffer 0 (s.take n ++ List.replicate (n - s.length) 0)

def strcpy (buffer s : Chars) : Except Fault Chars := storeAll buffer 0 (s ++ [0])

/-- The index that `strchr` points to. -/
def strchr (s : Chars) (c : BitVec 8) : Option Nat := if c ∈ s then some (s.idxOf c) else none

/-- The string in a buffer. -/
def contents (buffer : Chars) : Chars := buffer.takeWhile (· ≠ 0)

section buffer

variable {buffer s : Chars} {i n : Nat}

theorem store_inside (inside : i < buffer.length) (c : BitVec 8) :
    store buffer i c = .ok (buffer.set i c) := if_pos inside

theorem store_outside (outside : buffer.length ≤ i) (c : BitVec 8) :
    store buffer i c = .error .outOfBounds := if_neg (by omega)

theorem store_all_inside (inside : i + s.length ≤ buffer.length) :
    storeAll buffer i s = .ok (buffer.take i ++ s ++ buffer.drop (i + s.length)) := by
  induction s generalizing buffer i with
  | nil => simp [storeAll]
  | cons c rest ih =>
      rw [List.length_cons] at inside
      have here : i < buffer.length := by omega
      rw [storeAll, store_inside here]
      change storeAll (buffer.set i c) (i + 1) rest = _
      have before : (buffer.set i c).take (i + 1) = buffer.take i ++ [c] := by
        rw [List.take_add_one, List.take_set_of_le (Nat.le_refl i),
          List.getElem?_set_self here]
        rfl
      rw [ih (by rw [List.length_set]; omega), before, List.drop_set_of_lt (by omega),
        List.length_cons, show i + 1 + rest.length = i + (rest.length + 1) by omega,
        List.append_assoc (buffer.take i)]
      rfl

theorem store_all_outside (outside : buffer.length < i + s.length) (start : i ≤ buffer.length) :
    storeAll buffer i s = .error .outOfBounds := by
  induction s generalizing buffer i with
  | nil =>
      rw [List.length_nil] at outside
      omega
  | cons c rest ih =>
      rw [List.length_cons] at outside
      rw [storeAll]
      by_cases here : i < buffer.length
      · rw [store_inside here]
        change storeAll (buffer.set i c) (i + 1) rest = _
        exact ih (by rw [List.length_set]; omega) (by rw [List.length_set]; omega)
      · rw [store_outside (by omega)]
        rfl

theorem strncpy_inside (buffer : Chars) (whole : n ≤ s.length) (inside : n ≤ buffer.length) :
    strncpy buffer s n = .ok (s.take n ++ buffer.drop n) := by
  have written : (s.take n).length = n := List.length_take_of_le whole
  rw [strncpy, Nat.sub_eq_zero_of_le whole, List.replicate_zero, List.append_nil,
    store_all_inside (by omega), written, List.take_zero, Nat.zero_add, List.nil_append]

theorem strncpy_outside (s : Chars) (outside : buffer.length < n) :
    strncpy buffer s n = .error .outOfBounds := by
  apply store_all_outside _ (Nat.zero_le _)
  rw [List.length_append, List.length_take, List.length_replicate]
  omega

theorem strcpy_inside (inside : s.length < buffer.length) :
    strcpy buffer s = .ok (s ++ 0 :: buffer.drop (s.length + 1)) := by
  have written : (s ++ [0]).length = s.length + 1 := List.length_append
  rw [strcpy, store_all_inside (by omega), written, List.take_zero, Nat.zero_add,
    List.nil_append, List.append_assoc]
  rfl

/-- Bytes before the first zero. -/
theorem contents_terminated (noNul : ∀ c ∈ s, c ≠ 0) (rest : Chars) :
    contents (s ++ 0 :: rest) = s := by
  rw [contents, List.takeWhile_append_of_pos fun c member => by simpa using noNul c member]
  simp

theorem contents_emptied (buffer : Chars) : contents (buffer.set 0 0) = [] := by
  cases buffer <;> simp [contents]

/-- Terminated behind its first bytes, a buffer holds these. -/
theorem store_terminator (inside : s.length < buffer.length) :
    store (s ++ buffer.drop s.length) s.length 0 =
      .ok (s ++ 0 :: buffer.drop (s.length + 1)) := by
  rw [store_inside (by rw [List.length_append, List.length_drop]; omega),
    List.set_append_right _ _ (Nat.le_refl _), Nat.sub_self, List.drop_eq_getElem_cons inside]
  rfl

end buffer

/-- Before and behind the last separator, if there is one. -/
def rsplit (separator : BitVec 8) : Chars → Option (Chars × Chars)
  | [] => none
  | c :: rest =>
      match rsplit separator rest with
      | some (before, after) => some (c :: before, after)
      | none => if c = separator then some ([], rest) else none

theorem rsplit_none {separator : BitVec 8} {s : Chars} :
    rsplit separator s = none ↔ separator ∉ s := by
  induction s with
  | nil => simp [rsplit]
  | cons c rest ih =>
      rw [rsplit, List.mem_cons, not_or]
      cases later : rsplit separator rest with
      | some split =>
          have present : ¬separator ∉ rest := fun absent => by
            rw [ih.mpr absent] at later
            cases later
          constructor
          · intro none
            cases none
          · intro both
            exact absurd both.2 present
      | none =>
          have absent := ih.mp later
          by_cases here : c = separator
          · constructor
            · intro none
              simp [here] at none
            · intro both
              exact absurd here.symm both.1
          · exact ⟨fun _ => ⟨Ne.symm here, absent⟩, fun _ => if_neg here⟩

theorem rsplit_some {separator : BitVec 8} {s before after : Chars}
    (split : rsplit separator s = some (before, after)) :
    s = before ++ separator :: after ∧ separator ∉ after := by
  induction s generalizing before with
  | nil => cases split
  | cons c rest ih =>
      rw [rsplit] at split
      cases later : rsplit separator rest with
      | some found =>
          rw [later] at split
          cases split
          obtain ⟨same, last⟩ := ih later
          exact ⟨congrArg (List.cons c) same, last⟩
      | none =>
          rw [later] at split
          dsimp only at split
          split_ifs at split with here
          cases split
          exact ⟨here ▸ rfl, rsplit_none.mp later⟩

theorem rsplit_append {separator : BitVec 8} {after : Chars} (last : separator ∉ after)
    (before : Chars) :
    rsplit separator (before ++ separator :: after) = some (before, after) := by
  induction before with
  | nil =>
      rw [List.nil_append, rsplit, rsplit_none.mpr last]
      exact if_pos rfl
  | cons c rest ih => rw [List.cons_append, rsplit, ih]

theorem strchr_none {s : Chars} {c : BitVec 8} (absent : c ∉ s) : strchr s c = none :=
  if_neg absent

theorem strchr_append {before : Chars} {c : BitVec 8} (first : c ∉ before) (after : Chars) :
    strchr (before ++ c :: after) c = some before.length := by
  rw [strchr, if_pos (List.mem_append_right _ List.mem_cons_self),
    List.idxOf_append_of_notMem first, List.idxOf_cons_self, Nat.add_zero]

/-- Whatever stands behind. -/
theorem strchr_within {before : Chars} {c : BitVec 8} (present : c ∈ before) (after : Chars) :
    ∃ len < before.length, strchr (before ++ after) c = some len := by
  refine ⟨before.idxOf c, List.idxOf_lt_length_of_mem present, ?_⟩
  rw [strchr, if_pos (List.mem_append_left _ present), List.idxOf_append_of_mem present]

theorem strchr_some {s : Chars} {c : BitVec 8} {len : Nat} (found : strchr s c = some len) :
    len < s.length ∧ s = s.take len ++ c :: s.drop (len + 1) ∧ c ∉ s.take len := by
  rw [strchr] at found
  split_ifs at found with present
  cases found
  have inside : s.idxOf c < s.length := List.idxOf_lt_length_of_mem present
  refine ⟨inside, ?_, ?_⟩
  · have tail := List.drop_eq_getElem_cons inside
    rw [List.getElem_idxOf inside] at tail
    rw [← tail, List.take_append_drop]
  · rw [List.mem_take_iff_idxOf_lt present]
    exact Nat.lt_irrefl _

end CStrings
