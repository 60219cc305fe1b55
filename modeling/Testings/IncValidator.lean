import Testings.LittleEndian
import Testings.PythonData

/-!
# The validator of increment streams

`inc_validator` reads a file of 16-bit values that count up, with runs of zeros in
between. The lines it prints stand here with their numbers; a number that is `None`
where it is printed raises, and the run has no outcome.
-/

set_option autoImplicit false

namespace Testings.IncValidator

open Python (Bytes)

inductive Line where
  | chunk (start last count : Nat)
  | zeros (start count : Nat)
  | incomplete (offset : Nat)
  | mismatch (offset expected value : Nat)
  | failed (errors : Nat)
  | ok (values : Nat)
  deriving DecidableEq

structure Validator where
  errors : Nat
  values : Nat
  expected : Option Nat
  zeroStart : Option Nat
  zeroCount : Nat
  chunkStart : Option Nat
  chunkCount : Nat
  chunkEnd : Option Nat
  offset : Nat
  printed : List Line
  deriving DecidableEq

def start : Validator where
  errors := 0
  values := 0
  expected := none
  zeroStart := none
  zeroCount := 0
  chunkStart := none
  chunkCount := 0
  chunkEnd := none
  offset := 0
  printed := []

namespace Validator

def print (self : Validator) (line : Line) : Validator :=
  { self with printed := self.printed ++ [line] }

def reportChunk (self : Validator) : Option Validator := do
  let self ←
    if self.chunkCount ≠ 0 then do
      let first ← self.chunkStart
      let last ← self.chunkEnd
      some (self.print (.chunk first last self.chunkCount))
    else some self
  some { self with chunkStart := none, chunkCount := 0, chunkEnd := none }

def reportZeros (self : Validator) : Option Validator := do
  let self ←
    if self.zeroCount ≠ 0 then do
      let first ← self.zeroStart
      some (self.print (.zeros first self.zeroCount))
    else some self
  some { self with zeroStart := none, zeroCount := 0 }

def takeZero (self : Validator) : Option Validator := do
  let self ← self.reportChunk
  let self :=
    if self.zeroStart.isNone then { self with zeroStart := some (self.expected.getD 0) } else self
  some { self with zeroCount := self.zeroCount + 1, expected := none, offset := self.offset + 2 }

def checkExpected (self : Validator) (value : Nat) : Option Validator :=
  match self.expected with
  | none => some self
  | some expected =>
      if value ≠ expected then
        { self.print (.mismatch self.offset expected value) with
          errors := self.errors + 1 }.reportChunk
      else some self

def takeNonzero (self : Validator) (value : Nat) : Option Validator := do
  let self ←
    if self.zeroCount ≠ 0 then do
      let self ← self.reportZeros
      some { self with expected := none }
    else some self
  let self ← self.checkExpected value
  let self := if self.chunkStart.isNone then { self with chunkStart := some value } else self
  some { self with
    chunkCount := self.chunkCount + 1
    chunkEnd := some value
    expected := some ((value + 1) &&& 0xFFFF)
    offset := self.offset + 2 }

def take (self : Validator) (value : Nat) : Option Validator :=
  let self := { self with values := self.values + 1 }
  if value = 0 then self.takeZero else self.takeNonzero value

def incomplete (self : Validator) : Validator :=
  { self.print (.incomplete self.offset) with errors := self.errors + 1 }

/-- The loop over the reads of two bytes. -/
def read (self : Validator) : Bytes → Option Validator
  | [] => some self
  | [_] => some self.incomplete
  | low :: high :: rest => do
      let self ← self.take (LittleEndian.decode [low, high])
      read self rest

end Validator

/-- The exit status, with the variables and the output at the end. -/
def validate (file : Bytes) : Option (Nat × Validator) := do
  let self ← start.read file
  let self ← self.reportZeros
  let self ← self.reportChunk
  if self.errors ≠ 0 then some (1, self.print (.failed self.errors))
  else some (0, self.print (.ok self.values))

def words : Bytes → List Nat
  | low :: high :: rest => LittleEndian.decode [low, high] :: words rest
  | _ => []

def Violates (first second : Nat) : Prop :=
  first ≠ 0 ∧ second ≠ 0 ∧ second ≠ (first + 1) % 65536

instance (first second : Nat) : Decidable (Violates first second) :=
  inferInstanceAs (Decidable (_ ∧ _ ∧ _))

def adjacent (values : List Nat) : List (Nat × Nat) := values.zip values.tail

def violations (values : List Nat) : Nat :=
  (adjacent values).countP fun pair => Violates pair.1 pair.2

/-- The values that a line reports. -/
def Line.values : Line → List Nat
  | .chunk first _ count => List.range' first count
  | .zeros _ count => List.replicate count 0
  | _ => []

def Line.count : Line → Nat
  | .chunk _ _ count => count
  | .zeros _ count => count
  | _ => 0

/-- A chunk ends where its count says, and is not empty. -/
def Line.Exact : Line → Prop
  | .chunk first last count => 0 < count ∧ last + 1 = first + count
  | .zeros _ count => 0 < count
  | _ => True

def reported (lines : List Line) : List Nat := lines.flatMap Line.values

theorem reported_concat (lines : List Line) (line : Line) :
    reported (lines ++ [line]) = reported lines ++ line.values := by
  rw [reported, List.flatMap_append, List.flatMap_singleton]
  rfl

theorem values_length (line : Line) : line.values.length = line.count := by
  cases line with
  | chunk => exact List.length_range'
  | zeros => exact List.length_replicate
  | incomplete | mismatch | failed | ok => rfl

theorem reported_length (lines : List Line) :
    (reported lines).length = (lines.map Line.count).sum := by
  rw [reported, List.length_flatMap]
  simp only [values_length]

theorem adjacent_concat (before : List Nat) (last value : Nat) :
    adjacent (before ++ [last] ++ [value]) = adjacent (before ++ [last]) ++ [(last, value)] := by
  induction before with
  | nil => rfl
  | cons first rest ih =>
      cases rest with
      | nil => rfl
      | cons second rest =>
          simp only [adjacent, List.cons_append, List.tail_cons, List.zip_cons_cons] at ih ⊢
          rw [ih]

theorem violations_concat (before : List Nat) (last value : Nat) :
    violations (before ++ [last] ++ [value]) =
      violations (before ++ [last]) + if Violates last value then 1 else 0 := by
  rw [violations, adjacent_concat, List.countP_append, List.countP_singleton]
  simp only [decide_eq_true_iff]
  rfl

/-- The variables after a value, with the values of the current run. -/
inductive Pending : List Nat → Validator → Prop
  | zeros (errors values offset zeroStart count : Nat) (printed : List Line) :
      Pending (List.replicate (count + 1) 0)
        ⟨errors, values, none, some zeroStart, count + 1, none, 0, none, offset, printed⟩
  | chunk (errors values offset first count : Nat) (printed : List Line) (nonzero : 0 < first)
      (inside : first + count < 65536) :
      Pending (List.range' first (count + 1))
        ⟨errors, values, some ((first + count + 1) % 65536), none, 0, some first, count + 1,
          some (first + count), offset, printed⟩

/-- All values seen are reported or in the current run. -/
structure ValidatorInv (seen : List Nat) (state : Validator) : Prop where
  exact : ∀ line ∈ state.printed, line.Exact
  errors : state.errors = violations seen
  values : state.values = seen.length
  pending : ∃ run, Pending run state ∧ seen = reported state.printed ++ run

theorem exact_concat {lines : List Line} {line : Line} (before : ∀ line ∈ lines, line.Exact)
    (last : line.Exact) : ∀ other ∈ lines ++ [line], other.Exact := by
  intro other member
  cases List.mem_append.mp member with
  | inl old => exact before other old
  | inr new =>
      have same : other = line := List.mem_singleton.mp new
      rw [same]
      exact last

theorem low_word (value : Nat) : (value + 1) &&& 0xFFFF = (value + 1) % 65536 :=
  Nat.and_two_pow_sub_one_eq_mod (value + 1) 16

theorem violations_after_zeros (before : List Nat) (count value : Nat) :
    violations (before ++ List.replicate (count + 1) 0 ++ [value]) =
      violations (before ++ List.replicate (count + 1) 0) := by
  rw [List.replicate_succ', ← List.append_assoc, violations_concat,
    if_neg fun violates => violates.1 rfl, Nat.add_zero]

theorem violations_after_chunk (before : List Nat) (first count value : Nat) :
    violations (before ++ List.range' first (count + 1) ++ [value]) =
      violations (before ++ List.range' first (count + 1)) +
        if Violates (first + count) value then 1 else 0 := by
  rw [List.range'_1_concat, ← List.append_assoc, violations_concat]

/-- A chunk that begins with a value. -/
theorem pending_chunk_start (errors values offset value : Nat) (printed : List Line)
    (word : value < 65536) (nonzero : value ≠ 0) :
    Pending [value] ⟨errors, values, some ((value + 1) &&& 0xFFFF), none, 0, some value, 1,
      some value, offset, printed⟩ := by
  rw [low_word]
  exact .chunk errors values offset value 0 printed (Nat.pos_of_ne_zero nonzero) word

section take

variable {seen : List Nat} {errors values offset : Nat} {printed : List Line} {value : Nat}

theorem start_take (word : value < 65536) :
    ∃ next, start.take value = some next ∧ ValidatorInv [value] next := by
  have unprinted : ∀ line ∈ ([] : List Line), line.Exact := by
    intro line member
    cases member
  by_cases zero : value = 0
  · subst zero
    exact ⟨⟨0, 1, none, some 0, 1, none, 0, none, 2, []⟩, rfl, unprinted, rfl, rfl, _,
      .zeros 0 1 2 0 0 [], rfl⟩
  · refine ⟨⟨0, 1, some ((value + 1) &&& 0xFFFF), none, 0, some value, 1, some value, 2, []⟩, ?_,
      unprinted, rfl, rfl, _, pending_chunk_start 0 1 2 value [] word zero, rfl⟩
    rw [Validator.take, if_neg zero]
    rfl

theorem zeros_take {zeroStart count : Nat} (before : ValidatorInv seen
      ⟨errors, values, none, some zeroStart, count + 1, none, 0, none, offset, printed⟩)
    (split : seen = reported printed ++ List.replicate (count + 1) 0) (word : value < 65536) :
    ∃ next, (Validator.mk errors values none (some zeroStart) (count + 1) none 0 none offset
        printed).take value = some next ∧ ValidatorInv (seen ++ [value]) next := by
  have size : values + 1 = (seen ++ [value]).length := by
    rw [List.length_append, ← before.values, List.length_singleton]
  have errors_kept : errors = violations (seen ++ [value]) := by
    rw [split, violations_after_zeros, ← split]
    exact before.errors
  by_cases zero : value = 0
  · subst zero
    refine ⟨⟨errors, values + 1, none, some zeroStart, count + 2, none, 0, none, offset + 2,
      printed⟩, rfl, before.exact, errors_kept, size, _,
      .zeros errors _ _ zeroStart (count + 1) printed, ?_⟩
    rw [split, List.append_assoc, ← List.replicate_succ']
  · have closed : (Line.zeros zeroStart (count + 1)).Exact := Nat.succ_pos count
    have behind := reported_concat printed (.zeros zeroStart (count + 1))
    refine ⟨⟨errors, values + 1, some ((value + 1) &&& 0xFFFF), none, 0, some value, 1,
      some value, offset + 2, printed ++ [.zeros zeroStart (count + 1)]⟩, ?_,
      exact_concat before.exact closed, errors_kept, size, _,
      pending_chunk_start errors _ _ value _ word zero, ?_⟩
    · rw [Validator.take, if_neg zero]
      rfl
    · rw [split, behind]
      rfl

theorem chunk_take {first count : Nat} (before : ValidatorInv seen
      ⟨errors, values, some ((first + count + 1) % 65536), none, 0, some first, count + 1,
        some (first + count), offset, printed⟩)
    (split : seen = reported printed ++ List.range' first (count + 1)) (nonzero : 0 < first)
    (inside : first + count < 65536) (word : value < 65536) :
    ∃ next, (Validator.mk errors values (some ((first + count + 1) % 65536)) none 0 (some first)
        (count + 1) (some (first + count)) offset printed).take value = some next ∧
      ValidatorInv (seen ++ [value]) next := by
  have size : values + 1 = (seen ++ [value]).length := by
    rw [List.length_append, ← before.values, List.length_singleton]
  have counted : violations (seen ++ [value]) =
      errors + if Violates (first + count) value then 1 else 0 := by
    rw [split, violations_after_chunk, ← split, ← before.errors]
  have closed : (Line.chunk first (first + count) (count + 1)).Exact :=
    ⟨Nat.succ_pos count, Nat.add_assoc first count 1⟩
  have behind (lines : List Line) (same : reported lines = reported printed) :
      reported (lines ++ [.chunk first (first + count) (count + 1)]) = seen := by
    rw [reported_concat, same, split]
    rfl
  by_cases zero : value = 0
  · subst zero
    rw [if_neg fun violates => violates.2.1 rfl] at counted
    refine ⟨⟨errors, values + 1, none, some ((first + count + 1) % 65536), 1, none, 0, none,
      offset + 2, printed ++ [.chunk first (first + count) (count + 1)]⟩, rfl,
      exact_concat before.exact closed, counted.symm, size, _, .zeros errors _ _ _ 0 _, ?_⟩
    rw [behind printed rfl]
    rfl
  · by_cases follows : value = (first + count + 1) % 65536
    · rw [if_neg fun violates => violates.2.2 follows] at counted
      have unwrapped : value = first + count + 1 := by omega
      refine ⟨⟨errors, values + 1, some ((value + 1) &&& 0xFFFF), none, 0, some first, count + 2,
        some value, offset + 2, printed⟩, ?_, before.exact, counted.symm, size,
        List.range' first (count + 2), ?_, ?_⟩
      · simp [Validator.take, zero, Validator.takeNonzero, Validator.checkExpected, ← follows]
      · rw [low_word, unwrapped]
        exact .chunk errors _ _ first (count + 1) printed nonzero (by omega)
      · rw [split, List.append_assoc, unwrapped, List.range'_1_concat (n := count + 1)]
        rfl
    · have violates : Violates (first + count) value := ⟨by omega, zero, follows⟩
      rw [if_pos violates] at counted
      have noted : (Line.mismatch offset ((first + count + 1) % 65536) value).Exact := trivial
      refine ⟨⟨errors + 1, values + 1, some ((value + 1) &&& 0xFFFF), none, 0, some value, 1,
        some value, offset + 2,
        printed ++ [.mismatch offset ((first + count + 1) % 65536) value] ++
          [.chunk first (first + count) (count + 1)]⟩, ?_,
        exact_concat (exact_concat before.exact noted) closed, counted.symm, size, _,
        pending_chunk_start _ _ _ value _ word zero, ?_⟩
      · simp [Validator.take, zero, Validator.takeNonzero, Validator.checkExpected, follows,
          Validator.reportChunk, Validator.print]
      · rw [behind _ (by rw [reported_concat]; exact List.append_nil _)]

end take

theorem take_inv {seen : List Nat} {state : Validator} {value : Nat}
    (before : ValidatorInv seen state) (word : value < 65536) :
    ∃ next, state.take value = some next ∧ ValidatorInv (seen ++ [value]) next := by
  obtain ⟨run, pending, split⟩ := before.pending
  cases pending with
  | zeros => exact zeros_take before split word
  | chunk errors values offset first count printed nonzero inside =>
      exact chunk_take before split nonzero inside word

theorem read_inv (file : Bytes) {seen : List Nat} {state : Validator}
    (before : ValidatorInv seen state) :
    ∃ last, ValidatorInv (seen ++ words file) last ∧
      state.read file = some (if file.length % 2 = 1 then last.incomplete else last) := by
  induction file using words.induct generalizing seen state with
  | case1 low high rest ih =>
      obtain ⟨next, taken, after⟩ := take_inv before (LittleEndian.decode_pair_lt low high)
      obtain ⟨last, inv, finished⟩ := ih after
      refine ⟨last, ?_, ?_⟩
      · rw [words, List.append_cons]
        exact inv
      · have parity : (low :: high :: rest).length % 2 = rest.length % 2 :=
          Nat.add_mod_right rest.length 2
        rw [Validator.read, taken, parity]
        exact finished
  | case2 file short =>
      cases file with
      | nil =>
          have none_read : seen ++ words [] = seen := List.append_nil seen
          rw [none_read]
          exact ⟨state, before, rfl⟩
      | cons first rest =>
          cases rest with
          | nil =>
              have none_read : seen ++ words [first] = seen := List.append_nil seen
              rw [none_read]
              exact ⟨state, before, rfl⟩
          | cons second rest => exact (short first second rest rfl).elim

theorem Pending.incomplete {run : List Nat} {state : Validator} (pending : Pending run state) :
    Pending run state.incomplete := by
  cases pending with
  | zeros errors values offset zeroStart count printed =>
      exact .zeros (errors + 1) values offset zeroStart count _
  | chunk errors values offset first count printed nonzero inside =>
      exact .chunk (errors + 1) values offset first count _ nonzero inside

/-- What the end of the file reports is the current run. -/
theorem Pending.reports {run : List Nat} {state : Validator} (pending : Pending run state) :
    ∃ line final, (state.reportZeros >>= Validator.reportChunk) = some final ∧
      line.values = run ∧ line.Exact ∧ final.printed = state.printed ++ [line] ∧
      final.errors = state.errors ∧ final.values = state.values := by
  cases pending with
  | zeros errors values offset zeroStart count printed =>
      exact ⟨.zeros zeroStart (count + 1), _, rfl, rfl, Nat.succ_pos count, rfl, rfl, rfl⟩
  | chunk errors values offset first count printed nonzero inside =>
      exact ⟨.chunk first (first + count) (count + 1), _, rfl, rfl,
        ⟨Nat.succ_pos count, Nat.add_assoc first count 1⟩, rfl, rfl, rfl⟩

/-- All values are reported, and an odd byte counts as an error. -/
structure Reported (file : Bytes) (state : Validator) : Prop where
  errors : state.errors = violations (words file) + file.length % 2
  values : state.values = (words file).length
  reported : reported state.printed = words file
  exact : ∀ line ∈ state.printed, line.Exact

theorem inv_reported (file : Bytes) {last : Validator} (inv : ValidatorInv (words file) last) :
    ∃ final, ((if file.length % 2 = 1 then last.incomplete else last).reportZeros >>=
      Validator.reportChunk) = some final ∧ Reported file final := by
  obtain ⟨run, pending, split⟩ := inv.pending
  by_cases odd : file.length % 2 = 1
  · rw [if_pos odd]
    obtain ⟨line, final, closed, lineValues, exact, printed, errors, values⟩ :=
      pending.incomplete.reports
    have noted : (Line.incomplete last.offset).Exact := trivial
    refine ⟨final, closed, ?_, values.trans inv.values, ?_, ?_⟩
    · rw [errors, odd, ← inv.errors]
      rfl
    · have silent : reported last.incomplete.printed = reported last.printed :=
        (reported_concat _ _).trans (List.append_nil _)
      rw [printed, reported_concat, silent, lineValues, ← split]
    · rw [printed]
      exact exact_concat (exact_concat inv.exact noted) exact
  · have even : file.length % 2 = 0 := by omega
    rw [if_neg odd]
    obtain ⟨line, final, closed, lineValues, exact, printed, errors, values⟩ := pending.reports
    refine ⟨final, closed, ?_, values.trans inv.values, ?_, ?_⟩
    · rw [errors, even, inv.errors, Nat.add_zero]
    · rw [printed, reported_concat, lineValues, ← split]
    · rw [printed]
      exact exact_concat inv.exact exact

theorem file_reported (file : Bytes) :
    ∃ state final, start.read file = some state ∧
      (state.reportZeros >>= Validator.reportChunk) = some final ∧ Reported file final := by
  have silent (line : Line) (member : line ∈ ([] : List Line)) : line.Exact := by
    cases member
  cases file with
  | nil => exact ⟨start, start, rfl, rfl, rfl, rfl, rfl, silent⟩
  | cons low tail =>
      cases tail with
      | nil =>
          have noted : (Line.incomplete 0).Exact := trivial
          exact ⟨start.incomplete, start.incomplete, rfl, rfl, rfl, rfl, rfl,
            exact_concat silent noted⟩
      | cons high rest =>
          obtain ⟨next, taken, first⟩ := start_take (LittleEndian.decode_pair_lt low high)
          obtain ⟨last, inv, finished⟩ := read_inv rest first
          have parity : rest.length % 2 = (low :: high :: rest).length % 2 :=
            (Nat.add_mod_right rest.length 2).symm
          rw [parity] at finished
          obtain ⟨final, closed, reported⟩ := inv_reported (low :: high :: rest) inv
          refine ⟨_, final, ?_, closed, reported⟩
          rw [Validator.read, taken]
          exact finished

theorem violations_eq_zero (values : List Nat) :
    violations values = 0 ↔
      ∀ pair ∈ adjacent values, pair.1 ≠ 0 → pair.2 ≠ 0 → pair.2 = (pair.1 + 1) % 65536 := by
  rw [violations, List.countP_eq_zero]
  apply forall₂_congr
  intro pair _
  rw [decide_eq_true_iff, Violates]
  push Not
  rfl

/-- The exit status and the error count, and that the reports cover every value once. -/
theorem validate_exact (file : Bytes) :
    ∃ status final, validate file = some (status, final) ∧
      (status = 0 ↔ file.length % 2 = 0 ∧
        ∀ pair ∈ adjacent (words file), pair.1 ≠ 0 → pair.2 ≠ 0 →
          pair.2 = (pair.1 + 1) % 65536) ∧
      final.errors = violations (words file) + file.length % 2 ∧
      final.printed.getLast? =
        some (if final.errors = 0 then .ok (words file).length else .failed final.errors) ∧
      reported final.printed = words file ∧
      (final.printed.map Line.count).sum = (words file).length ∧
      ∀ line ∈ final.printed, line.Exact := by
  obtain ⟨state, closed, readAll, reports, errors, values, printed, exact⟩ := file_reported file
  have run : validate file =
      if closed.errors ≠ 0 then some (1, closed.print (.failed closed.errors))
      else some (0, closed.print (.ok closed.values)) := by
    obtain ⟨middle, zeros, chunk⟩ := Option.bind_eq_some_iff.mp reports
    simp only [validate, readAll, zeros, chunk, Option.bind_eq_bind, Option.bind_some]
  have clean : closed.errors = 0 ↔ file.length % 2 = 0 ∧
      ∀ pair ∈ adjacent (words file), pair.1 ≠ 0 → pair.2 ≠ 0 → pair.2 = (pair.1 + 1) % 65536 := by
    rw [errors, ← violations_eq_zero]
    omega
  have behind (line : Line) (silent : line.values = []) :
      reported (closed.print line).printed = words file := by
    rw [Validator.print, reported_concat, silent, List.append_nil, printed]
  by_cases failed : closed.errors ≠ 0
  · rw [if_pos failed] at run
    have covered := behind (.failed closed.errors) rfl
    refine ⟨1, _, run, ?_, errors, ?_, covered, ?_, ?_⟩
    · exact iff_of_false Nat.one_ne_zero fun holds => failed (clean.mpr holds)
    · rw [Validator.print, List.getLast?_concat, if_neg failed]
    · rw [← reported_length, covered]
    · exact exact_concat exact trivial
  · rw [if_neg failed] at run
    have none_failed := not_not.mp failed
    have covered := behind (.ok closed.values) rfl
    refine ⟨0, _, run, ?_, errors, ?_, covered, ?_, ?_⟩
    · exact iff_of_true rfl (clean.mp none_failed)
    · rw [Validator.print, List.getLast?_concat, if_pos none_failed, values]
    · rw [← reported_length, covered]
    · exact exact_concat exact trivial

example : (validate [1, 0, 2, 0, 0, 0, 7, 0, 9]).map (fun run => (run.1, run.2.printed)) =
    some (1, [.chunk 1 2 2, .zeros 3 1, .incomplete 8, .chunk 7 7 1, .failed 1]) := by
  decide

end Testings.IncValidator
