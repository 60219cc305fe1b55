import Mathlib.Data.BitVec
import Mathlib.Data.List.Induction
import Mathlib.Tactic.SplitIfs

/-!
# The debounced GPIO

The interrupt handler keeps the level at a change of the line unless the change comes
within the debounce time of the one kept before, by the wrapping counter of jiffies. The
character device shows the level kept.
-/

set_option autoImplicit false

namespace Testings.GpioDebounce

variable {w : Nat}

/-- `time_before`: the difference is negative as a signed number. -/
def timeBefore (a b : BitVec w) : Bool := (a - b).slt 0

def gpioGetValue (level : Bool) : Int := if level then 1 else 0

structure Driver (w : Nat) where
  gpioVal : Int
  lastJiffies : BitVec w

def Driver.loaded : Driver w := ⟨0, 0⟩

/-- `debounce` stands for `msecs_to_jiffies(debounce_ms)`. -/
def gpioIrqHandler (debounce now : BitVec w) (level : Bool) (self : Driver w) : Driver w :=
  if timeBefore now (self.lastJiffies + debounce) then self
  else { gpioVal := gpioGetValue level, lastJiffies := now }

/-- The characters copied and the offset. A read behind the four bytes of `tmp` has no
outcome. -/
def mygpioRead (self : Driver w) (count offset : Nat) : Option (List Char × Nat) :=
  let text := (toString self.gpioVal).toList ++ ['\n']
  let tmp := text.take 3 ++ ['\x00']
  let len := text.length
  if len ≤ offset then some ([], offset)
  else
    let count := if len - offset < count then len - offset else count
    if offset + count ≤ tmp.length then some ((tmp.drop offset).take count, offset + count)
    else none

structure Line (w : Nat) where
  driver : Driver w
  level : Bool

/-- The line changes, and the interrupt is handled. -/
def Line.change (debounce : BitVec w) (self : Line w) (now : BitVec w) : Line w where
  driver := gpioIrqHandler debounce now (!self.level) self.driver
  level := !self.level

/-- After changes of a line that begins with a level. Nothing happens after the last one. -/
def changed (debounce : BitVec w) (level : Bool) (times : List (BitVec w)) : Line w :=
  times.foldl (Line.change debounce) ⟨.loaded, level⟩

def levelText (level : Bool) : List Char := if level then ['1', '\n'] else ['0', '\n']

/-- A read from the front gives the text of the level, or as much of it as asked for. -/
def Reports (self : Driver w) (level : Bool) : Prop :=
  ∀ count, mygpioRead self count 0 = some ((levelText level).take count, min 2 count)

/-- The last change that is not within the debounce time of the one kept before, and how
many have come since. -/
structure Kept (w : Nat) where
  any : Bool
  last : BitVec w
  since : Nat
  deriving DecidableEq

def Kept.next (debounce : BitVec w) (self : Kept w) (now : BitVec w) : Kept w :=
  if timeBefore now (self.last + debounce) then { self with since := self.since + 1 }
  else ⟨true, now, 0⟩

def kept (debounce : BitVec w) (times : List (BitVec w)) : Kept w :=
  times.foldl (Kept.next debounce) ⟨false, 0, 0⟩

theorem read_level {self : Driver w} {level : Bool} (value : self.gpioVal = gpioGetValue level)
    (count : Nat) : mygpioRead self count 0 = some ((levelText level).take count, min 2 count) := by
  have text : (toString self.gpioVal).toList ++ ['\n'] = levelText level := by
    rw [value]
    cases level <;> rfl
  have len : (levelText level).length = 2 := by
    cases level <;> rfl
  have whole : (levelText level).take 3 = levelText level :=
    List.take_of_length_le (by omega)
  have size : (if 2 - 0 < count then 2 - 0 else count) = min 2 count := by
    split_ifs <;> omega
  have inside : min 2 count ≤ (levelText level ++ ['\x00']).length := by
    rw [List.length_append, len]
    omega
  have covered : (levelText level ++ ['\x00']).take (min 2 count) =
      (levelText level).take count := by
    rw [List.take_append_of_le_length (by omega), ← len, Nat.min_comm, ← List.take_eq_take_min]
  have behind : ¬2 ≤ 0 := by decide
  simp only [mygpioRead, text, len, whole, size, if_neg behind, Nat.zero_add, List.drop_zero,
    covered]
  exact if_pos inside

theorem reports_iff {self : Driver w} {held level : Bool}
    (value : self.gpioVal = gpioGetValue held) : Reports self level ↔ held = level := by
  constructor
  · intro reports
    have read := (read_level value 1).symm.trans (reports 1)
    revert read
    cases held <;> cases level <;> decide
  · intro same
    subst same
    exact read_level value

def toggled (level : Bool) (changes : Nat) : Bool := if changes % 2 = 0 then level else !level

theorem toggled_succ (level : Bool) (changes : Nat) :
    toggled level (changes + 1) = !toggled level changes := by
  unfold toggled
  by_cases even : changes % 2 = 0
  · rw [if_pos even, if_neg (by omega)]
  · rw [if_neg even, if_pos (by omega), Bool.not_not]

/-- The line has changed so often since the level was kept, or since the beginning if no
change has been kept. -/
structure Follows (level : Bool) (line : Line w) (kept : Kept w) (held : Bool) : Prop where
  last : line.driver.lastJiffies = kept.last
  value : line.driver.gpioVal = gpioGetValue held
  level : line.level = toggled (if kept.any then held else level) kept.since
  unkept : kept.any = false → held = false

theorem change_follows (debounce now : BitVec w) {level : Bool} {line : Line w} {kept : Kept w}
    {held : Bool} (before : Follows level line kept held) :
    ∃ next, Follows level (line.change debounce now) (kept.next debounce now) next := by
  by_cases early : timeBefore now (line.driver.lastJiffies + debounce) = true
  · have same : timeBefore now (kept.last + debounce) = true := before.last ▸ early
    refine ⟨held, ?_⟩
    unfold Line.change gpioIrqHandler Kept.next
    rw [if_pos early, if_pos same]
    refine ⟨before.last, before.value, ?_, before.unkept⟩
    rw [toggled_succ, ← before.level]
  · have same : ¬timeBefore now (kept.last + debounce) = true := before.last ▸ early
    refine ⟨!line.level, ?_⟩
    unfold Line.change gpioIrqHandler Kept.next
    rw [if_neg early, if_neg same]
    exact ⟨rfl, rfl, rfl, fun none => by cases none⟩

theorem changed_follows (debounce : BitVec w) (level : Bool) (times : List (BitVec w)) :
    ∃ held, Follows level (changed debounce level times) (kept debounce times) held := by
  induction times using List.reverseRecOn with
  | nil => exact ⟨false, rfl, rfl, rfl, fun _ => rfl⟩
  | append_singleton times now ih =>
      obtain ⟨held, before⟩ := ih
      rw [changed, kept, List.foldl_append, List.foldl_append]
      exact change_follows debounce now before

/-- The level shown is that of the line exactly if the line has changed an even number of
times since the last change kept; where none was kept, an even number of times if it was low
at first, and an odd number if it was high. -/
theorem debounced_level_iff (debounce : BitVec w) (level : Bool) (times : List (BitVec w)) :
    Reports (changed debounce level times).driver (changed debounce level times).level ↔
      (((kept debounce times).any = true ∨ level = false) ↔
        (kept debounce times).since % 2 = 0) := by
  obtain ⟨held, last, value, line, unkept⟩ := changed_follows debounce level times
  rw [reports_iff value, line]
  generalize kept debounce times = state at unkept ⊢
  unfold toggled
  cases any : state.any with
  | true =>
      by_cases even : state.since % 2 = 0
      · simp [even]
      · simp [even]
  | false =>
      rw [unkept any]
      by_cases even : state.since % 2 = 0
      · simp [even]
      · simp [even]

/-- The line goes up, comes down again two jiffies later and stays: a one is shown. -/
theorem bounce_shows_old_level :
    ¬∀ (w : Nat) (debounce : BitVec w) (level : Bool) (times : List (BitVec w)),
      Reports (changed debounce level times).driver (changed debounce level times).level := by
  intro always
  have high : (changed (5 : BitVec 32) false [100, 102]).driver.gpioVal = gpioGetValue true := rfl
  have shown := (reports_iff high).mp (always 32 5 false [100, 102])
  cases shown

end Testings.GpioDebounce
