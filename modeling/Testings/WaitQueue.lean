import Mathlib.Data.List.Basic
import Mathlib.Logic.Basic

/-!
# Tasks that wait for a condition

`wait_event_interruptible` as a task goes through it: the test in front of the
queue, the registration, the test behind it and the sleep. A wake-up reaches
whoever is registered; one between registration and test is remembered, so
that the task does not go to sleep. A party that makes the condition true and
wakes the queue later owes the wake-up in between: that nobody sleeps beside a
true condition unless a wake-up is owed is kept by every move.
-/

set_option autoImplicit false

namespace WaitQueue

inductive Phase where
  | testing
  | preparing
  | registered (signalled woken : Bool)
  | asleep
  deriving DecidableEq

inductive Outcome where
  | waits (phase : Phase)
  | holds
  | interrupted
  deriving DecidableEq

/-- `signalled` is whether a signal is pending when the task registers. -/
def advance (condition signalled : Bool) : Phase → Option Outcome
  | .testing => some (if condition then .holds else .waits .preparing)
  | .preparing => some (.waits (.registered signalled false))
  | .registered signalled woken =>
      some (if condition then .holds
        else if signalled then .interrupted
        else .waits (if woken then .preparing else .asleep))
  | .asleep => none

def wake : Phase → Phase
  | .registered signalled _ => .registered signalled true
  | .asleep => .preparing
  | phase => phase

/-- A signal makes a sleeper look again. -/
def signal : Phase → Option Phase
  | .asleep => some .preparing
  | _ => none

theorem advance_asleep {condition signalled : Bool} {phase : Phase}
    (taken : advance condition signalled phase = some (.waits .asleep)) : condition = false := by
  cases condition with
  | false => rfl
  | true => cases phase <;> simp [advance] at taken

theorem advance_holds {condition signalled : Bool} {phase : Phase}
    (taken : advance condition signalled phase = some .holds) : condition = true := by
  cases condition with
  | true => rfl
  | false =>
      cases phase with
      | registered signalled woken => cases signalled <;> simp [advance] at taken
      | _ => simp [advance] at taken

theorem wake_awake (phase : Phase) : wake phase ≠ .asleep := by
  cases phase <;> nofun

theorem signal_awake {phase after : Phase} (taken : signal phase = some after) :
    after ≠ .asleep := by
  cases phase <;> cases taken
  nofun

section queue

variable {Task : Type*} {phase : Task → Option Phase}

def Sleeps (phase : Task → Option Phase) (tasks : List Task) : Prop :=
  ∃ task ∈ tasks, phase task = some .asleep

/-- Nobody sleeps beside a condition that holds, unless a wake-up is owed. -/
def NoneLost (phase : Task → Option Phase) (tasks : List Task) (condition owed : Prop) : Prop :=
  Sleeps phase tasks → condition → owed

theorem Sleeps.of_set {tasks : List Task} {i : Nat} {task : Task}
    (sleeps : Sleeps phase (tasks.set i task)) (awake : phase task ≠ some .asleep) :
    Sleeps phase tasks := by
  obtain ⟨other, present, asleep⟩ := sleeps
  rcases List.mem_or_eq_of_mem_set present with old | rfl
  · exact ⟨other, old, asleep⟩
  · exact absurd asleep awake

theorem Sleeps.of_append {tasks : List Task} {task : Task}
    (sleeps : Sleeps phase (tasks ++ [task])) (awake : phase task ≠ some .asleep) :
    Sleeps phase tasks := by
  obtain ⟨other, present, asleep⟩ := sleeps
  rcases List.mem_append.mp present with old | fresh
  · exact ⟨other, old, asleep⟩
  · rw [List.mem_singleton.mp fresh] at asleep
    exact absurd asleep awake

/-- After a wake-up of the whole queue nobody sleeps. -/
theorem woken_awake {tasks : List Task} {rouse : Task → Task}
    (roused : ∀ task, phase (rouse task) = (phase task).map wake) :
    ¬Sleeps phase (tasks.map rouse) := by
  rintro ⟨task, present, asleep⟩
  obtain ⟨old, _, rfl⟩ := List.mem_map.mp present
  rw [roused, Option.map_eq_some_iff] at asleep
  obtain ⟨before, _, woken⟩ := asleep
  exact wake_awake before woken

section rules

variable {tasks : List Task} {condition owed later due : Prop}

theorem NoneLost.woken {rouse : Task → Task}
    (roused : ∀ task, phase (rouse task) = (phase task).map wake) :
    NoneLost phase (tasks.map rouse) condition owed :=
  fun sleeps => absurd sleeps (woken_awake roused)

/-- What others do: where the condition holds afterwards, either it did before or its
wake-up is owed now. -/
theorem NoneLost.supplied (before : NoneLost phase tasks condition owed)
    (change : later → due ∨ condition ∧ (owed → due)) : NoneLost phase tasks later due := by
  intro sleeps holds
  rcases change holds with now | ⟨held, kept⟩
  · exact now
  · exact kept (before sleeps held)

/-- What a task of the queue does: it goes to sleep only where the condition fails. -/
theorem NoneLost.moved (before : NoneLost phase tasks condition owed) {i : Nat} {task : Task}
    (asleep : phase task = some .asleep → ¬condition) :
    NoneLost phase (tasks.set i task) condition owed := by
  intro sleeps holds
  refine before (sleeps.of_set ?_) holds
  intro slept
  exact asleep slept holds

theorem NoneLost.joined (before : NoneLost phase tasks condition owed) {task : Task}
    (awake : phase task ≠ some .asleep) : NoneLost phase (tasks ++ [task]) condition owed :=
  fun sleeps => before (sleeps.of_append awake)

end rules

end queue

end WaitQueue
