import Mathlib.Data.List.Basic
import Mathlib.Logic.Basic

/-!
# Executable step systems

A system is a start state and a partial step function: `none` means that the
action is not enabled. Runs, reachable states, restriction to allowed steps,
ghost observation and lockstep simulation are developed once here, so that a
program model only has to supply its step function and one step lemma.
-/

set_option autoImplicit false

structure StepSystem (State Action : Type*) where
  start : State
  step : State → Action → Option State

namespace StepSystem

variable {State Action Ghost Abstract : Type*}

def runFrom (system : StepSystem State Action) : State → List Action → Option State
  | state, [] => some state
  | state, action :: rest =>
      match system.step state action with
      | none => none
      | some next => runFrom system next rest

def run (system : StepSystem State Action) (actions : List Action) : Option State :=
  system.runFrom system.start actions

def Reachable (system : StepSystem State Action) (state : State) : Prop :=
  ∃ actions, system.run actions = some state

theorem run_from_cons_some {system : StepSystem State Action} {state final : State}
    {action : Action} {rest : List Action} :
    system.runFrom state (action :: rest) = some final ↔
      ∃ next, system.step state action = some next ∧ system.runFrom next rest = some final := by
  simp only [runFrom]
  cases system.step state action with
  | none => simp
  | some next => simp

theorem run_from_append (system : StepSystem State Action) (first second : List Action)
    (state : State) :
    system.runFrom state (first ++ second) =
      (system.runFrom state first).bind fun middle => system.runFrom middle second := by
  induction first generalizing state with
  | nil => rfl
  | cons action rest ih =>
      simp only [List.cons_append, runFrom]
      cases system.step state action with
      | none => rfl
      | some next => exact ih next

/-- The induction behind every safety result: what one step preserves, a whole
run preserves. -/
theorem run_from_invariant {system : StepSystem State Action} (Inv : State → Prop)
    (preserved : ∀ state action next, Inv state → system.step state action = some next → Inv next)
    {actions : List Action} {state final : State} (initial : Inv state)
    (reached : system.runFrom state actions = some final) : Inv final := by
  induction actions generalizing state with
  | nil =>
      have same : state = final := Option.some.inj reached
      exact same ▸ initial
  | cons action rest ih =>
      obtain ⟨next, taken, remaining⟩ := run_from_cons_some.mp reached
      exact ih (preserved state action next initial taken) remaining

/-- The same for what the actions of one run preserve. -/
theorem run_from_keeps {system : StepSystem State Action} (Inv : State → Prop)
    {actions : List Action} {state final : State}
    (preserved : ∀ state action next, action ∈ actions → Inv state →
      system.step state action = some next → Inv next)
    (initial : Inv state) (reached : system.runFrom state actions = some final) : Inv final := by
  induction actions generalizing state with
  | nil =>
      have same : state = final := Option.some.inj reached
      exact same ▸ initial
  | cons action rest ih =>
      obtain ⟨next, taken, remaining⟩ := run_from_cons_some.mp reached
      refine ih ?_ (preserved state action next List.mem_cons_self initial taken) remaining
      intro before later after member
      exact preserved before later after (List.mem_cons_of_mem action member)

theorem Reachable.invariant {system : StepSystem State Action} (Inv : State → Prop)
    (initial : Inv system.start)
    (preserved : ∀ state action next, Inv state → system.step state action = some next → Inv next)
    {state : State} (reached : system.Reachable state) : Inv state := by
  obtain ⟨actions, run⟩ := reached
  exact run_from_invariant Inv preserved initial run

theorem Reachable.next {system : StepSystem State Action} {state next : State} {action : Action}
    (reached : system.Reachable state) (taken : system.step state action = some next) :
    system.Reachable next := by
  obtain ⟨actions, ran⟩ := reached
  refine ⟨actions ++ [action], ?_⟩
  rw [run] at ran ⊢
  rw [run_from_append, ran]
  exact run_from_cons_some.mpr ⟨next, taken, rfl⟩

/-- A decidable test of the last state of a concrete run. -/
theorem reachable_of_run (system : StepSystem State Action) (actions : List Action)
    (test : State → Bool) (passes : (system.run actions).any test = true) :
    ∃ state, system.Reachable state ∧ test state = true := by
  cases outcome : system.run actions with
  | none => simp [outcome] at passes
  | some state => exact ⟨state, ⟨actions, outcome⟩, by simpa [outcome] using passes⟩

def restrict (system : StepSystem State Action) (allowed : State → Action → Prop)
    [∀ state action, Decidable (allowed state action)] : StepSystem State Action where
  start := system.start
  step state action := if allowed state action then system.step state action else none

section restrict

variable {system : StepSystem State Action} {allowed : State → Action → Prop}
  [∀ state action, Decidable (allowed state action)]

theorem restrict_step_some {state next : State} {action : Action} :
    (system.restrict allowed).step state action = some next ↔
      allowed state action ∧ system.step state action = some next := by
  simp only [restrict]
  split_ifs with permitted <;> simp [permitted]

/-- What every allowed step keeps, the restricted system keeps. -/
theorem restrict_preserved {Inv : State → Prop}
    (preserved : ∀ state action next, Inv state → allowed state action →
      system.step state action = some next → Inv next) :
    ∀ state action next, Inv state →
      (system.restrict allowed).step state action = some next → Inv next := by
  intro state action next before taken
  obtain ⟨permitted, moved⟩ := restrict_step_some.mp taken
  exact preserved state action next before permitted moved

end restrict

/-- Carry a record of the run beside the state. The record never blocks a step. -/
def observe (system : StepSystem State Action) (first : Ghost)
    (record : State → Action → State → Ghost → Ghost) : StepSystem (State × Ghost) Action where
  start := (system.start, first)
  step state action :=
    (system.step state.1 action).map fun next => (next, record state.1 action next state.2)

section observe

variable {system : StepSystem State Action} {first : Ghost}
  {record : State → Action → State → Ghost → Ghost}

theorem observe_step_some {state next : State × Ghost} {action : Action} :
    (system.observe first record).step state action = some next ↔
      system.step state.1 action = some next.1 ∧
        next.2 = record state.1 action next.1 state.2 := by
  obtain ⟨after, ghost⟩ := next
  simp only [observe, Option.map_eq_some_iff, Prod.mk.injEq]
  constructor
  · rintro ⟨middle, taken, rfl, rfl⟩
    exact ⟨taken, rfl⟩
  · rintro ⟨taken, same⟩
    exact ⟨after, taken, rfl, same.symm⟩

theorem observe_reachable {state : State × Ghost}
    (reached : (system.observe first record).Reachable state) : system.Reachable state.1 := by
  apply reached.invariant fun state => system.Reachable state.1
  · exact ⟨[], rfl⟩
  · intro state action next before taken
    exact Reachable.next before (observe_step_some.mp taken).1

/-- What every step keeps together with its record, the observed system keeps. -/
theorem observe_preserved {Inv : State × Ghost → Prop}
    (preserved : ∀ state action next ghost, Inv (state, ghost) →
      system.step state action = some next → Inv (next, record state action next ghost)) :
    ∀ state action next, Inv state →
      (system.observe first record).step state action = some next → Inv next := by
  intro state action next before taken
  obtain ⟨moved, recorded⟩ := observe_step_some.mp taken
  rw [← Prod.eta next, recorded]
  exact preserved state.1 action next.1 state.2 before moved

theorem restrict_observe_preserved {Inv : State × Ghost → Prop}
    {allowed : State × Ghost → Action → Prop}
    [∀ state action, Decidable (allowed state action)]
    (preserved : ∀ state action next ghost, Inv (state, ghost) → allowed (state, ghost) action →
      system.step state action = some next → Inv (next, record state action next ghost)) :
    ∀ state action next, Inv state →
      ((system.observe first record).restrict allowed).step state action = some next →
        Inv next := by
  apply restrict_preserved
  intro state action next before permitted taken
  obtain ⟨moved, recorded⟩ := observe_step_some.mp taken
  rw [← Prod.eta next, recorded]
  exact preserved state.1 action next.1 state.2 before permitted moved

end observe

/-- The abstract machine reads the same action list; a relation kept by every
pair of steps holds at the end of every run. -/
theorem simulation {system : StepSystem State Action} (Related : State → Abstract → Prop)
    (abstractStep : Abstract → Action → Abstract)
    (kept : ∀ state action next abstract, Related state abstract →
      system.step state action = some next → Related next (abstractStep abstract action))
    {actions : List Action} {state final : State} {abstract : Abstract}
    (related : Related state abstract) (reached : system.runFrom state actions = some final) :
    Related final (actions.foldl abstractStep abstract) := by
  induction actions generalizing state abstract with
  | nil =>
      have same : state = final := Option.some.inj reached
      exact same ▸ related
  | cons action rest ih =>
      obtain ⟨next, taken, remaining⟩ := run_from_cons_some.mp reached
      exact ih (kept state action next abstract related taken) remaining

end StepSystem
