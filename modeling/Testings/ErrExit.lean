import Mathlib.Logic.Basic

/-!
# Scripts under `set -e`

A command changes the state and ends in one of three ways. A failed command
ends the script, unless it is a test before the last command of an `&&` list:
such a list fails without ending anything, but a function whose last command
it is fails its caller.
-/

set_option autoImplicit false

namespace ErrExit

variable {State View : Type*}

/-- `spared` is the non-zero status of a list that stopped at a test. -/
inductive Status where
  | ok
  | spared
  | exited
  deriving DecidableEq

abbrev Command (State : Type*) := State → State × Status

/-- A command that does what it is asked. -/
def act (effect : State → State) : Command State := fun s => (effect s, .ok)

/-- A command that changes nothing and fails unless the test holds. -/
def require (holds : State → Bool) : Command State :=
  fun s => (s, if holds s then .ok else .exited)

/-- `[ test ] && command`. -/
def andList (test : State → Bool) (command : Command State) : Command State :=
  fun s => if test s then command s else (s, .spared)

def seq (first second : Command State) : Command State := fun s =>
  match first s with
  | (middle, .exited) => (middle, .exited)
  | (middle, _) => second middle

/-- The commands of a function in their order; the last one gives its status. -/
def body : List (Command State) → Command State
  | [] => act id
  | [last] => last
  | command :: rest => seq command (body rest)

/-- A function call as a command of its own. -/
def call (function : Command State) : Command State := fun s =>
  match function s with
  | (after, .ok) => (after, .ok)
  | (after, _) => (after, .exited)

theorem act_ok {effect : State → State} {s after : State} :
    act effect s = (after, .ok) ↔ after = effect s := by
  simp [act, eq_comm]

theorem require_ok {holds : State → Bool} {s after : State} :
    require holds s = (after, .ok) ↔ holds s = true ∧ after = s := by
  cases test : holds s with
  | true => simp [require, test, eq_comm]
  | false => simp [require, test]

theorem and_list_ok {test : State → Bool} {command : Command State} {s after : State} :
    andList test command s = (after, .ok) ↔ test s = true ∧ command s = (after, .ok) := by
  simp only [andList]
  split <;> simp_all

theorem call_ok {function : Command State} {s after : State} :
    call function s = (after, .ok) ↔ function s = (after, .ok) := by
  simp only [call]
  split <;> simp_all

/-- A command after which the script goes on. -/
def Passes (command : Command State) (s after : State) : Prop :=
  command s = (after, .ok) ∨ command s = (after, .spared)

theorem seq_ok {first second : Command State} {s after : State} :
    seq first second s = (after, .ok) ↔
      ∃ middle, Passes first s middle ∧ second middle = (after, .ok) := by
  rcases outcome : first s with ⟨middle, status⟩
  simp only [seq, Passes, outcome]
  cases status with
  | ok | spared => simp
  | exited => simp

theorem passes_act {effect : State → State} {s after : State} :
    Passes (act effect) s after ↔ after = effect s := by
  simp [Passes, act, eq_comm]

theorem passes_require {holds : State → Bool} {s after : State} :
    Passes (require holds) s after ↔ holds s = true ∧ after = s := by
  cases test : holds s with
  | true => simp [Passes, require, test, eq_comm]
  | false => simp [Passes, require, test]

theorem passes_and_list {test : State → Bool} {command : Command State} {s after : State} :
    Passes (andList test command) s after ↔
      (test s = true ∧ Passes command s after) ∨ (test s = false ∧ after = s) := by
  cases outcome : test s with
  | true => simp [Passes, andList, outcome]
  | false => simp [Passes, andList, outcome, eq_comm]

theorem passes_seq {first second : Command State} {s after : State} :
    Passes (seq first second) s after ↔
      ∃ middle, Passes first s middle ∧ Passes second middle after := by
  rcases outcome : first s with ⟨middle, status⟩
  simp only [Passes, seq, outcome]
  cases status with
  | ok | spared => simp
  | exited => simp

theorem passes_call {function : Command State} {s after : State} :
    Passes (call function) s after ↔ function s = (after, .ok) := by
  simp only [Passes, call]
  split <;> simp_all

def Keeps (view : State → View) (command : Command State) : Prop :=
  ∀ s, view (command s).1 = view s

theorem Keeps.ok {view : State → View} {command : Command State} (keeps : Keeps view command)
    {s after : State} (succeeded : command s = (after, .ok)) : view after = view s := by
  have same := keeps s
  rw [succeeded] at same
  exact same

theorem keeps_act {view : State → View} {effect : State → State}
    (same : ∀ s, view (effect s) = view s) : Keeps view (act effect) :=
  same

theorem keeps_and_list {view : State → View} (test : State → Bool) {command : Command State}
    (keeps : Keeps view command) : Keeps view (andList test command) := by
  intro s
  simp only [andList]
  split
  · exact keeps s
  · rfl

theorem keeps_seq {view : State → View} {first second : Command State}
    (keepsFirst : Keeps view first) (keepsSecond : Keeps view second) :
    Keeps view (seq first second) := by
  intro s
  have before := keepsFirst s
  simp only [seq]
  split
  next same =>
      rw [same] at before
      exact before
  next same =>
      rw [same] at before
      rw [keepsSecond, before]

theorem keeps_body {view : State → View} {commands : List (Command State)}
    (keeps : ∀ command ∈ commands, Keeps view command) : Keeps view (body commands) := by
  induction commands with
  | nil => exact fun _ => rfl
  | cons command rest induction =>
      cases rest with
      | nil => exact keeps command List.mem_cons_self
      | cons second rest =>
          apply keeps_seq (keeps command List.mem_cons_self)
          apply induction
          intro other member
          exact keeps other (List.mem_cons_of_mem _ member)

/-- Holds behind the command whenever it holds before it, however it ends. -/
def Preserves (inv : State → Prop) (command : Command State) : Prop :=
  ∀ s, inv s → inv (command s).1

section preserves

variable {inv : State → Prop} {first second command : Command State}

theorem preserves_act {effect : State → State} (step : ∀ s, inv s → inv (effect s)) :
    Preserves inv (act effect) :=
  step

theorem preserves_require (inv : State → Prop) (holds : State → Bool) :
    Preserves inv (require holds) :=
  fun _ before => before

theorem preserves_and_list (test : State → Bool) (keeps : Preserves inv command) :
    Preserves inv (andList test command) := by
  intro s before
  simp only [andList]
  split
  · exact keeps s before
  · exact before

theorem preserves_call (keeps : Preserves inv command) : Preserves inv (call command) := by
  intro s before
  have after := keeps s before
  simp only [call]
  split
  next outcome =>
      rw [outcome] at after
      exact after
  next outcome =>
      rw [outcome] at after
      exact after

theorem preserves_seq (keepsFirst : Preserves inv first) (keepsSecond : Preserves inv second) :
    Preserves inv (seq first second) := by
  intro s before
  have middle := keepsFirst s before
  simp only [seq]
  split
  next outcome =>
      rw [outcome] at middle
      exact middle
  next outcome =>
      rw [outcome] at middle
      exact keepsSecond _ middle

theorem preserves_body {commands : List (Command State)}
    (keeps : ∀ command ∈ commands, Preserves inv command) : Preserves inv (body commands) := by
  induction commands with
  | nil => exact fun _ before => before
  | cons command rest induction =>
      cases rest with
      | nil => exact keeps command List.mem_cons_self
      | cons second rest =>
          apply preserves_seq (keeps command List.mem_cons_self)
          apply induction
          intro other member
          exact keeps other (List.mem_cons_of_mem _ member)

end preserves

/-- From a state with `pre` the script goes on in one with `post` or ends in one
with `ended`. -/
def Triple (pre : State → Prop) (command : Command State) (post ended : State → Prop) : Prop :=
  ∀ s, pre s → ∀ after, (Passes command s after → post after) ∧
    (command s = (after, .exited) → ended after)

section triple

variable {pre mid post ended weaker : State → Prop} {first second command : Command State}

theorem triple_act {effect : State → State} (done : ∀ s, pre s → post (effect s)) :
    Triple pre (act effect) post ended := by
  intro s before after
  constructor
  · intro passed
    rw [passes_act.mp passed]
    exact done s before
  · intro stopped
    cases (Prod.mk.inj stopped).2

theorem triple_require {holds : State → Bool} (passed : ∀ s, pre s → holds s = true → post s)
    (failed : ∀ s, pre s → holds s = false → ended s) :
    Triple pre (require holds) post ended := by
  intro s before after
  constructor
  · intro passes
    rcases passes_require.mp passes with ⟨test, same⟩
    rw [same]
    exact passed s before test
  · intro stopped
    cases test : holds s with
    | true =>
        rw [require, test] at stopped
        cases (Prod.mk.inj stopped).2
    | false =>
        rw [← (Prod.mk.inj stopped).1]
        exact failed s before test

theorem triple_seq (run : Triple pre first mid ended) (rest : Triple mid second post ended) :
    Triple pre (seq first second) post ended := by
  intro s before after
  rcases outcome : first s with ⟨middle, status⟩
  have ran := run s before middle
  rw [Passes, outcome] at ran
  constructor
  · intro passed
    rcases passes_seq.mp passed with ⟨reached, passes, remaining⟩
    exact (rest reached ((run s before reached).1 passes) after).1 remaining
  · intro stopped
    simp only [seq, outcome] at stopped
    cases status with
    | ok => exact (rest middle (ran.1 (.inl rfl)) after).2 stopped
    | spared => exact (rest middle (ran.1 (.inr rfl)) after).2 stopped
    | exited =>
        rw [← (Prod.mk.inj stopped).1]
        exact ran.2 rfl

/-- A function that stopped at a test of its own has failed. -/
theorem triple_call (run : Triple pre command post ended) (spared : ∀ s, post s → ended s) :
    Triple pre (call command) post ended := by
  intro s before after
  constructor
  · intro passed
    exact (run s before after).1 (.inl (passes_call.mp passed))
  · intro stopped
    rcases outcome : command s with ⟨reached, status⟩
    simp only [call, outcome] at stopped
    cases status with
    | ok => cases (Prod.mk.inj stopped).2
    | spared =>
        rw [← (Prod.mk.inj stopped).1]
        exact spared reached ((run s before reached).1 (.inr outcome))
    | exited =>
        rw [← (Prod.mk.inj stopped).1]
        exact (run s before reached).2 outcome

theorem Triple.strengthen (run : Triple pre command post ended) (implied : ∀ s, weaker s → pre s) :
    Triple weaker command post ended :=
  fun s before => run s (implied s before)

theorem Triple.weaken {post' ended' : State → Prop} (run : Triple pre command post ended)
    (passed : ∀ s, post s → post' s) (failed : ∀ s, ended s → ended' s) :
    Triple pre command post' ended' :=
  fun s before after => ⟨fun passes => passed after ((run s before after).1 passes),
    fun stopped => failed after ((run s before after).2 stopped)⟩

/-- However the command ends. -/
theorem Triple.ends (run : Triple pre command post ended) (spared : ∀ s, post s → ended s)
    {s : State} (before : pre s) : ended (command s).1 := by
  rcases outcome : command s with ⟨after, status⟩
  cases status with
  | ok => exact spared after ((run s before after).1 (.inl outcome))
  | spared => exact spared after ((run s before after).1 (.inr outcome))
  | exited => exact (run s before after).2 outcome

theorem Preserves.triple {inv : State → Prop} (keeps : Preserves inv command)
    (implied : ∀ s, inv s → ended s) : Triple inv command inv ended := by
  intro s before after
  have kept := keeps s before
  constructor
  · rintro (passed | passed)
    · rw [passed] at kept
      exact kept
    · rw [passed] at kept
      exact kept
  · intro stopped
    rw [stopped] at kept
    exact implied after kept

theorem Triple.ok (run : Triple pre command post ended) {s after : State} (before : pre s)
    (succeeded : command s = (after, .ok)) : post after :=
  (run s before after).1 (.inl succeeded)

end triple

end ErrExit
