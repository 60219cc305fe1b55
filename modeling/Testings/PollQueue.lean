import Testings.StepSystem
import Testings.WaitQueue
import Mathlib.Data.BitVec

/-!
# Tasks that wait in `poll`

A device with an event mask, and any number of tasks in `poll` on it: each registers on all
wait queues of the device, compares the mask with the events it asks for, and sleeps until a
queue is woken, a signal comes or its time is over. The device moves on underneath. Where it
owes a wake-up for every event that has appeared, no task sleeps beside its event without one.
-/

set_option autoImplicit false

namespace PollQueue

inductive Poller where
  | polling (events : BitVec 32) (phase : WaitQueue.Phase)
  | answered (revents : BitVec 32)
  | interrupted
  deriving DecidableEq

/-- A task registers in front of its first look at the mask. -/
def Poller.fresh (events : BitVec 32) : Poller := .polling events .preparing

def Poller.advance (mask : BitVec 32) (signalled : Bool) : Poller → Option Poller
  | .polling events phase =>
      (WaitQueue.advance (mask &&& events != 0) signalled phase).map fun outcome =>
        match outcome with
        | .waits phase => .polling events phase
        | .holds => .answered (mask &&& events)
        | .interrupted => .interrupted
  | _ => none

/-- The time is over: one more look, whatever it shows. -/
def Poller.expire (mask : BitVec 32) : Poller → Option Poller
  | .polling events .asleep => some (.answered (mask &&& events))
  | _ => none

def Poller.signal : Poller → Option Poller
  | .polling events phase => (WaitQueue.signal phase).map fun phase => .polling events phase
  | _ => none

def Poller.wake : Poller → Poller
  | .polling events phase => .polling events (WaitQueue.wake phase)
  | poller => poller

/-- Where a task stands that asks for one of the events. -/
def Poller.waitsFor (events : BitVec 32) : Poller → Option WaitQueue.Phase
  | .polling asked phase => if asked &&& events = 0 then none else some phase
  | _ => none

section poller

variable {events mask : BitVec 32} {poller moved : Poller}

theorem Poller.wake_waits_for :
    poller.wake.waitsFor events = (poller.waitsFor events).map WaitQueue.wake := by
  cases poller with
  | polling asked phase =>
      simp only [Poller.wake, Poller.waitsFor]
      split_ifs <;> rfl
  | _ => rfl

theorem Poller.fresh_awake (asked : BitVec 32) :
    (Poller.fresh asked).waitsFor events ≠ some .asleep := by
  intro asleep
  simp only [Poller.fresh, Poller.waitsFor] at asleep
  split_ifs at asleep
  cases asleep

/-- A task goes to sleep only where the mask shows none of its events. -/
theorem Poller.advance_asleep {signalled : Bool}
    (taken : poller.advance mask signalled = some moved)
    (asleep : moved.waitsFor events = some .asleep) : mask &&& events ≠ events := by
  cases poller with
  | polling asked phase =>
      rw [Poller.advance, Option.map_eq_some_iff] at taken
      rcases taken with ⟨outcome, advanced, same⟩
      cases outcome with
      | waits later =>
          subst same
          simp only [Poller.waitsFor] at asleep
          split_ifs at asleep with interested
          rw [Option.some_inj.mp asleep] at advanced
          have none : mask &&& asked = 0 :=
            bne_eq_false_iff_eq.mp (WaitQueue.advance_asleep advanced)
          intro shown
          apply interested
          calc asked &&& events = asked &&& (mask &&& events) := by rw [shown]
            _ = mask &&& asked &&& events := by rw [← BitVec.and_assoc, BitVec.and_comm asked]
            _ = 0 := by rw [none]; exact BitVec.zero_and
      | holds | interrupted =>
          subst same
          cases asleep
  | answered | interrupted => cases taken

theorem Poller.signal_awake (taken : poller.signal = some moved) :
    moved.waitsFor events ≠ some .asleep := by
  cases poller with
  | polling asked phase =>
      rw [Poller.signal, Option.map_eq_some_iff] at taken
      rcases taken with ⟨later, woken, same⟩
      subst same
      intro asleep
      simp only [Poller.waitsFor] at asleep
      split_ifs at asleep
      exact WaitQueue.signal_awake woken (Option.some_inj.mp asleep)
  | answered | interrupted => cases taken

theorem Poller.expire_awake (taken : poller.expire mask = some moved) :
    moved.waitsFor events ≠ some .asleep := by
  unfold Poller.expire at taken
  split at taken
  · cases taken
    intro asleep
    cases asleep
  · cases taken

end poller

/-- `wakes` is whether a step of the device wakes one of its wait queues. -/
structure Device (State Action : Type*) where
  system : StepSystem State Action
  mask : State → BitVec 32
  wakes : State → Action → Bool

structure Polled (State : Type*) where
  device : State
  pollers : List Poller

inductive PolledAction (Action : Type*) where
  | device (action : Action)
  | poll (events : BitVec 32)
  | poller (i : Nat) (signalled : Bool)
  | pollerSignal (i : Nat)
  | pollerExpire (i : Nat)

variable {State Action : Type*}

/-- What one task does. -/
def movePoller (pollers : List Poller) (i : Nat) (move : Poller → Option Poller) :
    Option (List Poller) :=
  match pollers[i]? with
  | some poller => (move poller).map fun moved => pollers.set i moved
  | none => none

def polledStep (d : Device State Action) (s : Polled State) :
    PolledAction Action → Option (Polled State)
  | .device action =>
      (d.system.step s.device action).map fun next =>
        ⟨next, if d.wakes s.device action then s.pollers.map Poller.wake else s.pollers⟩
  | .poll events => some { s with pollers := s.pollers ++ [.fresh events] }
  | .poller i signalled =>
      (movePoller s.pollers i (Poller.advance (d.mask s.device) signalled)).map fun pollers =>
        { s with pollers := pollers }
  | .pollerSignal i =>
      (movePoller s.pollers i Poller.signal).map fun pollers => { s with pollers := pollers }
  | .pollerExpire i =>
      (movePoller s.pollers i (Poller.expire (d.mask s.device))).map fun pollers =>
        { s with pollers := pollers }

def Device.polled (d : Device State Action) : StepSystem (Polled State) (PolledAction Action) where
  start := ⟨d.system.start, []⟩
  step := polledStep d

/-- Whether a task that asks for one of the events sleeps. -/
abbrev Sleeps (events : BitVec 32) (pollers : List Poller) : Prop :=
  WaitQueue.Sleeps (Poller.waitsFor events) pollers

/-- No such task sleeps beside the condition, unless a wake-up is owed. -/
abbrev NoneLost (events : BitVec 32) (pollers : List Poller) (condition owed : Prop) : Prop :=
  WaitQueue.NoneLost (Poller.waitsFor events) pollers condition owed

theorem move_poller_some {pollers after : List Poller} {i : Nat} {move : Poller → Option Poller}
    (taken : movePoller pollers i move = some after) :
    ∃ poller moved, pollers[i]? = some poller ∧ move poller = some moved ∧
      after = pollers.set i moved := by
  unfold movePoller at taken
  split at taken
  · next poller here =>
      rcases Option.map_eq_some_iff.mp taken with ⟨moved, step, same⟩
      exact ⟨poller, moved, here, step, same.symm⟩
  · cases taken

section runs

variable {d : Device State Action} {s next : Polled State}

/-- Under the tasks the device takes its own steps. -/
theorem device_reachable (reached : d.polled.Reachable s) : d.system.Reachable s.device := by
  apply reached.invariant fun s => d.system.Reachable s.device
  · exact ⟨[], rfl⟩
  · intro s action next before taken
    cases action with
    | device action =>
        rcases Option.map_eq_some_iff.mp taken with ⟨device, moved, same⟩
        subst same
        exact StepSystem.Reachable.next before moved
    | poll events =>
        cases taken
        exact before
    | poller | pollerSignal | pollerExpire =>
        rcases Option.map_eq_some_iff.mp taken with ⟨pollers, _, same⟩
        subst same
        exact before

/-- What one task does loses no other, where it goes to sleep only beside a mask without the
events. -/
theorem polled_step_none_lost {events : BitVec 32} {condition owed : State → Prop}
    (shown : ∀ state, condition state → d.mask state &&& events = events)
    (supplied : ∀ action next, d.system.step s.device action = some next →
      d.wakes s.device action = false → condition next →
        owed next ∨ condition s.device ∧ (owed s.device → owed next))
    {action : PolledAction Action} (taken : polledStep d s action = some next)
    (before : NoneLost events s.pollers (condition s.device) (owed s.device)) :
    NoneLost events next.pollers (condition next.device) (owed next.device) := by
  cases action with
  | device action =>
      rcases Option.map_eq_some_iff.mp taken with ⟨device, moved, same⟩
      subst same
      dsimp only
      cases wakes : d.wakes s.device action with
      | true =>
          rw [if_pos rfl]
          exact .woken fun _ => Poller.wake_waits_for
      | false =>
          rw [if_neg (Bool.false_ne_true)]
          exact WaitQueue.NoneLost.supplied before (supplied action device moved wakes)
  | poll asked =>
      cases taken
      exact WaitQueue.NoneLost.joined before (Poller.fresh_awake asked)
  | poller i signalled =>
      rcases Option.map_eq_some_iff.mp taken with ⟨pollers, moves, same⟩
      rcases move_poller_some moves with ⟨poller, moved, _, advanced, there⟩
      subst same there
      apply WaitQueue.NoneLost.moved before
      intro asleep holds
      exact Poller.advance_asleep advanced asleep (shown s.device holds)
  | pollerSignal i =>
      rcases Option.map_eq_some_iff.mp taken with ⟨pollers, moves, same⟩
      rcases move_poller_some moves with ⟨poller, moved, _, signalled, there⟩
      subst same there
      apply WaitQueue.NoneLost.moved before
      intro asleep
      exact absurd asleep (Poller.signal_awake signalled)
  | pollerExpire i =>
      rcases Option.map_eq_some_iff.mp taken with ⟨pollers, moves, same⟩
      rcases move_poller_some moves with ⟨poller, moved, _, expired, there⟩
      subst same there
      apply WaitQueue.NoneLost.moved before
      intro asleep
      exact absurd asleep (Poller.expire_awake expired)

/-- A device that shows its events and owes their wake-ups loses no task: where a step that
wakes nobody leaves the condition, it held before or its wake-up is owed now. -/
theorem polled_none_lost {events : BitVec 32} (condition owed : State → Prop)
    (shown : ∀ state, condition state → d.mask state &&& events = events)
    (supplied : ∀ state action next, d.system.Reachable state →
      d.system.step state action = some next → d.wakes state action = false → condition next →
        owed next ∨ condition state ∧ (owed state → owed next))
    (reached : d.polled.Reachable s) :
    NoneLost events s.pollers (condition s.device) (owed s.device) := by
  have kept : d.polled.Reachable s ∧
      NoneLost events s.pollers (condition s.device) (owed s.device) := by
    apply reached.invariant fun s =>
      d.polled.Reachable s ∧ NoneLost events s.pollers (condition s.device) (owed s.device)
    · refine ⟨⟨[], rfl⟩, ?_⟩
      intro sleeps
      rcases sleeps with ⟨poller, present, _⟩
      cases present
    · intro s action next before taken
      refine ⟨StepSystem.Reachable.next before.1 taken, ?_⟩
      have mine := device_reachable before.1
      exact polled_step_none_lost shown (fun action next => supplied s.device action next mine)
        taken before.2
  exact kept.2

end runs

end PollQueue
