import Mathlib.Data.List.Basic

/-!
# Bounded queues as a specification

A queue of limited capacity answers whether it took an element, which one it gave
and how many there are. An implementation that gives the same answers, call by
call, gives them in every run.
-/

set_option autoImplicit false

namespace BoundedFifo

variable {Element State : Type*}

inductive Op (Element : Type*) where
  | put (element : Element)
  | get
  | count
  deriving DecidableEq

inductive Answer (Element : Type*) where
  | stored (accepted : Bool)
  | taken (element : Option Element)
  | counted (count : Nat)
  deriving DecidableEq

def fifoStep (capacity : Nat) (queue : List Element) : Op Element → List Element × Answer Element
  | .put element =>
      if queue.length < capacity then (queue ++ [element], .stored true)
      else (queue, .stored false)
  | .get => (queue.tail, .taken queue.head?)
  | .count => (queue, .counted queue.length)

section step

variable {capacity : Nat} {queue : List Element}

theorem fifo_put_room (room : queue.length < capacity) (element : Element) :
    fifoStep capacity queue (.put element) = (queue ++ [element], .stored true) :=
  if_pos room

theorem fifo_put_full (full : capacity ≤ queue.length) (element : Element) :
    fifoStep capacity queue (.put element) = (queue, .stored false) :=
  if_neg (Nat.not_lt_of_le full)

end step

def fifoRun (capacity : Nat) (queue : List Element) :
    List (Op Element) → List Element × List (Answer Element)
  | [] => (queue, [])
  | op :: rest =>
      let (next, answer) := fifoStep capacity queue op
      let (final, answers) := fifoRun capacity next rest
      (final, answer :: answers)

/-- The run of an implementation whose step may have no outcome. -/
def runs (step : State → Op Element → Option (State × Answer Element)) (state : State) :
    List (Op Element) → Option (State × List (Answer Element))
  | [] => some (state, [])
  | op :: rest => do
      let (next, answer) ← step state op
      let (final, answers) ← runs step next rest
      some (final, answer :: answers)

/-- What one call of the implementation and of the queue keep, whole runs keep, and they
give the same answers. -/
theorem runs_refines {step : State → Op Element → Option (State × Answer Element)}
    {capacity : Nat} (Holds : State → List Element → Prop)
    (one : ∀ state queue op, Holds state queue →
      ∃ next, step state op = some (next, (fifoStep capacity queue op).2) ∧
        Holds next (fifoStep capacity queue op).1)
    (ops : List (Op Element)) {state : State} {queue : List Element} (holds : Holds state queue) :
    ∃ final, runs step state ops = some (final, (fifoRun capacity queue ops).2) ∧
      Holds final (fifoRun capacity queue ops).1 := by
  induction ops generalizing state queue with
  | nil => exact ⟨state, rfl, holds⟩
  | cons op rest ih =>
      obtain ⟨next, stepped, related⟩ := one state queue op holds
      obtain ⟨final, ran, kept⟩ := ih related
      refine ⟨final, ?_, kept⟩
      rw [runs, stepped, Option.bind_eq_bind, Option.bind_some]
      dsimp only
      rw [ran]
      rfl

end BoundedFifo
