import Mathlib.Data.List.Basic

/-!
# Queues that are polled

A poll takes the first waiting item and finds nothing when none waits. What a
stretch of arrivals and polls does to a queue adds up: one item goes for each
poll while any waits, and none goes without a poll.
-/

set_option autoImplicit false

namespace PolledQueue

variable {Item : Type*}

/-- The polls of a stretch, the items that came in it and those that were taken. -/
structure Stretch (Item : Type*) where
  polls : Nat
  arrived : List Item
  taken : List Item

def nothing : Stretch Item := ⟨0, [], []⟩

def Stretch.followedBy (first second : Stretch Item) : Stretch Item where
  polls := first.polls + second.polls
  arrived := first.arrived ++ second.arrived
  taken := first.taken ++ second.taken

/-- How the stretch turned one queue into the other. -/
structure Serves (stretch : Stretch Item) (before after : List Item) : Prop where
  balance : stretch.taken ++ after = before ++ stretch.arrived
  asked : stretch.taken.length ≤ stretch.polls
  served : min stretch.polls before.length ≤ stretch.taken.length

theorem serves_nothing (queue : List Item) : Serves nothing queue queue where
  balance := (List.append_nil queue).symm
  asked := Nat.le_refl _
  served := Nat.min_le_left _ _

theorem serves_arrival (queue : List Item) (item : Item) :
    Serves ⟨0, [item], []⟩ queue (queue ++ [item]) where
  balance := rfl
  asked := Nat.le_refl _
  served := Nat.min_le_left _ _

theorem serves_poll (item : Item) (rest : List Item) :
    Serves ⟨1, [], [item]⟩ (item :: rest) rest where
  balance := (List.append_nil _).symm
  asked := Nat.le_refl _
  served := Nat.min_le_left _ _

theorem serves_vain_poll : Serves ⟨1, [], []⟩ ([] : List Item) [] where
  balance := rfl
  asked := Nat.zero_le _
  served := Nat.min_le_right _ _

section stretches

variable {first second stretch : Stretch Item} {before middle after : List Item}

theorem Serves.followed_by (one : Serves first before middle) (two : Serves second middle after) :
    Serves (first.followedBy second) before after where
  balance := by
    calc
      first.taken ++ second.taken ++ after
          = first.taken ++ (middle ++ second.arrived) := by rw [List.append_assoc, two.balance]
      _ = before ++ first.arrived ++ second.arrived := by rw [← List.append_assoc, one.balance]
      _ = before ++ (first.arrived ++ second.arrived) := List.append_assoc _ _ _
  asked := by
    rw [Stretch.followedBy, List.length_append]
    exact Nat.add_le_add one.asked two.asked
  served := by
    have lengths := congrArg List.length one.balance
    have oneServed := one.served
    have oneAsked := one.asked
    have twoServed := two.served
    simp only [List.length_append] at lengths
    simp only [Stretch.followedBy, List.length_append]
    -- what the first stretch has left waiting of `before` still waits in `middle`
    have waiting : before.length ≤ first.taken.length + middle.length := by omega
    omega

/-- The items that have been taken are the first ones, in their order. -/
theorem Serves.taken_eq (serves : Serves stretch before after) :
    stretch.taken = (before ++ stretch.arrived).take stretch.taken.length := by
  rw [← serves.balance, List.take_left]

/-- While enough items wait, each poll takes one. -/
theorem Serves.taken_of_le (serves : Serves stretch before after)
    (enough : stretch.polls ≤ before.length) : stretch.taken = before.take stretch.polls := by
  have served := serves.served
  have asked := serves.asked
  have all : stretch.taken.length = stretch.polls := by omega
  rw [serves.taken_eq, all, List.take_append_of_le_length enough]

end stretches

end PolledQueue
