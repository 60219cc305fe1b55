import Mathlib.Data.List.Basic

/-!
# Bounded queues that drop their oldest element

The queue makes room before it accepts: at capacity the oldest element goes.
The histories of accepted and delivered elements are kept beside the queue, so
that order and single delivery are statements about two lists.
-/

set_option autoImplicit false

structure DropOldestQueue (Element : Type*) where
  queue : List Element
  enqueued : List Element
  delivered : List Element

namespace DropOldestQueue

variable {Element : Type*}

def empty : DropOldestQueue Element := ⟨[], [], []⟩

def makeRoom (capacity : Nat) (q : DropOldestQueue Element) : DropOldestQueue Element :=
  if q.queue.length = capacity then { q with queue := q.queue.tail } else q

def enqueue (element : Element) (q : DropOldestQueue Element) : DropOldestQueue Element :=
  { q with queue := q.queue ++ [element], enqueued := q.enqueued ++ [element] }

def deliver (q : DropOldestQueue Element) : DropOldestQueue Element :=
  match q.queue with
  | [] => q
  | element :: rest => { q with queue := rest, delivered := q.delivered ++ [element] }

def clear (q : DropOldestQueue Element) : DropOldestQueue Element := { q with queue := [] }

/-- Delivered elements, then those still queued, in the order they were accepted:
nothing is delivered twice and nothing overtakes. -/
def Ordered (q : DropOldestQueue Element) : Prop :=
  (q.delivered ++ q.queue).Sublist q.enqueued

theorem empty_ordered : Ordered (empty : DropOldestQueue Element) := List.Sublist.refl _

theorem Ordered.delivered {q : DropOldestQueue Element} (ordered : q.Ordered) :
    q.delivered.Sublist q.enqueued :=
  (List.sublist_append_left _ _).trans ordered

theorem Ordered.makeRoom {q : DropOldestQueue Element} (ordered : q.Ordered) (capacity : Nat) :
    (q.makeRoom capacity).Ordered := by
  unfold DropOldestQueue.makeRoom
  split_ifs
  · exact ((List.tail_sublist q.queue).append_left q.delivered).trans ordered
  · exact ordered

theorem Ordered.enqueue {q : DropOldestQueue Element} (ordered : q.Ordered) (element : Element) :
    (q.enqueue element).Ordered := by
  simp only [Ordered, DropOldestQueue.enqueue, ← List.append_assoc]
  exact List.Sublist.append ordered (List.Sublist.refl _)

theorem Ordered.deliver {q : DropOldestQueue Element} (ordered : q.Ordered) :
    q.deliver.Ordered := by
  unfold DropOldestQueue.deliver
  split
  · exact ordered
  · next element rest front =>
      simp only [Ordered, front] at ordered ⊢
      simpa using ordered

theorem Ordered.clear {q : DropOldestQueue Element} (ordered : q.Ordered) : q.clear.Ordered := by
  simpa [Ordered, DropOldestQueue.clear] using ordered.delivered

end DropOldestQueue
