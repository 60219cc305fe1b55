import Mathlib.Data.List.Basic
import Mathlib.Data.List.Perm.Basic

/-!
# Ledgers of lossy queues

What a queue has accepted, what it has delivered from its front and what it has
dropped from there. Nothing overtakes, nothing is counted twice, and nothing is
lost but what has been dropped.
-/

set_option autoImplicit false

structure QueueLedger (Element : Type*) where
  accepted : List Element
  delivered : List Element
  dropped : List Element
  deriving DecidableEq

namespace QueueLedger

variable {Element : Type*} {queue : List Element} {ledger : QueueLedger Element}

def empty : QueueLedger Element := ⟨[], [], []⟩

def accept (ledger : QueueLedger Element) (elements : List Element) : QueueLedger Element :=
  { ledger with accepted := ledger.accepted ++ elements }

def deliver (ledger : QueueLedger Element) (elements : List Element) : QueueLedger Element :=
  { ledger with delivered := ledger.delivered ++ elements }

def drop (ledger : QueueLedger Element) (elements : List Element) : QueueLedger Element :=
  { ledger with dropped := ledger.dropped ++ elements }

/-- What the ledger says of the queue. -/
structure Kept (ledger : QueueLedger Element) (queue : List Element) : Prop where
  ordered : (ledger.delivered ++ queue).Sublist ledger.accepted
  conserved : ledger.accepted.Perm (ledger.delivered ++ queue ++ ledger.dropped)

theorem empty_kept : (empty : QueueLedger Element).Kept [] where
  ordered := List.Sublist.refl _
  conserved := List.Perm.refl _

theorem Kept.accept (kept : ledger.Kept queue) (elements : List Element) :
    (ledger.accept elements).Kept (queue ++ elements) where
  ordered := by
    rw [← List.append_assoc]
    exact List.Sublist.append kept.ordered (List.Sublist.refl _)
  conserved := by
    have rest := kept.conserved.append_right elements
    rw [List.append_assoc] at rest
    rw [QueueLedger.accept, ← List.append_assoc, List.append_assoc _ elements]
    exact rest.trans (List.perm_append_comm.append_left _)

theorem Kept.deliver (kept : ledger.Kept queue) (n : Nat) :
    (ledger.deliver (queue.take n)).Kept (queue.drop n) where
  ordered := by
    rw [QueueLedger.deliver, List.append_assoc, List.take_append_drop]
    exact kept.ordered
  conserved := by
    rw [QueueLedger.deliver, List.append_assoc _ (queue.take n), List.take_append_drop]
    exact kept.conserved

theorem Kept.drop (kept : ledger.Kept queue) (n : Nat) :
    (ledger.drop (queue.take n)).Kept (queue.drop n) where
  ordered := ((List.drop_sublist n queue).append_left ledger.delivered).trans kept.ordered
  conserved := by
    have split : (ledger.delivered ++ queue).Perm
        (ledger.delivered ++ queue.drop n ++ queue.take n) := by
      rw [List.append_assoc]
      refine List.Perm.append_left _ ?_
      conv_lhs => rw [← List.take_append_drop n queue]
      exact List.perm_append_comm
    have moved := split.append_right ledger.dropped
    rw [List.append_assoc _ (queue.take n)] at moved
    exact kept.conserved.trans (moved.trans (List.perm_append_comm.append_left _))

/-- Whatever the queue has lost at its front has been dropped. -/
theorem Kept.shrunk {later : List Element} (kept : ledger.Kept queue) (rest : later <:+ queue) :
    (ledger.drop (queue.take (queue.length - later.length))).Kept later := by
  have dropped := kept.drop (queue.length - later.length)
  rwa [← List.suffix_iff_eq_drop.mp rest] at dropped

theorem Kept.lengths (kept : ledger.Kept queue) :
    ledger.accepted.length =
      ledger.delivered.length + queue.length + ledger.dropped.length := by
  rw [kept.conserved.length_eq, List.length_append, List.length_append]

/-- As long as nothing is dropped the queue loses nothing. -/
theorem Kept.lossless_iff (kept : ledger.Kept queue) :
    ledger.delivered ++ queue = ledger.accepted ↔ ledger.dropped = [] := by
  have lengths := kept.lengths
  constructor
  · intro same
    have whole := congrArg List.length same
    rw [List.length_append] at whole
    exact List.eq_nil_of_length_eq_zero (by omega)
  · intro nothing
    rw [nothing] at lengths
    exact kept.ordered.eq_of_length (by simpa using lengths.symm)

end QueueLedger
