import Mathlib.Logic.Function.Basic
import Mathlib.Data.List.Nodup

/-!
# Linked lists in memory

A memory of cells, each with a value and the address of the next one, and a head
pointer. `Chain` says which cells hang on a pointer. Cells are unlinked through the
place that holds the pointer to them, which is the head or another cell.
-/

set_option autoImplicit false

namespace LinkedCells

structure Cell (Value : Type) where
  value : Value
  next : Option Nat

/-- A null pointer is `none`; so is the cell at an address that is not allocated. -/
structure Memory (Value : Type) where
  head : Option Nat
  heap : Nat → Option (Cell Value)

/-- A place that holds a pointer. -/
inductive Slot where
  | head
  | next (address : Nat)

variable {Value : Type}

namespace Memory

def read (memory : Memory Value) : Slot → Option (Option Nat)
  | .head => some memory.head
  | .next address => (memory.heap address).map Cell.next

def write (memory : Memory Value) (pointer : Option Nat) : Slot → Memory Value
  | .head => { memory with head := pointer }
  | .next address =>
      { memory with
        heap := Function.update memory.heap address
          ((memory.heap address).map fun cell => { cell with next := pointer }) }

def store (memory : Memory Value) (address : Nat) (cell : Cell Value) : Memory Value :=
  { memory with heap := Function.update memory.heap address (some cell) }

def free (memory : Memory Value) (address : Nat) : Memory Value :=
  { memory with heap := Function.update memory.heap address none }

end Memory

/-- The cells that hang on a pointer, in order, with their addresses. -/
def Chain (heap : Nat → Option (Cell Value)) : Option Nat → List (Nat × Value) → Prop
  | pointer, [] => pointer = none
  | pointer, (address, value) :: rest =>
      pointer = some address ∧
        ∃ next, heap address = some ⟨value, next⟩ ∧ Chain heap next rest

section chain

variable {heap other : Nat → Option (Cell Value)} {pointer : Option Nat}
  {cells : List (Nat × Value)}

theorem chain_determined {others : List (Nat × Value)} (chain : Chain heap pointer cells)
    (otherChain : Chain heap pointer others) : cells = others := by
  induction cells generalizing pointer others with
  | nil =>
      cases others with
      | nil => rfl
      | cons entry rest => exact absurd (chain.symm.trans otherChain.1) (by simp)
  | cons entry rest ih =>
      obtain ⟨here, next, cell, chain⟩ := chain
      cases others with
      | nil => exact absurd (here.symm.trans otherChain) (by simp)
      | cons otherEntry otherRest =>
          obtain ⟨there, otherNext, otherCell, otherChain⟩ := otherChain
          have address : entry.1 = otherEntry.1 := Option.some.inj (here.symm.trans there)
          rw [address, otherCell, Option.some.injEq, Cell.mk.injEq] at cell
          have later := ih chain (cell.2 ▸ otherChain)
          rw [later, Prod.ext address cell.1.symm]

/-- From each of its cells on a chain goes on. -/
theorem chain_suffix {before : List (Nat × Value)}
    (chain : Chain heap pointer (before ++ cells)) : ∃ inner, Chain heap inner cells := by
  induction before generalizing pointer with
  | nil => exact ⟨pointer, chain⟩
  | cons entry rest ih =>
      obtain ⟨_, next, _, chain⟩ := chain
      exact ih chain

/-- A chain that ends passes no cell twice. -/
theorem chain_nodup (chain : Chain heap pointer cells) : (cells.map Prod.fst).Nodup := by
  induction cells generalizing pointer with
  | nil => exact List.nodup_nil
  | cons entry rest ih =>
      have whole := chain
      obtain ⟨here, next, cell, chain⟩ := chain
      rw [List.map_cons, List.nodup_cons]
      refine ⟨fun again => ?_, ih chain⟩
      obtain ⟨found, member, same⟩ := List.mem_map.mp again
      obtain ⟨before, after, split⟩ := List.append_of_mem member
      rw [split] at chain
      obtain ⟨inner, innerChain⟩ := chain_suffix chain
      have start : inner = pointer := by
        rw [innerChain.1, here, same]
      have equal := congrArg List.length (chain_determined (start ▸ innerChain) whole)
      rw [split, List.length_cons, List.length_cons, List.length_append, List.length_cons] at equal
      omega

theorem chain_frame (chain : Chain heap pointer cells)
    (same : ∀ entry ∈ cells, other entry.1 = heap entry.1) : Chain other pointer cells := by
  induction cells generalizing pointer with
  | nil => exact chain
  | cons entry rest ih =>
      obtain ⟨here, next, cell, chain⟩ := chain
      have later := ih chain fun later member => same later (List.mem_cons_of_mem _ member)
      refine ⟨here, next, ?_, later⟩
      rw [same entry List.mem_cons_self, cell]

theorem chain_cell {entry : Nat × Value} (chain : Chain heap pointer cells)
    (member : entry ∈ cells) : ∃ next, heap entry.1 = some ⟨entry.2, next⟩ := by
  induction cells generalizing pointer with
  | nil => cases member
  | cons first rest ih =>
      obtain ⟨_, next, cell, chain⟩ := chain
      cases List.mem_cons.mp member with
      | inl here => exact ⟨next, here ▸ cell⟩
      | inr later => exact ih chain later

/-- A value stored in place, the pointer kept. -/
theorem chain_store {address : Nat} {value : Value} {next : Option Nat}
    {before after : List (Nat × Value)} {old : Value}
    (chain : Chain heap pointer (before ++ (address, old) :: after))
    (cell : heap address = some ⟨old, next⟩) :
    Chain (Function.update heap address (some ⟨value, next⟩)) pointer
      (before ++ (address, value) :: after) := by
  have nodup := chain_nodup chain
  induction before generalizing pointer with
  | nil =>
      obtain ⟨here, following, found, chain⟩ := chain
      rw [cell, Option.some.injEq, Cell.mk.injEq] at found
      refine ⟨here, next, Function.update_self .., chain_frame (found.2 ▸ chain) ?_⟩
      intro entry member
      apply Function.update_of_ne
      intro same
      exact (List.nodup_cons.mp nodup).1 (List.mem_map.mpr ⟨entry, member, same⟩)
  | cons entry rest ih =>
      obtain ⟨here, following, found, chain⟩ := chain
      have apart : entry.1 ≠ address := by
        intro same
        apply (List.nodup_cons.mp nodup).1
        rw [same]
        exact List.mem_map_of_mem (List.mem_append_right _ List.mem_cons_self)
      exact ⟨here, following, (Function.update_of_ne apart ..).trans found,
        ih chain (List.nodup_cons.mp nodup).2⟩

/-- A new cell in front. -/
theorem chain_push {address : Nat} {value : Value} (chain : Chain heap pointer cells)
    (fresh : heap address = none) :
    Chain (Function.update heap address (some ⟨value, pointer⟩)) (some address)
      ((address, value) :: cells) := by
  refine ⟨rfl, pointer, Function.update_self .., chain_frame chain ?_⟩
  intro entry member
  apply Function.update_of_ne
  intro same
  obtain ⟨next, cell⟩ := chain_cell chain member
  rw [same, fresh] at cell
  cases cell

end chain

/-- The slot is not in one of the cells. -/
def Slot.Apart (slot : Slot) (cells : List (Nat × Value)) : Prop :=
  ∀ address, slot = .next address → address ∉ cells.map Prod.fst

/-- What a loop that unlinks cells behind a slot leaves: the slot holds `pointer`, on
which `kept` hangs, the cells that are gone are free, and nothing else has changed. -/
structure Unlinked (before : Memory Value) (slot : Slot) (cells kept : List (Nat × Value))
    (pointer : Option Nat) (after : Memory Value) : Prop where
  chain : Chain after.heap pointer kept
  head : after.head = (before.write pointer slot).head
  others : ∀ address, address ∉ cells.map Prod.fst →
    after.heap address = (before.write pointer slot).heap address
  freed : ∀ entry ∈ cells, entry ∉ kept → after.heap entry.1 = none

section unlink

variable {memory after : Memory Value} {slot : Slot} {cells kept : List (Nat × Value)}
  {pointer next : Option Nat} {address : Nat} {value : Value}

theorem Memory.write_read (held : memory.read slot = some pointer) :
    memory.write pointer slot = memory := by
  cases slot with
  | head => rw [Memory.write, ← Option.some.inj held]
  | next place =>
      obtain ⟨cell, found, same⟩ := Option.map_eq_some_iff.mp held
      have kept : (memory.heap place).map (fun cell => { cell with next := pointer }) =
          memory.heap place := by
        rw [found, ← same]
        rfl
      rw [Memory.write, kept, Function.update_eq_self]

theorem Memory.read_unlinked (held : memory.read slot = some pointer)
    (apart : slot ≠ .next address) :
    ((memory.write next slot).free address).read slot = some next := by
  cases slot with
  | head => rfl
  | next place =>
      obtain ⟨cell, found, _⟩ := Option.map_eq_some_iff.mp held
      have differ : place ≠ address := fun same => apart (congrArg Slot.next same)
      simp [Memory.read, Memory.write, Memory.free, Function.update_of_ne differ, found]

/-- Away from the slot and the freed cell, unlinking changes nothing. -/
theorem Memory.heap_unlinked {other : Nat} (apart : slot ≠ .next other)
    (differ : other ≠ address) :
    ((memory.write next slot).free address).heap other = memory.heap other := by
  cases slot with
  | head => exact Function.update_of_ne differ ..
  | next place =>
      have elsewhere : other ≠ place := fun same => apart (congrArg Slot.next same.symm)
      exact (Function.update_of_ne differ ..).trans (Function.update_of_ne elsewhere ..)

/-- The rest of a chain after its first cell is unlinked. -/
theorem chain_unlinked (apart : slot.Apart ((address, value) :: cells))
    (nodup : (((address, value) :: cells).map Prod.fst).Nodup)
    (chain : Chain memory.heap next cells) :
    Chain ((memory.write next slot).free address).heap next cells := by
  apply chain_frame chain
  intro entry member
  apply Memory.heap_unlinked
  · intro same
    exact apart entry.1 same (List.mem_cons_of_mem _ (List.mem_map_of_mem member))
  · intro same
    exact (List.nodup_cons.mp nodup).1 (List.mem_map.mpr ⟨entry, member, same⟩)

theorem unlinked_nil (held : memory.read slot = some none) :
    Unlinked memory slot [] [] none memory where
  chain := rfl
  head := by rw [Memory.write_read held]
  others := fun _ _ => by rw [Memory.write_read held]
  freed := fun _ member => absurd member List.not_mem_nil

theorem unlinked_drop (apart : slot.Apart ((address, value) :: cells))
    (nodup : (((address, value) :: cells).map Prod.fst).Nodup)
    (rest : Unlinked ((memory.write next slot).free address) slot cells kept pointer after) :
    Unlinked memory slot ((address, value) :: cells) kept pointer after where
  chain := rest.chain
  head := by
    rw [rest.head]
    cases slot <;> rfl
  others := by
    intro other outside
    rw [List.map_cons, List.mem_cons, not_or] at outside
    rw [rest.others other outside.2]
    cases slot with
    | head => exact Function.update_of_ne outside.1 ..
    | next place =>
        by_cases here : other = place
        · subst here
          simp only [Memory.write, Memory.free, Function.update_of_ne outside.1,
            Function.update_self, Option.map_map]
          rfl
        · simp [Memory.write, Memory.free, Function.update_of_ne outside.1,
            Function.update_of_ne here]
  freed := by
    intro entry member gone
    cases List.mem_cons.mp member with
    | inr later => exact rest.freed entry later gone
    | inl here =>
        subst here
        rw [rest.others _ (List.nodup_cons.mp nodup).1]
        cases slot with
        | head => exact Function.update_self ..
        | next place =>
            have differ : address ≠ place := by
              intro same
              exact apart place rfl (same ▸ List.mem_cons_self)
            simp [Memory.write, Memory.free, Function.update_of_ne differ]

theorem unlinked_keep (held : memory.read slot = some (some address))
    (cell : memory.heap address = some ⟨value, next⟩)
    (nodup : (((address, value) :: cells).map Prod.fst).Nodup)
    (rest : Unlinked memory (.next address) cells kept pointer after) :
    Unlinked memory slot ((address, value) :: cells) ((address, value) :: kept) (some address)
      after where
  chain := by
    refine ⟨rfl, pointer, ?_, rest.chain⟩
    rw [rest.others address (List.nodup_cons.mp nodup).1]
    simp [Memory.write, cell]
  head := by
    rw [Memory.write_read held, rest.head]
    rfl
  others := by
    intro other outside
    rw [List.map_cons, List.mem_cons, not_or] at outside
    rw [Memory.write_read held, rest.others other outside.2]
    exact Function.update_of_ne outside.1 ..
  freed := by
    intro entry member gone
    rw [List.mem_cons, not_or] at gone
    exact rest.freed entry ((List.mem_cons.mp member).resolve_left gone.1) gone.2

end unlink

end LinkedCells
