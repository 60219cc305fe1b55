import Mathlib.Data.List.Nodup
import Mathlib.Data.List.Perm.Subperm
import Mathlib.Algebra.Order.Group.Int
import Mathlib.Tactic.Ring
import Mathlib.Tactic.Linarith

/-!
# Circular windows over an integer-indexed memory

A circular buffer of `size` cells keeps its entries at the positions `tail`,
`tail + 1`, ..., `head - 1` modulo `size`, and leaves one cell unused so that
full and empty differ. `window` reads those cells in order; the lemmas say how
it changes when either end advances and when a cell is written.
-/

set_option autoImplicit false

namespace CircularWindow

variable {Cell : Type*}

/-- Number of entries from `tail` up to `head`. -/
def circCnt (head tail size : Int) : Int := (head - tail) % size

/-- Number of entries that still fit while one cell stays unused. -/
def circSpace (head tail size : Int) : Int := circCnt tail (head + 1) size

def window (cells : Int → Cell) (size tail : Int) (count : Nat) : List Cell :=
  (List.range count).map fun offset : Nat => cells ((tail + offset) % size)

theorem circ_cnt_range {size : Int} (positive : 0 < size) (head tail : Int) :
    0 ≤ circCnt head tail size ∧ circCnt head tail size < size :=
  ⟨Int.emod_nonneg _ positive.ne', Int.emod_lt_of_pos _ positive⟩

/-- The head cell is the one after the last entry. -/
theorem head_position {head tail size : Int} (lower : 0 ≤ head) (upper : head < size) :
    (tail + circCnt head tail size) % size = head := by
  rw [circCnt, Int.add_emod_emod, show tail + (head - tail) = head by ring]
  exact Int.emod_eq_of_lt lower upper

theorem circ_cnt_advance_head {head tail size : Int} (positive : 0 < size)
    (room : circCnt head tail size + 1 < size) :
    circCnt ((head + 1) % size) tail size = circCnt head tail size + 1 := by
  have lower := (circ_cnt_range positive head tail).1
  have shifted : circCnt ((head + 1) % size) tail size =
      (circCnt head tail size + 1) % size := by
    rw [circCnt, circCnt, Int.emod_sub_emod, Int.emod_add_emod]
    congr 1
    ring
  rw [shifted, Int.emod_eq_of_lt (by omega) room]

theorem circ_cnt_advance_tail {head tail size : Int} (positive : 0 < size)
    (nonempty : 0 < circCnt head tail size) :
    circCnt head ((tail + 1) % size) size = circCnt head tail size - 1 := by
  have upper := (circ_cnt_range positive head tail).2
  have shifted : circCnt head ((tail + 1) % size) size =
      (circCnt head tail size - 1) % size := by
    rw [circCnt, circCnt, Int.sub_emod_emod, Int.emod_sub_emod]
    congr 1
    ring
  rw [shifted, Int.emod_eq_of_lt (by omega) (by omega)]

theorem circ_space_eq {size : Int} (positive : 0 < size) (head tail : Int) :
    circSpace head tail size = size - 1 - circCnt head tail size := by
  have range := circ_cnt_range positive head tail
  have complement : circSpace head tail size =
      (size - 1 - circCnt head tail size) % size := by
    rw [circSpace, circCnt, circCnt, Int.sub_emod_emod]
    rw [show size - 1 - (head - tail) = tail - (head + 1) + size by ring]
    rw [Int.add_emod_right]
  rw [complement, Int.emod_eq_of_lt (by omega) (by omega)]

/-- Distinct offsets below `size` name distinct cells. -/
theorem position_injective (size tail : Int) (first second : Nat)
    (firstBound : (first : Int) < size) (secondBound : (second : Int) < size)
    (same : (tail + first) % size = (tail + second) % size) : first = second := by
  have divides : size ∣ (tail + first) - (tail + second) :=
    Int.emod_eq_emod_iff_emod_sub_eq_zero.mp same |> Int.dvd_of_emod_eq_zero
  have close : |(tail + first) - (tail + second)| < size := by
    rw [abs_lt]
    omega
  have zero := Int.eq_zero_of_abs_lt_dvd divides close
  omega

theorem position_range {size : Int} (positive : 0 < size) (position : Int) :
    0 ≤ position % size ∧ position % size < size :=
  ⟨Int.emod_nonneg _ positive.ne', Int.emod_lt_of_pos _ positive⟩

@[simp] theorem window_length (cells : Int → Cell) (size tail : Int) (count : Nat) :
    (window cells size tail count).length = count := by
  simp [window]

theorem window_succ (cells : Int → Cell) (size tail : Int) (count : Nat) :
    window cells size tail (count + 1) =
      window cells size tail count ++ [cells ((tail + count) % size)] := by
  simp [window, List.range_succ]

theorem window_cons (cells : Int → Cell) (size tail : Int) (count : Nat) :
    window cells size tail (count + 1) =
      cells (tail % size) :: window cells size ((tail + 1) % size) count := by
  simp only [window, List.range_succ_eq_map, List.map_cons, List.map_map]
  congr 1
  · simp
  · apply List.map_congr_left
    intro offset member
    simp only [Function.comp_apply, Int.emod_add_emod]
    congr 2
    push_cast
    ring

/-- Two memories that agree on the cells of the window. -/
theorem window_congr {before after : Int → Cell} {size tail : Int} {count : Nat}
    (same : ∀ offset : Nat, offset < count →
      before ((tail + offset) % size) = after ((tail + offset) % size)) :
    window before size tail count = window after size tail count := by
  apply List.map_congr_left
  intro offset member
  exact same offset (List.mem_range.mp member)

theorem mem_window {cells : Int → Cell} {size tail : Int} {count : Nat} {cell : Cell} :
    cell ∈ window cells size tail count ↔
      ∃ offset : Nat, offset < count ∧ cells ((tail + offset) % size) = cell := by
  simp [window]

/-- Fewer entries than slots leave a slot that no entry names. -/
theorem exists_unused_slot (entries : List Int) (size : Nat) (fewer : entries.length < size) :
    ∃ slot : Int, 0 ≤ slot ∧ slot < size ∧ slot ∉ entries := by
  by_contra every
  push Not at every
  let slots : List Int := (List.range size).map (↑)
  have distinct : slots.Nodup := List.nodup_range.map Nat.cast_injective
  have covered : slots ⊆ entries := by
    intro slot member
    obtain ⟨index, bound, rfl⟩ := List.mem_map.mp member
    exact every index (by omega) (by have := List.mem_range.mp bound; omega)
  have count := (List.subperm_of_subset distinct covered).length_le
  simp only [slots, List.length_map, List.length_range] at count
  omega

end CircularWindow
