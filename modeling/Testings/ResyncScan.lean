import Mathlib.Logic.Relation
import Mathlib.Tactic.SplitIfs

/-!
# Resynchronising scans

A stream of `total` positions is cut into frames of one width. A frame is
confirmed by what is seen at its start and right behind it; a scan takes a
confirmed frame as a whole and skips one position otherwise. At the very end
there is nothing behind the frame, and scanners differ in what they do there.
-/

set_option autoImplicit false

structure ResyncScan where
  width : Nat
  positive : 0 < width
  total : Nat
  confirmed : Nat → Bool

namespace ResyncScan

def next (scan : ResyncScan) (position : Nat) : Nat :=
  if scan.confirmed position then position + scan.width else position + 1

/-- The frames found from a position on, when the frame at the very end is taken
if `last` says so. -/
def offsets (scan : ResyncScan) (last : Bool) (position : Nat) : List Nat :=
  if position + scan.width < scan.total then
    if scan.confirmed position then position :: offsets scan last (position + scan.width)
    else offsets scan last (position + 1)
  else if position + scan.width = scan.total ∧ last = true then [position]
  else []
termination_by scan.total - position
decreasing_by
  all_goals
    have positive := scan.positive
    omega

section offsets

variable {scan : ResyncScan} {last : Bool} {position : Nat}

theorem offsets_confirmed (ahead : position + scan.width < scan.total)
    (confirmed : scan.confirmed position = true) :
    scan.offsets last position = position :: scan.offsets last (position + scan.width) := by
  rw [offsets, if_pos ahead, if_pos confirmed]

theorem offsets_skip (ahead : position + scan.width < scan.total)
    (unconfirmed : ¬scan.confirmed position = true) :
    scan.offsets last position = scan.offsets last (position + 1) := by
  rw [offsets, if_pos ahead, if_neg unconfirmed]

theorem offsets_end (atEnd : position + scan.width = scan.total) :
    scan.offsets last position = if last then [position] else [] := by
  rw [offsets, if_neg (by omega)]
  simp [atEnd]

theorem offsets_past (past : scan.total < position + scan.width) :
    scan.offsets last position = [] := by
  rw [offsets, if_neg (by omega), if_neg (by omega)]

end offsets

/-- One move of the scan while a whole frame and more is ahead. -/
def Move (scan : ResyncScan) (before after : Nat) : Prop :=
  before + scan.width < scan.total ∧ after = scan.next before

def Reaches (scan : ResyncScan) : Nat → Nat → Prop := Relation.ReflTransGen scan.Move

variable {scan : ResyncScan}

theorem reaches_next {position final : Nat} (ahead : position + scan.width < scan.total)
    (other : position ≠ final) :
    scan.Reaches position final ↔ scan.Reaches (scan.next position) final := by
  constructor
  · intro reaches
    rcases Relation.ReflTransGen.cases_head reaches with same | ⟨after, move, rest⟩
    · exact absurd same other
    · exact move.2 ▸ rest
  · intro reaches
    exact Relation.ReflTransGen.head ⟨ahead, rfl⟩ reaches

theorem reaches_stuck {position final : Nat} (stuck : ¬position + scan.width < scan.total) :
    scan.Reaches position final ↔ position = final := by
  constructor
  · intro reaches
    rcases Relation.ReflTransGen.cases_head reaches with same | ⟨after, move, rest⟩
    · exact same
    · exact absurd move.1 stuck
  · rintro rfl
    exact Relation.ReflTransGen.refl

/-- Taking the frame at the very end makes a difference exactly when the scan
comes to stop there. -/
theorem offsets_last_iff (fits : scan.width ≤ scan.total) (last : Bool) (position : Nat) :
    scan.offsets true position = scan.offsets last position ↔
      (scan.Reaches position (scan.total - scan.width) → last = true) := by
  fun_induction offsets scan last position with
  | case1 position ahead confirmed ih =>
      have step : scan.next position = position + scan.width := if_pos confirmed
      rw [offsets_confirmed ahead confirmed, reaches_next ahead (by omega), step, ← ih]
      exact List.cons_inj_right position
  | case2 position ahead unconfirmed ih =>
      have step : scan.next position = position + 1 := if_neg unconfirmed
      rw [offsets_skip ahead unconfirmed, reaches_next ahead (by omega), step, ← ih]
  | case3 position stuck taken =>
      rw [offsets_end taken.1, if_pos rfl]
      exact ⟨fun _ _ => taken.2, fun _ => rfl⟩
  | case4 position stuck refused =>
      rw [reaches_stuck stuck]
      by_cases atEnd : position + scan.width = scan.total
      · have notLast : last ≠ true := fun taken => refused ⟨atEnd, taken⟩
        have stops : position = scan.total - scan.width := by omega
        rw [offsets_end atEnd, if_pos rfl]
        simp [notLast, stops]
      · have elsewhere : position ≠ scan.total - scan.width := by omega
        rw [offsets_past (by omega)]
        simp [elsewhere]

/-- Every frame is confirmed, or is the one at the very end. -/
theorem mem_offsets {last : Bool} {position offset : Nat}
    (found : offset ∈ scan.offsets last position) :
    offset + scan.width ≤ scan.total ∧
      (scan.confirmed offset = true ∨ offset + scan.width = scan.total ∧ last = true) := by
  fun_induction offsets scan last position with
  | case1 position ahead confirmed ih =>
      rcases List.mem_cons.mp found with rfl | later
      · exact ⟨by omega, .inl confirmed⟩
      · exact ih later
  | case2 position ahead unconfirmed ih => exact ih found
  | case3 position stuck taken =>
      rw [List.mem_singleton.mp found]
      exact ⟨by omega, .inr taken⟩
  | case4 position stuck refused => cases found

end ResyncScan
