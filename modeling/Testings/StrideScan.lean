import Mathlib.Data.List.Pairwise
import Mathlib.Tactic.SplitIfs

/-!
# Scans with a stride

A stream is searched from left to right for patterns of several widths. At each
examined position either a pattern matches, and the scan moves past it, or the
scan moves on by one. What is found is in order and disjoint, and a match that is
not found begins inside one that is.
-/

set_option autoImplicit false

/-- Positions below `limit` are examined; `width` is zero where nothing matches. -/
structure StrideScan where
  limit : Nat
  width : Nat → Nat

namespace StrideScan

/-- The positions and widths of the matches found from a position on. -/
def found (scan : StrideScan) (position : Nat) : List (Nat × Nat) :=
  if position < scan.limit then
    if scan.width position = 0 then found scan (position + 1)
    else (position, scan.width position) :: found scan (position + scan.width position)
  else []
termination_by scan.limit - position

section found

variable {scan : StrideScan} {position target : Nat}

theorem found_skip (examined : position < scan.limit) (unmatched : scan.width position = 0) :
    scan.found position = scan.found (position + 1) := by
  rw [found, if_pos examined, if_pos unmatched]

theorem found_match (examined : position < scan.limit) (matched : scan.width position ≠ 0) :
    scan.found position =
      (position, scan.width position) :: scan.found (position + scan.width position) := by
  rw [found, if_pos examined, if_neg matched]

theorem found_done (done : ¬position < scan.limit) : scan.found position = [] := by
  rw [found, if_neg done]

theorem of_mem_found {code : Nat × Nat} (member : code ∈ scan.found position) :
    position ≤ code.1 ∧ code.1 < scan.limit ∧ code.2 = scan.width code.1 ∧ 0 < code.2 := by
  fun_induction found scan position with
  | case1 position examined unmatched ih =>
      obtain ⟨after, rest⟩ := ih member
      exact ⟨by omega, rest⟩
  | case2 position examined matched ih =>
      cases List.mem_cons.mp member with
      | inl here =>
          subst here
          exact ⟨Nat.le_refl _, examined, rfl, Nat.pos_of_ne_zero matched⟩
      | inr later =>
          obtain ⟨after, rest⟩ := ih later
          exact ⟨by omega, rest⟩
  | case3 position done => cases member

theorem found_disjoint (scan : StrideScan) (position : Nat) :
    (scan.found position).Pairwise fun code next => code.1 + code.2 ≤ next.1 := by
  fun_induction found scan position with
  | case1 position examined unmatched ih => exact ih
  | case2 position examined matched ih =>
      apply List.Pairwise.cons _ ih
      intro next later
      exact (of_mem_found later).1
  | case3 position done => exact List.Pairwise.nil

theorem found_increasing (scan : StrideScan) (position : Nat) :
    (scan.found position).Pairwise fun code next => code.1 < next.1 := by
  apply (found_disjoint scan position).imp_of_mem
  intro code next member _ disjoint
  have positive := (of_mem_found member).2.2.2
  omega

/-- Two matches that share a position are one. -/
theorem found_unique {code other : Nat × Nat} (member : code ∈ scan.found position)
    (otherMember : other ∈ scan.found position) (inside : code.1 ≤ target)
    (before : target < code.1 + code.2) (otherInside : other.1 ≤ target)
    (otherBefore : target < other.1 + other.2) : code = other := by
  by_contra differ
  have apart : (scan.found position).Pairwise fun a b =>
      a.1 + a.2 ≤ b.1 ∨ b.1 + b.2 ≤ a.1 :=
    (found_disjoint scan position).imp fun disjoint => .inl disjoint
  have symmetric : Std.Symm fun a b : Nat × Nat => a.1 + a.2 ≤ b.1 ∨ b.1 + b.2 ≤ a.1 :=
    ⟨fun _ _ => Or.symm⟩
  have separate := apart.forall member otherMember differ
  omega

/-- A match is found, or it begins inside an earlier one that is. -/
theorem found_complete (behind : position ≤ target) (examined : target < scan.limit)
    (matched : scan.width target ≠ 0) :
    (target, scan.width target) ∈ scan.found position ∨
      ∃ code ∈ scan.found position, code.1 < target ∧ target < code.1 + code.2 := by
  fun_induction found scan position with
  | case1 position here unmatched ih =>
      have further : position ≠ target := fun same => matched (same ▸ unmatched)
      exact ih (by omega)
  | case2 position here matchedHere ih =>
      by_cases same : position = target
      · subst same
        exact .inl (List.mem_cons_self)
      · by_cases inside : target < position + scan.width position
        · exact .inr ⟨_, List.mem_cons_self, by omega, inside⟩
        · cases ih (by omega) with
          | inl present => exact .inl (List.mem_cons_of_mem _ present)
          | inr covered =>
              obtain ⟨code, present, around⟩ := covered
              exact .inr ⟨code, List.mem_cons_of_mem _ present, around⟩
  | case3 position done => omega

/-- Scans find the same when one matches where the other has found, and nowhere else. -/
theorem found_congr {other : StrideScan} (limits : other.limit = scan.limit)
    (kept : ∀ code ∈ scan.found position, other.width code.1 = code.2)
    (new : ∀ target, position ≤ target → target < scan.limit → other.width target ≠ 0 →
      scan.width target ≠ 0) :
    other.found position = scan.found position := by
  fun_induction found scan position with
  | case1 position examined unmatched ih =>
      have still : other.width position = 0 := by
        by_contra appeared
        exact new position (Nat.le_refl _) examined appeared unmatched
      rw [found_skip (limits ▸ examined) still]
      exact ih kept fun target behind => new target (by omega)
  | case2 position examined matched ih =>
      have same : other.width position = scan.width position := kept _ List.mem_cons_self
      rw [found_match (limits ▸ examined) (same ▸ matched), same,
        ih (fun code member => kept code (List.mem_cons_of_mem _ member))
          fun target behind => new target (by omega)]
  | case3 position done => exact found_done (limits ▸ done)

end found

end StrideScan
