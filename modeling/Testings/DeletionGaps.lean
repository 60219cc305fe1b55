import Mathlib.Data.BitVec
import Mathlib.Data.List.Chain
import Mathlib.Data.List.TakeWhile
import Mathlib.Tactic.SplitIfs
import Testings.HistoryLog

/-!
# Deletions from a counted stream

Items carry the values of a counter that goes up by one modulo `modulus`; some are
deleted. Between two successive survivors the counter goes up by the number of
deleted items and one.
-/

set_option autoImplicit false

namespace DeletionGaps

open HistoryLog

/-- How many items were deleted between each survivor and the next one, when `gap`
of them have gone since the last survivor, if there is one. -/
def gapsFrom : Option Nat → List Bool → List Nat
  | _, [] => []
  | none, false :: rest => gapsFrom none rest
  | none, true :: rest => gapsFrom (some 0) rest
  | some gap, false :: rest => gapsFrom (some (gap + 1)) rest
  | some gap, true :: rest => gap :: gapsFrom (some 0) rest

/-- `true` stands for a survivor. -/
def gaps (kept : List Bool) : List Nat := gapsFrom none kept

/-- The items deleted after the first survivor and before the last one. -/
def deletedInside (kept : List Bool) : Nat :=
  ((kept.dropWhile not).reverse.dropWhile not).count false

theorem trailing_cons (first : Bool) (rest : List Bool) :
    ((first :: rest).reverse.dropWhile not).count false =
      if true ∈ rest then (rest.reverse.dropWhile not).count false + (if first then 0 else 1)
      else 0 := by
  rw [List.reverse_cons, List.dropWhile_append]
  by_cases survivor : true ∈ rest
  · have some_left : (rest.reverse.dropWhile not).isEmpty = false := by
      rw [List.isEmpty_eq_false_iff_exists_mem]
      cases left : rest.reverse.dropWhile not with
      | nil =>
          have none_kept := List.dropWhile_eq_nil_iff.mp left true (List.mem_reverse.mpr survivor)
          cases none_kept
      | cons kept others => exact ⟨kept, List.mem_cons_self⟩
    rw [some_left, if_neg Bool.false_ne_true, if_pos survivor, List.count_append]
    cases first <;> rfl
  · have all_gone : rest.reverse.dropWhile not = [] := by
      rw [List.dropWhile_eq_nil_iff]
      intro kept present
      cases kept with
      | true => exact absurd (List.mem_reverse.mp present) survivor
      | false => rfl
    rw [all_gone, if_neg survivor]
    cases first <;> rfl

theorem gaps_from_sum (gap : Nat) (kept : List Bool) :
    (gapsFrom (some gap) kept).sum =
      if true ∈ kept then gap + (kept.reverse.dropWhile not).count false else 0 := by
  induction kept generalizing gap with
  | nil => rfl
  | cons first rest ih =>
      rw [trailing_cons]
      by_cases later : true ∈ rest
      · have here : true ∈ first :: rest := List.mem_cons_of_mem first later
        cases first with
        | true =>
            rw [gapsFrom, List.sum_cons, ih, if_pos later, if_pos here, if_pos later, if_pos rfl]
            omega
        | false =>
            rw [gapsFrom, ih, if_pos later, if_pos here, if_pos later,
              if_neg Bool.false_ne_true]
            omega
      · cases first with
        | true =>
            rw [gapsFrom, List.sum_cons, ih, if_neg later, if_pos List.mem_cons_self,
              if_neg later]
        | false =>
            have nowhere : true ∉ false :: rest := by simp [later]
            rw [gapsFrom, ih, if_neg later, if_neg nowhere]

theorem gaps_sum (kept : List Bool) : (gaps kept).sum = deletedInside kept := by
  unfold gaps deletedInside
  induction kept with
  | nil => rfl
  | cons first rest ih =>
      cases first with
      | true =>
          rw [gapsFrom, gaps_from_sum, List.dropWhile_cons_of_neg (by decide), trailing_cons]
          by_cases later : true ∈ rest
          · rw [if_pos later, if_pos later, if_pos rfl, Nat.zero_add, Nat.add_zero]
          · rw [if_neg later, if_neg later]
      | false =>
          rw [gapsFrom, List.dropWhile_cons_of_pos rfl]
          exact ih

def Successive (modulus before after : Nat) : Prop := after = (before + 1) % modulus

instance (modulus : Nat) : DecidableRel (Successive modulus) :=
  fun _ _ => inferInstanceAs (Decidable (_ = _))

/-- A counter that stands `gap` deletions behind `count`. -/
theorem survivors_after {modulus count gap previous : Nat} (items : List (Nat × Bool))
    (counted : (count :: items.map Prod.fst).IsChain (Successive modulus))
    (behind : count = (previous + gap) % modulus) :
    List.Forall₂ (fun pair gap => pair.2 = (pair.1 + gap + 1) % modulus)
      (consecutive (previous :: (items.filter Prod.snd).map Prod.fst))
      (gapsFrom (some gap) (items.map Prod.snd)) := by
  induction items generalizing count gap previous with
  | nil => exact .nil
  | cons item rest ih =>
      obtain ⟨value, kept⟩ := item
      obtain ⟨next, later⟩ := List.isChain_cons_cons.mp counted
      have ahead : value = (previous + gap + 1) % modulus := by
        change value = (count + 1) % modulus at next
        rw [next, behind, Nat.mod_add_mod]
      cases kept with
      | true =>
          refine .cons ahead (ih later ?_)
          change value = value % modulus
          rw [ahead, Nat.mod_mod]
      | false => exact ih later ahead

/-- Successive survivors differ by the deletions between them. -/
theorem survivors_differ {modulus : Nat} (items : List (Nat × Bool))
    (counted : (items.map Prod.fst).IsChain (Successive modulus))
    (bounded : ∀ item ∈ items, item.1 < modulus) :
    List.Forall₂ (fun pair gap => pair.2 = (pair.1 + gap + 1) % modulus)
      (consecutive ((items.filter Prod.snd).map Prod.fst)) (gaps (items.map Prod.snd)) := by
  induction items with
  | nil => exact .nil
  | cons item rest ih =>
      obtain ⟨value, kept⟩ := item
      cases kept with
      | true =>
          refine survivors_after rest counted ?_
          exact (Nat.mod_eq_of_lt (bounded (value, true) List.mem_cons_self)).symm
      | false =>
          exact ih (List.isChain_of_isChain_cons counted)
            fun item present => bounded item (List.mem_cons_of_mem _ present)

end DeletionGaps
