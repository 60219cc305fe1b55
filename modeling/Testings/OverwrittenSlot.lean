import Mathlib.Data.List.Basic

/-!
# A slot that is overwritten

One slot between a writer and a taker: `put` replaces what is pending, and
`take` delivers it and leaves the slot empty. Nothing is reordered or delivered
twice; everything offered comes out exactly when no pending list is replaced.
-/

set_option autoImplicit false

inductive SlotAct (Element : Type*) where
  | put (items : List Element)
  | take

structure OverwrittenSlot (Element : Type*) where
  pending : List Element
  delivered : List Element

namespace OverwrittenSlot

variable {Element : Type*}

/-- An empty list is not put: it leaves what is pending in place. -/
def act (slot : OverwrittenSlot Element) : SlotAct Element → OverwrittenSlot Element
  | .put [] => slot
  | .put (item :: items) => { slot with pending := item :: items }
  | .take => { pending := [], delivered := slot.delivered ++ slot.pending }

def run (slot : OverwrittenSlot Element) (acts : List (SlotAct Element)) :
    OverwrittenSlot Element :=
  acts.foldl act slot

def offered : List (SlotAct Element) → List Element
  | [] => []
  | .put items :: rest => items ++ offered rest
  | .take :: rest => offered rest

theorem offered_append (acts more : List (SlotAct Element)) :
    offered (acts ++ more) = offered acts ++ offered more := by
  induction acts with
  | nil => rfl
  | cons first rest induction =>
      cases first with
      | put items => simp only [List.cons_append, offered, induction, List.append_assoc]
      | take => exact induction

/-- Between two non-empty lists there is a `take`; the flag says whether one is
pending. -/
def TakenBetween : Bool → List (SlotAct Element) → Prop
  | _, [] => True
  | full, .put [] :: rest => TakenBetween full rest
  | full, .put (_ :: _) :: rest => full = false ∧ TakenBetween true rest
  | _, .take :: rest => TakenBetween false rest

/-- Everything that has gone into the slot and come out of it or is still there. -/
def kept (slot : OverwrittenSlot Element) : List Element := slot.delivered ++ slot.pending

@[simp] theorem run_cons (slot : OverwrittenSlot Element) (first : SlotAct Element)
    (rest : List (SlotAct Element)) : slot.run (first :: rest) = (slot.act first).run rest :=
  rfl

theorem kept_take (slot : OverwrittenSlot Element) : (slot.act .take).kept = slot.kept :=
  List.append_nil _

theorem kept_sublist (slot : OverwrittenSlot Element) (acts : List (SlotAct Element)) :
    (slot.run acts).kept.Sublist (slot.kept ++ offered acts) := by
  induction acts generalizing slot with
  | nil => exact List.sublist_append_left _ _
  | cons first rest induction =>
      rw [run_cons]
      apply (induction (slot.act first)).trans
      cases first with
      | take =>
          rw [kept_take]
          exact List.Sublist.refl _
      | put items =>
          cases items with
          | nil => exact List.Sublist.refl _
          | cons item items =>
              simp only [kept, act, offered, List.append_assoc]
              exact (List.sublist_append_right _ _).append_left _

/-- A replaced list is missing for good. -/
theorem kept_all_iff (slot : OverwrittenSlot Element) (acts : List (SlotAct Element))
    {full : Bool} (pending : full = false ↔ slot.pending = []) :
    (slot.run acts).kept = slot.kept ++ offered acts ↔ TakenBetween full acts := by
  induction acts generalizing slot full with
  | nil => simp [run, offered, TakenBetween]
  | cons first rest induction =>
      rw [run_cons]
      cases first with
      | take =>
          have emptied : false = false ↔ (slot.act .take).pending = [] := by simp [act]
          have same := induction (slot.act .take) emptied
          rw [kept_take] at same
          exact same
      | put items =>
          cases items with
          | nil => exact induction slot pending
          | cons item items =>
              have filled : true = false ↔ (slot.act (.put (item :: items))).pending = [] := by
                simp [act]
              have later := induction (slot.act (.put (item :: items))) filled
              have whole : (slot.act (.put (item :: items))).kept ++ offered rest =
                  slot.delivered ++ (item :: items ++ offered rest) := List.append_assoc _ _ _
              rw [whole] at later
              constructor
              · intro all
                have shorter := (kept_sublist (slot.act (.put (item :: items))) rest).length_le
                rw [all, whole] at shorter
                have nothing : slot.pending = [] := by
                  apply List.eq_nil_of_length_eq_zero
                  simp only [kept, offered, List.length_append] at shorter
                  omega
                refine ⟨pending.mpr nothing, later.mp ?_⟩
                rw [all, kept, nothing, List.append_nil]
                rfl
              · rintro ⟨empty, taken⟩
                rw [later.mpr taken, kept, pending.mp empty, List.append_nil]
                rfl

/-- With a last `take` everything offered has been delivered. -/
theorem delivered_all_iff (acts : List (SlotAct Element)) :
    ((⟨[], []⟩ : OverwrittenSlot Element).run (acts ++ [.take])).delivered = offered acts ↔
      TakenBetween false acts := by
  rw [← kept_all_iff ⟨[], []⟩ acts ⟨fun _ => rfl, fun _ => rfl⟩, run, List.foldl_append]
  exact Iff.rfl

end OverwrittenSlot
