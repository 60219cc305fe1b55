import Mathlib.Data.List.SplitBy

/-!
# Groups of taps and a one-slot buffer

A tap is the press of a key or, as `none`, a pause. The groups of a tap
sequence are its longest runs of one key. A buffer with one slot counts the
presses of the key it holds and hands its group over at a pause; a press of
another key takes the slot and loses the group in it.
-/

set_option autoImplicit false

namespace TapGroups

variable {Key : Type*} [DecidableEq Key]

/-- A key with the number of its presses. -/
abbrev TapGroup (Key : Type*) := Key × Nat

/-- The maximal groups of consecutive presses of one key. -/
def groups (taps : List (Option Key)) : List (TapGroup Key) :=
  (taps.splitBy (· == ·)).filterMap fun run => run.head?.join.map fun key => (key, run.length)

/-- No press directly follows the press of another key. -/
def Separated (taps : List (Option Key)) : Prop :=
  taps.IsChain fun tap next => tap = none ∨ next = none ∨ tap = next

instance (taps : List (Option Key)) : Decidable (Separated taps) := by
  unfold Separated
  infer_instance

def press (slot : Option (TapGroup Key)) (key : Key) : TapGroup Key :=
  match slot with
  | some (held, n) => if held = key then (key, n + 1) else (key, 1)
  | none => (key, 1)

/-- The group that a press of this key takes the slot from. -/
def overwritten (slot : Option (TapGroup Key)) (key : Key) : Option (TapGroup Key) :=
  slot.filter fun group => group.1 ≠ key

/-- The groups that the buffer hands over. -/
def kept : Option (TapGroup Key) → List (Option Key) → List (TapGroup Key)
  | _, [] => []
  | slot, none :: rest => slot.toList ++ kept none rest
  | slot, some key :: rest => kept (some (press slot key)) rest

/-- The number of groups that are overwritten. -/
def lost : Option (TapGroup Key) → List (Option Key) → Nat
  | _, [] => 0
  | _, none :: rest => lost none rest
  | slot, some key :: rest =>
      (overwritten slot key).toList.length + lost (some (press slot key)) rest

/-- The groups of the taps, the first of them continuing the slot. -/
def groupsFrom : Option (TapGroup Key) → List (Option Key) → List (TapGroup Key)
  | slot, [] => slot.toList
  | slot, none :: rest => slot.toList ++ groupsFrom none rest
  | slot, some key :: rest =>
      (overwritten slot key).toList ++ groupsFrom (some (press slot key)) rest

def slotTaps : Option (TapGroup Key) → List (Option Key)
  | some (key, n) => List.replicate n (some key)
  | none => []

theorem groups_append {first second : List (Option Key)}
    (apart : ∀ tap ∈ first.getLast?, ∀ next ∈ second.head?, tap ≠ next) :
    groups (first ++ second) = groups first ++ groups second := by
  have boundary : ∀ tap ∈ first.getLast?, ∀ next ∈ second.head?, (tap == next) = false := by
    intro tap last next start
    exact beq_eq_false_iff_ne.mpr (apart tap last next start)
  rw [groups, List.splitBy_append boundary, List.filterMap_append]
  rfl

theorem groups_replicate (n : Nat) (tap : Option Key) :
    groups (List.replicate (n + 1) tap) = (tap.map fun key => (key, n + 1)).toList := by
  have chain : (List.replicate (n + 1) tap).IsChain fun tap next => (tap == next) = true :=
    List.isChain_replicate_of_rel _ (beq_self_eq_true tap)
  rw [groups, List.splitBy_of_isChain (by simp) chain]
  cases tap with
  | none => simp [List.replicate_succ]
  | some key => simp [List.replicate_succ]

theorem groups_pauses (n : Nat) (taps : List (Option Key)) :
    groups (List.replicate n none ++ taps) = groups taps := by
  induction taps generalizing n with
  | nil =>
      rw [List.append_nil]
      cases n with
      | zero => rfl
      | succ n => exact groups_replicate n none
  | cons tap rest induction =>
      cases tap with
      | none =>
          have moved : List.replicate n none ++ none :: rest =
              List.replicate (n + 1) none ++ rest := by
            rw [List.replicate_succ', List.append_assoc]
            rfl
          rw [moved, induction, ← induction 1]
          rfl
      | some key =>
          cases n with
          | zero => rfl
          | succ n =>
              have apart : ∀ tap ∈ (List.replicate (n + 1) (none : Option Key)).getLast?,
                  ∀ next ∈ (some key :: rest).head?, tap ≠ next := by
                simp [List.getLast?_replicate]
              rw [groups_append apart, groups_replicate]
              rfl

theorem groups_pause (taps : List (Option Key)) : groups (none :: taps) = groups taps :=
  groups_pauses 1 taps

/-- A slot holds at least one press. -/
def Counted (slot : Option (TapGroup Key)) : Prop := ∀ group ∈ slot, 0 < group.2

theorem counted_press (slot : Option (TapGroup Key)) (key : Key) :
    Counted (some (press slot key)) := by
  rintro _ ⟨⟩
  unfold press
  split
  · split <;> exact Nat.succ_pos _
  · exact Nat.one_pos

theorem groups_slot {slot : Option (TapGroup Key)} (counted : Counted slot) :
    groups (slotTaps slot) = slot.toList := by
  cases slot with
  | none => rfl
  | some group =>
      obtain ⟨key, n⟩ := group
      obtain ⟨n, rfl⟩ := Nat.exists_eq_succ_of_ne_zero (Nat.ne_of_gt (counted (key, n) rfl))
      exact groups_replicate n (some key)

omit [DecidableEq Key] in
theorem slot_taps_last {slot : Option (TapGroup Key)} {tap : Option Key}
    (last : tap ∈ (slotTaps slot).getLast?) : tap = slot.map Prod.fst := by
  cases slot with
  | none => cases last
  | some group =>
      have member := List.mem_of_getLast? last
      exact List.eq_of_mem_replicate member

theorem slot_taps_press {slot : Option (TapGroup Key)} {key : Key}
    (same : overwritten slot key = none) :
    slotTaps (some (press slot key)) = slotTaps slot ++ [some key] := by
  cases slot with
  | none => rfl
  | some group =>
      have held : group.1 = key := by simpa [overwritten] using same
      rw [press, if_pos held, slotTaps, slotTaps, held, List.replicate_succ']

theorem groups_from_slot (slot : Option (TapGroup Key)) (counted : Counted slot)
    (taps : List (Option Key)) : groupsFrom slot taps = groups (slotTaps slot ++ taps) := by
  induction taps generalizing slot with
  | nil => rw [groupsFrom, List.append_nil, groups_slot counted]
  | cons tap rest induction =>
      cases tap with
      | none =>
          have apart : ∀ tap ∈ (slotTaps slot).getLast?, ∀ next ∈ (none :: rest).head?,
              tap ≠ next := by
            rintro tap last _ ⟨⟩ rfl
            cases slot with
            | none => cases last
            | some group => cases slot_taps_last last
          rw [groups_append apart, groups_slot counted, groups_pause, groupsFrom,
            induction none nofun]
          rfl
      | some key =>
          rw [groupsFrom, induction _ (counted_press slot key)]
          cases gone : overwritten slot key with
          | none =>
              rw [slot_taps_press gone, List.append_assoc]
              rfl
          | some group =>
              obtain ⟨held, other⟩ := Option.filter_eq_some_iff.mp gone
              subst held
              have changed : group.1 ≠ key := of_decide_eq_true other
              have apart : ∀ tap ∈ (slotTaps (some group)).getLast?,
                  ∀ next ∈ (some key :: rest).head?, tap ≠ next := by
                rintro tap last _ ⟨⟩ rfl
                exact changed (Option.some.inj (slot_taps_last last)).symm
              rw [groups_append apart, groups_slot counted, press, if_neg changed]
              rfl

/-- Nothing is left in the slot at the end. -/
def Settled (slot : Option (TapGroup Key)) (taps : List (Option Key)) : Prop :=
  taps.getLast? = some none ∨ taps = [] ∧ slot = none

omit [DecidableEq Key] in
theorem Settled.empty {slot : Option (TapGroup Key)} (settled : Settled slot []) : slot = none := by
  rcases settled with last | ⟨_, empty⟩
  · cases last
  · exact empty

omit [DecidableEq Key] in
theorem Settled.pause {slot : Option (TapGroup Key)} {rest : List (Option Key)}
    (settled : Settled slot (none :: rest)) : Settled none rest := by
  cases rest with
  | nil => exact Or.inr ⟨rfl, rfl⟩
  | cons tap rest =>
      rcases settled with last | ⟨empty, _⟩
      · exact Or.inl last
      · cases empty

omit [DecidableEq Key] in
theorem Settled.press {slot after : Option (TapGroup Key)} {key : Key} {rest : List (Option Key)}
    (settled : Settled slot (some key :: rest)) : Settled after rest := by
  rcases settled with last | ⟨empty, _⟩
  · cases rest with
    | nil => cases last
    | cons tap rest => exact Or.inl last
  · cases empty

theorem kept_lost_length (slot : Option (TapGroup Key)) (taps : List (Option Key))
    (settled : Settled slot taps) :
    (kept slot taps).length + lost slot taps = (groupsFrom slot taps).length := by
  induction taps generalizing slot with
  | nil =>
      rw [settled.empty]
      rfl
  | cons tap rest induction =>
      cases tap with
      | none =>
          have later := induction none settled.pause
          simp only [kept, lost, groupsFrom, List.length_append]
          omega
      | some key =>
          have later := induction (some (press slot key)) settled.press
          simp only [kept, lost, groupsFrom, List.length_append]
          omega

theorem kept_of_lost_none (slot : Option (TapGroup Key)) (taps : List (Option Key))
    (settled : Settled slot taps) (nothing : lost slot taps = 0) :
    kept slot taps = groupsFrom slot taps := by
  induction taps generalizing slot with
  | nil =>
      rw [settled.empty]
      rfl
  | cons tap rest induction =>
      cases tap with
      | none => rw [kept, groupsFrom, induction none settled.pause nothing]
      | some key =>
          obtain ⟨empty, later⟩ := Nat.add_eq_zero_iff.mp nothing
          rw [kept, groupsFrom, induction _ settled.press later, List.length_eq_zero_iff.mp empty]
          rfl

theorem overwritten_none_iff (slot : Option (TapGroup Key)) (key : Key) :
    (overwritten slot key).toList.length = 0 ↔
      slot.map Prod.fst = none ∨ slot.map Prod.fst = some key := by
  cases slot with
  | none => simp [overwritten]
  | some group => simp [overwritten]

theorem press_key (slot : Option (TapGroup Key)) (key : Key) : (press slot key).1 = key := by
  unfold press
  split
  · split <;> rfl
  · rfl

theorem lost_none_iff (slot : Option (TapGroup Key)) (taps : List (Option Key)) :
    lost slot taps = 0 ↔ Separated (slot.map Prod.fst :: taps) := by
  induction taps generalizing slot with
  | nil => simp [lost, Separated]
  | cons tap rest induction =>
      rw [Separated, List.isChain_cons_cons]
      cases tap with
      | none =>
          rw [lost, induction none]
          simp [Separated]
      | some key =>
          rw [lost, Nat.add_eq_zero_iff, overwritten_none_iff, induction, Option.map_some,
            press_key]
          simp [Separated]

omit [DecidableEq Key] in
theorem separated_slot_taps {slot : Option (TapGroup Key)} (counted : Counted slot)
    (taps : List (Option Key)) :
    Separated (slotTaps slot ++ taps) ↔ Separated (slot.map Prod.fst :: taps) := by
  unfold Separated
  cases slot with
  | none =>
      rw [Option.map_none, List.isChain_cons]
      simp [slotTaps]
  | some group =>
      obtain ⟨key, n⟩ := group
      obtain ⟨n, rfl⟩ := Nat.exists_eq_succ_of_ne_zero (Nat.ne_of_gt (counted (key, n) rfl))
      have repeated : (List.replicate (n + 1) (some key)).IsChain
          fun tap next => tap = none ∨ next = none ∨ tap = next :=
        List.isChain_replicate_of_rel _ (Or.inr (Or.inr rfl))
      rw [slotTaps, List.isChain_append, List.isChain_cons]
      simp [repeated, List.getLast?_replicate, and_comm]

theorem lost_nothing_iff {slot : Option (TapGroup Key)} (counted : Counted slot)
    (taps : List (Option Key)) :
    lost slot taps = 0 ↔ Separated (slotTaps slot ++ taps) := by
  rw [lost_none_iff, separated_slot_taps counted]

/-- After a last pause the buffer has handed over every group, if no press
directly followed the press of another key. -/
theorem kept_groups {slot : Option (TapGroup Key)} (counted : Counted slot)
    {taps : List (Option Key)} (settled : taps.getLast? = some none)
    (separated : Separated (slotTaps slot ++ taps)) :
    kept slot taps = groups (slotTaps slot ++ taps) := by
  have nothing : lost slot taps = 0 := (lost_nothing_iff counted taps).mpr separated
  rw [kept_of_lost_none slot taps (Or.inl settled) nothing]
  exact groups_from_slot slot counted taps

/-- Otherwise it has handed over fewer groups. -/
theorem separated_of_kept_length {slot : Option (TapGroup Key)} (counted : Counted slot)
    {taps : List (Option Key)} (settled : taps.getLast? = some none)
    (same : (kept slot taps).length = (groups (slotTaps slot ++ taps)).length) :
    Separated (slotTaps slot ++ taps) := by
  have lengths := kept_lost_length slot taps (Or.inl settled)
  rw [groups_from_slot slot counted taps] at lengths
  apply (lost_nothing_iff counted taps).mp
  omega

end TapGroups
