import Mathlib.Data.List.Induction
import Mathlib.Tactic.SplitIfs

/-!
# Logs of presses and releases

A key is held in a log if its last item is a press. Each press is released at most
once exactly if every release is of a key that is held before it.
-/

set_option autoImplicit false

namespace PressLog

variable {Key : Type*}

inductive Item (Key : Type*) where
  | press (key : Key)
  | release (key : Key)
  deriving DecidableEq

/-- Between two releases of a key it is pressed, and before its first one too. -/
structure ReleasedOnce (log : List (Item Key)) : Prop where
  pressed : ∀ key before after, log = before ++ .release key :: after → .press key ∈ before
  between : ∀ key before middle after,
    log = before ++ .release key :: (middle ++ .release key :: after) → .press key ∈ middle

variable [DecidableEq Key]

def holdsAfter (key : Key) (held : Bool) : Item Key → Bool
  | .press other => held || other == key
  | .release other => held && other != key

def held (log : List (Item Key)) (key : Key) : Bool := log.foldl (holdsAfter key) false

theorem held_concat (log : List (Item Key)) (item : Item Key) (key : Key) :
    held (log ++ [item]) key = holdsAfter key (held log key) item := by
  rw [held, List.foldl_append]
  rfl

theorem held_release_other {log : List (Item Key)} {key other : Key} (differ : other ≠ key) :
    held (log ++ [.release other]) key = held log key := by
  rw [held_concat, holdsAfter, bne_iff_ne.mpr differ, Bool.and_true]

theorem holds_after_other {key : Key} {item : Item Key} {before : Bool}
    (press : item ≠ .press key) (release : item ≠ .release key) :
    holdsAfter key before item = before := by
  cases item with
  | press other =>
      have differ : (other == key) = false := beq_eq_false_iff_ne.mpr fun same =>
        press (congrArg Item.press same)
      rw [holdsAfter, differ, Bool.or_false]
  | release other =>
      have differ : other ≠ key := fun same => release (congrArg Item.release same)
      rw [holdsAfter, bne_iff_ne.mpr differ, Bool.and_true]

/-- Where a log that is one item longer can be split. -/
theorem concat_eq_split {Item : Type*} {log before after : List Item} {last item : Item} :
    log ++ [last] = before ++ item :: after ↔
      after = [] ∧ log = before ∧ last = item ∨
        ∃ rest, after = rest ++ [last] ∧ log = before ++ item :: rest := by
  constructor
  · intro same
    cases after using List.reverseRecOn with
    | nil =>
        obtain ⟨log, last⟩ := List.append_inj' same rfl
        exact .inl ⟨rfl, log, (List.cons.inj last).1⟩
    | append_singleton rest other =>
        rw [← List.cons_append, ← List.append_assoc] at same
        obtain ⟨log, last⟩ := List.append_inj' same rfl
        exact .inr ⟨rest, by rw [(List.cons.inj last).1], log⟩
  · intro split
    cases split with
    | inl here =>
        obtain ⟨none, log, last⟩ := here
        rw [none, log, last]
    | inr later =>
        obtain ⟨rest, rfl, rfl⟩ := later
        rw [List.append_assoc, List.cons_append]

/-- A key that is not held has not been pressed since its last release. -/
theorem not_held_iff {log : List (Item Key)} {key : Key} :
    held log key = false ↔
      .press key ∉ log ∨
        ∃ before after, log = before ++ .release key :: after ∧ .press key ∉ after := by
  induction log using List.reverseRecOn with
  | nil => exact ⟨fun _ => .inl List.not_mem_nil, fun _ => rfl⟩
  | append_singleton log item ih =>
      rw [held_concat]
      by_cases press : item = .press key
      · subst press
        have pressed : holdsAfter key (held log key) (.press key) = true := by
          rw [holdsAfter, beq_self_eq_true, Bool.or_true]
        rw [pressed]
        constructor
        · intro none
          cases none
        · intro unpressed
          cases unpressed with
          | inl never => exact absurd (List.mem_append_right _ List.mem_cons_self) never
          | inr released =>
              obtain ⟨before, after, split, never⟩ := released
              cases concat_eq_split.mp split with
              | inl last => cases last.2.2
              | inr later =>
                  obtain ⟨rest, same, _⟩ := later
                  rw [same] at never
                  exact absurd (List.mem_append_right _ List.mem_cons_self) never
      · by_cases release : item = .release key
        · subst release
          have released : holdsAfter key (held log key) (.release key) = false := by
            rw [holdsAfter, bne_self_eq_false, Bool.and_false]
          rw [released]
          exact ⟨fun _ => .inr ⟨log, [], rfl, List.not_mem_nil⟩, fun _ => rfl⟩
        · rw [holds_after_other press release, ih]
          have other : (.press key ∉ log ++ [item]) ↔ .press key ∉ log := by
            rw [List.mem_append, List.mem_singleton, or_iff_left (Ne.symm press)]
          rw [other]
          apply or_congr_right
          constructor
          · intro released
            obtain ⟨before, after, rfl, never⟩ := released
            refine ⟨before, after ++ [item], by rw [List.append_assoc, List.cons_append], ?_⟩
            rw [List.mem_append, List.mem_singleton, or_iff_left (Ne.symm press)]
            exact never
          · intro released
            obtain ⟨before, after, split, never⟩ := released
            cases concat_eq_split.mp split with
            | inl last => exact absurd last.2.2 release
            | inr later =>
                obtain ⟨rest, rfl, same⟩ := later
                exact ⟨before, rest, same, fun member => never (List.mem_append_left _ member)⟩

theorem held_iff {log : List (Item Key)} {key : Key} :
    held log key = true ↔
      .press key ∈ log ∧
        ∀ before after, log = before ++ .release key :: after → .press key ∈ after := by
  rw [← Bool.not_eq_false, not_held_iff]
  push Not
  rfl

/-- A release is of a key that is held. -/
theorem released_once_concat {log : List (Item Key)} {item : Item Key} :
    ReleasedOnce (log ++ [item]) ↔
      ReleasedOnce log ∧ ∀ key, item = .release key → held log key = true := by
  constructor
  · intro once
    refine ⟨⟨?_, ?_⟩, ?_⟩
    · intro key before after split
      apply once.pressed key before (after ++ [item])
      rw [split, List.append_assoc, List.cons_append]
    · intro key before middle after split
      apply once.between key before middle (after ++ [item])
      rw [split, List.append_assoc, List.cons_append, List.append_assoc, List.cons_append]
    · intro key released
      subst released
      refine held_iff.mpr ⟨once.pressed key log [] rfl, ?_⟩
      intro before middle split
      apply once.between key before middle []
      rw [split, List.append_assoc, List.cons_append]
  · intro both
    obtain ⟨once, last⟩ := both
    constructor
    · intro key before after split
      cases concat_eq_split.mp split with
      | inl here =>
          obtain ⟨_, rfl, released⟩ := here
          exact (held_iff.mp (last key released)).1
      | inr later =>
          obtain ⟨rest, _, same⟩ := later
          exact once.pressed key before rest same
    · intro key before middle after split
      cases concat_eq_split.mp split with
      | inl here =>
          have behind := List.append_ne_nil_of_right_ne_nil middle
            (List.cons_ne_nil (Item.release key) after)
          exact absurd here.1 behind
      | inr later =>
          obtain ⟨rest, behind, same⟩ := later
          cases concat_eq_split.mp behind.symm with
          | inl here =>
              obtain ⟨_, rfl, released⟩ := here
              exact (held_iff.mp (last key released)).2 before rest same
          | inr further =>
              obtain ⟨end_, _, inner⟩ := further
              exact once.between key before middle end_ (inner ▸ same)

theorem released_once_press {log : List (Item Key)} {key : Key} :
    ReleasedOnce (log ++ [.press key]) ↔ ReleasedOnce log := by
  rw [released_once_concat]
  exact and_iff_left fun _ same => by cases same

theorem released_once_presses {log : List (Item Key)} {keys : List Key} :
    ReleasedOnce (log ++ keys.map .press) ↔ ReleasedOnce log := by
  induction keys generalizing log with
  | nil => simp
  | cons key rest ih => rw [List.map_cons, List.append_cons, ih, released_once_press]

theorem held_presses {log : List (Item Key)} {keys : List Key} {key : Key} :
    held (log ++ keys.map .press) key = true ↔ held log key = true ∨ key ∈ keys := by
  induction keys generalizing log with
  | nil => simp
  | cons first rest ih =>
      rw [List.map_cons, List.append_cons, ih, held_concat, holdsAfter, Bool.or_eq_true,
        beq_iff_eq, List.mem_cons, or_assoc, @eq_comm _ first key]

theorem released_once_release {log : List (Item Key)} {key : Key} :
    ReleasedOnce (log ++ [.release key]) ↔ ReleasedOnce log ∧ held log key = true := by
  rw [released_once_concat]
  constructor
  · intro both
    exact ⟨both.1, both.2 key rfl⟩
  · intro both
    refine ⟨both.1, ?_⟩
    intro other same
    cases same
    exact both.2

/-- Different keys released one after the other. -/
theorem released_once_releases {log : List (Item Key)} {keys : List Key} (nodup : keys.Nodup) :
    ReleasedOnce (log ++ keys.map .release) ↔
      ReleasedOnce log ∧ ∀ key ∈ keys, held log key = true := by
  induction keys generalizing log with
  | nil => simp
  | cons key rest ih =>
      obtain ⟨new, distinct⟩ := List.nodup_cons.mp nodup
      rw [List.map_cons, List.append_cons, ih distinct, released_once_release,
        List.forall_mem_cons, and_assoc]
      apply and_congr_right
      intro _
      apply and_congr_right
      intro _
      have others (other : Key) (member : other ∈ rest) :
          held (log ++ [.release key]) other = held log other := by
        apply held_release_other
        intro same
        exact new (same.symm ▸ member)
      constructor
      · intro all other member
        rw [← others other member]
        exact all other member
      · intro all other member
        rw [others other member]
        exact all other member

theorem held_releases {log : List (Item Key)} {keys : List Key} {key : Key} :
    held (log ++ keys.map .release) key = true ↔ held log key = true ∧ key ∉ keys := by
  induction keys generalizing log with
  | nil => simp
  | cons first rest ih =>
      rw [List.map_cons, List.append_cons, ih, held_concat, holdsAfter, Bool.and_eq_true,
        bne_iff_ne, List.mem_cons, not_or, and_assoc, ne_comm]

end PressLog
