import Mathlib.Data.Multiset.AddSub

/-!
# Traces of acquired and released resources

What a piece of code holds behind it: its trace is replayed on the multiset of
held resources, where a release of something that is not held is an error. A
trace is followed act by act, so that the unwinding of a function is read in
the order in which it is written.
-/

set_option autoImplicit false

inductive ResourceAct (Resource : Type*) where
  | acquire (resource : Resource)
  | release (resource : Resource)
  deriving DecidableEq

abbrev ResourceTrace (Resource : Type*) := List (ResourceAct Resource)

namespace ResourceTrace

variable {Resource : Type*} [DecidableEq Resource]

def replay : Multiset Resource → ResourceTrace Resource → Option (Multiset Resource)
  | held, [] => some held
  | held, .acquire resource :: rest => replay (resource ::ₘ held) rest
  | held, .release resource :: rest =>
      if resource ∈ held then replay (held.erase resource) rest else none

/-- Whatever else is held, the trace releases only what it has acquired and
leaves this much of it. -/
def Leaves (trace : ResourceTrace Resource) (left : Multiset Resource) : Prop :=
  ∀ held, replay held trace = some (left + held)

/-- Everything acquired is released, each time once. -/
def Balanced (trace : ResourceTrace Resource) : Prop := Leaves trace 0

theorem replay_append (held : Multiset Resource) (first second : ResourceTrace Resource) :
    replay held (first ++ second) = (replay held first).bind fun between =>
      replay between second := by
  induction first generalizing held with
  | nil => rfl
  | cons act rest induction =>
      cases act with
      | acquire resource => exact induction _
      | release resource =>
          simp only [List.cons_append, replay]
          split_ifs
          · exact induction _
          · rfl

theorem leaves_nil : Leaves ([] : ResourceTrace Resource) 0 := by
  intro held
  rw [Multiset.zero_add]
  rfl

section Leaves

variable {trace second : ResourceTrace Resource} {left more : Multiset Resource}
  {resource : Resource}

theorem Leaves.append (leaves : Leaves trace left) (later : Leaves second more) :
    Leaves (trace ++ second) (more + left) := by
  intro held
  rw [replay_append, leaves, Option.bind_some, later, Multiset.add_assoc]

theorem Leaves.acquire (leaves : Leaves trace left) :
    Leaves (trace ++ [.acquire resource]) (resource ::ₘ left) := by
  intro held
  rw [replay_append, leaves, Option.bind_some, Multiset.cons_add]
  rfl

theorem Leaves.release (leaves : Leaves trace (resource ::ₘ left)) :
    Leaves (trace ++ [.release resource]) left := by
  intro held
  rw [replay_append, leaves, Option.bind_some, Multiset.cons_add, replay,
    if_pos (Multiset.mem_cons_self _ _), Multiset.erase_cons_head]
  rfl

theorem Leaves.swap {first other : Multiset Resource}
    (leaves : Leaves trace (first + (other + left))) : Leaves trace (other + (first + left)) := by
  rw [← Multiset.add_assoc, Multiset.add_comm other first, Multiset.add_assoc]
  exact leaves

theorem Leaves.unique (leaves : Leaves trace left) (also : Leaves trace more) : left = more := by
  have same := (leaves 0).symm.trans (also 0)
  rw [Multiset.add_zero, Multiset.add_zero] at same
  exact Option.some.inj same

theorem Leaves.balanced_iff (leaves : Leaves trace left) : Balanced trace ↔ left = 0 := by
  constructor
  · exact fun balanced => leaves.unique balanced
  · rintro rfl
    exact leaves

end Leaves

/-- Where it is not held already, the trace releases it once too often. -/
def Overreleases (trace : ResourceTrace Resource) (resource : Resource) : Prop :=
  ∀ held, resource ∉ held → replay held trace = none

section Overreleases

variable {trace second : ResourceTrace Resource} {left : Multiset Resource} {resource : Resource}

theorem Overreleases.append (excess : Overreleases trace resource)
    (second : ResourceTrace Resource) : Overreleases (trace ++ second) resource := by
  intro held absent
  rw [replay_append, excess held absent, Option.bind_none]

theorem Leaves.overrelease (leaves : Leaves trace left) (absent : resource ∉ left)
    (excess : Overreleases second resource) : Overreleases (trace ++ second) resource := by
  intro held free
  rw [replay_append, leaves, Option.bind_some]
  apply excess
  rw [Multiset.mem_add, not_or]
  exact ⟨absent, free⟩

theorem overreleases_release (resource : Resource) :
    Overreleases [ResourceAct.release resource] resource := by
  intro held absent
  rw [replay, if_neg absent]

theorem Overreleases.unbalanced (excess : Overreleases trace resource) : ¬Balanced trace := by
  intro balanced
  have stuck := (balanced 0).symm.trans (excess 0 (Multiset.notMem_zero _))
  cases stuck

end Overreleases

/-- Over several traces that each leave something definite behind, nothing is
left exactly when none of them leaves anything. -/
theorem balanced_flat_map_iff {Run : Type*} (runs : List Run)
    (trace : Run → ResourceTrace Resource) (left : Run → Multiset Resource)
    (leaves : ∀ run ∈ runs, Leaves (trace run) (left run)) :
    Balanced (runs.flatMap trace) ↔ ∀ run ∈ runs, left run = 0 := by
  have total : ∀ runs : List Run, (∀ run ∈ runs, Leaves (trace run) (left run)) →
      ∃ sum, Leaves (runs.flatMap trace) sum ∧ (sum = 0 ↔ ∀ run ∈ runs, left run = 0) := by
    intro runs
    induction runs with
    | nil => exact fun _ => ⟨0, leaves_nil, by simp⟩
    | cons run rest induction =>
        intro leaves
        obtain ⟨sum, following, none⟩ := induction fun other listed =>
          leaves other (List.mem_cons_of_mem _ listed)
        refine ⟨sum + left run, ?_, ?_⟩
        · rw [List.flatMap_cons]
          exact (leaves run List.mem_cons_self).append following
        · rw [← Multiset.card_eq_zero, Multiset.card_add, Nat.add_eq_zero_iff,
            Multiset.card_eq_zero, Multiset.card_eq_zero, none, List.forall_mem_cons, and_comm]
  obtain ⟨sum, whole, none⟩ := total runs leaves
  rw [whole.balanced_iff, none]

/-- Of a trace that leaves something definite, without `resource`, or releases that once too
often. -/
def Settles (trace : ResourceTrace Resource) (resource : Resource) : Prop :=
  (∃ left, Leaves trace left ∧ resource ∉ left) ∨ Overreleases trace resource

/-- Several such traces are balanced exactly when each of them is. -/
theorem balanced_flat_map_iff_each {Run : Type*} {resource : Resource} (runs : List Run)
    (trace : Run → ResourceTrace Resource)
    (settles : ∀ run ∈ runs, Settles (trace run) resource) :
    Balanced (runs.flatMap trace) ↔ ∀ run ∈ runs, Balanced (trace run) := by
  by_cases excess : ∃ run ∈ runs, Overreleases (trace run) resource
  · have whole : Overreleases (runs.flatMap trace) resource := by
      induction runs with
      | nil =>
          rcases excess with ⟨run, listed, _⟩
          cases listed
      | cons run rest induction =>
          rw [List.flatMap_cons]
          rcases settles run List.mem_cons_self with ⟨left, leaves, absent⟩ | first
          · have later : ∃ other ∈ rest, Overreleases (trace other) resource := by
              rcases excess with ⟨other, listed, beyond⟩
              rcases List.mem_cons.mp listed with same | listed
              · have stuck := beyond 0 (Multiset.notMem_zero _)
                rw [same, leaves] at stuck
                cases stuck
              · exact ⟨other, listed, beyond⟩
            exact leaves.overrelease absent (induction
              (fun other listed => settles other (List.mem_cons_of_mem _ listed)) later)
          · exact first.append _
    rcases excess with ⟨run, listed, beyond⟩
    constructor
    · exact fun balanced => absurd balanced whole.unbalanced
    · exact fun each => absurd (each run listed) beyond.unbalanced
  · have definite (run : Run) (listed : run ∈ runs) : ∃ left, Leaves (trace run) left := by
      rcases settles run listed with ⟨left, leaves, _⟩ | beyond
      · exact ⟨left, leaves⟩
      · exact absurd ⟨run, listed, beyond⟩ excess
    classical
    have leaves (run : Run) (listed : run ∈ runs) :
        Leaves (trace run) (if there : run ∈ runs then (definite run there).choose else 0) := by
      rw [dif_pos listed]
      exact (definite run listed).choose_spec
    rw [balanced_flat_map_iff runs trace _ leaves]
    constructor
    · intro none run listed
      exact (leaves run listed).balanced_iff.mpr (none run listed)
    · intro each run listed
      exact (leaves run listed).balanced_iff.mp (each run listed)

end ResourceTrace
