import Mathlib.Data.List.Basic

/-!
# Loops that may break

A loop over a list whose body is a monadic step, left after the first turn whose
result meets a stop condition.
-/

set_option autoImplicit false

variable {m : Type → Type} [Monad m] {State Item : Type}

def foldUntil (stop : State → Bool) (step : State → Item → m State) :
    State → List Item → m State
  | state, [] => pure state
  | state, item :: rest => do
      let state ← step state item
      if stop state then pure state else foldUntil stop step state rest

/-- A loop that never breaks is the fold over the whole list. -/
theorem fold_until_never (step : State → Item → m State) (items : List Item) (state : State) :
    foldUntil (fun _ => false) step state items = items.foldlM step state := by
  induction items generalizing state with
  | nil => rfl
  | cons item rest ih =>
      simp only [foldUntil, List.foldlM_cons, ih]
      rfl

theorem fold_until_map {Other : Type} (stop : State → Bool) (step : State → Item → m State)
    (f : Other → Item) (items : List Other) (state : State) :
    foldUntil stop step state (items.map f) =
      foldUntil stop (fun state item => step state (f item)) state items := by
  induction items generalizing state with
  | nil => rfl
  | cons item rest ih => simp only [List.map_cons, foldUntil, ih]

/-- A loop that is left is the plain loop over the items it took. -/
theorem fold_until_split {Failure : Type} {stop : State → Bool}
    {step : State → Item → Except Failure State} {items : List Item} {state final : State}
    (runs : stop state = false) (ran : foldUntil stop step state items = .ok final) :
    ∃ taken rest, items = taken ++ rest ∧ taken.foldlM step state = .ok final ∧
      (rest = [] ∨ stop final = true) ∧
        ∀ before item after middle, taken = before ++ item :: after →
          before.foldlM step state = .ok middle → stop middle = false := by
  induction items generalizing state with
  | nil =>
      cases ran
      exact ⟨[], [], rfl, rfl, .inl rfl, fun before item after middle split => by
        cases before <;> cases split⟩
  | cons item rest ih =>
      cases stepped : step state item with
      | error failure =>
          rw [foldUntil, stepped] at ran
          cases ran
      | ok next =>
          rw [foldUntil, stepped] at ran
          change (if stop next = true then pure next else foldUntil stop step next rest) = _ at ran
          cases stopped : stop next with
          | true =>
              rw [if_pos stopped] at ran
              cases ran
              refine ⟨[item], rest, rfl, ?_, .inr stopped, ?_⟩
              · rw [List.foldlM_cons, stepped]
                rfl
              · intro before other after middle split reached
                cases before with
                | nil =>
                    cases reached
                    exact runs
                | cons head tail =>
                    have none_left : [] = tail ++ other :: after := (List.cons.inj split).2
                    cases tail <;> cases none_left
          | false =>
              have running : ¬stop next = true := by simp [stopped]
              rw [if_neg running] at ran
              obtain ⟨taken, left, split, reached, ended, before⟩ := ih stopped ran
              refine ⟨item :: taken, left, by rw [split, List.cons_append], ?_, ended, ?_⟩
              · rw [List.foldlM_cons, stepped]
                exact reached
              · intro earlier other after middle division came
                cases earlier with
                | nil =>
                    cases came
                    exact runs
                | cons head tail =>
                    obtain ⟨rfl, remains⟩ := List.cons.inj division
                    rw [List.foldlM_cons, stepped] at came
                    exact before tail other after middle remains came

section keeps

variable {Failure : Type} {step : State → Item → Except Failure State} {Good : State → Prop}

/-- No turn of the loop fails, and the invariant holds behind every one of them. -/
def KeepsGood (step : State → Item → Except Failure State) (Good : State → Prop) (state : State)
    (items : List Item) : Prop :=
  ∀ n, ∃ final, (items.take n).foldlM step state = .ok final ∧ Good final

theorem keeps_good_cons {state : State} {item : Item} {rest : List Item} (good : Good state) :
    KeepsGood step Good state (item :: rest) ↔
      ∃ next, step state item = .ok next ∧ KeepsGood step Good next rest := by
  constructor
  · intro keeps
    obtain ⟨next, stepped, _⟩ := keeps 1
    rw [List.take_succ_cons, List.take_zero, List.foldlM_cons] at stepped
    cases taken : step state item with
    | error failure =>
        rw [taken] at stepped
        cases stepped
    | ok after =>
        refine ⟨after, rfl, ?_⟩
        intro n
        obtain ⟨final, ran, kept⟩ := keeps (n + 1)
        rw [List.take_succ_cons, List.foldlM_cons, taken] at ran
        exact ⟨final, ran, kept⟩
  · intro taken n
    obtain ⟨next, stepped, keeps⟩ := taken
    cases n with
    | zero => exact ⟨state, rfl, good⟩
    | succ n =>
        obtain ⟨final, ran, kept⟩ := keeps n
        refine ⟨final, ?_, kept⟩
        rw [List.take_succ_cons, List.foldlM_cons, stepped]
        exact ran

theorem KeepsGood.start {state : State} {items : List Item}
    (keeps : KeepsGood step Good state items) : Good state := by
  obtain ⟨final, ran, good⟩ := keeps 0
  cases ran
  exact good

/-- Where one turn keeps the invariant exactly on some items, the loop does exactly on
lists of these. -/
theorem keeps_good_iff {Fits : Item → Prop}
    (one : ∀ state item, Good state →
      ((∃ next, step state item = .ok next ∧ Good next) ↔ Fits item))
    (items : List Item) {state : State} (good : Good state) :
    KeepsGood step Good state items ↔ ∀ item ∈ items, Fits item := by
  induction items generalizing state with
  | nil =>
      constructor
      · intro _ item member
        cases member
      · intro _ n
        rw [List.take_nil]
        exact ⟨state, rfl, good⟩
  | cons item rest ih =>
      rw [keeps_good_cons good, List.forall_mem_cons, ← one state item good]
      constructor
      · intro taken
        obtain ⟨next, stepped, keeps⟩ := taken
        exact ⟨⟨next, stepped, keeps.start⟩, (ih keeps.start).mp keeps⟩
      · intro fit
        obtain ⟨⟨next, stepped, kept⟩, others⟩ := fit
        exact ⟨next, stepped, (ih kept).mpr others⟩

end keeps
