import Mathlib.Data.List.Basic
import Mathlib.Tactic.SplitIfs

/-!
# Logs of loops that look back

A loop reads items one after the other and writes, for each, lines that depend on
the items it has seen before. Its log is a function of the history alone; what a
loop keeps to remember the history is the business of the loop.
-/

set_option autoImplicit false

namespace HistoryLog

variable {Item Line State : Type*}

/-- The last item that meets a test. -/
def latest (select : Item → Bool) (items : List Item) : Option Item :=
  (items.filter select).getLast?

theorem latest_concat (select : Item → Bool) (items : List Item) (item : Item) :
    latest select (items ++ [item]) =
      if select item then some item else latest select items := by
  unfold latest
  rw [List.filter_append]
  split_ifs with selected
  · rw [List.filter_cons_of_pos selected, List.filter_nil, List.getLast?_concat]
  · rw [List.filter_cons_of_neg selected, List.filter_nil, List.append_nil]

theorem latest_selected {select : Item → Bool} {items : List Item} {item : Item}
    (found : latest select items = some item) : select item = true :=
  (List.mem_filter.mp (List.mem_of_getLast? found)).2

theorem latest_of_mem {select : Item → Bool} {items : List Item} {item : Item}
    (present : item ∈ items) (selected : select item = true) :
    ∃ last, latest select items = some last := by
  have some_left : items.filter select ≠ [] :=
    List.ne_nil_of_mem (List.mem_filter.mpr ⟨present, selected⟩)
  exact ⟨_, List.getLast?_eq_some_getLast some_left⟩

theorem latest_mem {select : Item → Bool} {items : List Item} {item : Item}
    (found : latest select items = some item) : item ∈ items :=
  (List.mem_filter.mp (List.mem_of_getLast? found)).1

theorem latest_map {Other : Type*} (f : Other → Item) (select : Item → Bool)
    (items : List Other) :
    latest select (items.map f) = (latest (fun item => select (f item)) items).map f := by
  rw [latest, latest, List.filter_map, List.getLast?_map]
  rfl

/-- What is written for `items` when `before` have been read. -/
def emitted (emit : List Item → Item → List Line) : List Item → List Item → List Line
  | _, [] => []
  | before, item :: rest => emit before item ++ emitted emit (before ++ [item]) rest

theorem emitted_append (emit : List Item → Item → List Line) (before first second : List Item) :
    emitted emit before (first ++ second) =
      emitted emit before first ++ emitted emit (before ++ first) second := by
  induction first generalizing before with
  | nil => simp [emitted]
  | cons item rest ih => simp [emitted, ih]

theorem emitted_concat (emit : List Item → Item → List Line) (items : List Item) (item : Item) :
    emitted emit [] (items ++ [item]) = emitted emit [] items ++ emit items item := by
  simp [emitted_append, emitted]

theorem mem_emitted {emit : List Item → Item → List Line} {before items : List Item}
    {line : Line} :
    line ∈ emitted emit before items ↔
      ∃ first item last, items = first ++ item :: last ∧ line ∈ emit (before ++ first) item := by
  induction items generalizing before with
  | nil => simp [emitted]
  | cons head rest ih =>
      rw [emitted, List.mem_append, ih]
      constructor
      · rintro (here | ⟨first, item, last, rfl, later⟩)
        · exact ⟨[], head, rest, rfl, by simpa using here⟩
        · exact ⟨head :: first, item, last, rfl, by simpa using later⟩
      · rintro ⟨first, item, last, split, written⟩
        cases first with
        | nil =>
            obtain ⟨rfl, rfl⟩ : head = item ∧ rest = last := by simpa using split
            exact .inl (by simpa using written)
        | cons other first =>
            obtain ⟨rfl, rfl⟩ : head = other ∧ rest = first ++ item :: last := by simpa using split
            exact .inr ⟨first, item, last, rfl, by simpa using written⟩

/-- The log of a loop whose state always remembers enough of the history. -/
theorem fold_emitted {step : State → Item → State} (log : State → List Line)
    {emit : List Item → Item → List Line} (Remembers : List Item → State → Prop)
    (kept : ∀ before state item, Remembers before state →
      Remembers (before ++ [item]) (step state item) ∧
        log (step state item) = log state ++ emit before item)
    (items : List Item) {before : List Item} {state : State} (remembers : Remembers before state) :
    Remembers (before ++ items) (items.foldl step state) ∧
      log (items.foldl step state) = log state ++ emitted emit before items := by
  induction items generalizing before state with
  | nil => simpa [emitted] using remembers
  | cons item rest ih =>
      obtain ⟨stays, written⟩ := kept before state item remembers
      obtain ⟨final, all⟩ := ih stays
      refine ⟨by simpa using final, ?_⟩
      rw [List.foldl_cons, all, written, emitted, List.append_assoc]

/-- A loop that passes over the other items writes what it would write without them. -/
theorem emitted_filter (select : Item → Bool) {emit : List Item → Item → List Line}
    (onSelected : List Item → Item → List Line)
    (selected : ∀ before item, select item = true →
      emit before item = onSelected (before.filter select) item)
    (others : ∀ before item, select item = false → emit before item = [])
    (before items : List Item) :
    emitted emit before items =
      emitted onSelected (before.filter select) (items.filter select) := by
  induction items generalizing before with
  | nil => rfl
  | cons item rest ih =>
      rw [emitted, ih, List.filter_append]
      cases seen : select item with
      | true =>
          rw [selected before item seen, List.filter_cons_of_pos seen, List.filter_nil,
            List.filter_cons_of_pos seen, emitted]
      | false =>
          have passed : ¬select item = true := by simp [seen]
          rw [others before item seen, List.filter_cons_of_neg passed, List.filter_nil,
            List.filter_cons_of_neg passed, List.append_nil, List.nil_append]

theorem emitted_filter_map {Part : Type*} (f : Line → Option Part)
    (emit : List Item → Item → List Line) (before items : List Item) :
    (emitted emit before items).filterMap f =
      emitted (fun before item => (emit before item).filterMap f) before items := by
  induction items generalizing before with
  | nil => rfl
  | cons item rest ih => rw [emitted, List.filterMap_append, ih, emitted]

/-- Two loops that write one line per item write the same exactly when every line is. -/
theorem emitted_same_iff {write other : List Item → Item → Line} {before items : List Item} :
    emitted (fun before item => [write before item]) before items =
        emitted (fun before item => [other before item]) before items ↔
      ∀ first item last, items = first ++ item :: last →
        write (before ++ first) item = other (before ++ first) item := by
  induction items generalizing before with
  | nil => simp [emitted]
  | cons head rest ih =>
      rw [emitted, emitted, List.singleton_append, List.singleton_append, List.cons.injEq, ih]
      constructor
      · rintro ⟨here, later⟩ first item last split
        cases first with
        | nil =>
            obtain ⟨rfl, -⟩ : head = item ∧ rest = last := by simpa using split
            rwa [List.append_nil]
        | cons next first =>
            obtain ⟨rfl, remains⟩ : head = next ∧ rest = first ++ item :: last := by
              simpa using split
            simpa using later first item last remains
      · intro all
        refine ⟨by simpa using all [] head rest rfl, ?_⟩
        intro first item last split
        simpa using all (head :: first) item last (by rw [split, List.cons_append])

/-- Every item with the one before it. -/
def consecutive (items : List Item) : List (Item × Item) := items.zip items.tail

theorem consecutive_map {Other : Type*} (f : Item → Other) (items : List Item) :
    consecutive (items.map f) = (consecutive items).map (Prod.map f f) := by
  unfold consecutive
  rw [← List.map_tail, ← List.zip_map]

theorem mem_of_consecutive {items : List Item} {pair : Item × Item}
    (found : pair ∈ consecutive items) : pair.1 ∈ items ∧ pair.2 ∈ items := by
  obtain ⟨first, second⟩ := List.of_mem_zip (a := pair.1) (b := pair.2) found
  exact ⟨first, List.mem_of_mem_tail second⟩

/-- Nothing is written for the first item. -/
def followed (write : Item → Item → List Line) (before : List Item) (item : Item) : List Line :=
  match before.getLast? with
  | none => []
  | some previous => write previous item

theorem emitted_followed_after (write : Item → Item → List Line) (previous : Item)
    (before items : List Item) :
    emitted (followed write) (before ++ [previous]) items =
      (consecutive (previous :: items)).flatMap fun pair => write pair.1 pair.2 := by
  induction items generalizing previous before with
  | nil => rfl
  | cons item rest ih =>
      rw [emitted, ih, followed, List.getLast?_concat]
      rfl

theorem emitted_followed (write : Item → Item → List Line) (items : List Item) :
    emitted (followed write) [] items =
      (consecutive items).flatMap fun pair => write pair.1 pair.2 := by
  cases items with
  | nil => rfl
  | cons first rest => exact emitted_followed_after write first [] rest

end HistoryLog
