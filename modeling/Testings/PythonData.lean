import Mathlib.Data.List.Nodup
import Mathlib.Data.List.Basic

/-!
# Python values and failures

Byte strings with checked indexing, slices that never fail, dictionaries in
insertion order, and computations that end in a value or in an exception.
`Returns` is the total-correctness judgment on such computations.
-/

set_option autoImplicit false

namespace Python

inductive Error where
  | indexError
  | keyError
  | valueError
  deriving DecidableEq

abbrev Py (α : Type) := Except Error α

/-- The computation raises nothing, and its value meets the postcondition. -/
def Returns {α : Type} (computation : Py α) (Post : α → Prop) : Prop :=
  ∃ value, computation = .ok value ∧ Post value

@[simp] theorem ok_bind {α β : Type} (value : α) (rest : α → Py β) :
    (Except.ok value >>= rest) = rest value :=
  rfl

section returns

variable {α β : Type} {Post Mid : α → Prop} {Last : β → Prop}

theorem Returns.pure {value : α} (holds : Post value) : Returns (Pure.pure value : Py α) Post :=
  ⟨value, rfl, holds⟩

theorem Returns.bind {first : Py α} {rest : α → Py β} (before : Returns first Mid)
    (after : ∀ value, Mid value → Returns (rest value) Last) : Returns (first >>= rest) Last := by
  obtain ⟨value, returned, holds⟩ := before
  rw [returned]
  exact after value holds

theorem Returns.weaken {computation : Py α} (returns : Returns computation Mid)
    (weaker : ∀ value, Mid value → Post value) : Returns computation Post := by
  obtain ⟨value, returned, holds⟩ := returns
  exact ⟨value, returned, weaker value holds⟩

theorem Returns.ite {condition : Prop} [Decidable condition] {yes no : Py α}
    (whenTrue : condition → Returns yes Post) (whenFalse : ¬condition → Returns no Post) :
    Returns (if condition then yes else no) Post := by
  split_ifs with holds
  · exact whenTrue holds
  · exact whenFalse holds

/-- What every turn of a loop keeps together with the items it has seen. -/
theorem Returns.foldlM {Item State : Type} {step : State → Item → Py State}
    (Inv : List Item → State → Prop)
    (kept : ∀ before state item, Inv before state →
      Returns (step state item) (Inv (before ++ [item])))
    (items : List Item) {before : List Item} {state : State} (holds : Inv before state) :
    Returns (items.foldlM step state) (Inv (before ++ items)) := by
  induction items generalizing before state with
  | nil =>
      rw [List.append_nil]
      exact .pure holds
  | cons item rest ih =>
      rw [List.foldlM_cons, List.append_cons]
      exact Returns.bind (kept before state item holds) fun next inv => ih inv

end returns

/-- The first computation ends as the second one does, with `f` of its value. -/
def Mirrors {α : Type} (f : α → α) (computation other : Py α) : Prop :=
  computation = other.map f

section mirrors

variable {α β : Type} {f : α → α} {g : β → β}

theorem Mirrors.pure {value other : α} (same : value = f other) :
    Mirrors f (Pure.pure value : Py α) (Pure.pure other) := by
  rw [same]
  rfl

/-- Both read the same first. -/
theorem Mirrors.read (first : Py β) {rest other : β → Py α}
    (after : ∀ value, Mirrors f (rest value) (other value)) :
    Mirrors f (first >>= rest) (first >>= other) := by
  cases first with
  | error failure => rfl
  | ok value => exact after value

theorem Mirrors.bind {first before : Py β} {rest other : β → Py α}
    (mirrored : Mirrors g first before)
    (after : ∀ value, Mirrors f (rest (g value)) (other value)) :
    Mirrors f (first >>= rest) (before >>= other) := by
  cases mirrored
  cases before with
  | error failure => rfl
  | ok value => exact after value

theorem Mirrors.ite {condition : Prop} [Decidable condition] {yes no yes' no' : Py α}
    (whenTrue : Mirrors f yes yes') (whenFalse : Mirrors f no no') :
    Mirrors f (if condition then yes else no) (if condition then yes' else no') := by
  split_ifs
  · exact whenTrue
  · exact whenFalse

theorem Mirrors.foldlM {Item : Type} {step : α → Item → Py α}
    (mirrored : ∀ state item, Mirrors f (step (f state) item) (step state item))
    (items : List Item) (state : α) :
    Mirrors f (items.foldlM step (f state)) (items.foldlM step state) := by
  induction items generalizing state with
  | nil => exact .pure rfl
  | cons item rest ih =>
      rw [List.foldlM_cons, List.foldlM_cons]
      exact (mirrored state item).bind ih

end mirrors

abbrev Bytes := List (BitVec 8)

def index (data : Bytes) (position : Nat) : Py Nat :=
  match data[position]? with
  | some byte => .ok byte.toNat
  | none => .error .indexError

def slice (data : Bytes) (first last : Nat) : Bytes := (data.take last).drop first

def sliceFrom (data : Bytes) (first : Nat) : Bytes := data.drop first

/-- `a, b, c = data` -/
def unpackThree : Bytes → Py (Nat × Nat × Nat)
  | [a, b, c] => .ok (a.toNat, b.toNat, c.toNat)
  | _ => .error .valueError

theorem index_eq {data : Bytes} {position : Nat} (inside : position < data.length) :
    index data position = .ok data[position].toNat := by
  rw [index, List.getElem?_eq_getElem inside]

theorem index_returns {data : Bytes} {position : Nat} (inside : position < data.length) :
    Returns (index data position) (· < 256) :=
  ⟨data[position].toNat, index_eq inside, data[position].isLt⟩

theorem index_get_d {data : Bytes} {position : Nat} (inside : position < data.length) :
    index data position = .ok (data.getD position 0).toNat := by
  rw [index_eq inside, List.getD_eq_getElem?_getD, List.getElem?_eq_getElem inside,
    Option.getD_some]

theorem index_append (before rest : Bytes) (position : Nat) :
    index (before ++ rest) (before.length + position) = index rest position := by
  rw [index, index, List.getElem?_append_right (Nat.le_add_right _ _), Nat.add_sub_cancel_left]

theorem slice_length {data : Bytes} {first last : Nat} (inside : last ≤ data.length) :
    (slice data first last).length = last - first := by
  rw [slice, List.length_drop, List.length_take, Nat.min_eq_left inside]

theorem slice_from_length (data : Bytes) (first : Nat) :
    (sliceFrom data first).length = data.length - first :=
  List.length_drop

theorem unpack_three_returns {data : Bytes} (three : data.length = 3) :
    Returns (unpackThree data) fun _ => True := by
  match data, three with
  | [a, b, c], _ => exact ⟨_, rfl, trivial⟩

section dict

variable {Key Value : Type} [DecidableEq Key]

/-- Assignment keeps the position of a key that is there and appends a new one. -/
def assignEntry (key : Key) (value : Value) : List (Key × Value) → List (Key × Value)
  | [] => [(key, value)]
  | entry :: rest =>
      if entry.1 = key then (key, value) :: rest else entry :: assignEntry key value rest

theorem assign_entry_keys (key : Key) (value : Value) (entries : List (Key × Value)) :
    (assignEntry key value entries).map Prod.fst =
      if key ∈ entries.map Prod.fst then entries.map Prod.fst
      else entries.map Prod.fst ++ [key] := by
  induction entries with
  | nil => simp [assignEntry]
  | cons entry rest ih =>
      by_cases same : entry.1 = key
      · simp [assignEntry, same]
      · have other : key ≠ entry.1 := Ne.symm same
        simp only [assignEntry, if_neg same, List.map_cons, ih, List.mem_cons, other, false_or]
        split_ifs <;> rfl

theorem assign_entry_find (key other : Key) (value : Value) (entries : List (Key × Value)) :
    ((assignEntry key value entries).find? fun entry => entry.1 = other).map Prod.snd =
      if key = other then some value
      else (entries.find? fun entry => entry.1 = other).map Prod.snd := by
  induction entries with
  | nil =>
      by_cases same : key = other
      · simp [assignEntry, same]
      · simp [assignEntry, same]
  | cons entry rest ih =>
      by_cases here : entry.1 = key
      · rw [assignEntry, if_pos here]
        by_cases same : key = other
        · simp [same]
        · have elsewhere : entry.1 ≠ other := here ▸ same
          simp [same, elsewhere]
      · rw [assignEntry, if_neg here]
        by_cases found : entry.1 = other
        · have differs : key ≠ other := fun same => here (found.trans same.symm)
          simp [found, differs]
        · simpa [found] using ih

end dict

structure Dict (Key Value : Type) where
  entries : List (Key × Value)
  keysNodup : (entries.map Prod.fst).Nodup
  deriving DecidableEq

namespace Dict

variable {Key Value : Type}

def empty : Dict Key Value := ⟨[], List.nodup_nil⟩

def keys (dict : Dict Key Value) : List Key := dict.entries.map Prod.fst

variable [DecidableEq Key]

def get? (dict : Dict Key Value) (key : Key) : Option Value :=
  (dict.entries.find? fun entry => entry.1 = key).map Prod.snd

def contains (dict : Dict Key Value) (key : Key) : Bool := (dict.get? key).isSome

/-- `dict[key]` -/
def get (dict : Dict Key Value) (key : Key) : Py Value :=
  match dict.get? key with
  | some value => .ok value
  | none => .error .keyError

/-- `dict[key] = value` -/
def assign (dict : Dict Key Value) (key : Key) (value : Value) : Dict Key Value where
  entries := assignEntry key value dict.entries
  keysNodup := by
    rw [assign_entry_keys]
    split_ifs with present
    · exact dict.keysNodup
    · exact List.nodup_append.mpr ⟨dict.keysNodup, List.nodup_singleton key,
        fun a member b single => by
          rw [List.mem_singleton.mp single]
          exact fun same => present (same ▸ member)⟩

/-- What `dict.pop(key, None)` leaves. -/
def pop (dict : Dict Key Value) (key : Key) : Dict Key Value where
  entries := dict.entries.filter fun entry => entry.1 ≠ key
  keysNodup := dict.keysNodup.sublist (List.filter_sublist.map Prod.fst)

theorem get_returns {dict : Dict Key Value} {key : Key} (present : dict.contains key = true) :
    Returns (dict.get key) fun value => dict.get? key = some value := by
  obtain ⟨value, found⟩ := Option.isSome_iff_exists.mp present
  exact ⟨value, by rw [get, found], found⟩

theorem get_empty (key : Key) : (empty : Dict Key Value).get? key = none := rfl

theorem get_assign (dict : Dict Key Value) (key other : Key) (value : Value) :
    (dict.assign key value).get? other = if key = other then some value else dict.get? other :=
  assign_entry_find key other value dict.entries

theorem get_pop (dict : Dict Key Value) (key other : Key) :
    (dict.pop key).get? other = if key = other then none else dict.get? other := by
  simp only [get?, pop, List.find?_filter]
  split_ifs with same
  · subst same
    simp
  · have both : (fun entry : Key × Value => decide (decide (entry.1 ≠ key) = true ∧
        decide (entry.1 = other) = true)) = fun entry => decide (entry.1 = other) := by
      funext entry
      by_cases found : entry.1 = other
      · have differs : entry.1 ≠ key := fun here => same (here.symm.trans found)
        simp [found, Ne.symm same]
      · simp [found]
    rw [both]

def count (dict : Dict Key Value) (test : Value → Bool) : Nat :=
  dict.entries.countP fun entry => test entry.2

theorem assign_entry_count (key : Key) (value : Value) (test : Value → Bool)
    (entries : List (Key × Value)) :
    (assignEntry key value entries).countP (fun entry => test entry.2) +
        (((entries.find? fun entry => entry.1 = key).map Prod.snd).any test).toNat =
      entries.countP (fun entry => test entry.2) + (test value).toNat := by
  induction entries with
  | nil => cases kind : test value <;> simp [assignEntry, kind]
  | cons entry rest ih =>
      by_cases here : entry.1 = key
      · rw [assignEntry, if_pos here, List.countP_cons, List.countP_cons]
        cases test value <;> cases old : test entry.2 <;> simp [here, old]
      · rw [assignEntry, if_neg here, List.countP_cons, List.countP_cons]
        simp only [List.find?_cons, decide_eq_false here]
        omega

theorem count_assign (dict : Dict Key Value) (key : Key) (value : Value) (test : Value → Bool) :
    (dict.assign key value).count test + ((dict.get? key).any test).toNat =
      dict.count test + (test value).toNat :=
  assign_entry_count key value test dict.entries

theorem pop_entries_count (key : Key) (test : Value → Bool) {entries : List (Key × Value)}
    (nodup : (entries.map Prod.fst).Nodup) :
    (entries.filter fun entry => entry.1 ≠ key).countP (fun entry => test entry.2) +
        (((entries.find? fun entry => entry.1 = key).map Prod.snd).any test).toNat =
      entries.countP (fun entry => test entry.2) := by
  induction entries with
  | nil => rfl
  | cons entry rest ih =>
      rw [List.map_cons, List.nodup_cons] at nodup
      by_cases here : entry.1 = key
      · have others : (rest.filter fun entry => entry.1 ≠ key) = rest := by
          rw [List.filter_eq_self]
          intro other member
          have differs : other.1 ≠ key := fun same =>
            nodup.1 (here.trans same.symm ▸ List.mem_map_of_mem member)
          simpa using differs
        rw [List.filter_cons_of_neg (by simpa using here), others, List.countP_cons]
        cases kind : test entry.2 <;> simp [here, kind]
      · rw [List.filter_cons_of_pos (by simpa using here), List.countP_cons, List.countP_cons]
        have later := ih nodup.2
        simp only [List.find?_cons, decide_eq_false here]
        omega

theorem count_pop (dict : Dict Key Value) (key : Key) (test : Value → Bool) :
    (dict.pop key).count test + ((dict.get? key).any test).toNat = dict.count test :=
  pop_entries_count key test dict.keysNodup

theorem pop_keys_entries (dict : Dict Key Value) (keys : List Key) :
    (keys.foldl pop dict).entries = dict.entries.filter fun entry => entry.1 ∉ keys := by
  induction keys generalizing dict with
  | nil => simp
  | cons key rest ih =>
      rw [List.foldl_cons, ih, pop, List.filter_filter]
      congr 1
      funext entry
      simp [Bool.and_comm]

/-- Nothing is left when every key has been taken out. -/
theorem pop_keys (dict : Dict Key Value) : (dict.keys.foldl pop dict).entries = [] := by
  rw [pop_keys_entries, List.filter_eq_nil_iff]
  intro entry member
  have listed : entry.1 ∈ dict.keys := List.mem_map_of_mem member
  simpa using listed

theorem count_pop_keys (dict : Dict Key Value) (test : Value → Bool) :
    (dict.keys.foldl pop dict).count test = 0 := by
  rw [count, pop_keys, List.countP_nil]

theorem get_pop_keys (dict : Dict Key Value) (key : Key) :
    (dict.keys.foldl pop dict).get? key = none := by
  rw [get?, pop_keys]
  rfl

theorem get_of_get? {dict : Dict Key Value} {key : Key} {value : Value}
    (found : dict.get? key = some value) : dict.get key = .ok value := by
  rw [get, found]

end Dict

end Python
