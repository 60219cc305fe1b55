import Testings.KeysSessions
import Testings.PressLog

/-!
# Presses and releases of keys

`onRelease` is emitted by the release event of a key and by the timer, which sweeps
the keys that are still marked as pressed. A log keeps the presses and what is
emitted; whether an autorepeated press counts as one is left open.
-/

set_option autoImplicit false

namespace Testings.Keys

open PressLog

def releasedKey : Signal → Option Nat
  | .onRelease key => some key
  | _ => none

/-- The `onRelease` signals that the event has added. -/
def newReleases (km next : KeysManager) : List Nat :=
  (next.signals.drop km.signals.length).filterMap releasedKey

/-- The press an event counts as: `counted` says that autorepeats do. -/
def presses (counted : Bool) : Event → List Nat
  | .keyPress code autorepeat _ =>
      if keyIndex code < keyUnknown ∧ (autorepeat = false ∨ counted = true) then [keyIndex code]
      else []
  | _ => []

/-- Releases of the keys up to `KEY_OK` are kept from the outside while an editor is active. -/
def Swallowed (km : KeysManager) (key : Nat) : Prop := km.editor.isSome ∧ key < keyK1

instance (km : KeysManager) (key : Nat) : Decidable (Swallowed km key) :=
  inferInstanceAs (Decidable (_ ∧ _))

/-- The keys of a list that are marked and not kept from the outside. -/
def sweptAmong (km : KeysManager) (keys : List Nat) : List Nat :=
  keys.filter fun key => km.keysPressed[key]? = some true ∧ ¬Swallowed km key

/-- The keys whose presses an event answers: a release event its own, and the timer
those that are marked. -/
def answered (km : KeysManager) : Event → List Nat
  | .keyRelease code autorepeat =>
      if autorepeat = false ∧ keyIndex code < keyUnknown ∧ ¬Swallowed km (keyIndex code) then
        [keyIndex code]
      else []
  | .timeout => sweptAmong km (List.range keyMax)
  | _ => []

/-- A release event without an unanswered press. Where autorepeats do not count, the
timer can also expire while a key is marked by them only. -/
def Stray (counted : Bool) (unanswered : List Nat) (km : KeysManager) : Event → Prop
  | .keyRelease code autorepeat =>
      ∃ key ∈ answered km (.keyRelease code autorepeat), key ∉ unanswered
  | .timeout => counted = false ∧ ∃ key ∈ answered km .timeout, key ∉ unanswered
  | _ => False

instance (counted : Bool) (unanswered : List Nat) (km : KeysManager) (event : Event) :
    Decidable (Stray counted unanswered km event) := by
  unfold Stray
  split <;> infer_instance

structure Releases where
  log : List (Item Nat)
  unanswered : List Nat
  stray : Bool
  deriving DecidableEq

def recordReleases (counted : Bool) (km : KeysManager) (event : Event) (next : KeysManager)
    (record : Releases) : Releases where
  log := record.log ++ (presses counted event).map .press ++ (newReleases km next).map .release
  unanswered :=
    (record.unanswered ++ presses counted event).filter fun key => key ∉ answered km event
  stray := record.stray || decide (Stray counted record.unanswered km event)

def logged (label : Option (List Char)) (counted : Bool) :
    StepSystem (KeysManager × Releases) Event :=
  (manager label).observe ⟨[], [], false⟩ (recordReleases counted)

/-- Signals are added, among them `onRelease` for these keys. -/
def Adds (km next : KeysManager) (keys : List Nat) : Prop :=
  ∃ added, next.signals = km.signals ++ added ∧ added.filterMap releasedKey = keys

theorem Adds.trans {km middle next : KeysManager} {first second : List Nat}
    (left : Adds km middle first) (right : Adds middle next second) :
    Adds km next (first ++ second) := by
  obtain ⟨before, signals, keys⟩ := left
  obtain ⟨after, more, others⟩ := right
  refine ⟨before ++ after, ?_, ?_⟩
  · rw [more, signals, List.append_assoc]
  · rw [List.filterMap_append, keys, others]

theorem Adds.releases {km next : KeysManager} {keys : List Nat} (adds : Adds km next keys) :
    newReleases km next = keys := by
  obtain ⟨added, signals, released⟩ := adds
  rw [newReleases, signals, List.drop_left, released]

/-- No `onRelease` is emitted and no mark changed. -/
structure Still (km next : KeysManager) : Prop where
  adds : Adds km next []
  marks : next.keysPressed = km.keysPressed

theorem Still.of_same {km next : KeysManager} (signals : next.signals = km.signals)
    (marks : next.keysPressed = km.keysPressed) : Still km next :=
  ⟨⟨[], by rw [signals, List.append_nil], rfl⟩, marks⟩

theorem still_emit (km : KeysManager) (signal : Signal) (other : releasedKey signal = none) :
    Still km (km.emit signal) := by
  refine ⟨⟨[signal], rfl, ?_⟩, rfl⟩
  rw [List.filterMap_cons, other]
  rfl

theorem set_shift_still (km : KeysManager) (fl : Bool) : Still km (km.setShift fl) :=
  ⟨⟨[.onShift fl], rfl, rfl⟩, rfl⟩

theorem KeysManager.Emits.still {km next : KeysManager} (emits : KeysManager.Emits km next) :
    Still km next := by
  obtain ⟨added, rfl, signals⟩ := emits
  refine ⟨⟨added, rfl, List.filterMap_eq_nil_iff.mpr ?_⟩, rfl⟩
  intro signal member
  cases signal with
  | onRelease => exact (signals _ member).elim
  | _ => rfl

theorem KeysManager.Edits.still {km next : KeysManager} (edits : KeysManager.Edits km next) :
    Still km next := by
  obtain ⟨added, flShift, editor, rfl, signals, _⟩ := edits
  refine ⟨⟨added, rfl, List.filterMap_eq_nil_iff.mpr ?_⟩, rfl⟩
  intro signal member
  cases signal with
  | onRelease => exact (signals _ member).elim
  | _ => rfl

theorem start_edit_still (km : KeysManager) (w : Option Widget) : Still km (km.startEdit w) := by
  unfold KeysManager.startEdit
  split
  · next w idle =>
      refine ⟨⟨[.onShift false, .onStartEdit w], ?_, rfl⟩, rfl⟩
      simp [KeysManager.emit, KeysManager.setShift, KeysManager.setText]
  · exact .of_same rfl rfl

theorem alpha_key_still {km next : KeysManager} {key : Nat}
    (taken : km.processAlphaKey key = some next) : Still km next := by
  obtain ⟨syms, _, digit | letter⟩ := KeysManager.alpha_key_cases taken
  · obtain ⟨_, editor, sym, _, _, rfl⟩ := digit
    obtain ⟨adds, marks⟩ := still_emit km (.commit editor sym) rfl
    exact ⟨adds, marks⟩
  · have selected : Still km (km.selectSymbol key syms) := by
      rw [KeysManager.selectSymbol]
      split <;> exact .of_same rfl rfl
    obtain ⟨_, rfl | ⟨_, rfl⟩⟩ := letter
    · exact selected
    · exact ⟨selected.adds, selected.marks⟩

/-- A press marks its key. -/
theorem key_press_still {km next : KeysManager} {key : Nat} {autorepeat slave : Bool}
    (taken : km.processKeyPress key autorepeat slave = some next) :
    ∃ inTable : key < keyMax,
      Still { km with timerRunning := true, keysPressed := km.keysPressed.set key true inTable }
        next := by
  unfold KeysManager.processKeyPress at taken
  split at taken
  case isFalse => cases taken
  case isTrue inTable =>
    refine ⟨inTable, ?_⟩
    dsimp only at taken
    split at taken
    · exact (KeysManager.outside_emits taken).still
    · split at taken
      · split at taken
        · exact alpha_key_still taken
        · split at taken
          · cases taken
            exact .of_same rfl rfl
          · cases taken
            exact (KeysManager.edit_key_edits _ _ key).still
      · exact (KeysManager.outside_emits taken).still

/-- What a real release of a key in the table leaves. -/
structure ReleasedKey (km : KeysManager) (key : Nat) (inTable : key < keyMax)
    (next : KeysManager) : Prop where
  adds : Adds km next (if Swallowed km key then [] else [key])
  marks : next.keysPressed = km.keysPressed.set key false inTable
  editor : next.editor = km.editor

theorem key_release_eq (km : KeysManager) {key : Nat} (inTable : key < keyMax) :
    ∃ next, km.processKeyRelease key false = some next ∧ ReleasedKey km key inTable next := by
  let cleared := { km with keysPressed := km.keysPressed.set key false inTable }
  obtain ⟨emitter, found⟩ : ∃ emitter, KeysManager.emittersRelease[key]? = some emitter :=
    ⟨_, List.getElem?_eq_getElem (by exact inTable)⟩
  have listed := List.mem_of_getElem? found
  unfold KeysManager.processKeyRelease
  rw [if_neg Bool.false_ne_true, dif_pos inTable]
  dsimp only
  by_cases swallowed : Swallowed km key
  · have both : (km.editor.isSome && decide (key < keyK1)) = true := by
      rw [swallowed.1, decide_eq_true swallowed.2]
      rfl
    rw [if_pos both]
    refine ⟨cleared, rfl, ?_, rfl, rfl⟩
    rw [if_pos swallowed]
    exact ⟨[], (List.append_nil _).symm, rfl⟩
  · have either : ¬(km.editor.isSome && decide (key < keyK1)) = true := by
      intro both
      obtain ⟨active, edit⟩ := Bool.and_eq_true_iff.mp both
      exact swallowed ⟨active, of_decide_eq_true edit⟩
    rw [if_neg either, found]
    have emits := KeysManager.release_emitter_emits listed cleared
    have still := emits.still
    have editor : (emitter.getD id cleared).editor = km.editor := by
      obtain ⟨_, same, _⟩ := emits
      rw [same]
    obtain ⟨added, signals, none⟩ := still.adds
    refine ⟨_, rfl, ?_, still.marks, editor⟩
    rw [if_neg swallowed]
    refine ⟨added ++ [.onRelease key], ?_, ?_⟩
    · simp only [KeysManager.emit]
      rw [signals, List.append_assoc]
    · rw [List.filterMap_append, none]
      rfl

theorem swallowed_congr {km next : KeysManager} (editor : next.editor = km.editor) (key : Nat) :
    Swallowed next key ↔ Swallowed km key := by
  unfold Swallowed
  rw [editor]

theorem swept_among_congr {km next : KeysManager} {keys : List Nat}
    (editor : next.editor = km.editor)
    (marks : ∀ key ∈ keys, next.keysPressed[key]? = km.keysPressed[key]?) :
    sweptAmong next keys = sweptAmong km keys := by
  apply List.filter_congr
  intro key member
  apply decide_eq_decide.mpr
  rw [marks key member, swallowed_congr editor]

/-- The timer releases the marked keys one after the other. -/
structure Swept (km : KeysManager) (keys : List Nat) (next : KeysManager) : Prop where
  adds : Adds km next (sweptAmong km keys)
  cleared : ∀ key ∈ keys, next.keysPressed[key]? ≠ some true
  others : ∀ key, key ∉ keys → next.keysPressed[key]? = km.keysPressed[key]?
  editor : next.editor = km.editor

theorem release_pressed_swept (km : KeysManager) {key : Nat} (inTable : key < keyMax) :
    ∃ next, km.releasePressed key = some next ∧ Swept km [key] next := by
  unfold KeysManager.releasePressed
  by_cases marked : km.keysPressed[key]? = some true
  · obtain ⟨next, released, adds, marks, editor⟩ := key_release_eq km inTable
    rw [if_pos marked]
    refine ⟨next, released, ?_, ?_, ?_, editor⟩
    · have among : sweptAmong km [key] = if Swallowed km key then [] else [key] := by
        unfold sweptAmong
        split_ifs with swallowed
        · exact List.filter_cons_of_neg (by simp [swallowed])
        · rw [List.filter_cons_of_pos (by simp [swallowed, marked])]
          rfl
      rw [among]
      exact adds
    · intro other member
      rw [List.mem_singleton.mp member, marks, Vector.getElem?_set, if_pos rfl]
      simp
    · intro other differs
      rw [marks, Vector.getElem?_set, if_neg fun same => differs (by rw [same]; simp)]
  · rw [if_neg marked]
    refine ⟨km, rfl, ?_, ?_, fun _ _ => rfl, rfl⟩
    · have none : sweptAmong km [key] = [] := List.filter_cons_of_neg (by simp [marked])
      rw [none]
      exact ⟨[], (List.append_nil _).symm, rfl⟩
    · intro other member
      rw [List.mem_singleton.mp member]
      exact marked

theorem releases_swept {keys : List Nat} (nodup : keys.Nodup)
    (inTable : ∀ key ∈ keys, key < keyMax) (km : KeysManager) :
    ∃ next, keys.foldlM KeysManager.releasePressed km = some next ∧ Swept km keys next := by
  induction keys generalizing km with
  | nil =>
      refine ⟨km, rfl, ⟨[], (List.append_nil _).symm, rfl⟩, ?_, fun _ _ => rfl, rfl⟩
      intro key member
      cases member
  | cons key rest ih =>
      obtain ⟨new, distinct⟩ := List.nodup_cons.mp nodup
      obtain ⟨middle, released, first⟩ :=
        release_pressed_swept km (inTable key List.mem_cons_self)
      obtain ⟨next, later, second⟩ :=
        ih distinct (fun other member => inTable other (List.mem_cons_of_mem _ member)) middle
      have unmarked (other : Nat) (member : other ∈ rest) :
          middle.keysPressed[other]? = km.keysPressed[other]? := by
        apply first.others
        rw [List.mem_singleton]
        intro same
        exact new (same ▸ member)
      refine ⟨next, ?_, ?_, ?_, ?_, second.editor.trans first.editor⟩
      · rw [List.foldlM_cons, released]
        exact later
      · have split : sweptAmong km (key :: rest) = sweptAmong km [key] ++ sweptAmong km rest := by
          rw [sweptAmong, ← List.singleton_append, List.filter_append]
          rfl
        rw [split, ← swept_among_congr first.editor unmarked]
        exact first.adds.trans second.adds
      · intro other member
        by_cases inRest : other ∈ rest
        · exact second.cleared other inRest
        · rw [second.others other inRest]
          cases List.mem_cons.mp member with
          | inl here => exact first.cleared other (List.mem_singleton.mpr here)
          | inr later => exact absurd later inRest
      · intro other outside
        rw [List.mem_cons, not_or] at outside
        rw [second.others other outside.2, first.others other]
        rw [List.mem_singleton]
        exact outside.1

/-- An expiration of the timer releases the swept keys and leaves no key marked. -/
theorem timer_swept {km next : KeysManager} (taken : km.timerEvent = some next) :
    Adds km next (answered km .timeout) ∧
      ∀ key : Nat, next.keysPressed[key]? ≠ some true := by
  have inTable (key : Nat) (member : key ∈ List.range keyMax) : key < keyMax :=
    List.mem_range.mp member
  obtain ⟨middle, released, adds, cleared, _, _⟩ :=
    releases_swept List.nodup_range inTable { km with timerRunning := false }
  simp only [KeysManager.timerEvent, released, Option.bind_eq_bind, Option.bind_some,
    Option.bind_eq_some_iff, Option.some.injEq] at taken
  obtain ⟨committed, commit, rfl⟩ := taken
  have still : Still middle committed := by
    unfold KeysManager.commitSymbol at commit
    split at commit
    · cases commit
      exact .of_same rfl rfl
    · split at commit
      · simp only [Option.bind_eq_bind, Option.bind_eq_some_iff, Option.some.injEq] at commit
        obtain ⟨_, _, _, _, rfl⟩ := commit
        exact still_emit middle _ rfl
      · cases commit
        exact .of_same rfl rfl
  constructor
  · obtain ⟨added, signals, keys⟩ := adds.trans still.adds
    rw [List.append_nil] at keys
    exact ⟨added, signals, keys⟩
  · intro key
    change committed.keysPressed[key]? ≠ some true
    rw [still.marks]
    by_cases inTable : key < keyMax
    · exact cleared key (List.mem_range.mpr inTable)
    · rw [Vector.getElem?_eq_none (by omega)]
      exact Option.some_ne_none _ ∘ Eq.symm

/-- The press that marks a key, be it an autorepeat. -/
theorem key_press_marks {km next : KeysManager} {key : Nat} {autorepeat slave : Bool}
    (taken : km.processKeyPress key autorepeat slave = some next) :
    Adds km next [] ∧ ∀ other : Nat, next.keysPressed[other]? = some true →
      km.keysPressed[other]? = some true ∨ other = key := by
  obtain ⟨inTable, adds, marks⟩ := key_press_still taken
  refine ⟨adds, ?_⟩
  intro other marked
  rw [marks, Vector.getElem?_set] at marked
  split_ifs at marked with same
  · exact .inr same.symm
  · exact .inl marked

theorem key_release_marks {km next : KeysManager} {key : Nat} {autorepeat : Bool}
    (known : key < keyUnknown)
    (taken : km.processKeyRelease key autorepeat = some next) :
    Adds km next (if autorepeat = false ∧ ¬Swallowed km key then [key] else []) ∧
      ∀ other : Nat, next.keysPressed[other]? = some true →
        km.keysPressed[other]? = some true ∧ (autorepeat = false → other ≠ key) := by
  cases autorepeat with
  | true =>
      cases taken
      refine ⟨⟨[], (List.append_nil _).symm, rfl⟩, ?_⟩
      intro other marked
      exact ⟨marked, fun none => by cases none⟩
  | false =>
      have inTable : key < keyMax := Nat.lt_of_lt_of_le known (by decide)
      obtain ⟨after, released, adds, marks, _⟩ := key_release_eq km inTable
      cases released.symm.trans taken
      refine ⟨?_, ?_⟩
      · by_cases swallowed : Swallowed km key
        · rw [if_neg fun both => both.2 swallowed]
          rw [if_pos swallowed] at adds
          exact adds
        · rw [if_pos ⟨rfl, swallowed⟩]
          rw [if_neg swallowed] at adds
          exact adds
      · intro other marked
        rw [marks, Vector.getElem?_set] at marked
        split_ifs at marked with same
        · cases marked
        · exact ⟨marked, fun _ => Ne.symm same⟩

/-- What an event emits, and which keys are marked after it. -/
structure Handled (km : KeysManager) (event : Event) (next : KeysManager) : Prop where
  adds : Adds km next (answered km event)
  marks : ∀ key : Nat, next.keysPressed[key]? = some true →
    key ∈ presses true event ∨ km.keysPressed[key]? = some true ∧ key ∉ answered km event

theorem Still.handled {km next : KeysManager} {event : Event} (still : Still km next)
    (none : answered km event = []) : Handled km event next where
  adds := none ▸ still.adds
  marks := by
    intro key marked
    rw [still.marks] at marked
    rw [none]
    exact .inr ⟨marked, List.not_mem_nil⟩

theorem handle_handled {km next : KeysManager} {event : Event}
    (taken : handle km event = some next) : Handled km event next := by
  cases event with
  | keyPress code autorepeat slave =>
      simp only [handle] at taken
      split at taken
      next known =>
        obtain ⟨adds, marks⟩ := key_press_marks taken
        refine ⟨adds, ?_⟩
        intro key marked
        cases marks key marked with
        | inl before => exact .inr ⟨before, List.not_mem_nil⟩
        | inr pressed =>
            left
            rw [presses, if_pos ⟨known, .inr rfl⟩]
            exact List.mem_singleton.mpr pressed
      next unknown =>
        cases taken
        exact Still.handled (.of_same rfl rfl) rfl
  | keyRelease code autorepeat =>
      simp only [handle] at taken
      split at taken
      next known =>
        obtain ⟨adds, marks⟩ := key_release_marks known taken
        have same : answered km (.keyRelease code autorepeat) =
            if autorepeat = false ∧ ¬Swallowed km (keyIndex code) then [keyIndex code] else [] := by
          simp only [answered, known, true_and]
        refine ⟨same ▸ adds, ?_⟩
        intro key marked
        obtain ⟨before, differs⟩ := marks key marked
        refine .inr ⟨before, ?_⟩
        rw [same]
        split_ifs with released
        · rw [List.mem_singleton]
          exact differs released.1
        · exact List.not_mem_nil
      next unknown =>
        cases taken
        apply Still.handled (.of_same rfl rfl)
        rw [answered, if_neg fun both => unknown both.2.1]
  | timeout =>
      obtain ⟨adds, cleared⟩ := timer_swept taken
      exact ⟨adds, fun key marked => absurd marked (cleared key)⟩
  | startEdit w =>
      cases taken
      exact (start_edit_still km w).handled rfl
  | stopEdit ok =>
      cases taken
      exact (KeysManager.stop_edit_edits km ok).still.handled rfl
  | setShift fl =>
      cases taken
      exact (set_shift_still km fl).handled rfl

structure ReleasesInv (counted : Bool) (state : KeysManager × Releases) : Prop where
  unanswered : ∀ key, held state.2.log key = true ↔ key ∈ state.2.unanswered
  marked : counted = true → ∀ key : Nat, state.1.keysPressed[key]? = some true →
    key ∈ state.2.unanswered
  once : ReleasedOnce state.2.log ↔ state.2.stray = false

theorem answered_nodup (km : KeysManager) (event : Event) : (answered km event).Nodup := by
  cases event with
  | keyRelease code autorepeat =>
      rw [answered]
      split_ifs
      · exact List.nodup_cons.mpr ⟨List.not_mem_nil, List.nodup_nil⟩
      · exact List.nodup_nil
  | timeout => exact List.nodup_range.filter _
  | keyPress | startEdit | stopEdit | setShift => exact List.nodup_nil

theorem swept_marked {km : KeysManager} {key : Nat} (member : key ∈ answered km .timeout) :
    km.keysPressed[key]? = some true :=
  (of_decide_eq_true (List.mem_filter.mp member).2).1

/-- An event is stray if it answers a press that is not there. -/
theorem stray_iff {counted : Bool} {km : KeysManager} {record : Releases}
    (inv : ReleasesInv counted (km, record)) (event : Event) :
    Stray counted record.unanswered km event ↔
      ¬∀ key ∈ answered km event, key ∈ record.unanswered ++ presses counted event := by
  cases event with
  | keyRelease code autorepeat =>
      simp only [Stray, presses, List.append_nil]
      push Not
      rfl
  | timeout =>
      simp only [Stray, presses, List.append_nil]
      push Not
      constructor
      · intro both
        exact both.2
      · intro missing
        refine ⟨?_, missing⟩
        obtain ⟨key, member, absent⟩ := missing
        by_contra autorepeats
        apply absent
        exact inv.marked (Bool.not_eq_false _ ▸ autorepeats) key (swept_marked member)
  | keyPress | startEdit | stopEdit | setShift =>
      simp only [Stray, false_iff, not_not]
      intro key member
      cases member

theorem releases_step {counted : Bool} {km next : KeysManager} {event : Event}
    {record : Releases} (before : ReleasesInv counted (km, record))
    (taken : handle km event = some next) :
    ReleasesInv counted (next, recordReleases counted km event next record) := by
  obtain ⟨adds, marks⟩ := handle_handled taken
  have pressed (key : Nat) :
      held (record.log ++ (presses counted event).map .press) key = true ↔
        key ∈ record.unanswered ++ presses counted event := by
    rw [held_presses, before.unanswered, List.mem_append]
  refine ⟨?_, ?_, ?_⟩
  · intro key
    simp only [recordReleases, adds.releases]
    rw [held_releases, pressed, List.mem_filter, decide_eq_true_iff]
  · intro autorepeats key marked
    simp only [recordReleases, List.mem_filter, List.mem_append, decide_eq_true_iff]
    subst autorepeats
    cases marks key marked with
    | inl new =>
        refine ⟨.inr new, ?_⟩
        cases event with
        | keyPress => exact List.not_mem_nil
        | keyRelease | timeout | startEdit | stopEdit | setShift => cases new
    | inr old => exact ⟨.inl (before.marked rfl key old.1), old.2⟩
  · simp only [recordReleases, adds.releases]
    rw [released_once_releases (answered_nodup km event), released_once_presses, before.once,
      Bool.or_eq_false_iff, decide_eq_false_iff_not, stray_iff before event, not_not]
    simp only [pressed]

theorem reachable_releases {label : Option (List Char)} {counted : Bool}
    {state : KeysManager × Releases} (reached : (logged label counted).Reachable state) :
    ReleasesInv counted state := by
  apply reached.invariant (ReleasesInv counted)
  · refine ⟨?_, ?_, ?_⟩
    · intro key
      exact iff_of_false Bool.false_ne_true List.not_mem_nil
    · intro _ key marked
      have unmarked : (constructed label).keysPressed[key]? ≠ some true := by
        simp [constructed, Vector.getElem?_replicate]
      exact absurd marked unmarked
    · refine iff_of_true ⟨?_, ?_⟩ rfl
      · intro key before after split
        exact absurd split.symm (List.append_ne_nil_of_right_ne_nil _ (List.cons_ne_nil _ _))
      · intro key before middle after split
        exact absurd split.symm (List.append_ne_nil_of_right_ne_nil _ (List.cons_ne_nil _ _))
  · apply StepSystem.observe_preserved
    intro km event next record before taken
    simp only [manager] at taken
    split at taken
    · exact releases_step before taken
    · cases taken

/-- Whether or not an autorepeat counts as a press: each press is released at most
once exactly in the runs without a stray event. -/
theorem press_released_once (label : Option (List Char)) (counted : Bool)
    (state : KeysManager × Releases) (reached : (logged label counted).Reachable state) :
    ReleasedOnce state.2.log ↔ state.2.stray = false :=
  (reachable_releases reached).once

theorem press_released_once_tap :
    ∃ state : KeysManager × Releases, state.2.log = [.press 17, .release 17] ∧
      ReleasedOnce state.2.log := by
  obtain ⟨state, reached, passes⟩ := StepSystem.reachable_of_run (logged none false)
    [.keyPress .pageUp false false, .keyRelease .pageUp false, .timeout]
    (fun state => decide (state.2.log = [.press 17, .release 17] ∧ state.2.stray = false))
    (by decide)
  obtain ⟨log, clean⟩ := of_decide_eq_true passes
  exact ⟨state, log, (press_released_once none false state reached).mpr clean⟩

/-- PTT is held for over a second: the timer releases it, and so does its release event. -/
theorem held_key_released_twice :
    ¬∀ (label : Option (List Char)) (counted : Bool) (state : KeysManager × Releases),
      (logged label counted).Reachable state → ReleasedOnce state.2.log := by
  intro always
  obtain ⟨state, reached, passes⟩ := StepSystem.reachable_of_run (logged none true)
    [.keyPress .pageUp false false, .timeout, .keyRelease .pageUp false]
    (fun state => decide (state.2.log = [.press 17, .release 17, .release 17])) (by decide)
  have once := always none true state reached
  have pressed := once.between 17 [.press 17] [] [] (of_decide_eq_true passes)
  exact absurd pressed List.not_mem_nil

end Testings.Keys
