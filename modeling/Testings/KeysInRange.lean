import Testings.KeysReleases

/-!
# Indices of the key manager

The current key is a key of the symbol table or `KEY_UNKNOWN`, and the selected symbol
is one of its symbols. With this no event indexes a table out of its range or fails the
`assert` of the timer.
-/

set_option autoImplicit false

namespace Testings.Keys

def AlphaKnown (km : KeysManager) : Prop :=
  km.currentAlphaKey = keyUnknown ∨ km.currentAlphaKey ≤ keyOk

theorem Typed.alpha_known {km next : KeysManager} {key : Nat} (typed : Typed km key next)
    (alphaKey : key ≤ keyOk) : AlphaKnown next := by
  unfold AlphaKnown
  rw [typed.alpha]
  split_ifs
  · exact .inl rfl
  · exact .inr alphaKey

theorem Untyped.alpha_known {km next : KeysManager} (untyped : Untyped km next)
    (before : AlphaKnown km) : AlphaKnown next := by
  unfold AlphaKnown
  rw [untyped.alpha]
  exact before

theorem start_edit_alpha (km : KeysManager) (w : Option Widget) :
    (km.startEdit w).currentAlphaKey = km.currentAlphaKey := by
  unfold KeysManager.startEdit
  split <;> rfl

theorem handle_alpha_known {km next : KeysManager} {event : Event} (before : AlphaKnown km)
    (taken : handle km event = some next) : AlphaKnown next := by
  cases event with
  | keyPress code autorepeat slave =>
      simp only [handle] at taken
      split at taken
      · have pressed := key_press_typed taken
        split_ifs at pressed with alphaKey
        · exact pressed.alpha_known alphaKey.2
        · exact pressed.alpha_known before
      · cases taken
        exact before
  | keyRelease code autorepeat =>
      simp only [handle] at taken
      split at taken
      · exact (key_release_untyped taken).alpha_known before
      · cases taken
        exact before
  | timeout => exact .inl (timer_expired taken).1
  | startEdit w =>
      cases taken
      unfold AlphaKnown
      rw [start_edit_alpha]
      exact before
  | stopEdit ok =>
      cases taken
      exact (KeysManager.stop_edit_edits km ok).untyped.alpha_known before
  | setShift fl =>
      cases taken
      exact before

theorem alpha_symbols {key : Nat} (alphaKey : key ≤ keyOk) :
    ∃ syms, sSymbols[key]? = some syms := by
  have inTable : key < sSymbols.length := Nat.lt_of_le_of_lt alphaKey (by decide)
  exact ⟨sSymbols[key], List.getElem?_eq_getElem inTable⟩

theorem alpha_key_in_range {km : KeysManager} {editor : Widget} {key : Nat}
    (selected : km.SymSelected) (active : km.editor = some editor) (alphaKey : key ≤ keyOk) :
    ∃ next, km.processAlphaKey key = some next := by
  obtain ⟨syms, found⟩ := alpha_symbols alphaKey
  have nonempty := KeysManager.symbols_nonempty found
  simp only [KeysManager.processAlphaKey, found, active, Option.bind_eq_bind, Option.bind_some]
  split
  · rw [List.getElem?_eq_getElem nonempty]
    exact ⟨_, rfl⟩
  · obtain ⟨current, _, _⟩ := select_symbol_frame km key syms
    have after := KeysManager.select_symbol_selects selected found
    obtain ⟨_, inside⟩ := after syms (current.symm ▸ found)
    split
    · exact ⟨_, rfl⟩
    · rw [List.getElem?_eq_getElem inside]
      exact ⟨_, rfl⟩

/-- Every key of the table has its emitter. -/
theorem outside_in_range (km : KeysManager) {key : Nat} (inTable : key < keyMax)
    (autorepeat slave : Bool) :
    ∃ next, (if autorepeat then some km
      else if slave then some (km.emit (.animateClick key))
      else KeysManager.emitters[key]?.map fun emitter => (emitter km).emit (.onKey key)) =
        some next := by
  have listed : key < KeysManager.emitters.length := inTable
  split_ifs
  · exact ⟨km, rfl⟩
  · exact ⟨_, rfl⟩
  · rw [List.getElem?_eq_getElem listed]
    exact ⟨_, rfl⟩

theorem key_press_in_range {km : KeysManager} {key : Nat} (selected : km.SymSelected)
    (inTable : key < keyMax) (autorepeat slave : Bool) :
    ∃ next, km.processKeyPress key autorepeat slave = some next := by
  rw [KeysManager.processKeyPress, dif_pos inTable]
  dsimp only
  split
  · exact outside_in_range _ inTable autorepeat slave
  · next editor active =>
      split
      · split
        · next alphaKey => exact alpha_key_in_range selected active alphaKey
        · split
          · exact ⟨_, rfl⟩
          · exact ⟨_, rfl⟩
      · exact outside_in_range _ inTable autorepeat slave

theorem key_release_in_range (km : KeysManager) {key : Nat} (inTable : key < keyMax)
    (autorepeat : Bool) : ∃ next, km.processKeyRelease key autorepeat = some next := by
  cases autorepeat with
  | true => exact ⟨km, rfl⟩
  | false =>
      obtain ⟨next, released, _⟩ := key_release_eq km inTable
      exact ⟨next, released⟩

/-- The timer sends the selected symbol: its `assert` holds. -/
theorem commit_symbol_in_range {km : KeysManager} (selected : km.SymSelected) :
    ∃ next, km.commitSymbol = some next := by
  unfold KeysManager.commitSymbol
  split
  · exact ⟨km, rfl⟩
  · by_cases pending : km.currentAlphaKey ≤ key9
    · rw [if_pos pending]
      obtain ⟨syms, found, _⟩ := key_symbols pending
      obtain ⟨_, inside⟩ := selected syms found
      simp only [found, List.getElem?_eq_getElem inside, Option.bind_eq_bind, Option.bind_some]
      exact ⟨_, rfl⟩
    · rw [if_neg pending]
      exact ⟨km, rfl⟩

theorem timer_in_range {km : KeysManager} (selected : km.SymSelected) :
    ∃ next, km.timerEvent = some next := by
  have inTable (key : Nat) (member : key ∈ List.range keyMax) : key < keyMax :=
    List.mem_range.mp member
  obtain ⟨middle, released, quiet⟩ := releases_quiet _ inTable { km with timerRunning := false }
  have still : middle.SymSelected := by
    obtain ⟨_, _, rfl, _⟩ := quiet
    exact selected
  obtain ⟨committed, commit⟩ := commit_symbol_in_range still
  rw [KeysManager.timerEvent]
  simp only [released, commit, Option.bind_eq_bind, Option.bind_some]
  exact ⟨_, rfl⟩

theorem handle_in_range {km : KeysManager} (selected : km.SymSelected) (event : Event) :
    ∃ next, handle km event = some next := by
  cases event with
  | keyPress code autorepeat slave =>
      simp only [handle]
      split_ifs with known
      · exact key_press_in_range selected (Nat.lt_succ_of_lt known) autorepeat slave
      · exact ⟨km, rfl⟩
  | keyRelease code autorepeat =>
      simp only [handle]
      split_ifs with known
      · exact key_release_in_range km (Nat.lt_succ_of_lt known) autorepeat
      · exact ⟨km, rfl⟩
  | timeout => exact timer_in_range selected
  | startEdit w => exact ⟨_, rfl⟩
  | stopEdit ok => exact ⟨_, rfl⟩
  | setShift fl => exact ⟨_, rfl⟩

theorem reachable_alpha_known {label : Option (List Char)} {km : KeysManager}
    (reached : (manager label).Reachable km) : AlphaKnown km := by
  apply reached.invariant AlphaKnown (.inl rfl)
  intro state event next before taken
  simp only [manager] at taken
  split at taken
  · exact handle_alpha_known before taken
  · cases taken

/-- In every reachable state the selected symbol is in the table, and every event is
handled without an access out of range. -/
theorem indices_in_range (label : Option (List Char)) (km : KeysManager)
    (reached : (manager label).Reachable km) :
    (km.currentAlphaKey ≠ keyUnknown → ∃ syms, sSymbols[km.currentAlphaKey]? = some syms ∧
      km.numAlphaSyms = syms.length ∧ km.currentSym < km.numAlphaSyms) ∧
      ∀ event, ∃ next, handle km event = some next := by
  have selected := reachable_selects reached
  constructor
  · intro pending
    obtain ⟨syms, found⟩ := alpha_symbols ((reachable_alpha_known reached).resolve_left pending)
    obtain ⟨size, inside⟩ := selected syms found
    exact ⟨syms, found, size, size.symm ▸ inside⟩
  · intro event
    exact handle_in_range selected event

theorem indices_in_range_after_digits :
    ∃ km : KeysManager, (km.currentAlphaKey = 2 ∧ km.currentSym = 1) ∧
      (∃ syms, sSymbols[km.currentAlphaKey]? = some syms ∧
        km.numAlphaSyms = syms.length ∧ km.currentSym < km.numAlphaSyms) ∧
        ∀ event, ∃ next, handle km event = some next := by
  obtain ⟨km, reached, passes⟩ := StepSystem.reachable_of_run (manager (some []))
    [.startEdit (some lineEdit), .keyPress .f7 false false, .stopEdit true,
      .startEdit (some ⟨2, true, false⟩), .keyPress .f8 false false, .stopEdit false,
      .startEdit (some lineEdit), .keyPress .f7 false false, .keyPress .f7 false false]
    (fun km => decide (km.currentAlphaKey = 2 ∧ km.currentSym = 1)) (by decide)
  have current := of_decide_eq_true passes
  have pending : km.currentAlphaKey ≠ keyUnknown := by
    rw [current.1]
    decide
  obtain ⟨symbols, handled⟩ := indices_in_range (some []) km reached
  exact ⟨km, current, symbols pending, handled⟩

end Testings.Keys
