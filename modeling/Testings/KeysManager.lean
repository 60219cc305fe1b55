import Testings.StepSystem
import Mathlib.Data.List.Basic

/-!
# The key manager

`KeysManager` of the keypad window: key events and a timer of one second. A
press while a text editor is active selects a symbol of the key, and the timer
sends the selected symbol to the editor. What is sent to the outside is a list
of signals. An index out of its table and the failed `assert` have no outcome;
a key without a release emitter is passed over. The buttons of the edit mode,
whose visibility changes only, are left out.
-/

set_option autoImplicit false

namespace Testings.Keys

def key9 : Nat := 9
def keyOk : Nat := 11
def keyK1 : Nat := 12
def keyK2 : Nat := 13
def keyK3 : Nat := 14
def keyK4 : Nat := 15
def keyK5 : Nat := 16
def keyUnknown : Nat := 19
def keyMax : Nat := 20

inductive QtKey where
  | pause
  | f1 | f2 | f3 | f4 | f5 | f6 | f7 | f8 | f9 | f10 | f11 | f12
  | print
  | scrollLock
  | backspace
  | returnKey
  | pageUp
  | pageDown
  | zero
  | other (code : Nat)
  deriving DecidableEq

def keyCodes : List QtKey :=
  [.pause, .f6, .f7, .f8, .f9, .f10, .f11, .f12, .print, .scrollLock, .backspace, .returnKey,
    .f1, .f2, .f3, .f4, .f5, .pageUp, .pageDown, .zero]

/-- `KeysCodeIdx.value(code, KEY_UNKNOWN)`. -/
def keyIndex (code : QtKey) : Nat := (keyCodes.idxOf? code).getD keyUnknown

def sSymbols : List (List Char) :=
  ["0 ".toList, "1,!?".toList, "2АБВГ".toList, "3ДЕЖЗ".toList, "4ИЙКЛ".toList, "5МНОП".toList,
    "6РСТУ".toList, "7ФЦХЧ".toList, "8ШЩЪЫ".toList, "9ЬЭЮЯ".toList, "-".toList, "-".toList]

/-- `QString::toLower` on these symbols. -/
def toLower (sym : Char) : Char :=
  if 0x410 ≤ sym.toNat ∧ sym.toNat ≤ 0x42F then Char.ofNat (sym.toNat + 0x20) else sym

structure Widget where
  name : Nat
  digits : Bool
  spinBox : Bool
  deriving DecidableEq

/-- `onKeyNamed` and `onReleaseNamed` are the signals that bear the key's name. -/
inductive Signal where
  | onKey (key : Nat)
  | onKeyNamed (key : Nat)
  | onRelease (key : Nat)
  | onReleaseNamed (key : Nat)
  | onStartEdit (editor : Widget)
  | onEditOk (editor : Widget)
  | onEditCancel (editor : Widget)
  | onEditDone (editor : Widget) (ok : Bool)
  | onShift (shift : Bool)
  | animateClick (key : Nat)
  | stepUp (editor : Widget)
  | stepDown (editor : Widget)
  | commit (editor : Widget) (sym : Char)
  deriving DecidableEq

/-- `label` holds the text of the label, if there is one; `timerRunning` says
that `timerId` is the number of a timer. -/
structure KeysManager where
  keysPressed : Vector Bool keyMax
  label : Option (List Char)
  editor : Option Widget
  flShift : Bool
  currentAlphaKey : Nat
  numAlphaSyms : Nat
  currentSym : Nat
  timerRunning : Bool
  flDigits : Bool
  signals : List Signal

def constructed (label : Option (List Char)) : KeysManager where
  keysPressed := Vector.replicate keyMax false
  label := label
  editor := none
  flShift := false
  currentAlphaKey := keyUnknown
  numAlphaSyms := 0
  currentSym := 0
  timerRunning := false
  flDigits := false
  signals := []

namespace KeysManager

def emit (km : KeysManager) (signal : Signal) : KeysManager :=
  { km with signals := km.signals ++ [signal] }

def setText (km : KeysManager) (text : List Char) : KeysManager :=
  { km with label := km.label.map fun _ => text }

def setShift (km : KeysManager) (fl : Bool) : KeysManager :=
  { km with flShift := fl }.emit (.onShift fl)

def doToggleShift (km : KeysManager) : KeysManager := km.setShift (!km.flShift)

/-- `none` when no widget is given and none has the focus. -/
def startEdit (km : KeysManager) (w : Option Widget) : KeysManager :=
  match km.editor, w with
  | none, some w =>
      let km := km.setShift false
      let km := { km with flDigits := w.digits, editor := some w }
      (km.setText []).emit (.onStartEdit w)
  | _, _ => km

def stopEdit (km : KeysManager) (ok : Bool) : KeysManager :=
  let km := km.setShift false
  match km.editor with
  | none => km
  | some editor =>
      let km := km.emit (if ok then .onEditOk editor else .onEditCancel editor)
      { km.emit (.onEditDone editor ok) with editor := none }

def emitters : List (KeysManager → KeysManager) :=
  (List.range keyUnknown).map (fun key km => km.emit (.onKeyNamed key)) ++ [id]

/-- Empty for all keys but PTT and CALL. -/
def emittersRelease : List (Option (KeysManager → KeysManager)) :=
  List.replicate 17 none ++
    [some fun km => km.emit (.onReleaseNamed 17), some fun km => km.emit (.onReleaseNamed 18),
      some id]

/-- The text of the label while a symbol is selected. -/
def selection (syms : List Char) (numAlphaSyms currentSym : Nat) (sym : Char) : List Char :=
  "[".toList ++ syms.take currentSym ++ "<b>".toList ++ [sym] ++ "</b>".toList ++
    syms.drop (syms.length - (numAlphaSyms - currentSym - 1)) ++ "]".toList

def selectSymbol (km : KeysManager) (key : Nat) (syms : List Char) : KeysManager :=
  if key ≠ km.currentAlphaKey then
    { km with numAlphaSyms := syms.length, currentSym := 0, currentAlphaKey := key }
  else
    { km with currentSym := if km.numAlphaSyms ≤ km.currentSym + 1 then 0 else km.currentSym + 1 }

def processAlphaKey (km : KeysManager) (key : Nat) : Option KeysManager := do
  let syms ← sSymbols[key]?
  if km.flDigits then
    let editor ← km.editor
    let sym ← syms[0]?
    let km := (km.emit (.commit editor sym)).setText []
    some { km with currentAlphaKey := keyUnknown }
  else
    let km := km.selectSymbol key syms
    match km.label with
    | none => some km
    | some _ =>
        let sym ← syms[km.currentSym]?
        let s := selection syms km.numAlphaSyms km.currentSym sym
        some (km.setText (if km.flShift then s else s.map toLower))

/-- The keys K1 to K5 while an editor is active. -/
def processEditKey (km : KeysManager) (editor : Widget) (key : Nat) : KeysManager :=
  if key = keyK1 then km.stopEdit true
  else if key = keyK2 then km.stopEdit false
  else if key = keyK3 then
    let km := if km.flDigits then km else km.doToggleShift
    if editor.spinBox then km.emit (.stepDown editor) else km
  else if key = keyK4 then if editor.spinBox then km.emit (.stepUp editor) else km
  else km

/-- `slave`: an enabled and visible slave button stands for the key. -/
def processKeyPress (km : KeysManager) (key : Nat) (autorepeat slave : Bool) : Option KeysManager :=
  if inTable : key < keyMax then
    let km :=
      { km with timerRunning := true, keysPressed := km.keysPressed.set key true inTable }
    let outside :=
      if autorepeat then some km
      else if slave then some (km.emit (.animateClick key))
      else emitters[key]?.map fun emitter => (emitter km).emit (.onKey key)
    match km.editor with
    | none => outside
    | some editor =>
        if key ≤ keyK5 then
          if key ≤ keyOk then km.processAlphaKey key
          else if autorepeat then some km
          else some (km.processEditKey editor key)
        else outside
  else none

def processKeyRelease (km : KeysManager) (key : Nat) (autorepeat : Bool) : Option KeysManager :=
  if autorepeat then some km
  else if inTable : key < keyMax then
    let km := { km with keysPressed := km.keysPressed.set key false inTable }
    if km.editor.isSome && key < keyK1 then some km
    else
      emittersRelease[key]?.map fun emitter => ((emitter.getD id) km).emit (.onRelease key)
  else none

def releasePressed (km : KeysManager) (key : Nat) : Option KeysManager :=
  if km.keysPressed[key]? = some true then km.processKeyRelease key false else some km

/-- The symbol is sent only for the keys up to `KEY_9`. -/
def commitSymbol (km : KeysManager) : Option KeysManager :=
  match km.editor with
  | none => some km
  | some editor =>
      if km.currentAlphaKey ≤ key9 then do
        let syms ← sSymbols[km.currentAlphaKey]?
        let sym ← syms[km.currentSym]?
        some (km.emit (.commit editor (if km.flShift then sym else toLower sym)))
      else some km

def timerEvent (km : KeysManager) : Option KeysManager := do
  let km := { km with timerRunning := false }
  let km ← (List.range keyMax).foldlM releasePressed km
  let km ← km.commitSymbol
  some ({ km with currentAlphaKey := keyUnknown, currentSym := 0 }.setText [])

/-- The signals that come from a table of emitters or from a key outside an editor. -/
def OfKey : Signal → Prop
  | .onKey _ | .onKeyNamed _ | .onReleaseNamed _ | .animateClick _ => True
  | _ => False

/-- Only signals of keys are added. -/
def Emits (km next : KeysManager) : Prop :=
  ∃ added, next = { km with signals := km.signals ++ added } ∧ ∀ signal ∈ added, OfKey signal

theorem Emits.refl (km : KeysManager) : Emits km km := by
  refine ⟨[], ?_, ?_⟩
  · rw [List.append_nil]
  · intro signal member
    cases member

theorem Emits.emit {km next : KeysManager} (before : Emits km next) {signal : Signal}
    (ofKey : OfKey signal) : Emits km (next.emit signal) := by
  obtain ⟨added, rfl, signals⟩ := before
  refine ⟨added ++ [signal], ?_, ?_⟩
  · simp only [KeysManager.emit, List.append_assoc]
  · intro other member
    cases List.mem_append.mp member with
    | inl old => exact signals other old
    | inr new =>
        rw [List.mem_singleton.mp new]
        exact ofKey

theorem emitter_emits {emitter : KeysManager → KeysManager} (listed : emitter ∈ emitters)
    (km : KeysManager) : Emits km (emitter km) := by
  simp only [emitters, List.mem_append, List.mem_map, List.mem_singleton] at listed
  cases listed with
  | inl named =>
      obtain ⟨key, _, rfl⟩ := named
      exact (Emits.refl km).emit trivial
  | inr last =>
      subst last
      exact .refl km

theorem release_emitter_emits {emitter : Option (KeysManager → KeysManager)}
    (listed : emitter ∈ emittersRelease) (km : KeysManager) :
    Emits km (emitter.getD id km) := by
  simp only [emittersRelease, List.mem_append, List.mem_replicate, List.mem_cons,
    List.not_mem_nil, or_false] at listed
  rcases listed with ⟨_, rfl⟩ | rfl | rfl | rfl
  · exact .refl km
  · exact (Emits.refl km).emit trivial
  · exact (Emits.refl km).emit trivial
  · exact .refl km

/-- A press that no editor takes. -/
theorem outside_emits {km next : KeysManager} {key : Nat} {autorepeat slave : Bool}
    (taken : (if autorepeat then some km
      else if slave then some (km.emit (.animateClick key))
      else emitters[key]?.map fun emitter => (emitter km).emit (.onKey key)) = some next) :
    Emits km next := by
  split_ifs at taken
  · cases taken
    exact .refl km
  · cases taken
    exact (Emits.refl km).emit trivial
  · obtain ⟨emitter, found, rfl⟩ := Option.map_eq_some_iff.mp taken
    exact (emitter_emits (List.mem_of_getElem? found) km).emit trivial

/-- The signals that an edit session sends. -/
def OfEdit : Signal → Prop
  | .onEditOk _ | .onEditCancel _ | .onEditDone _ _ | .onShift _ | .stepUp _ | .stepDown _ => True
  | _ => False

/-- Signals of the session are added, it may end, and the shift may change. -/
def Edits (km next : KeysManager) : Prop :=
  ∃ added flShift editor,
    next = { km with flShift := flShift, editor := editor, signals := km.signals ++ added } ∧
      (∀ signal ∈ added, OfEdit signal) ∧ (editor = km.editor ∨ editor = none)

theorem Edits.refl (km : KeysManager) : Edits km km := by
  refine ⟨[], km.flShift, km.editor, ?_, ?_, .inl rfl⟩
  · rw [List.append_nil]
  · intro signal member
    cases member

theorem Edits.emit {km next : KeysManager} (before : Edits km next) {signal : Signal}
    (ofEdit : OfEdit signal) : Edits km (next.emit signal) := by
  obtain ⟨added, flShift, editor, rfl, signals, ended⟩ := before
  refine ⟨added ++ [signal], flShift, editor, ?_, ?_, ended⟩
  · simp only [KeysManager.emit, List.append_assoc]
  · intro other member
    cases List.mem_append.mp member with
    | inl old => exact signals other old
    | inr new =>
        rw [List.mem_singleton.mp new]
        exact ofEdit

theorem Edits.setShift {km next : KeysManager} (before : Edits km next) (fl : Bool) :
    Edits km (next.setShift fl) := by
  obtain ⟨added, flShift, editor, rfl, signals, ended⟩ := before
  exact Edits.emit ⟨added, fl, editor, rfl, signals, ended⟩ trivial

theorem Edits.stopped {km next : KeysManager} (before : Edits km next) :
    Edits km { next with editor := none } := by
  obtain ⟨added, flShift, editor, rfl, signals, ended⟩ := before
  exact ⟨added, flShift, none, rfl, signals, .inr rfl⟩

theorem stop_edit_edits (km : KeysManager) (ok : Bool) : Edits km (km.stopEdit ok) := by
  have shifted := (Edits.refl km).setShift false
  unfold stopEdit
  dsimp only
  split
  · exact shifted
  · next editor active =>
      have told : OfEdit (if ok then .onEditOk editor else .onEditCancel editor) := by
        cases ok <;> trivial
      have done : OfEdit (.onEditDone editor ok) := trivial
      exact ((shifted.emit told).emit done).stopped

theorem edit_key_edits (km : KeysManager) (editor : Widget) (key : Nat) :
    Edits km (km.processEditKey editor key) := by
  have toggled : Edits km (if km.flDigits then km else km.doToggleShift) := by
    split
    · exact .refl km
    · exact (Edits.refl km).setShift _
  unfold processEditKey
  dsimp only
  by_cases accept : key = keyK1
  · rw [if_pos accept]
    exact stop_edit_edits km true
  rw [if_neg accept]
  by_cases cancel : key = keyK2
  · rw [if_pos cancel]
    exact stop_edit_edits km false
  rw [if_neg cancel]
  by_cases shift : key = keyK3
  · rw [if_pos shift]
    split
    · exact toggled.emit trivial
    · exact toggled
  rw [if_neg shift]
  split_ifs
  · exact (Edits.refl km).emit trivial
  · exact .refl km
  · exact .refl km

/-- The selected symbol is one of the current key's symbols. -/
def SymSelected (km : KeysManager) : Prop :=
  ∀ syms, sSymbols[km.currentAlphaKey]? = some syms →
    km.numAlphaSyms = syms.length ∧ km.currentSym < syms.length

theorem symbols_nonempty {key : Nat} {syms : List Char} (found : sSymbols[key]? = some syms) :
    0 < syms.length := by
  have all : ∀ syms ∈ sSymbols, 0 < syms.length := by decide
  exact all syms (List.mem_of_getElem? found)

theorem sym_selected_unknown {km : KeysManager} (unknown : km.currentAlphaKey = keyUnknown) :
    SymSelected km := by
  intro syms found
  rw [unknown] at found
  cases found

theorem select_symbol_selects {km : KeysManager} (before : SymSelected km) {key : Nat}
    {syms : List Char} (found : sSymbols[key]? = some syms) :
    SymSelected (km.selectSymbol key syms) := by
  unfold selectSymbol
  split_ifs with other last
  · intro held foundHeld
    cases found.symm.trans foundHeld
    exact ⟨rfl, symbols_nonempty found⟩
  · intro held foundHeld
    obtain ⟨size, inside⟩ := before held foundHeld
    exact ⟨size, Nat.zero_lt_of_lt inside⟩
  · intro held foundHeld
    obtain ⟨size, _⟩ := before held foundHeld
    exact ⟨size, size ▸ Nat.lt_of_not_le last⟩

/-- A digit is committed at once; a letter is selected, and shown where there is a label. -/
theorem alpha_key_cases {km next : KeysManager} {key : Nat}
    (taken : km.processAlphaKey key = some next) :
    ∃ syms, sSymbols[key]? = some syms ∧
      ((km.flDigits = true ∧ ∃ editor sym, km.editor = some editor ∧ syms[0]? = some sym ∧
          next = { (km.emit (.commit editor sym)).setText [] with currentAlphaKey := keyUnknown }) ∨
        (km.flDigits = false ∧ (next = km.selectSymbol key syms ∨
          ∃ text, next = (km.selectSymbol key syms).setText text))) := by
  simp only [processAlphaKey, Option.bind_eq_bind, Option.bind_eq_some_iff] at taken
  obtain ⟨syms, found, taken⟩ := taken
  refine ⟨syms, found, ?_⟩
  split at taken
  next digits =>
    simp only [Option.bind_eq_some_iff, Option.some.injEq] at taken
    obtain ⟨editor, active, sym, first, same⟩ := taken
    exact .inl ⟨digits, editor, sym, active, first, same.symm⟩
  next letters =>
    refine .inr ⟨eq_false_of_ne_true letters, ?_⟩
    split at taken
    · exact .inl (Option.some.inj taken).symm
    · simp only [Option.bind_eq_some_iff, Option.some.injEq] at taken
      obtain ⟨_, _, same⟩ := taken
      exact .inr ⟨_, same.symm⟩

theorem alpha_key_selects {km next : KeysManager} (before : SymSelected km) {key : Nat}
    (taken : km.processAlphaKey key = some next) : SymSelected next := by
  obtain ⟨syms, found, digit | letter⟩ := alpha_key_cases taken
  · obtain ⟨_, _, _, _, _, rfl⟩ := digit
    exact sym_selected_unknown rfl
  · have selected := select_symbol_selects before found
    obtain ⟨_, rfl | ⟨_, rfl⟩⟩ := letter
    · exact selected
    · exact selected

theorem Emits.selects {km next : KeysManager} (emits : Emits km next) (before : SymSelected km) :
    SymSelected next := by
  obtain ⟨_, rfl, _⟩ := emits
  exact before

theorem Edits.selects {km next : KeysManager} (edits : Edits km next) (before : SymSelected km) :
    SymSelected next := by
  obtain ⟨_, _, _, rfl, _⟩ := edits
  exact before

theorem start_edit_selects {km : KeysManager} (before : SymSelected km) (w : Option Widget) :
    SymSelected (km.startEdit w) := by
  unfold startEdit
  split
  · exact before
  · exact before

theorem key_press_selects {km next : KeysManager} (before : SymSelected km) {key : Nat}
    {autorepeat slave : Bool} (taken : km.processKeyPress key autorepeat slave = some next) :
    SymSelected next := by
  unfold processKeyPress at taken
  split at taken
  case isTrue inTable =>
    have marked : SymSelected
        { km with timerRunning := true, keysPressed := km.keysPressed.set key true inTable } :=
      before
    dsimp only at taken
    split at taken
    · exact (outside_emits taken).selects marked
    · split at taken
      · split at taken
        · exact alpha_key_selects marked taken
        · split at taken
          · cases taken
            exact marked
          · cases taken
            exact (edit_key_edits _ _ key).selects marked
      · exact (outside_emits taken).selects marked
  case isFalse => cases taken

theorem key_release_selects {km next : KeysManager} (before : SymSelected km) {key : Nat}
    {autorepeat : Bool} (taken : km.processKeyRelease key autorepeat = some next) :
    SymSelected next := by
  unfold processKeyRelease at taken
  split at taken
  · cases taken
    exact before
  · split at taken
    · dsimp only at taken
      split at taken
      · cases taken
        exact before
      · obtain ⟨emitter, found, rfl⟩ := Option.map_eq_some_iff.mp taken
        have emits (other : KeysManager) : Emits other (emitter.getD id other) :=
          release_emitter_emits (List.mem_of_getElem? found) other
        exact (emits _).selects before
    · cases taken

theorem timer_selects {km next : KeysManager} (taken : km.timerEvent = some next) :
    SymSelected next := by
  simp only [timerEvent, Option.bind_eq_bind, Option.bind_eq_some_iff, Option.some.injEq] at taken
  obtain ⟨_, _, _, _, rfl⟩ := taken
  exact sym_selected_unknown rfl

end KeysManager

inductive Event where
  | keyPress (code : QtKey) (autorepeat slave : Bool)
  | keyRelease (code : QtKey) (autorepeat : Bool)
  | timeout
  | startEdit (w : Option Widget)
  | stopEdit (ok : Bool)
  | setShift (fl : Bool)

/-- `processKeyEvent` drops unknown keys. -/
def handle (km : KeysManager) : Event → Option KeysManager
  | .keyPress code autorepeat slave =>
      if keyIndex code < keyUnknown then km.processKeyPress (keyIndex code) autorepeat slave
      else some km
  | .keyRelease code autorepeat =>
      if keyIndex code < keyUnknown then km.processKeyRelease (keyIndex code) autorepeat
      else some km
  | .timeout => km.timerEvent
  | .startEdit w => some (km.startEdit w)
  | .stopEdit ok => some (km.stopEdit ok)
  | .setShift fl => some (km.setShift fl)

/-- The timer expires only while it runs. -/
def Enabled (km : KeysManager) : Event → Prop
  | .timeout => km.timerRunning = true
  | _ => True

instance (km : KeysManager) (event : Event) : Decidable (Enabled km event) := by
  unfold Enabled
  split <;> infer_instance

def manager (label : Option (List Char)) : StepSystem KeysManager Event where
  start := constructed label
  step km event := if Enabled km event then handle km event else none

open KeysManager

theorem step_selects {label : Option (List Char)} {km next : KeysManager} {event : Event}
    (before : SymSelected km) (taken : (manager label).step km event = some next) :
    SymSelected next := by
  simp only [manager] at taken
  split at taken
  · cases event with
    | keyPress code autorepeat slave =>
        simp only [handle] at taken
        split at taken
        · exact key_press_selects before taken
        · cases taken
          exact before
    | keyRelease code autorepeat =>
        simp only [handle] at taken
        split at taken
        · exact key_release_selects before taken
        · cases taken
          exact before
    | timeout => exact timer_selects taken
    | startEdit w =>
        cases taken
        exact start_edit_selects before w
    | stopEdit ok =>
        cases taken
        exact (stop_edit_edits km ok).selects before
    | setShift fl =>
        cases taken
        exact before
  · cases taken

theorem reachable_selects {label : Option (List Char)} {km : KeysManager}
    (reached : (manager label).Reachable km) : SymSelected km := by
  apply reached.invariant SymSelected
  · exact sym_selected_unknown rfl
  · intro state event next before taken
    exact step_selects before taken

end Testings.Keys
