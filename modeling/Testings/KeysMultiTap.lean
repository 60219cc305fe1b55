import Testings.KeysManager
import Testings.TapGroups

/-!
# Multi-tap input

While a text editor is active the manager is a buffer with one slot: the group
of presses that select the pending symbol. The timer commits the slot; a press
of another key takes it.
-/

set_option autoImplicit false

namespace Testings.Keys

open TapGroups

/-- A press of one of the keys 0..9 or the expiration of the timer. -/
def IsTap : Event → Prop
  | .keyPress code _ _ => keyIndex code ≤ key9
  | .timeout => True
  | _ => False

instance (event : Event) : Decidable (IsTap event) := by
  unfold IsTap
  split <;> infer_instance

def tapKey : Event → Option Nat
  | .keyPress code _ _ => some (keyIndex code)
  | _ => none

/-- The timer runs whenever it expires: it is started by every press. -/
def Timed : Bool → List Event → Prop
  | _, [] => True
  | running, .timeout :: rest => running = true ∧ Timed false rest
  | _, _ :: rest => Timed true rest

def commits (km : KeysManager) : List (Widget × Char) :=
  km.signals.filterMap fun signal =>
    match signal with
    | .commit editor sym => some (editor, sym)
    | _ => none

/-- The symbol that a group of presses selects. -/
def groupSymbol (group : TapGroup Nat) : Option Char := do
  let syms ← sSymbols[group.1]?
  syms[(group.2 - 1) % syms.length]?

/-- What the editor is to get for a group. -/
def groupCommit (editor : Widget) (flShift : Bool) (group : TapGroup Nat) :
    Option (Widget × Char) :=
  (groupSymbol group).map fun sym => (editor, if flShift then sym else toLower sym)

/-- The group that the pending symbol stands for. -/
def pendingGroup (km : KeysManager) : Option (TapGroup Nat) :=
  if km.currentAlphaKey ≤ key9 then some (km.currentAlphaKey, km.currentSym + 1) else none

/-- The taps of the events, behind the presses of the symbol that is pending
when they begin. -/
def tapsSince (km : KeysManager) (events : List Event) : List (Option Nat) :=
  slotTaps (pendingGroup km) ++ events.map tapKey

/-- The pending symbol of the manager is that of the group in the slot. -/
def Pending (km : KeysManager) : Option (TapGroup Nat) → Prop
  | none => key9 < km.currentAlphaKey
  | some (key, n) => 0 < n ∧ key ≤ key9 ∧ km.currentAlphaKey = key ∧
      ∃ syms, sSymbols[key]? = some syms ∧ km.numAlphaSyms = syms.length ∧
        km.currentSym = (n - 1) % syms.length

structure Typing (editor : Widget) (flShift : Bool) (slot : Option (TapGroup Nat))
    (km : KeysManager) : Prop where
  active : km.editor = some editor
  text : km.flDigits = false
  shift : km.flShift = flShift
  pending : Pending km slot

theorem key_symbols {key : Nat} (tap : key ≤ key9) :
    ∃ syms, sSymbols[key]? = some syms ∧ 0 < syms.length := by
  have inTable : key < sSymbols.length := Nat.lt_of_le_of_lt tap (by decide)
  have found := List.getElem?_eq_getElem inTable
  exact ⟨sSymbols[key], found, KeysManager.symbols_nonempty found⟩

/-- A selected symbol of one of the keys 0..9 is pending. -/
theorem pending_group_pending {km : KeysManager} (selected : km.SymSelected) :
    Pending km (pendingGroup km) := by
  unfold pendingGroup
  split_ifs with tap
  · obtain ⟨syms, found, _⟩ := key_symbols tap
    obtain ⟨size, inside⟩ := selected syms found
    refine ⟨Nat.succ_pos _, tap, rfl, syms, found, size, ?_⟩
    rw [Nat.add_sub_cancel, Nat.mod_eq_of_lt inside]
  · exact Nat.lt_of_not_le tap

theorem pending_group_counted (km : KeysManager) : Counted (pendingGroup km) := by
  unfold pendingGroup
  split_ifs
  · rintro _ ⟨⟩
    exact Nat.succ_pos _
  · exact nofun

/-- One press more selects the next symbol, after the last one the first. -/
theorem next_symbol {count size : Nat} (nonempty : 0 < size) (counted : 0 < count) :
    (if size ≤ (count - 1) % size + 1 then 0 else (count - 1) % size + 1) = count % size := by
  have inside : (count - 1) % size < size := Nat.mod_lt _ nonempty
  have reduced : count % size = ((count - 1) % size + 1) % size := by
    rw [Nat.mod_add_mod, Nat.sub_add_cancel counted]
  rw [reduced]
  split_ifs with last
  · have same : (count - 1) % size + 1 = size := by omega
    rw [same, Nat.mod_self]
  · exact (Nat.mod_eq_of_lt (by omega)).symm

theorem select_symbol_typing {editor : Widget} {flShift : Bool} {slot : Option (TapGroup Nat)}
    {km : KeysManager} (typing : Typing editor flShift slot km) {key : Nat} (tap : key ≤ key9)
    {syms : List Char} (found : sSymbols[key]? = some syms) (nonempty : 0 < syms.length) :
    Typing editor flShift (some (press slot key)) (km.selectSymbol key syms) := by
  have fresh (other : key ≠ km.currentAlphaKey) :
      Pending (km.selectSymbol key syms) (some (key, 1)) := by
    rw [KeysManager.selectSymbol, if_pos other]
    exact ⟨Nat.one_pos, tap, rfl, syms, found, rfl, (Nat.zero_mod _).symm⟩
  have pending : Pending (km.selectSymbol key syms) (some (press slot key)) := by
    cases slot with
    | none =>
        have idle : key9 < km.currentAlphaKey := typing.pending
        exact fresh (by omega)
    | some group =>
        obtain ⟨held, n⟩ := group
        obtain ⟨counted, inTable, current, known, heldSyms, size, sym⟩ := typing.pending
        by_cases same : held = key
        · subst same
          cases found.symm.trans heldSyms
          rw [press, if_pos rfl, KeysManager.selectSymbol, if_neg (not_not.mpr current.symm), size,
            sym, next_symbol nonempty counted]
          exact ⟨Nat.succ_pos n, tap, current, syms, found, rfl, rfl⟩
        · rw [press, if_neg same]
          exact fresh (by rw [current]; exact Ne.symm same)
  refine ⟨?_, ?_, ?_, pending⟩
  · rw [← typing.active, KeysManager.selectSymbol]
    split <;> rfl
  · rw [← typing.text, KeysManager.selectSymbol]
    split <;> rfl
  · rw [← typing.shift, KeysManager.selectSymbol]
    split <;> rfl

theorem select_symbol_frame (km : KeysManager) (key : Nat) (syms : List Char) :
    (km.selectSymbol key syms).currentAlphaKey = key ∧
      (km.selectSymbol key syms).signals = km.signals ∧
      (km.selectSymbol key syms).timerRunning = km.timerRunning := by
  rw [KeysManager.selectSymbol]
  by_cases other : key ≠ km.currentAlphaKey
  · rw [if_pos other]
    exact ⟨rfl, rfl, rfl⟩
  · rw [if_neg other]
    exact ⟨(not_not.mp other).symm, rfl, rfl⟩

theorem Typing.symbol {editor : Widget} {flShift : Bool} {group : TapGroup Nat} {km : KeysManager}
    (typing : Typing editor flShift (some group) km) :
    km.currentAlphaKey ≤ key9 ∧ ∃ syms sym, sSymbols[km.currentAlphaKey]? = some syms ∧
      syms[km.currentSym]? = some sym ∧ groupSymbol group = some sym := by
  obtain ⟨_, inTable, current, syms, found, _, selected⟩ := typing.pending
  obtain ⟨others, sameSyms, nonempty⟩ := key_symbols inTable
  cases found.symm.trans sameSyms
  have inside : (group.2 - 1) % syms.length < syms.length := Nat.mod_lt _ nonempty
  have there := List.getElem?_eq_getElem inside
  refine ⟨current ▸ inTable, syms, syms[(group.2 - 1) % syms.length], current ▸ found, ?_, ?_⟩
  · rw [selected]
    exact there
  · rw [groupSymbol, found]
    exact there

theorem alpha_key_typing {editor : Widget} {flShift : Bool} {slot : Option (TapGroup Nat)}
    {km : KeysManager} (typing : Typing editor flShift slot km) {key : Nat} (tap : key ≤ key9) :
    ∃ next, km.processAlphaKey key = some next ∧
      Typing editor flShift (some (press slot key)) next ∧ next.signals = km.signals ∧
      next.timerRunning = km.timerRunning := by
  obtain ⟨syms, found, nonempty⟩ := key_symbols tap
  have selected := select_symbol_typing typing tap found nonempty
  obtain ⟨current, signals, timer⟩ := select_symbol_frame km key syms
  obtain ⟨_, sameSyms, sym, sameFound, there, _⟩ := selected.symbol
  rw [current] at sameFound
  cases found.symm.trans sameFound
  simp only [KeysManager.processAlphaKey, found, typing.text, Option.bind_eq_bind, Option.bind_some]
  cases (km.selectSymbol key syms).label with
  | none => exact ⟨_, rfl, selected, signals, timer⟩
  | some text =>
      simp only [there, Option.bind_some]
      exact ⟨_, rfl, ⟨selected.active, selected.text, selected.shift, selected.pending⟩, signals,
        timer⟩

theorem press_typing {editor : Widget} {flShift : Bool} {slot : Option (TapGroup Nat)}
    {km : KeysManager} (typing : Typing editor flShift slot km) {key : Nat} (tap : key ≤ key9)
    (autorepeat slave : Bool) :
    ∃ next, km.processKeyPress key autorepeat slave = some next ∧
      Typing editor flShift (some (press slot key)) next ∧ next.signals = km.signals ∧
      next.timerRunning = true := by
  have inTable : key < keyMax := Nat.lt_of_le_of_lt tap (by decide)
  have alpha : key ≤ keyOk := Nat.le_trans tap (by decide)
  have edit : key ≤ keyK5 := Nat.le_trans tap (by decide)
  have pressed : Typing editor flShift slot
      { km with timerRunning := true, keysPressed := km.keysPressed.set key true inTable } :=
    ⟨typing.active, typing.text, typing.shift, typing.pending⟩
  have branch : km.processKeyPress key autorepeat slave =
      { km with
        timerRunning := true
        keysPressed := km.keysPressed.set key true inTable }.processAlphaKey key := by
    rw [KeysManager.processKeyPress, dif_pos inTable]
    simp only [typing.active, if_pos edit, if_pos alpha]
  rw [branch]
  exact alpha_key_typing pressed tap

/-- Only the marks of the keys change, and signals are added, none of them a commit. -/
def Quiet (km next : KeysManager) : Prop :=
  ∃ keysPressed signals, next = { km with keysPressed := keysPressed, signals := signals } ∧
    commits next = commits km

theorem Quiet.typing {editor : Widget} {flShift : Bool} {slot : Option (TapGroup Nat)}
    {km next : KeysManager} (quiet : Quiet km next) (typing : Typing editor flShift slot km) :
    Typing editor flShift slot next := by
  obtain ⟨_, _, rfl, _⟩ := quiet
  exact ⟨typing.active, typing.text, typing.shift, typing.pending⟩

theorem Quiet.trans {first second third : KeysManager} (left : Quiet first second)
    (right : Quiet second third) : Quiet first third := by
  obtain ⟨_, _, rfl, sameLeft⟩ := left
  obtain ⟨keysPressed, signals, rfl, sameRight⟩ := right
  exact ⟨keysPressed, signals, rfl, sameRight.trans sameLeft⟩

/-- A signal that is no commit. -/
def Other : Signal → Prop
  | .commit _ _ => False
  | _ => True

theorem quiet_emit (km : KeysManager) {signal : Signal} (other : Other signal) :
    Quiet km (km.emit signal) := by
  refine ⟨km.keysPressed, km.signals ++ [signal], rfl, ?_⟩
  rw [commits, KeysManager.emit, List.filterMap_append]
  cases signal with
  | commit => exact other.elim
  | _ => exact List.append_nil _

theorem commits_commit (km : KeysManager) (editor : Widget) (sym : Char) :
    commits (km.emit (.commit editor sym)) = commits km ++ [(editor, sym)] := by
  rw [commits, KeysManager.emit, List.filterMap_append]
  rfl

theorem KeysManager.Emits.quiet {km next : KeysManager} (emits : KeysManager.Emits km next) :
    Quiet km next := by
  obtain ⟨added, rfl, signals⟩ := emits
  refine ⟨km.keysPressed, km.signals ++ added, rfl, ?_⟩
  have none_sent : (added.filterMap fun signal =>
      match signal with
      | .commit editor sym => some (editor, sym)
      | _ => none) = [] := by
    apply List.filterMap_eq_nil_iff.mpr
    intro signal member
    cases signal with
    | commit => exact (signals _ member).elim
    | _ => rfl
  rw [commits, List.filterMap_append, none_sent, List.append_nil]
  rfl

theorem release_quiet (km : KeysManager) {key : Nat} (inTable : key < keyMax) :
    ∃ next, km.releasePressed key = some next ∧ Quiet km next := by
  unfold KeysManager.releasePressed KeysManager.processKeyRelease
  split
  · rw [if_neg Bool.false_ne_true]
    have cleared : Quiet km { km with keysPressed := km.keysPressed.set key false inTable } :=
      ⟨_, km.signals, rfl, rfl⟩
    dsimp only
    split
    · exact ⟨_, rfl, cleared⟩
    · obtain ⟨emitter, found⟩ : ∃ emitter, KeysManager.emittersRelease[key]? = some emitter :=
        ⟨_, List.getElem?_eq_getElem (by exact inTable)⟩
      rw [found]
      have released := (KeysManager.release_emitter_emits (List.mem_of_getElem? found)
        { km with keysPressed := km.keysPressed.set key false inTable }).quiet
      exact ⟨_, rfl, cleared.trans (released.trans (quiet_emit _ trivial))⟩
  · exact ⟨km, rfl, km.keysPressed, km.signals, rfl, rfl⟩

theorem releases_quiet (keys : List Nat) (inTable : ∀ key ∈ keys, key < keyMax)
    (km : KeysManager) : ∃ next, keys.foldlM KeysManager.releasePressed km = some next ∧
      Quiet km next := by
  induction keys generalizing km with
  | nil => exact ⟨km, rfl, km.keysPressed, km.signals, rfl, rfl⟩
  | cons key rest induction =>
      obtain ⟨middle, released, first⟩ := release_quiet km (inTable key List.mem_cons_self)
      obtain ⟨next, later, second⟩ :=
        induction (fun other member => inTable other (List.mem_cons_of_mem _ member)) middle
      refine ⟨next, ?_, first.trans second⟩
      rw [List.foldlM_cons, released]
      exact later

theorem commit_symbol_typing {editor : Widget} {flShift : Bool} {slot : Option (TapGroup Nat)}
    {km : KeysManager} (typing : Typing editor flShift slot km) :
    ∃ next, km.commitSymbol = some next ∧ Typing editor flShift slot next ∧
      (commits next).map some =
        (commits km).map some ++ slot.toList.map (groupCommit editor flShift) ∧
      next.timerRunning = km.timerRunning := by
  unfold KeysManager.commitSymbol
  simp only [typing.active]
  cases slot with
  | none =>
      have idle : key9 < km.currentAlphaKey := typing.pending
      rw [if_neg (Nat.not_le_of_lt idle)]
      exact ⟨km, rfl, typing, (List.append_nil _).symm, rfl⟩
  | some group =>
      obtain ⟨inTable, syms, sym, found, there, selected⟩ := typing.symbol
      rw [if_pos inTable, found]
      simp only [Option.bind_eq_bind, Option.bind_some, there]
      refine ⟨_, rfl, ⟨typing.active, typing.text, typing.shift, typing.pending⟩, ?_, rfl⟩
      have asked : groupCommit editor flShift group =
          some (editor, if km.flShift then sym else toLower sym) := by
        rw [groupCommit, selected, typing.shift]
        rfl
      rw [commits_commit, List.map_append, Option.toList_some, List.map_singleton,
        List.map_singleton, asked]

theorem timer_typing {editor : Widget} {flShift : Bool} {slot : Option (TapGroup Nat)}
    {km : KeysManager} (typing : Typing editor flShift slot km) :
    ∃ next, km.timerEvent = some next ∧ Typing editor flShift none next ∧
      (commits next).map some =
        (commits km).map some ++ slot.toList.map (groupCommit editor flShift) ∧
      next.timerRunning = false := by
  have stopped : Typing editor flShift slot { km with timerRunning := false } :=
    ⟨typing.active, typing.text, typing.shift, typing.pending⟩
  obtain ⟨released, releases, quiet⟩ := releases_quiet (List.range keyMax)
    (fun key member => List.mem_range.mp member) { km with timerRunning := false }
  obtain ⟨committed, commit, after, sent, timer⟩ := commit_symbol_typing (quiet.typing stopped)
  refine ⟨{ committed with currentAlphaKey := keyUnknown, currentSym := 0 }.setText [],
    ?_, ?_, ?_, ?_⟩
  · simp only [KeysManager.timerEvent, releases, commit, Option.bind_eq_bind, Option.bind_some]
  · exact ⟨after.active, after.text, after.shift, (by decide : key9 < keyUnknown)⟩
  · obtain ⟨_, _, _, same⟩ := quiet
    rw [same] at sent
    exact sent
  · obtain ⟨_, _, rfl, _⟩ := quiet
    exact timer

theorem run_typing {editor : Widget} {flShift : Bool} (label : Option (List Char))
    (events : List Event) (taps : ∀ event ∈ events, IsTap event) (slot : Option (TapGroup Nat))
    (km : KeysManager) (typing : Typing editor flShift slot km)
    (timed : Timed km.timerRunning events) :
    ∃ final, (manager label).runFrom km events = some final ∧
      (commits final).map some = (commits km).map some ++
        (kept slot (events.map tapKey)).map (groupCommit editor flShift) := by
  induction events generalizing slot km with
  | nil => exact ⟨km, rfl, (List.append_nil _).symm⟩
  | cons event rest induction =>
      have later : ∀ event ∈ rest, IsTap event :=
        fun event member => taps event (List.mem_cons_of_mem _ member)
      have tap : IsTap event := taps event List.mem_cons_self
      cases event with
      | keyPress code autorepeat slave =>
          obtain ⟨next, pressed, after, signals, running⟩ :=
            press_typing typing tap autorepeat slave
          have known : keyIndex code < keyUnknown := Nat.lt_of_le_of_lt tap (by decide)
          have taken : (manager label).step km (.keyPress code autorepeat slave) = some next := by
            simp only [manager, Enabled, if_true, handle, if_pos known, pressed]
          obtain ⟨final, run, sent⟩ := induction later _ next after (by rw [running]; exact timed)
          refine ⟨final, StepSystem.run_from_cons_some.mpr ⟨next, taken, run⟩, ?_⟩
          rw [sent, commits, signals]
          rfl
      | timeout =>
          obtain ⟨next, expired, after, committed, stopped⟩ := timer_typing typing
          have taken : (manager label).step km .timeout = some next := by
            simp only [manager, Enabled, timed.1, if_true, handle, expired]
          obtain ⟨final, run, sent⟩ := induction later _ next after (by rw [stopped]; exact timed.2)
          refine ⟨final, StepSystem.run_from_cons_some.mpr ⟨next, taken, run⟩, ?_⟩
          rw [sent, committed, List.append_assoc, ← List.map_append]
          rfl
      | keyRelease | startEdit | stopEdit | setShift => exact tap.elim

/-- Taps that end with an expiration commit one symbol for every group, in the
order of the groups, exactly when no press directly follows the press of
another key. -/
theorem multi_tap_commits_iff (label : Option (List Char)) (km : KeysManager)
    (reached : (manager label).Reachable km) (editor : Widget)
    (active : km.editor = some editor) (text : km.flDigits = false) (events : List Event)
    (taps : ∀ event ∈ events, IsTap event) (timed : Timed km.timerRunning events)
    (settled : events.getLast? = some .timeout) :
    ∃ final, (manager label).runFrom km events = some final ∧
      ((commits final).map some = (commits km).map some ++
          (groups (tapsSince km events)).map (groupCommit editor km.flShift) ↔
        Separated (tapsSince km events)) := by
  have counted : Counted (pendingGroup km) := pending_group_counted km
  have typing : Typing editor km.flShift (pendingGroup km) km :=
    ⟨active, text, rfl, pending_group_pending (reachable_selects reached)⟩
  have pause : (events.map tapKey).getLast? = some none := by
    rw [List.getLast?_map, settled]
    rfl
  obtain ⟨final, run, sent⟩ := run_typing label events taps (pendingGroup km) km typing timed
  refine ⟨final, run, ?_⟩
  rw [sent, List.append_cancel_left_eq]
  constructor
  · intro same
    have lengths := congrArg List.length same
    rw [List.length_map, List.length_map] at lengths
    exact separated_of_kept_length counted pause lengths
  · intro separated
    rw [kept_groups counted pause separated]
    rfl

def lineEdit : Widget := ⟨1, false, false⟩

/-- The manager after `startEdit` on a text editor. -/
def editing : KeysManager := (constructed none).startEdit (some lineEdit)

theorem multi_tap_commits_after_pause :
    ∃ final, (manager none).runFrom editing
        [.keyPress .f7 false false, .keyPress .f7 false false, .timeout,
          .keyPress .f8 false false, .timeout] = some final ∧
      (commits final).map some = [some (lineEdit, 'а'), some (lineEdit, '3')] := by
  obtain ⟨final, run, committed⟩ := multi_tap_commits_iff none editing
    ⟨[.startEdit (some lineEdit)], rfl⟩ lineEdit rfl rfl
    [.keyPress .f7 false false, .keyPress .f7 false false, .timeout,
      .keyPress .f8 false false, .timeout] (by decide) (by simp [Timed]) rfl
  refine ⟨final, run, ?_⟩
  rw [committed.mpr (by decide)]
  decide

/-- Key 3 follows key 2 within the second: the symbol of key 2 is lost. -/
theorem second_key_overwrites_first :
    (groups ([.keyPress .f7 false false, .keyPress .f8 false false, .timeout].map tapKey)).map
        (groupCommit lineEdit false) = [some (lineEdit, '2'), some (lineEdit, '3')] ∧
      ((manager none).run
        [.startEdit (some lineEdit), .keyPress .f7 false false, .keyPress .f8 false false,
          .timeout]).map commits = some [(lineEdit, '3')] := by
  decide

end Testings.Keys
