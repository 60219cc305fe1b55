import Testings.KeysMultiTap

/-!
# Edit sessions and the pending symbol

A session lasts from a `startEdit` that takes effect to the next `stopEdit`.
Neither of them touches the pending symbol or the timer, so a symbol selected
in one session can still be pending when the next one begins. A `Journal`
follows the presses that selected it.
-/

set_option autoImplicit false

namespace Testings.Keys

structure Press where
  key : Nat
  session : Nat
  deriving DecidableEq

/-- A symbol that the timer sent, with the presses that had selected it. -/
structure TimerCommit where
  session : Nat
  digitsOnly : Bool
  presses : List Press
  deriving DecidableEq

/-- `carried` tells that the current session began with the pending symbol
already pending. -/
structure Journal where
  sessions : Nat
  presses : List Press
  carried : Bool
  commits : List TimerCommit

/-- Presses of one key select together; a press of another key starts over, and
a press in a digits-only session is sent at once. -/
def recordPress (km : KeysManager) (key : Nat) (journal : Journal) : Journal :=
  if km.flDigits then { journal with presses := [], carried := false }
  else
    { journal with
      presses := journal.presses.filter (fun press => press.key = key) ++ [⟨key, journal.sessions⟩]
      carried := journal.carried && km.currentAlphaKey == key }

def recordTimeout (km next : KeysManager) (journal : Journal) : Journal :=
  { journal with
    presses := []
    carried := false
    commits :=
      if commits next = commits km then journal.commits
      else journal.commits ++
        [⟨journal.sessions, km.editor.any Widget.digits, journal.presses⟩] }

def recordJournal (km : KeysManager) (event : Event) (next : KeysManager) (journal : Journal) :
    Journal :=
  match event with
  | .keyPress code _ _ =>
      if km.editor.isSome ∧ keyIndex code ≤ keyOk then recordPress km (keyIndex code) journal
      else journal
  | .timeout => recordTimeout km next journal
  | .startEdit w =>
      if km.editor.isNone ∧ w.isSome then
        { journal with
          sessions := journal.sessions + 1
          carried := decide (km.currentAlphaKey ≤ key9) }
      else journal
  | _ => journal

def journaled (label : Option (List Char)) : StepSystem (KeysManager × Journal) Event :=
  (manager label).observe ⟨0, [], false, []⟩ recordJournal

/-- The symbol was selected in the session that it went to, which takes text. -/
def TimerCommit.Own (c : TimerCommit) : Prop :=
  c.presses ≠ [] ∧ (∀ press ∈ c.presses, press.session = c.session) ∧ c.digitsOnly = false

instance (c : TimerCommit) : Decidable c.Own := by
  unfold TimerCommit.Own
  infer_instance

/-- The timer does not expire in a session that began with the pending symbol. -/
def NothingCarried (state : KeysManager × Journal) (event : Event) : Prop :=
  match event with
  | .timeout => state.1.editor.isSome → state.2.carried = false
  | _ => True

instance (state : KeysManager × Journal) (event : Event) :
    Decidable (NothingCarried state event) := by
  unfold NothingCarried
  split <;> infer_instance

structure Untyped (km next : KeysManager) : Prop where
  alpha : next.currentAlphaKey = km.currentAlphaKey
  digits : next.flDigits = km.flDigits
  editor : next.editor = km.editor ∨ next.editor = none

theorem KeysManager.Emits.untyped {km next : KeysManager} (emits : KeysManager.Emits km next) :
    Untyped km next := by
  obtain ⟨_, rfl, _⟩ := emits
  exact ⟨rfl, rfl, Or.inl rfl⟩

theorem KeysManager.Edits.untyped {km next : KeysManager} (edits : KeysManager.Edits km next) :
    Untyped km next := by
  obtain ⟨_, _, _, rfl, _, editor⟩ := edits
  exact ⟨rfl, rfl, editor⟩

structure Typed (km : KeysManager) (key : Nat) (next : KeysManager) : Prop where
  alpha : next.currentAlphaKey = if km.flDigits then keyUnknown else key
  digits : next.flDigits = km.flDigits
  editor : next.editor = km.editor

theorem alpha_key_typed {km next : KeysManager} {key : Nat}
    (taken : km.processAlphaKey key = some next) : Typed km key next := by
  obtain ⟨syms, _, digit | letter⟩ := KeysManager.alpha_key_cases taken
  · obtain ⟨digits, _, _, _, _, rfl⟩ := digit
    exact ⟨(if_pos digits).symm, rfl, rfl⟩
  · obtain ⟨text, shown⟩ := letter
    have selected : Typed km key (km.selectSymbol key syms) := by
      obtain ⟨current, _, _⟩ := select_symbol_frame km key syms
      refine ⟨current.trans (if_neg (Bool.eq_false_iff.mp text)).symm, ?_, ?_⟩
      · rw [KeysManager.selectSymbol]
        split <;> rfl
      · rw [KeysManager.selectSymbol]
        split <;> rfl
    obtain rfl | ⟨_, rfl⟩ := shown
    · exact selected
    · exact ⟨selected.alpha, selected.digits, selected.editor⟩

theorem key_press_typed {km next : KeysManager} {key : Nat} {autorepeat slave : Bool}
    (taken : km.processKeyPress key autorepeat slave = some next) :
    if km.editor.isSome ∧ key ≤ keyOk then Typed km key next else Untyped km next := by
  unfold KeysManager.processKeyPress at taken
  split at taken
  case isFalse => cases taken
  case isTrue inTable =>
    dsimp only at taken
    split at taken
    next idle =>
      rw [if_neg (by simp [idle])]
      obtain ⟨alpha, digits, editor⟩ := (KeysManager.outside_emits taken).untyped
      exact ⟨alpha, digits, editor⟩
    next editor active =>
      split at taken
      next edit =>
        split at taken
        next alphaKey =>
          rw [if_pos ⟨by rw [active]; rfl, alphaKey⟩]
          obtain ⟨alpha, digits, editor⟩ := alpha_key_typed taken
          exact ⟨alpha, digits, editor⟩
        next notAlpha =>
          rw [if_neg (fun both => notAlpha both.2)]
          split at taken
          · cases taken
            exact ⟨rfl, rfl, Or.inl rfl⟩
          · cases taken
            obtain ⟨alpha, digits, editor⟩ := (KeysManager.edit_key_edits { km with
              timerRunning := true, keysPressed := km.keysPressed.set key true inTable }
              editor key).untyped
            exact ⟨alpha, digits, editor⟩
      next notEdit =>
        rw [if_neg (fun both => notEdit (Nat.le_trans both.2 (by decide)))]
        obtain ⟨alpha, digits, editor⟩ := (KeysManager.outside_emits taken).untyped
        exact ⟨alpha, digits, editor⟩

theorem key_release_untyped {km next : KeysManager} {key : Nat} {autorepeat : Bool}
    (taken : km.processKeyRelease key autorepeat = some next) : Untyped km next := by
  unfold KeysManager.processKeyRelease at taken
  split at taken
  · cases taken
    exact ⟨rfl, rfl, Or.inl rfl⟩
  · split at taken
    · dsimp only at taken
      split at taken
      · cases taken
        exact ⟨rfl, rfl, Or.inl rfl⟩
      · obtain ⟨emitter, found, rfl⟩ := Option.map_eq_some_iff.mp taken
        obtain ⟨alpha, digits, editor⟩ :=
          (KeysManager.release_emitter_emits (List.mem_of_getElem? found) _).untyped
        exact ⟨alpha, digits, editor⟩
    · cases taken

/-- The timer sends the pending symbol to the active editor, whichever it is. -/
theorem timer_expired {km next : KeysManager} (taken : km.timerEvent = some next) :
    next.currentAlphaKey = keyUnknown ∧ next.flDigits = km.flDigits ∧ next.editor = km.editor ∧
      (commits next = commits km ↔ ¬(km.editor.isSome ∧ km.currentAlphaKey ≤ key9)) := by
  simp only [KeysManager.timerEvent, Option.bind_eq_bind, Option.bind_eq_some_iff,
    Option.some.injEq] at taken
  obtain ⟨released, releases, committed, commit, rfl⟩ := taken
  obtain ⟨_, same, keysPressed, signals, rfl, unsent⟩ := releases_quiet (List.range keyMax)
    (fun key member => List.mem_range.mp member) { km with timerRunning := false }
  cases same.symm.trans releases
  unfold KeysManager.commitSymbol at commit
  split at commit
  next idle =>
    cases commit
    refine ⟨rfl, rfl, rfl, ?_⟩
    have none : km.editor = none := idle
    simp only [none, Option.isSome_none, Bool.false_eq_true, false_and, not_false_iff, iff_true]
    exact unsent
  next editor active =>
    have some : km.editor = some editor := active
    split at commit
    next pending =>
      simp only [Option.bind_eq_bind, Option.bind_eq_some_iff, Option.some.injEq] at commit
      obtain ⟨syms, _, sym, _, rfl⟩ := commit
      refine ⟨rfl, rfl, rfl, iff_of_false ?_ (not_not.mpr ⟨by rw [some]; rfl, pending⟩)⟩
      intro unchanged
      have sent := (commits_commit _ _ _).symm.trans unchanged
      rw [unsent] at sent
      exact List.cons_ne_nil _ _ (List.append_right_eq_self.mp sent)
    next idle =>
      cases commit
      exact ⟨rfl, rfl, rfl, iff_of_true unsent fun both => idle both.2⟩

structure JournalInv (state : KeysManager × Journal) : Prop where
  digits : ∀ w, state.1.editor = some w → state.1.flDigits = w.digits
  keys : ∀ press ∈ state.2.presses, press.key = state.1.currentAlphaKey
  selected : state.1.currentAlphaKey ≤ key9 → state.2.presses ≠ []
  past : ∀ press ∈ state.2.presses, press.session ≤ state.2.sessions
  own : state.1.currentAlphaKey ≤ key9 → state.2.carried = false →
    ∀ press ∈ state.2.presses, press.session = state.2.sessions
  foreign : state.2.carried = true →
    state.1.currentAlphaKey ≤ key9 ∧ ∃ press ∈ state.2.presses, press.session < state.2.sessions
  text : state.1.currentAlphaKey ≤ key9 → state.1.editor.isSome → state.1.flDigits = true →
    state.2.carried = true

theorem journal_start (label : Option (List Char)) :
    JournalInv (constructed label, ⟨0, [], false, []⟩) where
  digits := nofun
  keys := nofun
  selected := fun pending => absurd pending (by decide : ¬keyUnknown ≤ key9)
  past := nofun
  own := fun _ _ => nofun
  foreign := nofun
  text := nofun

/-- Nothing is pending any more. -/
theorem JournalInv.forget {km next : KeysManager} {journal : Journal}
    (before : JournalInv (km, journal)) (alpha : next.currentAlphaKey = keyUnknown)
    (digits : next.flDigits = km.flDigits) (editor : next.editor = km.editor)
    (sent : List TimerCommit) :
    JournalInv (next, { journal with presses := [], carried := false, commits := sent }) where
  digits := by
    intro w active
    rw [digits]
    exact before.digits w (editor ▸ active)
  keys := nofun
  selected := fun pending => absurd (alpha ▸ pending) (by decide)
  past := nofun
  own := fun _ _ => nofun
  foreign := nofun
  text := fun pending => absurd (alpha ▸ pending) (by decide)

theorem JournalInv.untyped {km next : KeysManager} {journal : Journal}
    (before : JournalInv (km, journal)) (untyped : Untyped km next) :
    JournalInv (next, journal) := by
  obtain ⟨alpha, digits, editor⟩ := untyped
  have kept {w : Widget} (active : next.editor = some w) : km.editor = some w := by
    rcases editor with same | stopped
    · exact same ▸ active
    · rw [stopped] at active
      cases active
  refine ⟨?_, ?_, ?_, before.past, ?_, ?_, ?_⟩
  · intro w active
    exact digits.trans (before.digits w (kept active))
  · intro press member
    exact (before.keys press member).trans alpha.symm
  · intro pending
    exact before.selected (alpha ▸ pending)
  · intro pending
    exact before.own (alpha ▸ pending)
  · intro carried
    dsimp only
    rw [alpha]
    exact before.foreign carried
  · intro pending active digitsOnly
    obtain ⟨w, editing⟩ := Option.isSome_iff_exists.mp active
    exact before.text (alpha ▸ pending) (by rw [kept editing]; rfl) (digits ▸ digitsOnly)

theorem JournalInv.typed {km next : KeysManager} {journal : Journal} {key : Nat}
    (before : JournalInv (km, journal)) (typed : Typed km key next) :
    JournalInv (next, recordPress km key journal) := by
  obtain ⟨alpha, digits, editor⟩ := typed
  unfold recordPress
  split_ifs with digitsOnly
  · rw [if_pos digitsOnly] at alpha
    exact before.forget alpha digits editor journal.commits
  · rw [if_neg digitsOnly] at alpha
    have kept {press : Press}
        (member : press ∈ journal.presses.filter fun press => press.key = key) :
        press ∈ journal.presses ∧ km.currentAlphaKey = key := by
      obtain ⟨listed, same⟩ := List.mem_filter.mp member
      exact ⟨listed, (before.keys press listed).symm.trans (of_decide_eq_true same)⟩
    refine ⟨?_, ?_, ?_, ?_, ?_, ?_, ?_⟩
    · intro w active
      exact digits.trans (before.digits w (editor ▸ active))
    · intro press member
      rw [alpha]
      rcases List.mem_append.mp member with listed | new
      · exact of_decide_eq_true (List.mem_filter.mp listed).2
      · rw [List.mem_singleton.mp new]
    · intro _
      exact List.append_ne_nil_of_right_ne_nil _ (List.cons_ne_nil _ _)
    · intro press member
      rcases List.mem_append.mp member with listed | new
      · exact before.past press (kept listed).1
      · exact le_of_eq (congrArg Press.session (List.mem_singleton.mp new))
    · intro pending clean press member
      rw [alpha] at pending
      rcases List.mem_append.mp member with listed | new
      · obtain ⟨old, same⟩ := kept listed
        have own : journal.carried = false := by simpa [same] using clean
        exact before.own (same ▸ pending) own press old
      · exact congrArg Press.session (List.mem_singleton.mp new)
    · intro carried
      obtain ⟨stale, same⟩ := Bool.and_eq_true_iff.mp carried
      obtain ⟨pending, press, listed, older⟩ := before.foreign stale
      have current : km.currentAlphaKey = key := eq_of_beq same
      refine ⟨?_, press, ?_, older⟩
      · rw [alpha, ← current]
        exact pending
      · apply List.mem_append_left
        exact List.mem_filter.mpr
          ⟨listed, decide_eq_true ((before.keys press listed).trans current)⟩
    · intro _ _ flDigits
      exact absurd (digits ▸ flDigits) digitsOnly

theorem JournalInv.started {km : KeysManager} {journal : Journal}
    (before : JournalInv (km, journal)) (idle : km.editor = none) (w : Widget) :
    JournalInv (km.startEdit (some w), { journal with
      sessions := journal.sessions + 1
      carried := decide (km.currentAlphaKey ≤ key9) }) := by
  have begun : (km.startEdit (some w)).editor = some w ∧
      (km.startEdit (some w)).flDigits = w.digits ∧
      (km.startEdit (some w)).currentAlphaKey = km.currentAlphaKey := by
    unfold KeysManager.startEdit
    rw [idle]
    exact ⟨rfl, rfl, rfl⟩
  obtain ⟨editor, digits, alpha⟩ := begun
  refine ⟨?_, ?_, ?_, ?_, ?_, ?_, ?_⟩
  · intro other active
    cases editor.symm.trans active
    exact digits
  · intro press member
    exact (before.keys press member).trans alpha.symm
  · intro pending
    exact before.selected (alpha ▸ pending)
  · intro press member
    exact Nat.le_succ_of_le (before.past press member)
  · intro pending clean
    rw [alpha] at pending
    exact absurd pending (of_decide_eq_false clean)
  · intro carried
    have pending : km.currentAlphaKey ≤ key9 := of_decide_eq_true carried
    obtain ⟨press, listed⟩ := List.exists_mem_of_ne_nil _ (before.selected pending)
    exact ⟨alpha ▸ pending, press, listed, Nat.lt_succ_of_le (before.past press listed)⟩
  · intro pending _ _
    exact decide_eq_true (alpha ▸ pending)

theorem journal_step {label : Option (List Char)} {km next : KeysManager} {event : Event}
    {journal : Journal} (before : JournalInv (km, journal))
    (taken : (manager label).step km event = some next) :
    JournalInv (next, recordJournal km event next journal) := by
  simp only [manager] at taken
  split at taken
  case isFalse => cases taken
  case isTrue enabled =>
  cases event with
  | keyPress code autorepeat slave =>
      simp only [handle] at taken
      split at taken
      next known =>
        have pressed := key_press_typed taken
        simp only [recordJournal]
        split_ifs at pressed ⊢ with alphaKey
        · exact before.typed pressed
        · exact before.untyped pressed
      next unknown =>
        cases taken
        have other : ¬(km.editor.isSome ∧ keyIndex code ≤ keyOk) :=
          fun both => unknown (Nat.lt_of_le_of_lt both.2 (by decide))
        rw [recordJournal, if_neg other]
        exact before
  | keyRelease code autorepeat =>
      simp only [handle] at taken
      split at taken
      · exact before.untyped (key_release_untyped taken)
      · cases taken
        exact before
  | timeout =>
      obtain ⟨alpha, digits, editor, _⟩ := timer_expired taken
      exact before.forget alpha digits editor _
  | startEdit w =>
      cases taken
      simp only [recordJournal]
      split_ifs with starts
      · obtain ⟨idle, given⟩ := starts
        obtain ⟨w, rfl⟩ := Option.isSome_iff_exists.mp given
        exact before.started (Option.isNone_iff_eq_none.mp idle) w
      · have same : km.startEdit w = km := by
          unfold KeysManager.startEdit
          split
          next idle => exact absurd ⟨by rw [idle]; rfl, rfl⟩ starts
          · rfl
        rw [same]
        exact before
  | stopEdit ok =>
      cases taken
      exact before.untyped ((KeysManager.stop_edit_edits km ok).untyped)
  | setShift fl =>
      cases taken
      exact before.untyped ⟨rfl, rfl, Or.inl rfl⟩

theorem reachable_journal {label : Option (List Char)} {state : KeysManager × Journal}
    (reached : (journaled label).Reachable state) : JournalInv state := by
  apply reached.invariant JournalInv (journal_start label)
  apply StepSystem.observe_preserved
  intro km event next journal before taken
  exact journal_step before taken

def AllOwn (state : KeysManager × Journal) : Prop := ∀ c ∈ state.2.commits, c.Own

/-- Only the timer adds to the symbols it has sent. -/
theorem record_commits {km next : KeysManager} {event : Event} {journal : Journal}
    (other : event ≠ .timeout) :
    (recordJournal km event next journal).commits = journal.commits := by
  unfold recordJournal
  split
  · split_ifs
    · unfold recordPress
      split_ifs <;> rfl
    · rfl
  · exact absurd rfl other
  · split_ifs <;> rfl
  · rfl

theorem all_own_timeout {km next : KeysManager} {journal : Journal}
    (inv : JournalInv (km, journal)) (own : AllOwn (km, journal))
    (clean : km.editor.isSome → journal.carried = false) (taken : km.timerEvent = some next) :
    AllOwn (next, recordTimeout km next journal) := by
  obtain ⟨_, _, _, unsent⟩ := timer_expired taken
  intro c member
  simp only [recordTimeout] at member
  split_ifs at member with same
  · exact own c member
  · obtain ⟨active, pending⟩ := not_not.mp (mt unsent.mpr same)
    have notCarried := clean active
    rcases List.mem_append.mp member with earlier | new
    · exact own c earlier
    · rw [List.mem_singleton.mp new]
      refine ⟨inv.selected pending, inv.own pending notCarried, ?_⟩
      obtain ⟨w, editing⟩ := Option.isSome_iff_exists.mp active
      have text : km.flDigits = false := by
        by_contra digitsOnly
        have carried := inv.text pending active (Bool.not_eq_false _ ▸ digitsOnly)
        rw [notCarried] at carried
        cases carried
      have digits := inv.digits w editing
      dsimp only at digits
      rw [editing, Option.any_some, ← digits, text]

theorem all_own_step {label : Option (List Char)} {km next : KeysManager} {event : Event}
    {journal : Journal} (before : JournalInv (km, journal) ∧ AllOwn (km, journal))
    (clean : NothingCarried (km, journal) event)
    (taken : (manager label).step km event = some next) :
    AllOwn (next, recordJournal km event next journal) := by
  by_cases expired : event = .timeout
  · subst expired
    simp only [manager] at taken
    split at taken
    · exact all_own_timeout before.1 before.2 clean taken
    · cases taken
  · unfold AllOwn
    dsimp only
    rw [record_commits expired]
    exact before.2

/-- An expiration in a session that began with the pending symbol sends it to
that session. -/
theorem carried_symbol_foreign {label : Option (List Char)} {km next : KeysManager}
    {event : Event} {journal : Journal} (inv : JournalInv (km, journal))
    (carried : ¬NothingCarried (km, journal) event)
    (taken : (manager label).step km event = some next) :
    ¬AllOwn (next, recordJournal km event next journal) := by
  cases event with
  | timeout =>
      obtain ⟨active, notClean⟩ := Classical.not_imp.mp carried
      obtain ⟨pending, press, listed, older⟩ := inv.foreign (Bool.not_eq_false _ ▸ notClean)
      simp only [manager] at taken
      split at taken
      case isFalse => cases taken
      case isTrue =>
        obtain ⟨_, _, _, unsent⟩ := timer_expired taken
        have sent : ¬commits next = commits km := fun same => unsent.mp same ⟨active, pending⟩
        intro own
        have new := own ⟨journal.sessions, km.editor.any Widget.digits, journal.presses⟩ (by
          simp only [recordJournal, recordTimeout, if_neg sent]
          exact List.mem_append_right _ (List.mem_singleton_self _))
        have same := new.2.1 press listed
        exact absurd same (Nat.ne_of_lt older)
  | keyPress | keyRelease | startEdit | stopEdit | setShift => exact absurd trivial carried

/-- In every run in which the timer does not expire in a session that began
with the pending symbol, each symbol the timer sends was selected in the
session that it goes to, which takes text; an expiration in such a session
always sends one that was not. -/
theorem timer_symbol_own (label : Option (List Char)) :
    (∀ state, ((journaled label).restrict NothingCarried).Reachable state → AllOwn state) ∧
      ∀ state event next, (journaled label).Reachable state → ¬NothingCarried state event →
        (journaled label).step state event = some next → ¬AllOwn next := by
  constructor
  · intro state reached
    have kept : JournalInv state ∧ AllOwn state := by
      apply reached.invariant (fun state => JournalInv state ∧ AllOwn state)
      · exact ⟨journal_start label, nofun⟩
      · apply StepSystem.restrict_observe_preserved
        intro km event next journal before clean taken
        exact ⟨journal_step before.1 taken, all_own_step before clean taken⟩
    exact kept.2
  · intro state event next reached carried taken
    obtain ⟨moved, recorded⟩ := StepSystem.observe_step_some.mp taken
    rw [← Prod.eta next, recorded]
    exact carried_symbol_foreign (reachable_journal reached) carried moved

def otherEdit : Widget := ⟨2, false, false⟩

theorem timer_symbol_own_after_pause :
    ∃ state : KeysManager × Journal,
      state.2.commits = [⟨1, false, [⟨2, 1⟩, ⟨2, 1⟩]⟩] ∧ AllOwn state := by
  obtain ⟨state, reached, passes⟩ := StepSystem.reachable_of_run
    ((journaled none).restrict NothingCarried)
    [.startEdit (some lineEdit), .keyPress .f7 false false, .keyPress .f7 false false, .timeout,
      .stopEdit true, .startEdit (some otherEdit)]
    (fun state => decide (state.2.commits = [⟨1, false, [⟨2, 1⟩, ⟨2, 1⟩]⟩])) (by decide)
  exact ⟨state, of_decide_eq_true passes, (timer_symbol_own none).1 state reached⟩

/-- OK within a second of key 2, then another editor: the symbol goes there. -/
theorem symbol_reaches_next_editor :
    ¬∀ (label : Option (List Char)) (state : KeysManager × Journal),
      (journaled label).Reachable state → AllOwn state := by
  intro always
  obtain ⟨state, reached, passes⟩ := StepSystem.reachable_of_run (journaled none)
    [.startEdit (some lineEdit), .keyPress .f7 false false, .keyPress .f1 false false,
      .startEdit (some otherEdit), .timeout]
    (fun state => decide (commits state.1 = [(otherEdit, '2')] ∧
      state.2.commits = [⟨2, false, [⟨2, 1⟩]⟩])) (by decide)
  obtain ⟨_, sent⟩ := of_decide_eq_true passes
  have member : ⟨2, false, [⟨2, 1⟩]⟩ ∈ state.2.commits := by
    rw [sent]
    exact List.mem_singleton_self _
  exact absurd (always none state reached _ member) (by decide)

end Testings.Keys
