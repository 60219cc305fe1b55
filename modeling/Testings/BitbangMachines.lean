import Testings.BitbangDevice
import Testings.BitbangWriters

/-!
# The two bit machines never wedge

Four kinds of steps write `tx_chr.idx`, `rx_chr.idx` and the states of the two
timers. Once the device has been opened, both indices stay in the range that
the callbacks handle, and a timer that is not queued has left its index at -1.
-/

set_option autoImplicit false

namespace Testings.Bitbang

/-- The device and whether it has ever been opened. -/
def machines (periodMs : BitVec 32) : StepSystem (Device × Bool) Action :=
  (device periodMs).observe false fun _ action _ opened => opened || decide (action = .openFile)

/-- Until its timer expires, whatever else happens and however late the timer is
started, the first level driven is a start bit. -/
def StartsWithStartBit (periodMs : BitVec 32) (s : Device) : Prop :=
  ∀ actions next, .txExpire ∉ actions → (device periodMs).runFrom s actions = some next →
    next.txQueued = true →
      (txTimerCb next.uart).driven = some false ∧ (txTimerCb next.uart).uart.txChr.idx = 0

/-- A falling edge that the interrupt delivers starts the receive timer. -/
def AcceptsFallingEdge (s : Device) : Prop :=
  ∀ next, step s (.fallingEdge false) = some next → next.rxQueued = true

structure NeverWedged (periodMs : BitVec 32) (s : Device) : Prop where
  txRange : -1 ≤ s.uart.txChr.idx ∧ s.uart.txChr.idx ≤ 10
  rxRange : -1 ≤ s.uart.rxChr.idx ∧ s.uart.rxChr.idx ≤ 9
  txIdle : s.txQueued = false → s.uart.txChr.idx = -1 ∧ StartsWithStartBit periodMs s
  rxIdle : s.rxQueued = false → s.uart.rxChr.idx = -1 ∧ AcceptsFallingEdge s

structure MachinesInv (s : Device) : Prop where
  tx : IdxInRange s.uart
  rx : -1 ≤ s.uart.rxChr.idx ∧ s.uart.rxChr.idx ≤ 9
  txIdle : s.txQueued = false → s.uart.txChr.idx = -1
  rxIdle : s.rxQueued = false → s.uart.rxChr.idx = -1

theorem tx_stop_idle {d : BitbangUart} (range : IdxInRange d)
    (stops : (txTimerCb d).ret = .norestart) : (txTimerCb d).uart.txChr.idx = -1 := by
  have inside : ¬(10 < d.txChr.idx ∨ d.txChr.idx < -1) := by
    unfold IdxInRange at range
    omega
  revert stops
  unfold txTimerCb
  dsimp only
  rw [if_neg inside]
  split_ifs with idle
  · cases d.txFifo with
    | nil => exact fun _ => idle
    | cons byte remains => nofun
  all_goals nofun

theorem rx_tick_range (d : BitbangUart) (v : Bool)
    (range : -1 ≤ d.rxChr.idx ∧ d.rxChr.idx ≤ 9) :
    -1 ≤ (rxTimerCb d v).uart.rxChr.idx ∧ (rxTimerCb d v).uart.rxChr.idx ≤ 9 := by
  unfold rxTimerCb
  dsimp only
  split_ifs <;> dsimp only <;> omega

theorem rx_stop_idle (d : BitbangUart) (v : Bool) (stops : (rxTimerCb d v).ret = .norestart) :
    (rxTimerCb d v).uart.rxChr.idx = -1 := by
  revert stops
  unfold rxTimerCb
  dsimp only
  split_ifs with outside idle
  case pos => exact fun _ => rfl
  case pos => exact fun _ => idle
  all_goals first | exact fun _ => rfl | nofun

/-- A callback that leaves its timer unqueued has returned `HRTIMER_NORESTART`. -/
theorem unqueued_norestart {ret : HrtimerRestart} (unqueued : decide (ret = .restart) = false) :
    ret = .norestart := by
  cases ret with
  | norestart => rfl
  | restart => cases unqueued

/-- The two characters and whether their timers are queued are all that counts. -/
theorem MachinesInv.of_kept {s : Device} (inv : MachinesInv s) {uart : BitbangUart} {files : Nat}
    (tx : uart.txChr = s.uart.txChr) (rx : uart.rxChr = s.uart.rxChr) :
    MachinesInv { s with uart := uart, files := files } where
  tx := by simpa [IdxInRange, tx] using inv.tx
  rx := by simpa [rx] using inv.rx
  txIdle := by simpa [tx] using inv.txIdle
  rxIdle := by simpa [rx] using inv.rxIdle

/-- The first open resets both indices, whatever they were. -/
theorem machines_first_open {s : Device} (first : s.uart.openCount = 0) :
    MachinesInv { s with uart := bitbangUartOpen s.uart, files := s.files + 1 } := by
  obtain ⟨tx, rx⟩ := open_first first
  refine ⟨?_, ?_, ?_, ?_⟩
  · simp [IdxInRange, tx]
  · simp [rx]
  · simp [tx]
  · simp [rx]

theorem machines_open {s : Device} (inv : MachinesInv s) :
    MachinesInv { s with uart := bitbangUartOpen s.uart, files := s.files + 1 } := by
  by_cases first : s.uart.openCount = 0
  · exact machines_first_open first
  · obtain ⟨tx, rx⟩ := open_later first
    exact inv.of_kept tx rx

theorem machines_step {s next : Device} {action : Action} (inv : MachinesInv s)
    (taken : step s action = some next) : MachinesInv next := by
  cases step_cases taken with
  | openFile => exact machines_open inv
  | closeFile opened =>
      obtain ⟨-, tx, rx⟩ := close_kept s.uart
      exact inv.of_kept tx rx
  | write bytes count copied opened room taken =>
      refine ⟨inv.tx, inv.rx, ?_, inv.rxIdle⟩
      intro unqueued
      exact inv.txIdle (Bool.or_eq_false_iff.mp unqueued).1
  | read room count n opened => exact ⟨inv.tx, inv.rx, inv.txIdle, inv.rxIdle⟩
  | fallingEdge val enabled =>
      refine ⟨inv.tx, inv.rx, inv.txIdle, ?_⟩
      intro unqueued
      exact inv.rxIdle (Bool.or_eq_false_iff.mp unqueued).1
  | txExpire queued =>
      have kept := (tx_tick_keeps_rx s.uart).1
      refine ⟨tick_idx_in_range inv.tx, ?_, ?_, ?_⟩
      · simpa [kept] using inv.rx
      · intro unqueued
        exact tx_stop_idle inv.tx (unqueued_norestart unqueued)
      · simpa [kept] using inv.rxIdle
  | rxExpire v queued =>
      have kept := (rx_tick_keeps_tx s.uart v).1
      refine ⟨?_, rx_tick_range s.uart v inv.rx, ?_, ?_⟩
      · simpa [IdxInRange, kept] using inv.tx
      · simpa [kept] using inv.txIdle
      · intro unqueued
        exact rx_stop_idle s.uart v (unqueued_norestart unqueued)

/-- The transmitter is between two characters, and queued only with a byte to send. -/
structure BetweenCharacters (s : Device) : Prop where
  idle : s.uart.txChr.idx = -1
  ready : s.txQueued = true → s.uart.txFifo ≠ []

theorem between_characters_step {s next : Device} {action : Action} (between : BetweenCharacters s)
    (other : action ≠ .txExpire) (taken : step s action = some next) :
    BetweenCharacters next := by
  cases step_cases taken with
  | openFile =>
      have fifo := open_tx_fifo s.uart
      by_cases first : s.uart.openCount = 0
      · obtain ⟨tx, -⟩ := open_first first
        exact ⟨by simp [tx], by simpa [fifo] using between.ready⟩
      · obtain ⟨tx, -⟩ := open_later first
        exact ⟨by simpa [tx] using between.idle, by simpa [fifo] using between.ready⟩
  | closeFile opened =>
      obtain ⟨fifo, tx, -⟩ := close_kept s.uart
      exact ⟨by simpa [tx] using between.idle, by simpa [fifo] using between.ready⟩
  | write bytes count copied opened room taken =>
      refine ⟨between.idle, ?_⟩
      intro queued empty
      obtain ⟨fifo, nothing⟩ := List.append_eq_nil_iff.mp empty
      rcases Bool.or_eq_true_iff.mp queued with before | starts
      · exact between.ready before fifo
      · simp [bitbangTxStarts, nothing] at starts
  | read room count n opened => exact ⟨between.idle, between.ready⟩
  | fallingEdge val enabled => exact ⟨between.idle, between.ready⟩
  | txExpire queued => exact absurd rfl other
  | rxExpire v queued =>
      obtain ⟨tx, fifo⟩ := rx_tick_keeps_tx s.uart v
      exact ⟨by simpa [tx] using between.idle, by simpa [fifo] using between.ready⟩

theorem between_characters_run {periodMs : BitVec 32} {actions : List Action} {s next : Device}
    (between : BetweenCharacters s) (others : .txExpire ∉ actions)
    (reached : (device periodMs).runFrom s actions = some next) : BetweenCharacters next := by
  induction actions generalizing s with
  | nil =>
      have same : s = next := Option.some.inj reached
      exact same ▸ between
  | cons action rest ih =>
      obtain ⟨middle, taken, remaining⟩ := StepSystem.run_from_cons_some.mp reached
      rw [List.mem_cons, not_or] at others
      exact ih (between_characters_step between (Ne.symm others.1) taken) others.2 remaining

theorem MachinesInv.starts_with_start_bit {periodMs : BitVec 32} {s : Device}
    (inv : MachinesInv s) (unqueued : s.txQueued = false) : StartsWithStartBit periodMs s := by
  intro actions next others reached queued
  have between : BetweenCharacters s := ⟨inv.txIdle unqueued, by simp [unqueued]⟩
  have started := between_characters_run between others reached
  obtain ⟨byte, remains, fifo⟩ := List.exists_cons_of_ne_nil (started.ready queued)
  rw [tx_start_bit started.idle fifo]
  exact ⟨rfl, rfl⟩

theorem MachinesInv.accepts_falling_edge {s : Device} (inv : MachinesInv s)
    (unqueued : s.rxQueued = false) : AcceptsFallingEdge s := by
  intro next taken
  cases step_cases taken with
  | fallingEdge val enabled => simp [rxIrqHandler, inv.rxIdle unqueued]

theorem reachable_machines_inv {periodMs : BitVec 32} {s : Device × Bool}
    (reached : (machines periodMs).Reachable s) :
    (s.2 = false ∧ NeverOpened s.1) ∨ MachinesInv s.1 := by
  refine reached.invariant (fun s => (s.2 = false ∧ NeverOpened s.1) ∨ MachinesInv s.1)
    (.inl ⟨rfl, device_probed_never_opened periodMs⟩) ?_
  apply StepSystem.observe_preserved
  intro s action next opened before taken
  rcases before with ⟨-, fresh⟩ | inv
  · obtain ⟨rfl, -⟩ := fresh.opens taken
    cases taken
    exact .inr (machines_first_open fresh.count)
  · exact .inr (machines_step inv taken)

theorem machines_never_wedge {periodMs : BitVec 32} {s : Device × Bool}
    (reached : (machines periodMs).Reachable s) (opened : s.2 = true) :
    NeverWedged periodMs s.1 := by
  rcases reachable_machines_inv reached with ⟨never, -⟩ | inv
  · rw [opened] at never
    cases never
  · exact {
      txRange := inv.tx
      rxRange := inv.rx
      txIdle := fun unqueued => ⟨inv.txIdle unqueued, inv.starts_with_start_bit unqueued⟩
      rxIdle := fun unqueued => ⟨inv.rxIdle unqueued, inv.accepts_falling_edge unqueued⟩ }

/-- In the middle of a character, after a close and another first open. -/
theorem machines_never_wedge_after_reopen :
    ∃ s : Device, s.txQueued = true ∧ s.rxQueued = false ∧ NeverWedged 10 s := by
  obtain ⟨s, reached, passes⟩ := (machines 10).reachable_of_run
    [.openFile, .write [0x47] 1, .txExpire, .txExpire, .closeFile, .openFile, .fallingEdge false,
      .rxExpire false, .rxExpire true, .closeFile, .openFile, .rxExpire true]
    (fun s => s.2 && s.1.txQueued && !s.1.rxQueued) (by decide)
  simp only [Bool.and_eq_true, Bool.not_eq_true'] at passes
  obtain ⟨⟨opened, queued⟩, stopped⟩ := passes
  exact ⟨s.1, queued, stopped, machines_never_wedge reached opened⟩

end Testings.Bitbang
