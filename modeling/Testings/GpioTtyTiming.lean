import Mathlib.Tactic.Ring
import Testings.GpioTtyBaud

/-!
# The two time bases of the GPIO UART

`uart_tx_byte` holds a level for whole microseconds and the receiver counts bit
periods in nanoseconds, each truncated from the same rate. The remainders of the
two divisions tell where the middle of every bit is still inside its cell.
-/

set_option autoImplicit false

namespace Testings.GpioTty

def bitUs (cfg : GuCfg) : Nat := 1000000 / cfg.baud

structure TxCell where
  start : Nat
  stop : Nat
  level : Bool

def heldFor (ns : Nat) : Nat → List Bool → List TxCell
  | _, [] => []
  | now, v :: rest => ⟨now, now + ns, v⟩ :: heldFor ns (now + ns) rest

def uartTxCells (gu : GpioUart) (b : BitVec 8) : List TxCell :=
  heldFor (bitUs gu.cfg * 1000) 0 (uartTxByte gu b).2

theorem held_for_get (ns : Nat) (levels : List Bool) (now k : Nat) :
    (heldFor ns now levels)[k]? =
      levels[k]?.map fun v => ⟨now + k * ns, now + (k + 1) * ns, v⟩ := by
  induction levels generalizing now k with
  | nil => rfl
  | cons v rest ih =>
      cases k with
      | zero => simp [heldFor]
      | succ k =>
          have before : now + ns + k * ns = now + (k + 1) * ns := by ring
          have after : now + ns + (k + 1) * ns = now + (k + 1 + 1) * ns := by ring
          rw [heldFor, List.getElem?_cons_succ, List.getElem?_cons_succ, ih, before, after]

/-- The instant `(k + 1/2) * bit_period` is in the cell of bit `k`, in half nanoseconds. -/
def MidBitInside (gu : GpioUart) (k : Nat) : Prop :=
  2 * (k * bitUs gu.cfg * 1000) ≤ (2 * k + 1) * gu.bitPeriod ∧
    (2 * k + 1) * gu.bitPeriod < 2 * ((k + 1) * bitUs gu.cfg * 1000)

/-- From the first data bit to the first stop bit behind a parity bit. -/
def TimingAgrees (gu : GpioUart) : Prop := ∀ k, 1 ≤ k → k ≤ 10 → MidBitInside gu k

theorem mid_bit_inside_iff {gu : GpioUart} {b : BitVec 8} {k : Nat} {cell : TxCell}
    (sent : (uartTxCells gu b)[k]? = some cell) :
    MidBitInside gu k ↔ 2 * cell.start ≤ (2 * k + 1) * gu.bitPeriod ∧
      (2 * k + 1) * gu.bitPeriod < 2 * cell.stop := by
  rw [uartTxCells, held_for_get] at sent
  obtain ⟨v, _, same⟩ := Option.map_eq_some_iff.mp sent
  subst same
  dsimp only
  rw [Nat.zero_add, Nat.zero_add, MidBitInside, Nat.mul_assoc k, Nat.mul_assoc (k + 1)]

/-- What the two divisions leave of a second, in microseconds and in nanoseconds. -/
def RemaindersFit (baud : Nat) : Prop :=
  22000 * (1000000 % baud) < nsecPerSec + 21 * (nsecPerSec % baud)

instance (baud : Nat) : Decidable (RemaindersFit baud) := inferInstanceAs (Decidable (_ < _))

theorem remainders_fit_iff {baud : Nat} (positive : 0 < baud) :
    RemaindersFit baud ↔ 21 * (nsecPerSec / baud) < 22000 * (1000000 / baud) := by
  have micro := Nat.div_add_mod 1000000 baud
  have nano := Nat.div_add_mod nsecPerSec baud
  have scaled : 21 * (nsecPerSec / baud) < 22000 * (1000000 / baud) ↔
      21 * (baud * (nsecPerSec / baud)) < 22000 * (baud * (1000000 / baud)) := by
    rw [← Nat.mul_lt_mul_left positive, Nat.mul_left_comm, Nat.mul_left_comm baud 22000]
  rw [scaled, RemaindersFit]
  unfold nsecPerSec at nano ⊢
  omega

theorem timing_agrees_of_period {gu : GpioUart} (positive : 0 < gu.cfg.baud)
    (period : gu.bitPeriod = nsecPerSec / gu.cfg.baud) :
    TimingAgrees gu ↔ RemaindersFit gu.cfg.baud := by
  rw [remainders_fit_iff positive]
  constructor
  · intro agrees
    have last := (agrees 10 (by decide) (by decide)).2
    rw [period, bitUs] at last
    omega
  · intro fit k _ last
    -- the microseconds of a bit are never more than its nanoseconds
    have slower : bitUs gu.cfg * 1000 ≤ gu.bitPeriod := by
      rw [period, bitUs, Nat.mul_comm]
      exact Nat.mul_div_le_mul_div_assoc 1000 1000000 gu.cfg.baud
    rw [← period] at fit
    change 21 * gu.bitPeriod < 22000 * bitUs gu.cfg at fit
    constructor
    · calc 2 * (k * bitUs gu.cfg * 1000) = 2 * k * (bitUs gu.cfg * 1000) := by ring
        _ ≤ (2 * k + 1) * gu.bitPeriod := Nat.mul_le_mul (Nat.le_succ _) slower
    · have scaled : 21 * ((2 * k + 1) * gu.bitPeriod) <
          21 * (2 * ((k + 1) * bitUs gu.cfg * 1000)) :=
        calc 21 * ((2 * k + 1) * gu.bitPeriod) = (2 * k + 1) * (21 * gu.bitPeriod) := by ring
          _ < (2 * k + 1) * (22000 * bitUs gu.cfg) := Nat.mul_lt_mul_of_pos_left fit (by omega)
          _ = (2 * k + 1) * 22 * (1000 * bitUs gu.cfg) := by ring
          _ ≤ (2 * k + 2) * 21 * (1000 * bitUs gu.cfg) := Nat.mul_le_mul_right _ (by omega)
          _ = 21 * (2 * ((k + 1) * bitUs gu.cfg * 1000)) := by ring
      exact Nat.lt_of_mul_lt_mul_left scaled

theorem remainders_fit_common {baud : Nat} (positive : 0 < baud)
    (common : baud ≤ 45454 ∨ baud ∣ 1000000) : RemaindersFit baud := by
  unfold RemaindersFit nsecPerSec
  cases common with
  | inl slow =>
      have remainder : 1000000 % baud < baud := Nat.mod_lt _ positive
      omega
  | inr divides =>
      rw [Nat.mod_eq_zero_of_dvd divides]
      omega

theorem set_termios_period (gu : GpioUart) {termios : Termios}
    (positive : 0 < termios.baudRate.toNat) :
    ∃ after, guSetTermios gu termios = .ok after ∧
      after.cfg.baud = termios.baudRate.toNat ∧
      after.bitPeriod = nsecPerSec / after.cfg.baud := by
  have nonzero : termios.baudRate ≠ 0 := fun zero => by
    rw [zero] at positive
    exact absurd positive (by decide)
  unfold guSetTermios
  dsimp only
  rw [if_neg nonzero, if_pos (Nat.ne_of_gt positive), setBitPeriod, if_neg (Nat.ne_of_gt positive)]
  exact ⟨_, rfl, rfl, rfl⟩

/-- The middle of every bit is inside its cell exactly if the remainders fit. -/
theorem timing_agrees_iff (gu : GpioUart) (termios : Termios)
    (positive : 1 ≤ termios.baudRate.toNat) :
    (∃ after, guSetTermios gu termios = .ok after ∧ TimingAgrees after) ↔
      RemaindersFit termios.baudRate.toNat := by
  obtain ⟨after, set, baud, period⟩ := set_termios_period gu positive
  have iff : TimingAgrees after ↔ RemaindersFit termios.baudRate.toNat :=
    baud ▸ timing_agrees_of_period (baud ▸ positive) period
  rw [← iff]
  constructor
  · intro agrees
    obtain ⟨other, same, timing⟩ := agrees
    cases set.symm.trans same
    exact timing
  · intro timing
    exact ⟨after, set, timing⟩

def plainTermios (baudRate : BitVec 32) : Termios where
  baudRate := baudRate
  parenb := false
  parodd := false
  cstopb := false

theorem timing_agrees_at_9600 :
    ∃ after, guSetTermios (gpioUartInit (defaultCfg 9600) 0) (plainTermios 9600) = .ok after ∧
      TimingAgrees after :=
  (timing_agrees_iff _ _ (by decide)).mpr (by decide)

/-- A bit of 8 µs against a period of 8680 ns. -/
theorem timing_drifts_115200 :
    ¬∃ after, guSetTermios (gpioUartInit (defaultCfg 9600) 0) (plainTermios 115200) = .ok after ∧
      TimingAgrees after := by
  intro agrees
  obtain ⟨after, set, timing⟩ := agrees
  have known : guSetTermios (gpioUartInit (defaultCfg 9600) 0) (plainTermios 115200) =
      .ok (gpioUartInit (defaultCfg 115200) 8680) := by
    decide
  rw [known] at set
  cases set
  have late : ¬(2 * 10 + 1) * 8680 < 2 * ((10 + 1) * 8 * 1000) := by decide
  exact late (timing 10 (by decide) (by decide)).2

end Testings.GpioTty
