import Testings.CStrings
import Testings.FoldUntil
import Testings.GpioTtyUart

/-!
# The baud rate and the bit period

`gpio_uart_init`, `baud_store` and `gu_set_termios` of `gpio_uart_tty.c` and of
`gpio_uart_tty_gpiod.c`. `kstrtoul` is the kernel's: it is a parameter here, a text
becomes a 64-bit number or is refused. A division by zero ends the run.
-/

set_option autoImplicit false

namespace Testings.GpioTty

inductive Fault where
  | divideByZero
  deriving DecidableEq

def nsecPerSec : Nat := 1000000000

def einval : Int := -22

/-- `GU->bit_period = ktime_set(0, NSEC_PER_SEC / GU->cfg.baud)` -/
def setBitPeriod (gu : GpioUart) : Except Fault GpioUart :=
  if gu.cfg.baud = 0 then .error .divideByZero
  else .ok { gu with bitPeriod := nsecPerSec / gu.cfg.baud }

def withBaud (gu : GpioUart) (baud : BitVec 32) : GpioUart :=
  { gu with cfg := { gu.cfg with baud := baud.toNat } }

/-- Both drivers start from this. -/
def defaultCfg (defaultBaud : BitVec 32) : GuCfg where
  baud := defaultBaud.toNat
  parity := 0
  stopbits := 1
  invert := false
  txEnable := true
  rxEnable := true

/-- The configuration in `gpio_uart_init` of `gpio_uart_tty.c`. -/
def initBaud (defaultBaud : BitVec 32) : Except Fault GpioUart :=
  let gu := gpioUartInit (defaultCfg defaultBaud) 0
  setBitPeriod (if gu.cfg.baud = 0 then withBaud gu 9600 else gu)

/-- The configuration in `gpio_uart_init` of `gpio_uart_tty_gpiod.c`, without the test. -/
def Gpiod.initBaud (defaultBaud : BitVec 32) : Except Fault GpioUart :=
  setBitPeriod (gpioUartInit (defaultCfg defaultBaud) 0)

/-- The number is compared with zero before it is narrowed to `unsigned int`. -/
def storedBaud (v : BitVec 64) (old : Nat) : Nat := if v ≠ 0 then (v.setWidth 32).toNat else old

/-- `baud_store` of both drivers: the new state and the return value. -/
def baudStore (kstrtoul : List (BitVec 8) → Option (BitVec 64)) (gu : GpioUart)
    (buf : List (BitVec 8)) : Except Fault (GpioUart × Int) :=
  match kstrtoul buf with
  | none => .ok (gu, einval)
  | some v => do
      let gu ← setBitPeriod { gu with cfg := { gu.cfg with baud := storedBaud v gu.cfg.baud } }
      .ok (gu, buf.length)

/-- What `gu_set_termios` reads: `baudRate` is the result of `tty_get_baud_rate`, the
others are bits of `c_cflag`. -/
structure Termios where
  baudRate : BitVec 32
  parenb : Bool
  parodd : Bool
  cstopb : Bool

/-- `gu_set_termios` of both drivers. -/
def guSetTermios (gu : GpioUart) (termios : Termios) : Except Fault GpioUart :=
  let baudNew := if termios.baudRate = 0 then gu.cfg.baud else termios.baudRate.toNat
  let gu := { gu with cfg := { gu.cfg with
    baud := baudNew
    parity := if termios.parenb then (if termios.parodd then 1 else 2) else 0
    stopbits := if termios.cstopb then 2 else 1 } }
  if gu.cfg.baud ≠ 0 then setBitPeriod gu else .ok gu

inductive Driver where
  | tty
  | gpiod
  deriving DecidableEq

inductive BaudOp where
  | store (buf : List (BitVec 8))
  | setTermios (termios : Termios)

def Driver.init : Driver → BitVec 32 → Except Fault GpioUart
  | .tty => initBaud
  | .gpiod => Gpiod.initBaud

section runs

variable (kstrtoul : List (BitVec 8) → Option (BitVec 64))

def baudStep (gu : GpioUart) : BaudOp → Except Fault GpioUart
  | .store buf => do
      let (gu, _) ← baudStore kstrtoul gu buf
      .ok gu
  | .setTermios termios => guSetTermios gu termios

/-- The driver after its start and so many operations. -/
def baudRun (driver : Driver) (defaultBaud : BitVec 32) (ops : List BaudOp) :
    Except Fault GpioUart := do
  let gu ← driver.init defaultBaud
  ops.foldlM (baudStep kstrtoul) gu

structure BaudValid (gu : GpioUart) : Prop where
  baud : 0 < gu.cfg.baud
  period : gu.bitPeriod = nsecPerSec / gu.cfg.baud
  positive : 0 < gu.bitPeriod

/-- There is no division by zero, and every state on the way is valid. -/
def StaysValid (driver : Driver) (defaultBaud : BitVec 32) (ops : List BaudOp) : Prop :=
  ∀ n, ∃ gu, baudRun kstrtoul driver defaultBaud (ops.take n) = .ok gu ∧ BaudValid gu

/-- Rates that the nanoseconds of a second can be divided by. -/
def BaudFits (baud : Nat) : Prop := 1 ≤ baud ∧ baud ≤ nsecPerSec

def Driver.DefaultFits (defaultBaud : BitVec 32) : Driver → Prop
  | .tty => defaultBaud = 0 ∨ BaudFits defaultBaud.toNat
  | .gpiod => BaudFits defaultBaud.toNat

/-- Zero keeps the rate there is. -/
def BaudOp.Fits : BaudOp → Prop
  | .store buf => ∀ v, kstrtoul buf = some v → v = 0 ∨ BaudFits (v.setWidth 32).toNat
  | .setTermios termios => termios.baudRate = 0 ∨ BaudFits termios.baudRate.toNat

variable {kstrtoul}

theorem baud_fits_iff {baud : Nat} : BaudFits baud ↔ 0 < baud ∧ 0 < nsecPerSec / baud := by
  constructor
  · intro fits
    exact ⟨fits.1, Nat.div_pos fits.2 fits.1⟩
  · intro both
    exact ⟨both.1, (Nat.div_pos_iff.mp both.2).2⟩

theorem BaudValid.fits {gu : GpioUart} (valid : BaudValid gu) : BaudFits gu.cfg.baud :=
  baud_fits_iff.mpr ⟨valid.baud, valid.period ▸ valid.positive⟩

/-- The division behind every operation. -/
theorem set_bit_period_valid_iff (gu : GpioUart) :
    (∃ next, setBitPeriod gu = .ok next ∧ BaudValid next) ↔ BaudFits gu.cfg.baud := by
  constructor
  · intro result
    obtain ⟨next, divided, valid⟩ := result
    unfold setBitPeriod at divided
    split_ifs at divided with zero
    cases divided
    exact valid.fits
  · intro fits
    obtain ⟨baud, positive⟩ := baud_fits_iff.mp fits
    exact ⟨_, if_neg (Nat.ne_of_gt baud), baud, rfl, positive⟩

/-- Zero stands for a rate that is known to fit. -/
theorem or_fits_iff {zero : Prop} [Decidable zero] {known baud : Nat} (fits : BaudFits known) :
    BaudFits (if zero then known else baud) ↔ zero ∨ BaudFits baud := by
  by_cases isZero : zero
  · rw [if_pos isZero]
    exact ⟨fun _ => .inl isZero, fun _ => fits⟩
  · rw [if_neg isZero]
    exact (or_iff_right isZero).symm

theorem to_nat_zero_iff {width : Nat} (x : BitVec width) : x.toNat = 0 ↔ x = 0 :=
  ⟨fun zero => BitVec.eq_of_toNat_eq zero, fun zero => zero ▸ BitVec.toNat_zero⟩

theorem init_valid_iff (driver : Driver) (defaultBaud : BitVec 32) :
    (∃ gu, driver.init defaultBaud = .ok gu ∧ BaudValid gu) ↔
      driver.DefaultFits defaultBaud := by
  cases driver with
  | gpiod => exact set_bit_period_valid_iff _
  | tty =>
      have fits : BaudFits 9600 := ⟨by decide, by decide⟩
      apply (set_bit_period_valid_iff _).trans
      rw [apply_ite GpioUart.cfg, apply_ite GuCfg.baud]
      apply (or_fits_iff fits).trans
      change defaultBaud.toNat = 0 ∨ _ ↔ _
      rw [to_nat_zero_iff]
      rfl

theorem baud_step_refused {buf : List (BitVec 8)} (refused : kstrtoul buf = none)
    (gu : GpioUart) : baudStep kstrtoul gu (.store buf) = .ok gu := by
  rw [baudStep, baudStore, refused]
  rfl

theorem baud_step_stored {buf : List (BitVec 8)} {v : BitVec 64} (read : kstrtoul buf = some v)
    (gu : GpioUart) :
    baudStep kstrtoul gu (.store buf) =
      setBitPeriod { gu with cfg := { gu.cfg with baud := storedBaud v gu.cfg.baud } } := by
  rw [baudStep, baudStore, read]
  dsimp only
  cases setBitPeriod _ <;> rfl

theorem baud_store_valid_iff {gu : GpioUart} (valid : BaudValid gu) (buf : List (BitVec 8)) :
    (∃ next, baudStep kstrtoul gu (.store buf) = .ok next ∧ BaudValid next) ↔
      (BaudOp.store buf).Fits kstrtoul := by
  cases read : kstrtoul buf with
  | none =>
      rw [baud_step_refused read]
      constructor
      · intro _ v found
        rw [read] at found
        cases found
      · intro _
        exact ⟨gu, rfl, valid⟩
  | some v =>
      rw [baud_step_stored read]
      apply (set_bit_period_valid_iff _).trans
      dsimp only
      rw [storedBaud, ite_not]
      apply (or_fits_iff valid.fits).trans
      constructor
      · intro fits w found
        rw [read] at found
        cases found
        exact fits
      · intro fits
        exact fits v read

theorem set_termios_valid_iff {gu : GpioUart} (valid : BaudValid gu) (termios : Termios) :
    (∃ next, guSetTermios gu termios = .ok next ∧ BaudValid next) ↔
      (BaudOp.setTermios termios).Fits kstrtoul := by
  unfold guSetTermios
  dsimp only
  have positive : (if termios.baudRate = 0 then gu.cfg.baud else termios.baudRate.toNat) ≠ 0 := by
    split_ifs with zero
    · exact Nat.ne_of_gt valid.baud
    · exact fun none => zero ((to_nat_zero_iff _).mp none)
  rw [if_pos positive]
  apply (set_bit_period_valid_iff _).trans
  exact or_fits_iff valid.fits

/-- One operation on a valid state. -/
theorem baud_step_valid_iff (gu : GpioUart) (op : BaudOp) (valid : BaudValid gu) :
    (∃ next, baudStep kstrtoul gu op = .ok next ∧ BaudValid next) ↔ op.Fits kstrtoul := by
  cases op with
  | store buf => exact baud_store_valid_iff valid buf
  | setTermios termios => exact set_termios_valid_iff valid termios

theorem stays_valid_iff_keeps {driver : Driver} {defaultBaud : BitVec 32} {ops : List BaudOp} :
    StaysValid kstrtoul driver defaultBaud ops ↔
      ∃ gu, driver.init defaultBaud = .ok gu ∧ KeepsGood (baudStep kstrtoul) BaudValid gu ops := by
  unfold StaysValid KeepsGood baudRun
  cases driver.init defaultBaud with
  | error fault =>
      constructor
      · intro stays
        obtain ⟨gu, ran, _⟩ := stays 0
        cases ran
      · intro started
        obtain ⟨gu, none, _⟩ := started
        cases none
  | ok gu =>
      constructor
      · intro stays
        exact ⟨gu, rfl, stays⟩
      · intro started
        obtain ⟨first, same, keeps⟩ := started
        cases same
        exact keeps

end runs

/-- The rate stays positive with its period, and nothing is divided by zero, exactly if the
default fits and every number that is stored or set does once it is narrowed. -/
theorem baud_stays_valid_iff (kstrtoul : List (BitVec 8) → Option (BitVec 64)) (driver : Driver)
    (defaultBaud : BitVec 32) (ops : List BaudOp) :
    StaysValid kstrtoul driver defaultBaud ops ↔
      driver.DefaultFits defaultBaud ∧ ∀ op ∈ ops, op.Fits kstrtoul := by
  rw [stays_valid_iff_keeps, ← init_valid_iff]
  constructor
  · intro started
    obtain ⟨gu, ready, keeps⟩ := started
    exact ⟨⟨gu, ready, keeps.start⟩, (keeps_good_iff baud_step_valid_iff ops keeps.start).mp keeps⟩
  · intro fit
    obtain ⟨⟨gu, ready, valid⟩, fits⟩ := fit
    exact ⟨gu, ready, (keeps_good_iff baud_step_valid_iff ops valid).mpr fits⟩

/-- `kstrtoul` on decimal digits. -/
def kstrtoulDecimal (buf : List (BitVec 8)) : Option (BitVec 64) :=
  if CStrings.isDigits buf ∧ CStrings.decimal buf < 18446744073709551616 then
    some (BitVec.ofNat 64 (CStrings.decimal buf))
  else none

/-- `4294967296` -/
def narrowedToZero : List (BitVec 8) :=
  [0x34, 0x32, 0x39, 0x34, 0x39, 0x36, 0x37, 0x32, 0x39, 0x36]

/-- The number passes the test for zero and is zero once it is narrowed. -/
theorem baud_store_divides_by_zero :
    baudRun kstrtoulDecimal .tty 9600 [.store narrowedToZero] = .error .divideByZero ∧
      ¬StaysValid kstrtoulDecimal .tty 9600 [.store narrowedToZero] := by
  have fault : baudRun kstrtoulDecimal .tty 9600 [.store narrowedToZero] =
      .error .divideByZero := by
    decide
  refine ⟨fault, ?_⟩
  intro stays
  obtain ⟨gu, ran, _⟩ := stays 1
  rw [List.take_succ_cons, List.take_zero, fault] at ran
  cases ran

end Testings.GpioTty
