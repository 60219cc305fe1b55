import Testings.AsyncSerial
import Mathlib.Data.List.GetD

/-!
# The GPIO UART behind a tty

`uart_tx_byte` and `rx_timer_cb` of `gpio_uart_tty.c`, and `rx_timer_cb` of
`gpio_uart_tty_gpiod.c`, on the data of `struct gpio_uart`. A callback is given
the level of the RX line; what it forwards the timer by is part of its result.
Levels are Booleans, and the counters, which never come near 2^64, numbers.
-/

set_option autoImplicit false

namespace Testings.GpioTty

open AsyncSerial

/-- The driver on gpiod has no `invert`; its functions do not read it. -/
structure GuCfg where
  baud : Nat
  parity : BitVec 8
  stopbits : BitVec 8
  invert : Bool
  txEnable : Bool
  rxEnable : Bool
  deriving DecidableEq

structure GuStats where
  txBytes : Nat
  rxBytes : Nat
  framingErrors : Nat
  deriving DecidableEq

/-- `flipped` holds the bytes given to `tty_insert_flip_char`. -/
structure GpioUart where
  cfg : GuCfg
  st : GuStats
  bitPeriod : Nat
  rxBusy : Bool
  rxByte : BitVec 8
  rxBitpos : Int
  portInitialized : Bool
  flipped : List (BitVec 8)
  deriving DecidableEq

inductive HrtimerRestart where
  | norestart
  | restart
  deriving DecidableEq

/-- The outcome of `rx_timer_cb`: `forward` is the interval given to
`hrtimer_forward_now`, if it is called. -/
structure RxTick where
  gu : GpioUart
  forward : Option Nat
  ret : HrtimerRestart

/-- The zeroed allocation with its configuration and an initialised port. -/
def gpioUartInit (cfg : GuCfg) (bitPeriod : Nat) : GpioUart where
  cfg := cfg
  st := ⟨0, 0, 0⟩
  bitPeriod := bitPeriod
  rxBusy := false
  rxByte := 0
  rxBitpos := 0
  portInitialized := true
  flipped := []

/-- The level that `set_tx_level` puts on the line. -/
def setTxLevel (cfg : GuCfg) (v : Bool) : Bool := if cfg.invert then !v else v

/-- `__builtin_popcount`. -/
def popcount (b : BitVec 8) : Nat := (bits b).count true

/-- Any parity setting but even is odd. -/
def parityBit (cfg : GuCfg) (b : BitVec 8) : Bool :=
  if cfg.parity = 2 then popcount b % 2 = 1 else popcount b % 2 = 0

/-- The levels that `uart_tx_byte` sets, each held for one bit. -/
def uartTxLevels (cfg : GuCfg) (b : BitVec 8) : List Bool :=
  (false :: (bits b ++ ((if cfg.parity ≠ 0 then [parityBit cfg b] else []) ++
    List.replicate cfg.stopbits.toNat true))).map (setTxLevel cfg)

def uartTxByte (gu : GpioUart) (b : BitVec 8) : GpioUart × List Bool :=
  if gu.cfg.txEnable = false ∨ gu.cfg.baud = 0 then (gu, [])
  else ({ gu with st := { gu.st with txBytes := gu.st.txBytes + 1 } }, uartTxLevels gu.cfg b)

def getRxLevel (cfg : GuCfg) (v : Bool) : Bool := if cfg.invert then !v else v

/-- `GU->rx_byte |= (bit << GU->rx_bitpos)`. -/
def orBit (byte : BitVec 8) (bit : Bool) (bitpos : Int) : BitVec 8 :=
  byte ||| ((BitVec.ofBool bit).setWidth 8 <<< bitpos.toNat)

/-- `8 + (GU->cfg.parity ? 1 : 0)`. -/
def stopPos (cfg : GuCfg) : Int := 8 + if cfg.parity ≠ 0 then 1 else 0

def ttyInsert (gu : GpioUart) : GpioUart := { gu with flipped := gu.flipped ++ [gu.rxByte] }

def countRxByte (gu : GpioUart) : GpioUart :=
  { gu with st := { gu.st with rxBytes := gu.st.rxBytes + 1 } }

def countFramingError (gu : GpioUart) : GpioUart :=
  { gu with st := { gu.st with framingErrors := gu.st.framingErrors + 1 } }

/-- Both drivers take the next sample half a bit after they see the start bit. -/
def startChar (gu : GpioUart) : RxTick where
  gu := { gu with rxBusy := true, rxBitpos := -1, rxByte := 0 }
  forward := some (gu.bitPeriod / 2)
  ret := .restart

def stopChar (gu : GpioUart) (level : Bool) : GpioUart :=
  { (if level then countRxByte (if gu.portInitialized then ttyInsert gu else gu)
     else countFramingError gu) with rxBusy := false }

/-- `rx_timer_cb` of `gpio_uart_tty.c`. -/
def rxTimerCb (gu : GpioUart) (v : Bool) : RxTick :=
  if gu.cfg.rxEnable = false then ⟨gu, none, .norestart⟩
  else if gu.rxBusy = false then
    if getRxLevel gu.cfg v = false then startChar gu else ⟨gu, none, .restart⟩
  else
    let gu := { gu with rxBitpos := gu.rxBitpos + 1 }
    if 0 ≤ gu.rxBitpos ∧ gu.rxBitpos < 8 then
      ⟨{ gu with rxByte := orBit gu.rxByte (getRxLevel gu.cfg v) gu.rxBitpos },
        some gu.bitPeriod, .restart⟩
    else if gu.cfg.parity ≠ 0 ∧ gu.rxBitpos = 8 then ⟨gu, some gu.bitPeriod, .restart⟩
    else if stopPos gu.cfg ≤ gu.rxBitpos then
      ⟨stopChar gu (getRxLevel gu.cfg v), none, .restart⟩
    else ⟨{ gu with rxBusy := false }, none, .restart⟩

namespace Gpiod

/-- A byte that is not inserted is not counted either. -/
def stopChar (gu : GpioUart) (level : Bool) : GpioUart :=
  { (if level then (if gu.portInitialized then countRxByte (ttyInsert gu) else gu)
     else countFramingError gu) with rxBusy := false }

/-- `rx_timer_cb` of `gpio_uart_tty_gpiod.c`; no branch takes the parity bit. -/
def rxTimerCb (gu : GpioUart) (v : Bool) : RxTick :=
  if gu.cfg.rxEnable = false then ⟨gu, none, .restart⟩
  else if gu.rxBusy = false then
    if v = false then startChar gu else ⟨gu, some gu.bitPeriod, .restart⟩
  else
    let gu := { gu with rxBitpos := gu.rxBitpos + 1 }
    if 0 ≤ gu.rxBitpos ∧ gu.rxBitpos < 8 then
      ⟨{ gu with rxByte := orBit gu.rxByte v gu.rxBitpos }, some gu.bitPeriod, .restart⟩
    else if stopPos gu.cfg ≤ gu.rxBitpos then ⟨stopChar gu v, none, .restart⟩
    else ⟨{ gu with rxBusy := false }, none, .restart⟩

end Gpiod

/-- A running receiver on a line that is not inverted. -/
structure Receiving (gu : GpioUart) : Prop where
  enabled : gu.cfg.rxEnable = true
  upright : gu.cfg.invert = false
  port : gu.portInitialized = true

theorem rx_level_upright {cfg : GuCfg} (upright : cfg.invert = false) (v : Bool) :
    getRxLevel cfg v = v := by
  simp [getRxLevel, upright]

theorem stop_pos_range (cfg : GuCfg) : 8 ≤ stopPos cfg ∧ stopPos cfg ≤ 9 := by
  unfold stopPos
  split_ifs <;> omega

theorem rx_idle_high {gu : GpioUart} (receiving : Receiving gu) (idle : gu.rxBusy = false) :
    rxTimerCb gu true = ⟨gu, none, .restart⟩ := by
  simp [rxTimerCb, receiving.enabled, idle, rx_level_upright receiving.upright]

theorem rx_idle_low {gu : GpioUart} (receiving : Receiving gu) (idle : gu.rxBusy = false) :
    rxTimerCb gu false = startChar gu := by
  simp [rxTimerCb, receiving.enabled, idle, rx_level_upright receiving.upright]

theorem rx_data_bit {gu : GpioUart} (receiving : Receiving gu) (busy : gu.rxBusy = true)
    (v : Bool) {k : Nat} (bound : k < 8) (position : gu.rxBitpos = (k : Int) - 1) :
    rxTimerCb gu v =
      ⟨{ gu with rxBitpos := k, rxByte := orBit gu.rxByte v k }, some gu.bitPeriod, .restart⟩ := by
  have next : gu.rxBitpos + 1 = k := by omega
  have inside : 0 ≤ (k : Int) ∧ (k : Int) < 8 := by omega
  rw [rxTimerCb, if_neg (by simp [receiving.enabled]), if_neg (by simp [busy])]
  dsimp only
  rw [next, if_pos inside, rx_level_upright receiving.upright]

theorem rx_parity_bit {gu : GpioUart} (receiving : Receiving gu) (busy : gu.rxBusy = true)
    (v : Bool) (parity : gu.cfg.parity ≠ 0) (position : gu.rxBitpos = 7) :
    rxTimerCb gu v = ⟨{ gu with rxBitpos := 8 }, some gu.bitPeriod, .restart⟩ := by
  have next : gu.rxBitpos + 1 = 8 := by omega
  rw [rxTimerCb, if_neg (by simp [receiving.enabled]), if_neg (by simp [busy])]
  dsimp only
  rw [next, if_neg (by decide), if_pos ⟨parity, rfl⟩]

theorem rx_stop_bit {gu : GpioUart} (receiving : Receiving gu) (busy : gu.rxBusy = true)
    (v : Bool) (position : gu.rxBitpos = stopPos gu.cfg - 1) :
    rxTimerCb gu v = ⟨stopChar { gu with rxBitpos := stopPos gu.cfg } v, none, .restart⟩ := by
  have next : gu.rxBitpos + 1 = stopPos gu.cfg := by omega
  have range := stop_pos_range gu.cfg
  have noParity : ¬(gu.cfg.parity ≠ 0 ∧ stopPos gu.cfg = 8) := by
    rintro ⟨parity, eight⟩
    rw [stopPos, if_pos parity] at eight
    omega
  rw [rxTimerCb, if_neg (by simp [receiving.enabled]), if_neg (by simp [busy])]
  dsimp only
  rw [next, if_neg (by omega), if_neg noParity, if_pos (le_refl _),
    rx_level_upright receiving.upright]

/-- The byte that collects the samples, the first of them in bit 0. -/
def sampledByte (samples : List Bool) : BitVec 8 :=
  samples.zipIdx.foldl (fun byte sample => orBit byte sample.1 sample.2) 0

theorem sampled_byte_append (samples : List Bool) (v : Bool) :
    sampledByte (samples ++ [v]) = orBit (sampledByte samples) v samples.length := by
  rw [sampledByte, List.zipIdx_append, List.foldl_append, Nat.zero_add]
  rfl

theorem or_bit_get_lsb (byte : BitVec 8) (v : Bool) (n : Nat) {i : Nat} (bound : i < 8) :
    (orBit byte v n).getLsbD i = (byte.getLsbD i || (decide (i = n) && v)) := by
  have position : (n : Int).toNat = n := Int.toNat_natCast n
  rw [orBit, position, BitVec.getLsbD_or, BitVec.getLsbD_shiftLeft, BitVec.getLsbD_setWidth]
  rcases Nat.lt_trichotomy i n with before | same | behind
  · simp [before, Nat.ne_of_lt before]
  · subst same
    simp [bound]
  · have above : 1 ≤ i - n := by omega
    rw [BitVec.getLsbD_of_ge _ _ above]
    simp [Nat.ne_of_gt behind]

theorem sampled_byte_get_lsb (samples : List Bool) {i : Nat} (bound : i < 8) :
    (sampledByte samples).getLsbD i = samples.getD i false := by
  induction samples using List.reverseRecOn with
  | nil => simp [sampledByte]
  | append_singleton samples v induction =>
      rw [sampled_byte_append, or_bit_get_lsb _ _ _ bound, induction]
      rcases Nat.lt_trichotomy i samples.length with before | same | behind
      · rw [List.getD_append _ _ _ _ before]
        simp [Nat.ne_of_lt before]
      · subst same
        simp
      · rw [List.getD_eq_default _ _ (by omega), List.getD_eq_default _ _ (by simp; omega)]
        simp [Nat.ne_of_gt behind]

theorem bits_sampled_byte {samples : List Bool} (full : samples.length = 8) :
    bits (sampledByte samples) = samples := by
  apply List.ext_getElem?
  intro i
  by_cases bound : i < 8
  · rw [bits_get _ bound, sampled_byte_get_lsb samples bound]
    simp [List.getD_eq_getElem?_getD, List.getElem?_eq_getElem (full ▸ bound)]
  · rw [List.getElem?_eq_none (by simpa using bound), List.getElem?_eq_none (by omega)]

/-- The receiver once it has taken these samples behind the start bit. -/
def collecting (gu : GpioUart) (samples : List Bool) : GpioUart :=
  { gu with
    rxBusy := true
    rxBitpos := (samples.length : Int) - 1
    rxByte := sampledByte samples }

theorem start_char_collecting (gu : GpioUart) :
    startChar gu = ⟨collecting gu [], some (gu.bitPeriod / 2), .restart⟩ :=
  rfl

theorem rx_collects {gu : GpioUart} (receiving : Receiving gu) {samples : List Bool}
    (room : samples.length < 8) (v : Bool) :
    rxTimerCb (collecting gu samples) v =
      ⟨collecting gu (samples ++ [v]), some gu.bitPeriod, .restart⟩ := by
  have running : Receiving (collecting gu samples) := ⟨receiving.1, receiving.2, receiving.3⟩
  have moved : ((samples ++ [v]).length : Int) - 1 = samples.length := by simp
  rw [rx_data_bit running rfl v room rfl, collecting, collecting, moved, sampled_byte_append]

/-- A receiver with parity lets the sample behind the data bits pass. -/
theorem rx_passes_parity {gu : GpioUart} (receiving : Receiving gu) {samples : List Bool}
    (full : samples.length = 8) (parity : gu.cfg.parity ≠ 0) (v : Bool) :
    rxTimerCb (collecting gu samples) v =
      ⟨{ collecting gu samples with rxBitpos := 8 }, some gu.bitPeriod, .restart⟩ := by
  have running : Receiving (collecting gu samples) := ⟨receiving.1, receiving.2, receiving.3⟩
  have position : (collecting gu samples).rxBitpos = 7 := by
    dsimp only [collecting]
    omega
  exact rx_parity_bit running rfl v parity position

end Testings.GpioTty
