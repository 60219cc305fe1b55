import Testings.GpioTtyUart

/-!
# The two receivers side by side

`rx_timer_cb` of `gpio_uart_tty.c` and of `gpio_uart_tty_gpiod.c` are fed one
line level for each callback. Without parity they take the same steps. With
parity the second one has no branch for the parity bit: it gives the character
up there, behind its eight data bits, and never delivers anything.
-/

set_option autoImplicit false

namespace Testings.GpioTty

/-- The receiver after so many callbacks. -/
def fed (callback : GpioUart → Bool → RxTick) (gu : GpioUart) (levels : Nat → Bool) :
    Nat → GpioUart
  | 0 => gu
  | n + 1 => (callback (fed callback gu levels n) (levels n)).gu

def SameOutput (left right : GpioUart) : Prop :=
  left.flipped = right.flipped ∧ left.st.framingErrors = right.st.framingErrors ∧
    left.st.rxBytes = right.st.rxBytes

instance (left right : GpioUart) : Decidable (SameOutput left right) :=
  inferInstanceAs (Decidable (_ ∧ _ ∧ _))

/-- The same bytes and counts after every callback. -/
def ReceiversAgree (cfg : GuCfg) (bitPeriod : Nat) (levels : Nat → Bool) : Prop :=
  ∀ n, SameOutput (fed rxTimerCb (gpioUartInit cfg bitPeriod) levels n)
    (fed Gpiod.rxTimerCb (gpioUartInit cfg bitPeriod) levels n)

theorem stop_char_frame (gu : GpioUart) (level : Bool) :
    (stopChar gu level).cfg = gu.cfg ∧
      (stopChar gu level).portInitialized = gu.portInitialized := by
  unfold stopChar countRxByte ttyInsert countFramingError
  split_ifs <;> exact ⟨rfl, rfl⟩

theorem rx_tick_receiving {gu : GpioUart} (receiving : Receiving gu) (v : Bool) :
    Receiving (rxTimerCb gu v).gu ∧ (rxTimerCb gu v).gu.cfg = gu.cfg := by
  have frame : (rxTimerCb gu v).gu.cfg = gu.cfg ∧
      (rxTimerCb gu v).gu.portInitialized = gu.portInitialized := by
    unfold rxTimerCb
    dsimp only
    split_ifs
    all_goals first | exact ⟨rfl, rfl⟩ | exact stop_char_frame _ _
  obtain ⟨cfg, port⟩ := frame
  refine ⟨⟨?_, ?_, ?_⟩, cfg⟩
  · rw [cfg]
    exact receiving.enabled
  · rw [cfg]
    exact receiving.upright
  · rw [port]
    exact receiving.port

theorem stop_char_same {gu : GpioUart} (port : gu.portInitialized = true) (level : Bool) :
    stopChar gu level = Gpiod.stopChar gu level := by
  rw [stopChar, Gpiod.stopChar, if_pos port, if_pos port]

theorem ticks_agree {gu : GpioUart} (receiving : Receiving gu) (noParity : gu.cfg.parity = 0)
    (v : Bool) : (rxTimerCb gu v).gu = (Gpiod.rxTimerCb gu v).gu := by
  have port : ∀ position : Int,
      ({ gu with rxBitpos := position } : GpioUart).portInitialized = true :=
    fun _ => receiving.port
  unfold rxTimerCb Gpiod.rxTimerCb
  dsimp only
  rw [rx_level_upright receiving.upright, if_neg (by simp [noParity] : ¬(gu.cfg.parity ≠ 0 ∧ _)),
    stop_char_same (port _)]
  split_ifs <;> rfl

theorem fed_receiving {gu : GpioUart} (receiving : Receiving gu) (levels : Nat → Bool) (n : Nat) :
    Receiving (fed rxTimerCb gu levels n) ∧ (fed rxTimerCb gu levels n).cfg = gu.cfg := by
  induction n with
  | zero => exact ⟨receiving, rfl⟩
  | succ n induction =>
      obtain ⟨before, cfg⟩ := induction
      obtain ⟨after, same⟩ := rx_tick_receiving before (levels n)
      exact ⟨after, same.trans cfg⟩

theorem fed_same {gu : GpioUart} (receiving : Receiving gu) (noParity : gu.cfg.parity = 0)
    (levels : Nat → Bool) (n : Nat) :
    fed rxTimerCb gu levels n = fed Gpiod.rxTimerCb gu levels n := by
  induction n with
  | zero => rfl
  | succ n induction =>
      obtain ⟨before, cfg⟩ := fed_receiving receiving levels n
      have tick := ticks_agree before (cfg ▸ noParity) (levels n)
      rw [fed, fed, tick, induction]

theorem fed_high {gu : GpioUart} (receiving : Receiving gu) (idle : gu.rxBusy = false)
    {levels : Nat → Bool} {n : Nat} (high : ∀ i < n, levels i = true) :
    fed rxTimerCb gu levels n = gu := by
  induction n with
  | zero => rfl
  | succ n induction =>
      have before := induction fun i bound => high i (Nat.lt_succ_of_lt bound)
      rw [fed, before, high n (Nat.lt_succ_self n), rx_idle_high receiving idle]

/-- The receiver on gpiod has delivered and counted nothing, and it gives a
character up before it comes to its stop bit. -/
structure Silent (gu : GpioUart) : Prop where
  parity : gu.cfg.parity ≠ 0
  early : gu.rxBusy = true → gu.rxBitpos < 8
  flipped : gu.flipped = []
  framingErrors : gu.st.framingErrors = 0
  rxBytes : gu.st.rxBytes = 0

theorem gpiod_tick_silent {gu : GpioUart} (silent : Silent gu) (v : Bool) :
    Silent (Gpiod.rxTimerCb gu v).gu := by
  obtain ⟨parity, early, flipped, framingErrors, rxBytes⟩ := silent
  unfold Gpiod.rxTimerCb
  dsimp only
  split_ifs with stopped idle start data stop
  · exact ⟨parity, early, flipped, framingErrors, rxBytes⟩
  · exact ⟨parity, fun _ => (by decide : (-1 : Int) < 8), flipped, framingErrors, rxBytes⟩
  · exact ⟨parity, early, flipped, framingErrors, rxBytes⟩
  · exact ⟨parity, fun _ => data.2, flipped, framingErrors, rxBytes⟩
  · have behind := early (Bool.not_eq_false _ ▸ idle)
    rw [stopPos, if_pos parity] at stop
    omega
  · have idle : false ≠ true := Bool.false_ne_true
    exact ⟨parity, fun busy => absurd busy idle, flipped, framingErrors, rxBytes⟩

theorem fed_silent {gu : GpioUart} (silent : Silent gu) (levels : Nat → Bool) (n : Nat) :
    Silent (fed Gpiod.rxTimerCb gu levels n) := by
  induction n with
  | zero => exact silent
  | succ n induction => exact gpiod_tick_silent induction (levels n)

/-- From the first low level on, the next eight levels are the data bits. -/
theorem fed_collects {gu : GpioUart} (receiving : Receiving gu) (idle : gu.rxBusy = false)
    {levels : Nat → Bool} {first : Nat} (low : levels first = false)
    (high : ∀ i < first, levels i = true) {k : Nat} (bound : k ≤ 8) :
    fed rxTimerCb gu levels (first + 1 + k) =
      collecting gu ((List.range k).map fun i => levels (first + 1 + i)) := by
  induction k with
  | zero =>
      rw [Nat.add_zero, fed, fed_high receiving idle high, low, rx_idle_low receiving idle]
      rfl
  | succ k induction =>
      have before := induction (Nat.le_of_succ_le bound)
      have room : ((List.range k).map fun i => levels (first + 1 + i)).length < 8 := by
        rw [List.length_map, List.length_range]
        omega
      rw [← Nat.add_assoc, fed, before, rx_collects receiving room, List.range_succ,
        List.map_append]
      rfl

/-- With parity, the tenth sample behind the start bit is counted one way or the other. -/
theorem fed_counts {gu : GpioUart} (receiving : Receiving gu) (idle : gu.rxBusy = false)
    (parity : gu.cfg.parity ≠ 0) {levels : Nat → Bool} {first : Nat}
    (low : levels first = false) (high : ∀ i < first, levels i = true) :
    (fed rxTimerCb gu levels (first + 11)).st.framingErrors +
        (fed rxTimerCb gu levels (first + 11)).st.rxBytes =
      gu.st.framingErrors + gu.st.rxBytes + 1 := by
  have data := fed_collects receiving idle low high (le_refl 8)
  have full : ((List.range 8).map fun i => levels (first + 1 + i)).length = 8 := by simp
  have passed := rx_passes_parity receiving full parity (levels (first + 9))
  have running : Receiving
      { collecting gu ((List.range 8).map fun i => levels (first + 1 + i)) with rxBitpos := 8 } :=
    ⟨receiving.enabled, receiving.upright, receiving.port⟩
  have position : (8 : Int) = stopPos gu.cfg - 1 := by
    rw [stopPos, if_pos parity]
    rfl
  have stopped := rx_stop_bit running rfl (levels (first + 10)) position
  have run : fed rxTimerCb gu levels (first + 11) =
      (rxTimerCb (rxTimerCb (fed rxTimerCb gu levels (first + 1 + 8)) (levels (first + 9))).gu
        (levels (first + 10))).gu := rfl
  rw [run, data, passed, stopped]
  simp only [stopChar, collecting, receiving.port, if_true]
  cases levels (first + 10) with
  | false =>
      simp only [Bool.false_eq_true, if_false, countFramingError]
      omega
  | true =>
      simp only [if_true, countRxByte, ttyInsert]
      omega

theorem receivers_agree_iff (cfg : GuCfg) (enabled : cfg.rxEnable = true)
    (upright : cfg.invert = false) (bitPeriod : Nat) (levels : Nat → Bool) :
    ReceiversAgree cfg bitPeriod levels ↔ cfg.parity = 0 ∨ ∀ n, levels n = true := by
  have receiving : Receiving (gpioUartInit cfg bitPeriod) := ⟨enabled, upright, rfl⟩
  have silent (parity : cfg.parity ≠ 0) : Silent (gpioUartInit cfg bitPeriod) :=
    ⟨parity, nofun, rfl, rfl, rfl⟩
  constructor
  · intro agree
    by_contra neither
    rw [not_or, not_forall] at neither
    obtain ⟨parity, low⟩ := neither
    have lowest := Nat.find_spec low
    have high : ∀ i < Nat.find low, levels i = true :=
      fun i bound => not_not.mp (Nat.find_min low bound)
    have counted := fed_counts receiving rfl parity (Bool.not_eq_true _ ▸ lowest) high
    have quiet := fed_silent (silent parity) levels (Nat.find low + 11)
    obtain ⟨_, framingErrors, rxBytes⟩ := agree (Nat.find low + 11)
    rw [framingErrors, rxBytes, quiet.framingErrors, quiet.rxBytes] at counted
    cases counted
  · rintro (noParity | high) n
    · rw [SameOutput, fed_same receiving noParity]
      exact ⟨rfl, rfl, rfl⟩
    · by_cases parity : cfg.parity = 0
      · rw [SameOutput, fed_same receiving parity]
        exact ⟨rfl, rfl, rfl⟩
      · have quiet := fed_silent (silent parity) levels n
        rw [SameOutput, fed_high receiving rfl fun i _ => high i]
        exact ⟨quiet.flipped.symm, quiet.framingErrors.symm, quiet.rxBytes.symm⟩

def cfg8N1 : GuCfg := ⟨9600, 0, 1, false, true, true⟩

def cfg8E1 : GuCfg := ⟨9600, 2, 1, false, true, true⟩

theorem receivers_agree_without_parity :
    ReceiversAgree cfg8N1 104166 fun n => n % 10 ≠ 0 ∧ n % 3 ≠ 1 :=
  (receivers_agree_iff cfg8N1 rfl rfl 104166 _).mpr (Or.inl rfl)

/-- One low level, then a line that stays high: the byte 0xFF, for one of them. -/
theorem parity_character_given_up :
    ¬∀ (cfg : GuCfg), cfg.rxEnable = true → cfg.invert = false →
      ∀ (bitPeriod : Nat) (levels : Nat → Bool), ReceiversAgree cfg bitPeriod levels := by
  intro always
  have same := (always cfg8E1 rfl rfl 104166 (fun n => n ≠ 0) 11).1
  have delivered : (fed rxTimerCb (gpioUartInit cfg8E1 104166) (fun n => n ≠ 0) 11).flipped =
      [0xFF] := by decide
  have nothing : (fed Gpiod.rxTimerCb (gpioUartInit cfg8E1 104166) (fun n => n ≠ 0) 11).flipped =
      [] := by decide
  rw [delivered, nothing] at same
  cases same

end Testings.GpioTty
