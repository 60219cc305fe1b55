import Testings.GpioTtyReceivers

/-!
# What the GPIO UART makes of its own transmission

The line carries the levels of `uart_tx_byte`, each for one bit period, behind
pauses at high level. Callbacks of the receiver run at given times: as it has
forwarded its timer, or at any time while it has not. The first sample after
the start bit is taken half a period after it was seen, which is still inside
the start bit: every data bit ends up one place too high, and what is taken
for the stop bit is the level in front of it.
-/

set_option autoImplicit false

namespace Testings.GpioTty

open AsyncSerial

/-- The level at a time, for bytes that each have a pause in front. -/
def lineAt (gu : GpioUart) : List (Nat × BitVec 8) → Nat → Bool
  | [], _ => true
  | (pause, b) :: rest, t =>
      let levels := (uartTxByte gu b).2
      let length := levels.length * gu.bitPeriod
      if t < pause then true
      else if t < pause + length then levels.getD ((t - pause) / gu.bitPeriod) true
      else lineAt gu rest (t - (pause + length))

def startTimes (gu : GpioUart) : Nat → List (Nat × BitVec 8) → List Nat
  | _, [] => []
  | origin, (pause, b) :: rest =>
      (origin + pause) ::
        startTimes gu (origin + pause + (uartTxByte gu b).2.length * gu.bitPeriod) rest

def lineEnd (gu : GpioUart) : Nat → List (Nat × BitVec 8) → Nat
  | origin, [] => origin
  | origin, (pause, b) :: rest =>
      lineEnd gu (origin + pause + (uartTxByte gu b).2.length * gu.bitPeriod) rest

/-- When the next callback runs. -/
inductive Due where
  | since (t : Nat)
  | exactly (t : Nat)

def Due.Allows : Due → Nat → Prop
  | .since earliest, t => earliest ≤ t
  | .exactly expires, t => t = expires

instance (due : Due) (t : Nat) : Decidable (due.Allows t) :=
  match due with
  | .since _ => inferInstanceAs (Decidable (_ ≤ _))
  | .exactly _ => inferInstanceAs (Decidable (_ = _))

def nextDue (tick : RxTick) (now : Nat) : Due :=
  match tick.forward with
  | some interval => .exactly (now + interval)
  | none => .since now

/-- Callbacks at these times, each when it is due. -/
def Scheduled (line : Nat → Bool) : GpioUart → Due → List Nat → Prop
  | _, _, [] => True
  | gu, due, t :: rest =>
      due.Allows t ∧
        Scheduled line (rxTimerCb gu (line t)).gu (nextDue (rxTimerCb gu (line t)) t) rest

instance decidableScheduled (line : Nat → Bool) :
    ∀ gu due times, Decidable (Scheduled line gu due times)
  | _, _, [] => isTrue trivial
  | gu, due, t :: rest =>
      have := decidableScheduled line (rxTimerCb gu (line t)).gu
        (nextDue (rxTimerCb gu (line t)) t) rest
      inferInstanceAs (Decidable (due.Allows t ∧ _))

def receiveAt (line : Nat → Bool) (gu : GpioUart) (times : List Nat) : GpioUart :=
  times.foldl (fun gu t => (rxTimerCb gu (line t)).gu) gu

/-- The callback that first sees a start bit runs in the first half of it. -/
def SeesStart (line : Nat → Bool) (gu : GpioUart) (times : List Nat) (start : Nat) : Prop :=
  ∀ before t after, times = before ++ t :: after → (∀ u ∈ before, u < start) → start ≤ t →
    (receiveAt line gu before).rxBusy = false → 2 * (t - start) < gu.bitPeriod

/-- Callbacks that listen to a whole transmission. -/
structure Listens (gu : GpioUart) (sends : List (Nat × BitVec 8)) (times : List Nat) : Prop where
  scheduled : Scheduled (lineAt gu sends) gu (.since 0) times
  starts : ∀ start ∈ startTimes gu 0 sends, SeesStart (lineAt gu sends) gu times start
  whole : ∃ t ∈ times, lineEnd gu 0 sends ≤ t

/-- Exactly these bytes are delivered, and no framing error is counted. -/
def Decodes (line : Nat → Bool) (gu : GpioUart) (times : List Nat) (sent : List (BitVec 8)) :
    Prop :=
  (receiveAt line gu times).flipped = gu.flipped ++ sent ∧
    (receiveAt line gu times).st.framingErrors = gu.st.framingErrors

/-- The levels of one character, from its start bit on. -/
def CarriesChar (line : Nat → Bool) (bitPeriod start : Nat) (levels : List Bool) : Prop :=
  ∀ k level, levels[k]? = some level → ∀ t, start + k * bitPeriod ≤ t →
    t < start + (k + 1) * bitPeriod → line t = level

def Carries (line : Nat → Bool) (gu : GpioUart) : Nat → List (Nat × BitVec 8) → Prop
  | origin, [] => ∀ t, origin ≤ t → line t = true
  | origin, (pause, b) :: rest =>
      (∀ t, origin ≤ t → t < origin + pause → line t = true) ∧
        CarriesChar line gu.bitPeriod (origin + pause) (uartTxByte gu b).2 ∧
        Carries line gu (origin + pause + (uartTxByte gu b).2.length * gu.bitPeriod) rest

theorem carries_congr {gu : GpioUart} {line other : Nat → Bool} {origin : Nat}
    {sends : List (Nat × BitVec 8)} (same : ∀ t, origin ≤ t → other t = line t)
    (carries : Carries line gu origin sends) : Carries other gu origin sends := by
  induction sends generalizing origin with
  | nil =>
      intro t low
      rw [same t low]
      exact carries t low
  | cons send rest induction =>
      obtain ⟨pause, b⟩ := send
      obtain ⟨high, levels, later⟩ := carries
      refine ⟨?_, ?_, ?_⟩
      · intro t low bound
        rw [same t low]
        exact high t low bound
      · intro k level found t low bound
        rw [same t (by omega)]
        exact levels k level found t low bound
      · apply induction _ later
        intro t low
        exact same t (by omega)

theorem line_at_carries (gu : GpioUart) (sends : List (Nat × BitVec 8)) (origin : Nat) :
    Carries (fun t => lineAt gu sends (t - origin)) gu origin sends := by
  induction sends generalizing origin with
  | nil => exact fun _ _ => rfl
  | cons send rest induction =>
      obtain ⟨pause, b⟩ := send
      refine ⟨?_, ?_, ?_⟩
      · intro t low bound
        dsimp only [lineAt]
        rw [if_pos (by omega)]
      · intro k level found t low bound
        obtain ⟨inside, _⟩ := List.getElem?_eq_some_iff.mp found
        have next : (k + 1) * gu.bitPeriod = k * gu.bitPeriod + gu.bitPeriod := Nat.succ_mul _ _
        have last : (k + 1) * gu.bitPeriod ≤ (uartTxByte gu b).2.length * gu.bitPeriod :=
          Nat.mul_le_mul_right _ inside
        have cell : (t - origin - pause) / gu.bitPeriod = k := by
          apply Nat.div_eq_of_lt_le <;> omega
        dsimp only [lineAt]
        rw [if_neg (by omega), if_pos (by omega), cell, List.getD_eq_getElem?_getD, found]
        rfl
      · apply carries_congr _ (induction _)
        intro t low
        dsimp only [lineAt]
        rw [if_neg (by omega), if_neg (by omega), Nat.sub_sub, Nat.add_assoc]

/-- The first of these callbacks lead from one state to another, all of them
before the limit; the others remain. -/
def Leads (line : Nat → Bool) (limit : Nat) (gu : GpioUart) (times : List Nat)
    (after : GpioUart) (rest : List Nat) : Prop :=
  ∃ taken, times = taken ++ rest ∧ receiveAt line gu taken = after ∧ ∀ u ∈ taken, u < limit

theorem Leads.trans {line : Nat → Bool} {limit : Nat} {gu middle after : GpioUart}
    {times between rest : List Nat} (first : Leads line limit gu times middle between)
    (second : Leads line limit middle between after rest) :
    Leads line limit gu times after rest := by
  obtain ⟨taken, rfl, rfl, early⟩ := first
  obtain ⟨more, rfl, rfl, late⟩ := second
  refine ⟨taken ++ more, (List.append_assoc _ _ _).symm, List.foldl_append, ?_⟩
  intro u member
  exact (List.mem_append.mp member).elim (early u) (late u)

theorem Leads.receive {line : Nat → Bool} {limit : Nat} {gu after : GpioUart}
    {times rest : List Nat} (leads : Leads line limit gu times after rest) :
    receiveAt line gu times = receiveAt line after rest := by
  obtain ⟨taken, rfl, rfl, _⟩ := leads
  exact List.foldl_append

theorem Leads.later {line : Nat → Bool} {limit bound : Nat} {gu after : GpioUart}
    {times rest : List Nat} (leads : Leads line limit gu times after rest)
    (later : limit ≤ bound) : Leads line bound gu times after rest := by
  obtain ⟨taken, split, received, early⟩ := leads
  exact ⟨taken, split, received, fun u member => Nat.lt_of_lt_of_le (early u member) later⟩

theorem Leads.reaches {line : Nat → Bool} {limit bound : Nat} {gu after : GpioUart}
    {times rest : List Nat} (leads : Leads line limit gu times after rest)
    (later : limit ≤ bound) (reaches : ∃ t ∈ times, bound ≤ t) : ∃ t ∈ rest, bound ≤ t := by
  obtain ⟨taken, rfl, _, early⟩ := leads
  obtain ⟨t, member, behind⟩ := reaches
  refine ⟨t, (List.mem_append.mp member).resolve_left ?_, behind⟩
  intro before
  exact absurd (early t before) (Nat.not_lt.mpr (Nat.le_trans later behind))

/-- A start bit behind the limit is seen by the remaining callbacks. -/
theorem Leads.sees {line : Nat → Bool} {limit start : Nat} {gu after : GpioUart}
    {times rest : List Nat} (leads : Leads line limit gu times after rest)
    (period : after.bitPeriod = gu.bitPeriod) (later : limit ≤ start)
    (sees : SeesStart line gu times start) : SeesStart line after rest start := by
  obtain ⟨taken, rfl, rfl, early⟩ := leads
  rintro before t behind rfl first reached idle
  rw [period]
  apply sees (taken ++ before) t behind (List.append_assoc _ _ _).symm
  · intro u member
    rcases List.mem_append.mp member with old | new
    · exact Nat.lt_of_lt_of_le (early u old) later
    · exact first u new
  · exact reached
  · rw [receiveAt, List.foldl_append]
    exact idle

/-- While the line is high nothing happens. -/
theorem idle_callbacks {gu : GpioUart} (receiving : Receiving gu) (idle : gu.rxBusy = false)
    {line : Nat → Bool} {now start : Nat} {times : List Nat}
    (scheduled : Scheduled line gu (.since now) times)
    (high : ∀ t, now ≤ t → t < start → line t = true) (reaches : ∃ t ∈ times, start ≤ t) :
    ∃ t rest, Leads line start gu times gu (t :: rest) ∧ start ≤ t ∧
      Scheduled line (rxTimerCb gu (line t)).gu (nextDue (rxTimerCb gu (line t)) t) rest := by
  induction times generalizing now with
  | nil =>
      obtain ⟨_, member, _⟩ := reaches
      cases member
  | cons t rest induction =>
      obtain ⟨due, later⟩ := scheduled
      by_cases reached : start ≤ t
      · exact ⟨t, rest, ⟨[], rfl, rfl, nofun⟩, reached, later⟩
      · have early : t < start := Nat.lt_of_not_le reached
        have tick := rx_idle_high receiving idle
        rw [high t due early, tick] at later
        have remaining : ∃ u ∈ rest, start ≤ u := by
          obtain ⟨u, member, behind⟩ := reaches
          rcases List.mem_cons.mp member with rfl | listed
          · exact absurd behind reached
          · exact ⟨u, listed, behind⟩
        obtain ⟨u, final, leads, behind, next⟩ :=
          induction later (fun v low => high v (Nat.le_trans due low)) remaining
        refine ⟨u, final, Leads.trans ⟨[t], rfl, ?_, ?_⟩ leads, behind, next⟩
        · rw [receiveAt, List.foldl_cons, high t due early, tick]
          rfl
        · intro v member
          rw [List.mem_singleton.mp member]
          exact early

/-- A callback that is due before the end runs, and others after it. -/
theorem exact_callback {gu : GpioUart} {line : Nat → Bool} {u limit : Nat} {times : List Nat}
    (scheduled : Scheduled line gu (.exactly u) times) (early : u < limit)
    (reaches : ∃ t ∈ times, limit ≤ t) :
    ∃ rest, Leads line limit gu times (rxTimerCb gu (line u)).gu rest ∧
      Scheduled line (rxTimerCb gu (line u)).gu (nextDue (rxTimerCb gu (line u)) u) rest ∧
      ∃ t ∈ rest, limit ≤ t := by
  obtain ⟨t, member, behind⟩ := reaches
  cases times with
  | nil => cases member
  | cons first rest =>
      obtain ⟨due, later⟩ := scheduled
      have same : first = u := due
      subst same
      refine ⟨rest, ⟨[first], rfl, rfl, ?_⟩, later, t, ?_, behind⟩
      · intro v listed
        rw [List.mem_singleton.mp listed]
        exact early
      · rcases List.mem_cons.mp member with rfl | listed
        · omega
        · exact listed

/-- The samples behind the start bit come one period apart. -/
theorem collecting_callbacks {gu : GpioUart} (receiving : Receiving gu) {line : Nat → Bool}
    {limit : Nat} {samples : List Bool} {k : Nat} (length : samples.length + k = 8) {u : Nat}
    {times : List Nat} (scheduled : Scheduled line (collecting gu samples) (.exactly u) times)
    (early : ∀ i < k, u + i * gu.bitPeriod < limit) (reaches : ∃ t ∈ times, limit ≤ t) :
    ∃ rest,
      Leads line limit (collecting gu samples) times
        (collecting gu
          (samples ++ (List.range k).map fun i => line (u + i * gu.bitPeriod))) rest ∧
      Scheduled line
        (collecting gu (samples ++ (List.range k).map fun i => line (u + i * gu.bitPeriod)))
        (.exactly (u + k * gu.bitPeriod)) rest ∧
      ∃ t ∈ rest, limit ≤ t := by
  induction k generalizing samples u times with
  | zero =>
      refine ⟨times, ⟨[], rfl, ?_, nofun⟩, ?_, reaches⟩
      · rw [List.range_zero, List.map_nil, List.append_nil]
        rfl
      · rw [List.range_zero, List.map_nil, List.append_nil, Nat.zero_mul, Nat.add_zero]
        exact scheduled
  | succ k induction =>
      have tick := rx_collects receiving (by omega : samples.length < 8) (line u)
      have first := early 0 (Nat.succ_pos k)
      rw [Nat.zero_mul, Nat.add_zero] at first
      obtain ⟨middle, leads, next, left⟩ := exact_callback scheduled first reaches
      rw [tick] at leads next
      have shifted : ∀ i, u + gu.bitPeriod + i * gu.bitPeriod = u + (i + 1) * gu.bitPeriod := by
        intro i
        rw [Nat.succ_mul]
        omega
      have grown : (samples ++ [line u]).length + k = 8 := by
        rw [List.length_append, List.length_singleton]
        omega
      obtain ⟨rest, more, final, remaining⟩ := induction grown next
        (fun i bound => by rw [shifted]; exact early (i + 1) (Nat.succ_lt_succ bound)) left
      have joined : samples ++ [line u] ++
          (List.range k).map (fun i => line (u + gu.bitPeriod + i * gu.bitPeriod)) =
            samples ++ (List.range (k + 1)).map fun i => line (u + i * gu.bitPeriod) := by
        rw [List.range_succ_eq_map, List.map_cons, List.map_map, List.append_assoc,
          Nat.zero_mul, Nat.add_zero]
        simp only [shifted]
        rfl
      rw [joined] at more final
      rw [shifted] at final
      exact ⟨rest, leads.trans more, final, remaining⟩

/-- The receiver once it has taken a level for the stop bit. -/
def heard (gu : GpioUart) (samples : List Bool) (stop : Bool) : GpioUart :=
  stopChar { collecting gu samples with rxBitpos := stopPos gu.cfg } stop

structure SameSettings (gu after : GpioUart) : Prop where
  cfg : after.cfg = gu.cfg
  period : after.bitPeriod = gu.bitPeriod
  port : after.portInitialized = gu.portInitialized

theorem SameSettings.receiving {gu after : GpioUart} (same : SameSettings gu after)
    (receiving : Receiving gu) : Receiving after := by
  refine ⟨?_, ?_, ?_⟩
  · rw [same.cfg]
    exact receiving.enabled
  · rw [same.cfg]
    exact receiving.upright
  · rw [same.port]
    exact receiving.port

theorem heard_settings (gu : GpioUart) (samples : List Bool) (stop : Bool) :
    SameSettings gu (heard gu samples stop) ∧ (heard gu samples stop).rxBusy = false := by
  unfold heard stopChar countRxByte ttyInsert countFramingError
  refine ⟨⟨?_, ?_, ?_⟩, rfl⟩ <;> split_ifs <;> rfl

theorem heard_stop {gu : GpioUart} (receiving : Receiving gu) (samples : List Bool) :
    (heard gu samples true).flipped = gu.flipped ++ [sampledByte samples] ∧
      (heard gu samples true).st.framingErrors = gu.st.framingErrors := by
  unfold heard stopChar
  rw [if_pos rfl, if_pos (by exact receiving.port)]
  exact ⟨rfl, rfl⟩

theorem heard_no_stop (gu : GpioUart) (samples : List Bool) :
    (heard gu samples false).st.framingErrors = gu.st.framingErrors + 1 :=
  rfl

/-- The number of samples behind the start bit and in front of the stop bit. -/
def stopIndex (cfg : GuCfg) : Nat := if cfg.parity ≠ 0 then 9 else 8

/-- With parity one more sample passes. -/
theorem parity_callback {gu : GpioUart} (receiving : Receiving gu) {line : Nat → Bool}
    {limit : Nat} {samples : List Bool} (full : samples.length = 8) {u : Nat} {times : List Nat}
    (scheduled : Scheduled line (collecting gu samples) (.exactly (u + 8 * gu.bitPeriod)) times)
    (early : u + stopIndex gu.cfg * gu.bitPeriod < limit) (reaches : ∃ t ∈ times, limit ≤ t) :
    ∃ rest,
      Leads line limit (collecting gu samples) times
        { collecting gu samples with rxBitpos := stopPos gu.cfg - 1 } rest ∧
      Scheduled line { collecting gu samples with rxBitpos := stopPos gu.cfg - 1 }
        (.exactly (u + stopIndex gu.cfg * gu.bitPeriod)) rest ∧
      ∃ t ∈ rest, limit ≤ t := by
  by_cases parity : gu.cfg.parity ≠ 0
  · have position : stopPos gu.cfg - 1 = 8 := by
      rw [stopPos, if_pos parity]
      rfl
    have index : stopIndex gu.cfg = 9 := if_pos parity
    rw [index] at early ⊢
    have tick := rx_passes_parity receiving full parity (line (u + 8 * gu.bitPeriod))
    obtain ⟨rest, leads, next, left⟩ := exact_callback scheduled (by omega) reaches
    rw [tick] at leads next
    have shifted : u + 8 * gu.bitPeriod + gu.bitPeriod = u + 9 * gu.bitPeriod := by omega
    rw [position, ← shifted]
    exact ⟨rest, leads, next, left⟩
  · have position : stopPos gu.cfg - 1 = (samples.length : Int) - 1 := by
      rw [stopPos, if_neg parity, full]
      rfl
    have index : stopIndex gu.cfg = 8 := if_neg parity
    rw [index, position]
    have none : ∀ t ∈ ([] : List Nat), t < limit := fun t member =>
      absurd member List.not_mem_nil
    exact ⟨times, ⟨[], rfl, rfl, none⟩, scheduled, reaches⟩

/-- All callbacks of a character whose start bit is seen at `t`. -/
theorem character_callbacks {gu : GpioUart} (receiving : Receiving gu) (idle : gu.rxBusy = false)
    {line : Nat → Bool} {limit t : Nat} {times : List Nat} (start : line t = false)
    (scheduled : Scheduled line (rxTimerCb gu (line t)).gu (nextDue (rxTimerCb gu (line t)) t)
      times)
    (early : t + gu.bitPeriod / 2 + stopIndex gu.cfg * gu.bitPeriod < limit)
    (reaches : ∃ v ∈ times, limit ≤ v) :
    ∃ rest,
      Leads line limit gu (t :: times)
        (heard gu ((List.range 8).map fun i => line (t + gu.bitPeriod / 2 + i * gu.bitPeriod))
          (line (t + gu.bitPeriod / 2 + stopIndex gu.cfg * gu.bitPeriod))) rest ∧
      Scheduled line
        (heard gu ((List.range 8).map fun i => line (t + gu.bitPeriod / 2 + i * gu.bitPeriod))
          (line (t + gu.bitPeriod / 2 + stopIndex gu.cfg * gu.bitPeriod)))
        (.since (t + gu.bitPeriod / 2 + stopIndex gu.cfg * gu.bitPeriod)) rest ∧
      ∃ v ∈ rest, limit ≤ v := by
  have indexLow : 8 ≤ stopIndex gu.cfg := by
    unfold stopIndex
    split_ifs <;> omega
  have earlier : ∀ i < 8, t + gu.bitPeriod / 2 + i * gu.bitPeriod < limit := by
    intro i bound
    have smaller : i * gu.bitPeriod ≤ stopIndex gu.cfg * gu.bitPeriod :=
      Nat.mul_le_mul_right _ (by omega)
    omega
  rw [start, rx_idle_low receiving idle, start_char_collecting] at scheduled
  have seen : Leads line limit gu (t :: times) (collecting gu []) times := by
    refine ⟨[t], rfl, ?_, ?_⟩
    · rw [receiveAt, List.foldl_cons, start, rx_idle_low receiving idle]
      rfl
    · intro v member
      rw [List.mem_singleton.mp member]
      omega
  obtain ⟨first, data, collected, left⟩ :=
    collecting_callbacks receiving (rfl : [].length + 8 = 8) scheduled earlier reaches
  rw [List.nil_append] at data collected
  have full : ((List.range 8).map fun i =>
      line (t + gu.bitPeriod / 2 + i * gu.bitPeriod)).length = 8 := by
    rw [List.length_map, List.length_range]
  obtain ⟨second, passed, awaiting, remaining⟩ :=
    parity_callback receiving full collected early left
  obtain ⟨rest, stopped, final, after⟩ := exact_callback awaiting early remaining
  have running : Receiving { collecting gu ((List.range 8).map fun i =>
      line (t + gu.bitPeriod / 2 + i * gu.bitPeriod)) with rxBitpos := stopPos gu.cfg - 1 } :=
    ⟨receiving.enabled, receiving.upright, receiving.port⟩
  rw [rx_stop_bit running rfl _ rfl] at stopped final
  exact ⟨rest, seen.trans (data.trans (passed.trans stopped)), final, after⟩

/-- `uart_tx_byte` sends, and the line is not inverted. -/
structure Sending (gu : GpioUart) : Prop where
  enabled : gu.cfg.txEnable = true
  speed : gu.cfg.baud ≠ 0
  upright : gu.cfg.invert = false

/-- The setting that makes `uart_tx_byte` send an odd number of ones. -/
def OddParity (cfg : GuCfg) : Prop := cfg.parity ≠ 0 ∧ cfg.parity ≠ 2

instance (cfg : GuCfg) : Decidable (OddParity cfg) := inferInstanceAs (Decidable (_ ∧ _))

/-- The level that is taken for the stop bit. -/
def takenForStop (cfg : GuCfg) (b : BitVec 8) : Bool :=
  if cfg.parity ≠ 0 then parityBit cfg b else b.getLsbD 7

theorem tx_byte_levels {gu : GpioUart} (sending : Sending gu) (b : BitVec 8) :
    (uartTxByte gu b).2 = false :: (bits b ++ ((if gu.cfg.parity ≠ 0 then [parityBit gu.cfg b]
      else []) ++ List.replicate gu.cfg.stopbits.toNat true)) := by
  have unchanged : setTxLevel gu.cfg = id := by
    funext v
    simp [setTxLevel, sending.upright]
  have sends : ¬(gu.cfg.txEnable = false ∨ gu.cfg.baud = 0) := by
    simp [sending.enabled, sending.speed]
  rw [uartTxByte, if_neg sends, uartTxLevels, unchanged, List.map_id]

theorem tx_level_data {gu : GpioUart} (sending : Sending gu) (b : BitVec 8) {i : Nat}
    (bound : i < 8) : (uartTxByte gu b).2[i]? = (false :: bits b)[i]? := by
  rw [tx_byte_levels sending, ← List.cons_append, List.getElem?_append_left]
  rw [List.length_cons, bits_length]
  omega

theorem tx_level_stop {gu : GpioUart} (sending : Sending gu) (b : BitVec 8) :
    (uartTxByte gu b).2[stopIndex gu.cfg]? = some (takenForStop gu.cfg b) := by
  rw [tx_byte_levels sending, stopIndex, takenForStop]
  split_ifs with parity
  · rw [List.getElem?_cons_succ, List.getElem?_append_right (by simp), bits_length]
    rfl
  · rw [List.getElem?_cons_succ, List.getElem?_append_left (by simp)]
    exact bits_get b (by decide)

theorem tx_level_behind {gu : GpioUart} (sending : Sending gu) (b : BitVec 8) {k : Nat}
    {level : Bool} (behind : stopIndex gu.cfg < k)
    (found : (uartTxByte gu b).2[k]? = some level) : level = true := by
  rw [tx_byte_levels sending] at found
  unfold stopIndex at behind
  have stop : ∀ n : Nat, (List.replicate gu.cfg.stopbits.toNat true)[n]? = some level →
      level = true := by
    intro n sent
    exact List.eq_of_mem_replicate (List.mem_of_getElem? sent)
  obtain ⟨k, rfl⟩ := Nat.exists_eq_succ_of_ne_zero (by omega : k ≠ 0)
  rw [List.getElem?_cons_succ, List.getElem?_append_right] at found
  · split_ifs at behind found with parity
    · rw [List.getElem?_append_right (by simp; omega)] at found
      exact stop _ found
    · rw [List.nil_append] at found
      exact stop _ found
  · rw [bits_length]
    split_ifs at behind <;> omega

/-- A sample half a period behind a callback in the first half of the start
bit, and so many periods later, falls into the level of that number. -/
theorem sample_level {line : Nat → Bool} {bitPeriod start t k : Nat} {levels : List Bool}
    {level : Bool} (carries : CarriesChar line bitPeriod start levels) (seen : start ≤ t)
    (firstHalf : 2 * (t - start) < bitPeriod) (found : levels[k]? = some level) :
    line (t + bitPeriod / 2 + k * bitPeriod) = level := by
  have next : (k + 1) * bitPeriod = k * bitPeriod + bitPeriod := Nat.succ_mul _ _
  exact carries k level found _ (by omega) (by omega)

/-- The first sample is the start bit again, and the last data bit is missing. -/
theorem samples_shifted {gu : GpioUart} (sending : Sending gu) {line : Nat → Bool}
    {start t : Nat} {b : BitVec 8}
    (carries : CarriesChar line gu.bitPeriod start (uartTxByte gu b).2) (seen : start ≤ t)
    (firstHalf : 2 * (t - start) < gu.bitPeriod) :
    ((List.range 8).map fun i => line (t + gu.bitPeriod / 2 + i * gu.bitPeriod)) =
      (false :: bits b).take 8 := by
  apply List.ext_getElem?
  intro i
  by_cases bound : i < 8
  · have inside : i < (false :: bits b).length := by
      rw [List.length_cons, bits_length]
      omega
    have found := (tx_level_data sending b bound).trans (List.getElem?_eq_getElem inside)
    rw [List.getElem?_take_of_lt bound, List.getElem?_eq_getElem inside, List.getElem?_map,
      List.getElem?_range bound]
    exact congrArg some (sample_level carries seen firstHalf found)
  · rw [List.getElem?_eq_none (by simpa using bound), List.getElem?_eq_none]
    simp
    omega

/-- Only the byte zero survives the shift. -/
theorem shifted_byte_iff (b : BitVec 8) :
    sampledByte ((false :: bits b).take 8) = b ↔ b = 0 := by
  constructor
  · intro same
    have full : ((false :: bits b).take 8).length = 8 := by simp
    have shifted : bits b = (false :: bits b).take 8 := by
      rw [← bits_sampled_byte full, same]
    have low : ∀ i < 8, b.getLsbD i = false := by
      intro i
      induction i with
      | zero =>
          intro bound
          have head := congrArg (fun sent => sent[0]?) shifted
          rw [bits_get b bound, List.getElem?_take_of_lt bound] at head
          exact Option.some.inj head
      | succ i induction =>
          intro bound
          have next := congrArg (fun sent => sent[i + 1]?) shifted
          rw [bits_get b bound, List.getElem?_take_of_lt bound, List.getElem?_cons_succ,
            bits_get b (Nat.lt_of_succ_lt bound)] at next
          exact (Option.some.inj next).trans (induction (Nat.lt_of_succ_lt bound))
    apply BitVec.eq_of_getLsbD_eq
    intro i bound
    rw [low i bound]
    exact BitVec.getLsbD_zero.symm
  · rintro rfl
    decide

theorem zero_stop_iff (cfg : GuCfg) : takenForStop cfg 0 = true ↔ OddParity cfg := by
  have noOnes : popcount 0#8 = 0 := by decide
  simp [takenForStop, parityBit, OddParity, noOnes]

theorem receive_mono (line : Nat → Bool) (gu : GpioUart) (times : List Nat) :
    gu.flipped <+: (receiveAt line gu times).flipped ∧
      gu.st.framingErrors ≤ (receiveAt line gu times).st.framingErrors := by
  induction times generalizing gu with
  | nil => exact ⟨List.prefix_refl _, le_refl _⟩
  | cons t rest induction =>
      have tick : gu.flipped <+: (rxTimerCb gu (line t)).gu.flipped ∧
          gu.st.framingErrors ≤ (rxTimerCb gu (line t)).gu.st.framingErrors := by
        unfold rxTimerCb startChar stopChar countRxByte ttyInsert countFramingError
        dsimp only
        split_ifs
        all_goals first
          | exact ⟨List.prefix_append _ _, le_refl _⟩
          | exact ⟨List.prefix_refl _, le_refl _⟩
          | exact ⟨List.prefix_refl _, Nat.le_succ _⟩
      obtain ⟨more, counted⟩ := induction (rxTimerCb gu (line t)).gu
      exact ⟨tick.1.trans more, tick.2.trans counted⟩

theorem line_end_ge (gu : GpioUart) (origin : Nat) (sends : List (Nat × BitVec 8)) :
    origin ≤ lineEnd gu origin sends := by
  induction sends generalizing origin with
  | nil => exact le_refl _
  | cons send rest induction =>
      obtain ⟨pause, b⟩ := send
      have later := induction (origin + pause + (uartTxByte gu b).2.length * gu.bitPeriod)
      simp only [lineEnd]
      omega

theorem start_times_ge {gu : GpioUart} {origin start : Nat} {sends : List (Nat × BitVec 8)}
    (member : start ∈ startTimes gu origin sends) : origin ≤ start := by
  induction sends generalizing origin with
  | nil => cases member
  | cons send rest induction =>
      obtain ⟨pause, b⟩ := send
      rcases List.mem_cons.mp member with rfl | later
      · exact Nat.le_add_right _ _
      · have behind := induction later
        omega

/-- Behind a high level taken for the stop bit the character stays high. -/
theorem high_behind_stop {tx : GpioUart} (sending : Sending tx) {line : Nat → Bool}
    {start t now : Nat} {b : BitVec 8}
    (carries : CarriesChar line tx.bitPeriod start (uartTxByte tx b).2)
    (stop : takenForStop tx.cfg b = true) (positive : 0 < tx.bitPeriod)
    (taken : start + stopIndex tx.cfg * tx.bitPeriod ≤ now) (behind : now ≤ t)
    (inside : t < start + (uartTxByte tx b).2.length * tx.bitPeriod) : line t = true := by
  have cell : (t - start) / tx.bitPeriod < (uartTxByte tx b).2.length :=
    Nat.div_lt_of_lt_mul (by rw [Nat.mul_comm]; omega)
  have low : stopIndex tx.cfg ≤ (t - start) / tx.bitPeriod :=
    (Nat.le_div_iff_mul_le positive).mpr (by omega)
  have found := List.getElem?_eq_getElem cell
  have level : (uartTxByte tx b).2[(t - start) / tx.bitPeriod] = true := by
    rcases Nat.eq_or_lt_of_le low with same | above
    · have there := tx_level_stop sending b
      rw [same, found, stop] at there
      exact Option.some.inj there
    · exact tx_level_behind sending b above found
  have split := Nat.div_add_mod' (t - start) tx.bitPeriod
  have rest := Nat.mod_lt (t - start) positive
  have next : ((t - start) / tx.bitPeriod + 1) * tx.bitPeriod =
      (t - start) / tx.bitPeriod * tx.bitPeriod + tx.bitPeriod := Nat.succ_mul _ _
  rw [← level]
  exact carries _ _ found t (by omega) (by omega)

theorem high_callbacks {gu : GpioUart} (receiving : Receiving gu) (idle : gu.rxBusy = false)
    {line : Nat → Bool} {now : Nat} {times : List Nat}
    (scheduled : Scheduled line gu (.since now) times)
    (high : ∀ t, now ≤ t → line t = true) : receiveAt line gu times = gu := by
  induction times generalizing now with
  | nil => rfl
  | cons t rest induction =>
      obtain ⟨due, later⟩ := scheduled
      have tick := rx_idle_high receiving idle
      rw [high t due, tick] at later
      rw [receiveAt, List.foldl_cons, high t due, tick]
      exact induction later fun u behind => high u (Nat.le_trans due behind)

/-- The receiver hears the first character of the line in one piece, and
takes its stop bit where the last level before it stands. -/
theorem first_character {tx gu : GpioUart} (sending : Sending tx) (same : SameSettings tx gu)
    (receiving : Receiving gu) (idle : gu.rxBusy = false) {line : Nat → Bool}
    {now start limit : Nat} {times : List Nat} {b : BitVec 8}
    (ends : limit = start + (uartTxByte tx b).2.length * tx.bitPeriod)
    (scheduled : Scheduled line gu (.since now) times)
    (high : ∀ t, now ≤ t → t < start → line t = true)
    (carries : CarriesChar line tx.bitPeriod start (uartTxByte tx b).2)
    (sees : SeesStart line gu times start) (reaches : ∃ t ∈ times, limit ≤ t) :
    ∃ rest u,
      Leads line limit gu times
        (heard gu ((false :: bits b).take 8) (takenForStop tx.cfg b)) rest ∧
      Scheduled line (heard gu ((false :: bits b).take 8) (takenForStop tx.cfg b)) (.since u)
        rest ∧
      start + stopIndex tx.cfg * tx.bitPeriod ≤ u ∧ 0 < tx.bitPeriod := by
  have stop := tx_level_stop sending b
  obtain ⟨index, _⟩ := List.getElem?_eq_some_iff.mp stop
  have next : (stopIndex tx.cfg + 1) * tx.bitPeriod =
      stopIndex tx.cfg * tx.bitPeriod + tx.bitPeriod := Nat.succ_mul _ _
  have whole : (stopIndex tx.cfg + 1) * tx.bitPeriod ≤
      (uartTxByte tx b).2.length * tx.bitPeriod := Nat.mul_le_mul_right _ index
  have begins : start ≤ limit := by omega
  obtain ⟨v, member, behind⟩ := reaches
  obtain ⟨t, later, waited, seen, sampled⟩ := idle_callbacks receiving idle scheduled high
    ⟨v, member, Nat.le_trans begins behind⟩
  have firstHalf : 2 * (t - start) < tx.bitPeriod := by
    obtain ⟨taken, split, received, early⟩ := waited
    rw [← same.period]
    apply sees taken t later split early seen
    rw [received]
    exact idle
  have low : line t = false := by
    apply carries 0 false _ t <;> first | omega | rw [tx_byte_levels sending]; rfl
  have early : t + gu.bitPeriod / 2 + stopIndex gu.cfg * gu.bitPeriod < limit := by
    rw [same.period, same.cfg]
    omega
  have remaining : ∃ w ∈ later, limit ≤ w := by
    obtain ⟨w, listed, after⟩ := waited.reaches begins ⟨v, member, behind⟩
    rcases List.mem_cons.mp listed with rfl | left
    · omega
    · exact ⟨w, left, after⟩
  obtain ⟨rest, character, final, _⟩ :=
    character_callbacks receiving idle low sampled early remaining
  have samples := samples_shifted sending carries seen firstHalf
  have level := sample_level carries seen firstHalf stop
  rw [same.period, same.cfg] at character final
  rw [samples, level] at character final
  exact ⟨rest, _, (waited.later begins).trans character, final, by omega, by omega⟩

/-- Where one byte and no error has been added, the rest has to be decoded. -/
theorem decodes_cons {line : Nat → Bool} {gu after : GpioUart} {times rest : List Nat}
    {byte : BitVec 8} (received : receiveAt line gu times = receiveAt line after rest)
    (added : after.flipped = gu.flipped ++ [byte])
    (counted : after.st.framingErrors = gu.st.framingErrors) (b : BitVec 8)
    (sent : List (BitVec 8)) :
    Decodes line gu times (b :: sent) ↔ byte = b ∧ Decodes line after rest sent := by
  unfold Decodes
  rw [received, counted, added, List.append_assoc, List.singleton_append]
  constructor
  · rintro ⟨delivered, errors⟩
    have starts := (receive_mono line after rest).1
    rw [delivered, added, List.prefix_append_right_inj, List.cons_prefix_cons] at starts
    obtain ⟨rfl, _⟩ := starts
    exact ⟨rfl, delivered, errors⟩
  · rintro ⟨rfl, delivered, errors⟩
    exact ⟨delivered, errors⟩

theorem zero_sends_cons_iff {odd : Prop} {pause : Nat} {b : BitVec 8}
    {rest : List (Nat × BitVec 8)} (parity : b = 0 → odd) :
    ((pause, b) :: rest = [] ∨ odd ∧ ∀ send ∈ (pause, b) :: rest, send.2 = 0) ↔
      b = 0 ∧ (rest = [] ∨ odd ∧ ∀ send ∈ rest, send.2 = 0) := by
  rw [List.forall_mem_cons]
  constructor
  · intro sends
    cases sends with
    | inl none => cases none
    | inr zeros => exact ⟨zeros.2.1, .inr ⟨zeros.1, zeros.2.2⟩⟩
  · intro sends
    refine .inr ⟨parity sends.1, sends.1, ?_⟩
    cases sends.2 with
    | inl none =>
        rw [none]
        exact List.forall_mem_nil _
    | inr zeros => exact zeros.2

theorem decodes_from {tx : GpioUart} (sending : Sending tx) {line : Nat → Bool}
    {sends : List (Nat × BitVec 8)} {origin now : Nat} {gu : GpioUart} {times : List Nat}
    (same : SameSettings tx gu) (receiving : Receiving gu) (idle : gu.rxBusy = false)
    (quiet : ∀ t, now ≤ t → t < origin → line t = true)
    (carries : Carries line tx origin sends) (scheduled : Scheduled line gu (.since now) times)
    (starts : ∀ start ∈ startTimes tx origin sends, SeesStart line gu times start)
    (whole : ∃ t ∈ times, lineEnd tx origin sends ≤ t) :
    Decodes line gu times (sends.map Prod.snd) ↔
      sends = [] ∨ OddParity tx.cfg ∧ ∀ send ∈ sends, send.2 = 0 := by
  induction sends generalizing origin now gu times with
  | nil =>
      have high : ∀ t, now ≤ t → line t = true := by
        intro t behind
        by_cases before : t < origin
        · exact quiet t behind before
        · exact carries t (Nat.le_of_not_lt before)
      unfold Decodes
      rw [high_callbacks receiving idle scheduled high]
      simp
  | cons send rest induction =>
      obtain ⟨pause, b⟩ := send
      obtain ⟨high, character, later⟩ := carries
      have ends := line_end_ge tx
        (origin + pause + (uartTxByte tx b).2.length * tx.bitPeriod) rest
      have before : ∀ t, now ≤ t → t < origin + pause → line t = true := by
        intro t behind early
        by_cases inside : t < origin
        · exact quiet t behind inside
        · exact high t (Nat.le_of_not_lt inside) early
      have reaches : ∃ t ∈ times,
          origin + pause + (uartTxByte tx b).2.length * tx.bitPeriod ≤ t := by
        obtain ⟨t, member, behind⟩ := whole
        exact ⟨t, member, Nat.le_trans ends behind⟩
      obtain ⟨left, u, leads, next, sampled, positive⟩ :=
        first_character sending same receiving idle rfl scheduled before character
          (starts _ (List.mem_cons_self ..)) reaches
      cases stop : takenForStop tx.cfg b with
      | false =>
          rw [stop] at leads
          have counted := (receive_mono line (heard gu ((false :: bits b).take 8) false) left).2
          rw [← leads.receive, heard_no_stop] at counted
          constructor
          · rintro ⟨_, errors⟩
            omega
          · rintro (none | ⟨odd, zero⟩)
            · cases none
            · have sent : b = 0 := zero _ (List.mem_cons_self ..)
              rw [sent, (zero_stop_iff tx.cfg).mpr odd] at stop
              cases stop
      | true =>
          rw [stop] at leads next
          obtain ⟨added, counted⟩ := heard_stop receiving ((false :: bits b).take 8)
          obtain ⟨settings, ready⟩ := heard_settings gu ((false :: bits b).take 8) true
          have kept : SameSettings tx (heard gu ((false :: bits b).take 8) true) :=
            ⟨settings.cfg.trans same.cfg, settings.period.trans same.period,
              settings.port.trans same.port⟩
          have hence := induction kept (settings.receiving receiving) ready
            (fun t => high_behind_stop sending character stop positive sampled) later next
            (fun start member => leads.sees settings.period (start_times_ge member)
              (starts start (List.mem_cons_of_mem _ member)))
            (leads.reaches ends whole)
          have parity : b = 0 → OddParity tx.cfg := by
            intro zero
            rw [zero] at stop
            exact (zero_stop_iff tx.cfg).mp stop
          rw [List.map_cons, decodes_cons leads.receive added counted, shifted_byte_iff, hence]
          exact (zero_sends_cons_iff parity).symm

/-- The driver decodes its own transmission only where it consists of zero
bytes with odd parity: there the parity bit is taken for the stop bit. -/
theorem tty_decodes_iff (gu : GpioUart) (receiving : Receiving gu) (idle : gu.rxBusy = false)
    (sending : Sending gu) (sends : List (Nat × BitVec 8)) (times : List Nat)
    (listens : Listens gu sends times) :
    Decodes (lineAt gu sends) gu times (sends.map Prod.snd) ↔
      sends = [] ∨ OddParity gu.cfg ∧ ∀ send ∈ sends, send.2 = 0 :=
  decodes_from sending ⟨rfl, rfl, rfl⟩ receiving idle
    (fun t _ early => absurd early (Nat.not_lt_zero t)) (line_at_carries gu sends 0)
    listens.scheduled listens.starts listens.whole

def tenTicks (parity : BitVec 8) : GpioUart :=
  gpioUartInit ⟨9600, parity, 1, false, true, true⟩ 10

theorem ten_ticks_sees_start {line : Nat → Bool} (parity : BitVec 8) (times : List Nat) :
    SeesStart line (tenTicks parity) (5 :: 12 :: times) 10 := by
  rintro (_ | ⟨first, _ | ⟨second, before⟩⟩) t after split early reached _
  · obtain ⟨rfl, _⟩ := List.cons.inj split
    omega
  · obtain ⟨_, split⟩ := List.cons.inj split
    obtain ⟨rfl, _⟩ := List.cons.inj split
    exact (by decide : 2 * (12 - 10) < 10)
  · obtain ⟨_, split⟩ := List.cons.inj split
    obtain ⟨rfl, _⟩ := List.cons.inj split
    have seen := early 12 (by simp)
    omega

theorem ten_ticks_listens {parity b : BitVec 8} {times : List Nat}
    (scheduled : Scheduled (lineAt (tenTicks parity) [(10, b)]) (tenTicks parity) (.since 0)
      (5 :: 12 :: times))
    (whole : ∃ t ∈ times, lineEnd (tenTicks parity) 0 [(10, b)] ≤ t) :
    Listens (tenTicks parity) [(10, b)] (5 :: 12 :: times) where
  scheduled := scheduled
  starts := by
    intro start member
    rw [List.mem_singleton.mp member]
    exact ten_ticks_sees_start parity times
  whole := by
    obtain ⟨t, member, behind⟩ := whole
    exact ⟨t, List.mem_cons_of_mem _ (List.mem_cons_of_mem _ member), behind⟩

theorem tty_decodes_zero_odd :
    Decodes (lineAt (tenTicks 1) [(10, 0)]) (tenTicks 1)
      [5, 12, 17, 27, 37, 47, 57, 67, 77, 87, 97, 107, 125] [0] :=
  (tty_decodes_iff (tenTicks 1) ⟨rfl, rfl, rfl⟩ rfl ⟨rfl, by decide, rfl⟩ [(10, 0)] _
    (ten_ticks_listens (by decide) (by decide))).mpr (.inr ⟨by decide, by decide⟩)

/-- Without parity 0xC1 is delivered as 0x82. -/
theorem tty_shifts_byte :
    Listens (tenTicks 0) [(10, 0xC1)] [5, 12, 17, 27, 37, 47, 57, 67, 77, 87, 97, 115] ∧
      (receiveAt (lineAt (tenTicks 0) [(10, 0xC1)]) (tenTicks 0)
        [5, 12, 17, 27, 37, 47, 57, 67, 77, 87, 97, 115]).flipped = [0x82] ∧
      ¬Decodes (lineAt (tenTicks 0) [(10, 0xC1)]) (tenTicks 0)
        [5, 12, 17, 27, 37, 47, 57, 67, 77, 87, 97, 115] [0xC1] := by
  have delivered : (receiveAt (lineAt (tenTicks 0) [(10, 0xC1)]) (tenTicks 0)
      [5, 12, 17, 27, 37, 47, 57, 67, 77, 87, 97, 115]).flipped = [0x82] := by
    decide
  refine ⟨ten_ticks_listens (by decide) (by decide), delivered, ?_⟩
  rintro ⟨wanted, _⟩
  rw [delivered] at wanted
  exact absurd wanted (by decide)

end Testings.GpioTty
