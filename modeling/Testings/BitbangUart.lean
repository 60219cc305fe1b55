import Testings.AsyncSerial

/-!
# The bit-bang UART

The functions of `uart.c` on the device state. A level is a Boolean; what a
timer callback does to the world outside the device state (the level it drives,
whether it wakes the readers) is part of its result, and so is whether a function
starts a timer. What a caller does with the timers is left to the systems built
on it.
-/

set_option autoImplicit false

namespace Testings.Bitbang

open AsyncSerial

def fifoSize : Nat := 1024

def intMax : BitVec 32 := 0x7FFFFFFF#32

def efault : Int := -14

structure BitbangChr where
  idx : Int
  parityBit : BitVec 8
  data : BitVec 8
  deriving DecidableEq

structure BitbangStats where
  txCounter : BitVec 32
  rxCounter : BitVec 32
  rxErrsStart : BitVec 32
  rxErrsStop : BitVec 32
  rxErrsParity : BitVec 32
  deriving DecidableEq

/-- `irqDepth` is the kernel's disable depth of the line `irq`. -/
structure BitbangUart where
  period : Nat
  halfPeriod : Nat
  irqDepth : Nat
  txFifo : List (BitVec 8)
  rxFifo : List (BitVec 8)
  txChr : BitbangChr
  rxChr : BitbangChr
  openCount : BitVec 32
  stats : BitbangStats
  deriving DecidableEq

inductive HrtimerRestart where
  | norestart
  | restart
  deriving DecidableEq

/-- The outcome of `tx_timer_cb`: the level it drives and what it returns. -/
structure TxTick where
  uart : BitbangUart
  driven : Option Bool
  ret : HrtimerRestart

/-- The outcome of `rx_timer_cb`: whether it wakes the readers and what it returns. -/
structure RxTick where
  uart : BitbangUart
  wakes : Bool
  ret : HrtimerRestart

def kfifoIsFull (fifo : List (BitVec 8)) : Bool := fifoSize ≤ fifo.length

def kfifoIn (fifo bytes : List (BitVec 8)) : List (BitVec 8) :=
  fifo ++ bytes.take (fifoSize - fifo.length)

/-- Only `bytes` can be read at the user's address: the new fifo, `copied` and
the return value. -/
def kfifoFromUser (fifo bytes : List (BitVec 8)) (count : Nat) : List (BitVec 8) × Nat × Int :=
  let len := min count (fifoSize - fifo.length)
  let copied := (bytes.take len).length
  (fifo ++ bytes.take len, copied, if copied < len then efault else 0)

/-- Only `room` bytes can be written at the user's address. -/
def kfifoToUser (fifo : List (BitVec 8)) (room count : Nat) : List (BitVec 8) × Nat × Int :=
  let len := min count fifo.length
  let copied := min len room
  (fifo.drop copied, copied, if copied < len then efault else 0)

def msToKtime (ms : Nat) : Nat := ms * 1000000

/-- The first multiple of `interval` after `expires` that is past `now`. -/
def hrtimerForward (expires now interval : Nat) : Nat :=
  if now < expires then expires else expires + ((now - expires) / interval + 1) * interval

def bitbangUartSetPeriod (d : BitbangUart) (periodMs : BitVec 32) : BitbangUart :=
  if periodMs = 0 ∨ 1000#32 < periodMs then d
  else { d with
    period := msToKtime periodMs.toNat
    halfPeriod := msToKtime periodMs.toNat / 2 }

def BitbangChr.zero : BitbangChr := ⟨0, 0, 0⟩

/-- `irq_init` leaves the interrupt disabled once. -/
def bitbangUartInit (periodMs : BitVec 32) : BitbangUart :=
  bitbangUartSetPeriod
    { period := 0
      halfPeriod := 0
      irqDepth := 1
      txFifo := []
      rxFifo := []
      txChr := .zero
      rxChr := .zero
      openCount := 0
      stats := ⟨0, 0, 0, 0, 0⟩ }
    periodMs

/-- `enable_irq` at depth 0 only warns. -/
def enableIrq (d : BitbangUart) : BitbangUart := { d with irqDepth := d.irqDepth - 1 }

def disableIrq (d : BitbangUart) : BitbangUart := { d with irqDepth := d.irqDepth + 1 }

def bitbangUartOpen (d : BitbangUart) : BitbangUart :=
  let opened := d.openCount
  let d := if opened = intMax then d else { d with openCount := opened + 1 }
  if opened = 0 then
    enableIrq { d with
      rxFifo := []
      txChr := { d.txChr with idx := -1 }
      rxChr := { d.rxChr with idx := -1 } }
  else d

def bitbangUartClose (d : BitbangUart) : BitbangUart :=
  let d := { d with openCount := d.openCount - 1 }
  if d.openCount = 0 then { disableIrq d with rxFifo := [] } else d

/-- The section of `bitbang_tx` under the lock, with `copied` and `ret`. -/
def bitbangTxCopy (d : BitbangUart) (bytes : List (BitVec 8)) (count : Nat) :
    BitbangUart × Nat × Int :=
  let (txFifo, copied, ret) := kfifoFromUser d.txFifo bytes count
  ({ d with txFifo := txFifo }, copied, ret)

/-- The test after it: whether `bitbang_tx` starts `tx_timer`. -/
def bitbangTxStarts (copied : Nat) (active : Bool) : Bool := copied != 0 && !active

/-- `bitbang_tx` blocks while the fifo is full. -/
def bitbangTx (d : BitbangUart) (bytes : List (BitVec 8)) (count : Nat) (active : Bool) :
    Option (BitbangUart × Bool × Int) :=
  if kfifoIsFull d.txFifo then none
  else
    let (d, copied, ret) := bitbangTxCopy d bytes count
    some (d, bitbangTxStarts copied active, if ret ≠ 0 then ret else copied)

/-- `bitbang_rx` blocks while the fifo is empty. -/
def bitbangRx (d : BitbangUart) (room count : Nat) : Option (BitbangUart × Int) :=
  if d.rxFifo = [] then none
  else
    let (rxFifo, copied, ret) := kfifoToUser d.rxFifo room count
    some ({ d with rxFifo := rxFifo }, if ret ≠ 0 then ret else copied)

/-- Whether `rx_irq_handler` starts `rx_timer`, when it reads `val` from the pin. -/
def rxIrqHandler (d : BitbangUart) (val : Bool) : Bool := !val && d.rxChr.idx == -1

def parityEven8 (x : BitVec 8) : BitVec 32 :=
  let x := x ^^^ (x >>> 4)
  let x := x ^^^ (x >>> 2)
  let x := x ^^^ (x >>> 1)
  (x &&& 1).setWidth 32

def txTimerCb (d : BitbangUart) : TxTick :=
  let idx := d.txChr.idx
  if 10 < idx ∨ idx < -1 then
    ⟨{ d with txChr := { d.txChr with idx := -1 } }, none, .norestart⟩
  else if idx = -1 then
    match d.txFifo with
    | [] => ⟨d, none, .norestart⟩
    | data :: remains =>
        ⟨{ d with
            txFifo := remains
            txChr := { idx := idx + 1, parityBit := (parityEven8 data).setWidth 8, data := data } },
          some false, .restart⟩
  else if idx = 8 then
    ⟨{ d with txChr := { d.txChr with idx := idx + 1 } }, some (d.txChr.parityBit != 0), .restart⟩
  else if idx = 9 then
    ⟨{ d with txChr := { d.txChr with idx := idx + 1 } }, some true, .restart⟩
  else if idx = 10 then
    ⟨{ d with
        txChr := { d.txChr with idx := -1 }
        stats := { d.stats with txCounter := d.stats.txCounter + 1 } },
      some true, .restart⟩
  else
    ⟨{ d with txChr := { d.txChr with idx := idx + 1 } },
      some (1 &&& (d.txChr.data >>> idx.toNat) != 0), .restart⟩

def insertBit (byte : BitVec 8) (bit : Bool) : BitVec 8 :=
  (byte >>> 1) ||| ((if bit then 1 else 0) <<< 7)

/-- The received byte replaces the oldest one of a full fifo. -/
def pushReceived (fifo : List (BitVec 8)) (data : BitVec 8) : List (BitVec 8) :=
  kfifoIn (if kfifoIsFull fifo then fifo.drop 1 else fifo) [data]

def rxTimerCb (d : BitbangUart) (v : Bool) : RxTick :=
  let idx := d.rxChr.idx
  if 9 < idx ∨ idx < -1 then
    ⟨{ d with rxChr := { d.rxChr with idx := -1 } }, false, .norestart⟩
  else if idx = -1 then
    if v then
      ⟨{ d with stats := { d.stats with rxErrsStart := d.stats.rxErrsStart + 1 } }, false,
        .norestart⟩
    else ⟨{ d with rxChr := { d.rxChr with idx := idx + 1 } }, false, .restart⟩
  else if idx = 8 then
    ⟨{ d with rxChr := { d.rxChr with parityBit := if v then 1 else 0, idx := idx + 1 } }, false,
      .restart⟩
  else if idx = 9 then
    let wrong := parityEven8 d.rxChr.data ^^^ d.rxChr.parityBit.setWidth 32
    if v = true ∧ wrong = 0 then
      ⟨{ d with
          rxChr := { d.rxChr with idx := -1 }
          rxFifo := pushReceived d.rxFifo d.rxChr.data
          stats := { d.stats with rxCounter := d.stats.rxCounter + 1 } },
        true, .norestart⟩
    else
      ⟨{ d with
          rxChr := { d.rxChr with idx := -1 }
          stats := { d.stats with
            rxErrsParity := if wrong ≠ 0 then d.stats.rxErrsParity + 1 else d.stats.rxErrsParity
            rxErrsStop := if v then d.stats.rxErrsStop else d.stats.rxErrsStop + 1 } },
        false, .norestart⟩
  else
    ⟨{ d with rxChr := { d.rxChr with data := insertBit d.rxChr.data v, idx := idx + 1 } }, false,
      .restart⟩

theorem bitbang_tx_some {d uart : BitbangUart} {bytes : List (BitVec 8)} {count : Nat}
    {active starts : Bool} {ret : Int}
    (result : bitbangTx d bytes count active = some (uart, starts, ret)) :
    kfifoIsFull d.txFifo = false ∧
      uart = { d with
        txFifo := d.txFifo ++ bytes.take (min count (fifoSize - d.txFifo.length)) } ∧
      starts =
        bitbangTxStarts (bytes.take (min count (fifoSize - d.txFifo.length))).length active := by
  cases full : kfifoIsFull d.txFifo with
  | true =>
      rw [bitbangTx, if_pos full] at result
      cases result
  | false =>
      rw [bitbangTx, if_neg (by simp [full])] at result
      dsimp only [bitbangTxCopy, kfifoFromUser] at result
      cases result
      exact ⟨rfl, rfl, rfl⟩

theorem bitbang_rx_some {d uart : BitbangUart} {room count : Nat} {ret : Int}
    (result : bitbangRx d room count = some (uart, ret)) :
    ∃ n, uart = { d with rxFifo := d.rxFifo.drop n } := by
  by_cases empty : d.rxFifo = []
  · rw [bitbangRx, if_pos empty] at result
    cases result
  · rw [bitbangRx, if_neg empty] at result
    dsimp only [kfifoToUser] at result
    cases result
    exact ⟨_, rfl⟩

theorem parity_even8_eq (x : BitVec 8) : parityEven8 x = if parity x then 1 else 0 := by
  revert x
  decide +kernel

theorem insert_bit_eq (byte : BitVec 8) (bit : Bool) : insertBit byte bit = shiftIn byte bit := by
  cases bit <;> rfl

theorem data_level (data : BitVec 8) {i : Nat} (bound : i < 8) :
    (1 &&& (data >>> i) != 0) = data.getLsbD i := by
  have all : ∀ (data : BitVec 8) (i : Fin 8),
      (1 &&& (data >>> i.val) != 0) = data.getLsbD i.val := by
    decide +kernel
  exact all data ⟨i, bound⟩

theorem forward_on_time (expires interval : Nat) :
    hrtimerForward expires expires interval = expires + interval := by
  simp [hrtimerForward]

theorem rx_tick_keeps_tx (d : BitbangUart) (v : Bool) :
    (rxTimerCb d v).uart.txChr = d.txChr ∧ (rxTimerCb d v).uart.txFifo = d.txFifo := by
  unfold rxTimerCb
  dsimp only
  split_ifs <;> exact ⟨rfl, rfl⟩

theorem tx_tick_keeps_rx (d : BitbangUart) :
    (txTimerCb d).uart.rxChr = d.rxChr ∧ (txTimerCb d).uart.rxFifo = d.rxFifo := by
  unfold txTimerCb
  dsimp only
  split_ifs
  case pos => exact ⟨rfl, rfl⟩
  case pos => cases d.txFifo <;> exact ⟨rfl, rfl⟩
  all_goals exact ⟨rfl, rfl⟩

/-- `sent` levels of the frame of `byte` have been driven, and some are left. -/
structure Sending (chr : BitbangChr) (byte : BitVec 8) (sent : Nat) : Prop where
  data : chr.data = byte
  parityBit : chr.parityBit = if parity byte then 1 else 0
  idx : chr.idx + 1 = sent
  started : 0 < sent
  unfinished : sent < 12

theorem tx_fifo_empty {d : BitbangUart} (idle : d.txChr.idx = -1) (empty : d.txFifo = []) :
    txTimerCb d = ⟨d, none, .norestart⟩ := by
  simp [txTimerCb, idle, empty]

theorem tx_start_bit {d : BitbangUart} {byte : BitVec 8} {remains : List (BitVec 8)}
    (idle : d.txChr.idx = -1) (next : d.txFifo = byte :: remains) :
    txTimerCb d = ⟨{ d with
        txFifo := remains
        txChr := { idx := 0, parityBit := if parity byte then 1 else 0, data := byte } },
      some false, .restart⟩ := by
  have parityBit : (parityEven8 byte).setWidth 8 = if parity byte then 1 else 0 := by
    rw [parity_even8_eq]
    split_ifs <;> rfl
  simp [txTimerCb, idle, next, parityBit]

theorem start_sending (byte : BitVec 8) :
    Sending { idx := 0, parityBit := if parity byte then 1 else 0, data := byte } byte 1 :=
  ⟨rfl, rfl, rfl, by decide, by decide⟩

/-- Every level but the last leaves the rest of the device as it is. -/
theorem tx_next_level {d : BitbangUart} {byte : BitVec 8} {sent : Nat}
    (sending : Sending d.txChr byte sent) (inner : sent < 11) :
    txTimerCb d = ⟨{ d with txChr := { d.txChr with idx := d.txChr.idx + 1 } },
      (frame 2 byte)[sent]?, .restart⟩ := by
  have idx := sending.idx
  have started := sending.started
  have inRange : ¬(10 < d.txChr.idx ∨ d.txChr.idx < -1) := by omega
  have notIdle : d.txChr.idx ≠ -1 := by omega
  have notLast : d.txChr.idx ≠ 10 := by omega
  rw [txTimerCb]
  dsimp only
  rw [if_neg inRange, if_neg notIdle, if_neg notLast]
  by_cases atParity : d.txChr.idx = 8
  · have position : sent = 8 + 1 := by omega
    rw [if_pos atParity, position, frame_parity, sending.parityBit]
    cases parity byte <;> rfl
  · by_cases atStop : d.txChr.idx = 9
    · have position : sent = 8 + 2 + 0 := by omega
      rw [if_neg atParity, if_pos atStop, position, frame_stop 2 byte (by decide)]
    · obtain ⟨i, position⟩ : ∃ i, sent = i + 1 := ⟨sent - 1, by omega⟩
      have index : d.txChr.idx.toNat = i := by omega
      have bound : i < 8 := by omega
      rw [if_neg atParity, if_neg atStop, index, sending.data, data_level byte bound, position,
        frame_bit 2 byte bound]

theorem Sending.advance {chr : BitbangChr} {byte : BitVec 8} {sent : Nat}
    (sending : Sending chr byte sent) (inner : sent < 11) :
    Sending { chr with idx := chr.idx + 1 } byte (sent + 1) where
  data := sending.data
  parityBit := sending.parityBit
  idx := by
    have idx := sending.idx
    push_cast
    omega
  started := Nat.succ_pos _
  unfinished := by omega

theorem tx_last_level {d : BitbangUart} {byte : BitVec 8} (sending : Sending d.txChr byte 11) :
    txTimerCb d = ⟨{ d with
        txChr := { d.txChr with idx := -1 }
        stats := { d.stats with txCounter := d.stats.txCounter + 1 } },
      some true, .restart⟩ := by
  have idx : d.txChr.idx = 10 := by
    have idx := sending.idx
    omega
  simp [txTimerCb, idx]

/-- The character holds the samples `seen` of a frame. -/
structure Sampled (chr : BitbangChr) (seen : List Bool) : Prop where
  idx : chr.idx + 1 = seen.length
  unfinished : seen.length ≤ 10
  start : ∀ level ∈ seen.head?, level = false
  data : (seen.drop 1).take 8 <:+ bits chr.data
  parityBit : ∀ level, seen[9]? = some level → chr.parityBit = if level then 1 else 0

theorem sampled_none {chr : BitbangChr} (idle : chr.idx = -1) : Sampled chr [] where
  idx := by simp [idle]
  unfinished := by decide
  start := by nofun
  data := List.nil_suffix
  parityBit := by nofun

theorem rx_false_start {d : BitbangUart} (idle : d.rxChr.idx = -1) :
    rxTimerCb d true = ⟨{ d with
      stats := { d.stats with rxErrsStart := d.stats.rxErrsStart + 1 } }, false, .norestart⟩ := by
  simp [rxTimerCb, idle]

/-- Every sample but the last changes the character only. -/
theorem rx_next_sample {d : BitbangUart} {seen : List Bool} (sampled : Sampled d.rxChr seen)
    (inner : seen.length < 10) (v : Bool) (start : seen = [] → v = false) :
    ∃ chr, rxTimerCb d v = ⟨{ d with rxChr := chr }, false, .restart⟩ ∧
      Sampled chr (seen ++ [v]) := by
  have idx := sampled.idx
  have inRange : ¬(9 < d.rxChr.idx ∨ d.rxChr.idx < -1) := by omega
  have notStop : d.rxChr.idx ≠ 9 := by omega
  have length : (seen ++ [v]).length = seen.length + 1 := by simp
  rw [rxTimerCb]
  dsimp only
  rw [if_neg inRange, if_neg notStop]
  by_cases atStart : d.rxChr.idx = -1
  · have nothing : seen = [] := List.eq_nil_of_length_eq_zero (by omega)
    have low := start nothing
    subst nothing low
    rw [if_pos atStart, if_neg Bool.false_ne_true]
    refine ⟨_, rfl, ?_⟩
    exact ⟨by simp [atStart], by decide, by simp, List.nil_suffix, by simp⟩
  · obtain ⟨first, received, split⟩ : ∃ first received, seen = first :: received := by
      cases seen with
      | nil => simp at idx; omega
      | cons first received => exact ⟨first, received, rfl⟩
    subst split
    have low : first = false := sampled.start first rfl
    have data := sampled.data
    simp only [List.drop_succ_cons, List.drop_zero] at data
    simp only [List.length_cons] at idx inner length
    rw [if_neg atStart]
    by_cases atParity : d.rxChr.idx = 8
    · have eight : received.length = 8 := by omega
      rw [if_pos atParity]
      refine ⟨_, rfl, ?_⟩
      refine ⟨?_, ?_, by simp [low], ?_, ?_⟩
      · simp [eight, atParity]
      · simp [eight]
      · rw [List.take_of_length_le (by omega)] at data
        simpa [eight] using data
      · intro level ninth
        simp [eight] at ninth
        rw [ninth]
    · have few : received.length < 8 := by omega
      rw [if_neg atParity]
      refine ⟨_, rfl, ?_⟩
      refine ⟨?_, ?_, by simp [low], ?_, ?_⟩
      · simp
        omega
      · simp
        omega
      · rw [insert_bit_eq]
        rw [List.take_of_length_le (by omega)] at data
        have collected := received_shift_in data few v
        rwa [List.cons_append, List.drop_succ_cons, List.drop_zero,
          List.take_of_length_le (by simp; omega)]
      · intro level ninth
        rw [List.getElem?_eq_none (by simp; omega)] at ninth
        cases ninth

/-- After ten samples of the frame of `byte` the character holds `byte`. -/
theorem Sampled.frame_data {chr : BitbangChr} {byte : BitVec 8}
    (sampled : Sampled chr ((frame 1 byte).take 10)) : chr.data = byte := by
  have collected := sampled.data
  rw [List.drop_take, List.take_take, Nat.min_eq_left (by decide), frame_bits] at collected
  exact (bits_injective (received_all collected (bits_length byte))).symm

/-- Ten samples and the stop bit are the frame of the collected data exactly
when the test of `rx_timer_cb` says so. -/
theorem complete_frame_iff {chr : BitbangChr} {seen : List Bool} (sampled : Sampled chr seen)
    (full : seen.length = 10) (v : Bool) :
    seen ++ [v] = frame 1 chr.data ↔
      v = true ∧ parityEven8 chr.data ^^^ chr.parityBit.setWidth 32 = 0 := by
  obtain ⟨first, received, rfl⟩ : ∃ first received, seen = first :: received := by
    cases seen with
    | nil => cases full
    | cons first received => exact ⟨first, received, rfl⟩
  have low : first = false := sampled.start first rfl
  have nine : received.length = 9 := by simpa using full
  obtain ⟨data, level, rfl⟩ : ∃ data level, received = data ++ [level] :=
    ⟨received.dropLast, received.getLast (by rintro rfl; cases nine),
      (List.dropLast_append_getLast _).symm⟩
  have eight : data.length = 8 := by simpa using nine
  have collected : data = bits chr.data := by
    apply received_all _ eight
    have suffix := sampled.data
    rwa [List.drop_succ_cons, List.drop_zero, List.take_append_of_le_length (by omega),
      List.take_of_length_le (by omega)] at suffix
  have parityBit : chr.parityBit = if level then 1 else 0 := by
    apply sampled.parityBit
    simp [eight]
  have test : parityEven8 chr.data ^^^ chr.parityBit.setWidth 32 = 0 ↔ level = parity chr.data := by
    rw [parity_even8_eq, parityBit]
    cases parity chr.data <;> cases level <;> decide
  rw [test, frame, collected, low]
  simp [and_comm]

theorem rx_stop_complete {d : BitbangUart} {seen : List Bool} {v : Bool}
    (sampled : Sampled d.rxChr seen) (full : seen.length = 10)
    (complete : seen ++ [v] = frame 1 d.rxChr.data) :
    rxTimerCb d v = ⟨{ d with
        rxChr := { d.rxChr with idx := -1 }
        rxFifo := pushReceived d.rxFifo d.rxChr.data
        stats := { d.stats with rxCounter := d.stats.rxCounter + 1 } },
      true, .norestart⟩ := by
  have idx : d.rxChr.idx = 9 := by
    have idx := sampled.idx
    omega
  have accepted := (complete_frame_iff sampled full v).mp complete
  rw [rxTimerCb]
  dsimp only
  rw [idx, if_neg (by decide), if_neg (by decide), if_neg (by decide), if_pos rfl, if_pos accepted]

theorem rx_stop_broken {d : BitbangUart} {seen : List Bool} {v : Bool}
    (sampled : Sampled d.rxChr seen) (full : seen.length = 10)
    (broken : seen ++ [v] ≠ frame 1 d.rxChr.data) :
    ∃ stats : BitbangStats, stats.rxCounter = d.stats.rxCounter ∧ rxTimerCb d v =
      ⟨{ d with rxChr := { d.rxChr with idx := -1 }, stats := stats }, false, .norestart⟩ := by
  have idx : d.rxChr.idx = 9 := by
    have idx := sampled.idx
    omega
  have refused := mt (complete_frame_iff sampled full v).mpr broken
  rw [rxTimerCb]
  dsimp only
  rw [idx, if_neg (by decide), if_neg (by decide), if_neg (by decide), if_pos rfl, if_neg refused]
  refine ⟨_, ?_, rfl⟩
  rfl

/-- The byte a tick has put at the end of `rx_fifo`, read off the device before and after it. -/
def pushedByte (before after : BitbangUart) : Option (BitVec 8) :=
  if after.stats.rxCounter = before.stats.rxCounter then none else after.rxFifo.getLast?

theorem push_received_eq {fifo : List (BitVec 8)} (bounded : fifo.length ≤ fifoSize)
    (data : BitVec 8) :
    pushReceived fifo data = fifo.drop (fifo.length + 1 - fifoSize) ++ [data] := by
  unfold pushReceived kfifoIn kfifoIsFull
  by_cases full : fifoSize ≤ fifo.length
  · have one : fifo.length + 1 - fifoSize = 1 := by omega
    have room : 0 < fifoSize - (fifo.length - 1) := by
      unfold fifoSize at bounded full ⊢
      omega
    rw [if_pos (decide_eq_true full), one, List.length_drop, List.take_of_length_le room]
  · have none : fifo.length + 1 - fifoSize = 0 := by omega
    have room : 0 < fifoSize - fifo.length := by omega
    rw [if_neg (by simpa using full), none, List.drop_zero, List.take_of_length_le room]

theorem pushed_byte_none {before after : BitbangUart}
    (same : after.stats.rxCounter = before.stats.rxCounter) : pushedByte before after = none :=
  if_pos same

theorem rx_stop_pushed {d : BitbangUart} {seen : List Bool} {v : Bool}
    (bounded : d.rxFifo.length ≤ fifoSize) (sampled : Sampled d.rxChr seen)
    (full : seen.length = 10) (complete : seen ++ [v] = frame 1 d.rxChr.data) :
    pushedByte d (rxTimerCb d v).uart = some d.rxChr.data := by
  have counted : d.stats.rxCounter + 1 ≠ d.stats.rxCounter := by bv_omega
  rw [rx_stop_complete sampled full complete, pushedByte, if_neg counted,
    push_received_eq bounded, List.getLast?_append, List.getLast?_singleton, Option.some_or]

/-- The fifo holds the newest of the bytes `received`. -/
structure HoldsNewest (fifo received : List (BitVec 8)) : Prop where
  newest : fifo <:+ received
  bounded : fifo.length ≤ fifoSize

theorem holds_newest_nil (received : List (BitVec 8)) : HoldsNewest [] received where
  newest := List.nil_suffix
  bounded := Nat.zero_le _

/-- A read takes the oldest bytes out. -/
theorem HoldsNewest.read {fifo received : List (BitVec 8)} (held : HoldsNewest fifo received)
    (n : Nat) : HoldsNewest (fifo.drop n) received where
  newest := (List.drop_suffix n fifo).trans held.newest
  bounded := by
    rw [List.length_drop]
    exact (Nat.sub_le _ _).trans held.bounded

theorem HoldsNewest.push {fifo received : List (BitVec 8)} (held : HoldsNewest fifo received)
    (data : BitVec 8) : HoldsNewest (pushReceived fifo data) (received ++ [data]) := by
  rw [push_received_eq held.bounded]
  refine ⟨?_, ?_⟩
  · obtain ⟨older, rfl⟩ := (held.read (fifo.length + 1 - fifoSize)).newest
    exact ⟨older, by rw [List.append_assoc]⟩
  · rw [List.length_append, List.length_drop, List.length_singleton]
    have bounded := held.bounded
    unfold fifoSize at bounded ⊢
    omega

end Testings.Bitbang
