import Testings.StepSystem
import Testings.BitbangUart

/-!
# The transmitter wired to the receiver

Both timers run on one clock and fire at their expiry: time does not pass a
pending one. The transmitter changes the line, the interrupt handler runs at
each falling edge, and the receiver samples the line half a period after the
edge it has accepted and every period from there. While level `m` of a frame is
on the line the receiver takes sample `m` of it, in the middle of the period,
and it is done with the frame before the second stop bit. This is the invariant
of every call, of time, and of both timers.
-/

set_option autoImplicit false

namespace Testings.Bitbang

open AsyncSerial

/-- The device, the clock, the level of the line and the expiry times. -/
structure Loopback where
  uart : BitbangUart
  now : Nat
  level : Bool
  txExpires : Option Nat
  rxExpires : Option Nat

inductive LoopAction where
  | write (bytes : List (BitVec 8)) (count : Nat)
  | read (room count : Nat)
  | wait (elapsed : Nat)
  | txTimer
  | rxTimer
  deriving DecidableEq

/-- Time passes or a timer expires, without a call. -/
def LoopAction.timed : LoopAction → Bool
  | .write _ _ | .read _ _ => false
  | .wait _ | .txTimer | .rxTimer => true

/-- `hrtimer_start` after `delay`. -/
def hrtimerStart (starts : Bool) (now delay : Nat) (expires : Option Nat) : Option Nat :=
  if starts then some (now + delay) else expires

/-- The expiry after a callback at time `now`, which is when the timer expired. -/
def hrtimerReturn (ret : HrtimerRestart) (now interval : Nat) : Option Nat :=
  match ret with
  | .restart => some (hrtimerForward now now interval)
  | .norestart => none

/-- The handler runs when the line goes low, with the interrupt enabled. -/
def edgeStarts (d : BitbangUart) (before after : Bool) : Bool :=
  before && !after && d.irqDepth == 0 && rxIrqHandler d after

def loopStep (s : Loopback) : LoopAction → Option Loopback
  | .write bytes count =>
      match bitbangTx s.uart bytes count s.txExpires.isSome with
      | some (uart, starts, _) =>
          some { s with
            uart := uart
            txExpires := hrtimerStart starts s.now s.uart.period s.txExpires }
      | none => none
  | .read room count =>
      match bitbangRx s.uart room count with
      | some (uart, _) => some { s with uart := uart }
      | none => none
  | .wait elapsed =>
      if (∀ expires ∈ s.txExpires, s.now + elapsed ≤ expires) ∧
          ∀ expires ∈ s.rxExpires, s.now + elapsed ≤ expires then
        some { s with now := s.now + elapsed }
      else none
  | .txTimer =>
      if s.txExpires = some s.now then
        let tick := txTimerCb s.uart
        let level := tick.driven.getD s.level
        some { s with
          uart := tick.uart
          level := level
          txExpires := hrtimerReturn tick.ret s.now s.uart.period
          rxExpires := hrtimerStart (edgeStarts tick.uart s.level level) s.now s.uart.halfPeriod
            s.rxExpires }
      else none
  | .rxTimer =>
      if s.rxExpires = some s.now then
        let tick := rxTimerCb s.uart s.level
        some { s with
          uart := tick.uart
          rxExpires := hrtimerReturn tick.ret s.now s.uart.period }
      else none

/-- The device opened once, with the period that was set before. -/
def uartOpened (period : Nat) : BitbangUart :=
  bitbangUartOpen { bitbangUartInit 0 with period := period, halfPeriod := period / 2 }

def loopback (period : Nat) : StepSystem Loopback LoopAction where
  start :=
    { uart := uartOpened period
      now := 0
      level := true
      txExpires := none
      rxExpires := none }
  step := loopStep

/-- A valid `period_ms` sets a period of this kind. -/
theorem set_period_long {d : BitbangUart} {periodMs : BitVec 32} (positive : periodMs ≠ 0)
    (bounded : ¬1000#32 < periodMs) :
    2 ≤ (bitbangUartSetPeriod d periodMs).period ∧
      (bitbangUartSetPeriod d periodMs).halfPeriod =
        (bitbangUartSetPeriod d periodMs).period / 2 := by
  have nonzero : periodMs.toNat ≠ 0 := by
    intro zero
    exact positive (BitVec.eq_of_toNat_eq zero)
  unfold bitbangUartSetPeriod
  rw [if_neg (by rintro (zero | large); exacts [positive zero, bounded large])]
  refine ⟨?_, rfl⟩
  dsimp only [msToKtime]
  omega

/-- The bytes added to `tx_fifo`, those taken from it, and those added to `rx_fifo`. -/
structure LoopLog where
  written : List (BitVec 8)
  taken : List (BitVec 8)
  pushed : List (BitVec 8)

def recordLoop (s : Loopback) (action : LoopAction) (next : Loopback) (log : LoopLog) : LoopLog :=
  match action with
  | .write _ _ =>
      { log with written := log.written ++ next.uart.txFifo.drop s.uart.txFifo.length }
  | .txTimer =>
      { log with
        taken := log.taken ++
          s.uart.txFifo.take (s.uart.txFifo.length - next.uart.txFifo.length) }
  | .rxTimer => { log with pushed := log.pushed ++ (pushedByte s.uart next.uart).toList }
  | _ => log

def loopbackSystem (period : Nat) : StepSystem (Loopback × LoopLog) LoopAction :=
  (loopback period).observe ⟨[], [], []⟩ recordLoop

/-- The receiver, while level `m` of the frame of `byte` is on the line and the
next transmit tick is at `tick`: in front of sample `m`, behind it, or done. -/
inductive RxPhase (s : Loopback) (log : LoopLog) (whole : List (BitVec 8)) (byte : BitVec 8)
    (m tick : Nat) : Prop where
  | before (sample : Nat) (expires : s.rxExpires = some sample)
      (aligned : sample + s.uart.period = tick + s.uart.halfPeriod)
      (sampled : Sampled s.uart.rxChr ((frame 1 byte).take m))
      (pushed : log.pushed = whole) (counted : s.uart.stats.rxCounter = s.uart.stats.txCounter) :
      RxPhase s log whole byte m tick
  | behind (inner : m < 10) (expires : s.rxExpires = some (tick + s.uart.halfPeriod))
      (sampled : Sampled s.uart.rxChr ((frame 1 byte).take (m + 1)))
      (pushed : log.pushed = whole) (counted : s.uart.stats.rxCounter = s.uart.stats.txCounter) :
      RxPhase s log whole byte m tick
  | done (last : m = 10) (stopped : s.rxExpires = none) (idx : s.uart.rxChr.idx = -1)
      (pushed : log.pushed = whole ++ [byte])
      (counted : s.uart.stats.rxCounter = s.uart.stats.txCounter + 1) :
      RxPhase s log whole byte m tick

inductive LoopPhase (s : Loopback) (log : LoopLog) : Prop where
  | idle (txIdx : s.uart.txChr.idx = -1) (rxIdx : s.uart.rxChr.idx = -1)
      (stopped : s.rxExpires = none) (high : s.level = true) (pushed : log.pushed = log.taken)
      (counted : s.uart.stats.rxCounter = s.uart.stats.txCounter) : LoopPhase s log
  | frame (whole : List (BitVec 8)) (byte : BitVec 8) (m tick : Nat)
      (taken : log.taken = whole ++ [byte]) (sending : Sending s.uart.txChr byte (m + 1))
      (expires : s.txExpires = some tick) (level : (AsyncSerial.frame 2 byte)[m]? = some s.level)
      (receiver : RxPhase s log whole byte m tick) : LoopPhase s log

structure NoErrors (stats : BitbangStats) : Prop where
  start : stats.rxErrsStart = 0
  stop : stats.rxErrsStop = 0
  parity : stats.rxErrsParity = 0

structure LoopInv (state : Loopback × LoopLog) : Prop where
  phase : LoopPhase state.1 state.2
  halfPositive : 0 < state.1.uart.halfPeriod
  halfShorter : state.1.uart.halfPeriod < state.1.uart.period
  enabled : state.1.uart.irqDepth = 0
  txOnTime : ∀ expires ∈ state.1.txExpires, state.1.now ≤ expires
  rxOnTime : ∀ expires ∈ state.1.rxExpires, state.1.now ≤ expires
  served : state.1.txExpires = none → state.1.uart.txFifo = []
  order : state.2.taken ++ state.1.uart.txFifo = state.2.written
  held : HoldsNewest state.1.uart.rxFifo state.2.pushed
  errors : NoErrors state.1.uart.stats

theorem loop_start {period : Nat} (long : 2 ≤ period) :
    LoopInv (loopbackSystem period).start where
  phase := .idle rfl rfl rfl rfl rfl rfl
  halfPositive := Nat.div_pos long (by decide)
  halfShorter := Nat.div_lt_self (by omega) (by decide)
  enabled := rfl
  txOnTime := by nofun
  rxOnTime := by nofun
  served _ := rfl
  order := rfl
  held := holds_newest_nil []
  errors := ⟨rfl, rfl, rfl⟩

/-- The phase does not look at the fifos, and a running timer keeps its expiry. -/
theorem LoopPhase.keep {s : Loopback} {log : LoopLog} (phase : LoopPhase s log)
    (txFifo rxFifo written : List (BitVec 8)) (now : Nat) (expires : Option Nat)
    (running : ∀ tick, s.txExpires = some tick → expires = some tick) :
    LoopPhase
      { s with
        uart := { s.uart with txFifo := txFifo, rxFifo := rxFifo }
        now := now
        txExpires := expires }
      { log with written := written } := by
  cases phase with
  | idle txIdx rxIdx stopped high pushed counted =>
      exact .idle txIdx rxIdx stopped high pushed counted
  | frame whole byte m tick taken sending ticking level receiver =>
      refine .frame whole byte m tick taken sending (running tick ticking) level ?_
      cases receiver with
      | before sample expires aligned sampled pushed counted =>
          exact .before sample expires aligned sampled pushed counted
      | behind inner expires sampled pushed counted =>
          exact .behind inner expires sampled pushed counted
      | done last stopped idx pushed counted => exact .done last stopped idx pushed counted

theorem loop_write {s : Loopback} {log : LoopLog} (inv : LoopInv (s, log))
    (copied : List (BitVec 8)) :
    LoopInv
      ({ s with
          uart := { s.uart with txFifo := s.uart.txFifo ++ copied }
          txExpires := hrtimerStart (bitbangTxStarts copied.length s.txExpires.isSome) s.now
            s.uart.period s.txExpires },
        { log with
          written := log.written ++ (s.uart.txFifo ++ copied).drop s.uart.txFifo.length }) := by
  have order : log.taken ++ s.uart.txFifo = log.written := inv.order
  have served := inv.served
  have txOnTime := inv.txOnTime
  have phase := inv.phase.keep (s.uart.txFifo ++ copied) s.uart.rxFifo
    (log.written ++ (s.uart.txFifo ++ copied).drop s.uart.txFifo.length) s.now
    (hrtimerStart (bitbangTxStarts copied.length s.txExpires.isSome) s.now s.uart.period
      s.txExpires)
  refine { inv with phase := phase ?_, txOnTime := ?_, served := ?_, order := ?_ }
  · intro tick running
    dsimp only at running
    rw [running]
    simp [bitbangTxStarts, hrtimerStart]
  · intro expires member
    dsimp only at member
    unfold hrtimerStart at member
    split_ifs at member
    · cases member
      exact Nat.le_add_right _ _
    · exact txOnTime expires member
  · intro stopped
    cases running : s.txExpires with
    | some tick => simp [running, hrtimerStart, bitbangTxStarts] at stopped
    | none =>
        have nothing : copied = [] := by
          simpa [running, hrtimerStart, bitbangTxStarts] using stopped
        dsimp only
        rw [served running, nothing]
        rfl
  · dsimp only
    rw [List.drop_left, ← order, List.append_assoc]

theorem loop_read {s : Loopback} {log : LoopLog} (inv : LoopInv (s, log)) (n : Nat) :
    LoopInv ({ s with uart := { s.uart with rxFifo := s.uart.rxFifo.drop n } }, log) := by
  have phase := inv.phase.keep s.uart.txFifo (s.uart.rxFifo.drop n) log.written s.now s.txExpires
    fun _ => id
  exact { inv with phase := phase, held := inv.held.read n }

theorem loop_wait {s : Loopback} {log : LoopLog} (inv : LoopInv (s, log)) (elapsed : Nat)
    (tx : ∀ expires ∈ s.txExpires, s.now + elapsed ≤ expires)
    (rx : ∀ expires ∈ s.rxExpires, s.now + elapsed ≤ expires) :
    LoopInv ({ s with now := s.now + elapsed }, log) := by
  have phase := inv.phase.keep s.uart.txFifo s.uart.rxFifo log.written (s.now + elapsed)
    s.txExpires fun _ => id
  exact { inv with phase := phase, txOnTime := tx, rxOnTime := rx }

theorem edge_starts_level (d : BitbangUart) (level : Bool) : edgeStarts d level level = false := by
  cases level <;> rfl

/-- An edge inside a frame finds the receiver busy. -/
theorem edge_starts_busy {d : BitbangUart} (busy : d.rxChr.idx ≠ -1) (before after : Bool) :
    edgeStarts d before after = false := by
  simp [edgeStarts, rxIrqHandler, busy]

theorem edge_starts_idle {d : BitbangUart} (enabled : d.irqDepth = 0) (idle : d.rxChr.idx = -1) :
    edgeStarts d true false = true := by
  simp [edgeStarts, rxIrqHandler, enabled, idle]

theorem return_restart (now interval : Nat) :
    hrtimerReturn .restart now interval = some (now + interval) := by
  rw [hrtimerReturn, forward_on_time]

/-- What a transmit tick makes of the state and of the log. -/
def txTicked (s : Loopback) : Loopback :=
  { s with
    uart := (txTimerCb s.uart).uart
    level := (txTimerCb s.uart).driven.getD s.level
    txExpires := hrtimerReturn (txTimerCb s.uart).ret s.now s.uart.period
    rxExpires := hrtimerStart
      (edgeStarts (txTimerCb s.uart).uart s.level ((txTimerCb s.uart).driven.getD s.level))
      s.now s.uart.halfPeriod s.rxExpires }

def txTickedLog (s : Loopback) (log : LoopLog) : LoopLog :=
  { log with
    taken := log.taken ++
      s.uart.txFifo.take (s.uart.txFifo.length - (txTimerCb s.uart).uart.txFifo.length) }

/-- Between frames the tick takes a byte and makes the edge, or stops. -/
theorem loop_tx_idle {s : Loopback} {log : LoopLog} (inv : LoopInv (s, log))
    (txIdx : s.uart.txChr.idx = -1) (rxIdx : s.uart.rxChr.idx = -1) (stopped : s.rxExpires = none)
    (high : s.level = true) (pushed : log.pushed = log.taken)
    (counted : s.uart.stats.rxCounter = s.uart.stats.txCounter) :
    LoopInv (txTicked s, txTickedLog s log) := by
  have order : log.taken ++ s.uart.txFifo = log.written := inv.order
  cases waiting : s.uart.txFifo with
  | nil =>
      have same : txTickedLog s log = log := by
        simp [txTickedLog, tx_fifo_empty txIdx waiting]
      rw [same, txTicked, tx_fifo_empty txIdx waiting]
      dsimp only [Option.getD_none]
      rw [edge_starts_level]
      exact { inv with
        phase := .idle txIdx rxIdx stopped high pushed counted
        txOnTime := by nofun
        served := fun _ => waiting }
  | cons byte remains =>
      have took : txTickedLog s log = { log with taken := log.taken ++ [byte] } := by
        simp [txTickedLog, tx_start_bit txIdx waiting, waiting]
      rw [took, txTicked, tx_start_bit txIdx waiting, high]
      dsimp only [Option.getD_some]
      rw [edge_starts_idle (by exact inv.enabled) (by exact rxIdx), return_restart]
      refine { inv with
        phase := .frame log.taken byte 0 (s.now + s.uart.period) rfl (start_sending byte) rfl rfl ?_
        txOnTime := ?_, rxOnTime := ?_, served := by nofun, order := ?_ }
      · refine .before (s.now + s.uart.halfPeriod) rfl ?_ (sampled_none rxIdx) pushed counted
        dsimp only
        omega
      · intro expires member
        cases member
        exact Nat.le_add_right _ _
      · intro expires member
        cases member
        exact Nat.le_add_right _ _
      · dsimp only
        rw [List.append_assoc, List.singleton_append, ← waiting]
        exact order

/-- Inside a frame the tick comes after the sample and drives the next level. -/
theorem loop_tx_behind {s : Loopback} {log : LoopLog} (inv : LoopInv (s, log))
    {whole : List (BitVec 8)} {byte : BitVec 8} {m : Nat} (taken : log.taken = whole ++ [byte])
    (sending : Sending s.uart.txChr byte (m + 1)) (inner : m < 10)
    (expires : s.rxExpires = some (s.now + s.uart.halfPeriod))
    (sampled : Sampled s.uart.rxChr ((frame 1 byte).take (m + 1))) (pushed : log.pushed = whole)
    (counted : s.uart.stats.rxCounter = s.uart.stats.txCounter) :
    LoopInv (txTicked s, txTickedLog s log) := by
  have busy : s.uart.rxChr.idx ≠ -1 := by
    have idx := sampled.idx
    rw [List.length_take, frame_length] at idx
    omega
  have position : m + 1 < (frame 2 byte).length := by
    rw [frame_length]
    omega
  have same : txTickedLog s log = log := by
    simp [txTickedLog, tx_next_level sending (by omega)]
  rw [same, txTicked, tx_next_level sending (by omega)]
  dsimp only
  rw [edge_starts_busy (by exact busy), return_restart]
  refine { inv with
    phase := .frame whole byte (m + 1) (s.now + s.uart.period) taken
      (sending.advance (by omega)) rfl ?_ ?_
    txOnTime := ?_, served := by nofun }
  · simp [List.getElem?_eq_getElem position]
  · refine .before (s.now + s.uart.halfPeriod) expires ?_ sampled pushed counted
    dsimp only
    omega
  · intro expiry member
    cases member
    exact Nat.le_add_right _ _

/-- The second stop bit ends the frame; the receiver is already waiting for the
next edge. -/
theorem loop_tx_done {s : Loopback} {log : LoopLog} (inv : LoopInv (s, log))
    {whole : List (BitVec 8)} {byte : BitVec 8} (taken : log.taken = whole ++ [byte])
    (sending : Sending s.uart.txChr byte 11) (level : (frame 2 byte)[10]? = some s.level)
    (stopped : s.rxExpires = none) (idx : s.uart.rxChr.idx = -1)
    (pushed : log.pushed = whole ++ [byte])
    (counted : s.uart.stats.rxCounter = s.uart.stats.txCounter + 1) :
    LoopInv (txTicked s, txTickedLog s log) := by
  have high : s.level = true := by
    have stopBit : (frame 2 byte)[10]? = some true := @frame_stop 8 2 byte 0 (by decide)
    rw [stopBit] at level
    exact (Option.some.inj level).symm
  have same : txTickedLog s log = log := by
    simp [txTickedLog, tx_last_level sending]
  rw [same, txTicked, tx_last_level sending, high]
  dsimp only [Option.getD_some]
  rw [edge_starts_level, return_restart]
  refine { inv with
    phase := .idle rfl idx stopped rfl (by rw [pushed, taken]) counted
    txOnTime := ?_, served := by nofun
    errors := ⟨inv.errors.start, inv.errors.stop, inv.errors.parity⟩ }
  intro expiry member
  cases member
  exact Nat.le_add_right _ _

theorem loop_tx_tick {s : Loopback} {log : LoopLog} (inv : LoopInv (s, log))
    (expired : s.txExpires = some s.now) : LoopInv (txTicked s, txTickedLog s log) := by
  cases inv.phase with
  | idle txIdx rxIdx stopped high pushed counted =>
      exact loop_tx_idle inv txIdx rxIdx stopped high pushed counted
  | frame whole byte m tick taken sending expires level receiver =>
      obtain rfl : s.now = tick := Option.some.inj (expired.symm.trans expires)
      cases receiver with
      | before sample pending aligned =>
          -- the sample of this level would be overdue
          have onTime := inv.rxOnTime sample pending
          have shorter := inv.halfShorter
          dsimp only at onTime shorter aligned
          omega
      | behind inner pending sampled pushed counted =>
          exact loop_tx_behind inv taken sending inner pending sampled pushed counted
      | done last stopped idx pushed counted =>
          subst last
          exact loop_tx_done inv taken sending level stopped idx pushed counted

def rxTicked (s : Loopback) : Loopback :=
  { s with
    uart := (rxTimerCb s.uart s.level).uart
    rxExpires := hrtimerReturn (rxTimerCb s.uart s.level).ret s.now s.uart.period }

def rxTickedLog (s : Loopback) (log : LoopLog) : LoopLog :=
  { log with pushed := log.pushed ++ (pushedByte s.uart (rxTimerCb s.uart s.level).uart).toList }

/-- A sample inside the frame reads the level of the frame. -/
theorem loop_rx_sample {s : Loopback} {log : LoopLog} (inv : LoopInv (s, log))
    {whole : List (BitVec 8)} {byte : BitVec 8} {m tick : Nat}
    (taken : log.taken = whole ++ [byte]) (sending : Sending s.uart.txChr byte (m + 1))
    (expires : s.txExpires = some tick) (level : (frame 2 byte)[m]? = some s.level)
    (inner : m < 10) (aligned : s.now + s.uart.period = tick + s.uart.halfPeriod)
    (sampled : Sampled s.uart.rxChr ((frame 1 byte).take m)) (pushed : log.pushed = whole)
    (counted : s.uart.stats.rxCounter = s.uart.stats.txCounter) :
    LoopInv (rxTicked s, rxTickedLog s log) := by
  have sample : (frame 1 byte)[m]? = some s.level := by
    rw [← level]
    exact (frame_get_fewer (by decide) byte (by omega)).symm
  have start : (frame 1 byte).take m = [] → s.level = false := by
    intro nothing
    have first : m = 0 := by
      have length := congrArg List.length nothing
      rw [List.length_take, frame_length, List.length_nil] at length
      omega
    rw [first, frame_start] at sample
    exact (Option.some.inj sample).symm
  have more : (frame 1 byte).take (m + 1) = (frame 1 byte).take m ++ [s.level] := by
    rw [List.take_add_one, sample]
    rfl
  obtain ⟨chr, ticked, advanced⟩ := rx_next_sample sampled
    (by rw [List.length_take, frame_length]; omega) s.level start
  have same : rxTickedLog s log = log := by
    simp [rxTickedLog, ticked, pushed_byte_none]
  rw [same, rxTicked, ticked]
  dsimp only
  rw [return_restart, aligned]
  refine { inv with
    phase := .frame whole byte m tick taken sending expires level ?_
    rxOnTime := ?_ }
  · refine .behind inner rfl ?_ pushed counted
    rw [more]
    exact advanced
  · intro expiry member
    cases member
    dsimp only
    omega

/-- The sample of the first stop bit completes the frame. -/
theorem loop_rx_stop {s : Loopback} {log : LoopLog} (inv : LoopInv (s, log))
    {whole : List (BitVec 8)} {byte : BitVec 8} {tick : Nat}
    (taken : log.taken = whole ++ [byte]) (sending : Sending s.uart.txChr byte 11)
    (expires : s.txExpires = some tick) (level : (frame 2 byte)[10]? = some s.level)
    (sampled : Sampled s.uart.rxChr ((frame 1 byte).take 10)) (pushed : log.pushed = whole)
    (counted : s.uart.stats.rxCounter = s.uart.stats.txCounter) :
    LoopInv (rxTicked s, rxTickedLog s log) := by
  have data : s.uart.rxChr.data = byte := sampled.frame_data
  have complete : (frame 1 byte).take 10 ++ [s.level] = frame 1 s.uart.rxChr.data := by
    have sample : (frame 1 byte)[10]? = some s.level := by
      rw [← level]
      exact (frame_get_fewer (by decide) byte (by decide)).symm
    have more : (frame 1 byte).take 11 = (frame 1 byte).take 10 ++ (frame 1 byte)[10]?.toList :=
      List.take_add_one
    rw [sample] at more
    rw [data, ← Option.toList_some, ← more]
    exact List.take_of_length_le (by simp)
  have ticked := rx_stop_complete sampled (by simp) complete
  have received : rxTickedLog s log = { log with pushed := log.pushed ++ [byte] } := by
    have last := rx_stop_pushed inv.held.bounded sampled (by simp) complete
    rw [rxTickedLog, last, data, Option.toList_some]
  rw [received, rxTicked, ticked]
  refine { inv with
    phase := .frame whole byte 10 tick taken sending expires level ?_
    rxOnTime := by nofun
    held := by simpa only [data] using inv.held.push byte
    errors := ⟨inv.errors.start, inv.errors.stop, inv.errors.parity⟩ }
  refine .done rfl rfl rfl ?_ ?_
  · dsimp only
    rw [pushed]
  · dsimp only
    rw [counted]

theorem loop_rx_tick {s : Loopback} {log : LoopLog} (inv : LoopInv (s, log))
    (expired : s.rxExpires = some s.now) : LoopInv (rxTicked s, rxTickedLog s log) := by
  cases inv.phase with
  | idle _ _ stopped =>
      rw [show s.rxExpires = none from stopped] at expired
      cases expired
  | frame whole byte m tick taken sending expires level receiver =>
      cases receiver with
      | before sample pending aligned sampled pushed counted =>
          obtain rfl : s.now = sample := Option.some.inj (expired.symm.trans pending)
          by_cases inner : m < 10
          · exact loop_rx_sample inv taken sending expires level inner aligned sampled pushed
              counted
          · obtain rfl : m = 10 := by
              have unfinished := sending.unfinished
              omega
            exact loop_rx_stop inv taken sending expires level sampled pushed counted
      | behind inner pending =>
          -- the next sample comes after the next tick
          have later : s.now = tick + s.uart.halfPeriod :=
            Option.some.inj (expired.symm.trans pending)
          have onTime := inv.txOnTime tick expires
          have positive := inv.halfPositive
          dsimp only at onTime positive
          omega
      | done _ stopped =>
          rw [show s.rxExpires = none from stopped] at expired
          cases expired

end Testings.Bitbang
