import Testings.BitbangLoopback
import Testings.SampleTiming

/-!
# Two devices on a line

The `tx` pin of one device is wired to the `rx` pin of another one. Each of them keeps to the
period that was set on it. The receiver stays in step with a frame as long as its sample of the
first stop bit is not early and its sample of the parity bit is not late; it may still wait for
the stop bit when the sender is already done with the second one.
-/

set_option autoImplicit false

namespace Testings.Bitbang

open AsyncSerial
open SampleTiming

/-- `txExpires` is the timer of the sender, `rxExpires` that of the receiver. -/
structure Link where
  sender : BitbangUart
  receiver : BitbangUart
  now : Nat
  level : Bool
  txExpires : Option Nat
  rxExpires : Option Nat

/-- Writes are calls on the sender, reads on the receiver. -/
def linkStep (s : Link) : LoopAction → Option Link
  | .write bytes count =>
      match bitbangTx s.sender bytes count s.txExpires.isSome with
      | some (uart, starts, _) =>
          some { s with
            sender := uart
            txExpires := hrtimerStart starts s.now s.sender.period s.txExpires }
      | none => none
  | .read room count =>
      match bitbangRx s.receiver room count with
      | some (uart, _) => some { s with receiver := uart }
      | none => none
  | .wait elapsed =>
      if (∀ expires ∈ s.txExpires, s.now + elapsed ≤ expires) ∧
          ∀ expires ∈ s.rxExpires, s.now + elapsed ≤ expires then
        some { s with now := s.now + elapsed }
      else none
  | .txTimer =>
      if s.txExpires = some s.now then
        let tick := txTimerCb s.sender
        let level := tick.driven.getD s.level
        some { s with
          sender := tick.uart
          level := level
          txExpires := hrtimerReturn tick.ret s.now s.sender.period
          rxExpires := hrtimerStart (edgeStarts s.receiver s.level level) s.now
            s.receiver.halfPeriod s.rxExpires }
      else none
  | .rxTimer =>
      if s.rxExpires = some s.now then
        let tick := rxTimerCb s.receiver s.level
        some { s with
          receiver := tick.uart
          rxExpires := hrtimerReturn tick.ret s.now s.receiver.period }
      else none

def link (bit period : Nat) : StepSystem Link LoopAction where
  start :=
    { sender := uartOpened bit
      receiver := uartOpened period
      now := 0
      level := true
      txExpires := none
      rxExpires := none }
  step := linkStep

def recordLink (s : Link) (action : LoopAction) (next : Link) (log : LoopLog) : LoopLog :=
  match action with
  | .write _ _ =>
      { log with written := log.written ++ next.sender.txFifo.drop s.sender.txFifo.length }
  | .txTimer =>
      { log with
        taken := log.taken ++
          s.sender.txFifo.take (s.sender.txFifo.length - next.sender.txFifo.length) }
  | .rxTimer => { log with pushed := log.pushed ++ (pushedByte s.receiver next.receiver).toList }
  | _ => log

def linkSystem (bit period : Nat) : StepSystem (Link × LoopLog) LoopAction :=
  (link bit period).observe ⟨[], [], []⟩ recordLink

/-- The stop bit is not sampled before it begins, nor the parity bit after it has ended. -/
def InTolerance (bit period : Nat) : Prop :=
  10 * bit < period / 2 + 10 * period ∧ period / 2 + 9 * period < 10 * bit

instance (bit period : Nat) : Decidable (InTolerance bit period) :=
  inferInstanceAs (Decidable (_ ∧ _))

/-- The level `m` of a frame that began at `base` is on the line and `k` samples of it have been
taken; or the receiver is done with the frame, or the sender is, before the other. -/
inductive LinkPhase (s : Link) (log : LoopLog) : Prop where
  | idle (txIdx : s.sender.txChr.idx = -1) (rxIdx : s.receiver.rxChr.idx = -1)
      (stopped : s.rxExpires = none) (high : s.level = true) (pushed : log.pushed = log.taken)
      (counted : s.receiver.stats.rxCounter = s.sender.stats.txCounter) : LinkPhase s log
  | frame (whole : List (BitVec 8)) (byte : BitVec 8) (base m k : Nat)
      (taken : log.taken = whole ++ [byte]) (sending : Sending s.sender.txChr byte (m + 1))
      (ticks : s.txExpires = some (base + (m + 1) * s.sender.period))
      (level : (AsyncSerial.frame 2 byte)[m]? = some s.level)
      (samples : s.rxExpires = some (base + s.receiver.halfPeriod + k * s.receiver.period))
      (window : k = m ∨ k = m + 1) (inside : k ≤ 10)
      (sampled : Sampled s.receiver.rxChr ((AsyncSerial.frame 1 byte).take k))
      (pushed : log.pushed = whole)
      (counted : s.receiver.stats.rxCounter = s.sender.stats.txCounter) : LinkPhase s log
  | received (whole : List (BitVec 8)) (byte : BitVec 8) (taken : log.taken = whole ++ [byte])
      (sending : Sending s.sender.txChr byte 11) (running : s.txExpires ≠ none)
      (high : s.level = true) (rxIdx : s.receiver.rxChr.idx = -1) (stopped : s.rxExpires = none)
      (pushed : log.pushed = whole ++ [byte])
      (counted : s.receiver.stats.rxCounter = s.sender.stats.txCounter + 1) : LinkPhase s log
  | closing (whole : List (BitVec 8)) (byte : BitVec 8) (base : Nat)
      (taken : log.taken = whole ++ [byte]) (txIdx : s.sender.txChr.idx = -1)
      (ticks : s.txExpires = some (base + 12 * s.sender.period)) (high : s.level = true)
      (samples : s.rxExpires = some (base + s.receiver.halfPeriod + 10 * s.receiver.period))
      (sampled : Sampled s.receiver.rxChr ((AsyncSerial.frame 1 byte).take 10))
      (pushed : log.pushed = whole)
      (counted : s.receiver.stats.rxCounter + 1 = s.sender.stats.txCounter) : LinkPhase s log

structure LinkInv (state : Link × LoopLog) : Prop where
  phase : LinkPhase state.1 state.2
  tolerates :
    Tolerates state.1.sender.period state.1.receiver.halfPeriod state.1.receiver.period 10
  closes : state.1.receiver.halfPeriod + 10 * state.1.receiver.period <
    12 * state.1.sender.period
  enabled : state.1.receiver.irqDepth = 0
  txOnTime : ∀ expires ∈ state.1.txExpires, state.1.now ≤ expires
  rxOnTime : ∀ expires ∈ state.1.rxExpires, state.1.now ≤ expires
  served : state.1.txExpires = none → state.1.sender.txFifo = []
  order : state.2.taken ++ state.1.sender.txFifo = state.2.written
  held : HoldsNewest state.1.receiver.rxFifo state.2.pushed
  errors : NoErrors state.1.receiver.stats

theorem link_start {bit period : Nat} (inTolerance : InTolerance bit period) :
    LinkInv (linkSystem bit period).start := by
  rcases inTolerance with ⟨notEarly, notLate⟩
  refine
    { phase := .idle rfl rfl rfl rfl rfl rfl
      tolerates := ⟨?_, ?_, notEarly, notLate⟩
      closes := ?_
      enabled := rfl
      txOnTime := by nofun
      rxOnTime := by nofun
      served := fun _ => rfl
      order := rfl
      held := holds_newest_nil []
      errors := ⟨rfl, rfl, rfl⟩ }
  · show 0 < period / 2
    omega
  · show period / 2 < bit
    omega
  · show period / 2 + 10 * period < 12 * bit
    omega

theorem LinkPhase.keep {s : Link} {log : LoopLog} (phase : LinkPhase s log)
    (txFifo rxFifo written : List (BitVec 8)) (now : Nat) (expires : Option Nat)
    (running : ∀ tick, s.txExpires = some tick → expires = some tick) :
    LinkPhase
      { s with
        sender := { s.sender with txFifo := txFifo }
        receiver := { s.receiver with rxFifo := rxFifo }
        now := now
        txExpires := expires }
      { log with written := written } := by
  cases phase with
  | idle txIdx rxIdx stopped high pushed counted =>
      exact .idle txIdx rxIdx stopped high pushed counted
  | frame whole byte base m k taken sending ticks level samples window inside sampled pushed
      counted =>
      exact .frame whole byte base m k taken sending (running _ ticks) level samples window inside
        sampled pushed counted
  | received whole byte taken sending pending high rxIdx stopped pushed counted =>
      refine .received whole byte taken sending ?_ high rxIdx stopped pushed counted
      cases ticking : s.txExpires with
      | none => exact absurd ticking pending
      | some tick =>
          rw [show _ = _ from running tick ticking]
          nofun
  | closing whole byte base taken txIdx ticks high samples sampled pushed counted =>
      exact .closing whole byte base taken txIdx (running _ ticks) high samples sampled pushed
        counted

theorem link_write {s : Link} {log : LoopLog} (inv : LinkInv (s, log))
    (copied : List (BitVec 8)) :
    LinkInv
      ({ s with
          sender := { s.sender with txFifo := s.sender.txFifo ++ copied }
          txExpires := hrtimerStart (bitbangTxStarts copied.length s.txExpires.isSome) s.now
            s.sender.period s.txExpires },
        { log with
          written := log.written ++ (s.sender.txFifo ++ copied).drop s.sender.txFifo.length }) := by
  have order : log.taken ++ s.sender.txFifo = log.written := inv.order
  have served := inv.served
  have txOnTime := inv.txOnTime
  have phase := inv.phase.keep (s.sender.txFifo ++ copied) s.receiver.rxFifo
    (log.written ++ (s.sender.txFifo ++ copied).drop s.sender.txFifo.length) s.now
    (hrtimerStart (bitbangTxStarts copied.length s.txExpires.isSome) s.now s.sender.period
      s.txExpires)
  refine { inv with phase := phase ?_, txOnTime := ?_, served := ?_, order := ?_ }
  · intro tick running
    dsimp only at running
    rw [running]
    simp [bitbangTxStarts, hrtimerStart]
  · intro expires member
    dsimp only at member
    unfold hrtimerStart at member
    split_ifs at member
    · cases member
      exact Nat.le_add_right _ _
    · exact txOnTime expires member
  · intro stopped
    cases running : s.txExpires with
    | some tick => simp [running, hrtimerStart, bitbangTxStarts] at stopped
    | none =>
        have nothing : copied = [] := by
          simpa [running, hrtimerStart, bitbangTxStarts] using stopped
        dsimp only
        rw [served running, nothing]
        rfl
  · dsimp only
    rw [List.drop_left, ← order, List.append_assoc]

theorem link_read {s : Link} {log : LoopLog} (inv : LinkInv (s, log)) (n : Nat) :
    LinkInv
      ({ s with receiver := { s.receiver with rxFifo := s.receiver.rxFifo.drop n } }, log) := by
  have phase := inv.phase.keep s.sender.txFifo (s.receiver.rxFifo.drop n) log.written s.now
    s.txExpires fun _ => id
  exact { inv with phase := phase, held := inv.held.read n }

theorem link_wait {s : Link} {log : LoopLog} (inv : LinkInv (s, log)) {due : Nat}
    (tx : ∀ expires ∈ s.txExpires, due ≤ expires) (rx : ∀ expires ∈ s.rxExpires, due ≤ expires) :
    LinkInv ({ s with now := due }, log) := by
  have phase := inv.phase.keep s.sender.txFifo s.receiver.rxFifo log.written due s.txExpires
    fun _ => id
  exact { inv with phase := phase, txOnTime := tx, rxOnTime := rx }

def linkTxTicked (s : Link) : Link :=
  { s with
    sender := (txTimerCb s.sender).uart
    level := (txTimerCb s.sender).driven.getD s.level
    txExpires := hrtimerReturn (txTimerCb s.sender).ret s.now s.sender.period
    rxExpires := hrtimerStart
      (edgeStarts s.receiver s.level ((txTimerCb s.sender).driven.getD s.level))
      s.now s.receiver.halfPeriod s.rxExpires }

def linkTxTickedLog (s : Link) (log : LoopLog) : LoopLog :=
  { log with
    taken := log.taken ++
      s.sender.txFifo.take (s.sender.txFifo.length - (txTimerCb s.sender).uart.txFifo.length) }

/-- Between frames the tick takes a byte and makes the edge, or stops. -/
theorem link_tx_idle {s : Link} {log : LoopLog} (inv : LinkInv (s, log))
    (txIdx : s.sender.txChr.idx = -1) (rxIdx : s.receiver.rxChr.idx = -1)
    (stopped : s.rxExpires = none) (high : s.level = true) (pushed : log.pushed = log.taken)
    (counted : s.receiver.stats.rxCounter = s.sender.stats.txCounter) :
    LinkInv (linkTxTicked s, linkTxTickedLog s log) := by
  have order : log.taken ++ s.sender.txFifo = log.written := inv.order
  cases waiting : s.sender.txFifo with
  | nil =>
      have same : linkTxTickedLog s log = log := by
        simp [linkTxTickedLog, tx_fifo_empty txIdx waiting]
      rw [same, linkTxTicked, tx_fifo_empty txIdx waiting]
      dsimp only [Option.getD_none]
      rw [edge_starts_level]
      exact { inv with
        phase := .idle txIdx rxIdx stopped high pushed counted
        txOnTime := by nofun
        served := fun _ => waiting }
  | cons byte remains =>
      have took : linkTxTickedLog s log = { log with taken := log.taken ++ [byte] } := by
        simp [linkTxTickedLog, tx_start_bit txIdx waiting, waiting]
      rw [took, linkTxTicked, tx_start_bit txIdx waiting, high]
      dsimp only [Option.getD_some]
      rw [edge_starts_idle (by exact inv.enabled) (by exact rxIdx), return_restart]
      refine { inv with
        phase := .frame log.taken byte s.now 0 0 rfl (start_sending byte) ?_ rfl ?_ (.inl rfl)
          (Nat.zero_le _) (sampled_none rxIdx) pushed counted
        txOnTime := ?_, rxOnTime := ?_, served := by nofun, order := ?_ }
      · dsimp only
        rw [Nat.zero_add, Nat.one_mul]
      · dsimp only [hrtimerStart]
        rw [if_pos rfl, Nat.zero_mul, Nat.add_zero]
      · intro expires member
        cases member
        exact Nat.le_add_right _ _
      · intro expires member
        cases member
        exact Nat.le_add_right _ _
      · dsimp only
        rw [List.append_assoc, List.singleton_append, ← waiting]
        exact order

/-- Inside a frame the tick comes after the sample of its level and drives the next one. -/
theorem link_tx_next {s : Link} {log : LoopLog} (inv : LinkInv (s, log))
    {whole : List (BitVec 8)} {byte : BitVec 8} {base m : Nat} (taken : log.taken = whole ++ [byte])
    (sending : Sending s.sender.txChr byte (m + 1)) (inner : m < 10)
    (due : s.now = base + (m + 1) * s.sender.period)
    (samples : s.rxExpires = some (base + s.receiver.halfPeriod + (m + 1) * s.receiver.period))
    (sampled : Sampled s.receiver.rxChr ((frame 1 byte).take (m + 1))) (pushed : log.pushed = whole)
    (counted : s.receiver.stats.rxCounter = s.sender.stats.txCounter) :
    LinkInv (linkTxTicked s, linkTxTickedLog s log) := by
  have busy : s.receiver.rxChr.idx ≠ -1 := by
    have idx := sampled.idx
    rw [List.length_take, frame_length] at idx
    omega
  have position : m + 1 < (frame 2 byte).length := by
    rw [frame_length]
    omega
  have same : linkTxTickedLog s log = log := by
    simp [linkTxTickedLog, tx_next_level sending (by omega)]
  rw [same, linkTxTicked, tx_next_level sending (by omega)]
  dsimp only
  rw [edge_starts_busy (by exact busy), return_restart]
  refine { inv with
    phase := .frame whole byte base (m + 1) (m + 1) taken (sending.advance (by omega)) ?_ ?_ samples
      (.inl rfl) (by omega) sampled pushed counted
    txOnTime := ?_, served := by nofun }
  · dsimp only
    rw [due, Nat.add_assoc, ← Nat.succ_mul]
  · simp [List.getElem?_eq_getElem position]
  · intro expiry member
    cases member
    exact Nat.le_add_right _ _

/-- The second stop bit, before the receiver has sampled the first one. -/
theorem link_tx_closing {s : Link} {log : LoopLog} (inv : LinkInv (s, log))
    {whole : List (BitVec 8)} {byte : BitVec 8} {base : Nat} (taken : log.taken = whole ++ [byte])
    (sending : Sending s.sender.txChr byte 11) (level : (frame 2 byte)[10]? = some s.level)
    (due : s.now = base + 11 * s.sender.period)
    (samples : s.rxExpires = some (base + s.receiver.halfPeriod + 10 * s.receiver.period))
    (sampled : Sampled s.receiver.rxChr ((frame 1 byte).take 10)) (pushed : log.pushed = whole)
    (counted : s.receiver.stats.rxCounter = s.sender.stats.txCounter) :
    LinkInv (linkTxTicked s, linkTxTickedLog s log) := by
  have high : s.level = true := by
    have stopBit : (frame 2 byte)[10]? = some true := @frame_stop 8 2 byte 0 (by decide)
    rw [stopBit] at level
    exact (Option.some.inj level).symm
  have same : linkTxTickedLog s log = log := by
    simp [linkTxTickedLog, tx_last_level sending]
  rw [same, linkTxTicked, tx_last_level sending, high]
  dsimp only [Option.getD_some]
  rw [edge_starts_level, return_restart]
  refine { inv with
    phase := .closing whole byte base taken rfl ?_ rfl samples sampled pushed ?_
    txOnTime := ?_, served := by nofun }
  · dsimp only
    rw [due, Nat.add_assoc, ← Nat.succ_mul]
  · dsimp only
    rw [counted]
  · intro expiry member
    cases member
    exact Nat.le_add_right _ _

/-- The second stop bit, when the receiver is already waiting for the next edge. -/
theorem link_tx_done {s : Link} {log : LoopLog} (inv : LinkInv (s, log))
    {whole : List (BitVec 8)} {byte : BitVec 8} (taken : log.taken = whole ++ [byte])
    (sending : Sending s.sender.txChr byte 11) (high : s.level = true)
    (rxIdx : s.receiver.rxChr.idx = -1) (stopped : s.rxExpires = none)
    (pushed : log.pushed = whole ++ [byte])
    (counted : s.receiver.stats.rxCounter = s.sender.stats.txCounter + 1) :
    LinkInv (linkTxTicked s, linkTxTickedLog s log) := by
  have same : linkTxTickedLog s log = log := by
    simp [linkTxTickedLog, tx_last_level sending]
  rw [same, linkTxTicked, tx_last_level sending, high]
  dsimp only [Option.getD_some]
  rw [edge_starts_level, return_restart]
  refine { inv with
    phase := .idle rfl rxIdx stopped rfl (by rw [pushed, taken]) counted
    txOnTime := ?_, served := by nofun }
  intro expiry member
  cases member
  exact Nat.le_add_right _ _

theorem link_tx_tick {s : Link} {log : LoopLog} (inv : LinkInv (s, log))
    (expired : s.txExpires = some s.now) : LinkInv (linkTxTicked s, linkTxTickedLog s log) := by
  have tolerates := inv.tolerates
  have rxOnTime := inv.rxOnTime
  dsimp only at tolerates rxOnTime
  cases inv.phase with
  | idle txIdx rxIdx stopped high pushed counted =>
      exact link_tx_idle inv txIdx rxIdx stopped high pushed counted
  | frame whole byte base m k taken sending ticks level samples window inside sampled pushed
      counted =>
      have due : s.now = base + (m + 1) * s.sender.period :=
        Option.some.inj (expired.symm.trans ticks)
      have pending := rxOnTime _ samples
      by_cases last : k < 10
      · -- the sample of this level is behind
        rw [due] at pending
        have behind := tolerates.sample_of_tick last pending
        obtain rfl : k = m + 1 := by omega
        exact link_tx_next inv taken sending (by omega) due samples sampled pushed counted
      · obtain rfl : k = 10 := by omega
        rcases window with same | later
        · subst same
          exact link_tx_closing inv taken sending level due samples sampled pushed counted
        · obtain rfl : m = 9 := by omega
          exact link_tx_next inv taken sending (by omega) due samples sampled pushed counted
  | received whole byte taken sending running high rxIdx stopped pushed counted =>
      exact link_tx_done inv taken sending high rxIdx stopped pushed counted
  | closing whole byte base taken txIdx ticks high samples =>
      -- the next frame does not begin before the stop bit has been sampled
      have due : s.now = base + 12 * s.sender.period :=
        Option.some.inj (expired.symm.trans ticks)
      have pending := rxOnTime _ samples
      have closes := inv.closes
      dsimp only at closes pending
      omega

def linkRxTicked (s : Link) : Link :=
  { s with
    receiver := (rxTimerCb s.receiver s.level).uart
    rxExpires := hrtimerReturn (rxTimerCb s.receiver s.level).ret s.now s.receiver.period }

def linkRxTickedLog (s : Link) (log : LoopLog) : LoopLog :=
  { log with
    pushed := log.pushed ++ (pushedByte s.receiver (rxTimerCb s.receiver s.level).uart).toList }

/-- A sample inside the frame reads the level of the frame. -/
theorem link_rx_sample {s : Link} {log : LoopLog} (inv : LinkInv (s, log))
    {whole : List (BitVec 8)} {byte : BitVec 8} {base m : Nat}
    (taken : log.taken = whole ++ [byte]) (sending : Sending s.sender.txChr byte (m + 1))
    (ticks : s.txExpires = some (base + (m + 1) * s.sender.period))
    (level : (frame 2 byte)[m]? = some s.level) (inner : m < 10)
    (due : s.now = base + s.receiver.halfPeriod + m * s.receiver.period)
    (sampled : Sampled s.receiver.rxChr ((frame 1 byte).take m)) (pushed : log.pushed = whole)
    (counted : s.receiver.stats.rxCounter = s.sender.stats.txCounter) :
    LinkInv (linkRxTicked s, linkRxTickedLog s log) := by
  have sample : (frame 1 byte)[m]? = some s.level := by
    rw [← level]
    exact (frame_get_fewer (by decide) byte (by omega)).symm
  have start : (frame 1 byte).take m = [] → s.level = false := by
    intro nothing
    have first : m = 0 := by
      have length := congrArg List.length nothing
      rw [List.length_take, frame_length, List.length_nil] at length
      omega
    rw [first, frame_start] at sample
    exact (Option.some.inj sample).symm
  have more : (frame 1 byte).take (m + 1) = (frame 1 byte).take m ++ [s.level] := by
    rw [List.take_add_one, sample]
    rfl
  rcases rx_next_sample sampled (by rw [List.length_take, frame_length]; omega) s.level start with
    ⟨chr, ticked, advanced⟩
  rw [← more] at advanced
  have same : linkRxTickedLog s log = log := by
    simp [linkRxTickedLog, ticked, pushed_byte_none]
  rw [same, linkRxTicked, ticked]
  dsimp only
  rw [return_restart]
  refine { inv with
    phase := .frame whole byte base m (m + 1) taken sending ticks level ?_ (.inr rfl) (by omega)
      advanced pushed counted
    rxOnTime := ?_ }
  · dsimp only
    rw [due, Nat.succ_mul, ← Nat.add_assoc]
  · intro expiry member
    cases member
    exact Nat.le_add_right _ _

theorem link_stop_complete {s : Link} {byte : BitVec 8}
    (sampled : Sampled s.receiver.rxChr ((frame 1 byte).take 10)) (high : s.level = true) :
    (frame 1 byte).take 10 ++ [s.level] = frame 1 s.receiver.rxChr.data := by
  have stopBit : (frame 1 byte)[10]? = some true := @frame_stop 8 1 byte 0 (by decide)
  have more : (frame 1 byte).take 11 = (frame 1 byte).take 10 ++ (frame 1 byte)[10]?.toList :=
    List.take_add_one
  rw [stopBit] at more
  rw [sampled.frame_data, high, ← Option.toList_some, ← more]
  exact List.take_of_length_le (by simp)

/-- What the sample of the first stop bit makes of the receiver. -/
theorem link_stop_sampled {s : Link} {byte : BitVec 8}
    (sampled : Sampled s.receiver.rxChr ((frame 1 byte).take 10)) (high : s.level = true) :
    rxTimerCb s.receiver s.level = ⟨{ s.receiver with
        rxChr := { s.receiver.rxChr with idx := -1 }
        rxFifo := pushReceived s.receiver.rxFifo byte
        stats := { s.receiver.stats with rxCounter := s.receiver.stats.rxCounter + 1 } },
      true, .norestart⟩ := by
  rw [rx_stop_complete sampled (by simp) (link_stop_complete sampled high), sampled.frame_data]

theorem link_stop_logged {s : Link} {log : LoopLog} {byte : BitVec 8}
    (sampled : Sampled s.receiver.rxChr ((frame 1 byte).take 10)) (high : s.level = true)
    (bounded : s.receiver.rxFifo.length ≤ fifoSize) :
    linkRxTickedLog s log = { log with pushed := log.pushed ++ [byte] } := by
  have pushed := rx_stop_pushed bounded sampled (by simp) (link_stop_complete sampled high)
  rw [linkRxTickedLog, pushed, sampled.frame_data, Option.toList_some]

theorem link_rx_tick {s : Link} {log : LoopLog} (inv : LinkInv (s, log))
    (expired : s.rxExpires = some s.now) : LinkInv (linkRxTicked s, linkRxTickedLog s log) := by
  have tolerates := inv.tolerates
  have txOnTime := inv.txOnTime
  dsimp only at tolerates txOnTime
  cases inv.phase with
  | idle _ _ stopped =>
      rw [show s.rxExpires = none from stopped] at expired
      cases expired
  | frame whole byte base m k taken sending ticks level samples window inside sampled pushed
      counted =>
      have due : s.now = base + s.receiver.halfPeriod + k * s.receiver.period :=
        Option.some.inj (expired.symm.trans samples)
      have pending := txOnTime _ ticks
      rw [due] at pending
      have here := tolerates.tick_of_sample inside pending
      obtain rfl : k = m := by omega
      by_cases inner : k < 10
      · exact link_rx_sample inv taken sending ticks level inner due sampled pushed counted
      · obtain rfl : k = 10 := by omega
        have stopBit : (frame 2 byte)[10]? = some true := @frame_stop 8 2 byte 0 (by decide)
        have high : s.level = true := Option.some.inj (level.symm.trans stopBit)
        have ticked := link_stop_sampled sampled high
        rw [link_stop_logged sampled high inv.held.bounded, linkRxTicked, ticked]
        refine { inv with
          phase := .received whole byte taken sending ?_ high rfl rfl ?_ ?_
          rxOnTime := by nofun
          held := inv.held.push byte
          errors := ⟨inv.errors.start, inv.errors.stop, inv.errors.parity⟩ }
        · rw [show _ = _ from ticks]
          nofun
        · dsimp only
          rw [pushed]
        · dsimp only
          rw [counted]
  | received _ _ _ _ _ _ _ stopped =>
      rw [show s.rxExpires = none from stopped] at expired
      cases expired
  | closing whole byte base taken txIdx ticks high samples sampled pushed counted =>
      have ticked := link_stop_sampled sampled high
      rw [link_stop_logged sampled high inv.held.bounded, linkRxTicked, ticked]
      refine { inv with
        phase := .idle txIdx rfl rfl high ?_ counted
        rxOnTime := by nofun
        held := inv.held.push byte
        errors := ⟨inv.errors.start, inv.errors.stop, inv.errors.parity⟩ }
      dsimp only
      rw [pushed, taken]

end Testings.Bitbang
