import Testings.StepSystem
import Testings.BitbangUart

/-!
# The bit-bang device over its whole life

User calls, falling edges of the receive line and timer expirations in any
order, each atomic. Between callbacks `hrtimer_active` is the same as queued,
and a callback leaves its timer queued exactly when it returns
`HRTIMER_RESTART`. Neither open nor close touches a timer.
-/

set_option autoImplicit false

namespace Testings.Bitbang

/-- `files` counts the opens that have not been closed yet. -/
structure Device where
  uart : BitbangUart
  files : Nat
  txQueued : Bool
  rxQueued : Bool
  deriving DecidableEq

inductive Action where
  | openFile
  | closeFile
  | write (bytes : List (BitVec 8)) (count : Nat)
  | read (room count : Nat)
  | fallingEdge (val : Bool)
  | txExpire
  | rxExpire (v : Bool)
  deriving DecidableEq

def step (s : Device) : Action → Option Device
  | .openFile => some { s with uart := bitbangUartOpen s.uart, files := s.files + 1 }
  | .closeFile =>
      if 0 < s.files then
        some { s with uart := bitbangUartClose s.uart, files := s.files - 1 }
      else none
  | .write bytes count =>
      if 0 < s.files then
        match bitbangTx s.uart bytes count s.txQueued with
        | some (uart, starts, _) => some { s with uart := uart, txQueued := s.txQueued || starts }
        | none => none
      else none
  | .read room count =>
      if 0 < s.files then
        match bitbangRx s.uart room count with
        | some (uart, _) => some { s with uart := uart }
        | none => none
      else none
  | .fallingEdge val =>
      if s.uart.irqDepth = 0 then
        some { s with rxQueued := s.rxQueued || rxIrqHandler s.uart val }
      else none
  | .txExpire =>
      if s.txQueued then
        let tick := txTimerCb s.uart
        some { s with uart := tick.uart, txQueued := tick.ret = .restart }
      else none
  | .rxExpire v =>
      if s.rxQueued then
        let tick := rxTimerCb s.uart v
        some { s with uart := tick.uart, rxQueued := tick.ret = .restart }
      else none

def deviceProbed (periodMs : BitVec 32) : Device where
  uart := bitbangUartInit periodMs
  files := 0
  txQueued := false
  rxQueued := false

def device (periodMs : BitVec 32) : StepSystem Device Action where
  start := deviceProbed periodMs
  step := step

/-- Everything a step can do, with its guards. -/
inductive Step (s : Device) : Action → Device → Prop where
  | openFile : Step s .openFile { s with uart := bitbangUartOpen s.uart, files := s.files + 1 }
  | closeFile (opened : 0 < s.files) :
      Step s .closeFile { s with uart := bitbangUartClose s.uart, files := s.files - 1 }
  | write (bytes : List (BitVec 8)) (count : Nat) (copied : List (BitVec 8)) (opened : 0 < s.files)
      (room : kfifoIsFull s.uart.txFifo = false)
      (taken : copied = bytes.take (min count (fifoSize - s.uart.txFifo.length))) :
      Step s (.write bytes count) { s with
        uart := { s.uart with txFifo := s.uart.txFifo ++ copied }
        txQueued := s.txQueued || bitbangTxStarts copied.length s.txQueued }
  | read (room count n : Nat) (opened : 0 < s.files) :
      Step s (.read room count) { s with uart := { s.uart with rxFifo := s.uart.rxFifo.drop n } }
  | fallingEdge (val : Bool) (enabled : s.uart.irqDepth = 0) :
      Step s (.fallingEdge val) { s with rxQueued := s.rxQueued || rxIrqHandler s.uart val }
  | txExpire (queued : s.txQueued = true) :
      Step s .txExpire { s with
        uart := (txTimerCb s.uart).uart
        txQueued := (txTimerCb s.uart).ret = .restart }
  | rxExpire (v : Bool) (queued : s.rxQueued = true) :
      Step s (.rxExpire v) { s with
        uart := (rxTimerCb s.uart v).uart
        rxQueued := (rxTimerCb s.uart v).ret = .restart }

theorem step_cases {s next : Device} {action : Action} (taken : step s action = some next) :
    Step s action next := by
  cases action with
  | openFile => cases taken; exact .openFile
  | closeFile =>
      simp only [step] at taken
      split_ifs at taken with opened
      cases taken
      exact .closeFile opened
  | write bytes count =>
      simp only [step] at taken
      split_ifs at taken with opened
      split at taken
      · next result =>
          obtain ⟨room, rfl, rfl⟩ := bitbang_tx_some result
          cases taken
          exact .write bytes count _ opened room rfl
      · cases taken
  | read room count =>
      simp only [step] at taken
      split_ifs at taken with opened
      split at taken
      · next result =>
          obtain ⟨n, rfl⟩ := bitbang_rx_some result
          cases taken
          exact .read room count n opened
      · cases taken
  | fallingEdge val =>
      simp only [step] at taken
      split_ifs at taken with enabled
      cases taken
      exact .fallingEdge val enabled
  | txExpire =>
      simp only [step] at taken
      split_ifs at taken with queued
      cases taken
      exact .txExpire queued
  | rxExpire v =>
      simp only [step] at taken
      split_ifs at taken with queued
      cases taken
      exact .rxExpire v queued

theorem open_tx_fifo (d : BitbangUart) : (bitbangUartOpen d).txFifo = d.txFifo := by
  unfold bitbangUartOpen enableIrq
  dsimp only
  split_ifs <;> rfl

theorem open_later {d : BitbangUart} (later : d.openCount ≠ 0) :
    (bitbangUartOpen d).txChr = d.txChr ∧ (bitbangUartOpen d).rxChr = d.rxChr := by
  unfold bitbangUartOpen
  dsimp only
  rw [if_neg later]
  split_ifs <;> exact ⟨rfl, rfl⟩

theorem open_first {d : BitbangUart} (first : d.openCount = 0) :
    (bitbangUartOpen d).txChr = { d.txChr with idx := -1 } ∧
      (bitbangUartOpen d).rxChr = { d.rxChr with idx := -1 } := by
  unfold bitbangUartOpen enableIrq
  dsimp only
  rw [if_pos first]
  split_ifs <;> exact ⟨rfl, rfl⟩

theorem close_kept (d : BitbangUart) :
    (bitbangUartClose d).txFifo = d.txFifo ∧ (bitbangUartClose d).txChr = d.txChr ∧
      (bitbangUartClose d).rxChr = d.rxChr := by
  unfold bitbangUartClose disableIrq
  dsimp only
  split_ifs <;> exact ⟨rfl, rfl, rfl⟩

theorem open_rx_fifo (d : BitbangUart) :
    (bitbangUartOpen d).rxFifo = if d.openCount = 0 then [] else d.rxFifo := by
  unfold bitbangUartOpen enableIrq
  dsimp only
  split_ifs <;> rfl

theorem close_rx_fifo (d : BitbangUart) :
    (bitbangUartClose d).rxFifo = if d.openCount - 1 = 0 then [] else d.rxFifo := by
  unfold bitbangUartClose disableIrq
  dsimp only
  split_ifs <;> rfl

/-- Before the very first open: nothing can run, and the bit indices are still zero. -/
structure NeverOpened (s : Device) : Prop where
  count : s.uart.openCount = 0
  files : s.files = 0
  masked : s.uart.irqDepth ≠ 0
  txEmpty : s.uart.txFifo = []
  txIdle : s.txQueued = false
  rxIdle : s.rxQueued = false

theorem device_probed_never_opened (periodMs : BitVec 32) :
    NeverOpened (deviceProbed periodMs) := by
  unfold deviceProbed bitbangUartInit bitbangUartSetPeriod
  split_ifs <;> exact ⟨rfl, rfl, Nat.one_ne_zero, rfl, rfl, rfl⟩

/-- The only step of a device that was never opened is its first open. -/
theorem NeverOpened.opens {s next : Device} {action : Action} (fresh : NeverOpened s)
    (taken : step s action = some next) :
    action = .openFile ∧ s.uart.openCount = 0 := by
  cases step_cases taken with
  | openFile => exact ⟨rfl, fresh.count⟩
  | closeFile opened | write _ _ _ opened | read _ _ _ opened =>
      rw [fresh.files] at opened
      cases opened
  | fallingEdge val enabled => exact absurd enabled fresh.masked
  | txExpire queued =>
      rw [fresh.txIdle] at queued
      cases queued
  | rxExpire v queued =>
      rw [fresh.rxIdle] at queued
      cases queued

end Testings.Bitbang
