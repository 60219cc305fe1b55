import Testings.BitbangBlocking
import Testings.BitbangWriters
import Testings.KfifoCalls

/-!
# Sleeping calls of the bit-bang device

Any number of `read` and `write` calls on an open device, down to the registration on `rx_wq` and
`tx_wq`, with both timer callbacks cut in front of their `wake_up_interruptible` and the transmit
callback cut in front of its return too. The test for `O_NONBLOCK` in front of `bitbang_rx` and
`bitbang_tx` is taken with the call.
-/

set_option autoImplicit false

namespace Testings.Bitbang

def bitbangRxCall : Kfifo.Transfer Nat where
  blocked fifo := fifo = []
  retests := true
  copy fifo count room :=
    let (fifo, copied, ret) := kfifoToUser fifo room count
    (fifo, ret, copied)

def bitbangTxCall : Kfifo.Transfer (List (BitVec 8)) where
  blocked := kfifoIsFull
  retests := true
  copy fifo bytes readable :=
    let (fifo, copied, ret) := kfifoFromUser fifo (bytes.take readable) bytes.length
    (fifo, ret, copied)

/-- `txWaking` and `rxWaking` are callbacks in front of their wake-up. -/
structure CallDevice where
  uart : BitbangUart
  timer : TxTimer
  txWaking : Bool
  rxQueued : Bool
  rxWaking : Bool
  readers : List (Kfifo.Call Nat)
  writers : List (Kfifo.Call (List (BitVec 8)))

inductive CallAction where
  | read (count : Nat) (nonblock : Bool)
  | reader (i : Nat) (signalled : Bool) (room : Nat)
  | readerSignal (i : Nat)
  | readerReturn (i : Nat)
  | write (bytes : List (BitVec 8)) (nonblock : Bool)
  | writer (i : Nat) (signalled : Bool) (readable : Nat)
  | writerSignal (i : Nat)
  | writerReturn (i : Nat)
  | txExpire
  | txCallback
  | txWake
  | txReturn
  | fallingEdge (val : Bool)
  | rxExpire (v : Bool)
  | rxWake
  deriving DecidableEq

/-- Whether `tx_timer_cb` takes a byte out of the fifo, and so wakes the writers. -/
def takesByte (d : BitbangUart) : Bool := d.txChr.idx == -1 && !d.txFifo.isEmpty

def callStep (s : CallDevice) : CallAction → Option CallDevice
  | .read count nonblock =>
      some { s with
        readers := s.readers ++
          [if bitbangRxCall.blocked s.uart.rxFifo && nonblock then .returned eagain
            else .entered count false] }
  | .reader i signalled room =>
      (bitbangRxCall.advanceAt s.uart.rxFifo s.readers i signalled room).map
        fun (rxFifo, readers) =>
          { s with uart := { s.uart with rxFifo := rxFifo }, readers := readers }
  | .readerSignal i =>
      (Kfifo.Transfer.signalAt s.readers i).map fun readers => { s with readers := readers }
  | .readerReturn i =>
      match s.readers[i]? with
      | some (.copied _ copied ret) =>
          some { s with readers := s.readers.set i (.returned (Kfifo.callResult copied ret)) }
      | _ => none
  | .write bytes nonblock =>
      some { s with
        writers := s.writers ++
          [if bitbangTxCall.blocked s.uart.txFifo && nonblock then .returned eagain
            else .entered bytes false] }
  | .writer i signalled readable =>
      (bitbangTxCall.advanceAt s.uart.txFifo s.writers i signalled readable).map
        fun (txFifo, writers) =>
          { s with uart := { s.uart with txFifo := txFifo }, writers := writers }
  | .writerSignal i =>
      (Kfifo.Transfer.signalAt s.writers i).map fun writers => { s with writers := writers }
  | .writerReturn i =>
      match s.writers[i]? with
      | some (.copied _ copied ret) =>
          some { s with
            timer := if bitbangTxStarts copied s.timer.active then .queued else s.timer
            writers := s.writers.set i (.returned (Kfifo.callResult copied ret)) }
      | _ => none
  | .txExpire => if s.timer = .queued then some { s with timer := .entered } else none
  | .txCallback =>
      if s.timer = .entered then
        let tick := txTimerCb s.uart
        some { s with
          uart := tick.uart
          timer := .returning tick.ret
          txWaking := takesByte s.uart }
      else none
  | .txWake =>
      if s.txWaking then
        some { s with txWaking := false, writers := s.writers.map Kfifo.Call.wake }
      else none
  | .txReturn =>
      match s.timer, s.txWaking with
      | .returning ret, false =>
          some { s with timer := if ret = .restart then .queued else .inactive }
      | _, _ => none
  | .fallingEdge val =>
      some { s with rxQueued := s.rxQueued || rxIrqHandler s.uart val }
  | .rxExpire v =>
      if s.rxQueued = true ∧ s.rxWaking = false then
        let tick := rxTimerCb s.uart v
        some { s with
          uart := tick.uart
          rxQueued := decide (tick.ret = .restart)
          rxWaking := tick.wakes }
      else none
  | .rxWake =>
      if s.rxWaking then
        some { s with rxWaking := false, readers := s.readers.map Kfifo.Call.wake }
      else none

/-- The device has been opened once and the file stays open. -/
def callDevice (periodMs : BitVec 32) : StepSystem CallDevice CallAction where
  start :=
    { uart := bitbangUartOpen (bitbangUartInit periodMs)
      timer := .inactive
      txWaking := false
      rxQueued := false
      rxWaking := false
      readers := []
      writers := [] }
  step := callStep

inductive CallMove (s : CallDevice) : CallAction → CallDevice → Prop where
  | read {count : Nat} {nonblock : Bool} {fresh : Kfifo.Call Nat} (awake : fresh.phase = none) :
      CallMove s (.read count nonblock) { s with readers := s.readers ++ [fresh] }
  | reader {i : Nat} {signalled : Bool} {room : Nat} {call moved : Kfifo.Call Nat}
      {after : List (BitVec 8)} (here : s.readers[i]? = some call)
      (move : Kfifo.Transfer.Move bitbangRxCall s.uart.rxFifo room call after moved) :
      CallMove s (.reader i signalled room)
        { s with uart := { s.uart with rxFifo := after }, readers := s.readers.set i moved }
  | readerSignal {i count : Nat} {nonblock : Bool} {phase later : WaitQueue.Phase}
      (here : s.readers[i]? = some (.waiting count nonblock phase)) (awake : later ≠ .asleep) :
      CallMove s (.readerSignal i)
        { s with readers := s.readers.set i (.waiting count nonblock later) }
  | readerReturn {i count copied : Nat} {ret : Int}
      (here : s.readers[i]? = some (.copied count copied ret)) :
      CallMove s (.readerReturn i)
        { s with readers := s.readers.set i (.returned (Kfifo.callResult copied ret)) }
  | write {bytes : List (BitVec 8)} {nonblock : Bool} {fresh : Kfifo.Call (List (BitVec 8))}
      (awake : fresh.phase = none) (unpassed : fresh.passed = false)
      (fails : ∀ ret, fresh = .returned ret → ret < 0) :
      CallMove s (.write bytes nonblock) { s with writers := s.writers ++ [fresh] }
  | writer {i : Nat} {signalled : Bool} {readable : Nat} {call moved : Kfifo.Call (List (BitVec 8))}
      {after : List (BitVec 8)} (here : s.writers[i]? = some call)
      (move : Kfifo.Transfer.Move bitbangTxCall s.uart.txFifo readable call after moved) :
      CallMove s (.writer i signalled readable)
        { s with uart := { s.uart with txFifo := after }, writers := s.writers.set i moved }
  | writerSignal {i : Nat} {bytes : List (BitVec 8)} {nonblock : Bool}
      {phase later : WaitQueue.Phase}
      (here : s.writers[i]? = some (.waiting bytes nonblock phase)) (awake : later ≠ .asleep) :
      CallMove s (.writerSignal i)
        { s with writers := s.writers.set i (.waiting bytes nonblock later) }
  | writerReturn {i copied : Nat} {bytes : List (BitVec 8)} {ret : Int}
      (here : s.writers[i]? = some (.copied bytes copied ret)) :
      CallMove s (.writerReturn i) { s with
        timer := if bitbangTxStarts copied s.timer.active then .queued else s.timer
        writers := s.writers.set i (.returned (Kfifo.callResult copied ret)) }
  | txExpire (queued : s.timer = .queued) : CallMove s .txExpire { s with timer := .entered }
  | txCallback (entered : s.timer = .entered) :
      CallMove s .txCallback { s with
        uart := (txTimerCb s.uart).uart
        timer := .returning (txTimerCb s.uart).ret
        txWaking := takesByte s.uart }
  | txWake (waking : s.txWaking = true) :
      CallMove s .txWake { s with txWaking := false, writers := s.writers.map Kfifo.Call.wake }
  | txReturn {ret : HrtimerRestart} (point : s.timer = .returning ret)
      (woken : s.txWaking = false) :
      CallMove s .txReturn { s with timer := if ret = .restart then .queued else .inactive }
  | fallingEdge (val : Bool) (rxQueued : Bool) :
      CallMove s (.fallingEdge val) { s with rxQueued := rxQueued }
  | rxExpire (v : Bool) (woken : s.rxWaking = false) (rxQueued : Bool) :
      CallMove s (.rxExpire v) { s with
        uart := (rxTimerCb s.uart v).uart
        rxQueued := rxQueued
        rxWaking := (rxTimerCb s.uart v).wakes }
  | rxWake (waking : s.rxWaking = true) :
      CallMove s .rxWake { s with rxWaking := false, readers := s.readers.map Kfifo.Call.wake }

theorem call_moves {s next : CallDevice} {action : CallAction}
    (taken : callStep s action = some next) : CallMove s action next := by
  cases action with
  | read count nonblock =>
      cases taken
      apply CallMove.read
      split_ifs <;> rfl
  | reader i signalled room =>
      rw [callStep, Option.map_eq_some_iff] at taken
      rcases taken with ⟨⟨after, readers⟩, advanced, same⟩
      rcases Kfifo.Transfer.advance_at_moves advanced with ⟨call, moved, here, move, there⟩
      subst there same
      exact .reader here move
  | readerSignal i =>
      rw [callStep, Option.map_eq_some_iff] at taken
      rcases taken with ⟨readers, signalled, same⟩
      rcases Kfifo.Transfer.signal_at_moves signalled with ⟨_, _, _, later, here, awake, there⟩
      subst there same
      exact .readerSignal here awake
  | readerReturn i =>
      rw [callStep] at taken
      split at taken
      · next request copied ret here =>
          cases taken
          exact .readerReturn here
      · cases taken
  | write bytes nonblock =>
      cases taken
      apply CallMove.write
      · split_ifs <;> rfl
      · split_ifs <;> rfl
      · intro ret failed
        split_ifs at failed
        cases failed
        decide
  | writer i signalled readable =>
      rw [callStep, Option.map_eq_some_iff] at taken
      rcases taken with ⟨⟨after, writers⟩, advanced, same⟩
      rcases Kfifo.Transfer.advance_at_moves advanced with ⟨call, moved, here, move, there⟩
      subst there same
      exact .writer here move
  | writerSignal i =>
      rw [callStep, Option.map_eq_some_iff] at taken
      rcases taken with ⟨writers, signalled, same⟩
      rcases Kfifo.Transfer.signal_at_moves signalled with ⟨_, _, _, later, here, awake, there⟩
      subst there same
      exact .writerSignal here awake
  | writerReturn i =>
      rw [callStep] at taken
      split at taken
      · next request copied ret here =>
          cases taken
          exact .writerReturn here
      · cases taken
  | txExpire =>
      rw [callStep] at taken
      split_ifs at taken with queued
      cases taken
      exact .txExpire queued
  | txCallback =>
      rw [callStep] at taken
      split_ifs at taken with entered
      cases taken
      exact .txCallback entered
  | txWake =>
      rw [callStep] at taken
      split_ifs at taken with waking
      cases taken
      exact .txWake waking
  | txReturn =>
      rw [callStep] at taken
      split at taken
      · next ret point woken =>
          cases taken
          exact .txReturn point woken
      · cases taken
  | fallingEdge val =>
      cases taken
      exact .fallingEdge val _
  | rxExpire v =>
      rw [callStep] at taken
      split_ifs at taken with ready
      cases taken
      exact .rxExpire v ready.2 _
  | rxWake =>
      rw [callStep] at taken
      split_ifs at taken with waking
      cases taken
      exact .rxWake waking

/-- The transmit callback takes the front byte and goes on, or leaves the fifo alone. -/
theorem tx_tick_takes (d : BitbangUart) :
    (takesByte d = false ∧ (txTimerCb d).uart.txFifo = d.txFifo) ∨
      takesByte d = true ∧ (txTimerCb d).ret = .restart ∧
        ∃ data, d.txFifo = data :: (txTimerCb d).uart.txFifo := by
  by_cases idle : d.txChr.idx = -1
  · cases fifo : d.txFifo with
    | nil =>
        left
        rw [tx_fifo_empty idle fifo]
        refine ⟨?_, fifo⟩
        rw [takesByte, fifo]
        exact Bool.and_false _
    | cons data rest =>
        right
        rw [tx_start_bit idle fifo]
        refine ⟨?_, rfl, data, rfl⟩
        rw [takesByte, fifo, idle]
        rfl
  · left
    constructor
    · rw [takesByte, beq_false_of_ne idle, Bool.false_and]
    · unfold txTimerCb
      dsimp only
      rw [if_neg idle]
      split_ifs <;> rfl

/-- The receive callback wakes the readers, or leaves the fifo alone. -/
theorem rx_tick_wakes (d : BitbangUart) (v : Bool) :
    (rxTimerCb d v).wakes = true ∨ (rxTimerCb d v).uart.rxFifo = d.rxFifo := by
  unfold rxTimerCb
  dsimp only
  split_ifs
  case pos => exact .inr rfl
  case pos => exact .inr rfl
  case neg => exact .inr rfl
  case pos => exact .inr rfl
  case pos => exact .inl rfl
  all_goals exact .inr rfl

theorem tx_copies {fifo : List (BitVec 8)} (bounded : fifo.length ≤ fifoSize)
    (bytes : List (BitVec 8)) (readable : Nat) :
    (bitbangTxCall.copy fifo bytes readable).1.length =
        fifo.length + (bitbangTxCall.copy fifo bytes readable).2.2 ∧
      (bitbangTxCall.copy fifo bytes readable).1.length ≤ fifoSize ∧
      (bitbangTxCall.copy fifo bytes readable).2.1 ≤ 0 ∧
      ((bitbangTxCall.copy fifo bytes readable).2.2 = 0 →
        (bitbangTxCall.copy fifo bytes readable).1 = fifo) := by
  unfold bitbangTxCall kfifoFromUser
  dsimp only
  refine ⟨List.length_append, ?_, ?_, ?_⟩
  · rw [List.length_append, List.length_take]
    omega
  · split_ifs
    · decide
    · exact Int.le_refl 0
  · intro nothing
    rw [List.eq_nil_of_length_eq_zero nothing, List.append_nil]

theorem tx_blocked_iff {fifo : List (BitVec 8)} (bounded : fifo.length ≤ fifoSize) :
    bitbangTxCall.blocked fifo = true ↔ fifo.length = fifoSize := by
  change decide (fifoSize ≤ fifo.length) = true ↔ _
  rw [decide_eq_true_eq]
  omega

/-- Nobody sleeps beside data or beside room without a wake-up to come. -/
structure SleepersOwed (s : CallDevice) : Prop where
  bounded : s.uart.txFifo.length ≤ fifoSize
  range : IdxInRange s.uart
  waking : s.txWaking = true → s.timer = .returning .restart
  results : ∀ bytes copied ret, Kfifo.Call.copied bytes copied ret ∈ s.writers → ret ≤ 0
  readers : Kfifo.NoneLost s.readers (s.uart.rxFifo ≠ []) (s.rxWaking = true)
  writers : Kfifo.NoneLost s.writers (s.uart.txFifo.length ≠ fifoSize) (s.txWaking = true)

theorem results_set {calls : List (Kfifo.Call (List (BitVec 8)))} {i : Nat}
    {moved : Kfifo.Call (List (BitVec 8))}
    (results : ∀ bytes copied ret, Kfifo.Call.copied bytes copied ret ∈ calls → ret ≤ 0)
    (mine : ∀ bytes copied ret, moved = .copied bytes copied ret → ret ≤ 0) :
    ∀ bytes copied ret, Kfifo.Call.copied bytes copied ret ∈ calls.set i moved → ret ≤ 0 := by
  intro bytes copied ret present
  rcases List.mem_or_eq_of_mem_set present with old | same
  · exact results bytes copied ret old
  · exact mine bytes copied ret same.symm

theorem results_woken {calls : List (Kfifo.Call (List (BitVec 8)))}
    (results : ∀ bytes copied ret, Kfifo.Call.copied bytes copied ret ∈ calls → ret ≤ 0) :
    ∀ bytes copied ret, Kfifo.Call.copied bytes copied ret ∈ calls.map Kfifo.Call.wake →
      ret ≤ 0 := by
  intro bytes copied ret present
  rcases List.mem_map.mp present with ⟨call, old, same⟩
  cases call with
  | copied request count result =>
      cases same
      exact results bytes copied ret old
  | _ => cases same

theorem call_move_owed {s next : CallDevice} {action : CallAction} (before : SleepersOwed s)
    (moves : CallMove s action next) : SleepersOwed next := by
  rcases before with ⟨bounded, range, waking, results, readers, writers⟩
  cases moves with
  | read awake =>
      refine ⟨bounded, range, waking, results, readers.joined ?_, writers⟩
      intro asleep
      rw [awake] at asleep
      cases asleep
  | @reader i signalled room call moved after here move =>
      have blocks : bitbangRxCall.blocked s.uart.rxFifo = true → ¬s.uart.rxFifo ≠ [] := by
        intro empty
        exact fun data => data (of_decide_eq_true empty)
      have mine := Kfifo.Transfer.moved_sleepers (i := i) readers move blocks
      cases move with
      | waits => exact ⟨bounded, range, waking, results, mine, writers⟩
      | copies request =>
          refine ⟨bounded, range, waking, results, mine.supplied fun data => .inr ⟨?_, id⟩, writers⟩
          intro empty
          apply data
          dsimp only [bitbangRxCall, kfifoToUser]
          rw [empty, List.drop_nil]
  | readerSignal here awake =>
      refine ⟨bounded, range, waking, results, ?_, writers⟩
      exact readers.moved fun asleep => absurd (Option.some.inj asleep) awake
  | readerReturn here =>
      refine ⟨bounded, range, waking, results, readers.moved ?_, writers⟩
      intro asleep
      cases asleep
  | @write bytes nonblock fresh awake unpassed fails =>
      refine ⟨bounded, range, waking, ?_, readers, writers.joined ?_⟩
      · intro old copied ret present
        rcases List.mem_append.mp present with there | same
        · exact results old copied ret there
        · rw [← List.mem_singleton.mp same] at unpassed
          cases unpassed
      · intro asleep
        rw [awake] at asleep
        cases asleep
  | @writer i signalled readable call moved after here move =>
      have blocks : bitbangTxCall.blocked s.uart.txFifo = true →
          ¬s.uart.txFifo.length ≠ fifoSize := by
        intro full
        exact fun room => room ((tx_blocked_iff bounded).mp full)
      have mine := Kfifo.Transfer.moved_sleepers (i := i) writers move blocks
      cases move with
      | waits _ _ _ _ _ _ uncopied =>
          refine ⟨bounded, range, waking, results_set results ?_, readers, mine⟩
          intro bytes copied ret same
          exact absurd same (uncopied bytes copied ret)
      | copies request =>
          rcases tx_copies bounded request readable with ⟨grown, whole, result, _⟩
          refine ⟨whole, range, waking, results_set results ?_, readers,
            mine.supplied fun room => .inr ⟨?_, id⟩⟩
          · intro bytes copied ret same
            cases same
            exact result
          · dsimp only at room
            omega
  | writerSignal here awake =>
      refine ⟨bounded, range, waking, results_set results ?_, readers, ?_⟩
      · intro bytes copied ret same
        cases same
      · exact writers.moved fun asleep => absurd (Option.some.inj asleep) awake
  | @writerReturn i copied bytes ret here =>
      refine ⟨bounded, range, ?_, results_set results ?_, readers, writers.moved ?_⟩
      · intro wakes
        have active : s.timer.active = true := by
          rw [waking wakes]
          rfl
        dsimp only
        rw [bitbangTxStarts, active, Bool.not_true, Bool.and_false, if_neg (by decide)]
        exact waking wakes
      · intro other count result same
        cases same
      · intro asleep
        cases asleep
  | txExpire queued =>
      refine ⟨bounded, range, ?_, results, readers, writers⟩
      intro wakes
      have returning := waking wakes
      rw [queued] at returning
      cases returning
  | txReturn point woken =>
      refine ⟨bounded, range, ?_, results, readers, writers⟩
      intro wakes
      dsimp only at wakes
      rw [woken] at wakes
      cases wakes
  | fallingEdge => exact ⟨bounded, range, waking, results, readers, writers⟩
  | txCallback entered =>
      have received : (txTimerCb s.uart).uart.rxFifo = s.uart.rxFifo := (tx_tick_keeps_rx s.uart).2
      refine ⟨?_, tick_idx_in_range range, ?_, results, ?_, ?_⟩
      · rcases tx_tick_takes s.uart with ⟨_, same⟩ | ⟨_, _, data, front⟩
        · dsimp only
          rw [same]
          exact bounded
        · rw [front] at bounded
          exact Nat.le_of_succ_le bounded
      · rcases tx_tick_takes s.uart with ⟨leaves, _⟩ | ⟨_, restarts, _⟩
        · intro wakes
          dsimp only at wakes
          rw [leaves] at wakes
          cases wakes
        · intro _
          exact congrArg TxTimer.returning restarts
      · dsimp only
        rw [received]
        exact readers
      · -- the byte taken makes room, and its wake-up is still to come
        rcases tx_tick_takes s.uart with ⟨_, same⟩ | ⟨takes, _⟩
        · refine writers.supplied fun room => .inr ⟨?_, ?_⟩
          · dsimp only at room
            rwa [same] at room
          · intro owed
            have returning := waking owed
            rw [entered] at returning
            cases returning
        · exact fun _ _ => takes
  | txWake =>
      refine ⟨bounded, range, ?_, results_woken results, readers, .woken Kfifo.Call.wake_phase⟩
      intro wakes
      cases wakes
  | @rxExpire v woken rxQueued =>
      have kept := rx_tick_keeps_tx s.uart v
      refine ⟨?_, ?_, waking, results, ?_, ?_⟩
      · dsimp only
        rw [kept.2]
        exact bounded
      · unfold IdxInRange
        dsimp only
        rw [kept.1]
        exact range
      · rcases rx_tick_wakes s.uart v with wakes | same
        · exact fun _ _ => wakes
        · refine readers.supplied fun data => .inr ⟨?_, ?_⟩
          · dsimp only at data
            rwa [same] at data
          · intro owed
            rw [woken] at owed
            cases owed
      · dsimp only
        rw [kept.2]
        exact writers
  | rxWake =>
      exact ⟨bounded, range, waking, results, .woken Kfifo.Call.wake_phase, writers⟩

theorem call_start_empty (periodMs : BitVec 32) : (callDevice periodMs).start.uart.txFifo = [] := by
  have fresh : (bitbangUartInit periodMs).txFifo = [] := by
    unfold bitbangUartInit bitbangUartSetPeriod
    split_ifs <;> rfl
  change (bitbangUartOpen (bitbangUartInit periodMs)).txFifo = []
  unfold bitbangUartOpen enableIrq
  dsimp only
  split_ifs <;> exact fresh

theorem call_start_owed (periodMs : BitVec 32) : SleepersOwed (callDevice periodMs).start := by
  have served := writers_start periodMs 0
  refine ⟨?_, served.range, nofun, nofun, ?_, ?_⟩
  · rw [call_start_empty]
    exact Nat.zero_le _
  all_goals
    intro sleeps
    rcases sleeps with ⟨call, present, _⟩
    cases present

theorem reachable_sleepers_owed {periodMs : BitVec 32} {s : CallDevice}
    (reached : (callDevice periodMs).Reachable s) : SleepersOwed s := by
  apply reached.invariant SleepersOwed (call_start_owed periodMs)
  intro s action next before taken
  exact call_move_owed before (call_moves taken)

/-- A reader asleep beside data and a writer asleep beside room are about to be woken by the
callback that has brought the byte or taken it. -/
theorem call_wakeups_owed (periodMs : BitVec 32) (s : CallDevice)
    (reached : (callDevice periodMs).Reachable s) :
    (Kfifo.Sleeps s.readers → s.uart.rxFifo ≠ [] → s.rxWaking = true) ∧
      (Kfifo.Sleeps s.writers → s.uart.txFifo.length ≠ fifoSize →
        s.txWaking = true ∧ s.timer = .returning .restart) := by
  have owed := reachable_sleepers_owed reached
  constructor
  · exact owed.readers
  · intro sleeps room
    have wakes := owed.writers sleeps room
    exact ⟨wakes, owed.waking wakes⟩

/-- A reader asleep, and the callback that has pushed its byte in front of the wake-up. -/
theorem call_wakeups_owed_reader :
    ∃ s : CallDevice, Kfifo.Sleeps s.readers ∧ s.uart.rxFifo ≠ [] ∧ s.rxWaking = true := by
  rcases (callDevice 10).reachable_of_run
    ([.read 1 false, .reader 0 false 1, .reader 0 false 1, .reader 0 false 1, .reader 0 false 1,
        .fallingEdge false] ++
      [false, true, false, false, false, false, false, true, false, false, true].map .rxExpire)
    (fun s => decide (s.readers = [.waiting 1 false .asleep] ∧ s.uart.rxFifo ≠ []))
    (by decide +kernel) with ⟨s, reached, passes⟩
  rcases of_decide_eq_true passes with ⟨readers, data⟩
  have sleeps : Kfifo.Sleeps s.readers := by
    rw [readers]
    exact ⟨_, List.mem_singleton_self _, rfl⟩
  exact ⟨s, sleeps, data, (call_wakeups_owed 10 s reached).1 sleeps data⟩

end Testings.Bitbang
