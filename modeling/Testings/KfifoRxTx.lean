import Testings.KfifoCalls
import Testings.KfifoOpenRelease

/-!
# Calls, handler and work of two fifos

`kfifo_rxtx.c`: the interrupt handler fills `rx_fifo` for `mydev_read`, `mydev_write` fills
`tx_fifo` for `tx_work_fn`. All of them cut where they take or leave the lock. The work is
one work item: it is queued at most once and runs once at a time. Opens and releases take
their steps one by one, so that a release that leaves zero can be overtaken by an open before
it gets to `cancel_work_sync`.
-/

set_option autoImplicit false

namespace Testings.Kfifo

/-- `tx_work_fn` in its loop, and behind it. -/
inductive TxWork where
  | idle
  | draining (got : Nat)
  | waking (got : Nat)
  deriving DecidableEq

/-- `releasing` counts the releases between `free_irq` and `cancel_work_sync`, `cancelling`
those inside of it; `sent` are the bytes given to `hw_tx_send_byte`. -/
structure RxTx where
  rxFifo : List (BitVec 8)
  txFifo : List (BitVec 8)
  opens : Opens
  releasing : Nat
  cancelling : Nat
  irqWaking : Bool
  pending : Bool
  work : TxWork
  sent : List (BitVec 8)
  readers : List (Call Nat)
  writers : List (Call (List (BitVec 8)))
  deriving DecidableEq

inductive RxTxAction where
  | opening (action : OpenAction)
  | cancelWork
  | cancelled
  | irq (val : BitVec 8)
  | irqWake
  | read (count : Nat) (nonblock : Bool)
  | reader (i : Nat) (signalled : Bool) (room : Nat)
  | readerSignal (i : Nat)
  | readerReturn (i : Nat)
  | write (buf : List (BitVec 8)) (nonblock : Bool)
  | writer (i : Nat) (signalled : Bool) (readable : Nat)
  | writerSignal (i : Nat)
  | writerReturn (i : Nat)
  | workStart
  | workByte
  | workWake
  deriving DecidableEq

/-- Calls hold their file, so the last file is released when no call is under way, and
`synchronize_irq` waits for the handler. -/
def RxTx.waits (s : RxTx) : OpenAction → Bool
  | .releaseCount =>
      s.opens.files == 1 && (s.readers.any Call.live || s.writers.any Call.live)
  | .freeIrq => s.irqWaking
  | _ => false

def rxtxStep (s : RxTx) : RxTxAction → Option RxTx
  | .opening action =>
      if s.waits action then none
      else
        (openStep s.opens action).map fun opens =>
          { s with
            opens := opens
            releasing := if action = .freeIrq then s.releasing + 1 else s.releasing }
  -- the work is taken back, and nobody can schedule it until it has stopped running
  | .cancelWork =>
      if 0 < s.releasing then
        some { s with
          releasing := s.releasing - 1
          cancelling := s.cancelling + 1
          pending := false }
      else none
  | .cancelled =>
      if 0 < s.cancelling ∧ s.work = .idle then some { s with cancelling := s.cancelling - 1 }
      else none
  | .irq val =>
      if s.opens.mydev.irqRequested = true ∧ s.irqWaking = false then
        some { s with rxFifo := overwriteOnFull s.rxFifo val, irqWaking := true }
      else none
  | .irqWake =>
      if s.irqWaking then
        some { s with irqWaking := false, readers := s.readers.map Call.wake }
      else none
  | .read count nonblock =>
      if s.opens.files = 0 then none
      else
        some { s with
          readers := s.readers ++ [if count = 0 then .returned 0 else .entered count nonblock] }
  | .reader i signalled room =>
      (mydevRead.advanceAt s.rxFifo s.readers i signalled room).map fun (fifo, readers) =>
        { s with rxFifo := fifo, readers := readers }
  | .readerSignal i =>
      (Transfer.signalAt s.readers i).map fun readers => { s with readers := readers }
  | .readerReturn i =>
      match s.readers[i]? with
      | some (.copied _ copied ret) =>
          some { s with
            readers := s.readers.set i (.returned (callResult copied ret))
            -- a reader wakes the writers, who do not wait for its fifo
            writers := if ret = 0 ∧ copied ≠ 0 then s.writers.map Call.wake else s.writers }
      | _ => none
  | .write buf nonblock =>
      if s.opens.files = 0 then none
      else
        some { s with
          writers := s.writers ++ [if buf = [] then .returned 0 else .entered buf nonblock] }
  | .writer i signalled readable =>
      ((mydevWriteCall true).advanceAt s.txFifo s.writers i signalled readable).map
        fun (fifo, writers) => { s with txFifo := fifo, writers := writers }
  | .writerSignal i =>
      (Transfer.signalAt s.writers i).map fun writers => { s with writers := writers }
  | .writerReturn i =>
      match s.writers[i]? with
      | some (.copied _ copied ret) =>
          some { s with
            writers := s.writers.set i (.returned (callResult copied ret))
            pending := if ret = 0 ∧ s.cancelling = 0 then true else s.pending }
      | _ => none
  | .workStart =>
      if s.pending = true ∧ s.work = .idle then
        some { s with pending := false, work := .draining 0 }
      else none
  | .workByte =>
      match s.work, s.txFifo with
      | .draining got, [] => some { s with work := .waking got }
      | .draining got, byte :: rest =>
          some { s with txFifo := rest, sent := s.sent ++ [byte], work := .draining (got + 1) }
      | _, _ => none
  | .workWake =>
      match s.work with
      | .waking got =>
          some { s with
            work := .idle
            writers := if got ≠ 0 then s.writers.map Call.wake else s.writers }
      | _ => none

def rxtx : StepSystem RxTx RxTxAction where
  start := ⟨[], [], opens.start, 0, 0, false, false, .idle, [], [], []⟩
  step := rxtxStep

inductive RxTxMove (s : RxTx) : RxTxAction → RxTx → Prop where
  | opening {action : OpenAction} {opens : Opens} (free : s.waits action = false)
      (stepped : openStep s.opens action = some opens) :
      RxTxMove s (.opening action) { s with
        opens := opens
        releasing := if action = .freeIrq then s.releasing + 1 else s.releasing }
  | cancelWork (freed : 0 < s.releasing) :
      RxTxMove s .cancelWork { s with
        releasing := s.releasing - 1
        cancelling := s.cancelling + 1
        pending := false }
  | cancelled (waited : 0 < s.cancelling) (idle : s.work = .idle) :
      RxTxMove s .cancelled { s with cancelling := s.cancelling - 1 }
  | irq (val : BitVec 8) (requested : s.opens.mydev.irqRequested = true) :
      RxTxMove s (.irq val) { s with rxFifo := overwriteOnFull s.rxFifo val, irqWaking := true }
  | irqWake :
      RxTxMove s .irqWake { s with irqWaking := false, readers := s.readers.map Call.wake }
  | read (count : Nat) (nonblock : Bool) :
      RxTxMove s (.read count nonblock) { s with
        readers := s.readers ++ [if count = 0 then .returned 0 else .entered count nonblock] }
  | reader {i : Nat} {signalled : Bool} {room : Nat} {call moved : Call Nat}
      {after : List (BitVec 8)} (here : s.readers[i]? = some call)
      (move : Transfer.Move mydevRead s.rxFifo room call after moved) :
      RxTxMove s (.reader i signalled room)
        { s with rxFifo := after, readers := s.readers.set i moved }
  | readerSignal {i count : Nat} {nonblock : Bool} {phase later : WaitQueue.Phase}
      (here : s.readers[i]? = some (.waiting count nonblock phase)) (awake : later ≠ .asleep) :
      RxTxMove s (.readerSignal i)
        { s with readers := s.readers.set i (.waiting count nonblock later) }
  | readerReturn {i count copied : Nat} {ret : Int}
      (here : s.readers[i]? = some (.copied count copied ret)) :
      RxTxMove s (.readerReturn i) { s with
        readers := s.readers.set i (.returned (callResult copied ret))
        writers := if ret = 0 ∧ copied ≠ 0 then s.writers.map Call.wake else s.writers }
  | write (buf : List (BitVec 8)) (nonblock : Bool) :
      RxTxMove s (.write buf nonblock) { s with
        writers := s.writers ++ [if buf = [] then .returned 0 else .entered buf nonblock] }
  | writer {i : Nat} {signalled : Bool} {readable : Nat} {call moved : Call (List (BitVec 8))}
      {after : List (BitVec 8)} (here : s.writers[i]? = some call)
      (move : Transfer.Move (mydevWriteCall true) s.txFifo readable call after moved) :
      RxTxMove s (.writer i signalled readable)
        { s with txFifo := after, writers := s.writers.set i moved }
  | writerSignal {i : Nat} {buf : List (BitVec 8)} {nonblock : Bool}
      {phase later : WaitQueue.Phase}
      (here : s.writers[i]? = some (.waiting buf nonblock phase)) (awake : later ≠ .asleep) :
      RxTxMove s (.writerSignal i)
        { s with writers := s.writers.set i (.waiting buf nonblock later) }
  | writerReturn {i copied : Nat} {buf : List (BitVec 8)} {ret : Int}
      (here : s.writers[i]? = some (.copied buf copied ret)) :
      RxTxMove s (.writerReturn i) { s with
        writers := s.writers.set i (.returned (callResult copied ret))
        pending := if ret = 0 ∧ s.cancelling = 0 then true else s.pending }
  | workStart (pending : s.pending = true) (idle : s.work = .idle) :
      RxTxMove s .workStart { s with pending := false, work := .draining 0 }
  | workEmpty {got : Nat} (draining : s.work = .draining got) (empty : s.txFifo = []) :
      RxTxMove s .workByte { s with work := .waking got }
  | workByte {got : Nat} {byte : BitVec 8} {rest : List (BitVec 8)}
      (draining : s.work = .draining got) (queued : s.txFifo = byte :: rest) :
      RxTxMove s .workByte
        { s with txFifo := rest, sent := s.sent ++ [byte], work := .draining (got + 1) }
  | workWake {got : Nat} (waking : s.work = .waking got) :
      RxTxMove s .workWake { s with
        work := .idle
        writers := if got ≠ 0 then s.writers.map Call.wake else s.writers }

theorem rxtx_moves {s next : RxTx} {action : RxTxAction}
    (taken : rxtxStep s action = some next) : RxTxMove s action next := by
  cases action with
  | opening action =>
      rw [rxtxStep] at taken
      by_cases busy : s.waits action = true
      · rw [if_pos busy] at taken
        cases taken
      · rw [if_neg busy, Option.map_eq_some_iff] at taken
        rcases taken with ⟨opens, stepped, same⟩
        subst same
        exact .opening (eq_false_of_ne_true busy) stepped
  | cancelWork =>
      rw [rxtxStep] at taken
      split_ifs at taken with freed
      cases taken
      exact .cancelWork freed
  | cancelled =>
      rw [rxtxStep] at taken
      split_ifs at taken with done
      cases taken
      exact .cancelled done.1 done.2
  | irq val =>
      rw [rxtxStep] at taken
      split_ifs at taken with requested
      cases taken
      exact .irq val requested.1
  | irqWake =>
      rw [rxtxStep] at taken
      split_ifs at taken
      cases taken
      exact .irqWake
  | read count nonblock =>
      rw [rxtxStep] at taken
      by_cases closed : s.opens.files = 0
      · rw [if_pos closed] at taken
        cases taken
      · rw [if_neg closed] at taken
        cases taken
        exact .read count nonblock
  | reader i signalled room =>
      rw [rxtxStep, Option.map_eq_some_iff] at taken
      rcases taken with ⟨⟨after, readers⟩, advanced, same⟩
      rcases Transfer.advance_at_moves advanced with ⟨call, moved, here, move, there⟩
      subst there same
      exact .reader here move
  | readerSignal i =>
      rw [rxtxStep, Option.map_eq_some_iff] at taken
      rcases taken with ⟨readers, signalled, same⟩
      rcases Transfer.signal_at_moves signalled with ⟨_, _, _, later, here, awake, there⟩
      subst there same
      exact .readerSignal here awake
  | readerReturn i =>
      rw [rxtxStep] at taken
      split at taken
      · next request copied ret here =>
          cases taken
          exact .readerReturn here
      · cases taken
  | write buf nonblock =>
      rw [rxtxStep] at taken
      by_cases closed : s.opens.files = 0
      · rw [if_pos closed] at taken
        cases taken
      · rw [if_neg closed] at taken
        cases taken
        exact .write buf nonblock
  | writer i signalled readable =>
      rw [rxtxStep, Option.map_eq_some_iff] at taken
      rcases taken with ⟨⟨after, writers⟩, advanced, same⟩
      rcases Transfer.advance_at_moves advanced with ⟨call, moved, here, move, there⟩
      subst there same
      exact .writer here move
  | writerSignal i =>
      rw [rxtxStep, Option.map_eq_some_iff] at taken
      rcases taken with ⟨writers, signalled, same⟩
      rcases Transfer.signal_at_moves signalled with ⟨_, _, _, later, here, awake, there⟩
      subst there same
      exact .writerSignal here awake
  | writerReturn i =>
      rw [rxtxStep] at taken
      split at taken
      · next request copied ret here =>
          cases taken
          exact .writerReturn here
      · cases taken
  | workStart =>
      rw [rxtxStep] at taken
      split_ifs at taken with ready
      cases taken
      exact .workStart ready.1 ready.2
  | workByte =>
      rw [rxtxStep] at taken
      split at taken
      · next got draining empty =>
          cases taken
          exact .workEmpty draining empty
      · next got byte rest draining queued =>
          cases taken
          exact .workByte draining queued
      · cases taken
  | workWake =>
      rw [rxtxStep] at taken
      split at taken
      · next got waking =>
          cases taken
          exact .workWake waking
      · cases taken

/-- The work owes the writers a wake-up once it has taken a byte. -/
def TxWork.owes : TxWork → Bool
  | .idle => false
  | .draining got => got != 0
  | .waking got => got != 0

/-- Nobody sleeps beside data or beside room without a wake-up to come. -/
structure RxTxWakeups (s : RxTx) : Prop where
  rxBounded : s.rxFifo.length ≤ fifoSize
  txBounded : s.txFifo.length ≤ fifoSize
  readers : NoneLost s.readers (s.rxFifo ≠ []) (s.irqWaking = true)
  writers : NoneLost s.writers (s.txFifo.length ≠ fifoSize) (s.work.owes = true)

/-- Whether a step wakes those who wait on `rx_wq`. -/
def RxTx.wakesRxWq : RxTxAction → Bool
  | .irqWake => true
  | _ => false

def RxTx.wakesTxWq (s : RxTx) : RxTxAction → Bool
  | .readerReturn i =>
      match s.readers[i]? with
      | some (.copied _ copied ret) => decide (ret = 0 ∧ copied ≠ 0)
      | _ => false
  | .workWake => s.work.owes
  | _ => false

section step

variable {s next : RxTx} {action : RxTxAction} {owed : Prop}

theorem rxtx_move_bounded (rxBounded : s.rxFifo.length ≤ fifoSize)
    (txBounded : s.txFifo.length ≤ fifoSize) (moves : RxTxMove s action next) :
    next.rxFifo.length ≤ fifoSize ∧ next.txFifo.length ≤ fifoSize := by
  cases moves with
  | irq val _ =>
      have length := overwrite_length val rxBounded
      refine ⟨?_, txBounded⟩
      dsimp only
      omega
  | reader here move =>
      refine ⟨?_, txBounded⟩
      cases move with
      | waits => exact rxBounded
      | copies request =>
          dsimp only
          rw [(read_copies s.rxFifo request _).1, List.length_drop]
          exact Nat.le_trans (Nat.sub_le _ _) rxBounded
  | writer here move =>
      refine ⟨rxBounded, ?_⟩
      cases move with
      | waits => exact txBounded
      | copies request => exact (write_copies txBounded true request _).2.2
  | workByte draining queued =>
      refine ⟨rxBounded, ?_⟩
      rw [queued] at txBounded
      exact Nat.le_of_succ_le txBounded
  | _ => exact ⟨rxBounded, txBounded⟩

theorem rxtx_wakes_readers (moves : RxTxMove s action next)
    (wakes : RxTx.wakesRxWq action = true) : ¬Sleeps next.readers := by
  cases moves with
  | irqWake => exact WaitQueue.woken_awake Call.wake_phase
  | _ => cases wakes

theorem rxtx_wakes_writers (moves : RxTxMove s action next)
    (wakes : s.wakesTxWq action = true) : ¬Sleeps next.writers := by
  cases moves with
  | readerReturn here =>
      rw [RxTx.wakesTxWq, here] at wakes
      dsimp only
      rw [if_pos (of_decide_eq_true wakes)]
      exact WaitQueue.woken_awake Call.wake_phase
  | workWake waking =>
      rw [RxTx.wakesTxWq, waking] at wakes
      dsimp only
      rw [if_pos (bne_iff_ne.mp wakes)]
      exact WaitQueue.woken_awake Call.wake_phase
  | _ => cases wakes

/-- Where a step that does not wake the readers leaves data, there was some before or its
wake-up is owed now. -/
theorem rxtx_supplies_data (moves : RxTxMove s action next)
    (quiet : RxTx.wakesRxWq action = false) (data : next.rxFifo ≠ []) :
    next.irqWaking = true ∨
      s.rxFifo ≠ [] ∧ (s.irqWaking = true → next.irqWaking = true) := by
  cases moves with
  | irq => exact .inl rfl
  | irqWake => cases quiet
  | reader here move =>
      refine .inr ⟨?_, id⟩
      cases move with
      | waits => exact data
      | copies request =>
          intro empty
          dsimp only at data
          rw [(read_copies s.rxFifo request _).1, empty, List.drop_nil] at data
          exact data rfl
  | _ => exact .inr ⟨data, id⟩

theorem rxtx_supplies_room (txBounded : s.txFifo.length ≤ fifoSize)
    (moves : RxTxMove s action next) (quiet : s.wakesTxWq action = false)
    (room : next.txFifo.length ≠ fifoSize) :
    next.work.owes = true ∨
      s.txFifo.length ≠ fifoSize ∧ (s.work.owes = true → next.work.owes = true) := by
  cases moves with
  | @writer i signalled readable call moved after here move =>
      refine .inr ⟨?_, id⟩
      cases move with
      | waits => exact room
      | copies request =>
          rcases write_copies txBounded true request readable with ⟨_, grown, whole⟩
          intro full
          dsimp only at room
          omega
  | workStart pending idle =>
      refine .inr ⟨room, ?_⟩
      intro owed
      rw [idle] at owed
      cases owed
  | workEmpty draining empty =>
      refine .inr ⟨room, ?_⟩
      intro owed
      rwa [draining] at owed
  -- the byte taken makes room, and from now on the wake-up is owed
  | workByte draining queued => exact .inl rfl
  | workWake waking =>
      refine .inr ⟨room, ?_⟩
      intro owed
      rw [RxTx.wakesTxWq, owed] at quiet
      cases quiet
  | _ => exact .inr ⟨room, id⟩

/-- No reader goes to sleep beside data. -/
theorem rxtx_move_readers (before : NoneLost s.readers (s.rxFifo ≠ []) owed)
    (moves : RxTxMove s action next) : NoneLost next.readers (s.rxFifo ≠ []) owed := by
  cases moves with
  | irqWake => exact .woken Call.wake_phase
  | read =>
      apply before.joined
      split_ifs <;> nofun
  | reader here move =>
      apply Transfer.moved_sleepers before move
      intro empty
      exact fun data => data (of_decide_eq_true empty)
  | readerSignal here awake =>
      exact before.moved fun asleep => absurd (Option.some.inj asleep) awake
  | readerReturn => exact before.moved fun asleep => nomatch asleep
  | _ => exact before

theorem rxtx_move_writers (before : NoneLost s.writers (s.txFifo.length ≠ fifoSize) owed)
    (moves : RxTxMove s action next) :
    NoneLost next.writers (s.txFifo.length ≠ fifoSize) owed := by
  cases moves with
  | readerReturn | workWake =>
      dsimp only
      split_ifs
      · exact .woken Call.wake_phase
      · exact before
  | write =>
      apply before.joined
      split_ifs <;> nofun
  | writer here move =>
      apply Transfer.moved_sleepers before move
      intro full
      exact fun room => room (of_decide_eq_true full)
  | writerSignal here awake =>
      exact before.moved fun asleep => absurd (Option.some.inj asleep) awake
  | writerReturn => exact before.moved fun asleep => nomatch asleep
  | _ => exact before

theorem rxtx_move_wakeups (before : RxTxWakeups s) (moves : RxTxMove s action next) :
    RxTxWakeups next := by
  have bounded := rxtx_move_bounded before.rxBounded before.txBounded moves
  refine ⟨bounded.1, bounded.2, ?_, ?_⟩
  · cases wakes : RxTx.wakesRxWq action with
    | true => exact fun sleeps => absurd sleeps (rxtx_wakes_readers moves wakes)
    | false =>
        exact (rxtx_move_readers before.readers moves).supplied (rxtx_supplies_data moves wakes)
  · cases wakes : s.wakesTxWq action with
    | true => exact fun sleeps => absurd sleeps (rxtx_wakes_writers moves wakes)
    | false =>
        exact (rxtx_move_writers before.writers moves).supplied
          (rxtx_supplies_room before.txBounded moves wakes)

end step

end Testings.Kfifo
