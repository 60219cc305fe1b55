import Testings.KfifoStall
import Testings.QueueLedger

/-!
# What the two fifos deliver

The way of a byte through `kfifo_rxtx.c`: what the handler puts into `rx_fifo` is read in its
order, less what a full fifo drops; what the writes put into `tx_fifo` is sent in its order,
all of it. And what a call by itself has to answer.
-/

set_option autoImplicit false

namespace Testings.Kfifo

/-- `written` is what writes have copied into `tx_fifo`, also those that faulted behind it. -/
structure RxTxLedger where
  rx : QueueLedger (BitVec 8)
  written : List (BitVec 8)
  deriving DecidableEq

def rxtxLedger (s : RxTx) (action : RxTxAction) (_ : RxTx) (ledger : RxTxLedger) : RxTxLedger :=
  match action with
  | .irq val =>
      let oldest := s.rxFifo.take (if s.rxFifo.length = fifoSize then 1 else 0)
      { ledger with rx := (ledger.rx.drop oldest).accept [val] }
  | .reader i _ room =>
      match s.readers[i]? with
      | some (.copying count) =>
          { ledger with
            rx := ledger.rx.deliver (s.rxFifo.take (mydevRead.copy s.rxFifo count room).2.2) }
      | _ => ledger
  | .writer i _ readable =>
      match s.writers[i]? with
      | some (.copying buf) =>
          { ledger with
            written := ledger.written ++
              buf.take ((mydevWriteCall true).copy s.txFifo buf readable).2.2 }
      | _ => ledger
  | _ => ledger

def rxtxObserved : StepSystem (RxTx × RxTxLedger) RxTxAction :=
  rxtx.observe ⟨QueueLedger.empty, []⟩ rxtxLedger

/-- Both fifos are what the ledger says. -/
structure RxTxRecorded (s : RxTx × RxTxLedger) : Prop where
  wakeups : RxTxWakeups s.1
  rx : s.2.rx.Kept s.1.rxFifo
  tx : s.1.sent ++ s.1.txFifo = s.2.written

theorem rxtx_move_recorded {s next : RxTx} {action : RxTxAction} {ledger : RxTxLedger}
    (before : RxTxRecorded (s, ledger)) (moves : RxTxMove s action next) :
    RxTxRecorded (next, rxtxLedger s action next ledger) := by
  have wakeups := rxtx_move_wakeups before.wakeups moves
  have bounded := before.wakeups.rxBounded
  have rx := before.rx
  have tx := before.tx
  dsimp only at bounded rx tx
  cases moves with
  | irq val =>
      refine ⟨wakeups, ?_, tx⟩
      dsimp only [rxtxLedger]
      rw [overwrite_on_full s.rxFifo val bounded]
      exact (rx.drop _).accept [val]
  | @reader i signalled room call moved after here move =>
      dsimp only [rxtxLedger]
      rw [here]
      cases move with
      | waits _ _ _ unpassed =>
          cases call with
          | copying request => cases unpassed
          | _ => exact ⟨wakeups, rx, tx⟩
      | copies request =>
          refine ⟨wakeups, ?_, tx⟩
          dsimp only
          rw [(read_copies s.rxFifo request room).1]
          exact rx.deliver _
  | @writer i signalled readable call moved after here move =>
      dsimp only [rxtxLedger]
      rw [here]
      cases move with
      | waits _ _ _ unpassed =>
          cases call with
          | copying request => cases unpassed
          | _ => exact ⟨wakeups, rx, tx⟩
      | copies request =>
          refine ⟨wakeups, rx, ?_⟩
          dsimp only
          rw [(write_copies before.wakeups.txBounded true request readable).1, ← List.append_assoc,
            tx]
  | @workByte got byte rest draining queued =>
      refine ⟨wakeups, rx, ?_⟩
      rw [queued] at tx
      dsimp only [rxtxLedger]
      rw [List.append_assoc, List.singleton_append, tx]
  | _ => exact ⟨wakeups, rx, tx⟩

/-- In every run, with whatever faults and releases, the bytes sent and those still queued
behind them are the bytes the writes have copied, in their order and without a loss; the bytes
read, with those queued, are what the handler has sampled, in order, less what it has dropped
from a full fifo. -/
theorem rxtx_delivers (s : RxTx) (ledger : RxTxLedger)
    (reached : rxtxObserved.Reachable (s, ledger)) :
    s.sent ++ s.txFifo = ledger.written ∧
      (ledger.rx.delivered ++ s.rxFifo).Sublist ledger.rx.accepted ∧
      ledger.rx.accepted.Perm (ledger.rx.delivered ++ s.rxFifo ++ ledger.rx.dropped) ∧
      (ledger.rx.delivered ++ s.rxFifo = ledger.rx.accepted ↔ ledger.rx.dropped = []) := by
  have recorded : RxTxRecorded (s, ledger) := by
    apply reached.invariant RxTxRecorded
    · exact ⟨rxtx_start_wakeups, QueueLedger.empty_kept, rfl⟩
    · apply StepSystem.observe_preserved
      intro state action next ledger before taken
      exact rxtx_move_recorded before (rxtx_moves taken)
  exact ⟨recorded.tx, recorded.rx.ordered, recorded.rx.conserved, recorded.rx.lossless_iff⟩

/-- A write that faults behind its second byte, and one byte received and read. -/
theorem rxtx_delivers_fault :
    ∃ s ledger, rxtxObserved.Reachable (s, ledger) ∧
      s.sent ++ s.txFifo = [0x41, 0x42] ∧ ledger.rx.delivered = [1] := by
  rcases StepSystem.reachable_of_run rxtxObserved
    [.opening .openCount, .opening (.requestIrq true), .write [0x41, 0x42, 0x43] false,
      .writer 0 false 2, .writer 0 false 2, .writerReturn 0, .irq 1, .irqWake, .read 1 false,
      .reader 0 false 1, .reader 0 false 1]
    (fun s => decide (s.2 = ⟨⟨[1], [1], []⟩, [0x41, 0x42]⟩)) (by decide) with ⟨s, reached, passes⟩
  have same := of_decide_eq_true passes
  refine ⟨s.1, s.2, reached, ?_, ?_⟩
  · rw [(rxtx_delivers s.1 s.2 reached).1, same]
  · rw [same]

/-- No read begins before the one in front of it has returned. -/
def RxTxReadsAlone (s : RxTx) : RxTxAction → Prop
  | .read _ _ => ∀ call ∈ s.readers, call.live = false
  | _ => True

/-- No write begins before the one in front of it has returned. -/
def RxTxWritesAlone (s : RxTx) : RxTxAction → Prop
  | .write _ _ => ∀ call ∈ s.writers, call.live = false
  | _ => True

instance (s : RxTx) (action : RxTxAction) : Decidable (RxTxReadsAlone s action) := by
  unfold RxTxReadsAlone
  split <;> infer_instance

instance (s : RxTx) (action : RxTxAction) : Decidable (RxTxWritesAlone s action) := by
  unfold RxTxWritesAlone
  split <;> infer_instance

section served

variable {s next : RxTx} {action : RxTxAction}

/-- What the others do leaves data where there was some. -/
theorem rxtx_keeps_data (bounded : s.rxFifo.length ≤ fifoSize) (moves : RxTxMove s action next)
    (other : ∀ i signalled room, action ≠ .reader i signalled room)
    (data : mydevRead.blocked s.rxFifo = false) : mydevRead.blocked next.rxFifo = false := by
  cases moves with
  | irq val =>
      apply supplied_opens _ data
      rw [overwrite_length val bounded]
      omega
  | reader => exact absurd rfl (other _ _ _)
  | _ => exact data

theorem rxtx_move_reads_served (bounded : s.rxFifo.length ≤ fifoSize)
    (served : Served mydevRead Asks s.rxFifo s.readers) (alone : RxTxReadsAlone s action)
    (moves : RxTxMove s action next) : Served mydevRead Asks next.rxFifo next.readers := by
  cases moves with
  | irq val requested =>
      exact served.supplied (rxtx_keeps_data bounded (.irq val requested) (by nofun))
  | irqWake => exact served.woken
  | read count nonblock =>
      apply served.joined alone
      split_ifs <;> rfl
  | @reader i signalled room call moved after here move =>
      exact served.advanced here move fun len passed asks => read_answers passed asks room
  | readerSignal here => exact served.set here rfl (by nofun) (by nofun)
  | readerReturn here => exact served.set here rfl (by nofun) (by nofun)
  | _ => exact served

/-- Room likewise. -/
theorem rxtx_keeps_room (bounded : s.txFifo.length ≤ fifoSize) (moves : RxTxMove s action next)
    (other : ∀ i signalled readable, action ≠ .writer i signalled readable)
    (room : (mydevWriteCall true).blocked s.txFifo = false) :
    (mydevWriteCall true).blocked next.txFifo = false := by
  cases moves with
  | writer => exact absurd rfl (other _ _ _)
  | workByte draining queued =>
      have apart : s.txFifo.length ≠ fifoSize := of_decide_eq_false room
      rw [queued] at apart bounded
      apply decide_eq_false
      dsimp only [List.length_cons] at apart bounded ⊢
      omega
  | _ => exact room

theorem rxtx_move_writes_served (bounded : s.txFifo.length ≤ fifoSize)
    (served : Served (mydevWriteCall true) (· ≠ []) s.txFifo s.writers)
    (alone : RxTxWritesAlone s action) (moves : RxTxMove s action next) :
    Served (mydevWriteCall true) (· ≠ []) next.txFifo next.writers := by
  cases moves with
  | readerReturn here =>
      dsimp only
      split_ifs
      · exact served.woken
      · exact served
  | write buf nonblock =>
      apply served.joined alone
      split_ifs <;> rfl
  | @writer i signalled readable call moved after here move =>
      exact served.advanced here move fun buf passed given =>
        write_answers bounded passed given readable
  | writerSignal here => exact served.set here rfl (by nofun) (by nofun)
  | writerReturn here => exact served.set here rfl (by nofun) (by nofun)
  | workByte draining queued =>
      exact served.supplied (rxtx_keeps_room bounded (.workByte draining queued) (by nofun))
  | workWake waking =>
      dsimp only
      split_ifs
      · exact served.woken
      · exact served
  | _ => exact served

end served

/-- From any state with no read under way, as long as each read begins when no other one is under
way, a read that has asked for something never returns zero; and likewise for the writes. -/
theorem rxtx_calls_alone_answer (s : RxTx) (reached : rxtx.Reachable s)
    (actions : List RxTxAction) (final : RxTx) :
    ((∀ call ∈ s.readers, call.live = false) →
        (rxtx.restrict RxTxReadsAlone).runFrom s actions = some final →
        ∀ count copied ret, Call.copied count copied ret ∈ final.readers → 0 < count →
          callResult copied ret ≠ 0) ∧
      ((∀ call ∈ s.writers, call.live = false) →
        (rxtx.restrict RxTxWritesAlone).runFrom s actions = some final →
        ∀ buf copied ret, Call.copied buf copied ret ∈ final.writers → buf ≠ [] →
          callResult copied ret ≠ 0) := by
  have wakeups := reachable_rxtx_wakeups reached
  constructor
  · intro finished run count copied ret there asked
    have kept : RxTxWakeups final ∧ Served mydevRead Asks final.rxFifo final.readers := by
      refine StepSystem.run_from_invariant
        (fun s => RxTxWakeups s ∧ Served mydevRead Asks s.rxFifo s.readers) ?_
        ⟨wakeups, Served.idle mydevRead Asks s.rxFifo finished⟩ run
      apply StepSystem.restrict_preserved
      intro state action next before alone taken
      have moves := rxtx_moves taken
      exact ⟨rxtx_move_wakeups before.1 moves,
        rxtx_move_reads_served before.1.rxBounded before.2 alone moves⟩
    exact kept.2.answered count copied ret there asked
  · intro finished run buf copied ret there given
    have kept : RxTxWakeups final ∧
        Served (mydevWriteCall true) (· ≠ []) final.txFifo final.writers := by
      refine StepSystem.run_from_invariant
        (fun s => RxTxWakeups s ∧ Served (mydevWriteCall true) (· ≠ []) s.txFifo s.writers) ?_
        ⟨wakeups, Served.idle (mydevWriteCall true) (· ≠ []) s.txFifo finished⟩ run
      apply StepSystem.restrict_preserved
      intro state action next before alone taken
      have moves := rxtx_moves taken
      exact ⟨rxtx_move_wakeups before.1 moves,
        rxtx_move_writes_served before.1.txBounded before.2 alone moves⟩
    exact kept.2.answered buf copied ret there given

/-- A write behind two that have been under way together. -/
theorem rxtx_calls_alone_answer_one : callResult 2 0 ≠ 0 := by
  rcases StepSystem.reachable_of_run rxtx
    [.opening .openCount, .opening (.requestIrq true), .write [0x41] false, .write [0x42] false,
      .writer 0 false 1, .writer 1 false 1, .writer 0 false 1, .writer 1 false 1, .writerReturn 0,
      .writerReturn 1]
    (fun s => decide (s.writers = [.returned 1, .returned 1] ∧
      (rxtx.restrict RxTxWritesAlone).runFrom s
        [.write [0x43, 0x44] false, .writer 2 false 2, .writer 2 false 2] =
      some { s with
        txFifo := s.txFifo ++ [0x43, 0x44]
        writers := s.writers ++ [.copied [0x43, 0x44] 2 0] })) (by decide)
    with ⟨s, reached, passes⟩
  rcases of_decide_eq_true passes with ⟨writers, run⟩
  have finished : ∀ call ∈ s.writers, call.live = false := by
    rw [writers]
    decide
  have last : Call.copied [0x43, 0x44] 2 0 ∈ s.writers ++ [.copied [0x43, 0x44] 2 0] :=
    List.mem_append_right _ (List.mem_singleton_self _)
  exact (rxtx_calls_alone_answer s reached _ _).2 finished run [0x43, 0x44] 2 0 last
    (List.cons_ne_nil _ _)

end Testings.Kfifo
