import Testings.KfifoCalls
import Testings.QueueLedger

/-!
# One fifo for the interrupt and for the writers

`kfifo.c`: `mydev_irq_handler` and `mydev_write` fill the same fifo, `mydev_read`
empties it. Any number of calls and the handler, cut where they take or leave the
lock; the wake-up behind an unlock is a step of its own.
-/

set_option autoImplicit false

namespace Testings.Kfifo

/-- `irqWaking` is the handler between its unlock and its `wake_up_interruptible`. -/
structure Overwrite where
  fifo : List (BitVec 8)
  irqWaking : Bool
  readers : List (Call Nat)
  writers : List (Call (List (BitVec 8)))
  deriving DecidableEq

inductive OverwriteAction where
  | irq (val : BitVec 8)
  | irqWake
  | read (len : Nat) (nonblock : Bool)
  | reader (i : Nat) (signalled : Bool) (room : Nat)
  | readerSignal (i : Nat)
  | readerReturn (i : Nat)
  | write (buf : List (BitVec 8)) (nonblock : Bool)
  | writer (i : Nat) (signalled : Bool) (readable : Nat)
  | writerSignal (i : Nat)
  | writerReturn (i : Nat)
  deriving DecidableEq

/-- The interrupt is not delivered again while its handler runs. Behind the unlock each call
wakes the other side where it has copied something. -/
def overwriteStep (s : Overwrite) : OverwriteAction → Option Overwrite
  | .irq val =>
      if s.irqWaking then none
      else some { s with fifo := overwriteOnFull s.fifo val, irqWaking := true }
  | .irqWake =>
      if s.irqWaking then
        some { s with irqWaking := false, readers := s.readers.map Call.wake }
      else none
  | .read len nonblock => some { s with readers := s.readers ++ [.entered len nonblock] }
  | .reader i signalled room =>
      (mydevRead.advanceAt s.fifo s.readers i signalled room).map fun (fifo, readers) =>
        { s with fifo := fifo, readers := readers }
  | .readerSignal i =>
      (Transfer.signalAt s.readers i).map fun readers => { s with readers := readers }
  | .readerReturn i =>
      match s.readers[i]? with
      | some (.copied _ copied ret) =>
          some { s with
            readers := s.readers.set i (.returned (callResult copied ret))
            writers := if copied ≠ 0 then s.writers.map Call.wake else s.writers }
      | _ => none
  | .write buf nonblock => some { s with writers := s.writers ++ [.entered buf nonblock] }
  | .writer i signalled readable =>
      ((mydevWriteCall false).advanceAt s.fifo s.writers i signalled readable).map
        fun (fifo, writers) => { s with fifo := fifo, writers := writers }
  | .writerSignal i =>
      (Transfer.signalAt s.writers i).map fun writers => { s with writers := writers }
  | .writerReturn i =>
      match s.writers[i]? with
      | some (.copied _ copied ret) =>
          some { s with
            writers := s.writers.set i (.returned (callResult copied ret))
            readers := if copied ≠ 0 then s.readers.map Call.wake else s.readers }
      | _ => none

def overwrite : StepSystem Overwrite OverwriteAction where
  start := ⟨[], false, [], []⟩
  step := overwriteStep

inductive OverwriteMove (s : Overwrite) : OverwriteAction → Overwrite → Prop where
  | irq (val : BitVec 8) :
      OverwriteMove s (.irq val) { s with fifo := overwriteOnFull s.fifo val, irqWaking := true }
  | irqWake :
      OverwriteMove s .irqWake { s with irqWaking := false, readers := s.readers.map Call.wake }
  | read (len : Nat) (nonblock : Bool) :
      OverwriteMove s (.read len nonblock)
        { s with readers := s.readers ++ [.entered len nonblock] }
  | reader {i : Nat} {signalled : Bool} {room : Nat} {call moved : Call Nat}
      {after : List (BitVec 8)} (here : s.readers[i]? = some call)
      (move : Transfer.Move mydevRead s.fifo room call after moved) :
      OverwriteMove s (.reader i signalled room)
        { s with fifo := after, readers := s.readers.set i moved }
  | readerSignal {i len : Nat} {nonblock : Bool} {phase later : WaitQueue.Phase}
      (here : s.readers[i]? = some (.waiting len nonblock phase)) (awake : later ≠ .asleep) :
      OverwriteMove s (.readerSignal i)
        { s with readers := s.readers.set i (.waiting len nonblock later) }
  | readerReturn {i len copied : Nat} {ret : Int}
      (here : s.readers[i]? = some (.copied len copied ret)) :
      OverwriteMove s (.readerReturn i) { s with
        readers := s.readers.set i (.returned (callResult copied ret))
        writers := if copied ≠ 0 then s.writers.map Call.wake else s.writers }
  | write (buf : List (BitVec 8)) (nonblock : Bool) :
      OverwriteMove s (.write buf nonblock)
        { s with writers := s.writers ++ [.entered buf nonblock] }
  | writer {i : Nat} {signalled : Bool} {readable : Nat} {call moved : Call (List (BitVec 8))}
      {after : List (BitVec 8)} (here : s.writers[i]? = some call)
      (move : Transfer.Move (mydevWriteCall false) s.fifo readable call after moved) :
      OverwriteMove s (.writer i signalled readable)
        { s with fifo := after, writers := s.writers.set i moved }
  | writerSignal {i : Nat} {buf : List (BitVec 8)} {nonblock : Bool}
      {phase later : WaitQueue.Phase}
      (here : s.writers[i]? = some (.waiting buf nonblock phase)) (awake : later ≠ .asleep) :
      OverwriteMove s (.writerSignal i)
        { s with writers := s.writers.set i (.waiting buf nonblock later) }
  | writerReturn {i copied : Nat} {buf : List (BitVec 8)} {ret : Int}
      (here : s.writers[i]? = some (.copied buf copied ret)) :
      OverwriteMove s (.writerReturn i) { s with
        writers := s.writers.set i (.returned (callResult copied ret))
        readers := if copied ≠ 0 then s.readers.map Call.wake else s.readers }

theorem overwrite_moves {s next : Overwrite} {action : OverwriteAction}
    (taken : overwriteStep s action = some next) : OverwriteMove s action next := by
  cases action with
  | irq val =>
      rw [overwriteStep] at taken
      split_ifs at taken
      cases taken
      exact .irq val
  | irqWake =>
      rw [overwriteStep] at taken
      split_ifs at taken
      cases taken
      exact .irqWake
  | read len nonblock =>
      cases taken
      exact .read len nonblock
  | reader i signalled room =>
      rw [overwriteStep, Option.map_eq_some_iff] at taken
      rcases taken with ⟨⟨after, readers⟩, advanced, same⟩
      rcases Transfer.advance_at_moves advanced with ⟨call, moved, here, move, there⟩
      subst there same
      exact .reader here move
  | readerSignal i =>
      rw [overwriteStep, Option.map_eq_some_iff] at taken
      rcases taken with ⟨readers, signalled, same⟩
      rcases Transfer.signal_at_moves signalled with ⟨_, _, _, later, here, awake, there⟩
      subst there same
      exact .readerSignal here awake
  | readerReturn i =>
      rw [overwriteStep] at taken
      split at taken
      · next request copied ret here =>
          cases taken
          exact .readerReturn here
      · cases taken
  | write buf nonblock =>
      cases taken
      exact .write buf nonblock
  | writer i signalled readable =>
      rw [overwriteStep, Option.map_eq_some_iff] at taken
      rcases taken with ⟨⟨after, writers⟩, advanced, same⟩
      rcases Transfer.advance_at_moves advanced with ⟨call, moved, here, move, there⟩
      subst there same
      exact .writer here move
  | writerSignal i =>
      rw [overwriteStep, Option.map_eq_some_iff] at taken
      rcases taken with ⟨writers, signalled, same⟩
      rcases Transfer.signal_at_moves signalled with ⟨_, _, _, later, here, awake, there⟩
      subst there same
      exact .writerSignal here awake
  | writerReturn i =>
      rw [overwriteStep] at taken
      split at taken
      · next request copied ret here =>
          cases taken
          exact .writerReturn here
      · cases taken

/-- A reader asleep beside data has a wake-up to come, from the handler or from a writer
behind its unlock; so has a writer asleep beside room, from a reader. -/
structure WakeupsOwed (s : Overwrite) : Prop where
  bounded : s.fifo.length ≤ fifoSize
  readers : NoneLost s.readers (s.fifo ≠ []) (s.irqWaking = true ∨ Owes s.writers)
  writers : NoneLost s.writers (s.fifo.length ≠ fifoSize) (Owes s.readers)

theorem return_owes {Request : Type} {request : Request} {calls : List (Call Request)}
    {i copied : Nat} {ret : Int} (here : calls[i]? = some (.copied request copied ret))
    (nothing : copied = 0) (owes : Owes calls) :
    Owes (calls.set i (.returned (callResult copied ret))) :=
  owes_set here (by rw [Call.owes, nothing]; rfl) owes

theorem overwrite_move_bounded {s next : Overwrite} {action : OverwriteAction}
    (bounded : s.fifo.length ≤ fifoSize) (moves : OverwriteMove s action next) :
    next.fifo.length ≤ fifoSize := by
  cases moves with
  | irq val =>
      have length := overwrite_length val bounded
      dsimp only
      omega
  | reader here move =>
      cases move with
      | waits => exact bounded
      | copies request =>
          dsimp only
          rw [(read_copies s.fifo request _).1, List.length_drop]
          exact Nat.le_trans (Nat.sub_le _ _) bounded
  | writer here move =>
      cases move with
      | waits => exact bounded
      | copies request => exact (write_copies bounded false request _).2.2
  | _ => exact bounded

/-- What comes between a step and its own effect on the wait queues. -/
def Overwrite.wakesReadWq (s : Overwrite) : OverwriteAction → Bool
  | .irqWake => true
  | .writerReturn i => s.writers[i]?.any Call.owes
  | _ => false

def Overwrite.wakesWriteWq (s : Overwrite) : OverwriteAction → Bool
  | .readerReturn i => s.readers[i]?.any Call.owes
  | _ => false

section step

variable {s next : Overwrite} {action : OverwriteAction} {owed : Prop}

theorem overwrite_wakes_readers (moves : OverwriteMove s action next)
    (wakes : s.wakesReadWq action = true) : ¬Sleeps next.readers := by
  cases moves with
  | irqWake => exact WaitQueue.woken_awake Call.wake_phase
  | writerReturn here =>
      rw [Overwrite.wakesReadWq, here] at wakes
      dsimp only
      rw [if_pos (bne_iff_ne.mp wakes)]
      exact WaitQueue.woken_awake Call.wake_phase
  | _ => cases wakes

theorem overwrite_wakes_writers (moves : OverwriteMove s action next)
    (wakes : s.wakesWriteWq action = true) : ¬Sleeps next.writers := by
  cases moves with
  | readerReturn here =>
      rw [Overwrite.wakesWriteWq, here] at wakes
      dsimp only
      rw [if_pos (bne_iff_ne.mp wakes)]
      exact WaitQueue.woken_awake Call.wake_phase
  | _ => cases wakes

/-- Where a step that does not wake the readers leaves data, there was some before or its
wake-up is owed now. -/
theorem overwrite_supplies_data (bounded : s.fifo.length ≤ fifoSize)
    (moves : OverwriteMove s action next) (quiet : s.wakesReadWq action = false)
    (data : next.fifo ≠ []) :
    (next.irqWaking = true ∨ Owes next.writers) ∨ s.fifo ≠ [] ∧
      (s.irqWaking = true ∨ Owes s.writers → next.irqWaking = true ∨ Owes next.writers) := by
  cases moves with
  | irq => exact .inl (.inl rfl)
  | irqWake => cases quiet
  | read | readerSignal => exact .inr ⟨data, id⟩
  | reader here move =>
      cases move with
      | waits => exact .inr ⟨data, id⟩
      | copies request =>
          refine .inr ⟨?_, id⟩
          intro empty
          dsimp only at data
          rw [(read_copies s.fifo request _).1, empty, List.drop_nil] at data
          exact data rfl
  | readerReturn here =>
      refine .inr ⟨data, Or.imp_right ?_⟩
      dsimp only
      split_ifs
      · exact owes_wake.mpr
      · exact id
  | write => exact .inr ⟨data, Or.imp_right (owes_append _)⟩
  | @writer i signalled readable call moved after here move =>
      have free := Transfer.move_free move
      cases move with
      | waits => exact .inr ⟨data, Or.imp_right (owes_set here free)⟩
      | copies request =>
          by_cases nothing : ((mydevWriteCall false).copy s.fifo request readable).2.2 = 0
          · refine .inr ⟨?_, Or.imp_right (owes_set here free)⟩
            dsimp only at data
            rwa [(write_copies bounded false request readable).1, nothing, List.take_zero,
              List.append_nil] at data
          · exact .inl (.inr (owes_set_self here (bne_iff_ne.mpr nothing)))
  | writerSignal here => exact .inr ⟨data, Or.imp_right (owes_set here rfl)⟩
  | writerReturn here =>
      rw [Overwrite.wakesReadWq, here] at quiet
      have nothing := bne_eq_false_iff_eq.mp quiet
      exact .inr ⟨data, Or.imp_right (return_owes here nothing)⟩

/-- Room for the writers likewise: only a reader makes it. -/
theorem overwrite_supplies_room (bounded : s.fifo.length ≤ fifoSize)
    (moves : OverwriteMove s action next) (quiet : s.wakesWriteWq action = false)
    (room : next.fifo.length ≠ fifoSize) :
    Owes next.readers ∨ s.fifo.length ≠ fifoSize ∧ (Owes s.readers → Owes next.readers) := by
  cases moves with
  | irq val =>
      have length := overwrite_length val bounded
      dsimp only at room
      exact .inr ⟨by omega, id⟩
  | irqWake => exact .inr ⟨room, owes_wake.mpr⟩
  | read => exact .inr ⟨room, owes_append _⟩
  | @reader i signalled user call moved after here move =>
      have free := Transfer.move_free move
      cases move with
      | waits => exact .inr ⟨room, owes_set here free⟩
      | copies request =>
          by_cases nothing : (mydevRead.copy s.fifo request user).2.2 = 0
          · refine .inr ⟨?_, owes_set here free⟩
            dsimp only at room
            rwa [(read_copies s.fifo request user).1, nothing, List.drop_zero] at room
          · exact .inl (owes_set_self here (bne_iff_ne.mpr nothing))
  | readerSignal here => exact .inr ⟨room, owes_set here rfl⟩
  | readerReturn here =>
      rw [Overwrite.wakesWriteWq, here] at quiet
      have nothing := bne_eq_false_iff_eq.mp quiet
      exact .inr ⟨room, return_owes here nothing⟩
  | write | writerSignal => exact .inr ⟨room, id⟩
  | @writer i signalled readable call moved after here move =>
      cases move with
      | waits => exact .inr ⟨room, id⟩
      | copies request =>
          rcases write_copies bounded false request readable with ⟨_, grown, whole⟩
          refine .inr ⟨?_, id⟩
          intro full
          dsimp only at room
          omega
  | writerReturn =>
      refine .inr ⟨room, ?_⟩
      dsimp only
      split_ifs
      · exact owes_wake.mpr
      · exact id

/-- No reader goes to sleep beside data. -/
theorem overwrite_move_readers (before : NoneLost s.readers (s.fifo ≠ []) owed)
    (moves : OverwriteMove s action next) : NoneLost next.readers (s.fifo ≠ []) owed := by
  cases moves with
  | irq | write | writer | writerSignal => exact before
  | irqWake => exact .woken Call.wake_phase
  | read => exact before.joined (by nofun)
  | reader here move =>
      apply Transfer.moved_sleepers before move
      intro empty
      exact fun data => data (of_decide_eq_true empty)
  | readerSignal here awake =>
      exact before.moved fun asleep => absurd (Option.some.inj asleep) awake
  | readerReturn => exact before.moved fun asleep => nomatch asleep
  | writerReturn =>
      dsimp only
      split_ifs
      · exact .woken Call.wake_phase
      · exact before

theorem overwrite_move_writers (before : NoneLost s.writers (s.fifo.length ≠ fifoSize) owed)
    (moves : OverwriteMove s action next) :
    NoneLost next.writers (s.fifo.length ≠ fifoSize) owed := by
  cases moves with
  | irq | irqWake | read | reader | readerSignal => exact before
  | write => exact before.joined (by nofun)
  | writer here move =>
      apply Transfer.moved_sleepers before move
      intro full
      exact fun room => room (of_decide_eq_true full)
  | writerSignal here awake =>
      exact before.moved fun asleep => absurd (Option.some.inj asleep) awake
  | writerReturn => exact before.moved fun asleep => nomatch asleep
  | readerReturn =>
      dsimp only
      split_ifs
      · exact .woken Call.wake_phase
      · exact before

/-- What every step keeps. -/
theorem overwrite_move_wakeups (before : WakeupsOwed s) (moves : OverwriteMove s action next) :
    WakeupsOwed next := by
  refine ⟨overwrite_move_bounded before.bounded moves, ?_, ?_⟩
  · cases wakes : s.wakesReadWq action with
    | true => exact fun sleeps => absurd sleeps (overwrite_wakes_readers moves wakes)
    | false =>
        exact (overwrite_move_readers before.readers moves).supplied
          (overwrite_supplies_data before.bounded moves wakes)
  · cases wakes : s.wakesWriteWq action with
    | true => exact fun sleeps => absurd sleeps (overwrite_wakes_writers moves wakes)
    | false =>
        exact (overwrite_move_writers before.writers moves).supplied
          (overwrite_supplies_room before.bounded moves wakes)

end step

theorem overwrite_start_wakeups : WakeupsOwed overwrite.start := by
  refine ⟨by decide, ?_, ?_⟩
  · intro sleeps
    rcases sleeps with ⟨call, present, _⟩
    cases present
  · intro sleeps
    rcases sleeps with ⟨call, present, _⟩
    cases present

theorem reachable_overwrite_wakeups {s : Overwrite} (reached : overwrite.Reachable s) :
    WakeupsOwed s := by
  apply reached.invariant WakeupsOwed overwrite_start_wakeups
  intro s action next before taken
  exact overwrite_move_wakeups before (overwrite_moves taken)

/-- Nobody sleeps beside data or beside room, unless the one who has brought it is between
its unlock and its wake-up. -/
theorem overwrite_wakeups_owed (s : Overwrite) (reached : overwrite.Reachable s) :
    (Sleeps s.readers → s.fifo ≠ [] → s.irqWaking = true ∨ Owes s.writers) ∧
      (Sleeps s.writers → s.fifo.length ≠ fifoSize → Owes s.readers) := by
  have kept := reachable_overwrite_wakeups reached
  exact ⟨kept.readers, kept.writers⟩

/-- A reader asleep, and the handler behind its unlock. -/
theorem overwrite_wakeups_owed_irq :
    ∃ s : Overwrite, Sleeps s.readers ∧ s.fifo ≠ [] ∧ (s.irqWaking = true ∨ Owes s.writers) := by
  rcases StepSystem.reachable_of_run overwrite
    [.read 1 false, .reader 0 false 1, .reader 0 false 1, .reader 0 false 1, .reader 0 false 1,
      .irq 1]
    (fun s => decide (s = ⟨[1], true, [.waiting 1 false .asleep], []⟩)) (by decide)
    with ⟨s, reached, passes⟩
  have same := of_decide_eq_true passes
  have sleeps : Sleeps s.readers := by
    rw [same]
    exact ⟨_, List.mem_singleton_self _, rfl⟩
  have data : s.fifo ≠ [] := by
    rw [same]
    nofun
  exact ⟨s, sleeps, data, (overwrite_wakeups_owed s reached).1 sleeps data⟩

/-- What an action adds to the ledger of the fifo. -/
def overwriteLedger (s : Overwrite) (action : OverwriteAction) (_ : Overwrite)
    (ledger : QueueLedger (BitVec 8)) : QueueLedger (BitVec 8) :=
  match action with
  | .irq val =>
      (ledger.drop (s.fifo.take (if s.fifo.length = fifoSize then 1 else 0))).accept [val]
  | .reader i _ room =>
      match s.readers[i]? with
      | some (.copying len) => ledger.deliver (s.fifo.take (mydevRead.copy s.fifo len room).2.2)
      | _ => ledger
  | .writer i _ readable =>
      match s.writers[i]? with
      | some (.copying buf) =>
          ledger.accept (buf.take ((mydevWriteCall false).copy s.fifo buf readable).2.2)
      | _ => ledger
  | _ => ledger

def overwriteObserved : StepSystem (Overwrite × QueueLedger (BitVec 8)) OverwriteAction :=
  overwrite.observe QueueLedger.empty overwriteLedger

/-- The fifo is what the ledger says. -/
structure Recorded (s : Overwrite × QueueLedger (BitVec 8)) : Prop where
  bounded : s.1.fifo.length ≤ fifoSize
  kept : s.2.Kept s.1.fifo

theorem overwrite_move_recorded {s next : Overwrite} {action : OverwriteAction}
    {ledger : QueueLedger (BitVec 8)} (before : Recorded (s, ledger))
    (moves : OverwriteMove s action next) :
    Recorded (next, overwriteLedger s action next ledger) := by
  have bounded := before.bounded
  have kept := before.kept
  dsimp only at bounded kept
  refine ⟨overwrite_move_bounded bounded moves, ?_⟩
  cases moves with
  | irq val =>
      dsimp only [overwriteLedger]
      rw [overwrite_on_full s.fifo val bounded]
      exact (kept.drop _).accept [val]
  | @reader i signalled room call moved after here move =>
      dsimp only [overwriteLedger]
      rw [here]
      cases move with
      | waits _ _ _ unpassed =>
          cases call with
          | copying request => cases unpassed
          | _ => exact kept
      | copies request =>
          dsimp only
          rw [(read_copies s.fifo request room).1]
          exact kept.deliver _
  | @writer i signalled readable call moved after here move =>
      dsimp only [overwriteLedger]
      rw [here]
      cases move with
      | waits _ _ _ unpassed =>
          cases call with
          | copying request => cases unpassed
          | _ => exact kept
      | copies request =>
          dsimp only
          rw [(write_copies bounded false request readable).1]
          exact kept.accept _
  | _ => exact kept

/-- In every run the bytes that have been read, with those still queued behind them, are what
the handler and the writers have put in, in that order, less what the handler has dropped. -/
theorem overwrite_reads_accepted (s : Overwrite) (ledger : QueueLedger (BitVec 8))
    (reached : overwriteObserved.Reachable (s, ledger)) :
    (ledger.delivered ++ s.fifo).Sublist ledger.accepted ∧
      ledger.accepted.Perm (ledger.delivered ++ s.fifo ++ ledger.dropped) ∧
      (ledger.delivered ++ s.fifo = ledger.accepted ↔ ledger.dropped = []) := by
  have recorded : Recorded (s, ledger) := by
    apply reached.invariant Recorded
    · exact ⟨by decide, QueueLedger.empty_kept⟩
    · apply StepSystem.observe_preserved
      intro state action next ledger before taken
      exact overwrite_move_recorded before (overwrite_moves taken)
  exact ⟨recorded.kept.ordered, recorded.kept.conserved, recorded.kept.lossless_iff⟩

/-- Two interrupts and a write, of which a read has taken the first two bytes. -/
theorem overwrite_reads_accepted_three :
    ([1, 0] ++ [0x41] : List (BitVec 8)).Sublist [1, 0, 0x41] := by
  rcases StepSystem.reachable_of_run overwriteObserved
    [.irq 1, .irqWake, .irq 0, .write [0x41] false, .writer 0 false 1, .writer 0 false 1,
      .read 2 false, .reader 0 false 2, .reader 0 false 2]
    (fun s => decide (s.1.fifo = [0x41] ∧ s.2 = ⟨[1, 0, 0x41], [1, 0], []⟩)) (by decide)
    with ⟨s, reached, passes⟩
  rcases of_decide_eq_true passes with ⟨fifo, ledger⟩
  have kept := (overwrite_reads_accepted s.1 s.2 reached).1
  rw [fifo, ledger] at kept
  exact kept

/-- No read begins before the one in front of it has returned. -/
def ReadsAlone (s : Overwrite) : OverwriteAction → Prop
  | .read _ _ => ∀ call ∈ s.readers, call.live = false
  | _ => True

instance (s : Overwrite) (action : OverwriteAction) : Decidable (ReadsAlone s action) := by
  unfold ReadsAlone
  split <;> infer_instance

/-- What the others do leaves data where there was some. -/
theorem overwrite_keeps_data {s next : Overwrite} {action : OverwriteAction}
    (bounded : s.fifo.length ≤ fifoSize) (moves : OverwriteMove s action next)
    (other : ∀ i signalled room, action ≠ .reader i signalled room)
    (data : mydevRead.blocked s.fifo = false) : mydevRead.blocked next.fifo = false := by
  cases moves with
  | irq val =>
      apply supplied_opens _ data
      rw [overwrite_length val bounded]
      omega
  | reader => exact absurd rfl (other _ _ _)
  | @writer i signalled readable call moved after here move =>
      cases move with
      | waits => exact data
      | copies request =>
          have copied := write_copies bounded false request readable
          apply supplied_opens _ data
          dsimp only
          omega
  | _ => exact data

theorem overwrite_move_served {s next : Overwrite} {action : OverwriteAction}
    (bounded : s.fifo.length ≤ fifoSize) (served : Served mydevRead Asks s.fifo s.readers)
    (alone : ReadsAlone s action) (moves : OverwriteMove s action next) :
    Served mydevRead Asks next.fifo next.readers := by
  have supplied (other : ∀ i signalled room, action ≠ .reader i signalled room) :
      Served mydevRead Asks next.fifo s.readers :=
    served.supplied (overwrite_keeps_data bounded moves other)
  cases moves with
  | irq | write | writer | writerSignal => exact supplied (by nofun)
  | irqWake => exact served.woken
  | read => exact served.joined alone rfl
  | @reader i signalled room call moved after here move =>
      exact served.advanced here move fun len passed asks => read_answers passed asks room
  | readerSignal here | readerReturn here => exact served.set here rfl (by nofun) (by nofun)
  | writerReturn =>
      dsimp only
      split_ifs
      · exact served.woken
      · exact served

/-- Whatever has been before, a read by itself that has asked for something never comes back
with the zero of an end of file: what it has seen in the fifo is still there under the lock. -/
theorem overwrite_read_alone_answers (s : Overwrite) (reached : overwrite.Reachable s)
    (finished : ∀ call ∈ s.readers, call.live = false) (actions : List OverwriteAction)
    (final : Overwrite) (run : (overwrite.restrict ReadsAlone).runFrom s actions = some final)
    (len copied : Nat) (ret : Int) (there : .copied len copied ret ∈ final.readers)
    (asked : 0 < len) : callResult copied ret ≠ 0 := by
  have kept : WakeupsOwed final ∧ Served mydevRead Asks final.fifo final.readers := by
    refine StepSystem.run_from_invariant
      (fun s => WakeupsOwed s ∧ Served mydevRead Asks s.fifo s.readers) ?_
      ⟨reachable_overwrite_wakeups reached, Served.idle mydevRead Asks s.fifo finished⟩ run
    apply StepSystem.restrict_preserved
    intro state action next before alone taken
    have moves := overwrite_moves taken
    exact ⟨overwrite_move_wakeups before.1 moves,
      overwrite_move_served before.1.bounded before.2 alone moves⟩
  exact kept.2.answered len copied ret there asked

/-- Behind two reads that have been under way together. -/
theorem overwrite_read_alone_answers_one : callResult 1 0 ≠ 0 := by
  have first : overwrite.Reachable ⟨[], false, [.returned eagain, .returned eagain], []⟩ :=
    ⟨[.read 4 true, .read 4 true, .reader 0 false 4, .reader 1 false 4], by decide⟩
  have run : (overwrite.restrict ReadsAlone).runFrom
      ⟨[], false, [.returned eagain, .returned eagain], []⟩
      [.irq 1, .read 4 false, .reader 2 false 4, .reader 2 false 4] =
      some ⟨[], true, [.returned eagain, .returned eagain, .copied 4 1 0], []⟩ := by decide
  exact overwrite_read_alone_answers _ first (by decide) _ _ run 4 1 0 (by decide) (by decide)

/-- Two readers that both see one byte: the second comes back with zero. -/
theorem overwrite_reads_together_zero :
    ∃ s, overwrite.Reachable s ∧ Call.copied 4 0 0 ∈ s.readers := by
  rcases StepSystem.reachable_of_run overwrite
    [.irq 1, .read 4 false, .read 4 false, .reader 0 false 4, .reader 1 false 4,
      .reader 0 false 4, .reader 1 false 4]
    (fun s => decide (.copied 4 0 0 ∈ s.readers)) (by decide) with ⟨s, reached, passes⟩
  exact ⟨s, reached, of_decide_eq_true passes⟩

end Testings.Kfifo
