import Testings.KfifoRxTx
import Testings.StepSystem

/-!
# A full transmit fifo that nobody empties

Every write that fills `tx_fifo` schedules the work, so a full fifo has its work to come;
only `cancel_work_sync` in the last release of `kfifo_rxtx.c` can take it back or refuse it
and leave the bytes. From then on no write gets as far as the `schedule_work` that would
empty the fifo again.
-/

set_option autoImplicit false

namespace Testings.Kfifo

/-- On the way to `schedule_work`: in front of its copy, or behind one that has not faulted. -/
def Call.schedules {Request : Type} : Call Request → Bool
  | .copying _ => true
  | .copied _ _ ret => ret = 0
  | _ => false

@[simp] theorem Call.wake_schedules {Request : Type} (call : Call Request) :
    call.wake.schedules = call.schedules := by
  cases call <;> rfl

theorem Call.unpassed_schedules {Request : Type} {call : Call Request}
    (unpassed : call.passed = false) : call.schedules = false := by
  cases call with
  | copying request => cases unpassed
  | copied request copied ret => cases unpassed
  | _ => rfl

def Schedules (calls : List (Call (List (BitVec 8)))) : Prop :=
  ∃ call ∈ calls, call.schedules = true

instance (calls : List (Call (List (BitVec 8)))) : Decidable (Schedules calls) :=
  inferInstanceAs (Decidable (∃ call ∈ calls, _))

def TxWork.drains : TxWork → Bool
  | .draining _ => true
  | _ => false

def Promised (s : RxTx) : Prop :=
  s.txFifo.length = fifoSize →
    s.pending = true ∨ s.work.drains = true ∨ Schedules s.writers

/-- Full, nothing scheduled, and no write that could. -/
structure Wedged (s : RxTx) : Prop where
  full : s.txFifo.length = fifoSize
  unscheduled : s.pending = false
  undrained : s.work.drains = false
  stuck : ¬Schedules s.writers

/-- Behind a full fifo, which the work is not draining, `cancel_work_sync` begins when no write
is about to schedule the work, or the only write that is finds it cancelled. -/
def LosesWork (s : RxTx) : RxTxAction → Prop
  | .cancelWork =>
      s.txFifo.length = fifoSize ∧ s.work.drains = false ∧ ¬Schedules s.writers
  | .writerReturn i =>
      s.txFifo.length = fifoSize ∧ s.work.drains = false ∧ 0 < s.cancelling ∧
        ¬Schedules (s.writers.eraseIdx i)
  | _ => False

instance (s : RxTx) : (action : RxTxAction) → Decidable (LosesWork s action)
  | .cancelWork => inferInstanceAs (Decidable (_ ∧ _ ∧ ¬_))
  | .writerReturn _ => inferInstanceAs (Decidable (_ ∧ _ ∧ _ ∧ ¬_))
  | .opening _ | .cancelled | .irq _ | .irqWake | .read _ _ | .reader _ _ _ | .readerSignal _
  | .readerReturn _ | .write _ _ | .writer _ _ _ | .writerSignal _ | .workStart | .workByte
  | .workWake => inferInstanceAs (Decidable False)

/-- What the steps keep of the work and of the writes behind their copies. -/
structure RxTxInOrder (s : RxTx) : Prop where
  refused : 0 < s.cancelling → s.pending = false
  results : ∀ buf copied ret, Call.copied buf copied ret ∈ s.writers → ret ≤ 0

section step

variable {s next : RxTx} {action : RxTxAction}

/-- The promise is broken exactly where the device is wedged. -/
theorem promised_iff_unwedged : Promised s ↔ ¬Wedged s := by
  constructor
  · intro promised wedged
    rcases promised wedged.full with pending | drains | schedules
    · rw [wedged.unscheduled] at pending
      cases pending
    · rw [wedged.undrained] at drains
      cases drains
    · exact wedged.stuck schedules
  · intro unwedged full
    by_contra broken
    rw [not_or, not_or] at broken
    exact unwedged
      ⟨full, eq_false_of_ne_true broken.1, eq_false_of_ne_true broken.2.1, broken.2.2⟩

theorem schedules_woken {calls : List (Call (List (BitVec 8)))} :
    Schedules (calls.map Call.wake) ↔ Schedules calls := by
  simp [Schedules]

/-- Another write moves. -/
theorem schedules_set {calls : List (Call (List (BitVec 8)))} {i : Nat}
    {call moved : Call (List (BitVec 8))} (here : calls[i]? = some call)
    (other : call.schedules = false) (schedules : Schedules calls) :
    Schedules (calls.set i moved) := by
  rcases schedules with ⟨scheduling, present, about⟩
  rcases List.mem_iff_getElem?.mp present with ⟨j, there⟩
  have apart : i ≠ j := by
    intro same
    rw [← same, here] at there
    cases there
    rw [other] at about
    cases about
  refine ⟨scheduling, List.mem_of_getElem? (i := j) ?_, about⟩
  rw [List.getElem?_set_ne apart]
  exact there

theorem schedules_other {calls : List (Call (List (BitVec 8)))} {i : Nat}
    {moved : Call (List (BitVec 8))} (others : Schedules (calls.eraseIdx i)) :
    Schedules (calls.set i moved) := by
  rcases others with ⟨call, present, about⟩
  rcases List.mem_eraseIdx_iff_getElem?.mp present with ⟨j, apart, there⟩
  refine ⟨call, List.mem_of_getElem? (i := j) ?_, about⟩
  rw [List.getElem?_set_ne (Ne.symm apart)]
  exact there

theorem schedules_set_other {calls : List (Call (List (BitVec 8)))} {i : Nat}
    {moved : Call (List (BitVec 8))} (still : moved.schedules = false)
    (schedules : Schedules (calls.set i moved)) : Schedules (calls.eraseIdx i) := by
  rcases schedules with ⟨call, present, about⟩
  rcases List.mem_iff_getElem?.mp present with ⟨j, there⟩
  by_cases same : i = j
  · have bound := (List.getElem?_eq_some_iff.mp there).1
    rw [List.length_set] at bound
    rw [same, List.getElem?_set_self bound] at there
    rw [← Option.some.inj there, still] at about
    cases about
  · rw [List.getElem?_set_ne same] at there
    exact ⟨call, List.mem_eraseIdx_iff_getElem?.mpr ⟨j, Ne.symm same, there⟩, about⟩

/-- A write that is not about to schedule the work moves, and still is not. -/
theorem unscheduled_set {calls : List (Call (List (BitVec 8)))} {i : Nat}
    {moved : Call (List (BitVec 8))} (still : moved.schedules = false)
    (stuck : ¬Schedules calls) : ¬Schedules (calls.set i moved) := by
  rintro ⟨call, present, about⟩
  rcases List.mem_or_eq_of_mem_set present with old | same
  · exact stuck ⟨call, old, about⟩
  · rw [same, still] at about
    cases about

theorem rxtx_move_in_order (before : RxTxInOrder s) (moves : RxTxMove s action next) :
    RxTxInOrder next := by
  rcases before with ⟨refused, results⟩
  have woken : ∀ buf copied ret, Call.copied buf copied ret ∈ s.writers.map Call.wake →
      ret ≤ 0 := by
    intro buf copied ret present
    rcases List.mem_map.mp present with ⟨call, there, same⟩
    cases call with
    | copied buf' copied' ret' =>
        cases same
        exact results _ _ _ there
    | _ => cases same
  have moved {i : Nat} {call : Call (List (BitVec 8))}
      (fails : ∀ buf copied ret, call = .copied buf copied ret → ret ≤ 0) :
      ∀ buf copied ret, Call.copied buf copied ret ∈ s.writers.set i call → ret ≤ 0 := by
    intro buf copied ret present
    rcases List.mem_or_eq_of_mem_set present with old | same
    · exact results buf copied ret old
    · exact fails buf copied ret same.symm
  cases moves with
  | cancelWork => exact ⟨fun _ => rfl, results⟩
  | cancelled waited idle => exact ⟨fun _ => refused waited, results⟩
  | readerReturn here =>
      refine ⟨refused, ?_⟩
      dsimp only
      split_ifs
      · exact woken
      · exact results
  | write buf nonblock =>
      refine ⟨refused, ?_⟩
      intro buf copied ret present
      rcases List.mem_append.mp present with old | fresh
      · exact results buf copied ret old
      · have same := List.mem_singleton.mp fresh
        split_ifs at same
  | writer here move =>
      refine ⟨refused, moved ?_⟩
      cases move with
      | waits _ _ _ _ _ _ uncopied => exact fun buf copied ret same => absurd same (uncopied _ _ _)
      | copies request =>
          intro buf copied ret same
          cases same
          unfold mydevWriteCall kfifoFromUser efault
          dsimp only
          split_ifs <;> decide
  | writerSignal => exact ⟨refused, moved (by nofun)⟩
  | writerReturn here =>
      refine ⟨?_, moved (by nofun)⟩
      intro cancelling
      dsimp only at cancelling ⊢
      rw [if_neg (fun done => by omega)]
      exact refused cancelling
  | workStart => exact ⟨fun _ => rfl, results⟩
  | workWake waking =>
      refine ⟨refused, ?_⟩
      dsimp only
      split_ifs
      · exact woken
      · exact results
  | _ => exact ⟨refused, results⟩

/-- A copy that fills the fifo has found all its bytes. -/
theorem full_copy_succeeds {fifo buf : List (BitVec 8)} {readable : Nat}
    (bounded : fifo.length ≤ fifoSize)
    (full : ((mydevWriteCall true).copy fifo buf readable).1.length = fifoSize) :
    ((mydevWriteCall true).copy fifo buf readable).2.1 = 0 := by
  unfold mydevWriteCall kfifoFromUser at full ⊢
  dsimp only at full ⊢
  rw [List.length_append, List.length_take] at full
  rw [if_neg (by omega)]

theorem rxtx_move_promised (bounded : s.txFifo.length ≤ fifoSize) (before : Promised s)
    (keeps : ¬LosesWork s action) (moves : RxTxMove s action next) : Promised next := by
  -- most steps leave the fifo and the work as they are
  have still {writers : List (Call (List (BitVec 8)))}
      (schedules : Schedules s.writers → Schedules writers)
      (full : s.txFifo.length = fifoSize) :
      s.pending = true ∨ s.work.drains = true ∨ Schedules writers :=
    (before full).imp_right (Or.imp_right schedules)
  cases moves with
  | opening | cancelled | irq | irqWake | read | reader | readerSignal => exact before
  | cancelWork =>
      intro full
      by_contra broken
      rw [not_or, not_or] at broken
      exact keeps ⟨full, eq_false_of_ne_true broken.2.1, broken.2.2⟩
  | readerReturn here =>
      apply still
      split_ifs
      · exact schedules_woken.mpr
      · exact id
  | write buf nonblock =>
      apply still
      rintro ⟨call, present, about⟩
      exact ⟨call, List.mem_append_left _ present, about⟩
  | @writer i signalled readable call moved after here move =>
      cases move with
      | waits _ _ _ unpassed =>
          exact still (schedules_set here (Call.unpassed_schedules unpassed))
      | copies request =>
          -- the write that has just filled the fifo is about to schedule the work
          intro full
          have success := full_copy_succeeds bounded full
          have bound := (List.getElem?_eq_some_iff.mp here).1
          exact .inr (.inr ⟨_, List.mem_set bound _, decide_eq_true success⟩)
  | writerSignal here awake => exact still (schedules_set here rfl)
  | @writerReturn i copied buf ret here =>
      intro full
      by_cases done : ret = 0 ∧ s.cancelling = 0
      · exact .inl (if_pos done)
      · dsimp only
        rw [if_neg done]
        by_cases success : ret = 0
        · have cancelling : 0 < s.cancelling := Nat.pos_of_ne_zero fun none => done ⟨success, none⟩
          by_contra broken
          rw [not_or, not_or] at broken
          refine keeps ⟨full, eq_false_of_ne_true broken.2.1, cancelling, fun others => ?_⟩
          exact broken.2.2 (schedules_other others)
        · exact still (schedules_set here (decide_eq_false success)) full
  | workStart pending idle => exact fun _ => .inr (.inl rfl)
  | workEmpty draining empty =>
      intro full
      dsimp only at full
      rw [empty] at full
      cases full
  | workByte draining queued => exact fun _ => .inr (.inl rfl)
  | @workWake got waking =>
      intro full
      rcases before full with pending | drains | about
      · exact .inl pending
      · rw [waking] at drains
        cases drains
      · refine .inr (.inr ?_)
        dsimp only
        split_ifs
        · exact schedules_woken.mpr about
        · exact about

theorem loses_work_wedges (inOrder : RxTxInOrder s) (loses : LosesWork s action)
    (moves : RxTxMove s action next) : Wedged next := by
  cases moves with
  | cancelWork =>
      rcases loses with ⟨full, undrained, stuck⟩
      exact ⟨full, rfl, undrained, stuck⟩
  | @writerReturn i copied buf ret here =>
      rcases loses with ⟨full, undrained, cancelling, others⟩
      refine ⟨full, ?_, undrained, ?_⟩
      · dsimp only
        rw [if_neg (fun done => by omega)]
        exact inOrder.refused cancelling
      · exact fun schedules => others (schedules_set_other rfl schedules)
  | _ => cases loses

/-- What does not move any more: nothing is sent, and no write has a number to return. -/
structure Frozen (s next : RxTx) : Prop where
  txFifo : next.txFifo = s.txFifo
  sent : next.sent = s.sent
  written : ∀ (i : Nat) (ret : Int), 0 < ret →
    next.writers[i]? = some (.returned ret) → s.writers[i]? = some (.returned ret)

theorem Frozen.refl (s : RxTx) : Frozen s s := ⟨rfl, rfl, fun _ _ _ there => there⟩

theorem Frozen.trans {first second third : RxTx} (one : Frozen first second)
    (two : Frozen second third) : Frozen first third where
  txFifo := two.txFifo.trans one.txFifo
  sent := two.sent.trans one.sent
  written i ret positive there := one.written i ret positive (two.written i ret positive there)

theorem wedged_move (inOrder : RxTxInOrder s) (wedged : Wedged s)
    (moves : RxTxMove s action next) : Wedged next ∧ Frozen s next := by
  rcases wedged with ⟨full, unscheduled, undrained, stuck⟩
  have same : ∀ (i : Nat) (ret : Int), 0 < ret → s.writers[i]? = some (.returned ret) →
      s.writers[i]? = some (.returned ret) := fun _ _ _ there => there
  have woken : ∀ (i : Nat) (ret : Int), 0 < ret →
      (s.writers.map Call.wake)[i]? = some (.returned ret) →
      s.writers[i]? = some (.returned ret) := fun _ _ _ there => returned_woken there
  cases moves with
  | opening | cancelled | irq | irqWake | read | reader | readerSignal =>
      exact ⟨⟨full, unscheduled, undrained, stuck⟩, rfl, rfl, same⟩
  | cancelWork => exact ⟨⟨full, rfl, undrained, stuck⟩, rfl, rfl, same⟩
  | readerReturn here =>
      split_ifs
      · exact ⟨⟨full, unscheduled, undrained, mt schedules_woken.mp stuck⟩, rfl, rfl, woken⟩
      · exact ⟨⟨full, unscheduled, undrained, stuck⟩, rfl, rfl, same⟩
  | write buf nonblock =>
      refine ⟨⟨full, unscheduled, undrained, ?_⟩, rfl, rfl, ?_⟩
      · rintro ⟨call, present, about⟩
        rcases List.mem_append.mp present with old | fresh
        · exact stuck ⟨call, old, about⟩
        · rw [List.mem_singleton.mp fresh] at about
          split_ifs at about <;> cases about
      · intro i ret positive there
        refine returned_append ?_ positive there
        intro early same
        split_ifs at same
        cases same
        exact Int.le_refl 0
  | @writer i signalled readable call moved after here move =>
      have blocked : (mydevWriteCall true).blocked s.txFifo = true := decide_eq_true full
      cases move with
      | waits _ _ _ _ _ passes uncopied fails =>
          have unpassed : moved.schedules = false := by
            cases moved with
            | copying request =>
                have opened := passes request rfl
                rw [blocked] at opened
                cases opened
            | copied request copied ret => exact absurd rfl (uncopied request copied ret)
            | _ => rfl
          exact ⟨⟨full, unscheduled, undrained, unscheduled_set unpassed stuck⟩, rfl, rfl,
            fun j ret => returned_set fun ret same => Int.le_of_lt (fails ret same)⟩
      | copies request => exact absurd ⟨_, List.mem_of_getElem? here, rfl⟩ stuck
  | @writerSignal i buf nonblock phase later here awake =>
      exact ⟨⟨full, unscheduled, undrained, unscheduled_set rfl stuck⟩, rfl, rfl,
        fun j ret => returned_set (by nofun)⟩
  | @writerReturn i copied buf ret here =>
      have present := List.mem_of_getElem? here
      have faulted : ret ≠ 0 := fun success => stuck ⟨_, present, decide_eq_true success⟩
      have negative := inOrder.results buf copied ret present
      have kept : (if ret = 0 ∧ s.cancelling = 0 then true else s.pending) = s.pending :=
        if_neg fun done => faulted done.1
      refine ⟨⟨full, kept.trans unscheduled, undrained, unscheduled_set rfl stuck⟩, rfl, rfl, ?_⟩
      intro j result
      apply returned_set
      intro result returned
      cases returned
      rw [callResult, if_pos faulted]
      exact negative
  | workStart pending =>
      rw [unscheduled] at pending
      cases pending
  | workEmpty draining =>
      rw [draining] at undrained
      cases undrained
  | workByte draining =>
      rw [draining] at undrained
      cases undrained
  | workWake waking =>
      split_ifs
      · exact ⟨⟨full, unscheduled, rfl, mt schedules_woken.mp stuck⟩, rfl, rfl, woken⟩
      · exact ⟨⟨full, unscheduled, rfl, stuck⟩, rfl, rfl, same⟩

end step

theorem rxtx_start_wakeups : RxTxWakeups rxtx.start := by
  refine ⟨by decide, by decide, ?_, ?_⟩
  · intro sleeps
    rcases sleeps with ⟨call, present, _⟩
    cases present
  · intro sleeps
    rcases sleeps with ⟨call, present, _⟩
    cases present

theorem rxtx_start_in_order : RxTxInOrder rxtx.start := by
  refine ⟨fun _ => rfl, ?_⟩
  intro buf copied ret present
  cases present

theorem rxtx_start_promised : Promised rxtx.start := fun full => by cases full

theorem reachable_rxtx_wakeups {s : RxTx} (reached : rxtx.Reachable s) : RxTxWakeups s := by
  apply reached.invariant RxTxWakeups rxtx_start_wakeups
  intro s action next before taken
  exact rxtx_move_wakeups before (rxtx_moves taken)

theorem reachable_rxtx_in_order {s : RxTx} (reached : rxtx.Reachable s) : RxTxInOrder s := by
  apply reached.invariant RxTxInOrder rxtx_start_in_order
  intro s action next before taken
  exact rxtx_move_in_order before (rxtx_moves taken)

/-- As long as no `cancel_work_sync` takes the work away from a full fifo, nobody waits for
nothing: a reader asleep beside data is about to be woken by the handler; a writer asleep is
about to be woken by the work where there is room, and where there is none the work is
pending, in its loop, or about to be scheduled by a write. -/
theorem rxtx_wakeups_owed (s : RxTx)
    (reached : (rxtx.restrict fun s action => ¬LosesWork s action).Reachable s) :
    (Sleeps s.readers → s.rxFifo ≠ [] → s.irqWaking = true) ∧
      (Sleeps s.writers → s.txFifo.length ≠ fifoSize → s.work.owes = true) ∧
      (s.txFifo.length = fifoSize →
        s.pending = true ∨ s.work.drains = true ∨ Schedules s.writers) := by
  have kept : RxTxWakeups s ∧ Promised s := by
    apply reached.invariant fun s => RxTxWakeups s ∧ Promised s
    · exact ⟨rxtx_start_wakeups, rxtx_start_promised⟩
    · apply StepSystem.restrict_preserved
      intro state action next before keeps taken
      have moves := rxtx_moves taken
      exact ⟨rxtx_move_wakeups before.1 moves,
        rxtx_move_promised before.1.txBounded before.2 keeps moves⟩
  exact ⟨kept.1.readers, kept.1.writers, kept.2⟩

/-- A reader asleep that the handler is about to wake, and a full fifo behind a write that is
about to schedule the work while an earlier release is in front of its `cancel_work_sync`. -/
theorem rxtx_wakeups_owed_reopened :
    ∃ s : RxTx, Sleeps s.readers ∧ s.rxFifo = [1] ∧ s.irqWaking = true ∧
      s.txFifo.length = fifoSize ∧ s.releasing = 1 ∧
      (s.pending = true ∨ s.work.drains = true ∨ Schedules s.writers) := by
  rcases StepSystem.reachable_of_run (rxtx.restrict fun s action => ¬LosesWork s action)
    [.opening .openCount, .opening (.requestIrq true), .opening .releaseCount, .opening .freeIrq,
      .opening .openCount, .opening (.requestIrq true), .read 1 false, .reader 0 false 1,
      .reader 0 false 1, .reader 0 false 1, .reader 0 false 1, .irq 1,
      .write (List.replicate 1024 0x55) false, .writer 0 false 1024, .writer 0 false 1024]
    (fun s => decide (s.rxFifo = [1] ∧ s.readers = [.waiting 1 false .asleep] ∧
      s.txFifo.length = 1024 ∧ s.releasing = 1)) (by decide +kernel)
    with ⟨s, reached, passes⟩
  rcases of_decide_eq_true passes with ⟨data, readers, full, releasing⟩
  have owed := rxtx_wakeups_owed s reached
  have sleeps : Sleeps s.readers := by
    rw [readers]
    exact ⟨_, List.mem_singleton_self _, rfl⟩
  exact ⟨s, sleeps, data, owed.1 sleeps (by rw [data]; exact List.cons_ne_nil _ _), full,
    releasing, owed.2.2 full⟩

/-- The device becomes wedged when `cancel_work_sync` takes the work away from a full fifo, by
that always and by nothing else, and it stays so: whatever is opened, read, written or released
afterwards, nothing more is sent and no write returns a number of bytes. -/
theorem wedged_by_cancelled_work (s : RxTx) (reached : rxtx.Reachable s) :
    (∀ action next, rxtx.step s action = some next →
        (Wedged next ↔ Wedged s ∨ LosesWork s action)) ∧
      (Wedged s → ∀ actions final, rxtx.runFrom s actions = some final →
        Wedged final ∧ Frozen s final) := by
  have inOrder := reachable_rxtx_in_order reached
  constructor
  · intro action next taken
    have moves := rxtx_moves taken
    constructor
    · intro wedged
      by_contra other
      rw [not_or] at other
      have bounded := (reachable_rxtx_wakeups reached).txBounded
      have promised := promised_iff_unwedged.mpr other.1
      have kept := rxtx_move_promised bounded promised other.2 moves
      exact promised_iff_unwedged.mp kept wedged
    · intro cause
      rcases cause with wedged | loses
      · exact (wedged_move inOrder wedged moves).1
      · exact loses_work_wedges inOrder loses moves
  · intro wedged actions final run
    have kept : RxTxInOrder final ∧ Wedged final ∧ Frozen s final := by
      refine StepSystem.run_from_invariant
        (fun later => RxTxInOrder later ∧ Wedged later ∧ Frozen s later) ?_
        ⟨inOrder, wedged, Frozen.refl s⟩ run
      intro state action next before taken
      have moves := rxtx_moves taken
      rcases wedged_move before.1 before.2.1 moves with ⟨later, frozen⟩
      exact ⟨rxtx_move_in_order before.1 moves, later, before.2.2.trans frozen⟩
    exact kept.2

/-- The last release is overtaken by an open and a write of a fifo's size, whose work it then
takes back. -/
theorem wedged_by_cancelled_work_overtaken :
    ∃ s, rxtx.Reachable s ∧ s.opens.files = 1 ∧
      ∀ actions final, rxtx.runFrom s actions = some final → Wedged final ∧ Frozen s final := by
  rcases StepSystem.reachable_of_run rxtx
    [.opening .openCount, .opening (.requestIrq true), .opening .releaseCount, .opening .freeIrq,
      .opening .openCount, .opening (.requestIrq true), .write (List.replicate 1024 0x55) false,
      .writer 0 false 1024, .writer 0 false 1024, .writerReturn 0]
    (fun s => decide (s.opens.files = 1 ∧ s.txFifo.length = 1024 ∧ s.releasing = 1 ∧
      s.work = .idle ∧ s.writers = [.returned 1024])) (by decide +kernel) with ⟨s, reached, passes⟩
  rcases of_decide_eq_true passes with ⟨opened, full, releasing, idle, writers⟩
  have freed : 0 < s.releasing := by
    rw [releasing]
    decide
  have taken : rxtx.step s .cancelWork = some { s with
      releasing := s.releasing - 1
      cancelling := s.cancelling + 1
      pending := false } := if_pos freed
  have loses : LosesWork s .cancelWork := by
    refine ⟨full, by rw [idle]; rfl, ?_⟩
    rw [writers]
    decide
  have wedged := ((wedged_by_cancelled_work s reached).1 _ _ taken).mpr (.inr loses)
  have later := StepSystem.Reachable.next reached taken
  exact ⟨_, later, opened, (wedged_by_cancelled_work _ later).2 wedged⟩

end Testings.Kfifo
