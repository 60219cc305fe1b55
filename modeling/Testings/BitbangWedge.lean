import Testings.BitbangSleepers

/-!
# Writers that sleep for ever

A writer asleep in front of a full transmit fifo is woken by the callback that takes a byte, so
somebody has to see to it that there will be one: the timer, or the write that has filled the fifo
and is about to start the timer. One test that comes between the decision of the callback to stop
and its return, and nobody does.
-/

set_option autoImplicit false

namespace Testings.Bitbang

/-- Full, the timer not going to look into the fifo, and no write about to start it. -/
structure TxWedged (s : CallDevice) : Prop where
  full : s.uart.txFifo.length = fifoSize
  unlooked : s.timer.looks = false
  unstarted : ¬Kfifo.Owes s.writers
  results : ∀ bytes copied ret, Kfifo.Call.copied bytes copied ret ∈ s.writers → ret ≤ 0

/-- The write that has filled the fifo tests `hrtimer_active` after the callback has decided to
stop and before it has returned, and no other write is left to test again. -/
def TestMissed (s : CallDevice) : CallAction → Prop
  | .writerReturn i =>
      (s.writers[i]?.any fun call => call.owes) = true ∧ s.timer = .returning .norestart ∧
        s.uart.txFifo.length = fifoSize ∧
        ((s.writers.eraseIdx i).all fun call => !call.owes) = true
  | _ => False

instance (s : CallDevice) (action : CallAction) : Decidable (TestMissed s action) := by
  unfold TestMissed
  split <;> infer_instance

section wedge

variable {calls : List (Kfifo.Call (List (BitVec 8)))} {i : Nat}
  {call moved : Kfifo.Call (List (BitVec 8))}

theorem owes_set_iff (here : calls[i]? = some call) (settled : moved.owes = false) :
    Kfifo.Owes (calls.set i moved) ↔ ∃ other ∈ calls.eraseIdx i, other.owes = true := by
  constructor
  · intro owes
    rcases owes with ⟨other, present, owing⟩
    rcases List.mem_iff_getElem?.mp present with ⟨j, there⟩
    by_cases same : i = j
    · rw [← same, List.getElem?_set_self (List.getElem?_eq_some_iff.mp here).1] at there
      cases there
      rw [settled] at owing
      cases owing
    · rw [List.getElem?_set_ne same] at there
      exact ⟨other, List.mem_eraseIdx_iff_getElem?.mpr ⟨j, Ne.symm same, there⟩, owing⟩
  · intro owes
    rcases owes with ⟨other, present, owing⟩
    rcases List.mem_eraseIdx_iff_getElem?.mp present with ⟨j, apart, there⟩
    refine ⟨other, List.mem_of_getElem? (i := j) ?_, owing⟩
    rw [List.getElem?_set_ne apart.symm]
    exact there

theorem unowed_set (unstarted : ¬Kfifo.Owes calls) (settled : moved.owes = false) (i : Nat) :
    ¬Kfifo.Owes (calls.set i moved) := by
  intro owes
  rcases owes with ⟨other, present, owing⟩
  rcases List.mem_or_eq_of_mem_set present with old | same
  · exact unstarted ⟨other, old, owing⟩
  · rw [same, settled] at owing
    cases owing

theorem unowed_copied {bytes : List (BitVec 8)} {copied : Nat} {ret : Int}
    (unstarted : ¬Kfifo.Owes calls) (here : calls[i]? = some (.copied bytes copied ret)) :
    copied = 0 := by
  by_contra some
  exact unstarted ⟨_, List.mem_of_getElem? here, bne_iff_ne.mpr some⟩

end wedge

section step

variable {s next : CallDevice} {action : CallAction}

/-- What does not move any more: no byte leaves the fifo, and no write returns a number of
bytes. -/
structure TxFrozen (s next : CallDevice) : Prop where
  txFifo : next.uart.txFifo = s.uart.txFifo
  written : ∀ (i : Nat) (ret : Int), 0 < ret →
    next.writers[i]? = some (.returned ret) → s.writers[i]? = some (.returned ret)

theorem TxFrozen.refl (s : CallDevice) : TxFrozen s s := ⟨rfl, fun _ _ _ there => there⟩

theorem TxFrozen.trans {first second third : CallDevice} (one : TxFrozen first second)
    (two : TxFrozen second third) : TxFrozen first third where
  txFifo := two.txFifo.trans one.txFifo
  written i ret positive there := one.written i ret positive (two.written i ret positive there)

/-- A step that leaves the transmitter and the writers alone. -/
theorem TxWedged.keep (wedged : TxWedged s) (txFifo : next.uart.txFifo = s.uart.txFifo)
    (timer : next.timer = s.timer) (writers : next.writers = s.writers) :
    TxWedged next ∧ TxFrozen s next := by
  rcases wedged with ⟨full, unlooked, unstarted, results⟩
  refine ⟨⟨?_, ?_, ?_, ?_⟩, txFifo, ?_⟩
  · rw [txFifo]
    exact full
  · rw [timer]
    exact unlooked
  · rw [writers]
    exact unstarted
  · rw [writers]
    exact results
  · intro i ret positive there
    rwa [writers] at there

theorem wedged_move (wedged : TxWedged s) (moves : CallMove s action next) :
    TxWedged next ∧ TxFrozen s next := by
  have unlooked := wedged.unlooked
  cases moves with
  | read | reader | readerSignal | readerReturn | fallingEdge | rxWake =>
      exact wedged.keep rfl rfl rfl
  | rxExpire v => exact wedged.keep (rx_tick_keeps_tx s.uart v).2 rfl rfl
  | @write bytes nonblock fresh awake unpassed fails =>
      refine ⟨⟨wedged.full, unlooked, ?_, ?_⟩, rfl, ?_⟩
      · intro owes
        rcases owes with ⟨call, present, owing⟩
        rcases List.mem_append.mp present with old | same
        · exact wedged.unstarted ⟨call, old, owing⟩
        · rw [List.mem_singleton.mp same, Kfifo.Call.unpassed_free unpassed] at owing
          cases owing
      · intro other copied ret present
        rcases List.mem_append.mp present with old | same
        · exact wedged.results other copied ret old
        · rw [← List.mem_singleton.mp same] at unpassed
          cases unpassed
      · intro i ret positive there
        exact Kfifo.returned_append (fun ret same => Int.le_of_lt (fails ret same)) positive there
  | @writer i signalled readable call moved after here move =>
      have bounded : s.uart.txFifo.length ≤ fifoSize := Nat.le_of_eq wedged.full
      have blocked := (tx_blocked_iff bounded).mpr wedged.full
      cases move with
      | waits _ _ _ _ _ passes uncopied fails =>
          have free : moved.owes = false := by
            cases moved with
            | copied request copied ret => exact absurd rfl (uncopied request copied ret)
            | _ => rfl
          refine ⟨⟨wedged.full, unlooked, unowed_set wedged.unstarted free i,
            results_set wedged.results ?_⟩, rfl, ?_⟩
          · intro bytes copied ret same
            exact absurd same (uncopied bytes copied ret)
          · intro j ret positive there
            exact Kfifo.returned_set (fun ret same => Int.le_of_lt (fails ret same)) positive there
      | copies request =>
          rcases tx_copies bounded request readable with ⟨grown, whole, result, same⟩
          -- a write that has passed its test earlier finds no room
          have nothing : (bitbangTxCall.copy s.uart.txFifo request readable).2.2 = 0 := by
            have full := wedged.full
            omega
          refine ⟨⟨?_, unlooked, unowed_set wedged.unstarted ?_ i,
            results_set wedged.results ?_⟩, same nothing, ?_⟩
          · dsimp only
            rw [same nothing]
            exact wedged.full
          · rw [nothing]
            rfl
          · intro bytes copied ret equal
            cases equal
            exact result
          · intro j ret positive there
            exact Kfifo.returned_set (by nofun) positive there
  | writerSignal here awake =>
      refine ⟨⟨wedged.full, unlooked, unowed_set wedged.unstarted rfl _,
        results_set wedged.results (by nofun)⟩, rfl, ?_⟩
      intro j ret positive there
      exact Kfifo.returned_set (by nofun) positive there
  | @writerReturn i copied bytes ret here =>
      have nothing := unowed_copied wedged.unstarted here
      have result := wedged.results bytes copied ret (List.mem_of_getElem? here)
      have still : (if bitbangTxStarts copied s.timer.active then TxTimer.queued else s.timer) =
          s.timer := by
        rw [nothing]
        rfl
      refine ⟨⟨wedged.full, ?_, unowed_set wedged.unstarted rfl i,
        results_set wedged.results (by nofun)⟩, rfl, ?_⟩
      · dsimp only
        rw [still]
        exact unlooked
      · intro j other positive there
        refine Kfifo.returned_set ?_ positive there
        intro answer same
        cases same
        rw [nothing, Kfifo.callResult]
        split_ifs
        · exact result
        · exact Int.le_refl 0
  | txExpire queued =>
      rw [queued] at unlooked
      cases unlooked
  | txCallback entered =>
      rw [entered] at unlooked
      cases unlooked
  | txWake =>
      refine ⟨⟨wedged.full, unlooked, ?_, results_woken wedged.results⟩, rfl, ?_⟩
      · intro owes
        exact wedged.unstarted (Kfifo.owes_wake.mp owes)
      · intro i ret _ there
        exact Kfifo.returned_woken there
  | @txReturn ret point woken =>
      have stops : ret = .norestart := by
        cases ret with
        | restart =>
            rw [point] at unlooked
            cases unlooked
        | norestart => rfl
      rw [stops]
      exact ⟨⟨wedged.full, rfl, wedged.unstarted, wedged.results⟩, rfl,
        fun _ _ _ there => there⟩

/-- The missed test leaves a full fifo to nobody. -/
theorem missed_test_wedges (owed : SleepersOwed s) (missed : TestMissed s action)
    (taken : callStep s action = some next) : TxWedged next := by
  cases call_moves taken with
  | @writerReturn i copied bytes ret here =>
      rcases missed with ⟨_, stopping, full, alone⟩
      have active : (if bitbangTxStarts copied s.timer.active then TxTimer.queued else s.timer) =
          s.timer := by
        rw [stopping, bitbangTxStarts]
        exact if_neg (by simp [TxTimer.active])
      refine ⟨full, ?_, ?_, results_set owed.results ?_⟩
      · dsimp only
        rw [active, stopping]
        rfl
      · intro owes
        rcases (owes_set_iff here rfl).mp owes with ⟨other, present, owing⟩
        have settled := List.all_eq_true.mp alone other present
        rw [owing] at settled
        cases settled
      · intro other count result same
        cases same
  | _ => cases missed

theorem wedge_cause (owed : SleepersOwed s) (moves : CallMove s action next)
    (wedged : TxWedged next) : TxWedged s ∨ TestMissed s action := by
  have full := wedged.full
  have unlooked := wedged.unlooked
  have unstarted := wedged.unstarted
  cases moves with
  | read | reader | readerSignal | readerReturn | fallingEdge | rxWake =>
      exact .inl ⟨full, unlooked, unstarted, owed.results⟩
  | rxExpire v =>
      dsimp only at full
      rw [(rx_tick_keeps_tx s.uart v).2] at full
      exact .inl ⟨full, unlooked, unstarted, owed.results⟩
  | write =>
      exact .inl ⟨full, unlooked, fun owes => unstarted (Kfifo.owes_append _ owes), owed.results⟩
  | @writer i signalled readable call moved after here move =>
      have free := Kfifo.Transfer.move_free move
      have before : ¬Kfifo.Owes s.writers := fun owes => unstarted (Kfifo.owes_set here free owes)
      cases move with
      | waits => exact .inl ⟨full, unlooked, before, owed.results⟩
      | copies request =>
          rcases tx_copies owed.bounded request readable with ⟨_, _, _, same⟩
          have nothing : (bitbangTxCall.copy s.uart.txFifo request readable).2.2 = 0 := by
            by_contra some
            exact unstarted (Kfifo.owes_set_self here (bne_iff_ne.mpr some))
          dsimp only at full
          rw [same nothing] at full
          exact .inl ⟨full, unlooked, before, owed.results⟩
  | writerSignal here =>
      exact .inl ⟨full, unlooked, fun owes => unstarted (Kfifo.owes_set here rfl owes),
        owed.results⟩
  | @writerReturn i copied bytes ret here =>
      dsimp only at unlooked
      by_cases nothing : copied = 0
      · left
        rw [nothing] at here unlooked
        exact ⟨full, unlooked, fun owes => unstarted (Kfifo.owes_set here rfl owes), owed.results⟩
      · right
        have some : (copied != 0) = true := bne_iff_ne.mpr nothing
        rw [bitbangTxStarts, some, Bool.true_and] at unlooked
        refine ⟨?_, ?_, full, ?_⟩
        · rw [here]
          exact some
        · cases timer : s.timer with
          | returning ret =>
              rw [timer] at unlooked
              cases ret with
              | restart => cases unlooked
              | norestart => rfl
          | _ =>
              rw [timer] at unlooked
              cases unlooked
        · rw [List.all_eq_true]
          intro other present
          rw [Bool.not_eq_true']
          by_contra owing
          exact unstarted ((owes_set_iff here rfl).mpr ⟨other, present, eq_true_of_ne_false owing⟩)
  | txExpire => cases unlooked
  | txCallback entered =>
      dsimp only at full unlooked
      cases ret : (txTimerCb s.uart).ret with
      | restart =>
          rw [ret] at unlooked
          cases unlooked
      | norestart =>
          rw [tick_stops owed.range ret] at full
          cases full
  | txWake =>
      exact .inl ⟨full, unlooked, fun owes => unstarted (Kfifo.owes_wake.mpr owes), owed.results⟩
  | @txReturn ret point woken =>
      left
      cases ret with
      | restart => cases unlooked
      | norestart =>
          refine ⟨full, ?_, unstarted, owed.results⟩
          rw [point]
          rfl

end step

theorem call_start_unwedged (periodMs : BitVec 32) : ¬TxWedged (callDevice periodMs).start := by
  intro wedged
  have full := wedged.full
  rw [call_start_empty] at full
  cases full

/-- No test comes between the decision to stop and the return, or another one follows it, or
there is room left. -/
def NoTestMissed (s : CallDevice) (action : CallAction) : Prop := ¬TestMissed s action

instance (s : CallDevice) (action : CallAction) : Decidable (NoTestMissed s action) :=
  inferInstanceAs (Decidable (¬_))

/-- Without a missed test every writer asleep is about to be woken, or the timer is going to look
into the full fifo, or a write is about to start it. -/
theorem sleeping_writers_served (periodMs : BitVec 32) (s : CallDevice)
    (reached : ((callDevice periodMs).restrict NoTestMissed).Reachable s)
    (sleeps : Kfifo.Sleeps s.writers) :
    s.txWaking = true ∨ s.timer.looks = true ∨ Kfifo.Owes s.writers := by
  have kept : SleepersOwed s ∧ ¬TxWedged s := by
    apply reached.invariant fun s => SleepersOwed s ∧ ¬TxWedged s
    · exact ⟨call_start_owed periodMs, call_start_unwedged periodMs⟩
    · apply StepSystem.restrict_preserved
      intro state action next before allowed taken
      have moves := call_moves taken
      refine ⟨call_move_owed before.1 moves, ?_⟩
      intro wedged
      rcases wedge_cause before.1 moves wedged with already | missed
      · exact before.2 already
      · exact allowed missed
  by_cases room : s.uart.txFifo.length ≠ fifoSize
  · exact .inl (kept.1.writers sleeps room)
  · right
    by_contra nobody
    rw [not_or, Bool.not_eq_true] at nobody
    exact kept.2 ⟨not_not.mp room, nobody.1, nobody.2, kept.1.results⟩

/-- A writer asleep in front of the fifo that another one has filled. -/
theorem sleeping_writers_served_two :
    ∃ s : CallDevice, Kfifo.Sleeps s.writers ∧
      (s.txWaking = true ∨ s.timer.looks = true ∨ Kfifo.Owes s.writers) := by
  rcases ((callDevice 10).restrict NoTestMissed).reachable_of_run
    [.write (List.replicate 1024 0x55) false, .writer 0 false 1024, .writer 0 false 1024,
      .write [1] false, .writer 1 false 1, .writer 1 false 1, .writer 1 false 1,
      .writer 1 false 1, .writerReturn 0]
    (fun s => decide (s.writers = [.returned 1024, .waiting [1] false .asleep]))
    (by decide +kernel) with ⟨s, reached, passes⟩
  have writers := of_decide_eq_true passes
  have sleeps : Kfifo.Sleeps s.writers := by
    rw [writers]
    exact ⟨_, List.mem_cons_of_mem _ (List.mem_singleton_self _), rfl⟩
  exact ⟨s, sleeps, sleeping_writers_served 10 s reached sleeps⟩

/-- The transmitter becomes wedged by a missed test, by that always and by nothing else, and it
stays so: whatever is read, written or signalled afterwards, no byte leaves the fifo and no write
returns a number of bytes. -/
theorem wedged_by_missed_test (periodMs : BitVec 32) (s : CallDevice)
    (reached : (callDevice periodMs).Reachable s) :
    (∀ action next, (callDevice periodMs).step s action = some next →
        (TxWedged next ↔ TxWedged s ∨ TestMissed s action)) ∧
      (TxWedged s → ∀ actions final, (callDevice periodMs).runFrom s actions = some final →
        TxWedged final ∧ TxFrozen s final) := by
  have owed := reachable_sleepers_owed reached
  constructor
  · intro action next taken
    have moves := call_moves taken
    constructor
    · exact wedge_cause owed moves
    · intro cause
      rcases cause with wedged | missed
      · exact (wedged_move wedged moves).1
      · exact missed_test_wedges owed missed taken
  · intro wedged actions final run
    refine StepSystem.run_from_invariant (fun later => TxWedged later ∧ TxFrozen s later) ?_
      ⟨wedged, TxFrozen.refl s⟩ run
    intro state action next before taken
    rcases wedged_move before.1 (call_moves taken) with ⟨later, frozen⟩
    exact ⟨later, before.2.trans frozen⟩

/-- One byte is sent; a write of the size of the fifo comes while the callback that has found
nothing more returns. -/
def missedTestRun : List CallAction :=
  [.write [0x55] false, .writer 0 false 1, .writer 0 false 1, .writerReturn 0, .txExpire,
      .txCallback, .txWake, .txReturn] ++
    (List.replicate 11 [.txExpire, .txCallback, .txReturn]).flatten ++
    [.txExpire, .txCallback, .write (List.replicate 1024 0x55) false, .writer 1 false 1024,
      .writer 1 false 1024, .writerReturn 1]

theorem wedged_by_missed_test_full_write :
    ∃ s, (callDevice 10).Reachable s ∧
      ∀ actions final, (callDevice 10).runFrom s actions = some final →
        TxWedged final ∧ TxFrozen s final := by
  rcases (callDevice 10).reachable_of_run missedTestRun
    (fun s => decide (s.uart.txFifo.length = 1024 ∧ s.timer = .returning .norestart ∧
      s.writers = [.returned 1, .returned 1024])) (by decide +kernel) with ⟨s, reached, passes⟩
  rcases of_decide_eq_true passes with ⟨full, stopping, writers⟩
  have wedged : TxWedged s := by
    refine ⟨full, ?_, ?_, (reachable_sleepers_owed reached).results⟩
    · rw [stopping]
      rfl
    · rw [writers]
      intro owes
      rcases owes with ⟨call, present, owing⟩
      rcases List.mem_pair.mp present with same | same <;>
        · rw [same] at owing
          cases owing
  exact ⟨s, reached, (wedged_by_missed_test 10 s reached).2 wedged⟩

end Testings.Bitbang
