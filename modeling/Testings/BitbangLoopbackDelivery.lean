import Testings.BitbangLoopback

/-!
# Delivery over the loopback

The invariant of the two machines holds in every run, so the bytes added to
`rx_fifo` are the bytes transmitted. The transmit ticks that are left are counted by
`txWork`: each tick takes one away, and between two ticks there is at most one
sample, so the timers alone bring every written byte to the receiver.
-/

set_option autoImplicit false

namespace Testings.Bitbang

theorem loop_step {s next : Loopback} {action : LoopAction} {log : LoopLog}
    (inv : LoopInv (s, log)) (moved : loopStep s action = some next) :
    LoopInv (next, recordLoop s action next log) := by
  cases action with
  | write bytes count =>
      simp only [loopStep] at moved
      split at moved
      · next result =>
          obtain ⟨_, rfl, rfl⟩ := bitbang_tx_some result
          cases moved
          exact loop_write inv _
      · cases moved
  | read room count =>
      simp only [loopStep] at moved
      split at moved
      · next result =>
          obtain ⟨n, rfl⟩ := bitbang_rx_some result
          cases moved
          exact loop_read inv n
      · cases moved
  | wait elapsed =>
      simp only [loopStep] at moved
      split_ifs at moved with inTime
      cases moved
      exact loop_wait inv elapsed inTime.1 inTime.2
  | txTimer =>
      simp only [loopStep] at moved
      split_ifs at moved with expired
      cases moved
      exact loop_tx_tick inv expired
  | rxTimer =>
      simp only [loopStep] at moved
      split_ifs at moved with expired
      cases moved
      exact loop_rx_tick inv expired

theorem run_from_loop_inv {period : Nat} {state final : Loopback × LoopLog}
    {actions : List LoopAction} (inv : LoopInv state)
    (run : (loopbackSystem period).runFrom state actions = some final) : LoopInv final := by
  refine StepSystem.run_from_invariant LoopInv (StepSystem.observe_preserved ?_) inv run
  intro s action next log before taken
  exact loop_step before taken

theorem reachable_loop_inv {period : Nat} (long : 2 ≤ period) {state : Loopback × LoopLog}
    (reached : (loopbackSystem period).Reachable state) : LoopInv state := by
  obtain ⟨actions, run⟩ := reached
  exact run_from_loop_inv (loop_start long) run

/-- The bytes added to `rx_fifo` are the bytes taken, but for one that may be on the line, and the
newest of them are in it. -/
structure LoopbackSound (state : Loopback × LoopLog) : Prop where
  inOrder : state.2.pushed = state.2.taken ∨
    state.1.uart.txChr.idx ≠ -1 ∧ ∃ byte, state.2.taken = state.2.pushed ++ [byte]
  written : state.2.taken ++ state.1.uart.txFifo = state.2.written
  held : HoldsNewest state.1.uart.rxFifo state.2.pushed
  lineIdle : state.1.uart.txChr.idx = -1 →
    state.1.uart.stats.rxCounter = state.1.uart.stats.txCounter
  finished : state.1.txExpires = none → state.2.pushed = state.2.written
  noErrors : NoErrors state.1.uart.stats

theorem LoopInv.sound {state : Loopback × LoopLog} (inv : LoopInv state) :
    LoopbackSound state := by
  have order := inv.order
  cases inv.phase with
  | idle txIdx _ _ _ pushed counted =>
      refine ⟨.inl pushed, order, inv.held, fun _ => counted, ?_, inv.errors⟩
      intro stopped
      rw [inv.served stopped, List.append_nil] at order
      rw [pushed, order]
  | frame whole byte m tick taken sending expires level receiver =>
      have sendingIdx : state.1.uart.txChr.idx ≠ -1 := by
        have idx := sending.idx
        omega
      refine ⟨?_, order, inv.held, fun idle => absurd idle sendingIdx, ?_, inv.errors⟩
      · cases receiver with
        | before _ _ _ _ pushed => exact .inr ⟨sendingIdx, byte, by rw [pushed, taken]⟩
        | behind _ _ _ pushed => exact .inr ⟨sendingIdx, byte, by rw [pushed, taken]⟩
        | done _ _ _ pushed => exact .inl (by rw [pushed, taken])
      · intro stopped
        rw [expires] at stopped
        cases stopped

/-- The transmit ticks that are left before the timer stops. -/
def txWork (s : Loopback) : Nat :=
  12 * s.uart.txFifo.length +
    (if s.uart.txChr.idx = -1 then 0 else (11 - s.uart.txChr.idx).toNat) +
    if s.txExpires = none then 0 else 1

theorem tx_tick_work {s : Loopback} {log : LoopLog} (inv : LoopInv (s, log))
    (expired : s.txExpires = some s.now) : txWork (txTicked s) < txWork s := by
  cases inv.phase with
  | idle txIdx =>
      dsimp only at txIdx
      cases waiting : s.uart.txFifo with
      | nil => simp [txWork, txTicked, tx_fifo_empty txIdx waiting, txIdx, waiting, expired,
          hrtimerReturn]
      | cons byte remains =>
          simp [txWork, txTicked, tx_start_bit txIdx waiting, txIdx, waiting, expired,
            return_restart]
          omega
  | frame whole byte m tick taken sending =>
      have idx := sending.idx
      have started := sending.started
      have unfinished := sending.unfinished
      have position : s.uart.txChr.idx = m := by
        dsimp only at idx
        omega
      by_cases inner : m + 1 < 11
      · have busy : (m : Int) + 1 ≠ -1 := by omega
        simp [txWork, txTicked, tx_next_level sending inner, position, expired, return_restart,
          busy]
        omega
      · obtain rfl : m = 10 := by omega
        simp [txWork, txTicked, tx_last_level sending, position, expired, return_restart]

theorem step_wait (period : Nat) {s : Loopback} (log : LoopLog) {elapsed : Nat}
    (tx : ∀ expires ∈ s.txExpires, s.now + elapsed ≤ expires)
    (rx : ∀ expires ∈ s.rxExpires, s.now + elapsed ≤ expires) :
    (loopbackSystem period).step (s, log) (.wait elapsed) =
      some ({ s with now := s.now + elapsed }, log) := by
  have inTime := And.intro tx rx
  apply StepSystem.observe_step_some.mpr
  exact ⟨if_pos inTime, rfl⟩

theorem step_tx_timer (period : Nat) {s : Loopback} (log : LoopLog)
    (expired : s.txExpires = some s.now) :
    (loopbackSystem period).step (s, log) .txTimer = some (txTicked s, txTickedLog s log) := by
  apply StepSystem.observe_step_some.mpr
  exact ⟨if_pos expired, rfl⟩

theorem step_rx_timer (period : Nat) {s : Loopback} (log : LoopLog)
    (expired : s.rxExpires = some s.now) :
    (loopbackSystem period).step (s, log) .rxTimer = some (rxTicked s, rxTickedLog s log) := by
  apply StepSystem.observe_step_some.mpr
  exact ⟨if_pos expired, rfl⟩

/-- With no sample in the way time passes to the next transmit tick at once. -/
theorem reach_tick_directly (period : Nat) (s : Loopback) (log : LoopLog) {tick : Nat}
    (expires : s.txExpires = some tick) (onTime : s.now ≤ tick)
    (clear : ∀ sample ∈ s.rxExpires, tick ≤ sample) :
    (loopbackSystem period).runFrom (s, log) [.wait (tick - s.now)] =
      some ({ s with now := tick }, log) := by
  have arrival : s.now + (tick - s.now) = tick := Nat.add_sub_cancel' onTime
  apply StepSystem.run_from_cons_some.mpr
  refine ⟨_, step_wait period log ?_ ?_, ?_⟩
  · intro expiry member
    rw [expires] at member
    cases member
    exact arrival.le
  · intro sample pending
    rw [arrival]
    exact clear sample pending
  · rw [arrival]
    rfl

/-- A sample in front of the next tick is the last one in front of it. -/
theorem sample_spacing {s : Loopback} {log : LoopLog} (inv : LoopInv (s, log)) {tick sample : Nat}
    (expires : s.txExpires = some tick) (pending : s.rxExpires = some sample)
    (first : sample < tick) : tick ≤ sample + s.uart.period := by
  cases inv.phase with
  | idle _ _ stopped =>
      rw [show s.rxExpires = none from stopped] at pending
      cases pending
  | frame whole byte m tick' _ _ ticking _ receiver =>
      obtain rfl : tick = tick' := Option.some.inj (expires.symm.trans ticking)
      cases receiver with
      | before sample' pending' aligned =>
          obtain rfl : sample = sample' := Option.some.inj (pending.symm.trans pending')
          dsimp only at aligned
          omega
      | behind _ pending' =>
          have later := Option.some.inj (pending.symm.trans pending')
          omega
      | done _ stopped =>
          rw [show s.rxExpires = none from stopped] at pending
          cases pending

/-- A sample that is due now is taken, and then nothing is in the way. -/
theorem reach_tick_after_sample (period : Nat) {s : Loopback} {log : LoopLog}
    (inv : LoopInv (s, log)) {tick : Nat} (expires : s.txExpires = some tick)
    (pending : s.rxExpires = some s.now) (first : s.now < tick) :
    (loopbackSystem period).runFrom (s, log) [.rxTimer, .wait (tick - s.now)] =
      some ({ rxTicked s with now := tick }, rxTickedLog s log) := by
  have clear : ∀ sample ∈ (rxTicked s).rxExpires, tick ≤ sample := by
    intro sample member
    dsimp only [rxTicked] at member
    cases decision : (rxTimerCb s.uart s.level).ret with
    | norestart =>
        rw [decision] at member
        cases member
    | restart =>
        rw [decision, return_restart] at member
        cases member
        exact sample_spacing inv expires pending first
  apply StepSystem.run_from_cons_some.mpr
  refine ⟨_, step_rx_timer period log pending, ?_⟩
  exact reach_tick_directly period (rxTicked s) (rxTickedLog s log) expires first.le clear

/-- At most one sample is in the way of the next tick. -/
theorem reach_tick (period : Nat) {s : Loopback} {log : LoopLog} (inv : LoopInv (s, log))
    {tick : Nat} (expires : s.txExpires = some tick) :
    ∃ actions after log', (loopbackSystem period).runFrom (s, log) actions = some (after, log') ∧
      actions.all LoopAction.timed = true ∧ after.txExpires = some after.now ∧
      log'.written = log.written ∧ txWork after = txWork s := by
  have onTime : s.now ≤ tick := inv.txOnTime tick expires
  by_cases clear : ∀ sample ∈ s.rxExpires, tick ≤ sample
  · exact ⟨_, _, _, reach_tick_directly period s log expires onTime clear, rfl, expires, rfl, rfl⟩
  · push Not at clear
    obtain ⟨sample, pending, first⟩ := clear
    have sampleOnTime : s.now ≤ sample := inv.rxOnTime sample pending
    have arrival : s.now + (sample - s.now) = sample := Nat.add_sub_cancel' sampleOnTime
    have waited : (loopbackSystem period).step (s, log) (.wait (sample - s.now)) =
        some ({ s with now := sample }, log) := by
      rw [step_wait period log, arrival]
      · intro expiry member
        rw [expires] at member
        cases member
        omega
      · intro expiry member
        rw [pending] at member
        cases member
        exact arrival.le
    have alone : (loopbackSystem period).runFrom (s, log) [.wait (sample - s.now)] =
        some ({ s with now := sample }, log) :=
      StepSystem.run_from_cons_some.mpr ⟨_, waited, rfl⟩
    have sampled :=
      reach_tick_after_sample period (run_from_loop_inv inv alone) expires pending first
    refine ⟨_, _, _, StepSystem.run_from_cons_some.mpr ⟨_, waited, sampled⟩, rfl, expires, rfl, ?_⟩
    have kept := rx_tick_keeps_tx s.uart s.level
    unfold txWork rxTicked
    dsimp only
    rw [kept.1, kept.2]

/-- From every state the timers alone bring the transmitter to rest. -/
theorem loop_comes_to_rest (period work : Nat) {s : Loopback} {log : LoopLog}
    (inv : LoopInv (s, log)) (bound : txWork s ≤ work) :
    ∃ actions final, (loopbackSystem period).runFrom (s, log) actions = some final ∧
      actions.all LoopAction.timed = true ∧ final.1.txExpires = none ∧
      final.2.written = log.written := by
  induction work generalizing s log with
  | zero =>
      refine ⟨[], (s, log), rfl, rfl, ?_, rfl⟩
      by_contra running
      simp [txWork, running] at bound
  | succ work ih =>
      cases running : s.txExpires with
      | none => exact ⟨[], (s, log), rfl, rfl, running, rfl⟩
      | some tick =>
          obtain ⟨waits, after, log', run, waiting, expired, written, same⟩ :=
            reach_tick period inv running
          have inv' := run_from_loop_inv inv run
          have ticked := step_tx_timer period log' expired
          have less := tx_tick_work inv' expired
          obtain ⟨rest, final, more, timed, stopped, kept⟩ :=
            ih (loop_tx_tick inv' expired) (by omega)
          refine ⟨waits ++ .txTimer :: rest, final, ?_, ?_, stopped, kept.trans written⟩
          · rw [StepSystem.run_from_append, run, Option.bind_some]
            exact StepSystem.run_from_cons_some.mpr ⟨_, ticked, more⟩
          · rw [List.all_append, List.all_cons, waiting, timed]
            rfl

/-- Whatever is written and whenever, the receiver gets the transmitted bytes in
order and without an error, and from every state the timers deliver all that
has been written. -/
theorem loopback_delivers (period : Nat) (long : 2 ≤ period) :
    (∀ state, (loopbackSystem period).Reachable state → LoopbackSound state) ∧
      ∀ state, (loopbackSystem period).Reachable state →
        ∃ actions final, (loopbackSystem period).runFrom state actions = some final ∧
          actions.all LoopAction.timed = true ∧ final.1.txExpires = none ∧
          final.2.pushed = state.2.written := by
  constructor
  · intro state reached
    exact (reachable_loop_inv long reached).sound
  · intro state reached
    have inv := reachable_loop_inv long reached
    obtain ⟨actions, final, run, timed, stopped, written⟩ :=
      loop_comes_to_rest period (txWork state.1) inv (Nat.le_refl _)
    have sound := (run_from_loop_inv inv run).sound
    exact ⟨actions, final, run, timed, stopped, (sound.finished stopped).trans written⟩

/-- One byte, sampled in the middle of each of its levels. -/
theorem loopback_delivers_one_byte :
    ∃ state : Loopback × LoopLog, state.1.uart.rxFifo = [0x47#8] ∧ state.2.pushed = [0x47#8] ∧
      LoopbackSound state := by
  obtain ⟨state, reached, passes⟩ := StepSystem.reachable_of_run (loopbackSystem 10)
    (([.write [0x47#8] 1, .wait 10, .txTimer] : List LoopAction) ++
      (List.replicate 11 ([.wait 5, .rxTimer, .wait 5, .txTimer] : List LoopAction)).flatten ++
      ([.wait 10, .txTimer] : List LoopAction))
    (fun state => decide (state.1.uart.rxFifo = [0x47#8] ∧ state.2.pushed = [0x47#8]))
    (by decide +kernel)
  obtain ⟨held, pushed⟩ := of_decide_eq_true passes
  exact ⟨state, held, pushed, (loopback_delivers 10 (by decide)).1 state reached⟩

end Testings.Bitbang
