import Testings.BitbangLink

/-!
# Delivery over the line

In every run of two devices within the tolerance the receiver adds to `rx_fifo` what the sender
has taken from its fifo, in order and without an error. Every event of a timer takes away from
the work that is left, so the timers alone bring whatever has been written to the other side.
-/

set_option autoImplicit false

namespace Testings.Bitbang

open AsyncSerial

theorem link_step {s next : Link} {action : LoopAction} {log : LoopLog}
    (inv : LinkInv (s, log)) (moved : linkStep s action = some next) :
    LinkInv (next, recordLink s action next log) := by
  cases action with
  | write bytes count =>
      simp only [linkStep] at moved
      split at moved
      · next result =>
          rcases bitbang_tx_some result with ⟨_, rfl, rfl⟩
          cases moved
          exact link_write inv _
      · cases moved
  | read room count =>
      simp only [linkStep] at moved
      split at moved
      · next result =>
          rcases bitbang_rx_some result with ⟨n, rfl⟩
          cases moved
          exact link_read inv n
      · cases moved
  | wait elapsed =>
      simp only [linkStep] at moved
      split_ifs at moved with inTime
      cases moved
      exact link_wait inv inTime.1 inTime.2
  | txTimer =>
      simp only [linkStep] at moved
      split_ifs at moved with expired
      cases moved
      exact link_tx_tick inv expired
  | rxTimer =>
      simp only [linkStep] at moved
      split_ifs at moved with expired
      cases moved
      exact link_rx_tick inv expired

theorem system_step_link_inv {bit period : Nat} (state : Link × LoopLog) (action : LoopAction)
    (next : Link × LoopLog) (inv : LinkInv state)
    (taken : (linkSystem bit period).step state action = some next) : LinkInv next := by
  refine StepSystem.observe_preserved ?_ state action next inv taken
  intro s action next log before taken
  exact link_step before taken

theorem run_from_link_inv {bit period : Nat} {state final : Link × LoopLog}
    {actions : List LoopAction} (inv : LinkInv state)
    (run : (linkSystem bit period).runFrom state actions = some final) : LinkInv final :=
  StepSystem.run_from_invariant LinkInv system_step_link_inv inv run

theorem reachable_link_inv {bit period : Nat} (inTolerance : InTolerance bit period)
    {state : Link × LoopLog} (reached : (linkSystem bit period).Reachable state) :
    LinkInv state := by
  rcases reached with ⟨actions, run⟩
  exact run_from_link_inv (link_start inTolerance) run

/-- The bytes added to `rx_fifo` are the bytes taken, but for one that may be on the line, and the
newest of them are in it. -/
structure LinkSound (state : Link × LoopLog) : Prop where
  inOrder : state.2.pushed = state.2.taken ∨ ∃ byte, state.2.taken = state.2.pushed ++ [byte]
  written : state.2.taken ++ state.1.sender.txFifo = state.2.written
  held : HoldsNewest state.1.receiver.rxFifo state.2.pushed
  finished : state.1.txExpires = none → state.2.pushed = state.2.written
  noErrors : NoErrors state.1.receiver.stats

theorem LinkInv.sound {state : Link × LoopLog} (inv : LinkInv state) : LinkSound state := by
  have order := inv.order
  cases inv.phase with
  | idle txIdx _ _ _ pushed counted =>
      refine ⟨.inl pushed, order, inv.held, ?_, inv.errors⟩
      intro stopped
      rw [inv.served stopped, List.append_nil] at order
      rw [pushed, order]
  | frame whole byte base m k taken sending ticks level samples window inside sampled pushed =>
      refine ⟨.inr ⟨byte, by rw [pushed, taken]⟩, order, inv.held, ?_, inv.errors⟩
      intro stopped
      rw [ticks] at stopped
      cases stopped
  | received whole byte taken sending running high rxIdx stopped pushed =>
      refine ⟨.inl (by rw [pushed, taken]), order, inv.held, ?_, inv.errors⟩
      intro idle
      exact absurd idle running
  | closing whole byte base taken txIdx ticks high samples sampled pushed =>
      refine ⟨.inr ⟨byte, by rw [pushed, taken]⟩, order, inv.held, ?_, inv.errors⟩
      intro stopped
      rw [ticks] at stopped
      cases stopped

/-- The timer events that are left: for each byte twelve ticks and eleven samples. -/
def linkWork (s : Link) : Nat :=
  24 * s.sender.txFifo.length +
    (if s.sender.txChr.idx = -1 then 0 else (11 - s.sender.txChr.idx).toNat) +
    (if s.rxExpires = none then 0 else (10 - s.receiver.rxChr.idx).toNat) +
    if s.txExpires = none then 0 else 1

/-- In a frame a tick takes one level away and leaves the receiver alone. -/
theorem sending_tick_work {s : Link} {byte : BitVec 8} {m : Nat}
    (sending : Sending s.sender.txChr byte (m + 1)) (expired : s.txExpires = some s.now)
    (quiet : edgeStarts s.receiver s.level ((txTimerCb s.sender).driven.getD s.level) = false) :
    linkWork (linkTxTicked s) < linkWork s := by
  have idx := sending.idx
  have unfinished := sending.unfinished
  have position : s.sender.txChr.idx = m := by
    push_cast at idx
    omega
  unfold linkWork linkTxTicked
  dsimp only
  rw [quiet]
  by_cases more : m + 1 < 11
  · have busy : (m : Int) + 1 ≠ -1 := by omega
    simp [tx_next_level sending more, position, expired, return_restart, busy, hrtimerStart]
    omega
  · obtain rfl : m = 10 := by omega
    simp [tx_last_level sending, position, expired, return_restart, hrtimerStart]

theorem empty_tick_work {s : Link} (txIdx : s.sender.txChr.idx = -1)
    (waiting : s.sender.txFifo = []) (expired : s.txExpires = some s.now) :
    linkWork (linkTxTicked s) < linkWork s := by
  simp [linkWork, linkTxTicked, tx_fifo_empty txIdx waiting, txIdx, waiting, expired,
    hrtimerReturn, edge_starts_level, hrtimerStart]

/-- A byte of the fifo is worth more than the eleven ticks and eleven samples it costs. -/
theorem start_tick_work {s : Link} {byte : BitVec 8} {remains : List (BitVec 8)}
    (txIdx : s.sender.txChr.idx = -1) (waiting : s.sender.txFifo = byte :: remains)
    (expired : s.txExpires = some s.now) (enabled : s.receiver.irqDepth = 0)
    (rxIdx : s.receiver.rxChr.idx = -1) (stopped : s.rxExpires = none) (high : s.level = true) :
    linkWork (linkTxTicked s) < linkWork s := by
  have starts := edge_starts_idle enabled rxIdx
  simp [linkWork, linkTxTicked, tx_start_bit txIdx waiting, txIdx, waiting, expired,
    return_restart, stopped, rxIdx, high, starts, hrtimerStart]
  omega

theorem link_tx_work {s : Link} {log : LoopLog} (inv : LinkInv (s, log))
    (expired : s.txExpires = some s.now) : linkWork (linkTxTicked s) < linkWork s := by
  have rxOnTime := inv.rxOnTime
  dsimp only at rxOnTime
  cases inv.phase with
  | idle txIdx rxIdx stopped high =>
      cases waiting : s.sender.txFifo with
      | nil => exact empty_tick_work txIdx waiting expired
      | cons byte remains =>
          exact start_tick_work txIdx waiting expired inv.enabled rxIdx stopped high
  | frame whole byte base m k taken sending ticks level samples window inside sampled =>
      have busy : s.receiver.rxChr.idx ≠ -1 := by
        have pending := rxOnTime _ samples
        rw [show s.now = _ from Option.some.inj (expired.symm.trans ticks)] at pending
        have idx := sampled.idx
        rw [List.length_take, frame_length] at idx
        dsimp only at idx
        by_cases last : k < 10
        · have behind := inv.tolerates.sample_of_tick last pending
          omega
        · omega
      exact sending_tick_work sending expired (edge_starts_busy busy _ _)
  | received whole byte taken sending running high rxIdx stopped =>
      refine sending_tick_work sending expired ?_
      rw [tx_last_level sending, high]
      exact edge_starts_level _ true
  | closing whole byte base taken txIdx ticks high samples =>
      have due : s.now = base + 12 * s.sender.period :=
        Option.some.inj (expired.symm.trans ticks)
      have pending := rxOnTime _ samples
      have closes := inv.closes
      dsimp only at closes pending
      omega

theorem sample_work {s : Link} {seen : List Bool} (sampled : Sampled s.receiver.rxChr seen)
    (inner : seen.length < 10) (start : seen = [] → s.level = false)
    (expired : s.rxExpires = some s.now) : linkWork (linkRxTicked s) < linkWork s := by
  rcases rx_next_sample sampled inner s.level start with ⟨chr, ticked, advanced⟩
  have before := sampled.idx
  have after := advanced.idx
  rw [List.length_append, List.length_singleton] at after
  have position : s.receiver.rxChr.idx = (seen.length : Int) - 1 := by omega
  have moved : chr.idx = seen.length := by
    push_cast at after
    omega
  unfold linkWork linkRxTicked
  dsimp only
  rw [ticked, expired]
  dsimp only
  rw [return_restart, position, moved]
  simp
  omega

/-- The sample that ends a frame, with a byte or with an error. -/
theorem last_sample_work {s : Link} (ended : (rxTimerCb s.receiver s.level).ret = .norestart)
    (inside : s.receiver.rxChr.idx ≤ 9) (expired : s.rxExpires = some s.now) :
    linkWork (linkRxTicked s) < linkWork s := by
  unfold linkWork linkRxTicked
  rw [ended, expired]
  simp [hrtimerReturn]
  omega

theorem link_rx_work {s : Link} {log : LoopLog} (inv : LinkInv (s, log))
    (expired : s.rxExpires = some s.now) : linkWork (linkRxTicked s) < linkWork s := by
  have txOnTime := inv.txOnTime
  dsimp only at txOnTime
  -- the stop bit is the last sample
  have last (byte : BitVec 8) (sampled : Sampled s.receiver.rxChr ((frame 1 byte).take 10))
      (high : s.level = true) : linkWork (linkRxTicked s) < linkWork s := by
    apply last_sample_work _ _ expired
    · rw [link_stop_sampled sampled high]
    · have idx := sampled.idx
      rw [List.length_take, frame_length] at idx
      push_cast at idx
      omega
  cases inv.phase with
  | idle _ _ stopped =>
      rw [show s.rxExpires = none from stopped] at expired
      cases expired
  | frame whole byte base m k taken sending ticks level samples window inside sampled =>
      have due : s.now = base + s.receiver.halfPeriod + k * s.receiver.period :=
        Option.some.inj (expired.symm.trans samples)
      have pending := txOnTime _ ticks
      rw [due] at pending
      have here := inv.tolerates.tick_of_sample inside pending
      obtain rfl : k = m := by omega
      by_cases inner : k < 10
      · apply sample_work sampled _ _ expired
        · rw [List.length_take, frame_length]
          omega
        · intro nothing
          have first : k = 0 := by
            have length := congrArg List.length nothing
            rw [List.length_take, frame_length, List.length_nil] at length
            omega
          rw [first, frame_start] at level
          exact (Option.some.inj level).symm
      · obtain rfl : k = 10 := by omega
        have stopBit : (frame 2 byte)[10]? = some true := @frame_stop 8 2 byte 0 (by decide)
        exact last byte sampled (Option.some.inj (level.symm.trans stopBit))
  | received _ _ _ _ _ _ _ stopped =>
      rw [show s.rxExpires = none from stopped] at expired
      cases expired
  | closing whole byte base taken txIdx ticks high samples sampled => exact last byte sampled high

section progress

variable (bit period : Nat) {s : Link} (log : LoopLog)

theorem link_step_wait {elapsed : Nat}
    (tx : ∀ expires ∈ s.txExpires, s.now + elapsed ≤ expires)
    (rx : ∀ expires ∈ s.rxExpires, s.now + elapsed ≤ expires) :
    (linkSystem bit period).step (s, log) (.wait elapsed) =
      some ({ s with now := s.now + elapsed }, log) := by
  have inTime := And.intro tx rx
  apply StepSystem.observe_step_some.mpr
  exact ⟨if_pos inTime, rfl⟩

theorem link_step_tx (expired : s.txExpires = some s.now) :
    (linkSystem bit period).step (s, log) .txTimer =
      some (linkTxTicked s, linkTxTickedLog s log) := by
  apply StepSystem.observe_step_some.mpr
  exact ⟨if_pos expired, rfl⟩

theorem link_step_rx (expired : s.rxExpires = some s.now) :
    (linkSystem bit period).step (s, log) .rxTimer =
      some (linkRxTicked s, linkRxTickedLog s log) := by
  apply StepSystem.observe_step_some.mpr
  exact ⟨if_pos expired, rfl⟩

/-- Time passes to `due` where no timer expires before. -/
theorem link_wait_until {due : Nat} (later : s.now ≤ due)
    (tx : ∀ expires ∈ s.txExpires, due ≤ expires) (rx : ∀ expires ∈ s.rxExpires, due ≤ expires) :
    (linkSystem bit period).step (s, log) (.wait (due - s.now)) =
      some ({ s with now := due }, log) := by
  have arrival : s.now + (due - s.now) = due := Nat.add_sub_cancel' later
  rw [link_step_wait bit period log, arrival]
  · rwa [arrival]
  · rwa [arrival]

/-- The next event is a tick of the sender. -/
theorem link_run_tx {tick : Nat} (later : s.now ≤ tick) (ticking : s.txExpires = some tick)
    (clear : ∀ sample ∈ s.rxExpires, tick ≤ sample) :
    (linkSystem bit period).runFrom (s, log) [.wait (tick - s.now), .txTimer] =
      some (linkTxTicked { s with now := tick }, linkTxTickedLog { s with now := tick } log) := by
  have toTick : ∀ expires ∈ s.txExpires, tick ≤ expires := by
    intro expires member
    rw [ticking] at member
    exact (Option.some.inj member).le
  have waited := link_wait_until bit period log later toTick clear
  have ticked := link_step_tx bit period (s := { s with now := tick }) log ticking
  exact StepSystem.run_from_cons_some.mpr
    ⟨_, waited, StepSystem.run_from_cons_some.mpr ⟨_, ticked, rfl⟩⟩

/-- The next event is a sample of the receiver. -/
theorem link_run_rx {sample : Nat} (later : s.now ≤ sample) (pending : s.rxExpires = some sample)
    (clear : ∀ tick ∈ s.txExpires, sample ≤ tick) :
    (linkSystem bit period).runFrom (s, log) [.wait (sample - s.now), .rxTimer] =
      some (linkRxTicked { s with now := sample },
        linkRxTickedLog { s with now := sample } log) := by
  have toSample : ∀ expires ∈ s.rxExpires, sample ≤ expires := by
    intro expires member
    rw [pending] at member
    exact (Option.some.inj member).le
  have waited := link_wait_until bit period log later clear toSample
  have sampled := link_step_rx bit period (s := { s with now := sample }) log pending
  exact StepSystem.run_from_cons_some.mpr
    ⟨_, waited, StepSystem.run_from_cons_some.mpr ⟨_, sampled, rfl⟩⟩

end progress

/-- While the sender's timer runs, some timer event is next, and it takes away from the work. -/
theorem link_next_event (bit period : Nat) {s : Link} {log : LoopLog} (inv : LinkInv (s, log))
    (running : s.txExpires ≠ none) :
    ∃ actions after log', (linkSystem bit period).runFrom (s, log) actions = some (after, log') ∧
      actions.all LoopAction.timed = true ∧ linkWork after < linkWork s ∧
      log'.written = log.written := by
  cases ticking : s.txExpires with
  | none => exact absurd ticking running
  | some tick =>
      have txOnTime : s.now ≤ tick := inv.txOnTime tick ticking
      have toTick : ∀ expires ∈ s.txExpires, tick ≤ expires := by
        intro expires member
        rw [ticking] at member
        exact (Option.some.inj member).le
      by_cases clear : ∀ sample ∈ s.rxExpires, tick ≤ sample
      · have waited := link_wait inv toTick clear
        exact ⟨_, _, _, link_run_tx bit period log txOnTime ticking clear, rfl,
          link_tx_work waited ticking, rfl⟩
      · push Not at clear
        rcases clear with ⟨sample, pending, first⟩
        have rxOnTime : s.now ≤ sample := inv.rxOnTime sample pending
        have toSample : ∀ expires ∈ s.rxExpires, sample ≤ expires := by
          intro expires member
          rw [pending] at member
          exact (Option.some.inj member).le
        have beforeTick : ∀ expires ∈ s.txExpires, sample ≤ expires := by
          intro expires member
          exact Nat.le_trans first.le (toTick expires member)
        have waited := link_wait inv beforeTick toSample
        exact ⟨_, _, _, link_run_rx bit period log rxOnTime pending beforeTick, rfl,
          link_rx_work waited pending, rfl⟩

/-- From every state the timers alone bring the sender to rest. -/
theorem link_comes_to_rest (bit period work : Nat) {s : Link} {log : LoopLog}
    (inv : LinkInv (s, log)) (bound : linkWork s ≤ work) :
    ∃ actions final, (linkSystem bit period).runFrom (s, log) actions = some final ∧
      actions.all LoopAction.timed = true ∧ final.1.txExpires = none ∧
      final.2.written = log.written := by
  induction work generalizing s log with
  | zero =>
      refine ⟨[], (s, log), rfl, rfl, ?_, rfl⟩
      by_contra running
      simp [linkWork, running] at bound
  | succ work ih =>
      cases running : s.txExpires with
      | none => exact ⟨[], (s, log), rfl, rfl, running, rfl⟩
      | some tick =>
          rcases link_next_event bit period inv (by rw [running]; nofun) with
            ⟨event, after, log', run, expiring, less, written⟩
          rcases ih (run_from_link_inv inv run) (by omega) with
            ⟨rest, final, more, timed, stopped, kept⟩
          refine ⟨event ++ rest, final, ?_, ?_, stopped, kept.trans written⟩
          · rw [StepSystem.run_from_append, run, Option.bind_some]
            exact more
          · rw [List.all_append, expiring, timed]
            rfl

/-- Within the tolerance, whatever is written and read and whenever, the receiver gets the
sender's bytes in order and without an error, and from every state the timers deliver all that
has been written. -/
theorem link_delivers (bit period : Nat) (inTolerance : InTolerance bit period) :
    (∀ state, (linkSystem bit period).Reachable state → LinkSound state) ∧
      ∀ state, (linkSystem bit period).Reachable state →
        ∃ actions final, (linkSystem bit period).runFrom state actions = some final ∧
          actions.all LoopAction.timed = true ∧ final.1.txExpires = none ∧
          final.2.pushed = state.2.written := by
  constructor
  · intro state reached
    exact (reachable_link_inv inTolerance reached).sound
  · intro state reached
    have inv := reachable_link_inv inTolerance reached
    rcases link_comes_to_rest bit period (linkWork state.1) inv (Nat.le_refl _) with
      ⟨actions, final, run, timed, stopped, written⟩
    have sound := (run_from_link_inv inv run).sound
    exact ⟨actions, final, run, timed, stopped, (sound.finished stopped).trans written⟩

/-- A byte from a device at 100 to one at 104. -/
theorem link_delivers_slower :
    ∃ final : Link × LoopLog, final.1.txExpires = none ∧ final.2.pushed = [0x47#8] := by
  rcases StepSystem.reachable_of_run (linkSystem 100 104) [.write [0x47#8] 1]
    (fun state => decide (state.2.written = [0x47#8])) (by decide) with ⟨state, reached, passes⟩
  rcases (link_delivers 100 104 (by decide)).2 state reached with ⟨_, final, _, _, stopped, pushed⟩
  exact ⟨final, stopped, pushed.trans (of_decide_eq_true passes)⟩

end Testings.Bitbang
