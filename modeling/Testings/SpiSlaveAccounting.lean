import Testings.SpiSlaveFifo
import Mathlib.Data.BitVec

/-!
# Packet accounting

A `Ledger` watches the run: packets delivered since the statistics were last
wiped, packets whose counting that wipe forgot (those in the ring, and one
counted but not yet published), and packets that `RXRING_CLEAR` has thrown out
since. The counters of the driver balance against the ledger in every state;
they balance without it exactly when the reset threw out what it forgot.
-/

set_option autoImplicit false

namespace Testings.SpiSlave

structure Ledger where
  delivered : Nat
  wiped : Nat
  discarded : Nat

/-- Packets counted in `pkt_ok` and not yet in the ring. -/
def RxThread.inFlight : RxThread → Nat
  | .poll _ _ rv | .publish _ rv => if 0 < rv then 1 else 0
  | _ => 0

/-- A burst goes on only while no packet is complete; the loop is left with one. -/
def RxThread.consistent : RxThread → Prop
  | .burst _ _ rv => rv ≤ 0
  | .publish _ rv => 0 < rv
  | _ => True

/-- The program points of `rx_thrd_fn` outside `receive_packet`. -/
def RxThread.outside : RxThread → Bool
  | .absent | .wipe | .clear | .call | .returned _ | .exit => true
  | _ => false

def recordLedger (s : Driver) (action : Action) (next : Driver) (ledger : Ledger) : Ledger :=
  match action with
  | .prepareWipe | .thrdWipe =>
      { delivered := 0, wiped := (rxringUsed s.dev.rxRing).toNat + s.rx.inFlight, discarded := 0 }
  | .prepareClear | .thrdClear =>
      { ledger with discarded := ledger.discarded + (rxringUsed s.dev.rxRing).toNat }
  | .consume =>
      if next.reader = .copied then { ledger with delivered := ledger.delivered + 1 } else ledger
  | _ => ledger

def ledgerSystem (hz : Nat) : StepSystem (Driver × Ledger) Action :=
  ((driver hz).restrict notStopped).observe ⟨0, 0, 0⟩ recordLedger

/-- `pkt_ok` with what was forgotten is `pkt_lost` with what is accounted for elsewhere. -/
def Balanced (stats : SpiImxStatistic) (wiped elsewhere : Nat) : Prop :=
  stats.pktOk + BitVec.ofNat 64 wiped = stats.pktLost + BitVec.ofNat 64 elsewhere

def elsewhere (s : Driver) (ledger : Ledger) : Nat :=
  ledger.delivered + (rxringUsed s.dev.rxRing).toNat + s.rx.inFlight + ledger.discarded

def PrepareMessage.clearing : PrepareMessage → Nat
  | .clear _ => 1
  | _ => 0

def RxThread.clearing : RxThread → Nat
  | .clear => 1
  | _ => 0

/-- Resets that have wiped the statistics and not yet cleared the ring. -/
def pendingClears (s : Driver) : Nat := s.prepare.clearing + s.rx.clearing

structure Accounts (state : Driver × Ledger) : Prop where
  inv : DriverInv state.1
  single : SingleReceiver state.1
  running : state.1.shouldStop = false
  consistent : state.1.rx.consistent
  balance : Balanced state.1.dev.stats state.2.wiped (elsewhere state.1 state.2)
  wipedBound : state.2.wiped ≤ 16384
  discardedBound : state.2.discarded + 16383 * pendingClears state.1 ≤ 2 * 16383

theorem balanced_zero (count : Nat) : Balanced .zero count count := by
  simp [Balanced, SpiImxStatistic.zero]

theorem Balanced.count {stats : SpiImxStatistic} {wiped total : Nat}
    (balance : Balanced stats wiped total) :
    Balanced { stats with pktOk := stats.pktOk + 1 } wiped (total + 1) := by
  simp only [Balanced] at balance ⊢
  rw [add_right_comm, balance, BitVec.ofNat_add, add_assoc]
  rfl

theorem Balanced.lose {stats : SpiImxStatistic} {wiped total : Nat}
    (balance : Balanced stats wiped (total + 1)) :
    Balanced { stats with pktLost := stats.pktLost + 1 } wiped total := by
  simp only [Balanced] at balance ⊢
  rw [balance, BitVec.ofNat_add, add_right_comm, add_assoc]
  rfl

/-- The identity without the ledger is the identity between its two columns. -/
theorem balanced_iff {stats : SpiImxStatistic} {wiped total discarded : Nat}
    (balance : Balanced stats wiped (total + discarded))
    (wipedBound : wiped < 2 ^ 64) (discardedBound : discarded < 2 ^ 64) :
    stats.pktOk = stats.pktLost + BitVec.ofNat 64 total ↔ wiped = discarded := by
  simp only [Balanced, BitVec.ofNat_add, ← add_assoc] at balance
  constructor
  · intro equal
    rw [equal] at balance
    have same := congrArg BitVec.toNat (add_left_cancel balance)
    rwa [BitVec.toNat_ofNat, BitVec.toNat_ofNat, Nat.mod_eq_of_lt wipedBound,
      Nat.mod_eq_of_lt discardedBound] at same
  · intro equal
    rw [equal] at balance
    exact add_right_cancel balance

theorem count_dword_balanced {stats : SpiImxStatistic} {wiped total : Nat} (rv : Int)
    (balance : Balanced stats wiped total) :
    Balanced (countDword stats rv) wiped (total + if 0 < rv then 1 else 0) := by
  unfold countDword
  dsimp only
  split_ifs
  · exact balance.count
  all_goals exact balance

theorem count_overrun_balanced {stats : SpiImxStatistic} {wiped total : Nat} (stat : BitVec 32)
    (balance : Balanced stats wiped total) : Balanced (countOverrun stats stat) wiped total := by
  obtain ⟨overruns, same⟩ := count_overrun_eq stats stat
  rw [same]
  exact balance

theorem publish_balanced {dev : SpiImx} {wiped total : Nat} (idx : Int)
    (balance : Balanced dev.stats wiped total) :
    Balanced (receivePacketPublish dev idx).stats wiped total := by
  obtain ⟨used, same⟩ := publish_eq dev idx
  rw [same]
  exact balance

/-- A packet dropped to make room is counted as lost in the same section. -/
theorem reserve_balanced {dev : SpiImx} {wiped rest : Nat}
    (balance : Balanced dev.stats wiped (rest + (rxringUsed dev.rxRing).toNat)) :
    Balanced (receivePacketReserve dev).1.stats wiped
      (rest + (rxringUsed (receivePacketReserve dev).1.rxRing).toNat) := by
  unfold receivePacketReserve
  dsimp only
  split_ifs with full
  · have nonempty := used_of_full full
    have removed := used_remove nonempty
    have split : rest + (rxringUsed dev.rxRing).toNat =
        rest + (rxringUsed (rxringRemove dev.rxRing)).toNat + 1 := by omega
    rw [split] at balance
    exact balance.lose
  · exact balance

/-- A step that touches neither the two counters nor the number of packets
anywhere keeps the accounts. -/
theorem Accounts.keep {s next : Driver} {ledger : Ledger} (accounts : Accounts (s, ledger))
    (inv : DriverInv next) (single : SingleReceiver next) (running : next.shouldStop = false)
    (consistent : next.rx.consistent)
    (balance : ∀ wiped total, Balanced s.dev.stats wiped total →
      Balanced next.dev.stats wiped total)
    (total : elsewhere next ledger = elsewhere s ledger)
    (pending : pendingClears next ≤ pendingClears s) : Accounts (next, ledger) where
  inv := inv
  single := single
  running := running
  consistent := consistent
  balance := by
    dsimp only
    rw [total]
    exact balance _ _ accounts.balance
  wipedBound := accounts.wipedBound
  discardedBound := by
    have bound := accounts.discardedBound
    dsimp only at bound ⊢
    omega

theorem Accounts.wipe {s next : Driver} (inv : DriverInv next) (single : SingleReceiver next)
    (running : next.shouldStop = false) (consistent : next.rx.consistent)
    (zero : next.dev.stats = .zero) (ring : next.dev.rxRing = s.dev.rxRing)
    (flight : next.rx.inFlight = s.rx.inFlight) :
    Accounts (next, ⟨0, (rxringUsed s.dev.rxRing).toNat + s.rx.inFlight, 0⟩) where
  inv := inv
  single := single
  running := running
  consistent := consistent
  balance := by
    have total : elsewhere next ⟨0, (rxringUsed s.dev.rxRing).toNat + s.rx.inFlight, 0⟩ =
        (rxringUsed s.dev.rxRing).toNat + s.rx.inFlight := by
      simp [elsewhere, ring, flight]
    dsimp only
    rw [total, zero]
    exact balanced_zero _
  wipedBound := by
    have used := (used_range s.dev.rxRing).2
    have flightBound : s.rx.inFlight ≤ 1 := by
      cases s.rx <;> simp only [RxThread.inFlight] <;> (try split_ifs) <;> omega
    simp only [rxRingPackets] at used
    dsimp only
    omega
  discardedBound := by
    have prepareBound : next.prepare.clearing ≤ 1 := by
      cases next.prepare <;> simp [PrepareMessage.clearing]
    have rxBound : next.rx.clearing ≤ 1 := by
      cases next.rx <;> simp [RxThread.clearing]
    simp only [pendingClears]
    omega

theorem Accounts.clear {s next : Driver} {ledger : Ledger} (accounts : Accounts (s, ledger))
    (inv : DriverInv next) (single : SingleReceiver next) (running : next.shouldStop = false)
    (consistent : next.rx.consistent)
    (stats : next.dev.stats = s.dev.stats) (ring : next.dev.rxRing = rxringClear s.dev.rxRing)
    (flight : next.rx.inFlight = s.rx.inFlight)
    (pending : pendingClears next + 1 = pendingClears s) :
    Accounts (next, { ledger with
      discarded := ledger.discarded + (rxringUsed s.dev.rxRing).toNat }) where
  inv := inv
  single := single
  running := running
  consistent := consistent
  balance := by
    have total : elsewhere next { ledger with
        discarded := ledger.discarded + (rxringUsed s.dev.rxRing).toNat } =
          elsewhere s ledger := by
      simp only [elsewhere, ring, flight, clear_used, Int.toNat_zero]
      omega
    dsimp only
    rw [total, stats]
    exact accounts.balance
  wipedBound := accounts.wipedBound
  discardedBound := by
    have bound := accounts.discardedBound
    have used := (used_range s.dev.rxRing).2
    simp only [rxRingPackets] at used
    dsimp only at bound ⊢
    omega

theorem accounts_step {hz : Nat} {s next : Driver} {action : Action} {ledger : Ledger}
    (accounts : Accounts (s, ledger)) (continued : notStopped s action)
    (taken : step hz s action = some next) :
    Accounts (next, recordLedger s action next ledger) := by
  have inv := step_driver_inv accounts.inv taken
  have ring := accounts.inv.ring
  have slot := accounts.inv.slot
  have running := accounts.running
  have single := step_single_receiver accounts.single taken
  have consistent := accounts.consistent
  dsimp only at ring slot running consistent
  -- most steps move one program point and leave counters and packets alone
  have moves : ∀ point : RxThread, point.inFlight = s.rx.inFlight →
      ∀ stats : SpiImxStatistic, elsewhere
        { s with dev := { s.dev with stats := stats }, rx := point } ledger =
          elsewhere s ledger := by
    intro point flight stats
    simp only [elsewhere, flight]
  cases step_cases taken with
  | kthreadStop => exact absurd rfl continued
  | prepareEnter | prepareStamp | alreadyRunning | launchFailed | prepareAssign =>
      exact accounts.keep inv single running consistent (fun _ _ => id) rfl
        (by simp [pendingClears, PrepareMessage.clearing])
  | prepareTest =>
      refine accounts.keep inv single running consistent (fun _ _ => id) rfl ?_
      dsimp only [pendingClears]
      split_ifs <;> simp [PrepareMessage.clearing]
  | prepareWipe => exact Accounts.wipe inv single running consistent rfl rfl rfl
  | prepareClear now point =>
      exact accounts.clear inv single running consistent rfl rfl rfl
        (by simp [pendingClears, PrepareMessage.clearing, point, Nat.add_comm])
  | launched point stopped =>
      have absent := accounts.single.named stopped (by simp [point])
      dsimp only at absent
      exact accounts.keep inv single rfl trivial (fun _ _ => id) (moves _ (by rw [absent]; rfl) _)
        (by simp [pendingClears, PrepareMessage.clearing, RxThread.clearing])
  | thrdWipe point =>
      exact Accounts.wipe inv single running trivial rfl rfl (by rw [point]; rfl)
  | thrdClear point =>
      exact accounts.clear inv single running trivial rfl rfl (by rw [point]; rfl)
        (by simp [pendingClears, RxThread.clearing, point])
  | reserve point =>
      have balance := accounts.balance
      have split : ∀ state : Driver, elsewhere state ledger =
          ledger.delivered + state.rx.inFlight + ledger.discarded +
            (rxringUsed state.dev.rxRing).toNat := by
        intro state
        simp only [elsewhere]
        omega
      refine { accounts with
        inv := inv, single := single, consistent := trivial, balance := ?_, discardedBound := ?_ }
      · dsimp only at balance
        rw [split, point] at balance
        dsimp only [recordLedger]
        rw [split]
        exact reserve_balanced balance
      · have bound := accounts.discardedBound
        simpa [pendingClears, RxThread.clearing, point, recordLedger] using bound
  | noFreeSlot _ point | tooManyLost _ point | startFilling _ point =>
      exact accounts.keep inv single running trivial (fun _ _ => id)
        (moves _ (by rw [point]; rfl) _) (by simp [pendingClears, RxThread.clearing])
  | pollStatus stat idx cnt rv point _ low =>
      refine accounts.keep inv single running low (fun _ _ => count_overrun_balanced stat)
        (moves _ ?_ _) (by simp [pendingClears, RxThread.clearing])
      simp only [point, RxThread.inFlight]
      rw [if_neg (by omega)]
  | fill _ _ _ _ point | wakeUp _ point | thrdExit point =>
      refine accounts.keep inv single running trivial (fun _ _ => id) ?_
        (by simp [pendingClears, RxThread.clearing])
      simp only [elsewhere, point, RxThread.inFlight]
  | countFill idx cnt rv point =>
      have balance := accounts.balance
      have total : elsewhere { s with
          dev := { s.dev with stats := countDword s.dev.stats rv }
          rx := if 0 < rv then .poll idx cnt rv else .burst idx cnt rv } ledger =
            elsewhere s ledger + if 0 < rv then 1 else 0 := by
        simp only [elsewhere, point, RxThread.inFlight]
        split_ifs with high
        · simp only [if_pos high]
          omega
        · rfl
      refine { accounts with
        inv := inv, single := single, consistent := ?_, balance := ?_, discardedBound := ?_ }
      · dsimp only
        split_ifs with high
        · trivial
        · exact Int.not_lt.mp high
      · dsimp only [recordLedger]
        rw [total]
        exact count_dword_balanced rv balance
      · have bound := accounts.discardedBound
        have same : pendingClears { s with
            dev := { s.dev with stats := countDword s.dev.stats rv }
            rx := if 0 < rv then .poll idx cnt rv else .burst idx cnt rv } = pendingClears s := by
          simp only [pendingClears, point]
          split_ifs <;> rfl
        dsimp only [recordLedger]
        rw [same]
        exact bound
  | drained idx cnt rv point =>
      rw [point] at consistent
      refine accounts.keep inv single running trivial (fun _ _ => id) (moves _ ?_ _)
        (by simp [pendingClears, RxThread.clearing])
      rw [point]
      exact if_neg (Int.not_lt.mpr consistent)
  | leave idx cnt rv point ended =>
      refine accounts.keep inv single running ?_ (fun _ _ => id) (moves _ (by rw [point]; rfl) _)
        (by simp [pendingClears, RxThread.clearing])
      rcases ended with stopped | high
      · rw [running] at stopped
        cases stopped
      · exact high
  | publish idx rv point =>
      rw [point] at slot consistent
      have high : 0 < rv := consistent
      refine accounts.keep inv single running trivial (fun _ _ => publish_balanced idx) ?_
        (by simp [pendingClears, RxThread.clearing])
      have inserted : rxringUsed (rxringInsert s.dev.rxRing idx) = rxringUsed s.dev.rxRing + 1 :=
        used_insert (slot idx rfl).room
      have nonneg := (used_range s.dev.rxRing).1
      simp only [elsewhere, point, RxThread.inFlight, if_pos high, receivePacketPublish, inserted]
      omega
  | receiveReturn rv point =>
      refine accounts.keep inv single running ?_ (fun _ _ => id) (moves _ ?_ _) ?_
      · dsimp only
        split_ifs <;> trivial
      · rw [point]
        split_ifs <;> rfl
      · dsimp only [pendingClears]
        split_ifs <;> simp [RxThread.clearing]
  | copied nReady point positive =>
      have nonempty : 0 < rxringUsed s.dev.rxRing := accounts.inv.ready nReady point ▸ positive
      have removed := used_remove nonempty
      have balance := accounts.balance
      refine { accounts with inv := inv, single := single, balance := ?_ }
      have total : elsewhere s ledger = elsewhere { s with
          dev := { s.dev with rxRing := rxringRemove s.dev.rxRing } }
            { ledger with delivered := ledger.delivered + 1 } := by
        simp only [elsewhere, removed]
        omega
      dsimp only at balance
      rw [total] at balance
      exact balance
  | faulted nReady point positive invalid => exact absurd rfl inv.noFault
  | tick | signal | transferEnter | transferLock | unlockEmpty | prepareToWait | schedule
  | finishWait | interrupted | retry | transferUnlock =>
      exact { accounts with inv := inv, single := single }

theorem accounts_start (hz : Nat) : Accounts (ledgerSystem hz).start where
  inv := driver_probed_inv
  single := ⟨fun _ _ => rfl, by nofun⟩
  running := rfl
  consistent := trivial
  balance := balanced_zero 0
  wipedBound := Nat.zero_le _
  discardedBound := Nat.zero_le _

theorem reachable_accounts {hz : Nat} {state : Driver × Ledger}
    (reached : (ledgerSystem hz).Reachable state) : Accounts state := by
  apply reached.invariant Accounts
  · exact accounts_start hz
  · apply StepSystem.observe_preserved
    intro s action next ledger accounts taken
    obtain ⟨continued, moved⟩ := StepSystem.restrict_step_some.mp taken
    exact accounts_step accounts continued moved

theorem outside_in_flight {point : RxThread} (outside : point.outside = true) :
    point.inFlight = 0 := by
  cases point <;> first | rfl | cases outside

/-- The counters agree with the packets delivered and the packets in the ring. -/
def CountersAgree (state : Driver × Ledger) : Prop :=
  state.1.dev.stats.pktOk = state.1.dev.stats.pktLost +
    BitVec.ofNat 64 (state.2.delivered + (rxringUsed state.1.dev.rxRing).toNat)

instance (state : Driver × Ledger) : Decidable (CountersAgree state) :=
  inferInstanceAs (Decidable (_ = _))

/-- Outside `receive_packet` the counters agree exactly when the last reset threw
out as many packets as it forgot. -/
theorem counters_agree_iff {state : Driver × Ledger} (accounts : Accounts state)
    (outside : state.1.rx.outside = true) :
    CountersAgree state ↔ state.2.wiped = state.2.discarded := by
  have balance := accounts.balance
  have wipedBound := accounts.wipedBound
  have discardedBound := accounts.discardedBound
  simp only [elsewhere, outside_in_flight outside, Nat.add_zero] at balance
  exact balanced_iff balance (by omega) (by omega)

/-- No reset finds a packet in the ring, or one counted and not yet published. -/
def ResetFindsNothing (state : Driver × Ledger) : Action → Prop
  | .prepareWipe | .thrdWipe =>
      rxringUsed state.1.dev.rxRing = 0 ∧ state.1.rx.inFlight = 0
  | .prepareClear | .thrdClear => rxringUsed state.1.dev.rxRing = 0
  | _ => True

instance (state : Driver × Ledger) (action : Action) :
    Decidable (ResetFindsNothing state action) := by
  unfold ResetFindsNothing
  split <;> infer_instance

theorem nothing_reset_step {s next : Driver} {action : Action} {ledger : Ledger}
    (clean : ledger.wiped = 0 ∧ ledger.discarded = 0)
    (nothing : ResetFindsNothing (s, ledger) action) :
    (recordLedger s action next ledger).wiped = 0 ∧
      (recordLedger s action next ledger).discarded = 0 := by
  cases action with
  | prepareWipe | thrdWipe =>
      obtain ⟨empty, landed⟩ := nothing
      dsimp only at empty landed
      simp [recordLedger, empty, landed]
  | prepareClear | thrdClear =>
      have empty : rxringUsed s.dev.rxRing = 0 := nothing
      simpa [recordLedger, empty] using clean
  | consume =>
      dsimp only [recordLedger]
      split_ifs <;> exact clean
  | _ => exact clean

theorem reachable_nothing_reset {hz : Nat} {state : Driver × Ledger}
    (reached : ((ledgerSystem hz).restrict ResetFindsNothing).Reachable state) :
    Accounts state ∧ state.2.wiped = 0 ∧ state.2.discarded = 0 := by
  apply reached.invariant fun state =>
    Accounts state ∧ state.2.wiped = 0 ∧ state.2.discarded = 0
  · exact ⟨accounts_start hz, rfl, rfl⟩
  · apply StepSystem.restrict_observe_preserved
    intro s action next ledger before nothing taken
    obtain ⟨continued, moved⟩ := StepSystem.restrict_step_some.mp taken
    exact ⟨accounts_step before.1 continued moved, nothing_reset_step before.2 nothing⟩

/-- In every run whose resets find nothing the counters agree outside
`receive_packet`; and in any run they agree exactly when the last reset threw out
as many packets as it forgot. -/
theorem packet_accounting (hz : Nat) :
    (∀ state, ((ledgerSystem hz).restrict ResetFindsNothing).Reachable state →
        state.1.rx.outside = true → CountersAgree state) ∧
      ∀ state, (ledgerSystem hz).Reachable state → state.1.rx.outside = true →
        (CountersAgree state ↔ state.2.wiped = state.2.discarded) := by
  constructor
  · intro state reached outside
    obtain ⟨accounts, wiped, discarded⟩ := reachable_nothing_reset reached
    exact (counters_agree_iff accounts outside).mpr (wiped.trans discarded.symm)
  · intro state reached outside
    exact counters_agree_iff (reachable_accounts reached) outside

theorem packet_accounting_after_two_packets :
    ∃ state : Driver × Ledger, state.1.dev.stats.pktOk = 2 ∧ state.2.delivered = 1 ∧
      CountersAgree state := by
  obtain ⟨state, reached, passes⟩ := StepSystem.reachable_of_run
    ((ledgerSystem 250).restrict ResetFindsNothing)
    (startSchedule ++ receiveSchedule samplePacket ++ receiveSchedule samplePacket ++
      transferSchedule)
    (fun state => decide (state.1.dev.stats.pktOk = 2 ∧ state.2.delivered = 1 ∧
      state.1.rx.outside = true)) (by decide +kernel)
  obtain ⟨counted, delivered, outside⟩ := of_decide_eq_true passes
  exact ⟨state, counted, delivered, (packet_accounting 250).1 state reached outside⟩

/-- An idle reset between the count of a packet and its publish: the packet is
in the ring and `pkt_ok` no longer knows of it. -/
theorem reset_forgets_counted_packet :
    ¬∀ (hz : Nat) (state : Driver × Ledger), (ledgerSystem hz).Reachable state →
      state.1.rx.outside = true → CountersAgree state := by
  intro always
  obtain ⟨state, reached, passes⟩ := StepSystem.reachable_of_run (ledgerSystem 250)
    (startSchedule ++ fillSchedule samplePacket ++
      ([.tick 2000, .prepareEnter, .prepareTest, .prepareWipe, .prepareClear, .prepareStamp,
        .publish, .wakeUp] : List Action))
    (fun state => decide (state.1.rx.outside = true ∧ ¬CountersAgree state)) (by decide +kernel)
  obtain ⟨outside, unbalanced⟩ := of_decide_eq_true passes
  exact unbalanced (always 250 state reached outside)

end Testings.SpiSlave
