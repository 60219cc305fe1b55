import Testings.SpiSlaveRepresentation

/-!
# Wake-ups of the reader

`spi_imx_transfer` tests `RXRING_USED` before it registers on `rx_wq` and does
not test it again before `schedule()`. A `wake_up` that comes after the unlock
and before `prepare_to_wait` finds nobody to wake. Without such a step a packet
in the ring always has its `wake_up` ahead of it while the reader waits, and
with such a step the reader falls asleep over a packet.
-/

set_option autoImplicit false

namespace Testings.SpiSlave

/-- A published packet is waiting for its `wake_up`. -/
def RxThread.waking : RxThread → Bool
  | .wake _ => true
  | _ => false

/-- The reader has seen an empty ring and nobody has woken it since. -/
def Reader.waiting : Reader → Bool
  | .unlocked | .prepared true | .asleep => true
  | _ => false

/-- The reader sleeps over a packet and no `wake_up` is on its way. -/
def WakeupLost (s : Driver) : Prop :=
  s.reader = .asleep ∧ rxringUsed s.dev.rxRing ≠ 0 ∧ s.rx.waking = false

instance (s : Driver) : Decidable (WakeupLost s) :=
  inferInstanceAs (Decidable (_ ∧ _))

/-- No `wake_up` between the unlock and `prepare_to_wait` while there is a packet. -/
def WakeupHeard (s : Driver) (action : Action) : Prop :=
  action = .wakeUp → s.reader = .unlocked → rxringUsed s.dev.rxRing = 0

instance (s : Driver) (action : Action) : Decidable (WakeupHeard s action) :=
  inferInstanceAs (Decidable (_ → _))

structure WaitInv (s : Driver) : Prop where
  inv : DriverInv s
  single : SingleReceiver s
  announced : s.reader.waiting = true → rxringUsed s.dev.rxRing ≠ 0 → s.rx.waking = true

theorem woken_up_waiting {reader : Reader} (waiting : reader.wokenUp.waiting = true) :
    reader = .unlocked := by
  cases reader with
  | unlocked => rfl
  | _ => cases waiting

theorem reserve_used {dev : SpiImx} (empty : rxringUsed dev.rxRing = 0) :
    rxringUsed (receivePacketReserve dev).1.rxRing = 0 := by
  have room : rxringVacant dev.rxRing ≠ 0 := by
    intro full
    rw [(vacant_zero_iff _).mp full] at empty
    cases empty
  rw [reserve_ring, ringWithRoom, if_neg room]
  exact empty

/-- A step of another party that neither fills the ring nor ends a pending `wake_up`. -/
theorem WaitInv.keep {s next : Driver} (before : WaitInv s) (inv : DriverInv next)
    (single : SingleReceiver next)
    (waiting : next.reader.waiting = true → s.reader.waiting = true)
    (used : rxringUsed s.dev.rxRing = 0 → rxringUsed next.dev.rxRing = 0)
    (waking : s.rx.waking = true → next.rx.waking = true) : WaitInv next where
  inv := inv
  single := single
  announced waits packet := waking (before.announced (waiting waits) (mt used packet))

theorem wait_inv_step {hz : Nat} {s next : Driver} {action : Action} (before : WaitInv s)
    (heard : WakeupHeard s action) (taken : step hz s action = some next) : WaitInv next := by
  have inv := step_driver_inv before.inv taken
  have single := step_single_receiver before.single taken
  cases step_cases taken with
  | signal =>
      apply before.keep inv single _ id id
      dsimp only
      split_ifs
      · nofun
      · exact id
  | prepareClear =>
      apply before.keep inv single id _ id
      exact fun _ => clear_used _
  | launched point stopped =>
      have absent := before.single.named stopped (by simp [point])
      apply before.keep inv single id id
      rw [absent]
      nofun
  | thrdClear =>
      refine ⟨inv, single, ?_⟩
      intro _ packet
      exact absurd (clear_used _) packet
  | reserve point => exact before.keep inv single id reserve_used (by rw [point]; nofun)
  | thrdWipe point | thrdExit point
  | noFreeSlot _ point | tooManyLost _ point | startFilling _ point | receiveReturn _ point
  | countFill _ _ _ point | drained _ _ _ point | leave _ _ _ point
  | pollStatus _ _ _ _ point | fill _ _ _ _ point =>
      -- no `wake_up` is pending at these points
      exact before.keep inv single id id (by rw [point]; nofun)
  | publish => exact ⟨inv, single, fun _ _ => rfl⟩
  | wakeUp rv point =>
      refine ⟨inv, single, ?_⟩
      intro waits packet
      exact absurd (heard rfl (woken_up_waiting waits)) packet
  | unlockEmpty point =>
      refine ⟨inv, single, ?_⟩
      intro _ packet
      exact absurd (before.inv.ready 0 point).symm packet
  | prepareToWait point => exact before.keep inv single (by rw [point]; exact id) id id
  | schedule interruptible point =>
      apply before.keep inv single _ id id
      rw [point]
      cases interruptible with
      | true => exact fun _ => rfl
      | false => exact id
  | transferEnter | transferLock | finishWait | interrupted | retry | copied | faulted |
    transferUnlock => exact ⟨inv, single, by nofun⟩
  | _ => exact before.keep inv single id id id

theorem reachable_wait_inv {hz : Nat} {s : Driver}
    (reached : ((driver hz).restrict WakeupHeard).Reachable s) : WaitInv s := by
  apply reached.invariant WaitInv
  · exact ⟨driver_probed_inv, ⟨fun _ _ => rfl, by nofun⟩, by nofun⟩
  · apply StepSystem.restrict_preserved
    intro s action next before heard taken
    exact wait_inv_step before heard taken

/-- An unheard `wake_up` puts the reader to sleep over the packet, unless a
signal is pending. -/
theorem unheard_wakeup_lost {hz : Nat} {s next : Driver} {action : Action}
    (unheard : ¬WakeupHeard s action) (taken : step hz s action = some next)
    (quiet : s.signalPending = false) :
    ∃ final, (driver hz).runFrom next [.prepareToWait, .schedule] = some final ∧
      WakeupLost final := by
  unfold WakeupHeard at unheard
  push Not at unheard
  obtain ⟨rfl, unlocked, packet⟩ := unheard
  cases step_cases taken with
  | wakeUp rv point =>
      refine ⟨{ s with rx := .returned rv, reader := .asleep }, ?_, rfl, packet, rfl⟩
      simp [StepSystem.runFrom, driver, step, unlocked, Reader.wokenUp, quiet]

/-- In a run whose every `wake_up` is heard no wake-up is lost; and one that is
not heard can be lost at once. -/
theorem no_lost_wakeup (hz : Nat) :
    (∀ s, ((driver hz).restrict WakeupHeard).Reachable s → ¬WakeupLost s) ∧
      ∀ s action next, ¬WakeupHeard s action → step hz s action = some next →
        s.signalPending = false →
          ∃ final, (driver hz).runFrom next [.prepareToWait, .schedule] = some final ∧
            WakeupLost final := by
  constructor
  · rintro s reached ⟨asleep, packet, silent⟩
    have announced := (reachable_wait_inv reached).announced (by rw [asleep]; rfl) packet
    rw [silent] at announced
    cases announced
  · intro s action next unheard taken quiet
    exact unheard_wakeup_lost unheard taken quiet

/-- The packet is published after `prepare_to_wait`, and the reader gets it. -/
theorem no_lost_wakeup_when_registered :
    ∃ s : Driver, s.reader = .asleep ∧ rxringUsed s.dev.rxRing = 1 ∧ ¬WakeupLost s := by
  obtain ⟨s, reached, passes⟩ := StepSystem.reachable_of_run ((driver 250).restrict WakeupHeard)
    (startSchedule ++ fillSchedule samplePacket ++
      ([.transferEnter, .transferLock, .unlockEmpty, .prepareToWait, .schedule, .publish] :
        List Action))
    (fun s => decide (s.reader = .asleep ∧ rxringUsed s.dev.rxRing = 1)) (by decide +kernel)
  obtain ⟨asleep, used⟩ := of_decide_eq_true passes
  exact ⟨s, asleep, used, (no_lost_wakeup 250).1 s reached⟩

/-- Publish and `wake_up` between the unlock and `prepare_to_wait`. -/
theorem wakeup_lost_before_prepare_to_wait :
    ¬∀ (hz : Nat) (s : Driver), (driver hz).Reachable s → ¬WakeupLost s := by
  intro never
  obtain ⟨s, reached, passes⟩ := StepSystem.reachable_of_run (driver 250)
    (startSchedule ++ fillSchedule samplePacket ++
      ([.transferEnter, .transferLock, .unlockEmpty, .publish, .wakeUp, .prepareToWait,
        .schedule] : List Action))
    (fun s => decide (WakeupLost s)) (by decide +kernel)
  exact never 250 s reached (of_decide_eq_true passes)

end Testings.SpiSlave
