import Testings.SpiSlaveDriver

/-!
# The representation invariant of the receive ring

The slot that the receiving thread has reserved is outside the queue and there
is room to insert it; the reader's `n_ready` is current while it holds
`rx_lock`. Each step keeps this, so neither `-EFAULT` branch is ever taken.
-/

set_option autoImplicit false

namespace Testings.SpiSlave

/-- The slot reserved and not yet published. -/
def RxThread.slot : RxThread → Option Int
  | .reserved idx | .poll idx _ _ | .burst idx _ _ | .count idx _ _ | .publish idx _ => some idx
  | _ => none

/-- The value of `rv` at the points that have one. -/
def RxThread.result : RxThread → Option Int
  | .poll _ _ rv | .burst _ _ rv | .count _ _ rv
  | .publish _ rv | .wake rv | .returned rv => some rv
  | _ => none

structure SlotReserved (ring : CircBuf) (idx : Int) : Prop where
  lower : 0 ≤ idx
  upper : idx < rxRingPackets
  fresh : idx ∉ ring.entries
  room : rxringUsed ring + 1 < rxRingPackets

structure DriverInv (s : Driver) : Prop where
  ring : RingInv s.dev.rxRing
  slot : ∀ idx ∈ s.rx.slot, SlotReserved s.dev.rxRing idx
  result : ∀ rv ∈ s.rx.result, -3 ≤ rv
  ready : ∀ nReady, s.reader = .checked nReady → nReady = rxringUsed s.dev.rxRing
  noFault : s.reader ≠ .faulted

theorem SlotReserved.clear {ring : CircBuf} {idx : Int} (reserved : SlotReserved ring idx) :
    SlotReserved (rxringClear ring) idx where
  lower := reserved.lower
  upper := reserved.upper
  fresh := by simp
  room := by
    rw [clear_used]
    decide

theorem SlotReserved.remove {ring : CircBuf} {idx : Int} (reserved : SlotReserved ring idx)
    (inv : RingInv ring) (nonempty : 0 < rxringUsed ring) :
    SlotReserved (rxringRemove ring) idx where
  lower := reserved.lower
  upper := reserved.upper
  fresh := by
    intro member
    apply reserved.fresh
    rw [entries_remove inv nonempty]
    exact List.mem_cons_of_mem _ member
  room := by
    have removed := used_remove nonempty
    have room := reserved.room
    omega

theorem reserve_slot_reserved {dev : SpiImx} (inv : RingInv dev.rxRing) :
    SlotReserved (receivePacketReserve dev).1.rxRing (receivePacketReserve dev).2 := by
  obtain ⟨kept, room⟩ := ring_with_room_spec inv
  obtain ⟨lower, upper, fresh⟩ := get_free_idx_spec kept
  rw [reserve_ring, reserve_idx]
  exact ⟨lower, upper, fresh, room⟩

theorem tail_idx_mem {ring : CircBuf} (inv : RingInv ring) (nonempty : 0 < rxringUsed ring) :
    rxringTailIdx ring ∈ ring.entries := by
  rw [entries_remove inv nonempty]
  exact List.mem_cons_self

/-- Sections other than the reader's own wait for the lock, so no stale
`n_ready` survives them. -/
theorem not_checked_of_unlocked {reader : Reader} (unlocked : reader.holdsLock = false)
    (nReady : Int) : reader ≠ .checked nReady := by
  rintro rfl
  cases unlocked

theorem woken_up_checked {reader : Reader} {nReady : Int}
    (checked : reader.wokenUp = .checked nReady) : reader = .checked nReady := by
  cases reader <;> simp_all [Reader.wokenUp]

theorem woken_up_not_faulted {reader : Reader} (sound : reader ≠ .faulted) :
    reader.wokenUp ≠ .faulted := by
  cases reader <;> simp_all [Reader.wokenUp]

theorem driver_probed_inv : DriverInv driverProbed where
  ring := probed_ring_inv
  slot := by simp [driverProbed, RxThread.slot]
  result := by simp [driverProbed, RxThread.result]
  ready := by simp [driverProbed]
  noFault := by simp [driverProbed]

theorem step_driver_inv {hz : Nat} {s next : Driver} {action : Action} (inv : DriverInv s)
    (taken : step hz s action = some next) : DriverInv next := by
  have slot := inv.slot
  have result := inv.result
  have ready := inv.ready
  cases step_cases taken with
  | tick elapsed => exact { inv with }
  | signal =>
      refine { inv with ready := ?_, noFault := ?_ }
      · intro nReady
        dsimp only
        split_ifs
        · nofun
        · exact ready nReady
      · dsimp only
        split_ifs
        · nofun
        · exact inv.noFault
  | prepareClear now point unlocked =>
      exact { inv with
        ring := clear_inv _
        slot := fun idx member => (slot idx member).clear
        ready := fun nReady checked => absurd checked (not_checked_of_unlocked unlocked nReady) }
  | thrdClear point unlocked =>
      exact { inv with
        ring := clear_inv _
        slot := by nofun
        result := by nofun
        ready := fun nReady checked => absurd checked (not_checked_of_unlocked unlocked nReady) }
  | reserve point unlocked =>
      refine { inv with ring := ?_, slot := ?_, result := by nofun, ready := ?_ }
      · dsimp only
        rw [reserve_ring]
        exact (ring_with_room_spec inv.ring).1
      · intro idx member
        cases member
        exact reserve_slot_reserved inv.ring
      · exact fun nReady checked => absurd checked (not_checked_of_unlocked unlocked nReady)
  | noFreeSlot idx point full =>
      rw [point] at slot
      have lower := (slot idx rfl).lower
      omega
  | tooManyLost =>
      exact { inv with slot := by nofun, result := by simp [RxThread.result] }
  | startFilling idx point =>
      rw [point] at slot
      exact { inv with slot := slot, result := by simp [RxThread.result] }
  | pollStatus stat idx cnt rv point =>
      rw [point] at slot result
      exact { inv with slot := slot, result := result }
  | fill val idx cnt rv point =>
      rw [point] at slot
      refine { inv with slot := slot, result := ?_ }
      intro rv member
      cases member
      exact paketizer_result _ _ _ _
  | countFill idx cnt rv point =>
      rw [point] at slot result
      refine { inv with slot := ?_, result := ?_ }
      · dsimp only
        split_ifs <;> exact slot
      · dsimp only
        split_ifs <;> exact result
  | drained idx cnt rv point =>
      rw [point] at slot result
      exact { inv with slot := slot, result := result }
  | leave idx cnt rv point =>
      rw [point] at slot result
      exact { inv with slot := slot, result := result }
  | publish idx rv point unlocked =>
      rw [point] at slot result
      have reserved := slot idx rfl
      exact { inv with
        ring := insert_inv inv.ring reserved.room reserved.lower reserved.upper reserved.fresh
        slot := by nofun
        result := result
        ready := fun nReady checked => absurd checked (not_checked_of_unlocked unlocked nReady) }
  | wakeUp rv point =>
      rw [point] at result
      exact { inv with
        slot := by nofun
        result := result
        ready := fun nReady checked => ready nReady (woken_up_checked checked)
        noFault := woken_up_not_faulted inv.noFault }
  | receiveReturn rv point =>
      refine { inv with slot := ?_, result := ?_ }
      · dsimp only
        split_ifs <;> nofun
      · dsimp only
        split_ifs <;> nofun
  | transferLock =>
      refine { inv with ready := ?_, noFault := by nofun }
      intro nReady checked
      cases checked
      rfl
  | schedule =>
      refine { inv with ready := ?_, noFault := ?_ }
      · dsimp only
        split_ifs <;> nofun
      · dsimp only
        split_ifs <;> nofun
  | copied nReady point positive valid =>
      have nonempty : 0 < rxringUsed s.dev.rxRing := ready nReady point ▸ positive
      exact { inv with
        ring := remove_inv inv.ring nonempty
        slot := fun idx member => (slot idx member).remove inv.ring nonempty
        ready := by nofun
        noFault := by nofun }
  | faulted nReady point positive invalid =>
      have nonempty : 0 < rxringUsed s.dev.rxRing := ready nReady point ▸ positive
      have valid := (inv.ring.inRange _ (tail_idx_mem inv.ring nonempty)).1
      omega
  | kthreadStop | prepareEnter | prepareTest | prepareWipe | prepareStamp | alreadyRunning
  | launchFailed | prepareAssign =>
      exact { inv with }
  | launched | thrdWipe | thrdExit =>
      exact { inv with slot := by nofun, result := by nofun }
  | transferEnter | unlockEmpty | prepareToWait | finishWait | interrupted | retry
  | transferUnlock =>
      exact { inv with ready := by nofun, noFault := by nofun }

theorem reachable_driver_inv {hz : Nat} {s : Driver} (reached : (driver hz).Reachable s) :
    DriverInv s :=
  reached.invariant DriverInv driver_probed_inv fun _ _ _ inv taken => step_driver_inv inv taken

/-- A receiving thread exists only while `rx_thrd` names it, or before the
launch has stored it. -/
structure SingleReceiver (s : Driver) : Prop where
  named : s.dev.rxThrd = false → s.prepare ≠ .assign true → s.rx = .absent
  storing : ∀ thrd, s.prepare = .assign thrd → s.dev.rxThrd = false

theorem step_single_receiver {hz : Nat} {s next : Driver} {action : Action}
    (inv : SingleReceiver s) (taken : step hz s action = some next) : SingleReceiver next := by
  have named := inv.named
  have storing := inv.storing
  have reserveKeeps : (receivePacketReserve s.dev).1.rxThrd = s.dev.rxThrd := by
    rw [reserve_eq]
  cases step_cases taken
  case prepareTest now point =>
    constructor
    · intro stopped _
      exact named stopped (by simp [point])
    · intro thrd assigning
      dsimp only at assigning
      split_ifs at assigning
  case prepareAssign thrd point =>
    refine ⟨fun stopped _ => ?_, by nofun⟩
    dsimp only at stopped
    exact named (storing thrd point) (by simp [point, stopped])
  case thrdExit point =>
    exact ⟨fun _ _ => rfl, fun _ _ => rfl⟩
  all_goals constructor <;> simp_all [receivePacketPublish]

theorem reachable_single_receiver {hz : Nat} {s : Driver} (reached : (driver hz).Reachable s) :
    SingleReceiver s :=
  reached.invariant SingleReceiver ⟨fun _ _ => rfl, by nofun⟩
    fun _ _ _ inv taken => step_single_receiver inv taken

/-- `init_rx_thread` never starts a second receiving thread. -/
theorem launch_finds_no_receiver {hz : Nat} {s : Driver} (reached : (driver hz).Reachable s)
    (point : s.prepare = .launch) (stopped : s.dev.rxThrd = false) : s.rx = .absent :=
  (reachable_single_receiver reached).named stopped (by simp [point])

theorem ring_arrays_agree (hz : Nat) (s : Driver) (reached : (driver hz).Reachable s) :
    s.dev.rxRing.entries.Nodup ∧
      (∀ idx ∈ s.dev.rxRing.entries, 0 ≤ idx ∧ idx < rxRingPackets) ∧
      (∀ idx, 0 ≤ idx → idx < rxRingPackets →
        (rxringFlag s.dev.rxRing idx ≠ 0 ↔ idx ∈ s.dev.rxRing.entries)) ∧
      (∀ idx ∈ s.rx.slot, idx ∉ s.dev.rxRing.entries) ∧
      0 ≤ (receivePacketReserve s.dev).2 ∧
      (rxringUsed s.dev.rxRing ≠ 0 → 0 ≤ rxringTailIdx s.dev.rxRing) ∧
      s.rx ≠ .returned efault ∧ s.reader ≠ .faulted := by
  have inv := reachable_driver_inv reached
  refine ⟨inv.ring.distinct, inv.ring.inRange, inv.ring.flags, ?_, ?_, ?_, ?_, inv.noFault⟩
  · intro idx member
    exact (inv.slot idx member).fresh
  · exact (reserve_slot_reserved inv.ring).lower
  · intro nonempty
    have positive : 0 < rxringUsed s.dev.rxRing := by
      have := (used_range s.dev.rxRing).1
      omega
    exact (inv.ring.inRange _ (tail_idx_mem inv.ring positive)).1
  · intro returned
    have low := inv.result efault (by rw [returned]; rfl)
    exact absurd low (by decide)

theorem ring_arrays_agree_while_filling :
    ∃ s : Driver, rxringUsed s.dev.rxRing = 1 ∧ s.rx.slot = some 1 ∧
      (∀ idx ∈ s.rx.slot, idx ∉ s.dev.rxRing.entries) ∧
      (rxringUsed s.dev.rxRing ≠ 0 → 0 ≤ rxringTailIdx s.dev.rxRing) := by
  obtain ⟨s, reached, passes⟩ := StepSystem.reachable_of_run (driver 250)
    (startSchedule ++ receiveSchedule samplePacket ++ fillSchedule samplePacket)
    (fun s => decide (rxringUsed s.dev.rxRing = 1 ∧ s.rx.slot = some 1)) (by decide +kernel)
  obtain ⟨used, slot⟩ := of_decide_eq_true passes
  have agree := ring_arrays_agree 250 s reached
  exact ⟨s, used, slot, agree.2.2.2.1, agree.2.2.2.2.2.1⟩

end Testings.SpiSlave
