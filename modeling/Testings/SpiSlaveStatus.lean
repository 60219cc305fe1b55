import Testings.SpiSlaveDriver

/-!
# The high-water mark of the ring

`receive_packet` keeps in `max_ring_used` the greatest number of packets that were queued right
behind an insertion; `proc_status_show` prints it and sets it back. It prints and resets without
the lock, so a packet that is inserted in between, and any other reader of `/proc`, finds the old
mark and loses it to the reset.
-/

set_option autoImplicit false

namespace Testings.SpiSlave

/-- `showing` counts the readers of `/proc` between their `seq_printf` and their reset. -/
structure StatusDriver where
  driver : Driver
  showing : Nat

inductive StatusAction where
  | driver (action : Action)
  | print
  | reset
  deriving DecidableEq

def statusStep (hz : Nat) (s : StatusDriver) : StatusAction → Option StatusDriver
  | .driver action => (step hz s.driver action).map fun driver => { s with driver := driver }
  | .print => some { s with showing := s.showing + 1 }
  | .reset =>
      if 0 < s.showing then
        let stats := { s.driver.dev.stats with maxRingUsed := 0 }
        some { driver := { s.driver with dev := { s.driver.dev with stats := stats } }
               showing := s.showing - 1 }
      else none

def status (hz : Nat) : StepSystem StatusDriver StatusAction where
  start := ⟨driverProbed, 0⟩
  step := statusStep hz

/-- The queue lengths behind the insertions since the mark was last zeroed, and each printed mark
with the lengths it was printed for. -/
structure StatusLog where
  since : List Nat
  shown : List (Nat × List Nat)
  deriving DecidableEq

def recordStatus (s : StatusDriver) (action : StatusAction) (next : StatusDriver)
    (log : StatusLog) : StatusLog :=
  match action with
  | .driver .prepareWipe | .driver .thrdWipe | .reset => { log with since := [] }
  | .driver .publish =>
      { log with since := log.since ++ [(rxringUsed next.driver.dev.rxRing).toNat] }
  | .print =>
      { log with shown := log.shown ++ [(s.driver.dev.stats.maxRingUsed.toNat, log.since)] }
  | _ => log

def statusSystem (hz : Nat) : StepSystem (StatusDriver × StatusLog) StatusAction :=
  (status hz).observe ⟨[], []⟩ recordStatus

/-- `mark` is the greatest of `lengths`, each of which fits the ring. -/
structure HighWater (mark : Nat) (lengths : List Nat) : Prop where
  greatest : mark = lengths.foldl max 0
  fits : mark < rxRingPackets

theorem high_water_zero : HighWater 0 [] := ⟨rfl, by decide⟩

theorem HighWater.insert {mark used : Nat} {lengths : List Nat} (high : HighWater mark lengths)
    (fits : used < rxRingPackets) : HighWater (max mark used) (lengths ++ [used]) where
  greatest := by
    rw [List.foldl_append, ← high.greatest]
    rfl
  fits := by
    have before := high.fits
    omega

structure StatusInv (state : StatusDriver × StatusLog) : Prop where
  mark : HighWater state.1.driver.dev.stats.maxRingUsed.toNat state.2.since
  shown : ∀ print ∈ state.2.shown, HighWater print.1 print.2

/-- Most steps of the driver leave the mark alone. -/
theorem StatusInv.keep {s : StatusDriver} {log : StatusLog} (inv : StatusInv (s, log))
    {next : Driver} (same : next.dev.stats.maxRingUsed = s.driver.dev.stats.maxRingUsed) :
    StatusInv ({ s with driver := next }, log) where
  mark := by
    have before := inv.mark
    dsimp only at before ⊢
    rwa [same]
  shown := inv.shown

theorem StatusInv.zeroed {s next : StatusDriver} {log : StatusLog} (inv : StatusInv (s, log))
    (zero : next.driver.dev.stats.maxRingUsed = 0) :
    StatusInv (next, { log with since := [] }) where
  mark := by
    dsimp only
    rw [zero]
    exact high_water_zero
  shown := inv.shown

theorem publish_mark (dev : SpiImx) (idx : Int) :
    (receivePacketPublish dev idx).stats.maxRingUsed.toNat =
      max dev.stats.maxRingUsed.toNat
        (rxringUsed (receivePacketPublish dev idx).rxRing).toNat := by
  have range := used_range (rxringInsert dev.rxRing idx)
  have word : (BitVec.ofInt 32 (rxringUsed (rxringInsert dev.rxRing idx))).toNat =
      (rxringUsed (rxringInsert dev.rxRing idx)).toNat := by
    rw [BitVec.toNat_ofInt]
    unfold rxRingPackets at range
    omega
  unfold receivePacketPublish
  dsimp only
  split_ifs with more
  · rw [BitVec.lt_def, word] at more
    dsimp only
    omega
  · rw [BitVec.lt_def, word] at more
    omega

theorem StatusInv.published {s : StatusDriver} {log : StatusLog} (inv : StatusInv (s, log))
    {next : Driver} (mark : next.dev.stats.maxRingUsed.toNat =
      max s.driver.dev.stats.maxRingUsed.toNat (rxringUsed next.dev.rxRing).toNat) :
    StatusInv ({ s with driver := next },
      { log with since := log.since ++ [(rxringUsed next.dev.rxRing).toNat] }) where
  mark := by
    have range := used_range next.dev.rxRing
    dsimp only
    rw [mark]
    apply inv.mark.insert
    omega
  shown := inv.shown

theorem StatusInv.printed {s : StatusDriver} {log : StatusLog} (inv : StatusInv (s, log)) :
    StatusInv ({ s with showing := s.showing + 1 },
      { log with shown := log.shown ++ [(s.driver.dev.stats.maxRingUsed.toNat, log.since)] }) where
  mark := inv.mark
  shown := by
    intro print present
    rcases List.mem_append.mp present with old | new
    · exact inv.shown print old
    · rw [List.mem_singleton.mp new]
      exact inv.mark

theorem status_step {hz : Nat} {s next : StatusDriver} {action : StatusAction} {log : StatusLog}
    (inv : StatusInv (s, log)) (taken : statusStep hz s action = some next) :
    StatusInv (next, recordStatus s action next log) := by
  cases action with
  | print =>
      cases taken
      exact inv.printed
  | reset =>
      rw [statusStep] at taken
      split_ifs at taken
      cases taken
      exact inv.zeroed rfl
  | driver action =>
      rw [statusStep, Option.map_eq_some_iff] at taken
      rcases taken with ⟨after, moved, same⟩
      subst same
      cases step_cases moved with
      | prepareWipe | thrdWipe => exact inv.zeroed rfl
      | publish idx rv => exact inv.published (publish_mark s.driver.dev idx)
      | reserve =>
          apply inv.keep
          dsimp only
          rw [reserve_eq]
      | pollStatus stat =>
          apply inv.keep
          dsimp only [countOverrun]
          split_ifs <;> rfl
      | countFill idx cnt rv =>
          apply inv.keep
          dsimp only [countDword]
          split_ifs <;> rfl
      | _ => exact inv.keep rfl

/-- In every run, however many tasks read `/proc` and however their prints and resets fall between
the steps of the driver: the mark is the greatest queue length behind an insertion since it was
last zeroed, by a reset or by a wipe of the counters, and so was each printed mark in its turn; no
mark reaches the size of the ring. -/
theorem high_water_mark (hz : Nat) (s : StatusDriver) (log : StatusLog)
    (reached : (statusSystem hz).Reachable (s, log)) :
    HighWater s.driver.dev.stats.maxRingUsed.toNat log.since ∧
      ∀ print ∈ log.shown, HighWater print.1 print.2 := by
  have inv : StatusInv (s, log) := by
    apply reached.invariant StatusInv
    · exact ⟨high_water_zero, List.forall_mem_nil _⟩
    · apply StepSystem.observe_preserved
      intro state action next log before taken
      exact status_step before taken
  exact ⟨inv.mark, inv.shown⟩

/-- One packet, a first reader's print, a second packet, a second reader's whole turn and the
first reader's reset: the second packet has been shown, but only by the second reader. -/
theorem high_water_mark_two_readers :
    ∃ s log, (statusSystem 100).Reachable (s, log) ∧ log.shown = [(1, [1]), (2, [1, 2])] ∧
      HighWater 2 [1, 2] ∧ HighWater s.driver.dev.stats.maxRingUsed.toNat [] := by
  rcases StepSystem.reachable_of_run (statusSystem 100)
    ((startSchedule ++ receiveSchedule samplePacket).map .driver ++ [.print] ++
      (receiveSchedule samplePacket).map .driver ++ [.print, .reset, .reset])
    (fun state => decide (state.2 = ⟨[], [(1, [1]), (2, [1, 2])]⟩)) (by decide +kernel)
    with ⟨⟨s, log⟩, reached, passes⟩
  have same : log = ⟨[], [(1, [1]), (2, [1, 2])]⟩ := of_decide_eq_true passes
  subst same
  have marks := high_water_mark 100 s _ reached
  exact ⟨s, _, reached, rfl, marks.2 (2, [1, 2]) (by decide), marks.1⟩

end Testings.SpiSlave
