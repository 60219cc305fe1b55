import Testings.SpiSlaveDriver
import Mathlib.Data.BitVec

/-!
# The idle reset of `spi_imx_prepare_message`

The time stamp of the last message lives in the statistics, and both resets
wipe it with them. `CallLog` keeps the unbounded times of the calls beside the
run and remembers whether the stamp of the last call is still there. While it
is, the 32-bit difference never exceeds the real one, so a reset means that the
reader was idle; a receiving thread that starts after the call loses the stamp.
-/

set_option autoImplicit false

namespace Testings.SpiSlave

structure CallLog where
  earlier : List Nat
  current : Nat
  stampLost : Bool

def recordCall (s : Driver) (action : Action) (_ : Driver) (log : CallLog) : CallLog :=
  match action with
  | .prepareEnter => { log with current := s.jiffies }
  | .prepareWipe | .thrdWipe => { log with stampLost := true }
  | .prepareStamp =>
      { log with earlier := log.current :: log.earlier, stampLost := false }
  | _ => log

def callSystem (hz : Nat) : StepSystem (Driver × CallLog) Action :=
  (driver hz).observe ⟨[], 0, true⟩ recordCall

/-- No earlier call in the preceding `4*HZ` jiffies. -/
def ReaderIdle (hz : Nat) (log : CallLog) : Prop :=
  ∀ time ∈ log.earlier, 4 * hz < log.current - time

instance (hz : Nat) (log : CallLog) : Decidable (ReaderIdle hz log) :=
  inferInstanceAs (Decidable (∀ time ∈ log.earlier, 4 * hz < log.current - time))

/-- A call that has decided to reset does so after an idle reader. -/
def ResetOnlyWhenIdle (hz : Nat) (state : Driver × CallLog) : Prop :=
  ∀ now, state.1.prepare = .wipe now ∨ state.1.prepare = .clear now → ReaderIdle hz state.2

/-- At its test the stamp of the last call is in place, or the last call is long
ago anyway, or `jiffies` itself is still small in its low 32 bits. -/
def StampInPlace (hz : Nat) (state : Driver × CallLog) (action : Action) : Prop :=
  action = .prepareTest →
    state.2.stampLost = false ∨ ReaderIdle hz state.2 ∨ state.2.current % 2 ^ 32 ≤ 4 * hz

instance (hz : Nat) (state : Driver × CallLog) (action : Action) :
    Decidable (StampInPlace hz state action) :=
  inferInstanceAs (Decidable (_ → _))

/-- `now_jiffies`, while the call still needs it. -/
def PrepareMessage.nowJiffies : PrepareMessage → Option (BitVec 64)
  | .test now | .wipe now | .clear now | .stamp now => some now
  | _ => none

structure StampInv (state : Driver × CallLog) : Prop where
  lost : state.2.stampLost = true → state.1.dev.stats.lastMessageJiffies = 0
  kept : state.2.stampLost = false → ∃ last rest, state.2.earlier = last :: rest ∧
    state.1.dev.stats.lastMessageJiffies = BitVec.ofNat 64 last
  latest : ∀ last rest, state.2.earlier = last :: rest → ∀ time ∈ rest, time ≤ last
  past : ∀ time ∈ state.2.earlier, time ≤ state.2.current
  clock : state.2.current ≤ state.1.jiffies
  now : ∀ now ∈ state.1.prepare.nowJiffies, now = BitVec.ofNat 64 state.2.current

theorem of_nat_sub {current last : Nat} (earlier : last ≤ current) :
    BitVec.ofNat 64 current - BitVec.ofNat 64 last = BitVec.ofNat 64 (current - last) := by
  rw [sub_eq_iff_eq_add, ← BitVec.ofNat_add, Nat.sub_add_cancel earlier]

/-- Both truncations only shorten the elapsed time. -/
theorem expired_elapsed {hz current last : Nat} (earlier : last ≤ current)
    (expired : idleExpired hz (BitVec.ofNat 64 current) (BitVec.ofNat 64 last) = true) :
    4 * hz < current - last := by
  rw [idleExpired, of_nat_sub earlier, decide_eq_true_eq, BitVec.toNat_setWidth,
    BitVec.toNat_ofNat] at expired
  have outer := Nat.mod_le ((current - last) % 2 ^ 64) (2 ^ 32)
  have inner := Nat.mod_le (current - last) (2 ^ 64)
  omega

/-- Against a wiped stamp the test reads `jiffies` itself. -/
theorem expired_wiped (hz current : Nat) :
    idleExpired hz (BitVec.ofNat 64 current) 0 = true ↔ 4 * hz < current % 2 ^ 32 := by
  rw [idleExpired, decide_eq_true_eq, sub_zero, BitVec.toNat_setWidth, BitVec.toNat_ofNat,
    Nat.mod_mod_of_dvd _ (by decide)]

theorem stamp_start (hz : Nat) : StampInv (callSystem hz).start where
  lost _ := rfl
  kept := by nofun
  latest := by nofun
  past := by nofun
  clock := Nat.le_refl _
  now := by nofun

theorem publish_stamp (dev : SpiImx) (idx : Int) :
    (receivePacketPublish dev idx).stats.lastMessageJiffies = dev.stats.lastMessageJiffies := by
  obtain ⟨used, published⟩ := publish_eq dev idx
  rw [published]

theorem reserve_stamp (dev : SpiImx) :
    (receivePacketReserve dev).1.stats.lastMessageJiffies = dev.stats.lastMessageJiffies := by
  rw [reserve_eq]

theorem count_dword_stamp (stats : SpiImxStatistic) (rv : Int) :
    (countDword stats rv).lastMessageJiffies = stats.lastMessageJiffies := by
  unfold countDword
  dsimp only
  split_ifs <;> rfl

theorem count_overrun_stamp (stats : SpiImxStatistic) (stat : BitVec 32) :
    (countOverrun stats stat).lastMessageJiffies = stats.lastMessageJiffies := by
  obtain ⟨overruns, counted⟩ := count_overrun_eq stats stat
  rw [counted]

/-- A step that writes neither the stamp nor the log. -/
theorem StampInv.keep {s next : Driver} {log : CallLog} (inv : StampInv (s, log))
    (stamp : next.dev.stats.lastMessageJiffies = s.dev.stats.lastMessageJiffies)
    (clock : s.jiffies ≤ next.jiffies)
    (now : ∀ now ∈ next.prepare.nowJiffies, now ∈ s.prepare.nowJiffies) : StampInv (next, log) where
  lost := stamp ▸ inv.lost
  kept := stamp ▸ inv.kept
  latest := inv.latest
  past := inv.past
  clock := inv.clock.trans clock
  now value member := inv.now value (now value member)

theorem StampInv.wipe {s next : Driver} {log : CallLog} (inv : StampInv (s, log))
    (stamp : next.dev.stats.lastMessageJiffies = 0) (clock : s.jiffies = next.jiffies)
    (now : ∀ now ∈ next.prepare.nowJiffies, now ∈ s.prepare.nowJiffies) :
    StampInv (next, { log with stampLost := true }) where
  lost _ := stamp
  kept := by nofun
  latest := inv.latest
  past := inv.past
  clock := clock ▸ inv.clock
  now value member := inv.now value (now value member)

theorem stamp_step {hz : Nat} {s next : Driver} {action : Action} {log : CallLog}
    (inv : StampInv (s, log)) (taken : step hz s action = some next) :
    StampInv (next, recordCall s action next log) := by
  cases step_cases taken with
  | tick elapsed => exact inv.keep rfl (Nat.le_add_right _ _) fun _ => id
  | prepareEnter point =>
      refine { inv with past := ?_, clock := Nat.le_refl _, now := ?_ }
      · intro time member
        exact (inv.past time member).trans inv.clock
      · intro now entered
        cases entered
        rfl
  | prepareTest now point =>
      refine inv.keep rfl (Nat.le_refl _) ?_
      rw [point]
      dsimp only
      split_ifs <;> exact fun _ => id
  | prepareWipe now point => exact inv.wipe rfl rfl (by rw [point]; exact fun _ => id)
  | prepareClear now point => exact inv.keep rfl (Nat.le_refl _) (by rw [point]; exact fun _ => id)
  | prepareStamp now point =>
      have same : now = BitVec.ofNat 64 log.current := inv.now now (by rw [point]; rfl)
      refine { inv with lost := by nofun, kept := ?_, latest := ?_, past := ?_, now := by nofun }
      · exact fun _ => ⟨log.current, log.earlier, rfl, same⟩
      · intro last rest split
        cases split
        exact inv.past
      · intro time member
        rcases List.mem_cons.mp member with rfl | before
        · exact Nat.le_refl _
        · exact inv.past time before
  | thrdWipe point => exact inv.wipe rfl rfl fun _ => id
  | reserve => exact inv.keep (reserve_stamp _) (Nat.le_refl _) fun _ => id
  | pollStatus => exact inv.keep (count_overrun_stamp _ _) (Nat.le_refl _) fun _ => id
  | countFill => exact inv.keep (count_dword_stamp _ _) (Nat.le_refl _) fun _ => id
  | publish => exact inv.keep (publish_stamp _ _) (Nat.le_refl _) fun _ => id
  | alreadyRunning | launched | launchFailed | prepareAssign =>
      exact inv.keep rfl (Nat.le_refl _) (by nofun)
  | _ => exact inv.keep rfl (Nat.le_refl _) fun _ => id

theorem reachable_stamp_inv {hz : Nat} {state : Driver × CallLog}
    (reached : (callSystem hz).Reachable state) : StampInv state := by
  apply reached.invariant StampInv
  · exact stamp_start hz
  · apply StepSystem.observe_preserved
    intro s action next log inv taken
    exact stamp_step inv taken

theorem stamp_kept_idle {hz : Nat} {s : Driver} {log : CallLog} (inv : StampInv (s, log))
    (kept : log.stampLost = false)
    (expired : idleExpired hz (BitVec.ofNat 64 log.current) s.dev.stats.lastMessageJiffies =
      true) : ReaderIdle hz log := by
  obtain ⟨last, rest, calls, stamp⟩ := inv.kept kept
  dsimp only at calls stamp
  have lastPast : last ≤ log.current := inv.past last (by simp [calls])
  rw [stamp] at expired
  have elapsed := expired_elapsed lastPast expired
  intro time member
  rw [calls] at member
  rcases List.mem_cons.mp member with rfl | before
  · exact elapsed
  · have earlier := inv.latest last rest calls time before
    omega

/-- The test resets an idle reader's ring only, exactly when the stamp is in place. -/
theorem reset_decision_iff {hz : Nat} {s next : Driver} {log : CallLog}
    (inv : StampInv (s, log)) (taken : step hz s .prepareTest = some next) :
    ResetOnlyWhenIdle hz (next, log) ↔ StampInPlace hz (s, log) .prepareTest := by
  cases step_cases taken with
  | prepareTest now point =>
      have same : now = BitVec.ofNat 64 log.current := inv.now now (by rw [point]; rfl)
      subst same
      constructor
      · intro sound _
        cases lost : log.stampLost with
        | false => exact .inl rfl
        | true =>
            right
            by_cases expired : 4 * hz < log.current % 2 ^ 32
            · left
              have wiped := (expired_wiped hz log.current).mpr expired
              rw [← inv.lost lost] at wiped
              exact sound (BitVec.ofNat 64 log.current) (.inl (if_pos wiped))
            · exact .inr (Nat.not_lt.mp expired)
      · intro inPlace later decided
        have expired : idleExpired hz (BitVec.ofNat 64 log.current)
            s.dev.stats.lastMessageJiffies = true := by
          by_contra fresh
          dsimp only at decided
          rw [if_neg fresh] at decided
          rcases decided with impossible | impossible <;> cases impossible
        rcases inPlace rfl with kept | idle | low
        · exact stamp_kept_idle inv kept expired
        · exact idle
        · cases lost : log.stampLost with
          | false => exact stamp_kept_idle inv lost expired
          | true =>
              have stamp : s.dev.stats.lastMessageJiffies = 0 := inv.lost lost
              rw [stamp, expired_wiped] at expired
              dsimp only at low
              omega

/-- After the decision the call keeps its times until it is done. -/
theorem reset_sound_step {hz : Nat} {s next : Driver} {action : Action} {log : CallLog}
    (sound : ResetOnlyWhenIdle hz (s, log)) (otherwise : action ≠ .prepareTest)
    (taken : step hz s action = some next) :
    ResetOnlyWhenIdle hz (next, recordCall s action next log) := by
  cases step_cases taken with
  | prepareTest => exact absurd rfl otherwise
  | prepareWipe now point => exact fun _ _ => sound now (.inl point)
  | prepareEnter | prepareClear | prepareStamp | alreadyRunning | launched | launchFailed |
    prepareAssign => exact fun _ decided => by rcases decided with h | h <;> cases h
  | _ => exact sound

/-- In a run whose tests all find the stamp in place, packets are discarded for
an idle reader only; and a test that does not find it in place discards them wrongly. -/
theorem reset_only_when_idle (hz : Nat) :
    (∀ state, ((callSystem hz).restrict (StampInPlace hz)).Reachable state →
        ResetOnlyWhenIdle hz state) ∧
      ∀ state next, (callSystem hz).Reachable state →
        (callSystem hz).step state .prepareTest = some next →
          (ResetOnlyWhenIdle hz next ↔ StampInPlace hz state .prepareTest) := by
  constructor
  · intro state reached
    have both : StampInv state ∧ ResetOnlyWhenIdle hz state := by
      apply reached.invariant fun state => StampInv state ∧ ResetOnlyWhenIdle hz state
      · exact ⟨stamp_start hz, by intro now decided; rcases decided with h | h <;> cases h⟩
      · apply StepSystem.restrict_observe_preserved
        intro s action next log before inPlace taken
        refine ⟨stamp_step before.1 taken, ?_⟩
        by_cases test : action = .prepareTest
        · subst test
          exact (reset_decision_iff before.1 taken).mpr inPlace
        · exact reset_sound_step before.2 test taken
    exact both.2
  · intro state next reached taken
    obtain ⟨moved, recorded⟩ := StepSystem.observe_step_some.mp taken
    rw [← Prod.eta next, recorded]
    exact reset_decision_iff (reachable_stamp_inv reached) moved

theorem reset_only_when_idle_after_pause :
    ∃ state : Driver × CallLog, state.1.prepare = .wipe 2100#64 ∧ state.2.earlier = [100, 0] ∧
      ReaderIdle 250 state.2 := by
  obtain ⟨state, reached, passes⟩ := StepSystem.reachable_of_run
    ((callSystem 250).restrict (StampInPlace 250))
    (startSchedule ++ ([.tick 100, .prepareEnter, .prepareTest, .prepareStamp,
      .prepareLaunch true, .tick 2000, .prepareEnter, .prepareTest] : List Action))
    (fun state => decide (state.1.prepare = .wipe 2100#64 ∧ state.2.earlier = [100, 0]))
    (by decide +kernel)
  obtain ⟨decided, calls⟩ := of_decide_eq_true passes
  exact ⟨state, decided, calls, (reset_only_when_idle 250).1 state reached _ (.inl decided)⟩

/-- The second call comes one jiffy after the first and still resets: the thread
started by the first call has wiped the stamp. -/
theorem thread_start_loses_stamp :
    ¬∀ (hz : Nat) (state : Driver × CallLog), (callSystem hz).Reachable state →
      ResetOnlyWhenIdle hz state := by
  intro always
  obtain ⟨state, reached, passes⟩ := StepSystem.reachable_of_run (callSystem 250)
    [.tick 300000, .prepareEnter, .prepareTest, .prepareWipe, .prepareClear, .prepareStamp,
      .prepareLaunch true, .prepareAssign, .thrdWipe, .thrdClear,
      .tick 1, .prepareEnter, .prepareTest]
    (fun state => decide (state.1.prepare = .wipe 300001#64 ∧ ¬ReaderIdle 250 state.2))
    (by decide +kernel)
  obtain ⟨decided, busy⟩ := of_decide_eq_true passes
  exact busy (always 250 state reached _ (.inl decided))

end Testings.SpiSlave
