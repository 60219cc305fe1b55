import Testings.AtomicCounter
import Testings.StepSystem
import Testings.BitbangUart

/-!
# Opens and closes that overlap

`open_count` and the disable depth of the interrupt are two pieces of state:
`bitbang_uart_open` and `bitbang_uart_close` update the counter in one atomic
step and enable or disable the interrupt in a later one. Any number of calls
runs at once; a file is closed only after its open has returned.
-/

set_option autoImplicit false

namespace Testings.Bitbang

/-- `atomic_fetch_add_unless(&d->open_count, 1, INT_MAX)`, with the value it finds. -/
def openCountAdd (d : BitbangUart) : BitbangUart × BitVec 32 :=
  (if d.openCount = intMax then d else { d with openCount := d.openCount + 1 }, d.openCount)

/-- What `bitbang_uart_open` does after it has found zero. -/
def firstOpen (d : BitbangUart) : BitbangUart :=
  enableIrq { d with
    rxFifo := []
    txChr := { d.txChr with idx := -1 }
    rxChr := { d.rxChr with idx := -1 } }

/-- `atomic_dec_return(&d->open_count)`, with the value it leaves. -/
def openCountDec (d : BitbangUart) : BitbangUart × BitVec 32 :=
  ({ d with openCount := d.openCount - 1 }, d.openCount - 1)

/-- What `bitbang_uart_close` does after it has left zero. -/
def lastClose (d : BitbangUart) : BitbangUart := { disableIrq d with rxFifo := [] }

theorem bitbang_uart_open_halves (d : BitbangUart) :
    bitbangUartOpen d =
      if (openCountAdd d).2 = 0 then firstOpen (openCountAdd d).1 else (openCountAdd d).1 :=
  rfl

theorem bitbang_uart_close_halves (d : BitbangUart) :
    bitbangUartClose d =
      if (openCountDec d).2 = 0 then lastClose (openCountDec d).1 else (openCountDec d).1 :=
  rfl

/-- `files` counts the opens that have returned and are not being closed;
`enabling` and `disabling` count the calls between their two halves. -/
structure Lifetime where
  uart : BitbangUart
  files : Nat
  enabling : Nat
  disabling : Nat
  deriving DecidableEq

inductive LifetimeAction where
  | openCount
  | enable
  | closeCount
  | disable
  deriving DecidableEq

def lifetimeStep (s : Lifetime) : LifetimeAction → Option Lifetime
  | .openCount =>
      let (uart, opened) := openCountAdd s.uart
      if opened = 0 then some { s with uart := uart, enabling := s.enabling + 1 }
      else some { s with uart := uart, files := s.files + 1 }
  | .enable =>
      if 0 < s.enabling then
        some { s with
          uart := firstOpen s.uart
          enabling := s.enabling - 1
          files := s.files + 1 }
      else none
  | .closeCount =>
      if 0 < s.files then
        let (uart, left) := openCountDec s.uart
        if left = 0 then
          some { s with uart := uart, files := s.files - 1, disabling := s.disabling + 1 }
        else some { s with uart := uart, files := s.files - 1 }
      else none
  | .disable =>
      if 0 < s.disabling then
        some { s with uart := lastClose s.uart, disabling := s.disabling - 1 }
      else none

def lifetimes (periodMs : BitVec 32) : StepSystem Lifetime LifetimeAction where
  start := { uart := bitbangUartInit periodMs, files := 0, enabling := 0, disabling := 0 }
  step := lifetimeStep

/-- No open or close is in progress. -/
def Lifetime.Quiet (s : Lifetime) : Prop := s.enabling = 0 ∧ s.disabling = 0

/-- The interrupt is enabled exactly while the device is open. -/
def IrqFollowsCount (s : Lifetime) : Prop :=
  s.uart.irqDepth = 0 ↔ 0 < s.uart.openCount.toInt

instance (s : Lifetime) : Decidable s.Quiet := inferInstanceAs (Decidable (_ ∧ _))

instance (s : Lifetime) : Decidable (IrqFollowsCount s) := inferInstanceAs (Decidable (_ ↔ _))

def intMin : BitVec 32 := 0x80000000#32

/-- The disable depth that a counter value calls for. -/
def depthFor (count : BitVec 32) : Nat := if 0 < count.toInt then 0 else 1

theorem depth_for_add {count : BitVec 32} (room : count ≠ intMax) (opened : count ≠ 0) :
    depthFor (count + 1) = depthFor count :=
  if_congr (AtomicCounter.positive_add_one room opened) rfl rfl

theorem depth_for_sub {count : BitVec 32} (inRange : count ≠ intMin) (left : count - 1 ≠ 0) :
    depthFor (count - 1) = depthFor count :=
  if_congr (AtomicCounter.positive_sub_one inRange left) rfl rfl

theorem open_count_add_depth (d : BitbangUart) : (openCountAdd d).1.irqDepth = d.irqDepth := by
  unfold openCountAdd
  dsimp only
  split_ifs <;> rfl

theorem first_open_depth_for {d : BitbangUart} (first : (openCountAdd d).2 = 0) :
    depthFor d.openCount = 1 ∧ depthFor (openCountAdd d).1.openCount = 0 := by
  have zero : d.openCount = 0 := first
  have room : d.openCount ≠ intMax := by rw [zero]; decide
  unfold openCountAdd
  dsimp only
  rw [if_neg room]
  dsimp only
  rw [zero]
  decide

theorem later_open_depth_for {d : BitbangUart} (later : (openCountAdd d).2 ≠ 0) :
    depthFor (openCountAdd d).1.openCount = depthFor d.openCount := by
  unfold openCountAdd
  dsimp only
  split_ifs with full
  · rfl
  · exact depth_for_add full later

theorem last_close_depth_for {d : BitbangUart} (last : (openCountDec d).2 = 0) :
    d.openCount ≠ intMin ∧ depthFor d.openCount = 0 ∧
      depthFor (openCountDec d).1.openCount = 1 := by
  have one : d.openCount = 1 := AtomicCounter.dec_return_zero last
  unfold openCountDec
  dsimp only
  rw [one]
  decide

theorem lowest_close_depth_for {d : BitbangUart} (lowest : d.openCount = intMin) :
    depthFor d.openCount = 1 ∧ depthFor (openCountDec d).1.openCount = 0 := by
  unfold openCountDec
  dsimp only
  rw [lowest]
  decide

/-- `enable_irq` on an enabled line does nothing, and a counter below `INT_MIN`
comes back as a positive one. -/
def NoSlip (s : Lifetime) : LifetimeAction → Prop
  | .enable => s.uart.irqDepth ≠ 0
  | .closeCount => s.uart.openCount ≠ intMin
  | _ => True

instance (s : Lifetime) (action : LifetimeAction) : Decidable (NoSlip s action) := by
  unfold NoSlip
  split <;> infer_instance

def recordSlip (s : Lifetime) (action : LifetimeAction) (_next : Lifetime) (slips : Nat) : Nat :=
  if NoSlip s action then slips else slips + 1

theorem record_no_slip {s next : Lifetime} {action : LifetimeAction} {slips : Nat}
    (clean : NoSlip s action) : recordSlip s action next slips = slips :=
  if_pos clean

theorem record_one_slip {s next : Lifetime} {action : LifetimeAction} {slips : Nat}
    (slipped : ¬NoSlip s action) : recordSlip s action next slips = slips + 1 :=
  if_neg slipped

def slipLedger (periodMs : BitVec 32) : StepSystem (Lifetime × Nat) LifetimeAction :=
  (lifetimes periodMs).observe 0 recordSlip

/-- The calls under way and the slips explain the depth. -/
def Balanced (state : Lifetime × Nat) : Prop :=
  state.1.uart.irqDepth + state.1.disabling =
    state.1.enabling + depthFor state.1.uart.openCount + state.2

theorem balanced_step {s next : Lifetime} {action : LifetimeAction} {slips : Nat}
    (before : Balanced (s, slips)) (taken : lifetimeStep s action = some next) :
    Balanced (next, recordSlip s action next slips) := by
  unfold Balanced at before ⊢
  dsimp only at before ⊢
  cases action with
  | openCount =>
      have depth := open_count_add_depth s.uart
      have clean : NoSlip s .openCount := trivial
      rw [record_no_slip clean]
      simp only [lifetimeStep] at taken
      split_ifs at taken with first
      · cases taken
        have called := first_open_depth_for first
        dsimp only
        omega
      · cases taken
        have called := later_open_depth_for first
        dsimp only
        omega
  | enable =>
      simp only [lifetimeStep] at taken
      split_ifs at taken with pending
      cases taken
      simp only [firstOpen, enableIrq]
      by_cases clean : NoSlip s .enable
      · have masked : s.uart.irqDepth ≠ 0 := clean
        rw [record_no_slip clean]
        omega
      · have enabled : s.uart.irqDepth = 0 := not_not.mp clean
        rw [record_one_slip clean]
        omega
  | closeCount =>
      have depth : (openCountDec s.uart).1.irqDepth = s.uart.irqDepth := rfl
      simp only [lifetimeStep] at taken
      split_ifs at taken with opened last
      · cases taken
        obtain ⟨inRange, called⟩ := last_close_depth_for last
        have clean : NoSlip s .closeCount := inRange
        rw [record_no_slip clean]
        dsimp only
        omega
      · cases taken
        dsimp only
        by_cases clean : NoSlip s .closeCount
        · have called : depthFor (openCountDec s.uart).1.openCount = depthFor s.uart.openCount :=
            depth_for_sub clean last
          rw [record_no_slip clean]
          omega
        · have called := lowest_close_depth_for (not_not.mp clean)
          rw [record_one_slip clean]
          omega
  | disable =>
      have clean : NoSlip s .disable := trivial
      rw [record_no_slip clean]
      simp only [lifetimeStep] at taken
      split_ifs at taken with pending
      cases taken
      simp only [lastClose, disableIrq]
      omega

theorem lifetimes_balanced (periodMs : BitVec 32) :
    Balanced ((lifetimes periodMs).start, 0) := by
  have closed : depthFor (bitbangUartInit periodMs).openCount = 1 := by
    unfold bitbangUartInit bitbangUartSetPeriod
    split_ifs <;> rfl
  have depth : (bitbangUartInit periodMs).irqDepth = 1 := by
    unfold bitbangUartInit bitbangUartSetPeriod
    split_ifs <;> rfl
  simp [Balanced, lifetimes, closed, depth]

theorem reachable_balanced {periodMs : BitVec 32} {state : Lifetime × Nat}
    (reached : (slipLedger periodMs).Reachable state) : Balanced state := by
  apply reached.invariant Balanced (lifetimes_balanced periodMs)
  apply StepSystem.observe_preserved
  intro s action next slips before taken
  exact balanced_step before taken

/-- With no call under way the interrupt follows the counter exactly when the
device is closed or nothing has slipped. -/
theorem balanced_follows_iff {s : Lifetime} {slips : Nat} (balanced : Balanced (s, slips))
    (quiet : s.Quiet) : IrqFollowsCount s ↔ (0 < s.uart.openCount.toInt → slips = 0) := by
  obtain ⟨noEnable, noDisable⟩ := quiet
  unfold Balanced depthFor at balanced
  unfold IrqFollowsCount
  dsimp only at balanced
  split_ifs at balanced with opened
  · constructor
    · intro follows _
      have enabled := follows.mpr opened
      omega
    · intro clean
      have none := clean opened
      exact ⟨fun _ => opened, fun _ => by omega⟩
  · constructor
    · intro _ positive
      exact absurd positive opened
    · intro _
      exact ⟨fun enabled => by omega, fun positive => absurd positive opened⟩

theorem reachable_without_slip {periodMs : BitVec 32} {s : Lifetime}
    (reached : ((lifetimes periodMs).restrict NoSlip).Reachable s) : Balanced (s, 0) := by
  apply reached.invariant fun s => Balanced (s, 0)
  · exact lifetimes_balanced periodMs
  · apply StepSystem.restrict_preserved
    intro s action next before clean taken
    have after := balanced_step before taken
    rwa [record_no_slip clean] at after

/-- In every run without a slip the interrupt is enabled exactly while
`open_count` is positive, whenever no open or close is in progress; and in any
run exactly when the device is closed or nothing has slipped so far. -/
theorem irq_follows_open_count (periodMs : BitVec 32) :
    (∀ s, ((lifetimes periodMs).restrict NoSlip).Reachable s → s.Quiet → IrqFollowsCount s) ∧
      ∀ state, (slipLedger periodMs).Reachable state → state.1.Quiet →
        (IrqFollowsCount state.1 ↔ (0 < state.1.uart.openCount.toInt → state.2 = 0)) := by
  constructor
  · intro s reached quiet
    exact (balanced_follows_iff (reachable_without_slip reached) quiet).mpr fun _ => rfl
  · intro state reached quiet
    exact balanced_follows_iff (reachable_balanced reached) quiet

theorem irq_follows_open_count_two_files :
    ∃ s : Lifetime, s.files = 2 ∧ IrqFollowsCount s := by
  obtain ⟨s, reached, passes⟩ := StepSystem.reachable_of_run
    ((lifetimes 100#32).restrict NoSlip) [.openCount, .openCount, .enable]
    (fun s => decide (s.files = 2 ∧ s.Quiet)) (by decide +kernel)
  obtain ⟨files, quiet⟩ := of_decide_eq_true passes
  exact ⟨s, files, (irq_follows_open_count 100#32).1 s reached quiet⟩

/-- A first open that overtakes the last close: the device is open and its
interrupt stays disabled. -/
theorem open_overtakes_close :
    ¬∀ (periodMs : BitVec 32) (s : Lifetime), (lifetimes periodMs).Reachable s → s.Quiet →
      IrqFollowsCount s := by
  intro always
  obtain ⟨s, reached, passes⟩ := StepSystem.reachable_of_run (lifetimes 100#32)
    [.openCount, .enable, .closeCount, .openCount, .enable, .disable]
    (fun s => decide (s.Quiet ∧ ¬IrqFollowsCount s)) (by decide +kernel)
  obtain ⟨quiet, broken⟩ := of_decide_eq_true passes
  exact broken (always 100#32 s reached quiet)

end Testings.Bitbang
