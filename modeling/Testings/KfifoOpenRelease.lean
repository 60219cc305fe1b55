import Testings.StepSystem
import Testings.AtomicCounter

/-!
# The lazily requested interrupt

`mydev_open` and `mydev_release` of `kfifo_rxtx.c`. The open that finds
`open_count` zero requests the interrupt and takes its count back where that
fails; the release that leaves zero frees it. The counter updates, the request
and the free are steps of their own, of any number of calls at once; a file is
released only after its open has returned zero.
-/

set_option autoImplicit false

namespace Testings.Kfifo

open AtomicCounter

/-- What opens and releases share of `struct mydev` and its interrupt line. -/
structure Mydev where
  openCount : BitVec 32
  irqRequested : Bool
  deriving DecidableEq

/-- `request_irq` may fail; without `IRQF_SHARED` it does on a requested line. -/
def requestIrq (d : Mydev) (granted : Bool) : Option Mydev :=
  if granted = true ∧ d.irqRequested = false then some { d with irqRequested := true } else none

/-- `disable_irq`, `synchronize_irq` and `free_irq`. -/
def freeIrq (d : Mydev) : Mydev := { d with irqRequested := false }

/-- `files` counts the opens that have returned zero and are not being
released, the other three the calls under way: opens in front of their
`request_irq`, opens behind a failed one, releases in front of `free_irq`. -/
structure Opens where
  mydev : Mydev
  files : Nat
  requesting : Nat
  failed : Nat
  freeing : Nat
  deriving DecidableEq

inductive OpenAction where
  | openCount
  | requestIrq (granted : Bool)
  | failedDec
  | releaseCount
  | freeIrq
  deriving DecidableEq

def openStep (s : Opens) : OpenAction → Option Opens
  | .openCount =>
      let (count, old) := fetchAddUnless s.mydev.openCount 1 intMax
      let d := { s.mydev with openCount := count }
      if old = 0 then some { s with mydev := d, requesting := s.requesting + 1 }
      else some { s with mydev := d, files := s.files + 1 }
  | .requestIrq granted =>
      if 0 < s.requesting then
        match requestIrq s.mydev granted with
        | some d =>
            some { s with mydev := d, requesting := s.requesting - 1, files := s.files + 1 }
        | none => some { s with requesting := s.requesting - 1, failed := s.failed + 1 }
      else none
  | .failedDec =>
      if 0 < s.failed then
        some { s with
          mydev := { s.mydev with openCount := decReturn s.mydev.openCount }
          failed := s.failed - 1 }
      else none
  | .releaseCount =>
      if 0 < s.files then
        let count := decReturn s.mydev.openCount
        let d := { s.mydev with openCount := count }
        if count = 0 then
          some { s with mydev := d, files := s.files - 1, freeing := s.freeing + 1 }
        else some { s with mydev := d, files := s.files - 1 }
      else none
  | .freeIrq =>
      if 0 < s.freeing then
        some { s with mydev := freeIrq s.mydev, freeing := s.freeing - 1 }
      else none

def opens : StepSystem Opens OpenAction where
  start := { mydev := ⟨0, false⟩, files := 0, requesting := 0, failed := 0, freeing := 0 }
  step := openStep

/-- No open or release is in progress. -/
def Opens.Quiet (s : Opens) : Prop := s.requesting = 0 ∧ s.failed = 0 ∧ s.freeing = 0

instance (s : Opens) : Decidable s.Quiet := inferInstanceAs (Decidable (_ ∧ _ ∧ _))

def IrqFollowsCount (s : Opens) : Prop :=
  s.mydev.irqRequested = true ↔ Positive s.mydev.openCount

instance (s : Opens) : Decidable (IrqFollowsCount s) := inferInstanceAs (Decidable (_ ↔ _))

/-- A failed open takes back a count that others rely on, or the counter wraps
around below `INT_MIN`. -/
def Miscounts (s : Opens) : OpenAction → Prop
  | .failedDec => s.mydev.openCount ≠ 1
  | .releaseCount => s.mydev.openCount = intMin
  | _ => False

/-- The release leaves zero while an open that counts is still on its way,
which takes a counter that has stopped at `INT_MAX`. -/
def Overtakes (s : Opens) : OpenAction → Prop
  | .releaseCount => s.mydev.openCount = 1 ∧ s.requesting + s.failed ≠ 0
  | _ => False

instance (s : Opens) (action : OpenAction) : Decidable (Miscounts s action) := by
  unfold Miscounts
  split <;> infer_instance

instance (s : Opens) (action : OpenAction) : Decidable (Overtakes s action) := by
  unfold Overtakes
  split <;> infer_instance

def NoSlip (s : Opens) (action : OpenAction) : Prop := ¬Miscounts s action ∧ ¬Overtakes s action

instance (s : Opens) (action : OpenAction) : Decidable (NoSlip s action) :=
  inferInstanceAs (Decidable (_ ∧ _))

def heldFor (count : BitVec 32) : Int := if Positive count then 1 else 0

/-- What is requested, or about to be, beyond what the counter and the
releases under way call for. -/
def excess (s : Opens) : Int :=
  s.mydev.irqRequested.toNat + s.requesting + s.failed - s.freeing - heldFor s.mydev.openCount

theorem held_for_first : heldFor (fetchAddUnless 0 1 intMax).1 = 1 ∧ heldFor 0 = 0 := by decide

theorem held_for_later {count : BitVec 32} (later : count ≠ 0) :
    heldFor (fetchAddUnless count 1 intMax).1 = heldFor count := by
  simp only [heldFor, positive_fetch_add later]

theorem held_for_last : heldFor (decReturn 1) = 0 ∧ heldFor 1 = 1 := by decide

theorem held_for_dec {count : BitVec 32} (inRange : count ≠ intMin) (more : count ≠ 1) :
    heldFor (decReturn count) = heldFor count := by
  simp only [heldFor, positive_dec_return inRange more]

theorem held_for_lowest : heldFor (decReturn intMin) = 1 ∧ heldFor intMin = 0 := by decide

theorem held_for_dec_ge {count : BitVec 32} (more : count ≠ 1) :
    heldFor count ≤ heldFor (decReturn count) := by
  by_cases lowest : count = intMin
  · rw [lowest]
    decide
  · exact Int.le_of_eq (held_for_dec lowest more).symm

/-- Any other step keeps the balance, if the interrupt it frees is requested. -/
theorem excess_kept {s next : Opens} {action : OpenAction} (clean : ¬Miscounts s action)
    (held : action = .freeIrq → s.mydev.irqRequested = true)
    (taken : openStep s action = some next) : excess next = excess s := by
  cases action with
  | openCount =>
      simp only [openStep] at taken
      split_ifs at taken with first
      · cases taken
        have zero : s.mydev.openCount = 0 := first
        obtain ⟨counted, before⟩ := held_for_first
        dsimp only [excess]
        rw [zero, counted, before]
        omega
      · cases taken
        have opened : s.mydev.openCount ≠ 0 := first
        dsimp only [excess]
        rw [held_for_later opened]
  | requestIrq granted =>
      simp only [openStep] at taken
      split_ifs at taken with pending
      cases outcome : requestIrq s.mydev granted with
      | none =>
          rw [outcome] at taken
          cases taken
          dsimp only [excess]
          omega
      | some d =>
          rw [outcome] at taken
          cases taken
          unfold requestIrq at outcome
          split_ifs at outcome with free
          cases outcome
          dsimp only [excess]
          rw [free.2, Bool.toNat_true, Bool.toNat_false]
          omega
  | failedDec =>
      simp only [openStep] at taken
      split_ifs at taken with pending
      cases taken
      have one : s.mydev.openCount = 1 := not_not.mp clean
      obtain ⟨left, before⟩ := held_for_last
      dsimp only [excess]
      rw [one, left, before]
      omega
  | releaseCount =>
      have inRange : s.mydev.openCount ≠ intMin := clean
      simp only [openStep] at taken
      split_ifs at taken with opened last
      · cases taken
        obtain ⟨left, before⟩ := held_for_last
        dsimp only [excess]
        rw [dec_return_zero last, left, before]
        omega
      · cases taken
        have more : s.mydev.openCount ≠ 1 := by
          intro one
          rw [one] at last
          exact last rfl
        dsimp only [excess]
        rw [held_for_dec inRange more]
  | freeIrq =>
      simp only [openStep] at taken
      split_ifs at taken with pending
      cases taken
      have requested := held rfl
      dsimp only [excess, freeIrq]
      rw [requested, Bool.toNat_true, Bool.toNat_false]
      omega

theorem excess_lost {s next : Opens} {action : OpenAction} (slipped : Miscounts s action)
    (taken : openStep s action = some next) : excess next < excess s := by
  cases action with
  | openCount => cases slipped
  | requestIrq granted => cases slipped
  | failedDec =>
      have more : s.mydev.openCount ≠ 1 := slipped
      have counted := held_for_dec_ge more
      simp only [openStep] at taken
      split_ifs at taken with pending
      cases taken
      dsimp only [excess]
      omega
  | releaseCount =>
      have lowest : s.mydev.openCount = intMin := slipped
      obtain ⟨wrapped, before⟩ := held_for_lowest
      simp only [openStep] at taken
      split_ifs at taken with opened last
      · rw [lowest] at last
        exact absurd last (by decide)
      · cases taken
        dsimp only [excess]
        rw [lowest, wrapped, before]
        omega
  | freeIrq => cases slipped

/-- With no call under way the interrupt follows the counter in a balanced state. -/
theorem follows_iff_balanced {s : Opens} (quiet : s.Quiet) :
    IrqFollowsCount s ↔ excess s = 0 := by
  obtain ⟨noRequest, noFailed, noFree⟩ := quiet
  unfold IrqFollowsCount excess heldFor
  rw [noRequest, noFailed, noFree]
  cases s.mydev.irqRequested <;> split_ifs with opened <;> simp [opened]

/-- At most one release is in front of `free_irq`, and its interrupt is
requested. -/
structure Held (s : Opens) : Prop where
  balanced : excess s = 0
  free : s.freeing ≤ s.mydev.irqRequested.toNat

theorem Held.requested {s : Opens} (held : Held s) (pending : 0 < s.freeing) :
    s.mydev.irqRequested = true := by
  have free := held.free
  cases irq : s.mydev.irqRequested with
  | true => rfl
  | false =>
      rw [irq, Bool.toNat_false] at free
      omega

theorem free_pending {s next : Opens} (taken : openStep s .freeIrq = some next) :
    0 < s.freeing := by
  simp only [openStep] at taken
  split_ifs at taken with pending
  exact pending

theorem held_step {s next : Opens} {action : OpenAction} (before : Held s)
    (clean : NoSlip s action) (taken : openStep s action = some next) : Held next := by
  have requested : action = .freeIrq → s.mydev.irqRequested = true := by
    rintro rfl
    exact before.requested (free_pending taken)
  refine ⟨(excess_kept clean.1 requested taken).trans before.balanced, ?_⟩
  have balanced := before.balanced
  have free := before.free
  cases action with
  | openCount =>
      simp only [openStep] at taken
      split_ifs at taken <;> cases taken <;> exact free
  | requestIrq granted =>
      simp only [openStep] at taken
      split_ifs at taken with pending
      unfold requestIrq at taken
      split_ifs at taken with unrequested
      · cases taken
        rw [unrequested.2] at free
        exact Nat.le_trans free (Nat.zero_le _)
      · cases taken
        exact free
  | failedDec =>
      simp only [openStep] at taken
      split_ifs at taken
      cases taken
      exact free
  | releaseCount =>
      simp only [openStep] at taken
      split_ifs at taken with opened last
      · cases taken
        have one := dec_return_zero last
        have alone : s.requesting + s.failed = 0 := not_not.mp fun busy => clean.2 ⟨one, busy⟩
        unfold excess at balanced
        rw [one, held_for_last.2] at balanced
        dsimp only
        omega
      · cases taken
        exact free
  | freeIrq =>
      have pending := free_pending taken
      have most := Bool.toNat_le s.mydev.irqRequested
      simp only [openStep, if_pos pending] at taken
      cases taken
      dsimp only
      omega

theorem reachable_held {s : Opens} (reached : (opens.restrict NoSlip).Reachable s) : Held s := by
  apply reached.invariant Held ⟨by decide, Nat.le_refl _⟩
  apply StepSystem.restrict_preserved
  intro s action next before clean taken
  exact held_step before clean taken

/-- What has happened so far: a miscount, or a `free_irq` of an interrupt that
was not requested. -/
structure Marks where
  miscounted : Bool
  spurious : Bool
  deriving DecidableEq

def recordMarks (s : Opens) (action : OpenAction) (_next : Opens) (marks : Marks) : Marks where
  miscounted := marks.miscounted || decide (Miscounts s action)
  spurious := marks.spurious || decide (action = .freeIrq ∧ s.mydev.irqRequested = false)

def markedOpens : StepSystem (Opens × Marks) OpenAction :=
  opens.observe ⟨false, false⟩ recordMarks

/-- Nothing makes up for a miscount but the free of what is not requested. -/
def Explained (state : Opens × Marks) : Prop :=
  state.2.spurious = false →
    excess state.1 ≤ 0 ∧ (excess state.1 = 0 ↔ state.2.miscounted = false)

theorem explained_step {s next : Opens} {action : OpenAction} {marks : Marks}
    (before : Explained (s, marks)) (taken : openStep s action = some next) :
    Explained (next, recordMarks s action next marks) := by
  intro regular
  obtain ⟨earlier, now⟩ := Bool.or_eq_false_iff.mp regular
  obtain ⟨most, iff⟩ := before earlier
  have held : action = .freeIrq → s.mydev.irqRequested = true := by
    intro free
    by_contra unrequested
    exact of_decide_eq_false now ⟨free, Bool.eq_false_iff.mpr unrequested⟩
  by_cases slipped : Miscounts s action
  · have lost := excess_lost slipped taken
    simp only [recordMarks, decide_eq_true slipped, Bool.or_true, Bool.true_eq_false, iff_false]
    dsimp only at most
    omega
  · have kept := excess_kept slipped held taken
    simp only [recordMarks, decide_eq_false slipped, Bool.or_false]
    rw [kept]
    exact ⟨most, iff⟩

theorem reachable_explained {state : Opens × Marks} (reached : markedOpens.Reachable state) :
    Explained state := by
  apply reached.invariant Explained (fun _ => by decide)
  apply StepSystem.observe_preserved
  intro s action next marks before taken
  exact explained_step before taken

/-- In every run without a slip `free_irq` is called on a requested interrupt
only, and with no call in progress the interrupt is requested exactly while
`open_count` is positive. In any run that has freed only what was requested,
the latter holds exactly when nothing has been miscounted so far. -/
theorem irq_requested_while_open (s : Opens) (marks : Marks) :
    ((opens.restrict NoSlip).Reachable s →
      (∀ next, openStep s .freeIrq = some next → s.mydev.irqRequested = true) ∧
        (s.Quiet → IrqFollowsCount s)) ∧
      (markedOpens.Reachable (s, marks) → marks.spurious = false → s.Quiet →
        (IrqFollowsCount s ↔ marks.miscounted = false)) := by
  constructor
  · intro reached
    have held := reachable_held reached
    constructor
    · intro next taken
      exact held.requested (free_pending taken)
    · intro quiet
      exact (follows_iff_balanced quiet).mpr held.balanced
  · intro reached regular quiet
    rw [follows_iff_balanced quiet]
    exact (reachable_explained reached regular).2

theorem irq_requested_while_open_two_files :
    ∃ s : Opens, s.files = 2 ∧ IrqFollowsCount s := by
  obtain ⟨s, reached, passes⟩ := StepSystem.reachable_of_run (opens.restrict NoSlip)
    [.openCount, .requestIrq false, .failedDec, .openCount, .openCount, .requestIrq true]
    (fun s => decide (s.files = 2 ∧ s.Quiet)) (by decide)
  obtain ⟨files, quiet⟩ := of_decide_eq_true passes
  exact ⟨s, files, ((irq_requested_while_open s ⟨false, false⟩).1 reached).2 quiet⟩

/-- The second open returns zero on the counter alone, the request of the first
one fails: the device is open without its interrupt, and the release of the
second file frees what nobody has requested. -/
theorem second_open_without_irq :
    (¬∀ s, opens.Reachable s → s.Quiet → IrqFollowsCount s) ∧
      ¬∀ s, opens.Reachable s → ∀ next, openStep s .freeIrq = some next →
        s.mydev.irqRequested = true := by
  constructor
  · intro always
    obtain ⟨s, reached, passes⟩ := StepSystem.reachable_of_run opens
      [.openCount, .openCount, .requestIrq false, .failedDec]
      (fun s => decide (s.Quiet ∧ ¬IrqFollowsCount s)) (by decide)
    obtain ⟨quiet, broken⟩ := of_decide_eq_true passes
    exact broken (always s reached quiet)
  · intro always
    obtain ⟨s, reached, passes⟩ := StepSystem.reachable_of_run opens
      [.openCount, .openCount, .requestIrq false, .failedDec, .releaseCount]
      (fun s => decide (0 < s.freeing ∧ s.mydev.irqRequested = false)) (by decide)
    obtain ⟨pending, unrequested⟩ := of_decide_eq_true passes
    rw [always s reached _ (if_pos pending)] at unrequested
    cases unrequested

end Testings.Kfifo
