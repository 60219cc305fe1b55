import Testings.KfifoOpenRelease
import Testings.KfifoTransmit
import Testings.ResourceTrace

/-!
# The lifetime of a kfifo module

`mydev_init` and `mydev_exit` of `kfifo.c`, `mydev_module_init` and `mydev_module_exit` of
`kfifo_rxtx.c`, as traces of what they acquire and release; between the latter two the opens
and releases of files, of which one requests the interrupt and one frees it. What a kernel call
returns is an answer given to it: zero, or a valid pointer, where it succeeds.
-/

set_option autoImplicit false

namespace Testings.Kfifo

open AtomicCounter ResourceTrace

inductive Resource where
  | mydev
  | rxFifo
  | txFifo
  | gpioIn
  | irq
  | chrdev
  | cdev
  deriving DecidableEq

abbrev Trace := ResourceTrace Resource

def enomem : Int := -12

structure InitAnswers where
  kzalloc : Bool
  gpiodGet : Int
  gpiodToIrq : Int
  requestIrq : Int
  registerChrdev : Int

def errFree (t : Trace) : Trace := t ++ [.release .mydev]

def errGpio (t : Trace) : Trace := errFree (t ++ [.release .gpioIn])

def errIrq (t : Trace) : Trace := errGpio (t ++ [.release .irq])

def mydevInit (answers : InitAnswers) : Int × Trace :=
  if answers.kzalloc = false then (enomem, [])
  else
    let t : Trace := [] ++ [.acquire .mydev]
    if answers.gpiodGet ≠ 0 then (answers.gpiodGet, errFree t)
    else
      let t := t ++ [.acquire .gpioIn]
      if answers.gpiodToIrq < 0 then (answers.gpiodToIrq, errGpio t)
      else if answers.requestIrq ≠ 0 then (answers.requestIrq, errGpio t)
      else
        let t := t ++ [.acquire .irq]
        if answers.registerChrdev < 0 then (answers.registerChrdev, errIrq t)
        else (0, t ++ [.acquire .chrdev])

def mydevExit (t : Trace) : Trace :=
  let t := t ++ [.release .chrdev]
  let t := t ++ [.release .irq]
  let t := t ++ [.release .gpioIn]
  t ++ [.release .mydev]

structure ModuleAnswers where
  kzalloc : Bool
  rxFifoAlloc : Int
  txFifoAlloc : Int
  gpiodGet : Int
  gpiodToIrq : Int
  allocChrdevRegion : Int
  cdevAdd : Int

def errFreeRx (t : Trace) : Trace := errFree (t ++ [.release .rxFifo])

def errFreeTx (t : Trace) : Trace := errFreeRx (t ++ [.release .txFifo])

def errPutGpio (t : Trace) : Trace := errFreeTx (t ++ [.release .gpioIn])

def errChrdev (t : Trace) : Trace := errPutGpio (t ++ [.release .chrdev])

def mydevModuleInit (answers : ModuleAnswers) : Int × Trace :=
  if answers.kzalloc = false then (enomem, [])
  else
    let t : Trace := [] ++ [.acquire .mydev]
    if answers.rxFifoAlloc ≠ 0 then (answers.rxFifoAlloc, errFree t)
    else
      let t := t ++ [.acquire .rxFifo]
      if answers.txFifoAlloc ≠ 0 then (answers.txFifoAlloc, errFreeRx t)
      else
        let t := t ++ [.acquire .txFifo]
        if answers.gpiodGet ≠ 0 then (answers.gpiodGet, errFreeTx t)
        else
          let t := t ++ [.acquire .gpioIn]
          if answers.gpiodToIrq < 0 then (answers.gpiodToIrq, errPutGpio t)
          else if answers.allocChrdevRegion ≠ 0 then (answers.allocChrdevRegion, errPutGpio t)
          else
            let t := t ++ [.acquire .chrdev]
            if answers.cdevAdd ≠ 0 then (answers.cdevAdd, errChrdev t)
            else (0, t ++ [.acquire .cdev])

/-- `if (atomic_read(&d->open_count) > 0)`. -/
def mydevModuleExit (openCount : BitVec 32) (t : Trace) : Trace :=
  let t := if Positive openCount then t ++ [.release .irq] else t
  let t := t ++ [.release .cdev]
  let t := t ++ [.release .chrdev]
  let t := t ++ [.release .gpioIn]
  let t := t ++ [.release .rxFifo]
  let t := t ++ [.release .txFifo]
  t ++ [.release .mydev]

/-- What an open or a release does to the interrupt. -/
def recordIrq (s : Opens × Marks) (action : OpenAction) (next : Opens × Marks) (t : Trace) :
    Trace :=
  match action with
  | .requestIrq _ =>
      if s.1.mydev.irqRequested ≠ next.1.mydev.irqRequested then t ++ [.acquire .irq] else t
  | .freeIrq => t ++ [.release .irq]
  | _ => t

def tracedOpens : StepSystem ((Opens × Marks) × Trace) OpenAction :=
  markedOpens.observe [] recordIrq

theorem init_leaves (answers : InitAnswers) :
    ((mydevInit answers).1 ≠ 0 ∧ Balanced (mydevInit answers).2) ∨
      (mydevInit answers).1 = 0 ∧
        Leaves (mydevInit answers).2 (.chrdev ::ₘ .irq ::ₘ .gpioIn ::ₘ .mydev ::ₘ 0) := by
  have device : Leaves _ (Resource.mydev ::ₘ 0) := leaves_nil.acquire
  unfold mydevInit
  split_ifs with memory gpio number irq chrdev
  · exact .inl ⟨by decide, leaves_nil⟩
  · exact .inl ⟨gpio, device.release⟩
  · exact .inl ⟨Int.ne_of_lt number, device.acquire.release.release⟩
  · exact .inl ⟨irq, device.acquire.release.release⟩
  · exact .inl ⟨Int.ne_of_lt chrdev, device.acquire.acquire.release.release.release⟩
  · exact .inr ⟨rfl, device.acquire.acquire.acquire⟩

/-- Loads and unloads of `kfifo.c`, one after the other. -/
theorem loads_balanced (loads : List InitAnswers) :
    Balanced (loads.flatMap fun answers =>
      if (mydevInit answers).1 ≠ 0 then (mydevInit answers).2
      else mydevExit (mydevInit answers).2) := by
  apply (balanced_flat_map_iff loads _ (fun _ => 0) _).mpr (fun _ _ => rfl)
  intro answers _
  rcases init_leaves answers with ⟨failed, balanced⟩ | ⟨loaded, leaves⟩
  · rw [if_pos failed]
    exact balanced
  · rw [if_neg (not_not.mpr loaded)]
    exact leaves.release.release.release.release

def moduleHeld : Multiset Resource :=
  .cdev ::ₘ .chrdev ::ₘ .gpioIn ::ₘ .txFifo ::ₘ .rxFifo ::ₘ .mydev ::ₘ 0

theorem module_init_leaves (answers : ModuleAnswers) :
    ((mydevModuleInit answers).1 ≠ 0 ∧ Balanced (mydevModuleInit answers).2) ∨
      (mydevModuleInit answers).1 = 0 ∧ Leaves (mydevModuleInit answers).2 moduleHeld := by
  have device : Leaves _ (Resource.mydev ::ₘ 0) := leaves_nil.acquire
  unfold mydevModuleInit
  split_ifs with memory rx tx gpio number region cdev
  · exact .inl ⟨by decide, leaves_nil⟩
  · exact .inl ⟨rx, device.release⟩
  · exact .inl ⟨tx, device.acquire.release.release⟩
  · exact .inl ⟨gpio, device.acquire.acquire.release.release.release⟩
  · exact .inl ⟨Int.ne_of_lt number,
      device.acquire.acquire.acquire.release.release.release.release⟩
  · exact .inl ⟨region, device.acquire.acquire.acquire.release.release.release.release⟩
  · exact .inl ⟨cdev,
      device.acquire.acquire.acquire.acquire.release.release.release.release.release⟩
  · exact .inr ⟨rfl, device.acquire.acquire.acquire.acquire.acquire⟩

/-- Behind the interrupt the exit releases what the init has acquired. -/
theorem module_exit_leaves {t : Trace} {left : Multiset Resource}
    (leaves : Leaves t (moduleHeld + left)) :
    Leaves (t ++ [.release .cdev] ++ [.release .chrdev] ++ [.release .gpioIn] ++
      [.release .rxFifo] ++ [.release .txFifo] ++ [.release .mydev]) left := by
  simp only [moduleHeld, Multiset.cons_add, Multiset.zero_add] at leaves
  have fifos : Leaves _ (Resource.txFifo ::ₘ .rxFifo ::ₘ .mydev ::ₘ left) :=
    leaves.release.release.release
  rw [Multiset.cons_swap] at fifos
  exact fifos.release.release.release

def irqHeld (s : Opens) : Multiset Resource := if s.mydev.irqRequested then {.irq} else 0

/-- As long as nothing is freed that was not requested, the trace leaves the interrupt where it
is requested. -/
structure Traced (state : (Opens × Marks) × Trace) : Prop where
  regular : state.1.2.spurious = false → Leaves state.2 (irqHeld state.1.1)
  spurious : state.1.2.spurious = true → Overreleases state.2 .irq

/-- What a step does to the interrupt. -/
theorem irq_requested_step {s next : Opens} {action : OpenAction}
    (taken : openStep s action = some next) :
    action = .freeIrq ∧ next.mydev.irqRequested = false ∨
      action ≠ .freeIrq ∧ (next.mydev.irqRequested = s.mydev.irqRequested ∨
        ∃ granted, action = .requestIrq granted ∧ s.mydev.irqRequested = false ∧
          next.mydev.irqRequested = true) := by
  cases action with
  | openCount =>
      simp only [openStep] at taken
      split_ifs at taken <;> cases taken <;> exact .inr ⟨by simp, .inl rfl⟩
  | requestIrq granted =>
      refine .inr ⟨by simp, ?_⟩
      simp only [openStep] at taken
      split_ifs at taken
      unfold requestIrq at taken
      split_ifs at taken with free
      · cases taken
        exact .inr ⟨granted, rfl, free.2, rfl⟩
      · cases taken
        exact .inl rfl
  | failedDec =>
      simp only [openStep] at taken
      split_ifs at taken
      cases taken
      exact .inr ⟨by simp, .inl rfl⟩
  | releaseCount =>
      simp only [openStep] at taken
      split_ifs at taken <;> cases taken <;> exact .inr ⟨by simp, .inl rfl⟩
  | freeIrq =>
      simp only [openStep] at taken
      split_ifs at taken
      cases taken
      exact .inl ⟨rfl, rfl⟩

theorem traced_step {s next : Opens × Marks} {action : OpenAction} {t : Trace}
    (before : Traced (s, t)) (taken : markedOpens.step s action = some next) :
    Traced (next, recordIrq s action next t) := by
  rcases StepSystem.observe_step_some.mp taken with ⟨moved, marked⟩
  have spurious : next.2.spurious =
      (s.2.spurious || decide (action = .freeIrq ∧ s.1.mydev.irqRequested = false)) := by
    rw [marked]
    rfl
  have regular := before.regular
  have excess := before.spurious
  dsimp only at regular excess
  rcases irq_requested_step moved with
    ⟨free, dropped⟩ | ⟨other, same | ⟨granted, request, was, now⟩⟩
  · subst free
    have held : irqHeld next.1 = 0 := by rw [irqHeld, dropped]; rfl
    constructor
    · intro clean
      dsimp only at clean ⊢
      rw [spurious, Bool.or_eq_false_iff] at clean
      have requested : s.1.mydev.irqRequested = true := by
        by_contra unrequested
        exact of_decide_eq_false clean.2 ⟨rfl, Bool.eq_false_iff.mpr unrequested⟩
      have leaves := regular clean.1
      rw [irqHeld, requested] at leaves
      rw [held]
      exact leaves.release
    · intro dirty
      dsimp only at dirty ⊢
      cases earlier : s.2.spurious with
      | true => exact (excess earlier).append _
      | false =>
          rw [spurious, earlier, Bool.false_or] at dirty
          have leaves := regular earlier
          rw [irqHeld, (of_decide_eq_true dirty).2] at leaves
          exact leaves.overrelease (Multiset.notMem_zero _) (overreleases_release _)
  · have kept : next.2.spurious = s.2.spurious := by
      rw [spurious, decide_eq_false (fun both => other both.1), Bool.or_false]
    have silent : recordIrq s action next t = t := by
      cases action with
      | requestIrq granted => exact if_neg (not_not.mpr same.symm)
      | freeIrq => exact absurd rfl other
      | _ => rfl
    rw [silent]
    constructor
    · intro clean
      dsimp only at clean ⊢
      rw [irqHeld, same]
      exact regular (kept.symm.trans clean)
    · intro dirty
      exact excess (kept.symm.trans dirty)
  · subst request
    have kept : next.2.spurious = s.2.spurious := by
      rw [spurious, decide_eq_false (fun both => other both.1), Bool.or_false]
    have recorded : recordIrq s (.requestIrq granted) next t = t ++ [.acquire .irq] := by
      apply if_pos
      rw [was, now]
      exact Bool.false_ne_true
    rw [recorded]
    constructor
    · intro clean
      dsimp only at clean ⊢
      have leaves := regular (kept.symm.trans clean)
      rw [irqHeld, was] at leaves
      rw [irqHeld, now]
      exact leaves.acquire
    · intro dirty
      exact (excess (kept.symm.trans dirty)).append _

theorem reachable_traced {state : (Opens × Marks) × Trace} (reached : tracedOpens.Reachable state) :
    Traced state := by
  apply reached.invariant Traced
  · constructor
    · exact fun _ => leaves_nil
    · nofun
  · apply StepSystem.observe_preserved
    intro s action next t before taken
    exact traced_step before taken

theorem irq_not_in_module : Resource.irq ∉ moduleHeld := by decide

theorem exit_rest_overreleases {t : Trace} (excess : Overreleases t .irq) :
    Overreleases (t ++ [.release .cdev] ++ [.release .chrdev] ++ [.release .gpioIn] ++
      [.release .rxFifo] ++ [.release .txFifo] ++ [.release .mydev]) .irq :=
  (((((excess.append _).append _).append _).append _).append _).append _

theorem module_exit_overreleases {t : Trace} (openCount : BitVec 32)
    (excess : Overreleases t .irq) : Overreleases (mydevModuleExit openCount t) .irq := by
  unfold mydevModuleExit
  split_ifs
  · exact exit_rest_overreleases (excess.append _)
  · exact exit_rest_overreleases excess

/-- The exit goes by the counter. -/
theorem module_exit_balanced_iff {t : Trace} {s : Opens}
    (leaves : Leaves t (irqHeld s + moduleHeld)) :
    Balanced (mydevModuleExit s.mydev.openCount t) ↔ IrqFollowsCount s := by
  unfold IrqFollowsCount
  cases irq : s.mydev.irqRequested with
  | true =>
      rw [irqHeld, irq, if_pos rfl] at leaves
      by_cases opened : Positive s.mydev.openCount
      · have released : Leaves (t ++ [.release .irq]) (moduleHeld + 0) := by
          rw [Multiset.add_zero]
          exact leaves.release
        simp only [opened, iff_true]
        unfold mydevModuleExit
        rw [if_pos opened]
        exact module_exit_leaves released
      · rw [Multiset.add_comm] at leaves
        simp only [opened, iff_false]
        unfold mydevModuleExit
        rw [if_neg opened, (module_exit_leaves leaves).balanced_iff]
        simp
  | false =>
      rw [irqHeld, irq, if_neg Bool.false_ne_true, Multiset.zero_add] at leaves
      by_cases opened : Positive s.mydev.openCount
      · have excess := leaves.overrelease irq_not_in_module (overreleases_release _)
        simp only [opened, Bool.false_eq_true, iff_true, iff_false]
        unfold mydevModuleExit
        rw [if_pos opened]
        exact (exit_rest_overreleases excess).unbalanced
      · rw [← Multiset.add_zero moduleHeld] at leaves
        simp only [opened, Bool.false_eq_true, iff_true]
        unfold mydevModuleExit
        rw [if_neg opened]
        exact module_exit_leaves leaves

/-- A load that fails leaves nothing. One that succeeds, with any opens and releases behind it
that have come to rest, is undone by the exit exactly when no open or release has miscounted or
freed an interrupt that was not requested. -/
theorem module_lifetime_balanced_iff (answers : ModuleAnswers) (s : Opens) (marks : Marks)
    (t : Trace) (reached : tracedOpens.Reachable ((s, marks), t)) (quiet : s.Quiet) :
    ((mydevModuleInit answers).1 ≠ 0 → Balanced (mydevModuleInit answers).2) ∧
      ((mydevModuleInit answers).1 = 0 →
        (Balanced (mydevModuleExit s.mydev.openCount ((mydevModuleInit answers).2 ++ t)) ↔
          marks.spurious = false ∧ marks.miscounted = false)) := by
  have traced := reachable_traced reached
  have explained := reachable_explained (StepSystem.observe_reachable reached)
  rcases module_init_leaves answers with ⟨failed, balanced⟩ | ⟨loaded, leaves⟩
  · exact ⟨fun _ => balanced, fun loaded => absurd loaded failed⟩
  · refine ⟨fun failed => absurd loaded failed, fun _ => ?_⟩
    cases spurious : marks.spurious with
    | true =>
        have excess := leaves.overrelease irq_not_in_module (traced.spurious spurious)
        have unbalanced := (module_exit_overreleases s.mydev.openCount excess).unbalanced
        simp only [unbalanced, Bool.true_eq_false, false_and]
    | false =>
        have follows := (explained spurious).2
        dsimp only at follows
        rw [module_exit_balanced_iff (leaves.append (traced.regular spurious)),
          follows_iff_balanced quiet, follows]
        simp only [true_and]

/-- Two files, the second released behind the first: the interrupt is requested once, and
everything is undone. -/
theorem module_lifetime_balanced_iff_two_files :
    ∃ t : Trace, Balanced (mydevModuleExit 0 ((mydevModuleInit ⟨true, 0, 0, 0, 7, 0, 0⟩).2 ++ t)) ∧
      t = [.acquire .irq, .release .irq] := by
  rcases StepSystem.reachable_of_run tracedOpens
    [.openCount, .requestIrq true, .openCount, .releaseCount, .releaseCount, .freeIrq]
    (fun state => decide (state = ((⟨⟨0, false⟩, 0, 0, 0, 0⟩, ⟨false, false⟩),
      [.acquire .irq, .release .irq]))) (by decide) with ⟨⟨⟨s, marks⟩, t⟩, reached, passes⟩
  cases of_decide_eq_true passes
  exact ⟨_, ((module_lifetime_balanced_iff ⟨true, 0, 0, 0, 7, 0, 0⟩ _ _ _ reached (by decide)).2
    rfl).mpr ⟨rfl, rfl⟩, rfl⟩

end Testings.Kfifo
