import Testings.ResourceTrace

/-!
# Probe and remove of the bit-bang driver

`bitbang_probe` and `bitbang_remove` with all that they call, as traces of what
they acquire and release; memory from `devm_kzalloc` goes with the device and
is left out. What a kernel call returns is an answer given to it: zero, or a
valid pointer, where it succeeds.
-/

set_option autoImplicit false

namespace Testings.BitbangProbe

open ResourceTrace

inductive Resource where
  | chrdevRegion
  | cdev
  | cls
  | device
  | sysfsPeriod
  | sysfsDbg
  | procEntry
  | gpio (pin : Int)
  | irq (number : Int)
  deriving DecidableEq

abbrev Trace := ResourceTrace Resource

def enomem : Int := -12

def enxio : Int := -6

structure GpioAnswers where
  request : Int
  direction : Int

structure UartAnswers where
  kzalloc : Bool
  rxGpio : GpioAnswers
  txGpio : GpioAnswers
  gpioToIrq : Int
  requestThreadedIrq : Int

structure ProbeAnswers where
  kzalloc : Bool
  allocChrdevRegion : Int
  cdevAdd : Int
  classCreate : Int
  deviceCreate : Int
  createPeriod : Int
  createDbg : Int
  procCreate : Bool
  uart : UartAnswers

/-- What `struct bitbang_priv` and `struct bitbang_uart` keep for the exit. -/
structure BitbangPriv where
  txGpio : Int
  rxGpio : Int
  procEntry : Bool
  irq : Int

def gpioInit (answers : GpioAnswers) (pin : Int) (t : Trace) : Int × Trace :=
  if answers.request ≠ 0 then (enxio, t)
  else (answers.direction, t ++ [.acquire (.gpio pin)])

/-- `if (pin) ret = gpio_init(pin, ..)`. -/
def gpioInitIf (answers : GpioAnswers) (pin : Int) (t : Trace) : Int × Trace :=
  if pin ≠ 0 then gpioInit answers pin t else (0, t)

/-- `if (pin) gpio_free(pin)`. -/
def gpioFreeIf (pin : Int) (t : Trace) : Trace :=
  if pin ≠ 0 then t ++ [.release (.gpio pin)] else t

def irqInit (answers : UartAnswers) (priv : BitbangPriv) (t : Trace) :
    Int × BitbangPriv × Trace :=
  if answers.gpioToIrq < 0 then (answers.gpioToIrq, priv, t)
  else if answers.requestThreadedIrq ≠ 0 then (answers.requestThreadedIrq, priv, t)
  else
    (answers.requestThreadedIrq, { priv with irq := answers.gpioToIrq },
      t ++ [.acquire (.irq answers.gpioToIrq)])

def bitbangUartInit (answers : UartAnswers) (priv : BitbangPriv) (t : Trace) :
    Int × BitbangPriv × Trace :=
  if answers.kzalloc = false then (enomem, priv, t)
  else
    let (ret, t) := gpioInitIf answers.rxGpio priv.rxGpio t
    if ret ≠ 0 then (ret, priv, t)
    else
      let (ret, t) := gpioInitIf answers.txGpio priv.txGpio t
      if ret ≠ 0 then (ret, priv, gpioFreeIf priv.rxGpio t)
      else if priv.rxGpio ≠ 0 then
        let (ret, priv, t) := irqInit answers priv t
        if ret ≠ 0 then
          (ret, priv, gpioFreeIf priv.txGpio (t ++ [.release (.gpio priv.rxGpio)]))
        else (0, priv, t)
      else (0, priv, t)

/-- An interrupt of number zero is not freed. -/
def bitbangUartExit (priv : BitbangPriv) (t : Trace) : Trace :=
  let t :=
    if priv.rxGpio ≠ 0 then
      (if priv.irq ≠ 0 then t ++ [.release (.irq priv.irq)] else t) ++
        [.release (.gpio priv.rxGpio)]
    else t
  gpioFreeIf priv.txGpio t

def bitbangSysfsInit (answers : ProbeAnswers) (t : Trace) : Int × Trace :=
  if answers.createPeriod ≠ 0 then (answers.createPeriod, t)
  else
    let t := t ++ [.acquire .sysfsPeriod]
    if answers.createDbg ≠ 0 then (answers.createDbg, t ++ [.release .sysfsPeriod])
    else (answers.createDbg, t ++ [.acquire .sysfsDbg])

/-- The file `dbg` is not removed. -/
def bitbangSysfsExit (t : Trace) : Trace := t ++ [.release .sysfsPeriod]

def bitbangProcInit (answers : ProbeAnswers) (priv : BitbangPriv) (t : Trace) :
    BitbangPriv × Trace :=
  ({ priv with procEntry := answers.procCreate },
    if answers.procCreate then t ++ [.acquire .procEntry] else t)

def bitbangProcExit (priv : BitbangPriv) (t : Trace) : Trace :=
  if priv.procEntry then t ++ [.release .procEntry] else t

def errUnregisterChrdev (t : Trace) : Trace := t ++ [.release .chrdevRegion]

def errCdevDel (t : Trace) : Trace := errUnregisterChrdev (t ++ [.release .cdev])

def errClassDestroy (t : Trace) : Trace := errCdevDel (t ++ [.release .cls])

def errDeviceDestroy (t : Trace) : Trace := errClassDestroy (t ++ [.release .device])

def errSysfsRemove (priv : BitbangPriv) (t : Trace) : Trace :=
  errDeviceDestroy (bitbangSysfsExit (bitbangProcExit priv t))

/-- `priv` is the allocation with the pins of the module parameters in it. -/
def bitbangProbe (answers : ProbeAnswers) (priv : BitbangPriv) : Int × BitbangPriv × Trace :=
  if answers.kzalloc = false then (enomem, priv, [])
  else if answers.allocChrdevRegion ≠ 0 then (answers.allocChrdevRegion, priv, [])
  else
    let t : Trace := [] ++ [.acquire .chrdevRegion]
    if answers.cdevAdd ≠ 0 then (answers.cdevAdd, priv, errUnregisterChrdev t)
    else
      let t := t ++ [.acquire .cdev]
      if answers.classCreate ≠ 0 then (answers.classCreate, priv, errCdevDel t)
      else
        let t := t ++ [.acquire .cls]
        if answers.deviceCreate ≠ 0 then (answers.deviceCreate, priv, errClassDestroy t)
        else
          let t := t ++ [.acquire .device]
          let (ret, t) := bitbangSysfsInit answers t
          if ret ≠ 0 then (ret, priv, errDeviceDestroy t)
          else
            let (priv, t) := bitbangProcInit answers priv t
            let (ret, priv, t) := bitbangUartInit answers.uart priv t
            if ret ≠ 0 then (ret, priv, errSysfsRemove priv t) else (ret, priv, t)

def bitbangRemove (priv : BitbangPriv) (t : Trace) : Trace :=
  let t := bitbangSysfsExit (bitbangProcExit priv (bitbangUartExit priv t))
  let t := t ++ [.release .device]
  let t := t ++ [.release .cls]
  let t := t ++ [.release .cdev]
  t ++ [.release .chrdevRegion]

/-- A probe with these pins, and a remove where it succeeds. -/
structure Lifetime where
  txGpio : Int
  rxGpio : Int
  answers : ProbeAnswers

def Lifetime.trace (run : Lifetime) : Trace :=
  let (ret, priv, t) := bitbangProbe run.answers ⟨run.txGpio, run.rxGpio, false, 0⟩
  if ret ≠ 0 then t else bitbangRemove priv t

/-- A call up to the creation of the file `dbg` fails. -/
def FailsEarly (answers : ProbeAnswers) : Prop :=
  answers.kzalloc = false ∨ answers.allocChrdevRegion ≠ 0 ∨ answers.cdevAdd ≠ 0 ∨
    answers.classCreate ≠ 0 ∨ answers.deviceCreate ≠ 0 ∨ answers.createPeriod ≠ 0 ∨
    answers.createDbg ≠ 0

instance (answers : ProbeAnswers) : Decidable (FailsEarly answers) := by
  unfold FailsEarly
  infer_instance

def pinHeld (pin : Int) : Multiset Resource := if pin ≠ 0 then {.gpio pin} else 0

/-- What a UART has after its initialisation. -/
def uartHeld (priv : BitbangPriv) : Multiset Resource :=
  (if priv.rxGpio ≠ 0 then {.irq priv.irq} else 0) +
    (pinHeld priv.rxGpio + pinHeld priv.txGpio)

def procHeld (priv : BitbangPriv) : Multiset Resource :=
  if priv.procEntry then {.procEntry} else 0

/-- What the probe has once `bitbang_sysfs_init` has succeeded. -/
def sysfsHeld : Multiset Resource :=
  {.sysfsPeriod, .device, .cls, .cdev, .chrdevRegion, .sysfsDbg}

section Leaves

variable {t : Trace} {left : Multiset Resource}

theorem err_unregister_chrdev_leaves (leaves : Leaves t (.chrdevRegion ::ₘ left)) :
    Leaves (errUnregisterChrdev t) left :=
  leaves.release

theorem err_cdev_del_leaves (leaves : Leaves t (.cdev ::ₘ .chrdevRegion ::ₘ left)) :
    Leaves (errCdevDel t) left :=
  err_unregister_chrdev_leaves leaves.release

theorem err_class_destroy_leaves
    (leaves : Leaves t (.cls ::ₘ .cdev ::ₘ .chrdevRegion ::ₘ left)) :
    Leaves (errClassDestroy t) left :=
  err_cdev_del_leaves leaves.release

theorem err_device_destroy_leaves
    (leaves : Leaves t (.device ::ₘ .cls ::ₘ .cdev ::ₘ .chrdevRegion ::ₘ left)) :
    Leaves (errDeviceDestroy t) left :=
  err_class_destroy_leaves leaves.release

theorem proc_init_leaves (leaves : Leaves t left) (answers : ProbeAnswers) (priv : BitbangPriv) :
    Leaves (bitbangProcInit answers priv t).2
      (procHeld (bitbangProcInit answers priv t).1 + left) := by
  unfold bitbangProcInit procHeld
  cases answers.procCreate with
  | true => exact leaves.acquire
  | false => exact (Multiset.zero_add left).symm ▸ leaves

theorem proc_exit_leaves {priv : BitbangPriv} (leaves : Leaves t (procHeld priv + left)) :
    Leaves (bitbangProcExit priv t) left := by
  unfold procHeld at leaves
  unfold bitbangProcExit
  cases entry : priv.procEntry with
  | true =>
      rw [entry] at leaves
      exact leaves.release
  | false =>
      rw [entry] at leaves
      exact Multiset.zero_add left ▸ leaves

/-- Both ways out leave the file `dbg`, and what the UART has left. -/
theorem err_sysfs_remove_leaves {priv : BitbangPriv}
    (leaves : Leaves t (procHeld priv + (left + sysfsHeld))) :
    Leaves (errSysfsRemove priv t) (.sysfsDbg ::ₘ left) := by
  have order : left + sysfsHeld = .sysfsPeriod ::ₘ .device ::ₘ .cls ::ₘ .cdev ::ₘ .chrdevRegion ::ₘ
      .sysfsDbg ::ₘ left := by
    rw [Multiset.add_comm]
    simp only [sysfsHeld, Multiset.insert_eq_cons, Multiset.cons_add, Multiset.singleton_add]
  rw [order] at leaves
  exact err_device_destroy_leaves (proc_exit_leaves leaves).release

theorem gpio_init_if_leaves (leaves : Leaves t left) (answers : GpioAnswers) (pin : Int) :
    ∃ ret after more, gpioInitIf answers pin t = (ret, after) ∧ Leaves after (more + left) ∧
      (ret = 0 → more = pinHeld pin) := by
  unfold gpioInitIf gpioInit pinHeld
  split_ifs with wired refused
  · exact ⟨_, _, 0, rfl, (Multiset.zero_add left).symm ▸ leaves,
      fun zero => absurd zero (by decide : enxio ≠ 0)⟩
  · exact ⟨_, _, {.gpio pin}, rfl, leaves.acquire, fun _ => rfl⟩
  · exact ⟨_, _, 0, rfl, (Multiset.zero_add left).symm ▸ leaves, fun _ => rfl⟩

theorem gpio_free_if_leaves {pin : Int} (leaves : Leaves t (pinHeld pin + left)) :
    Leaves (gpioFreeIf pin t) left := by
  unfold pinHeld at leaves
  unfold gpioFreeIf
  split_ifs at leaves ⊢ with wired
  · exact leaves.release
  · exact Multiset.zero_add left ▸ leaves

theorem irq_init_leaves (leaves : Leaves t left) (answers : UartAnswers) (priv : BitbangPriv) :
    (∃ ret, ret ≠ 0 ∧ irqInit answers priv t = (ret, priv, t)) ∨
      ∃ irq after, irqInit answers priv t = (0, { priv with irq := irq }, after) ∧
        Leaves after (.irq irq ::ₘ left) := by
  unfold irqInit
  split_ifs with missing refused
  · exact .inl ⟨answers.gpioToIrq, Int.ne_of_lt missing, rfl⟩
  · exact .inl ⟨answers.requestThreadedIrq, refused, rfl⟩
  · rw [not_not.mp refused]
    exact .inr ⟨answers.gpioToIrq, _, rfl, leaves.acquire⟩

/-- On success the UART has its pins and its interrupt; on failure a pin may be
left whose direction could not be set. -/
theorem uart_init_leaves (leaves : Leaves t left) (answers : UartAnswers) (priv : BitbangPriv) :
    ∃ ret after final more, bitbangUartInit answers priv t = (ret, after, final) ∧
      Leaves final (more + left) ∧ procHeld after = procHeld priv ∧
      (ret = 0 → more = uartHeld after) := by
  unfold bitbangUartInit
  by_cases memory : answers.kzalloc = false
  · rw [if_pos memory]
    exact ⟨_, _, _, 0, rfl, (Multiset.zero_add left).symm ▸ leaves, rfl,
      fun zero => absurd zero (by decide : enomem ≠ 0)⟩
  rw [if_neg memory]
  obtain ⟨ret, t, rx, same, requested, whole⟩ :=
    gpio_init_if_leaves leaves answers.rxGpio priv.rxGpio
  rw [same]
  dsimp only
  by_cases rxFails : ret ≠ 0
  · rw [if_pos rxFails]
    exact ⟨_, _, _, rx, rfl, requested, rfl, fun zero => absurd zero rxFails⟩
  rw [if_neg rxFails]
  obtain ⟨ret, t, tx, same, both, rest⟩ :=
    gpio_init_if_leaves requested answers.txGpio priv.txGpio
  rw [whole (not_not.mp rxFails)] at both
  rw [same]
  dsimp only
  by_cases txFails : ret ≠ 0
  · rw [if_pos txFails]
    exact ⟨_, _, _, tx, rfl, gpio_free_if_leaves both.swap, rfl,
      fun zero => absurd zero txFails⟩
  rw [if_neg txFails]
  rw [rest (not_not.mp txFails)] at both
  by_cases wired : priv.rxGpio ≠ 0
  · have pin : pinHeld priv.rxGpio = {.gpio priv.rxGpio} := if_pos wired
    rw [if_pos wired]
    rcases irq_init_leaves both.swap answers priv with ⟨ret, fails, same⟩ | ⟨irq, t, same, held⟩
    · rw [same]
      dsimp only
      rw [if_pos fails]
      rw [pin] at both
      exact ⟨_, _, _, 0, rfl,
        (Multiset.zero_add left).symm ▸ gpio_free_if_leaves both.swap.release, rfl,
        fun zero => absurd zero fails⟩
    · rw [same]
      dsimp only
      rw [if_neg (not_not.mpr rfl)]
      refine ⟨_, _, _, uartHeld { priv with irq := irq }, rfl, ?_, rfl, fun _ => rfl⟩
      rw [uartHeld, if_pos wired, Multiset.add_assoc, Multiset.add_assoc]
      exact held
  · rw [if_neg wired]
    refine ⟨_, _, _, uartHeld priv, rfl, ?_, rfl, fun _ => rfl⟩
    rw [uartHeld, if_neg wired, Multiset.zero_add, Multiset.add_assoc]
    exact both.swap

/-- An interrupt of number zero may be left. -/
theorem uart_exit_leaves {priv : BitbangPriv} (leaves : Leaves t (uartHeld priv + left)) :
    ∃ more, Leaves (bitbangUartExit priv t) (more + left) := by
  unfold uartHeld at leaves
  unfold bitbangUartExit
  by_cases wired : priv.rxGpio ≠ 0
  · have pin : pinHeld priv.rxGpio = {.gpio priv.rxGpio} := if_pos wired
    rw [if_pos wired, pin, Multiset.add_assoc, Multiset.add_assoc] at leaves
    dsimp only
    rw [if_pos wired]
    by_cases numbered : priv.irq ≠ 0
    · rw [if_pos numbered]
      refine ⟨0, gpio_free_if_leaves ?_⟩
      rw [Multiset.zero_add]
      exact leaves.release.release
    · rw [if_neg numbered]
      have pinFirst : Leaves t ({.gpio priv.rxGpio} + ({.irq priv.irq} +
          (pinHeld priv.txGpio + left))) := leaves.swap
      exact ⟨{.irq priv.irq}, gpio_free_if_leaves pinFirst.release.swap⟩
  · rw [if_neg wired, Multiset.zero_add, Multiset.add_assoc, pinHeld, if_neg wired,
      Multiset.zero_add] at leaves
    dsimp only
    rw [if_neg wired]
    exact ⟨0, (Multiset.zero_add left).symm ▸ gpio_free_if_leaves leaves⟩

theorem sysfs_init_leaves (leaves : Leaves t left) (answers : ProbeAnswers) :
    (∃ ret after, (answers.createPeriod ≠ 0 ∨ answers.createDbg ≠ 0) ∧ ret ≠ 0 ∧
      bitbangSysfsInit answers t = (ret, after) ∧ Leaves after left) ∨
      ∃ after, answers.createPeriod = 0 ∧ answers.createDbg = 0 ∧
        bitbangSysfsInit answers t = (0, after) ∧
        Leaves after (.sysfsDbg ::ₘ .sysfsPeriod ::ₘ left) := by
  unfold bitbangSysfsInit
  split_ifs with period dbg
  · exact .inl ⟨_, _, .inl period, period, rfl, leaves⟩
  · exact .inl ⟨_, _, .inr dbg, dbg, rfl, leaves.acquire.release⟩
  · have created := not_not.mp dbg
    refine .inr ⟨_, not_not.mp period, created, ?_, leaves.acquire.acquire⟩
    rw [created]

end Leaves

/-- A probe that fails up to the file `dbg` unwinds everything; a later one has
that file, and on success all that the remove function knows. -/
theorem probe_outcome (answers : ProbeAnswers) (priv : BitbangPriv) :
    ∃ ret after t, bitbangProbe answers priv = (ret, after, t) ∧
      ((FailsEarly answers ∧ ret ≠ 0 ∧ Balanced t) ∨
        (¬FailsEarly answers ∧
          (ret ≠ 0 → ∃ more, Leaves t (.sysfsDbg ::ₘ more)) ∧
          (ret = 0 → Leaves t (uartHeld after + (procHeld after + sysfsHeld))))) := by
  unfold bitbangProbe FailsEarly
  by_cases memory : answers.kzalloc = false
  · rw [if_pos memory]
    exact ⟨_, _, _, rfl, .inl ⟨by simp [memory], by decide, leaves_nil⟩⟩
  rw [if_neg memory]
  by_cases region : answers.allocChrdevRegion ≠ 0
  · rw [if_pos region]
    exact ⟨_, _, _, rfl, .inl ⟨by simp [region], region, leaves_nil⟩⟩
  rw [if_neg region]
  have numbered : Leaves _ (Resource.chrdevRegion ::ₘ 0) := leaves_nil.acquire
  dsimp only
  by_cases cdev : answers.cdevAdd ≠ 0
  · rw [if_pos cdev]
    exact ⟨_, _, _, rfl, .inl ⟨by simp [cdev], cdev, err_unregister_chrdev_leaves numbered⟩⟩
  rw [if_neg cdev]
  by_cases cls : answers.classCreate ≠ 0
  · rw [if_pos cls]
    exact ⟨_, _, _, rfl, .inl ⟨by simp [cls], cls, err_cdev_del_leaves numbered.acquire⟩⟩
  rw [if_neg cls]
  by_cases device : answers.deviceCreate ≠ 0
  · rw [if_pos device]
    exact ⟨_, _, _, rfl, .inl ⟨by simp [device], device,
      err_class_destroy_leaves numbered.acquire.acquire⟩⟩
  rw [if_neg device]
  rcases sysfs_init_leaves numbered.acquire.acquire.acquire answers with
    ⟨ret, t, fails, failed, same, held⟩ | ⟨t, period, dbg, same, held⟩
  · rw [same]
    dsimp only
    rw [if_pos failed]
    refine ⟨_, _, _, rfl, .inl ⟨?_, failed, err_device_destroy_leaves held⟩⟩
    rcases fails with period | dbg
    · simp [period]
    · simp [dbg]
  · have late : ¬(answers.kzalloc = false ∨ answers.allocChrdevRegion ≠ 0 ∨
        answers.cdevAdd ≠ 0 ∨ answers.classCreate ≠ 0 ∨ answers.deviceCreate ≠ 0 ∨
        answers.createPeriod ≠ 0 ∨ answers.createDbg ≠ 0) := by
      simp [memory, not_not.mp region, not_not.mp cdev, not_not.mp cls, not_not.mp device,
        period, dbg]
    have order : (Resource.sysfsDbg ::ₘ .sysfsPeriod ::ₘ .device ::ₘ .cls ::ₘ .cdev ::ₘ
        .chrdevRegion ::ₘ 0) = sysfsHeld := by decide
    rw [order] at held
    rw [same]
    dsimp only
    rw [if_neg (not_not.mpr rfl)]
    obtain ⟨ret, after, final, more, run, left, kept, whole⟩ :=
      uart_init_leaves (proc_init_leaves held answers priv) answers.uart
        (bitbangProcInit answers priv t).1
    rw [run]
    dsimp only
    rw [← kept] at left
    by_cases failed : ret ≠ 0
    · rw [if_pos failed]
      exact ⟨_, _, _, rfl, .inr ⟨late, fun _ => ⟨more, err_sysfs_remove_leaves left.swap⟩,
        fun zero => absurd zero failed⟩⟩
    · rw [if_neg failed]
      refine ⟨_, _, _, rfl, .inr ⟨late, fun fails => absurd fails failed, fun zero => ?_⟩⟩
      rw [← whole zero]
      exact left

theorem remove_leaves {priv : BitbangPriv} {t : Trace}
    (leaves : Leaves t (uartHeld priv + (procHeld priv + sysfsHeld))) :
    ∃ more, Leaves (bitbangRemove priv t) (.sysfsDbg ::ₘ more) := by
  obtain ⟨more, left⟩ := uart_exit_leaves leaves
  exact ⟨more, err_sysfs_remove_leaves left.swap⟩

theorem lifetime_leaves (run : Lifetime) :
    ∃ left, Leaves run.trace left ∧ (left = 0 ↔ FailsEarly run.answers) := by
  obtain ⟨ret, after, t, same, outcome⟩ :=
    probe_outcome run.answers ⟨run.txGpio, run.rxGpio, false, 0⟩
  unfold Lifetime.trace
  rw [same]
  dsimp only
  have nonempty : ∀ more : Multiset Resource, ¬(Resource.sysfsDbg ::ₘ more) = 0 :=
    fun more => Multiset.cons_ne_zero
  rcases outcome with ⟨early, failed, balanced⟩ | ⟨late, failure, success⟩
  · rw [if_pos failed]
    exact ⟨0, balanced, ⟨fun _ => early, fun _ => rfl⟩⟩
  · by_cases failed : ret ≠ 0
    · obtain ⟨more, left⟩ := failure failed
      rw [if_pos failed]
      exact ⟨_, left, ⟨fun none => absurd none (nonempty more), fun early => absurd early late⟩⟩
    · obtain ⟨more, left⟩ := remove_leaves (success (not_not.mp failed))
      rw [if_neg failed]
      exact ⟨_, left, ⟨fun none => absurd none (nonempty more), fun early => absurd early late⟩⟩

/-- Failed probes and cycles of probe and remove give back all that they have
acquired exactly when each of the probes fails up to the file `dbg`. -/
theorem lifetimes_balanced_iff (runs : List Lifetime) :
    Balanced (runs.flatMap Lifetime.trace) ↔ ∀ run ∈ runs, FailsEarly run.answers := by
  choose left leaves none using lifetime_leaves
  rw [balanced_flat_map_iff runs Lifetime.trace left fun run _ => leaves run]
  simp only [none]

def granted : ProbeAnswers where
  kzalloc := true
  allocChrdevRegion := 0
  cdevAdd := 0
  classCreate := 0
  deviceCreate := 0
  createPeriod := 0
  createDbg := 0
  procCreate := true
  uart :=
    { kzalloc := true
      rxGpio := ⟨0, 0⟩
      txGpio := ⟨0, 0⟩
      gpioToIrq := 40
      requestThreadedIrq := 0 }

/-- A probe that succeeds, with its remove: the file `dbg` is left. -/
theorem removed_device_keeps_dbg :
    replay 0 (Lifetime.trace ⟨530, 532, granted⟩) = some {.sysfsDbg} ∧
      ¬∀ runs : List Lifetime, Balanced (runs.flatMap Lifetime.trace) := by
  have left : replay 0 (Lifetime.trace ⟨530, 532, granted⟩) = some {.sysfsDbg} := by decide
  refine ⟨left, ?_⟩
  intro always
  have balanced := always [⟨530, 532, granted⟩] 0
  rw [List.flatMap_singleton, left] at balanced
  exact absurd balanced (by decide)

end Testings.BitbangProbe
