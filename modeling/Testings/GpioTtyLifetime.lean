import Testings.GpioTtyBaud
import Testings.ResourceTrace

/-!
# The lifetime of the GPIO UART modules

`gpio_uart_init` and `gpio_uart_exit` of `gpio_uart_tty.c` and of `gpio_uart_tty_gpiod.c`, as
traces of what they acquire and release. What a kernel call returns is an answer given to it:
zero, or a valid pointer, where it succeeds. The timer rearms itself until it is cancelled, and
a port once initialised has to be destroyed.
-/

set_option autoImplicit false

namespace Testings.GpioTtyLifetime

open ResourceTrace

inductive Resource where
  | gu
  | timer
  | ttyDriver
  | registered
  | port
  | ttyDevice
  | procEntry
  | kobj
  | sysfsGroup
  deriving DecidableEq

abbrev Trace := ResourceTrace Resource

def enomem : Int := -12

def einval : Int := -22

structure InitAnswers where
  kzalloc : Bool
  txDesc : Bool
  rxDesc : Bool
  directionOutput : Int
  directionInput : Int
  allocTtyDriver : Bool
  ttyRegisterDriver : Int
  ttyRegisterDevice : Int
  procCreate : Bool
  kobjectCreate : Bool
  sysfsCreateGroup : Int

/-- The entries in proc and sysfs come last, and either program goes on without them. -/
def createEntries (answers : InitAnswers) (t : Trace) : Trace :=
  let t := if answers.procCreate then t ++ [.acquire .procEntry] else t
  if answers.kobjectCreate then
    let t := t ++ [.acquire .kobj]
    if answers.sysfsCreateGroup = 0 then t ++ [.acquire .sysfsGroup] else t
  else t

/-- `gpio_uart_exit`, by the pointers that the calls have left; the group has none. -/
def gpioUartExit (proc kobj : Bool) (t : Trace) : Trace :=
  let t := if kobj then t ++ [.release .sysfsGroup] ++ [.release .kobj] else t
  let t := if proc then t ++ [.release .procEntry] else t
  let t := t ++ [.release .timer]
  let t := t ++ [.release .ttyDevice]
  let t := t ++ [.release .registered]
  let t := t ++ [.release .ttyDriver]
  let t := t ++ [.release .port]
  t ++ [.release .gu]

def errFree (t : Trace) : Trace := t ++ [.release .gu]

def errTimer (t : Trace) : Trace := errFree (t ++ [.release .timer])

def errPutDrv (t : Trace) : Trace := errTimer (t ++ [.release .ttyDriver])

def errUnregister (t : Trace) : Trace := errPutDrv (t ++ [.release .registered])

/-- `txGpio` and `rxGpio` are the module parameters. -/
def gpioUartInit (txGpio rxGpio : Int) (answers : InitAnswers) : Int × Trace :=
  if answers.kzalloc = false then (enomem, [])
  else
    let t : Trace := [] ++ [.acquire .gu]
    if txGpio < 0 ∨ rxGpio < 0 then (einval, errFree t)
    else if answers.txDesc = false ∨ answers.rxDesc = false then (einval, errFree t)
    else if answers.directionOutput ≠ 0 then (answers.directionOutput, errFree t)
    else if answers.directionInput ≠ 0 then (answers.directionInput, errFree t)
    else
      let t := t ++ [.acquire .timer]
      if answers.allocTtyDriver = false then (enomem, errTimer t)
      else
        let t := t ++ [.acquire .ttyDriver]
        if answers.ttyRegisterDriver ≠ 0 then (answers.ttyRegisterDriver, errPutDrv t)
        else
          let t := t ++ [.acquire .registered]
          let t := t ++ [.acquire .port]
          if answers.ttyRegisterDevice ≠ 0 then (answers.ttyRegisterDevice, errUnregister t)
          else (0, createEntries answers (t ++ [.acquire .ttyDevice]))

/-- A load with these parameters, and an unload where it succeeds. -/
structure Load where
  txGpio : Int
  rxGpio : Int
  answers : InitAnswers

def Load.trace (load : Load) : Trace :=
  let (ret, t) := gpioUartInit load.txGpio load.rxGpio load.answers
  if ret ≠ 0 then t else gpioUartExit load.answers.procCreate load.answers.kobjectCreate t

/-- Everything in front of `tty_register_device` succeeds. -/
def Load.Registers (load : Load) : Prop :=
  load.answers.kzalloc = true ∧ 0 ≤ load.txGpio ∧ 0 ≤ load.rxGpio ∧
    load.answers.txDesc = true ∧ load.answers.rxDesc = true ∧
    load.answers.directionOutput = 0 ∧ load.answers.directionInput = 0 ∧
    load.answers.allocTtyDriver = true ∧ load.answers.ttyRegisterDriver = 0

namespace Gpiod

/-- No failure is unwound; `none` is the division by a `default_baud` of zero or the fault on
the missing driver. -/
def gpioUartInit (defaultBaud : BitVec 32) (answers : InitAnswers) : Option (Int × Trace) :=
  if answers.kzalloc = false then some (enomem, [])
  else
    let t : Trace := [] ++ [.acquire .gu]
    match GpioTty.Gpiod.initBaud defaultBaud with
    | .error _ => none
    | .ok _ =>
        let t := t ++ [.acquire .timer]
        if answers.allocTtyDriver = false then none
        else
          let t := t ++ [.acquire .ttyDriver]
          if answers.ttyRegisterDriver ≠ 0 then some (answers.ttyRegisterDriver, t)
          else
            let t := t ++ [.acquire .registered]
            let t := t ++ [.acquire .port]
            if answers.ttyRegisterDevice ≠ 0 then some (answers.ttyRegisterDevice, t)
            else some (0, createEntries answers (t ++ [.acquire .ttyDevice]))

def loadTrace (defaultBaud : BitVec 32) (answers : InitAnswers) : Option Trace :=
  (gpioUartInit defaultBaud answers).map fun (ret, t) =>
    if ret ≠ 0 then t else gpioUartExit answers.procCreate answers.kobjectCreate t

end Gpiod

/-- What a load that succeeds has in front of the entries. -/
def driverHeld : Multiset Resource :=
  .ttyDevice ::ₘ .port ::ₘ .registered ::ₘ .ttyDriver ::ₘ .timer ::ₘ .gu ::ₘ 0

/-- The exit takes the group for created wherever the directory is. -/
def EntriesWhole (answers : InitAnswers) : Prop :=
  answers.kobjectCreate = true → answers.sysfsCreateGroup = 0

theorem driver_exit_leaves {t : Trace} (leaves : Leaves t driverHeld) :
    Balanced (t ++ [.release .timer] ++ [.release .ttyDevice] ++ [.release .registered] ++
      [.release .ttyDriver] ++ [.release .port] ++ [.release .gu]) := by
  have held : driverHeld =
      .timer ::ₘ .ttyDevice ::ₘ .registered ::ₘ .ttyDriver ::ₘ .port ::ₘ .gu ::ₘ 0 := by decide
  rw [held] at leaves
  exact leaves.release.release.release.release.release.release

theorem driver_exit_overreleases {t : Trace} (excess : Overreleases t .sysfsGroup) :
    Overreleases (t ++ [.release .timer] ++ [.release .ttyDevice] ++ [.release .registered] ++
      [.release .ttyDriver] ++ [.release .port] ++ [.release .gu]) .sysfsGroup :=
  (((((excess.append _).append _).append _).append _).append _).append _

/-- Behind a load that succeeds the exit undoes everything if the group is there; where only its
directory is, it removes a group too many. -/
theorem exit_settles {answers : InitAnswers} {t : Trace} (leaves : Leaves t driverHeld) :
    (EntriesWhole answers ∧
      Balanced (gpioUartExit answers.procCreate answers.kobjectCreate (createEntries answers t))) ∨
    (¬EntriesWhole answers ∧
      Overreleases (gpioUartExit answers.procCreate answers.kobjectCreate
        (createEntries answers t)) .sysfsGroup) := by
  unfold createEntries gpioUartExit EntriesWhole
  cases proc : answers.procCreate <;> cases directory : answers.kobjectCreate
  · exact .inl ⟨by nofun, driver_exit_leaves leaves⟩
  · by_cases group : answers.sysfsCreateGroup = 0
    · left
      simp only [if_pos group]
      exact ⟨fun _ => group, driver_exit_leaves leaves.acquire.acquire.release.release⟩
    · right
      simp only [if_neg group]
      have made : Leaves _ (Resource.kobj ::ₘ driverHeld) := leaves.acquire
      have excess := made.overrelease (by decide) (overreleases_release .sysfsGroup)
      exact ⟨fun whole => group (whole trivial), driver_exit_overreleases (excess.append _)⟩
  · exact .inl ⟨by nofun, driver_exit_leaves leaves.acquire.release⟩
  · by_cases group : answers.sysfsCreateGroup = 0
    · left
      simp only [if_pos group]
      exact ⟨fun _ => group,
        driver_exit_leaves leaves.acquire.acquire.acquire.release.release.release⟩
    · right
      simp only [if_neg group]
      have made : Leaves _ (Resource.kobj ::ₘ .procEntry ::ₘ driverHeld) := leaves.acquire.acquire
      have excess := made.overrelease (by decide) (overreleases_release .sysfsGroup)
      exact ⟨fun whole => group (whole trivial),
        driver_exit_overreleases ((excess.append _).append _)⟩

/-- How far a load comes: up to the registration it undoes what it has done, behind it the port
is left. -/
theorem init_outcome (load : Load) :
    ∃ ret t, gpioUartInit load.txGpio load.rxGpio load.answers = (ret, t) ∧
      ((¬load.Registers ∧ ret ≠ 0 ∧ Balanced t) ∨
        (load.Registers ∧ load.answers.ttyRegisterDevice ≠ 0 ∧ ret ≠ 0 ∧
          Leaves t (.port ::ₘ 0)) ∨
        (load.Registers ∧ load.answers.ttyRegisterDevice = 0 ∧ ret = 0 ∧
          ∃ driver, t = createEntries load.answers driver ∧ Leaves driver driverHeld)) := by
  have memory : Leaves _ (Resource.gu ::ₘ 0) := leaves_nil.acquire
  have armed : Leaves _ (Resource.timer ::ₘ .gu ::ₘ 0) := memory.acquire
  unfold gpioUartInit Load.Registers
  split_ifs with kzalloc pins desc output input alloc register device
  · exact ⟨_, _, rfl, .inl ⟨by simp [kzalloc], by decide, leaves_nil⟩⟩
  · refine ⟨_, _, rfl, .inl ⟨?_, by decide, memory.release⟩⟩
    omega
  · refine ⟨_, _, rfl, .inl ⟨?_, by decide, memory.release⟩⟩
    rcases desc with desc | desc <;> simp [desc]
  · exact ⟨_, _, rfl, .inl ⟨by simp [output], output, memory.release⟩⟩
  · exact ⟨_, _, rfl, .inl ⟨by simp [input], input, memory.release⟩⟩
  · exact ⟨_, _, rfl, .inl ⟨by simp [alloc], by decide, armed.release.release⟩⟩
  · exact ⟨_, _, rfl, .inl ⟨by simp [register], register,
      armed.acquire.release.release.release⟩⟩
  all_goals
    have registers : load.answers.kzalloc = true ∧ 0 ≤ load.txGpio ∧ 0 ≤ load.rxGpio ∧
        load.answers.txDesc = true ∧ load.answers.rxDesc = true ∧
        load.answers.directionOutput = 0 ∧ load.answers.directionInput = 0 ∧
        load.answers.allocTtyDriver = true ∧ load.answers.ttyRegisterDriver = 0 := by
      rcases not_or.mp pins with ⟨tx, rx⟩
      rcases not_or.mp desc with ⟨txDesc, rxDesc⟩
      exact ⟨eq_true_of_ne_false kzalloc, Int.not_lt.mp tx, Int.not_lt.mp rx,
        eq_true_of_ne_false txDesc, eq_true_of_ne_false rxDesc, not_not.mp output,
        not_not.mp input, eq_true_of_ne_false alloc, not_not.mp register⟩
  · have port : Leaves _ (Resource.port ::ₘ .registered ::ₘ .ttyDriver ::ₘ .timer ::ₘ .gu ::ₘ 0) :=
      armed.acquire.acquire.acquire
    have last : (Resource.port ::ₘ .registered ::ₘ .ttyDriver ::ₘ .timer ::ₘ .gu ::ₘ 0) =
        .registered ::ₘ .ttyDriver ::ₘ .timer ::ₘ .gu ::ₘ .port ::ₘ 0 := by decide
    rw [last] at port
    exact ⟨_, _, rfl, .inr (.inl ⟨registers, device, device,
      port.release.release.release.release⟩)⟩
  · exact ⟨_, _, rfl, .inr (.inr ⟨registers, not_not.mp device, rfl, _, rfl,
      armed.acquire.acquire.acquire.acquire⟩)⟩

theorem Load.settles (load : Load) :
    Settles load.trace .sysfsGroup ∧
      (Balanced load.trace ↔
        (load.Registers → load.answers.ttyRegisterDevice = 0 ∧ EntriesWhole load.answers)) := by
  rcases init_outcome load with ⟨ret, t, same, ⟨early, failed, balanced⟩ |
    ⟨registers, device, failed, left⟩ | ⟨registers, device, loaded, driver, entries, leaves⟩⟩
  all_goals rw [Load.trace, same]; dsimp only
  · rw [if_pos failed]
    exact ⟨.inl ⟨0, balanced, Multiset.notMem_zero _⟩,
      iff_of_true balanced fun registers => absurd registers early⟩
  · rw [if_pos failed]
    refine ⟨.inl ⟨_, left, by decide⟩, ?_⟩
    rw [left.balanced_iff]
    exact iff_of_false (by decide) fun whole => device (whole registers).1
  · rw [if_neg (not_not.mpr loaded), entries]
    rcases exit_settles leaves with ⟨whole, balanced⟩ | ⟨part, excess⟩
    · exact ⟨.inl ⟨0, balanced, Multiset.notMem_zero _⟩,
        iff_of_true balanced fun _ => ⟨device, whole⟩⟩
    · exact ⟨.inr excess, iff_of_false excess.unbalanced fun whole => part (whole registers).2⟩

/-- Loads and unloads of `gpio_uart_tty.c` keep nothing and give back nothing twice exactly when
none of them fails at `tty_register_device`, behind the port that is not destroyed then, and none
that succeeds has the directory in sysfs without its files. -/
theorem loads_balanced_iff (loads : List Load) :
    Balanced (loads.flatMap Load.trace) ↔ ∀ load ∈ loads, load.Registers →
      load.answers.ttyRegisterDevice = 0 ∧ EntriesWhole load.answers := by
  rw [balanced_flat_map_iff_each loads Load.trace fun load _ => load.settles.1]
  apply forall₂_congr
  exact fun load _ => load.settles.2

namespace Gpiod

theorem init_baud_zero : GpioTty.Gpiod.initBaud 0 = .error .divideByZero := rfl

theorem init_baud_nonzero {defaultBaud : BitVec 32} (some : defaultBaud ≠ 0) :
    ∃ gu, GpioTty.Gpiod.initBaud defaultBaud = .ok gu := by
  have positive : defaultBaud.toNat ≠ 0 := by
    intro zero
    exact some (BitVec.eq_of_toNat_eq zero)
  exact ⟨_, if_neg positive⟩

/-- What a load leaves on each of its ways out. -/
theorem load_outcome (defaultBaud : BitVec 32) (answers : InitAnswers) :
    (answers.kzalloc = false ∧ loadTrace defaultBaud answers = some []) ∨
      (answers.kzalloc = true ∧ (defaultBaud = 0 ∨ answers.allocTtyDriver = false) ∧
        loadTrace defaultBaud answers = none) ∨
      (answers.kzalloc = true ∧
        (answers.ttyRegisterDriver ≠ 0 ∨ answers.ttyRegisterDevice ≠ 0) ∧
        ∃ t more, loadTrace defaultBaud answers = some t ∧
          Leaves t (more + .ttyDriver ::ₘ .timer ::ₘ .gu ::ₘ 0)) ∨
      (answers.kzalloc = true ∧ (defaultBaud ≠ 0 ∧ answers.allocTtyDriver = true ∧
        answers.ttyRegisterDriver = 0 ∧ answers.ttyRegisterDevice = 0) ∧
        ∃ driver, Leaves driver driverHeld ∧
          loadTrace defaultBaud answers =
            some (gpioUartExit answers.procCreate answers.kobjectCreate
              (createEntries answers driver))) := by
  have driver : Leaves _ (Resource.ttyDriver ::ₘ .timer ::ₘ .gu ::ₘ 0) :=
    leaves_nil.acquire.acquire.acquire
  unfold loadTrace gpioUartInit
  by_cases zero : defaultBaud = 0
  · rw [zero, init_baud_zero]
    by_cases kzalloc : answers.kzalloc = false
    · rw [if_pos kzalloc]
      exact .inl ⟨kzalloc, congrArg some (if_pos (by decide))⟩
    · rw [if_neg kzalloc]
      exact .inr (.inl ⟨eq_true_of_ne_false kzalloc, .inl rfl, rfl⟩)
  · rcases init_baud_nonzero zero with ⟨gu, divided⟩
    rw [divided]
    split_ifs with kzalloc alloc register device
    · exact .inl ⟨kzalloc, congrArg some (if_pos (by decide))⟩
    · exact .inr (.inl ⟨eq_true_of_ne_false kzalloc, .inr alloc, rfl⟩)
    · refine .inr (.inr (.inl ⟨eq_true_of_ne_false kzalloc, .inl register, _, 0,
        congrArg some (if_pos register), ?_⟩))
      rw [Multiset.zero_add]
      exact driver
    · exact .inr (.inr (.inl ⟨eq_true_of_ne_false kzalloc, .inr device, _, {.port, .registered},
        congrArg some (if_pos device), driver.acquire.acquire⟩))
    · exact .inr (.inr (.inr ⟨eq_true_of_ne_false kzalloc, ⟨zero, eq_true_of_ne_false alloc,
        not_not.mp register, not_not.mp device⟩, _, driver.acquire.acquire.acquire,
        congrArg some (if_neg (not_not.mpr rfl))⟩))

/-- A load of `gpio_uart_tty_gpiod.c`, with its unload where it succeeds, comes out even only
without memory to begin with, or with a baud rate and if nothing fails behind it but what both
entries do without. -/
theorem load_balanced_iff (defaultBaud : BitVec 32) (answers : InitAnswers) :
    (∃ t, loadTrace defaultBaud answers = some t ∧ Balanced t) ↔
      answers.kzalloc = false ∨
        (defaultBaud ≠ 0 ∧ answers.allocTtyDriver = true ∧ answers.ttyRegisterDriver = 0 ∧
          answers.ttyRegisterDevice = 0) ∧ EntriesWhole answers := by
  rcases load_outcome defaultBaud answers with ⟨empty, same⟩ | ⟨memory, faults, same⟩ |
    ⟨memory, failed, t, more, same, left⟩ | ⟨memory, goes, driver, leaves, same⟩
  all_goals rw [same]
  · exact iff_of_true ⟨[], rfl, leaves_nil⟩ (.inl empty)
  · apply iff_of_false
    · intro even
      rcases even with ⟨t, ended, _⟩
      cases ended
    · intro whole
      rcases whole with empty | ⟨⟨nonzero, alloc, _⟩, _⟩
      · rw [memory] at empty
        cases empty
      · rcases faults with zero | missing
        · exact nonzero zero
        · rw [missing] at alloc
          cases alloc
  · apply iff_of_false
    · intro even
      rcases even with ⟨_, ended, balanced⟩
      cases ended
      have none := congrArg Multiset.card (left.balanced_iff.mp balanced)
      rw [Multiset.card_add, Multiset.card_cons] at none
      cases none
    · intro whole
      rcases whole with empty | ⟨⟨_, _, register, device⟩, _⟩
      · rw [memory] at empty
        cases empty
      · rcases failed with refused | refused
        · exact refused register
        · exact refused device
  · rcases exit_settles leaves with ⟨whole, balanced⟩ | ⟨part, excess⟩
    · exact iff_of_true ⟨_, rfl, balanced⟩ (.inr ⟨goes, whole⟩)
    · apply iff_of_false
      · intro even
        rcases even with ⟨_, ended, balanced⟩
        cases ended
        exact excess.unbalanced balanced
      · intro whole
        rcases whole with empty | ⟨_, entries⟩
        · rw [memory] at empty
          cases empty
        · exact part entries

end Gpiod

end Testings.GpioTtyLifetime
