import Testings.ResourceTrace

/-!
# Probe and remove of the SPI slave driver

`spi_imx_probe` and `spi_imx_remove` as traces of what they acquire and
release; what `devm_` functions give goes with the device and is left out. What
a kernel call returns is an answer given to it: zero, or a valid pointer, where
it succeeds.
-/

set_option autoImplicit false

namespace Testings.SpiSlaveProbe

open ResourceTrace

inductive Resource where
  | spiMaster
  | clkPer
  | clkIpg
  | bitbang
  | packets
  | rxRing
  | procEntry
  deriving DecidableEq

abbrev Trace := ResourceTrace Resource

def enomem : Int := -12

structure ProbeAnswers where
  allocSlave : Bool
  ioremap : Int
  getIrq : Int
  getClkIpg : Int
  getClkPer : Int
  enableClkPer : Int
  enableClkIpg : Int
  bitbangStart : Int
  packets : Bool
  rxRing : Bool
  procCreate : Bool

/-- Which of the two buffers of `struct spi_imx_data` are not NULL. -/
structure SpiImxData where
  packets : Bool
  rxRing : Bool

def kzalloc (granted : Bool) (buffer : Resource) (t : Trace) : Trace :=
  if granted then t ++ [.acquire buffer] else t

/-- `kfree` of a NULL pointer does nothing. -/
def kfree (allocated : Bool) (buffer : Resource) (t : Trace) : Trace :=
  if allocated then t ++ [.release buffer] else t

def outMasterPut (t : Trace) : Trace := t ++ [.release .spiMaster]

def outPutPer (t : Trace) : Trace := outMasterPut (t ++ [.release .clkPer])

def outBitbangStart (t : Trace) : Trace := outPutPer (t ++ [.release .clkIpg])

def outProcCreate (spiImx : SpiImxData) (t : Trace) : Trace :=
  outBitbangStart (kfree spiImx.rxRing .rxRing (kfree spiImx.packets .packets t))

/-- Neither allocation is checked. -/
def spiImxProbe (answers : ProbeAnswers) : Int × SpiImxData × Trace :=
  let zeroed : SpiImxData := ⟨false, false⟩
  if answers.allocSlave = false then (enomem, zeroed, [])
  else
    let t : Trace := [] ++ [.acquire .spiMaster]
    if answers.ioremap ≠ 0 then (answers.ioremap, zeroed, outMasterPut t)
    else if answers.getIrq < 0 then (answers.getIrq, zeroed, outMasterPut t)
    else if answers.getClkIpg ≠ 0 then (answers.getClkIpg, zeroed, outMasterPut t)
    else if answers.getClkPer ≠ 0 then (answers.getClkPer, zeroed, outMasterPut t)
    else if answers.enableClkPer ≠ 0 then (answers.enableClkPer, zeroed, outMasterPut t)
    else
      let t := t ++ [.acquire .clkPer]
      if answers.enableClkIpg ≠ 0 then (answers.enableClkIpg, zeroed, outPutPer t)
      else
        let t := t ++ [.acquire .clkIpg]
        if answers.bitbangStart ≠ 0 then (answers.bitbangStart, zeroed, outBitbangStart t)
        else
          let t := t ++ [.acquire .bitbang]
          let t := kzalloc answers.packets .packets t
          let t := kzalloc answers.rxRing .rxRing t
          let spiImx : SpiImxData := ⟨answers.packets, answers.rxRing⟩
          if answers.procCreate = false then (enomem, spiImx, outProcCreate spiImx t)
          else (answers.bitbangStart, spiImx, t ++ [.acquire .procEntry])

/-- The clocks stay enabled. -/
def spiImxRemove (spiImx : SpiImxData) (t : Trace) : Trace :=
  let t := t ++ [.release .procEntry]
  let t := t ++ [.release .bitbang]
  let t := t ++ [.release .spiMaster]
  kfree spiImx.packets .packets (kfree spiImx.rxRing .rxRing t)

/-- A failed probe gives everything back; a successful one has both its
buffers, and with its remove gives everything back. -/
def Managed (answers : ProbeAnswers) : Prop :=
  let (ret, spiImx, t) := spiImxProbe answers
  if ret ≠ 0 then Balanced t
  else spiImx.packets = true ∧ spiImx.rxRing = true ∧ Balanced (spiImxRemove spiImx t)

/-- A call up to `spi_bitbang_start` fails. -/
def FailsEarly (answers : ProbeAnswers) : Prop :=
  answers.allocSlave = false ∨ answers.ioremap ≠ 0 ∨ answers.getIrq < 0 ∨
    answers.getClkIpg ≠ 0 ∨ answers.getClkPer ≠ 0 ∨ answers.enableClkPer ≠ 0 ∨
    answers.enableClkIpg ≠ 0 ∨ answers.bitbangStart ≠ 0

instance (answers : ProbeAnswers) : Decidable (FailsEarly answers) := by
  unfold FailsEarly
  infer_instance

section Leaves

variable {t : Trace} {left : Multiset Resource}

def bufferHeld (allocated : Bool) (buffer : Resource) : Multiset Resource :=
  if allocated then {buffer} else 0

theorem kzalloc_leaves (leaves : Leaves t left) (granted : Bool) (buffer : Resource) :
    Leaves (kzalloc granted buffer t) (bufferHeld granted buffer + left) := by
  cases granted with
  | true => exact leaves.acquire
  | false => exact (Multiset.zero_add left).symm ▸ leaves

theorem kfree_leaves {allocated : Bool} {buffer : Resource}
    (leaves : Leaves t (bufferHeld allocated buffer + left)) :
    Leaves (kfree allocated buffer t) left := by
  cases allocated with
  | true => exact leaves.release
  | false => exact Multiset.zero_add left ▸ leaves

theorem out_master_put_leaves (leaves : Leaves t (.spiMaster ::ₘ left)) :
    Leaves (outMasterPut t) left :=
  leaves.release

theorem out_put_per_leaves (leaves : Leaves t (.clkPer ::ₘ .spiMaster ::ₘ left)) :
    Leaves (outPutPer t) left :=
  out_master_put_leaves leaves.release

theorem out_bitbang_start_leaves
    (leaves : Leaves t (.clkIpg ::ₘ .clkPer ::ₘ .spiMaster ::ₘ left)) :
    Leaves (outBitbangStart t) left :=
  out_put_per_leaves leaves.release

/-- What the probe has once `spi_bitbang_start` has succeeded. -/
def started : Multiset Resource := {.bitbang, .clkIpg, .clkPer, .spiMaster}

/-- The registration with the SPI core is not undone. -/
theorem out_proc_create_leaves (spiImx : SpiImxData)
    (leaves : Leaves t (bufferHeld spiImx.rxRing .rxRing +
      (bufferHeld spiImx.packets .packets + started))) :
    Leaves (outProcCreate spiImx t) {.bitbang} := by
  have order : started = .clkIpg ::ₘ .clkPer ::ₘ .spiMaster ::ₘ {.bitbang} := by decide
  have freed := kfree_leaves (kfree_leaves leaves.swap)
  rw [order] at freed
  exact out_bitbang_start_leaves freed

theorem remove_leaves (spiImx : SpiImxData)
    (leaves : Leaves t (.procEntry ::ₘ (bufferHeld spiImx.rxRing .rxRing +
      (bufferHeld spiImx.packets .packets + started)))) :
    Leaves (spiImxRemove spiImx t) {.clkIpg, .clkPer} := by
  have order (buffers : Multiset Resource) :
      buffers + started = .bitbang ::ₘ .spiMaster ::ₘ (buffers + {.clkIpg, .clkPer}) := by
    have split : started = .bitbang ::ₘ .spiMaster ::ₘ {.clkIpg, .clkPer} := by decide
    rw [split, Multiset.add_cons, Multiset.add_cons]
  have stopped := leaves.release
  rw [← Multiset.add_assoc, order] at stopped
  have put := stopped.release.release
  rw [Multiset.add_assoc] at put
  exact kfree_leaves (kfree_leaves put)

end Leaves

theorem probe_early {answers : ProbeAnswers} (early : FailsEarly answers) :
    ∃ ret spiImx t, spiImxProbe answers = (ret, spiImx, t) ∧ ret ≠ 0 ∧ Balanced t := by
  unfold spiImxProbe
  by_cases memory : answers.allocSlave = false
  · rw [if_pos memory]
    exact ⟨_, _, _, rfl, by decide, leaves_nil⟩
  rw [if_neg memory]
  have master : Leaves _ (Resource.spiMaster ::ₘ 0) := leaves_nil.acquire
  dsimp only
  by_cases ioremap : answers.ioremap ≠ 0
  · rw [if_pos ioremap]
    exact ⟨_, _, _, rfl, ioremap, out_master_put_leaves master⟩
  rw [if_neg ioremap]
  by_cases irq : answers.getIrq < 0
  · rw [if_pos irq]
    exact ⟨_, _, _, rfl, Int.ne_of_lt irq, out_master_put_leaves master⟩
  rw [if_neg irq]
  by_cases clkIpg : answers.getClkIpg ≠ 0
  · rw [if_pos clkIpg]
    exact ⟨_, _, _, rfl, clkIpg, out_master_put_leaves master⟩
  rw [if_neg clkIpg]
  by_cases clkPer : answers.getClkPer ≠ 0
  · rw [if_pos clkPer]
    exact ⟨_, _, _, rfl, clkPer, out_master_put_leaves master⟩
  rw [if_neg clkPer]
  by_cases enablePer : answers.enableClkPer ≠ 0
  · rw [if_pos enablePer]
    exact ⟨_, _, _, rfl, enablePer, out_master_put_leaves master⟩
  rw [if_neg enablePer]
  by_cases enableIpg : answers.enableClkIpg ≠ 0
  · rw [if_pos enableIpg]
    exact ⟨_, _, _, rfl, enableIpg, out_put_per_leaves master.acquire⟩
  rw [if_neg enableIpg]
  by_cases start : answers.bitbangStart ≠ 0
  · rw [if_pos start]
    exact ⟨_, _, _, rfl, start, out_bitbang_start_leaves master.acquire.acquire⟩
  rcases early with no | no | no | no | no | no | no | no <;> contradiction

theorem probe_late {answers : ProbeAnswers} (late : ¬FailsEarly answers) :
    ∃ ret t, spiImxProbe answers = (ret, ⟨answers.packets, answers.rxRing⟩, t) ∧
      (ret ≠ 0 → Leaves t {.bitbang}) ∧
      (ret = 0 → Leaves t (.procEntry ::ₘ (bufferHeld answers.rxRing .rxRing +
        (bufferHeld answers.packets .packets + started)))) := by
  simp only [FailsEarly, not_or, ne_eq, not_not] at late
  obtain ⟨memory, ioremap, irq, clkIpg, clkPer, enablePer, enableIpg, start⟩ := late
  unfold spiImxProbe
  rw [if_neg memory]
  dsimp only
  rw [if_neg (not_not.mpr ioremap), if_neg irq, if_neg (not_not.mpr clkIpg),
    if_neg (not_not.mpr clkPer), if_neg (not_not.mpr enablePer),
    if_neg (not_not.mpr enableIpg), if_neg (not_not.mpr start)]
  have registered : Leaves _ started := leaves_nil.acquire.acquire.acquire.acquire
  have held := kzalloc_leaves (kzalloc_leaves registered answers.packets .packets)
    answers.rxRing .rxRing
  split_ifs with missing
  · refine ⟨_, _, rfl, fun _ => ?_, fun zero => absurd zero (by decide)⟩
    exact out_proc_create_leaves ⟨answers.packets, answers.rxRing⟩ held
  · exact ⟨_, _, rfl, fun fails => absurd start fails, fun _ => held.acquire⟩

/-- The driver manages its resources exactly where the probe fails before it
has registered with the SPI core. -/
theorem probe_managed_iff (answers : ProbeAnswers) : Managed answers ↔ FailsEarly answers := by
  unfold Managed
  constructor
  · intro managed
    by_contra late
    obtain ⟨ret, t, same, failure, success⟩ := probe_late late
    rw [same] at managed
    dsimp only at managed
    split_ifs at managed with failed
    · exact absurd ((failure failed).balanced_iff.mp managed) (by decide)
    · have left := remove_leaves ⟨answers.packets, answers.rxRing⟩
        (success (not_not.mp failed))
      exact absurd (left.balanced_iff.mp managed.2.2) (by decide)
  · intro early
    obtain ⟨ret, spiImx, t, same, failed, balanced⟩ := probe_early early
    rw [same]
    dsimp only
    rw [if_pos failed]
    exact balanced

def granted : ProbeAnswers where
  allocSlave := true
  ioremap := 0
  getIrq := 40
  getClkIpg := 0
  getClkPer := 0
  enableClkPer := 0
  enableClkIpg := 0
  bitbangStart := 0
  packets := true
  rxRing := true
  procCreate := true

/-- A probe that succeeds, with its remove: both clocks stay enabled. -/
theorem removed_driver_keeps_clocks :
    replay 0 (spiImxRemove (spiImxProbe granted).2.1 (spiImxProbe granted).2.2) =
        some {.clkIpg, .clkPer} ∧
      ¬Managed granted := by
  have left : replay 0 (spiImxRemove (spiImxProbe granted).2.1 (spiImxProbe granted).2.2) =
      some {.clkIpg, .clkPer} := by decide
  refine ⟨left, ?_⟩
  intro managed
  have balanced := managed.2.2 0
  exact absurd (left.symm.trans balanced) (by decide)

end Testings.SpiSlaveProbe
