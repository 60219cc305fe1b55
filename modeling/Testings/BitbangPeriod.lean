import Testings.BitbangUart

/-!
# The bit period

`priv->period_ms` is set by `bitbang_probe` from the module parameter and by
`period_store` from a text, and `bitbang_uart_set_period` derives the two
intervals from it. `kstrtouint` is the kernel's: it is a parameter here, a text
becomes an error code or a 32-bit number.
-/

set_option autoImplicit false

namespace Testings.Bitbang

/-- `PERIOD_MS`. -/
def defaultPeriodMs : BitVec 32 := 10

def erange : Int := -34

structure BitbangPriv where
  periodMs : BitVec 32
  uart : BitbangUart
  deriving DecidableEq

/-- What a successful `bitbang_probe` does with the module parameter. -/
def bitbangProbePeriod (periodMs : BitVec 32) : BitbangPriv :=
  let periodMs := if periodMs = 0 then defaultPeriodMs else periodMs
  { periodMs := periodMs, uart := bitbangUartInit periodMs }

/-- The new state and the return value. -/
def periodStore (kstrtouint : List (BitVec 8) → Except Int (BitVec 32)) (priv : BitbangPriv)
    (buf : List (BitVec 8)) : BitbangPriv × Int :=
  match kstrtouint buf with
  | .error ret => (priv, ret)
  | .ok v =>
      if v < 1 ∨ 1000#32 < v then (priv, erange)
      else ({ periodMs := v, uart := bitbangUartSetPeriod priv.uart v }, buf.length)

/-- The device after a probe and the writes of `texts`. -/
def periodAfter (kstrtouint : List (BitVec 8) → Except Int (BitVec 32)) (periodMs : BitVec 32)
    (texts : List (List (BitVec 8))) : BitbangPriv :=
  texts.foldl (fun priv buf => (periodStore kstrtouint priv buf).1) (bitbangProbePeriod periodMs)

structure PeriodValid (priv : BitbangPriv) : Prop where
  inRange : 1 ≤ priv.periodMs.toNat ∧ priv.periodMs.toNat ≤ 1000
  period : priv.uart.period = msToKtime priv.periodMs.toNat
  positive : 0 < priv.uart.period
  half : 2 * priv.uart.halfPeriod = priv.uart.period

theorem set_period_valid {d : BitbangUart} {periodMs : BitVec 32}
    (inRange : 1 ≤ periodMs.toNat ∧ periodMs.toNat ≤ 1000) :
    PeriodValid { periodMs := periodMs, uart := bitbangUartSetPeriod d periodMs } := by
  have accepted : ¬(periodMs = 0 ∨ 1000#32 < periodMs) := by
    bv_omega
  have even : 2 * (msToKtime periodMs.toNat / 2) = msToKtime periodMs.toNat := by
    unfold msToKtime
    omega
  have positive : 0 < msToKtime periodMs.toNat := by
    unfold msToKtime
    omega
  unfold bitbangUartSetPeriod
  rw [if_neg accepted]
  exact ⟨inRange, rfl, positive, even⟩

/-- The numbers that `period_store` lets through are the ones that `set_period` accepts. -/
theorem period_store_valid (kstrtouint : List (BitVec 8) → Except Int (BitVec 32))
    {priv : BitbangPriv} (valid : PeriodValid priv) (buf : List (BitVec 8)) :
    PeriodValid (periodStore kstrtouint priv buf).1 := by
  unfold periodStore
  cases kstrtouint buf with
  | error ret => exact valid
  | ok v =>
      dsimp only
      split_ifs with refused
      · exact valid
      · exact set_period_valid (by bv_omega)

/-- A write that is accepted repairs whatever was there before. -/
theorem accepted_store_valid {kstrtouint : List (BitVec 8) → Except Int (BitVec 32)}
    {priv : BitbangPriv} {buf : List (BitVec 8)} {v : BitVec 32} (parsed : kstrtouint buf = .ok v)
    (inRange : 1 ≤ v.toNat ∧ v.toNat ≤ 1000) :
    PeriodValid (periodStore kstrtouint priv buf).1 ∧
      (periodStore kstrtouint priv buf).1.periodMs = v := by
  have accepted : ¬(v < 1 ∨ 1000#32 < v) := by
    bv_omega
  unfold periodStore
  rw [parsed]
  dsimp only
  rw [if_neg accepted]
  exact ⟨set_period_valid inRange, rfl⟩

theorem probe_period_valid_iff (periodMs : BitVec 32) :
    PeriodValid (bitbangProbePeriod periodMs) ↔ periodMs.toNat ≤ 1000 := by
  unfold bitbangProbePeriod
  split_ifs with zero
  · refine iff_of_true (set_period_valid (by decide)) ?_
    rw [zero]
    decide
  · constructor
    · intro valid
      exact valid.inRange.2
    · intro small
      exact set_period_valid (by bv_omega)

theorem period_after_valid (kstrtouint : List (BitVec 8) → Except Int (BitVec 32))
    {periodMs : BitVec 32} (small : periodMs.toNat ≤ 1000) (texts : List (List (BitVec 8))) :
    PeriodValid (periodAfter kstrtouint periodMs texts) := by
  have stores : ∀ priv, PeriodValid priv →
      PeriodValid (texts.foldl (fun priv buf => (periodStore kstrtouint priv buf).1) priv) := by
    induction texts with
    | nil => exact fun priv valid => valid
    | cons buf rest ih =>
        intro priv valid
        exact ih _ (period_store_valid kstrtouint valid buf)
  exact stores _ ((probe_period_valid_iff periodMs).mpr small)

/-- The period is valid after the probe and after every write exactly when the
module parameter is not above 1000; zero stands for the default. -/
theorem period_always_valid_iff (kstrtouint : List (BitVec 8) → Except Int (BitVec 32))
    (periodMs : BitVec 32) (texts : List (List (BitVec 8))) :
    (∀ writes ≤ texts.length, PeriodValid (periodAfter kstrtouint periodMs (texts.take writes))) ↔
      periodMs.toNat ≤ 1000 := by
  constructor
  · intro valid
    exact (probe_period_valid_iff periodMs).mp (valid 0 (Nat.zero_le _))
  · intro small writes _
    exact period_after_valid kstrtouint small (texts.take writes)

/-- With `period=1001` the device runs with a period of zero. -/
theorem large_parameter_leaves_no_period :
    (periodAfter (fun _ => .error (-22)) 1001 []).uart.period = 0 ∧
      (periodAfter (fun _ => .error (-22)) 1001 []).periodMs = 1001 ∧
      ¬∀ (kstrtouint : List (BitVec 8) → Except Int (BitVec 32)) (periodMs : BitVec 32)
        (texts : List (List (BitVec 8))) (writes : Nat), writes ≤ texts.length →
          PeriodValid (periodAfter kstrtouint periodMs (texts.take writes)) := by
  refine ⟨rfl, rfl, ?_⟩
  intro always
  have valid := always (fun _ => .error (-22)) 1001 [] 0 (Nat.zero_le _)
  exact absurd valid.inRange.2 (by decide)

end Testings.Bitbang
