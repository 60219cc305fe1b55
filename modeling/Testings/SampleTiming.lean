import Mathlib.Algebra.Order.Ring.Nat

/-!
# Sampling with a clock of one's own

A sender changes the level of a line every `bit`, beginning at an edge. The receiver waits
`delay` from the edge and samples every `period` from there. Sample `k` is in the middle of
level `k` for all of them as soon as it is for the first and for the last.
-/

set_option autoImplicit false

namespace SampleTiming

/-- From level 0 to level `last` every sample comes behind the beginning of its level, and all
but the last one in front of its end. -/
structure Tolerates (bit delay period last : Nat) : Prop where
  positive : 0 < delay
  prompt : delay < bit
  notEarly : last * bit < delay + last * period
  notLate : delay + (last - 1) * period < last * bit

variable {bit delay period last k : Nat}

/-- Between two instants at which the receiver is not early it is not early either. -/
theorem not_early_between (positive : 0 < delay) (atEnd : last * bit < delay + last * period)
    (inside : k ≤ last) : k * bit < delay + k * period := by
  rcases Nat.le_total bit period with slower | faster
  · have product := Nat.mul_le_mul_left k slower
    omega
  · rcases Nat.exists_eq_add_of_le faster with ⟨gain, split⟩
    have gained := Nat.mul_le_mul_right gain inside
    rw [split, Nat.mul_add] at atEnd ⊢
    omega

theorem not_late_between (prompt : delay < bit) (atEnd : delay + last * period < (last + 1) * bit)
    (inside : k ≤ last) : delay + k * period < (k + 1) * bit := by
  rw [Nat.succ_mul] at atEnd ⊢
  rcases Nat.le_total period bit with faster | slower
  · have product := Nat.mul_le_mul_left k faster
    omega
  · rcases Nat.exists_eq_add_of_le slower with ⟨lag, split⟩
    have lagged := Nat.mul_le_mul_right lag inside
    rw [split, Nat.mul_add] at atEnd ⊢
    omega

theorem Tolerates.behind_edge (tolerates : Tolerates bit delay period last)
    (inside : k ≤ last) : k * bit < delay + k * period :=
  not_early_between tolerates.positive tolerates.notEarly inside

theorem Tolerates.before_next (tolerates : Tolerates bit delay period last)
    (inside : k < last) : delay + k * period < (k + 1) * bit := by
  have atEnd := tolerates.notLate
  rcases last with _ | last
  · cases inside
  · exact not_late_between tolerates.prompt atEnd (Nat.lt_succ_iff.mp inside)

/-- A sample at level `m` that is not yet overdue when level `m` ends is a later one. -/
theorem Tolerates.sample_of_tick (tolerates : Tolerates bit delay period last) {base m : Nat}
    (inside : k < last) (pending : base + (m + 1) * bit ≤ base + delay + k * period) : m < k := by
  have early := tolerates.before_next inside
  have product : (m + 1) * bit < (k + 1) * bit := by omega
  exact Nat.lt_of_succ_lt_succ (Nat.lt_of_mul_lt_mul_right product)

/-- A sample that comes no later than the end of level `m` is of that level or an earlier one. -/
theorem Tolerates.tick_of_sample (tolerates : Tolerates bit delay period last) {base m : Nat}
    (inside : k ≤ last) (pending : base + delay + k * period ≤ base + (m + 1) * bit) :
    k ≤ m := by
  have late := tolerates.behind_edge inside
  have product : k * bit < (m + 1) * bit := by omega
  exact Nat.lt_succ_iff.mp (Nat.lt_of_mul_lt_mul_right product)

end SampleTiming
