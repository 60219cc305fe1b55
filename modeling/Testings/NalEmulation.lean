import Testings.PythonData
import Mathlib.Tactic.SplitIfs

/-!
# Emulation prevention bytes

`remove_emulation_prevention` of `h264nal.py`, and the encapsulation that it undoes.
The encoder counts zeros, the decoder looks at three bytes at a time.
-/

set_option autoImplicit false

namespace Testings.H264

open Python

/-- `rbsp[i] == 0 and rbsp[i+1] == 0 and rbsp[i+2] == 3`, where `rbsp[i:]` is
`byte :: rest`. -/
def AtWindow (byte : BitVec 8) (rest : Bytes) : Prop := byte = 0 ∧ rest.take 2 = [0, 3]

instance (byte : BitVec 8) (rest : Bytes) : Decidable (AtWindow byte rest) :=
  inferInstanceAs (Decidable (byte = 0 ∧ rest.take 2 = [0, 3]))

/-- The loop of `remove_emulation_prevention` on the bytes it has not read. -/
def removeEmulationPrevention : Bytes → Bytes
  | [] => []
  | byte :: rest =>
      if AtWindow byte rest then 0 :: 0 :: removeEmulationPrevention (rest.drop 2)
      else byte :: removeEmulationPrevention rest
termination_by rbsp => rbsp.length
decreasing_by
  · rw [List.length_drop, List.length_cons]
    omega
  · exact Nat.lt_succ_self _

/-- The encoder after `zeros` zero bytes in a row, counted from the last `03` it has
inserted. -/
def encapsulateFrom (zeros : Nat) : Bytes → Bytes
  | [] => if zeros = 2 then [3] else []
  | byte :: rest =>
      if zeros = 2 ∧ byte.toNat ≤ 3 then
        3 :: byte :: encapsulateFrom (if byte = 0 then 1 else 0) rest
      else byte :: encapsulateFrom (if byte = 0 then zeros + 1 else 0) rest

def encapsulate (rbsp : Bytes) : Bytes := encapsulateFrom 0 rbsp

theorem remove_nil : removeEmulationPrevention [] = [] := by
  rw [removeEmulationPrevention]

theorem remove_window (rest : Bytes) :
    removeEmulationPrevention (0 :: 0 :: 3 :: rest) =
      0 :: 0 :: removeEmulationPrevention rest := by
  rw [removeEmulationPrevention, if_pos ⟨rfl, rfl⟩]
  rfl

theorem remove_skip {byte : BitVec 8} {rest : Bytes} (other : ¬AtWindow byte rest) :
    removeEmulationPrevention (byte :: rest) = byte :: removeEmulationPrevention rest := by
  rw [removeEmulationPrevention, if_neg other]

theorem remove_nonzero {byte : BitVec 8} (nonzero : byte ≠ 0) (rest : Bytes) :
    removeEmulationPrevention (byte :: rest) = byte :: removeEmulationPrevention rest :=
  remove_skip fun window => nonzero window.1

/-- A byte other than zero after one zero ends the run. -/
theorem remove_zero_nonzero {byte : BitVec 8} (nonzero : byte ≠ 0) (rest : Bytes) :
    removeEmulationPrevention (0 :: byte :: rest) =
      0 :: byte :: removeEmulationPrevention rest := by
  rw [remove_skip, remove_nonzero nonzero]
  rintro ⟨_, window⟩
  exact nonzero (List.cons.inj window).1

/-- A large byte needs no escape, even after two zeros. -/
theorem remove_zeros_large {byte : BitVec 8} (large : 3 < byte.toNat) (rest : Bytes) :
    removeEmulationPrevention (0 :: 0 :: byte :: rest) =
      0 :: 0 :: byte :: removeEmulationPrevention rest := by
  have nonzero : byte ≠ 0 := by
    rintro rfl
    exact absurd large (by decide)
  rw [remove_skip, remove_zero_nonzero nonzero]
  rintro ⟨_, window⟩
  have three : byte = 3 := (List.cons.inj (List.cons.inj window).2).1
  rw [three] at large
  exact absurd large (by decide)

theorem encapsulate_escape {byte : BitVec 8} (small : byte.toNat ≤ 3) (rest : Bytes) :
    encapsulateFrom 2 (byte :: rest) =
      3 :: byte :: encapsulateFrom (if byte = 0 then 1 else 0) rest := by
  rw [encapsulateFrom, if_pos ⟨rfl, small⟩]

theorem encapsulate_plain {zeros : Nat} {byte : BitVec 8} (plain : ¬(zeros = 2 ∧ byte.toNat ≤ 3))
    (rest : Bytes) :
    encapsulateFrom zeros (byte :: rest) =
      byte :: encapsulateFrom (if byte = 0 then zeros + 1 else 0) rest := by
  rw [encapsulateFrom, if_neg plain]

/-- The decoder has the zeros in front of it that the encoder has counted. -/
theorem remove_encapsulate_from {zeros : Nat} (counted : zeros ≤ 2) (rbsp : Bytes) :
    removeEmulationPrevention (List.replicate zeros 0 ++ encapsulateFrom zeros rbsp) =
      List.replicate zeros 0 ++ rbsp := by
  induction rbsp generalizing zeros with
  | nil =>
      obtain rfl | rfl | rfl : zeros = 0 ∨ zeros = 1 ∨ zeros = 2 := by omega
      · exact remove_nil
      · exact (remove_skip (by decide)).trans (congrArg _ remove_nil)
      · exact (remove_window []).trans (congrArg _ (congrArg _ remove_nil))
  | cons byte rest ih =>
      have fresh : removeEmulationPrevention (encapsulateFrom 0 rest) = rest :=
        ih (Nat.zero_le 2)
      have afterOne : removeEmulationPrevention (0 :: encapsulateFrom 1 rest) = 0 :: rest :=
        @ih 1 (by decide)
      by_cases zero : byte = 0
      · subst zero
        obtain rfl | rfl | rfl : zeros = 0 ∨ zeros = 1 ∨ zeros = 2 := by omega
        · rw [encapsulate_plain (by decide), if_pos rfl]
          exact afterOne
        · rw [encapsulate_plain (by decide), if_pos rfl]
          exact @ih 2 (Nat.le_refl 2)
        · rw [encapsulate_escape (by decide), if_pos rfl]
          exact (remove_window _).trans (congrArg _ (congrArg _ afterOne))
      · obtain rfl | rfl | rfl : zeros = 0 ∨ zeros = 1 ∨ zeros = 2 := by omega
        · rw [encapsulate_plain (by omega), if_neg zero]
          exact (remove_nonzero zero _).trans (congrArg _ fresh)
        · rw [encapsulate_plain (by omega), if_neg zero]
          exact (remove_zero_nonzero zero _).trans (congrArg _ (congrArg _ fresh))
        · by_cases small : byte.toNat ≤ 3
          · rw [encapsulate_escape small, if_neg zero]
            apply (remove_window _).trans
            rw [remove_nonzero zero, fresh]
            rfl
          · rw [encapsulate_plain (fun escape => small escape.2), if_neg zero]
            apply (remove_zeros_large (by omega) _).trans
            rw [fresh]
            rfl

theorem remove_encapsulate (rbsp : Bytes) :
    removeEmulationPrevention (encapsulate rbsp) = rbsp :=
  remove_encapsulate_from (Nat.zero_le 2) rbsp

end Testings.H264
