import Mathlib.Data.BitVec
import Mathlib.Data.List.Infix

/-!
# Asynchronous serial characters

A word is framed by a low start bit in front of its bits, least significant
first, and by its even parity bit and some high stop bits behind them. The
receiver collects the bits in a shift register, whose top end holds the bits
that have come in so far.
-/

set_option autoImplicit false

namespace AsyncSerial

variable {width : Nat}

/-- The bits of a word in the order in which they are sent. -/
def bits (word : BitVec width) : List Bool :=
  (List.range width).map word.getLsbD

/-- Even parity: high exactly for an odd number of ones. -/
def parity (word : BitVec width) : Bool :=
  (bits word).foldl xor false

def frame (stops : Nat) (word : BitVec width) : List Bool :=
  false :: (bits word ++ parity word :: List.replicate stops true)

@[simp] theorem bits_length (word : BitVec width) : (bits word).length = width := by
  simp [bits]

@[simp] theorem frame_length (stops : Nat) (word : BitVec width) :
    (frame stops word).length = width + stops + 2 := by
  simp [frame]
  omega

theorem bits_get (word : BitVec width) {i : Nat} (bound : i < width) :
    (bits word)[i]? = some (word.getLsbD i) := by
  simp [bits, bound]

theorem bits_injective {word other : BitVec width} (same : bits word = bits other) :
    word = other := by
  apply BitVec.eq_of_getLsbD_eq
  intro i bound
  have get := congrArg (fun sent => sent[i]?) same
  rw [bits_get word bound, bits_get other bound] at get
  exact Option.some.inj get

theorem frame_start (stops : Nat) (word : BitVec width) : (frame stops word)[0]? = some false :=
  rfl

theorem frame_bit (stops : Nat) (word : BitVec width) {i : Nat} (bound : i < width) :
    (frame stops word)[i + 1]? = some (word.getLsbD i) := by
  rw [frame, List.getElem?_cons_succ, List.getElem?_append_left (by simpa using bound)]
  exact bits_get word bound

theorem frame_parity (stops : Nat) (word : BitVec width) :
    (frame stops word)[width + 1]? = some (parity word) := by
  rw [frame, List.getElem?_cons_succ, List.getElem?_append_right (by simp)]
  simp

theorem frame_stop (stops : Nat) (word : BitVec width) {i : Nat} (bound : i < stops) :
    (frame stops word)[width + 2 + i]? = some true := by
  have position : width + 2 + i = width + (i + 1) + 1 := by omega
  rw [position, frame, List.getElem?_cons_succ, List.getElem?_append_right (by simp)]
  simp [bound]

/-- Stop bits that the receiver does not wait for are the end of the frame. -/
theorem frame_fewer_stops {fewer stops : Nat} (bound : fewer ≤ stops) (word : BitVec width) :
    frame fewer word <+: frame stops word := by
  obtain ⟨more, rfl⟩ := Nat.exists_eq_add_of_le bound
  refine ⟨List.replicate more true, ?_⟩
  simp only [frame, List.cons_append, List.append_assoc, List.replicate_append_replicate]

theorem frame_get_fewer {fewer stops i : Nat} (bound : fewer ≤ stops) (word : BitVec width)
    (inside : i < width + fewer + 2) : (frame stops word)[i]? = (frame fewer word)[i]? := by
  obtain ⟨rest, split⟩ := frame_fewer_stops bound word
  rw [← split, List.getElem?_append_left (by simpa using inside)]

/-- The bits of a frame can be read off it. -/
theorem frame_bits (stops : Nat) (word : BitVec width) :
    ((frame stops word).drop 1).take width = bits word := by
  rw [frame, List.drop_succ_cons, List.drop_zero, List.take_append_of_le_length (by simp)]
  exact List.take_of_length_le (by simp)

def shiftIn (word : BitVec width) (bit : Bool) : BitVec width :=
  (word >>> 1) ||| ((BitVec.ofBool bit).setWidth width <<< (width - 1))

theorem shift_in_get_lsb (word : BitVec width) (bit : Bool) {i : Nat} (bound : i < width) :
    (shiftIn word bit).getLsbD i = if i + 1 = width then bit else word.getLsbD (i + 1) := by
  unfold shiftIn
  rw [BitVec.getLsbD_or, BitVec.getLsbD_ushiftRight, BitVec.getLsbD_shiftLeft, Nat.add_comm 1 i]
  by_cases last : i + 1 = width
  · have shift : i - (width - 1) = 0 := by omega
    have above : ¬i < width - 1 := by omega
    rw [if_pos last, BitVec.getLsbD_of_ge word (i + 1) (by omega), shift]
    simp [bound, above]
    omega
  · have below : i < width - 1 := by omega
    rw [if_neg last]
    simp [below]

/-- A new bit pushes the oldest one out. -/
theorem bits_shift_in (word : BitVec width) (bit : Bool) (positive : 0 < width) :
    bits (shiftIn word bit) = (bits word).drop 1 ++ [bit] := by
  apply List.ext_getElem?
  intro i
  by_cases bound : i < width
  · rw [bits_get _ bound, shift_in_get_lsb word bit bound]
    by_cases last : i + 1 = width
    · have position : i - ((bits word).drop 1).length = 0 := by simp; omega
      rw [if_pos last, List.getElem?_append_right (by simp; omega), position]
      rfl
    · rw [if_neg last, List.getElem?_append_left (by simp; omega), List.getElem?_drop,
        Nat.add_comm 1 i, bits_get word (by omega)]
  · rw [List.getElem?_eq_none (by simpa using bound), List.getElem?_eq_none]
    simp
    omega

/-- The bits received so far are at the end of the register. -/
theorem received_shift_in {word : BitVec width} {received : List Bool}
    (collected : received <:+ bits word) (room : received.length < width) (bit : Bool) :
    received ++ [bit] <:+ bits (shiftIn word bit) := by
  obtain ⟨old, split⟩ := collected
  have total := congrArg List.length split
  rw [List.length_append, bits_length] at total
  rw [bits_shift_in word bit (by omega), ← split, List.drop_append_of_le_length (by omega),
    List.append_assoc]
  exact List.suffix_append _ _

/-- A full register holds exactly the received bits. -/
theorem received_all {word : BitVec width} {received : List Bool}
    (collected : received <:+ bits word) (full : received.length = width) :
    received = bits word :=
  collected.eq_of_length (by rw [full, bits_length])

end AsyncSerial
