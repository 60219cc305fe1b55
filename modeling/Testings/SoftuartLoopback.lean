import Testings.OverwrittenSlot

/-!
# The loopback soft UART

`suart_write` and `suart_rx_work_fn` of `softuart_tty-main.c`, each in one step
under `rx_lock`. A write copies to the front of `rx_buf` whatever the last one
has left there, so the buffer is a slot that is overwritten.
-/

set_option autoImplicit false

namespace Testings.Softuart

/-- `struct suart_dev`; `inserted` holds the bytes given to
`tty_insert_flip_string`. -/
structure SuartDev where
  rxBuf : List (BitVec 8)
  rxLen : Nat
  inserted : List (BitVec 8)
  sized : rxBuf.length = 256

/-- The zeroed allocation of `suart_probe`. -/
def suartProbe : SuartDev where
  rxBuf := List.replicate 256 0
  rxLen := 0
  inserted := []
  sized := List.length_replicate

/-- `memcpy` to the front of a buffer. -/
def memcpy (dst src : List (BitVec 8)) (n : Nat) : List (BitVec 8) := src.take n ++ dst.drop n

theorem memcpy_length {dst src : List (BitVec 8)} {n : Nat} (source : n ≤ src.length)
    (fits : n ≤ dst.length) : (memcpy dst src n).length = dst.length := by
  rw [memcpy, List.length_append, List.length_take, List.length_drop]
  omega

theorem memcpy_take {dst src : List (BitVec 8)} {n : Nat} (source : n ≤ src.length) :
    (memcpy dst src n).take n = src.take n := by
  have length : (src.take n).length = n := by
    rw [List.length_take]
    omega
  exact List.take_left' length

/-- `if (count > sizeof(su->rx_buf)) count = sizeof(su->rx_buf)`. -/
def writeCount (count : Nat) : Nat := if 256 < count then 256 else count

theorem write_count_range (count : Nat) : writeCount count ≤ count ∧ writeCount count ≤ 256 := by
  unfold writeCount
  split_ifs <;> omega

/-- `suart_write` of a whole buffer, with the count it returns. -/
def suartWrite (su : SuartDev) (buf : List (BitVec 8)) : SuartDev × Nat :=
  if buf.length = 0 then (su, 0)
  else
    ({ su with
        rxBuf := memcpy su.rxBuf buf (writeCount buf.length)
        rxLen := writeCount buf.length
        sized := by
          have range := write_count_range buf.length
          rw [memcpy_length range.1 (by rw [su.sized]; exact range.2)]
          exact su.sized }, writeCount buf.length)

def suartRxWorkFn (su : SuartDev) : SuartDev :=
  if su.rxLen ≠ 0 then
    { su with inserted := su.inserted ++ su.rxBuf.take su.rxLen, rxLen := 0 }
  else su

inductive Call where
  | write (buf : List (BitVec 8))
  | work

def called (su : SuartDev) : Call → SuartDev
  | .write buf => (suartWrite su buf).1
  | .work => suartRxWorkFn su

/-- The first bytes of each buffer, as many as the call has returned. -/
def accepted : SuartDev → List Call → List (BitVec 8)
  | _, [] => []
  | su, .write buf :: rest =>
      buf.take (suartWrite su buf).2 ++ accepted (suartWrite su buf).1 rest
  | su, .work :: rest => accepted (suartRxWorkFn su) rest

open OverwrittenSlot

def slotOf (su : SuartDev) : OverwrittenSlot (BitVec 8) where
  pending := su.rxBuf.take su.rxLen
  delivered := su.inserted

/-- What a call means to the slot; a write puts what the buffer has room for. -/
def slotAct : Call → SlotAct (BitVec 8)
  | .write buf => .put (buf.take 256)
  | .work => .take

theorem take_write_count (buf : List (BitVec 8)) :
    buf.take (writeCount buf.length) = buf.take 256 := by
  unfold writeCount
  split_ifs with long
  · rfl
  · rw [List.take_length, List.take_of_length_le (Nat.le_of_not_lt long)]

theorem slot_of_write (su : SuartDev) (buf : List (BitVec 8)) :
    slotOf (suartWrite su buf).1 = (slotOf su).act (.put (buf.take 256)) ∧
      buf.take (suartWrite su buf).2 = buf.take 256 := by
  cases buf with
  | nil => exact ⟨rfl, rfl⟩
  | cons byte rest =>
      have source := (write_count_range (byte :: rest).length).1
      rw [suartWrite, if_neg (List.length_cons .. ▸ Nat.succ_ne_zero _)]
      refine ⟨?_, take_write_count _⟩
      rw [slotOf, memcpy_take source, take_write_count]
      rfl

theorem slot_of_work (su : SuartDev) : slotOf (suartRxWorkFn su) = (slotOf su).act .take := by
  unfold suartRxWorkFn
  split_ifs with waiting
  · rfl
  · have empty : su.rxLen = 0 := not_not.mp waiting
    simp [slotOf, act, empty]

theorem slot_of_called (su : SuartDev) (call : Call) :
    slotOf (called su call) = (slotOf su).act (slotAct call) := by
  cases call with
  | write buf => exact (slot_of_write su buf).1
  | work => exact slot_of_work su

theorem slot_of_calls (su : SuartDev) (calls : List Call) :
    slotOf (calls.foldl called su) = (slotOf su).run (calls.map slotAct) := by
  induction calls generalizing su with
  | nil => rfl
  | cons call rest induction =>
      rw [List.foldl_cons, induction, slot_of_called]
      rfl

theorem accepted_offered (su : SuartDev) (calls : List Call) :
    accepted su calls = offered (calls.map slotAct) := by
  induction calls generalizing su with
  | nil => rfl
  | cons call rest induction =>
      cases call with
      | write buf =>
          rw [accepted, (slot_of_write su buf).2, induction]
          rfl
      | work => exact induction _

/-- Up to the last run of the work function the port has got all that was
accepted just when no write has found bytes of another one in the buffer. -/
theorem loopback_loses_nothing_iff (calls : List Call) :
    ((calls ++ [Call.work]).foldl called suartProbe).inserted =
        accepted suartProbe (calls ++ [Call.work]) ↔
      TakenBetween false (calls.map slotAct) := by
  have slot := slot_of_calls suartProbe (calls ++ [Call.work])
  have inserted := congrArg OverwrittenSlot.delivered slot
  have all := accepted_offered suartProbe (calls ++ [Call.work])
  rw [List.map_append, List.map_singleton, slotAct] at inserted all
  rw [offered_append, offered, offered, List.append_nil] at all
  have fresh : slotOf suartProbe = ⟨[], []⟩ := rfl
  rw [fresh] at inserted
  rw [all, ← delivered_all_iff, ← inserted]
  exact Iff.rfl

/-- Two writes before the work function runs: the port gets the second one only. -/
theorem second_write_overwrites_first :
    ([Call.write [0x41], .write [0x42], .work].foldl called suartProbe).inserted = [0x42] ∧
      accepted suartProbe [.write [0x41], .write [0x42], .work] = [0x41, 0x42] :=
  ⟨rfl, rfl⟩

end Testings.Softuart
