import Mathlib.Data.BitVec
import Testings.BoundedFifo
import Testings.CircularWindow

/-!
# The transmit ring of the GPIO UARTs

`tx_ring.c`, and the ring inside `gpio_uart_tty_gpiod.c`, which has the same size and
the same functions but no `tx_ring_count`. An access outside `buf` has no outcome;
each call runs under the lock of the ring and is one step. `gu_tty_write` puts byte
after byte and does not look at what it is answered.
-/

set_option autoImplicit false

namespace Testings.GpioTty

open BoundedFifo CircularWindow

/-- `TX_BUF_SIZE` -/
def txBufSize : Nat := 512

structure TxRing where
  buf : Vector (BitVec 8) txBufSize
  head : BitVec 32
  tail : BitVec 32
  deriving DecidableEq

/-- The bytes in the buffer stay. -/
def txRingInit (r : TxRing) : TxRing := { r with head := 0, tail := 0 }

def txRingPut (r : TxRing) (byte : BitVec 8) : Option (TxRing × Bool) :=
  let next := (r.head + 1) % BitVec.ofNat 32 txBufSize
  if next = r.tail then some (r, false)
  else if inside : r.head.toNat < txBufSize then
    some ({ r with buf := r.buf.set r.head.toNat byte inside, head := next }, true)
  else none

/-- The byte that is returned through the pointer, if the result is `true`. -/
def txRingGet (r : TxRing) : Option (TxRing × Option (BitVec 8)) :=
  if r.head = r.tail then some (r, none)
  else do
    let byte ← r.buf[r.tail.toNat]?
    some ({ r with tail := (r.tail + 1) % BitVec.ofNat 32 txBufSize }, some byte)

def txRingCount (r : TxRing) : Nat :=
  ((r.head + BitVec.ofNat 32 txBufSize - r.tail) % BitVec.ofNat 32 txBufSize).toNat

def txRingCapacity : Nat := txBufSize - 1

/-- One call, with what it returns. -/
def txRingStep (r : TxRing) : Op (BitVec 8) → Option (TxRing × Answer (BitVec 8))
  | .put byte => (txRingPut r byte).map fun result => (result.1, .stored result.2)
  | .get => (txRingGet r).map fun result => (result.1, .taken result.2)
  | .count => some (r, .counted (txRingCount r))

/-- The cells of the buffer, as the window reads them. -/
def TxRing.cells (r : TxRing) (position : Int) : BitVec 8 := r.buf[position.toNat]?.getD 0

def TxRing.used (r : TxRing) : Int := circCnt r.head.toNat r.tail.toNat txBufSize

/-- The bytes from tail to head. -/
def TxRing.queue (r : TxRing) : List (BitVec 8) :=
  window r.cells txBufSize r.tail.toNat r.used.toNat

structure TxRing.InRange (r : TxRing) : Prop where
  head : r.head.toNat < txBufSize
  tail : r.tail.toNat < txBufSize

/-- The ring stands for the queue. -/
def TxRing.Holds (r : TxRing) (queue : List (BitVec 8)) : Prop := r.InRange ∧ r.queue = queue

section ring

variable {r : TxRing}

theorem used_range (r : TxRing) : 0 ≤ r.used ∧ r.used < txBufSize :=
  circ_cnt_range (by decide) _ _

@[simp] theorem queue_length (r : TxRing) : r.queue.length = r.used.toNat := window_length ..

theorem queue_bounded (r : TxRing) : r.queue.length ≤ txRingCapacity := by
  have range := used_range r
  rw [queue_length]
  unfold txRingCapacity
  omega

theorem size_to_nat : (BitVec.ofNat 32 txBufSize).toNat = txBufSize := rfl

theorem advance_to_nat (position : BitVec 32) :
    ((position + 1) % BitVec.ofNat 32 txBufSize).toNat = (position.toNat + 1) % txBufSize := by
  have one : (1 : BitVec 32).toNat = 1 := rfl
  rw [BitVec.toNat_umod, BitVec.toNat_add, size_to_nat, one]
  unfold txBufSize
  omega

theorem init_in_range (r : TxRing) : (txRingInit r).InRange :=
  ⟨Nat.zero_lt_succ 511, Nat.zero_lt_succ 511⟩

theorem init_queue (r : TxRing) : (txRingInit r).queue = [] := by
  apply List.eq_nil_of_length_eq_zero
  rw [queue_length]
  rfl

/-- The slot behind the head is the tail exactly if no more byte fits. -/
theorem full_iff (range : r.InRange) :
    (r.head + 1) % BitVec.ofNat 32 txBufSize = r.tail ↔ r.queue.length = txRingCapacity := by
  have next := advance_to_nat r.head
  have head := range.head
  have tail := range.tail
  rw [← BitVec.toNat_inj, next, queue_length, TxRing.used, circCnt, txRingCapacity]
  unfold txBufSize at *
  omega

theorem empty_iff (range : r.InRange) : r.head = r.tail ↔ r.queue = [] := by
  have head := range.head
  have tail := range.tail
  rw [← BitVec.toNat_inj, ← List.length_eq_zero_iff, queue_length, TxRing.used, circCnt]
  unfold txBufSize at *
  omega

theorem ring_count (range : r.InRange) : txRingCount r = r.queue.length := by
  have head := range.head
  have tail := range.tail
  rw [queue_length, TxRing.used, circCnt, txRingCount, BitVec.toNat_umod, BitVec.toNat_sub,
    BitVec.toNat_add, size_to_nat]
  unfold txBufSize at *
  omega

theorem put_full (range : r.InRange) (full : r.queue.length = txRingCapacity)
    (byte : BitVec 8) : txRingPut r byte = some (r, false) :=
  if_pos ((full_iff range).mpr full)

/-- The cell at the head is behind the bytes that are queued. -/
theorem head_free (range : r.InRange) {offset : Nat} (queued : offset < r.used.toNat) :
    r.head.toNat ≠ ((r.tail.toNat + offset : Int) % txBufSize).toNat := by
  have head := range.head
  have tail := range.tail
  unfold TxRing.used circCnt at queued
  unfold txBufSize at *
  omega

theorem put_room (range : r.InRange) (room : r.queue.length < txRingCapacity)
    (byte : BitVec 8) :
    ∃ next, txRingPut r byte = some (next, true) ∧ next.InRange ∧
      next.queue = r.queue ++ [byte] := by
  have free : ¬(r.head + 1) % BitVec.ofNat 32 txBufSize = r.tail := fun last =>
    Nat.ne_of_lt room ((full_iff range).mp last)
  have advanced := advance_to_nat r.head
  have count := used_range r
  rw [queue_length, txRingCapacity] at room
  let next : TxRing := { r with
    buf := r.buf.set r.head.toNat byte range.head
    head := (r.head + 1) % BitVec.ofNat 32 txBufSize }
  have put : txRingPut r byte = some (next, true) := by
    unfold txRingPut
    dsimp only
    rw [if_neg free, dif_pos range.head]
  have stored (position : Int) :
      next.cells position = if r.head.toNat = position.toNat then byte else r.cells position := by
    unfold TxRing.cells
    rw [Vector.getElem?_set]
    split_ifs <;> rfl
  have more : next.used = r.used + 1 := by
    change circCnt ((r.head + 1) % BitVec.ofNat 32 txBufSize).toNat r.tail.toNat txBufSize = _
    rw [advanced, Int.natCast_emod, Int.natCast_add]
    exact circ_cnt_advance_head (by decide) (by unfold TxRing.used at *; omega)
  have counted : (r.used + 1).toNat = r.used.toNat + 1 := by omega
  have last : ((r.tail.toNat : Int) + r.used.toNat) % txBufSize = r.head.toNat := by
    rw [Int.toNat_of_nonneg count.1]
    exact head_position (Int.natCast_nonneg _) (Int.ofNat_lt.mpr range.head)
  refine ⟨next, put, ⟨?_, range.tail⟩, ?_⟩
  · change ((r.head + 1) % BitVec.ofNat 32 txBufSize).toNat < txBufSize
    rw [advanced]
    exact Nat.mod_lt _ (by decide)
  · have kept : window next.cells txBufSize r.tail.toNat r.used.toNat = r.queue := by
      apply window_congr
      intro offset queued
      rw [stored, if_neg (head_free range queued)]
    have new : next.cells r.head.toNat = byte := by
      rw [stored, Int.toNat_natCast, if_pos rfl]
    change window next.cells txBufSize r.tail.toNat next.used.toNat = _
    rw [more, counted, window_succ, kept, last, new]

theorem get_empty (range : r.InRange) (empty : r.queue = []) : txRingGet r = some (r, none) :=
  if_pos ((empty_iff range).mpr empty)

theorem get_first (range : r.InRange) {byte : BitVec 8} {rest : List (BitVec 8)}
    (first : r.queue = byte :: rest) :
    ∃ next, txRingGet r = some (next, some byte) ∧ next.InRange ∧ next.queue = rest := by
  have filled : ¬r.head = r.tail := by
    intro same
    rw [(empty_iff range).mp same] at first
    cases first
  have advanced := advance_to_nat r.tail
  have count := used_range r
  have length : r.used.toNat = rest.length + 1 := by
    rw [← queue_length, first, List.length_cons]
  -- the byte at the tail is the first of the window
  rw [TxRing.queue, length, window_cons, ← Int.natCast_emod, Nat.mod_eq_of_lt range.tail] at first
  obtain ⟨read, others⟩ := List.cons.inj first
  have cell : r.buf[r.tail.toNat]? = some byte := by
    rw [TxRing.cells, Int.toNat_natCast, Vector.getElem?_eq_getElem range.tail] at read
    rw [Vector.getElem?_eq_getElem range.tail, ← read, Option.getD_some]
  let next : TxRing := { r with tail := (r.tail + 1) % BitVec.ofNat 32 txBufSize }
  have got : txRingGet r = some (next, some byte) := by
    rw [txRingGet, if_neg filled, cell]
    rfl
  have fewer : next.used = r.used - 1 := by
    change circCnt r.head.toNat ((r.tail + 1) % BitVec.ofNat 32 txBufSize).toNat txBufSize = _
    rw [advanced, Int.natCast_emod, Int.natCast_add]
    exact circ_cnt_advance_tail (by decide) (by unfold TxRing.used at *; omega)
  refine ⟨next, got, ⟨range.head, ?_⟩, ?_⟩
  · change ((r.tail + 1) % BitVec.ofNat 32 txBufSize).toNat < txBufSize
    rw [advanced]
    exact Nat.mod_lt _ (by decide)
  · have counted : next.used.toNat = rest.length := by omega
    change window r.cells txBufSize ((r.tail + 1) % BitVec.ofNat 32 txBufSize).toNat _ = rest
    rw [counted, advanced, Int.natCast_emod, Int.natCast_add]
    exact others

end ring

/-- One call does to the ring what it does to a bounded queue. -/
theorem tx_ring_step_refines (r : TxRing) (queue : List (BitVec 8)) (op : Op (BitVec 8))
    (holds : r.Holds queue) :
    ∃ next, txRingStep r op = some (next, (fifoStep txRingCapacity queue op).2) ∧
      next.Holds (fifoStep txRingCapacity queue op).1 := by
  obtain ⟨range, rfl⟩ := holds
  cases op with
  | put byte =>
      rw [txRingStep]
      by_cases room : r.queue.length < txRingCapacity
      · obtain ⟨next, put, after, queue⟩ := put_room range room byte
        rw [fifo_put_room room, put]
        exact ⟨next, rfl, after, queue⟩
      · have full := Nat.le_antisymm (queue_bounded r) (Nat.le_of_not_lt room)
        rw [fifo_put_full (Nat.le_of_not_lt room), put_full range full byte]
        exact ⟨r, rfl, range, rfl⟩
  | get =>
      rw [txRingStep, fifoStep]
      cases queue : r.queue with
      | nil =>
          rw [get_empty range queue]
          exact ⟨r, rfl, range, queue⟩
      | cons byte rest =>
          obtain ⟨next, got, after, left⟩ := get_first range queue
          rw [got]
          exact ⟨next, rfl, after, left⟩
  | count =>
      refine ⟨r, ?_, range, rfl⟩
      rw [txRingStep, ring_count range]
      rfl

/-- After `tx_ring_init` the ring is a queue of 511 bytes in every run, whatever its
buffer holds; a call that is refused leaves the ring as it is. -/
theorem tx_ring_is_fifo (r : TxRing) (ops : List (Op (BitVec 8))) :
    ∃ final, runs txRingStep (txRingInit r) ops =
        some (final, (fifoRun txRingCapacity [] ops).2) ∧
      final.queue = (fifoRun txRingCapacity [] ops).1 ∧
      (∀ byte next, txRingPut final byte = some (next, false) → next = final) ∧
      ∀ next, txRingGet final = some (next, none) → next = final := by
  obtain ⟨final, ran, range, queue⟩ :=
    runs_refines TxRing.Holds tx_ring_step_refines ops
      ⟨init_in_range r, init_queue r⟩
  refine ⟨final, ran, queue, ?_, ?_⟩
  · intro byte next refused
    by_cases room : final.queue.length < txRingCapacity
    · obtain ⟨_, put, _, _⟩ := put_room range room byte
      rw [put] at refused
      cases refused
    · have full := Nat.le_antisymm (queue_bounded final) (Nat.le_of_not_lt room)
      rw [put_full range full byte] at refused
      cases refused
      rfl
  · intro next refused
    cases filled : final.queue with
    | nil =>
        rw [get_empty range filled] at refused
        cases refused
        rfl
    | cons byte rest =>
        obtain ⟨_, got, _, _⟩ := get_first range filled
        rw [got] at refused
        cases refused

/-- `gu_tty_write_room` of `gpio_uart_tty_gpiod.c` -/
def guTtyWriteRoom : Nat := 4096

/-- `gu_tty_write` of `gpio_uart_tty_gpiod.c`: the ring, and the count that is returned. -/
def guTtyWrite (r : TxRing) (buf : List (BitVec 8)) : Option (TxRing × Nat) := do
  let final ← buf.foldlM (fun r byte => (txRingPut r byte).map Prod.fst) r
  some (final, buf.length)

/-- The result counts the bytes that were queued, the first ones of the buffer, and all
of them where the room was promised. -/
def WriteHonest (r : TxRing) (buf : List (BitVec 8)) : Prop :=
  ∃ final n, guTtyWrite r buf = some (final, n) ∧ n ≤ buf.length ∧
    final.queue = r.queue ++ buf.take n ∧ (buf.length ≤ guTtyWriteRoom → n = buf.length)

/-- What does not fit is dropped. -/
theorem puts_append {r : TxRing} (range : r.InRange) (buf : List (BitVec 8)) :
    ∃ final, buf.foldlM (fun r byte => (txRingPut r byte).map Prod.fst) r = some final ∧
      final.queue = r.queue ++ buf.take (txRingCapacity - r.queue.length) := by
  induction buf generalizing r with
  | nil => exact ⟨r, rfl, by rw [List.take_nil, List.append_nil]⟩
  | cons byte rest ih =>
      rw [List.foldlM_cons]
      by_cases room : r.queue.length < txRingCapacity
      · obtain ⟨next, put, after, queue⟩ := put_room range room byte
        obtain ⟨final, ran, appended⟩ := ih after
        have left : txRingCapacity - r.queue.length =
            txRingCapacity - next.queue.length + 1 := by
          rw [queue, List.length_append, List.length_singleton]
          omega
        refine ⟨final, ?_, ?_⟩
        · rw [put]
          exact ran
        · rw [appended, left, List.take_succ_cons, queue, List.append_assoc]
          rfl
      · have full := Nat.le_antisymm (queue_bounded r) (Nat.le_of_not_lt room)
        obtain ⟨final, ran, appended⟩ := ih range
        refine ⟨final, ?_, ?_⟩
        · rw [put_full range full byte]
          exact ran
        · rw [appended, full, Nat.sub_self, List.take_zero, List.take_zero]

theorem write_honest_iff {r : TxRing} (range : r.InRange) (buf : List (BitVec 8)) :
    WriteHonest r buf ↔ r.queue.length + buf.length ≤ txRingCapacity := by
  obtain ⟨final, ran, appended⟩ := puts_append range buf
  have bounded := queue_bounded r
  have write : guTtyWrite r buf = some (final, buf.length) := by
    rw [guTtyWrite, ran]
    rfl
  constructor
  · intro honest
    obtain ⟨other, n, returned, _, queue, _⟩ := honest
    rw [write] at returned
    cases returned
    rw [appended, List.take_length] at queue
    have taken := congrArg List.length (List.append_cancel_left queue)
    rw [List.length_take] at taken
    omega
  · intro fits
    refine ⟨final, buf.length, write, Nat.le_refl _, ?_, fun _ => rfl⟩
    rw [appended, List.take_length, List.take_of_length_le (by omega)]

/-- The terminal is told the truth exactly if the whole buffer fits in the ring. -/
theorem tty_write_honest_iff {start r : TxRing} {ops : List (Op (BitVec 8))}
    {answers : List (Answer (BitVec 8))}
    (reached : runs txRingStep (txRingInit start) ops = some (r, answers))
    (buf : List (BitVec 8)) :
    WriteHonest r buf ↔ r.queue.length + buf.length ≤ txRingCapacity := by
  obtain ⟨final, ran, range, _⟩ :=
    runs_refines TxRing.Holds tx_ring_step_refines ops ⟨init_in_range start, init_queue start⟩
  rw [reached] at ran
  cases ran
  exact write_honest_iff range buf

def emptyRing : TxRing := ⟨Vector.replicate txBufSize 0, 0, 0⟩

/-- A byte that is still queued leaves room for 510. -/
theorem tty_write_honest_one_queued :
    ∃ r answers, runs txRingStep (txRingInit emptyRing) [.put 0x41, .put 0x42, .get] =
        some (r, answers) ∧ r.queue = [0x42] ∧ WriteHonest r (List.replicate 510 0) ∧
      ¬WriteHonest r (List.replicate 511 0) := by
  have queued : ((runs txRingStep (txRingInit emptyRing) [.put 0x41, .put 0x42, .get]).map
      fun final => final.1.queue) = some [0x42] := by decide +kernel
  obtain ⟨⟨r, answers⟩, ran, queue⟩ := Option.map_eq_some_iff.mp queued
  have iff (buf : List (BitVec 8)) := tty_write_honest_iff ran buf
  dsimp only at queue
  rw [queue] at iff
  have fits := (iff (List.replicate 510 0)).mpr (by decide +kernel)
  exact ⟨r, answers, ran, queue, fits, (iff (List.replicate 511 0)).not.mpr (by decide +kernel)⟩

/-- The room is promised for 512 bytes and 511 are queued. -/
theorem tty_write_drops_byte :
    512 ≤ guTtyWriteRoom ∧ ¬WriteHonest (txRingInit emptyRing) (List.replicate 512 0) := by
  refine ⟨by decide, ?_⟩
  rw [write_honest_iff (init_in_range emptyRing), init_queue, List.length_replicate]
  decide

/-- Writes one after the other, with the ring they leave and what they return. -/
def guTtyWrites (r : TxRing) : List (List (BitVec 8)) → Option (TxRing × List Nat)
  | [] => some (r, [])
  | buf :: rest => do
    let (r, n) ← guTtyWrite r buf
    let (r, ns) ← guTtyWrites r rest
    some (r, n :: ns)

theorem put_in_range {r next : TxRing} {byte : BitVec 8} {stored : Bool} (range : r.InRange)
    (put : txRingPut r byte = some (next, stored)) : next.InRange := by
  by_cases room : r.queue.length < txRingCapacity
  · rcases put_room range room byte with ⟨after, done, inRange, _⟩
    rw [done] at put
    cases put
    exact inRange
  · rw [put_full range (Nat.le_antisymm (queue_bounded r) (Nat.le_of_not_lt room)) byte] at put
    cases put
    exact range

theorem puts_in_range {buf : List (BitVec 8)} {r final : TxRing} (range : r.InRange)
    (ran : buf.foldlM (fun r byte => (txRingPut r byte).map Prod.fst) r = some final) :
    final.InRange := by
  induction buf generalizing r with
  | nil =>
      cases ran
      exact range
  | cons byte rest ih =>
      rw [List.foldlM_cons] at ran
      cases put : txRingPut r byte with
      | none =>
          rw [put] at ran
          cases ran
      | some result =>
          rw [put] at ran
          exact ih (put_in_range range put) ran

theorem take_take_append (n : Nat) (first second : List (BitVec 8)) :
    (first.take n ++ second).take n = (first ++ second).take n := by
  rw [List.take_append, List.take_append, List.take_take, Nat.min_self, List.length_take]
  congr 2
  omega

/-- What does not fit is what lies behind the capacity. -/
theorem write_takes {r : TxRing} (range : r.InRange) (buf : List (BitVec 8)) :
    ∃ final, guTtyWrite r buf = some (final, buf.length) ∧ final.InRange ∧
      final.queue = (r.queue ++ buf).take txRingCapacity := by
  rcases puts_append range buf with ⟨final, ran, appended⟩
  refine ⟨final, ?_, puts_in_range range ran, ?_⟩
  · rw [guTtyWrite, ran]
    rfl
  · rw [appended, List.take_append, List.take_of_length_le (queue_bounded r)]

theorem writes_take {r : TxRing} (range : r.InRange) (bufs : List (List (BitVec 8))) :
    ∃ final, guTtyWrites r bufs = some (final, bufs.map List.length) ∧
      final.queue = (r.queue ++ bufs.flatten).take txRingCapacity := by
  induction bufs generalizing r with
  | nil =>
      refine ⟨r, rfl, ?_⟩
      rw [List.flatten_nil, List.append_nil, List.take_of_length_le (queue_bounded r)]
  | cons buf rest ih =>
      rcases write_takes range buf with ⟨next, written, after, queue⟩
      rcases ih after with ⟨final, ran, left⟩
      refine ⟨final, ?_, ?_⟩
      · rw [guTtyWrites, written]
        change (guTtyWrites next rest >>= fun result => _) = _
        rw [ran]
        rfl
      · rw [left, queue, take_take_append, List.flatten_cons, List.append_assoc]

/-- `gpio_uart_tty_gpiod.c` has no caller of `tx_ring_get`: whatever is written and however it
is split, the ring ends with the first 511 bytes, and every write claims its whole buffer. -/
theorem tty_writes_fill_ring (start : TxRing) (bufs : List (List (BitVec 8))) :
    ∃ final, guTtyWrites (txRingInit start) bufs = some (final, bufs.map List.length) ∧
      final.queue = bufs.flatten.take txRingCapacity := by
  rcases writes_take (init_in_range start) bufs with ⟨final, ran, queue⟩
  rw [init_queue, List.nil_append] at queue
  exact ⟨final, ran, queue⟩

end Testings.GpioTty
