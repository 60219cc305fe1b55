import Testings.CircularWindow

/-!
# The receive ring of the SPI slave driver

`rx_ring.buf` holds two integer arrays of `RX_RING_PACKETS` cells each: first
the queue of slot indices, then one flag for each packet slot. The macros are
transcribed statement by statement on one memory, so an index of `-1` really
would alias the last queue cell. `RingInv` ties the two arrays together and
one lemma for each macro says what it does to the queue of slot indices.
-/

set_option autoImplicit false

namespace Testings.SpiSlave

open CircularWindow

/-- `RX_RING_PACKETS`. -/
def rxRingPackets : Int := 16384

theorem rx_ring_packets_positive : 0 < rxRingPackets := by decide

/-- `struct circ_buf` with its buffer read as `int` cells. -/
structure CircBuf where
  head : Int
  tail : Int
  buf : Int → Int

def rxringUsed (ring : CircBuf) : Int := circCnt ring.head ring.tail rxRingPackets

def rxringVacant (ring : CircBuf) : Int := circSpace ring.head ring.tail rxRingPackets

/-- `& (RX_RING_PACKETS-1)` of a power of two is the remainder. -/
def rxringAdvance (position : Int) : Int := (position + 1) % rxRingPackets

def rxringTailIdx (ring : CircBuf) : Int := ring.buf ring.tail

def rxringFlag (ring : CircBuf) (idx : Int) : Int := ring.buf (idx + rxRingPackets)

def rxringRemove (ring : CircBuf) : CircBuf :=
  let unflagged := Function.update ring.buf (rxringTailIdx ring + rxRingPackets) 0
  { head := ring.head
    tail := rxringAdvance ring.tail
    buf := Function.update unflagged ring.tail (-1) }

def rxringInsert (ring : CircBuf) (idx : Int) : CircBuf :=
  let queued := Function.update ring.buf ring.head idx
  { head := rxringAdvance ring.head
    tail := ring.tail
    buf := Function.update queued (queued ring.head + rxRingPackets) 1 }

/-- `memset` covers both arrays and nothing else. -/
def rxringClear (ring : CircBuf) : CircBuf where
  head := 0
  tail := 0
  buf position :=
    if 0 ≤ position ∧ position < 2 * rxRingPackets then 0 else ring.buf position

/-- The scan of `rxring_get_free_idx` from index `i` with `remaining` flags left. -/
def rxringScan (ring : CircBuf) : Nat → Int → Int
  | 0, i => i
  | remaining + 1, i =>
      if rxringFlag ring i ≠ 0 then rxringScan ring remaining (i + 1) else i

def rxringGetFreeIdx (ring : CircBuf) : Int :=
  let i := rxringScan ring rxRingPackets.toNat 0
  if i < rxRingPackets then i else -1

/-- Slot indices queued from tail to head. -/
def CircBuf.entries (ring : CircBuf) : List Int :=
  window ring.buf rxRingPackets ring.tail (rxringUsed ring).toNat

structure RingInv (ring : CircBuf) : Prop where
  headRange : 0 ≤ ring.head ∧ ring.head < rxRingPackets
  tailRange : 0 ≤ ring.tail ∧ ring.tail < rxRingPackets
  distinct : ring.entries.Nodup
  inRange : ∀ idx ∈ ring.entries, 0 ≤ idx ∧ idx < rxRingPackets
  flags : ∀ idx, 0 ≤ idx → idx < rxRingPackets →
    (rxringFlag ring idx ≠ 0 ↔ idx ∈ ring.entries)

theorem used_range (ring : CircBuf) : 0 ≤ rxringUsed ring ∧ rxringUsed ring < rxRingPackets :=
  circ_cnt_range rx_ring_packets_positive _ _

@[simp] theorem entries_length (ring : CircBuf) :
    (ring.entries.length : Int) = rxringUsed ring := by
  simp [CircBuf.entries, (used_range ring).1]

theorem entries_empty_iff (ring : CircBuf) : ring.entries = [] ↔ rxringUsed ring = 0 := by
  rw [← entries_length, ← List.length_eq_zero_iff]
  omega

theorem vacant_zero_iff (ring : CircBuf) :
    rxringVacant ring = 0 ↔ rxringUsed ring = rxRingPackets - 1 := by
  have space := circ_space_eq rx_ring_packets_positive ring.head ring.tail
  simp only [rxringVacant, rxringUsed]
  omega

theorem used_of_full {ring : CircBuf} (full : rxringVacant ring = 0) : 0 < rxringUsed ring := by
  rw [(vacant_zero_iff ring).mp full]
  decide

@[simp] theorem clear_used (ring : CircBuf) : rxringUsed (rxringClear ring) = 0 := by
  simp [rxringUsed, rxringClear, circCnt]

@[simp] theorem clear_entries (ring : CircBuf) : (rxringClear ring).entries = [] :=
  (entries_empty_iff _).mpr (clear_used ring)

theorem clear_flag (ring : CircBuf) {idx : Int} (lower : 0 ≤ idx) (upper : idx < rxRingPackets) :
    rxringFlag (rxringClear ring) idx = 0 := by
  have inside : 0 ≤ idx + rxRingPackets ∧ idx + rxRingPackets < 2 * rxRingPackets := by
    simp only [rxRingPackets] at *
    omega
  simp only [rxringFlag, rxringClear, if_pos inside]

theorem clear_inv (ring : CircBuf) : RingInv (rxringClear ring) where
  headRange := ⟨le_refl _, rx_ring_packets_positive⟩
  tailRange := ⟨le_refl _, rx_ring_packets_positive⟩
  distinct := by simp
  inRange := by simp
  flags idx lower upper := by simp [clear_flag ring lower upper]

theorem used_remove {ring : CircBuf} (nonempty : 0 < rxringUsed ring) :
    rxringUsed (rxringRemove ring) = rxringUsed ring - 1 :=
  circ_cnt_advance_tail rx_ring_packets_positive nonempty

/-- The flag write lands in the flag array and the queue write at the tail. -/
theorem remove_queue_cell {ring : CircBuf} (inv : RingInv ring) (nonempty : 0 < rxringUsed ring)
    {position : Int} (queueCell : position < rxRingPackets) (notTail : position ≠ ring.tail) :
    (rxringRemove ring).buf position = ring.buf position := by
  have tailIdxRange : 0 ≤ rxringTailIdx ring := by
    have member : rxringTailIdx ring ∈ ring.entries :=
      mem_window.mpr ⟨0, by omega, by
        simp [rxringTailIdx, Int.emod_eq_of_lt inv.tailRange.1 inv.tailRange.2]⟩
    exact (inv.inRange _ member).1
  simp only [rxringRemove]
  rw [Function.update_of_ne notTail, Function.update_of_ne (by omega)]

theorem entries_remove {ring : CircBuf} (inv : RingInv ring) (nonempty : 0 < rxringUsed ring) :
    ring.entries = rxringTailIdx ring :: (rxringRemove ring).entries := by
  have bound := (used_range ring).2
  have used := used_remove nonempty
  obtain ⟨count, countEq⟩ : ∃ count, (rxringUsed ring).toNat = count + 1 :=
    ⟨(rxringUsed ring).toNat - 1, by omega⟩
  have countNext : (rxringUsed (rxringRemove ring)).toNat = count := by omega
  have tailMod := Int.emod_eq_of_lt inv.tailRange.1 inv.tailRange.2
  rw [CircBuf.entries, CircBuf.entries, countEq, countNext, window_cons, tailMod]
  congr 1
  apply window_congr
  intro offset offsetBound
  have advanced : ((rxringRemove ring).tail + offset) % rxRingPackets =
      (ring.tail + (offset + 1 : Nat)) % rxRingPackets := by
    simp only [rxringRemove, rxringAdvance, Int.emod_add_emod]
    congr 1
    push_cast
    ring
  have notTail : (ring.tail + (offset + 1 : Nat)) % rxRingPackets ≠ ring.tail := by
    intro same
    have zero := position_injective rxRingPackets ring.tail (offset + 1) 0
      (by omega) (by omega) (by rw [same]; simpa using tailMod.symm)
    omega
  change ring.buf (((rxringRemove ring).tail + offset) % rxRingPackets) =
    (rxringRemove ring).buf (((rxringRemove ring).tail + offset) % rxRingPackets)
  rw [advanced]
  exact (remove_queue_cell inv nonempty
    (position_range rx_ring_packets_positive _).2 notTail).symm

theorem remove_flag {ring : CircBuf} (inv : RingInv ring) {idx : Int} (lower : 0 ≤ idx) :
    rxringFlag (rxringRemove ring) idx =
      if idx = rxringTailIdx ring then 0 else rxringFlag ring idx := by
  have notQueue : idx + rxRingPackets ≠ ring.tail := by
    have := inv.tailRange.2
    omega
  simp only [rxringFlag, rxringRemove]
  rw [Function.update_of_ne notQueue, Function.update_apply]
  simp

theorem remove_inv {ring : CircBuf} (inv : RingInv ring) (nonempty : 0 < rxringUsed ring) :
    RingInv (rxringRemove ring) := by
  have split := entries_remove inv nonempty
  have distinct := inv.distinct
  rw [split, List.nodup_cons] at distinct
  refine ⟨inv.headRange, ?_, distinct.2, ?_, ?_⟩
  · exact position_range rx_ring_packets_positive _
  · intro idx member
    exact inv.inRange idx (split ▸ List.mem_cons_of_mem _ member)
  · intro idx lower upper
    have before := inv.flags idx lower upper
    rw [split, List.mem_cons] at before
    rw [remove_flag inv lower]
    by_cases oldest : idx = rxringTailIdx ring
    · subst oldest
      simp [distinct.1]
    · simpa [oldest] using before

section insert

variable {ring : CircBuf} {idx : Int} (inv : RingInv ring)
  (room : rxringUsed ring + 1 < rxRingPackets)
  (lower : 0 ≤ idx) (upper : idx < rxRingPackets)

include room in
theorem used_insert : rxringUsed (rxringInsert ring idx) = rxringUsed ring + 1 :=
  circ_cnt_advance_head rx_ring_packets_positive room

include lower in
theorem insert_queue_cell {position : Int} (queueCell : position < rxRingPackets) :
    (rxringInsert ring idx).buf position = Function.update ring.buf ring.head idx position := by
  simp only [rxringInsert, Function.update_self]
  rw [Function.update_of_ne (by omega)]

include inv room lower in
theorem entries_insert : (rxringInsert ring idx).entries = ring.entries ++ [idx] := by
  have nonneg := (used_range ring).1
  have countNext : (rxringUsed (rxringInsert ring idx)).toNat = (rxringUsed ring).toNat + 1 := by
    rw [used_insert room]
    omega
  have headCell : (ring.tail + ((rxringUsed ring).toNat : Int)) % rxRingPackets = ring.head := by
    rw [Int.toNat_of_nonneg nonneg]
    exact head_position inv.headRange.1 inv.headRange.2
  rw [CircBuf.entries, countNext, window_succ]
  congr 1
  · apply window_congr
    intro offset offsetBound
    have notHead : (ring.tail + (offset : Int)) % rxRingPackets ≠ ring.head := by
      intro same
      have equal := position_injective rxRingPackets ring.tail offset
        (rxringUsed ring).toNat (by omega) (by omega) (same.trans headCell.symm)
      omega
    change (rxringInsert ring idx).buf ((ring.tail + offset) % rxRingPackets) = _
    rw [insert_queue_cell lower (position_range rx_ring_packets_positive _).2]
    exact Function.update_of_ne notHead _ _
  · change [(rxringInsert ring idx).buf
      ((ring.tail + ((rxringUsed ring).toNat : Int)) % rxRingPackets)] = [idx]
    rw [headCell, insert_queue_cell lower inv.headRange.2, Function.update_self]

include inv in
theorem insert_flag {slot : Int} (slotLower : 0 ≤ slot) :
    rxringFlag (rxringInsert ring idx) slot = if slot = idx then 1 else rxringFlag ring slot := by
  have notQueue : slot + rxRingPackets ≠ ring.head := by
    have := inv.headRange.2
    omega
  simp only [rxringFlag, rxringInsert, Function.update_self]
  rw [Function.update_apply, Function.update_of_ne notQueue]
  simp

include inv room lower upper in
theorem insert_inv (fresh : idx ∉ ring.entries) : RingInv (rxringInsert ring idx) := by
  have split := entries_insert inv room lower
  refine ⟨?_, inv.tailRange, ?_, ?_, ?_⟩
  · exact position_range rx_ring_packets_positive _
  · rw [split]
    exact List.nodup_append.mpr ⟨inv.distinct, by simp, by
      intro entry member other single
      rw [List.mem_singleton.mp single]
      exact fun same => fresh (same ▸ member)⟩
  · intro entry member
    rw [split, List.mem_append, List.mem_singleton] at member
    rcases member with old | rfl
    · exact inv.inRange entry old
    · exact ⟨lower, upper⟩
  · intro slot slotLower slotUpper
    have before := inv.flags slot slotLower slotUpper
    rw [split, insert_flag inv slotLower, List.mem_append, List.mem_singleton]
    by_cases same : slot = idx
    · simp [same]
    · simpa [same] using before

end insert

theorem scan_spec (ring : CircBuf) (remaining : Nat) (i : Int) :
    i ≤ rxringScan ring remaining i ∧ rxringScan ring remaining i ≤ i + remaining ∧
      (∀ slot, i ≤ slot → slot < rxringScan ring remaining i → rxringFlag ring slot ≠ 0) ∧
      (rxringScan ring remaining i = i + remaining ∨
        rxringFlag ring (rxringScan ring remaining i) = 0) := by
  induction remaining generalizing i with
  | zero =>
      simp only [rxringScan]
      refine ⟨le_refl _, by simp, ?_, .inl (by simp)⟩
      intro slot lower upper
      omega
  | succ remaining ih =>
      simp only [rxringScan]
      split_ifs with flagged
      · obtain ⟨lower, upper, passed, ended⟩ := ih (i + 1)
        refine ⟨by omega, by push_cast; omega, ?_, ?_⟩
        · intro slot slotLower slotUpper
          by_cases first : slot = i
          · exact first ▸ flagged
          · exact passed slot (by omega) slotUpper
        · rcases ended with exhausted | free
          · exact .inl (by push_cast; omega)
          · exact .inr free
      · refine ⟨le_refl _, by push_cast; omega, ?_, .inr (not_not.mp flagged)⟩
        intro slot lower upper
        omega

/-- One slot more than the ring has entries: the scan always ends on a free one. -/
theorem get_free_idx_spec {ring : CircBuf} (inv : RingInv ring) :
    0 ≤ rxringGetFreeIdx ring ∧ rxringGetFreeIdx ring < rxRingPackets ∧
      rxringGetFreeIdx ring ∉ ring.entries := by
  have length : ring.entries.length < rxRingPackets.toNat := by
    have bound := (used_range ring).2
    have size := entries_length ring
    omega
  obtain ⟨slot, slotLower, slotUpper, unused⟩ := exists_unused_slot _ _ length
  have slotFree : rxringFlag ring slot = 0 := by
    by_contra flagged
    exact unused ((inv.flags slot slotLower (by omega)).mp flagged)
  obtain ⟨lower, upper, passed, ended⟩ := scan_spec ring rxRingPackets.toNat 0
  have notPassed : rxringScan ring rxRingPackets.toNat 0 ≤ slot := by
    by_contra beyond
    exact passed slot slotLower (by omega) slotFree
  have inside : rxringScan ring rxRingPackets.toNat 0 < rxRingPackets := by omega
  have free : rxringFlag ring (rxringScan ring rxRingPackets.toNat 0) = 0 := by
    rcases ended with exhausted | free
    · omega
    · exact free
  simp only [rxringGetFreeIdx, if_pos inside]
  refine ⟨lower, inside, ?_⟩
  intro member
  exact (inv.flags _ lower inside).mpr member free

end Testings.SpiSlave
