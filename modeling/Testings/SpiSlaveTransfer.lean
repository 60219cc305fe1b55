import Testings.SpiSlaveRepresentation
import Testings.StoredBytes
import Mathlib.Tactic.IntervalCases

/-!
# The buffer of an SPI transfer

`spi_imx_transfer` with a packet ready, down to the bytes from `rx_buf` on.
`memcpy_bswap_packet` stores one swapped dword after the other, as many as a
packet has; `transfer->len` is not looked at before it is returned. The host
is little-endian, so a swapped dword is stored most significant byte first.
-/

set_option autoImplicit false

namespace Testings.SpiSlave

/-- How the host stores a dword. -/
def littleEndianBytes (val : BitVec 32) : List (BitVec 8) :=
  [val.setWidth 8, (val >>> 8).setWidth 8, (val >>> 16).setWidth 8, (val >>> 24).setWidth 8]

/-- How a dword comes over the wire. -/
def bigEndianBytes (val : BitVec 32) : List (BitVec 8) :=
  [(val >>> 24).setWidth 8, (val >>> 16).setWidth 8, (val >>> 8).setWidth 8, val.setWidth 8]

/-- The dword loop of `memcpy_bswap_packet` on the memory behind `dst`. -/
def memcpyBswapStore (memory : StoredMemory (BitVec 8)) (dst : Nat) :
    List (BitVec 32) → StoredMemory (BitVec 8)
  | [] => memory
  | val :: src =>
      memcpyBswapStore (memory.storeAll dst (littleEndianBytes (swab32 val))) (dst + 4) src

/-- `struct spi_transfer`, with the memory from `rx_buf` on. -/
structure SpiTransfer where
  rxBuf : Nat → BitVec 8
  len : BitVec 32

structure TransferOutcome where
  dev : SpiImx
  rxBuf : StoredMemory (BitVec 8)
  returned : Int

/-- `spi_imx_transfer` from the test of `n_ready` on; `none` where it would
sleep on `rx_wq`. The unsigned length is returned as an `int`. -/
def spiImxTransfer (dev : SpiImx) (transfer : SpiTransfer) : Option TransferOutcome :=
  let nReady := rxringUsed dev.rxRing
  let idx := rxringTailIdx dev.rxRing
  let memory := StoredMemory.untouched transfer.rxBuf
  if nReady = 0 then none
  else if 0 ≤ idx then
    some {
      dev := { dev with rxRing := rxringRemove dev.rxRing }
      rxBuf := memcpyBswapStore memory 0 (slotPacket dev.packets idx)
      returned := transfer.len.toInt }
  else some { dev := dev, rxBuf := memory, returned := efault }

/-- `swab32` takes each byte to the mirrored place. -/
theorem swab32_byte (val : BitVec 32) {place : Nat} (inside : place < 4) :
    (swab32 val >>> (8 * place)).setWidth 8 = (val >>> (24 - 8 * place)).setWidth 8 := by
  apply BitVec.eq_of_getLsbD_eq
  intro bit bound
  interval_cases place <;> interval_cases bit <;> simp [swab32]

theorem swab32_bytes (val : BitVec 32) :
    littleEndianBytes (swab32 val) = bigEndianBytes val := by
  have first := swab32_byte val (show 0 < 4 by decide)
  have second := swab32_byte val (show 1 < 4 by decide)
  have third := swab32_byte val (show 2 < 4 by decide)
  have fourth := swab32_byte val (show 3 < 4 by decide)
  simp only [Nat.mul_zero, BitVec.ushiftRight_zero, Nat.sub_zero, Nat.reduceMul, Nat.reduceSub]
    at first second third fourth
  rw [littleEndianBytes, bigEndianBytes, first, second, third, fourth]

theorem memcpy_bswap_packet_bytes (packet : List (BitVec 32)) :
    (memcpyBswapPacket packet).flatMap littleEndianBytes = packet.flatMap bigEndianBytes := by
  rw [memcpyBswapPacket, List.flatMap_map]
  exact congrArg (List.flatMap · packet) (funext swab32_bytes)

theorem big_endian_length (packet : List (BitVec 32)) :
    (packet.flatMap bigEndianBytes).length = 4 * packet.length := by
  induction packet with
  | nil => rfl
  | cons val rest ih =>
      rw [List.flatMap_cons, List.length_append, ih, List.length_cons, bigEndianBytes]
      simp only [List.length_cons, List.length_nil]
      omega

theorem memcpy_bswap_store (memory : StoredMemory (BitVec 8)) (dst : Nat)
    (packet : List (BitVec 32)) :
    memcpyBswapStore memory dst packet = memory.storeAll dst (packet.flatMap bigEndianBytes) := by
  induction packet generalizing memory dst with
  | nil => rfl
  | cons val rest ih =>
      rw [memcpyBswapStore, ih, swab32_bytes, List.flatMap_cons, StoredMemory.store_all_append]
      rfl

/-- The packet at the tail of the ring, as its bytes came over the wire. -/
def receivedBytes (dev : SpiImx) : List (BitVec 8) :=
  (slotPacket dev.packets (rxringTailIdx dev.rxRing)).flatMap bigEndianBytes

/-- Nothing is stored outside the buffer, and as many bytes as are returned are
bytes of the packet. -/
structure RespectsBuffer (dev : SpiImx) (transfer : SpiTransfer) (out : TransferOutcome) :
    Prop where
  inside : ∀ address ∈ out.rxBuf.touched, address < transfer.len.toNat
  received : ∀ position : Nat, (position : Int) < out.returned →
    (receivedBytes dev)[position]? = some (out.rxBuf.cells position)

theorem received_bytes_length (dev : SpiImx) : (receivedBytes dev).length = packetSize := by
  rw [receivedBytes, big_endian_length, slotPacket, slot_dwords_length]
  rfl

section ready

variable {dev : SpiImx} {transfer : SpiTransfer} (ready : rxringUsed dev.rxRing ≠ 0)

include ready

theorem transfer_copies (valid : 0 ≤ rxringTailIdx dev.rxRing) :
    spiImxTransfer dev transfer = some {
      dev := { dev with rxRing := rxringRemove dev.rxRing }
      rxBuf := (StoredMemory.untouched transfer.rxBuf).storeAll 0 (receivedBytes dev)
      returned := transfer.len.toInt } := by
  simp only [spiImxTransfer, if_neg ready, if_pos valid, memcpy_bswap_store]
  rfl

theorem transfer_faults (invalid : rxringTailIdx dev.rxRing < 0) :
    spiImxTransfer dev transfer =
      some { dev := dev, rxBuf := .untouched transfer.rxBuf, returned := efault } := by
  simp only [spiImxTransfer, if_neg ready, if_neg (Int.not_le.mpr invalid)]

end ready

/-- The copy touches the bytes of one packet, whatever the length. -/
theorem copy_touched (dev : SpiImx) (cells : Nat → BitVec 8) (address : Nat) :
    address ∈ ((StoredMemory.untouched cells).storeAll 0 (receivedBytes dev)).touched ↔
      address < packetSize := by
  rw [StoredMemory.store_all_touched, received_bytes_length]
  simp [StoredMemory.untouched]

theorem copy_respects_iff {dev after : SpiImx} {transfer : SpiTransfer} :
    RespectsBuffer dev transfer {
        dev := after
        rxBuf := (StoredMemory.untouched transfer.rxBuf).storeAll 0 (receivedBytes dev)
        returned := transfer.len.toInt } ↔
      transfer.len.toNat = packetSize ∨ 2 ^ 31 ≤ transfer.len.toNat := by
  have size := received_bytes_length dev
  have signed := BitVec.toInt_eq_toNat_cond transfer.len
  have packet : packetSize = 188 := rfl
  constructor
  · intro respects
    have room : packetSize ≤ transfer.len.toNat := by
      have last := (copy_touched dev transfer.rxBuf 187).mpr (by decide)
      have inside := respects.inside 187 last
      omega
    by_contra others
    rw [not_or] at others
    have beyond := respects.received packetSize (by
      dsimp only
      omega)
    rw [List.getElem?_eq_none (le_of_eq size)] at beyond
    cases beyond
  · intro fits
    have room : packetSize ≤ transfer.len.toNat := by omega
    refine ⟨fun address touched => ?_, fun position counted => ?_⟩
    · have inside := (copy_touched dev transfer.rxBuf address).mp touched
      omega
    · dsimp only at counted
      have inside : position < (receivedBytes dev).length := by omega
      rw [StoredMemory.store_all_inside (.untouched transfer.rxBuf) 0 inside, Nat.zero_add]

theorem fault_respects (dev : SpiImx) (transfer : SpiTransfer) :
    RespectsBuffer dev transfer
      { dev := dev, rxBuf := .untouched transfer.rxBuf, returned := efault } where
  inside := by nofun
  received position counted := by
    have negative : efault < 0 := by decide
    dsimp only at counted
    omega

/-- A transfer respects its buffer exactly when the buffer has the size of a
packet, or the call returns an error: a tail index below zero, or a length
whose `int` is negative. -/
theorem transfer_respects_buffer_iff (dev : SpiImx) (transfer : SpiTransfer)
    (ready : rxringUsed dev.rxRing ≠ 0) :
    ∃ out, spiImxTransfer dev transfer = some out ∧
      (RespectsBuffer dev transfer out ↔
        rxringTailIdx dev.rxRing < 0 ∨ transfer.len.toNat = packetSize ∨
          2 ^ 31 ≤ transfer.len.toNat) := by
  by_cases valid : 0 ≤ rxringTailIdx dev.rxRing
  · refine ⟨_, transfer_copies ready valid, ?_⟩
    rw [copy_respects_iff]
    simp [Int.not_lt.mpr valid]
  · have invalid := Int.not_le.mp valid
    refine ⟨_, transfer_faults ready invalid, ?_⟩
    simp [invalid, fault_respects]

/-- The ring once a first packet is in it. -/
def packetReady : SpiImx :=
  { spiImxProbed with rxRing := rxringInsert spiImxProbed.rxRing 0 }

theorem transfer_respects_packet_buffer :
    ∃ out, spiImxTransfer packetReady ⟨fun _ => 0, 188⟩ = some out ∧
      RespectsBuffer packetReady ⟨fun _ => 0, 188⟩ out := by
  obtain ⟨out, taken, respects⟩ :=
    transfer_respects_buffer_iff packetReady ⟨fun _ => 0, 188⟩ (by decide)
  exact ⟨out, taken, respects.mpr (.inr (.inl rfl))⟩

/-- A buffer of one dword gets a whole packet. -/
theorem short_buffer_overrun :
    ¬∀ (dev : SpiImx) (transfer : SpiTransfer), rxringUsed dev.rxRing ≠ 0 →
      ∀ out, spiImxTransfer dev transfer = some out → RespectsBuffer dev transfer out := by
  intro always
  have ready : rxringUsed packetReady.rxRing ≠ 0 := by decide
  have copies : spiImxTransfer packetReady ⟨fun _ => 0, 4⟩ = some _ :=
    transfer_copies ready (by decide)
  have respects := always packetReady ⟨fun _ => 0, 4⟩ ready _ copies
  have touched := (copy_touched packetReady (fun _ => 0) 187).mpr (by decide)
  exact absurd (respects.inside 187 touched) (by decide)

/-- The copy step of the driver is a transfer into a buffer of one packet. -/
theorem transfer_copy_stores (s : Driver) (transfer : SpiTransfer)
    (ready : rxringUsed s.dev.rxRing ≠ 0) (valid : 0 ≤ rxringTailIdx s.dev.rxRing) :
    ∃ out, spiImxTransfer s.dev transfer = some out ∧ out.dev = (transferCopy s).dev ∧
      ∀ position < packetSize,
        ((transferCopy s).rxBuf.flatMap littleEndianBytes)[position]? =
          some (out.rxBuf.cells position) := by
  have copied : (transferCopy s).rxBuf =
      memcpyBswapPacket (slotPacket s.dev.packets (rxringTailIdx s.dev.rxRing)) := by
    simp only [transferCopy, if_pos valid]
  refine ⟨_, transfer_copies ready valid, ?_, fun position bound => ?_⟩
  · simp only [transferCopy, if_pos valid]
  · rw [copied, memcpy_bswap_packet_bytes]
    have inside : position < (receivedBytes s.dev).length := by
      rwa [received_bytes_length]
    have stored := StoredMemory.store_all_inside (.untouched transfer.rxBuf) 0 inside
    rwa [Nat.zero_add] at stored

/-- In no state of the driver does the tail index save a buffer of the wrong size. -/
theorem reachable_transfer_respects_iff {hz : Nat} {s : Driver}
    (reached : (driver hz).Reachable s) (transfer : SpiTransfer)
    (ready : rxringUsed s.dev.rxRing ≠ 0) :
    ∃ out, spiImxTransfer s.dev transfer = some out ∧
      (RespectsBuffer s.dev transfer out ↔
        transfer.len.toNat = packetSize ∨ 2 ^ 31 ≤ transfer.len.toNat) := by
  have inv := (reachable_driver_inv reached).ring
  have nonempty : 0 < rxringUsed s.dev.rxRing := by
    have range := used_range s.dev.rxRing
    omega
  have valid := (inv.inRange _ (tail_idx_mem inv nonempty)).1
  exact ⟨_, transfer_copies ready valid, copy_respects_iff⟩

end Testings.SpiSlave
