import Testings.LittleEndian
import Testings.PythonData

/-!
# The packets of the serial test

`make_packet` builds a packet with a sync word, a type, the size of the payload, the
payload and a CRC, and can spoil the sync word, the size or the CRC. The failure of
`struct.pack` has no outcome.
-/

set_option autoImplicit false

namespace Testings.SerialTest

open Python (Bytes)

def syncWord : Nat := 0xD391DA26
def packetType : Nat := 1
def maxData : Nat := 256

/-- `binascii.crc_hqx`: the CRC of 16 bits, from a start value. -/
abbrev CrcHqx := Bytes → BitVec 16 → BitVec 16

def makePacket (crcHqx : CrcHqx) (data : Bytes) (badCrc badSync badSize : Bool) :
    Option Bytes := do
  let size := if badSize then data.length ^^^ 1 else data.length
  let sync := if badSync then syncWord ^^^ 1 else syncWord
  let hdr ← LittleEndian.pack [(4, sync), (1, packetType), (1, size)]
  let crc := crcHqx (hdr ++ data) 0
  let crc := if badCrc then crc ^^^ 1 else crc
  let tail ← LittleEndian.pack [(2, crc.toNat)]
  some (hdr ++ data ++ tail)

/-- `covered` is what the CRC is about. -/
structure Fields where
  sync : Nat
  type : Nat
  size : Nat
  payload : Bytes
  crc : Nat
  covered : Bytes
  deriving DecidableEq

def parse (packet : Bytes) : Option Fields :=
  if packet.length < 8 then none
  else
    some {
      sync := LittleEndian.decode (packet.take 4)
      type := LittleEndian.decode ((packet.drop 4).take 1)
      size := LittleEndian.decode ((packet.drop 5).take 1)
      payload := (packet.drop 6).take (packet.length - 8)
      crc := LittleEndian.decode (packet.drop (packet.length - 2))
      covered := packet.take (packet.length - 2) }

inductive Fault where
  | sync
  | size
  | crc
  deriving DecidableEq

/-- The checks that fail, in the receiver's order. -/
def Fields.faults (crcHqx : CrcHqx) (fields : Fields) : List Fault :=
  (if fields.sync ≠ syncWord then [.sync] else []) ++
    (if fields.size ≠ fields.payload.length then [.size] else []) ++
      if fields.crc ≠ (crcHqx fields.covered 0).toNat then [.crc] else []

/-- The faults that the flags ask for. -/
def asked (badCrc badSync badSize : Bool) : List Fault :=
  (if badSync then [.sync] else []) ++ (if badSize then [.size] else []) ++
    if badCrc then [.crc] else []

/-- Every packet is built, the good one holds what it should, and a receiver finds the
faults that were asked for. -/
structure DecodesBack (crcHqx : CrcHqx) (data : Bytes) : Prop where
  built : ∀ badCrc badSync badSize,
    ∃ packet, makePacket crcHqx data badCrc badSync badSize = some packet
  good : ∀ packet, makePacket crcHqx data false false false = some packet →
    parse packet = some {
      sync := syncWord
      type := packetType
      size := data.length
      payload := data
      crc := (crcHqx (packet.take 6 ++ data) 0).toNat
      covered := packet.take 6 ++ data }
  faults : ∀ badCrc badSync badSize packet,
    makePacket crcHqx data badCrc badSync badSize = some packet →
      (parse packet).map (Fields.faults crcHqx) = some (asked badCrc badSync badSize)

def header (sync type size : Nat) : Bytes :=
  LittleEndian.encode 4 sync ++ LittleEndian.encode 1 type ++ LittleEndian.encode 1 size

theorem header_length (sync type size : Nat) : (header sync type size).length = 6 := by
  simp only [header, List.length_append, LittleEndian.encode_length]

theorem header_parts (sync type size : Nat) (rest : Bytes) :
    (header sync type size ++ rest).take 4 = LittleEndian.encode 4 sync ∧
      ((header sync type size ++ rest).drop 4).take 1 = LittleEndian.encode 1 type ∧
      ((header sync type size ++ rest).drop 5).take 1 = LittleEndian.encode 1 size :=
  ⟨rfl, rfl, rfl⟩

theorem parse_layout {sync type size crc : Nat} (syncFits : sync < 256 ^ 4)
    (typeFits : type < 256 ^ 1) (sizeFits : size < 256 ^ 1) (crcFits : crc < 256 ^ 2)
    (data : Bytes) :
    parse (header sync type size ++ data ++ LittleEndian.encode 2 crc) = some {
      sync := sync
      type := type
      size := size
      payload := data
      crc := crc
      covered := header sync type size ++ data } := by
  have before : (header sync type size ++ data).length = data.length + 6 := by
    rw [List.length_append, header_length, Nat.add_comm]
  have whole : (header sync type size ++ data ++ LittleEndian.encode 2 crc).length =
      data.length + 8 := by
    rw [List.length_append, before, LittleEndian.encode_length]
  have covered : data.length + 8 - 2 = (header sync type size ++ data).length := before.symm
  obtain ⟨isSync, isType, isSize⟩ :=
    header_parts sync type size (data ++ LittleEndian.encode 2 crc)
  have isData : ((header sync type size ++ data ++ LittleEndian.encode 2 crc).drop 6).take
      data.length = data := by
    rw [List.append_assoc, ← header_length sync type size, List.drop_left, List.take_left]
  unfold parse
  rw [if_neg (by omega), whole, covered, List.take_left, List.drop_left, Nat.add_sub_cancel,
    isData, List.append_assoc, isSync, isType, isSize, LittleEndian.decode_encode syncFits,
    LittleEndian.decode_encode typeFits, LittleEndian.decode_encode sizeFits,
    LittleEndian.decode_encode crcFits]

/-- Spoiling flips the lowest bit. -/
def spoiled (bad : Bool) (value : Nat) : Nat := if bad then value ^^^ 1 else value

theorem spoiled_lt {bad : Bool} {value width : Nat} (one : 0 < width) (fits : value < 2 ^ width) :
    spoiled bad value < 2 ^ width := by
  cases bad with
  | false => exact fits
  | true => exact Nat.xor_lt_two_pow fits (Nat.one_lt_two_pow (Nat.ne_of_gt one))

theorem spoiled_eq {bad : Bool} {value : Nat} : spoiled bad value = value ↔ bad = false := by
  cases bad with
  | false => exact iff_of_true rfl rfl
  | true =>
      apply iff_of_false _ Bool.noConfusion
      intro same
      have parity := congrArg (fun number => number.testBit 0) same
      simp only [spoiled, if_true, Nat.testBit_xor, Nat.testBit_one_zero, Bool.bne_true,
        Bool.not_eq_self] at parity

/-- A check against the value finds whether it is spoiled. -/
theorem spoiled_check (bad : Bool) (value : Nat) (fault : Fault) :
    (if spoiled bad value ≠ value then [fault] else []) = if bad then [fault] else [] := by
  cases bad with
  | false => exact if_neg (not_not.mpr rfl)
  | true => exact if_pos fun same => Bool.noConfusion (spoiled_eq.mp same)

theorem spoiled_large {bad : Bool} {value : Nat} (large : 256 ≤ value) :
    256 ≤ spoiled bad value := by
  cases bad with
  | false => exact large
  | true =>
      have half : (value ^^^ 1) / 2 = value / 2 := Nat.xor_div_two.trans (Nat.xor_zero _)
      change 256 ≤ value ^^^ 1
      omega

theorem spoiled_crc (bad : Bool) (crc : BitVec 16) :
    (if bad then crc ^^^ 1 else crc).toNat = spoiled bad crc.toNat := by
  cases bad with
  | false => rfl
  | true => exact BitVec.toNat_xor crc 1

section

variable (crcHqx : CrcHqx) {data : Bytes} (badCrc badSync badSize : Bool)

/-- What stands before the payload. -/
def headerOf (data : Bytes) (badSync badSize : Bool) : Bytes :=
  header (spoiled badSync syncWord) packetType (spoiled badSize data.length)

/-- The CRC that the packet carries: of the header as it is. -/
def crcOf (crcHqx : CrcHqx) (data : Bytes) (badCrc badSync badSize : Bool) : Nat :=
  spoiled badCrc (crcHqx (headerOf data badSync badSize ++ data) 0).toNat

/-- A count of 255 at most fits the size byte, spoiled or not. -/
theorem header_packed (small : data.length < 256) :
    LittleEndian.pack [(4, spoiled badSync syncWord), (1, packetType),
      (1, spoiled badSize data.length)] = some (headerOf data badSync badSize) := by
  have sync : spoiled badSync syncWord < 2 ^ 32 := spoiled_lt (by decide) (by decide)
  have size : spoiled badSize data.length < 2 ^ 8 := spoiled_lt (by decide) small
  have fits : ∀ field ∈ [(4, spoiled badSync syncWord), (1, packetType),
      (1, spoiled badSize data.length)], field.2 < 256 ^ field.1 := by
    rw [List.forall_mem_cons, List.forall_mem_cons, List.forall_mem_singleton]
    exact ⟨sync, by decide, size⟩
  exact LittleEndian.pack_fits fits

theorem crc_fits : crcOf crcHqx data badCrc badSync badSize < 256 ^ 2 := by
  have crc : crcOf crcHqx data badCrc badSync badSize < 2 ^ 16 :=
    spoiled_lt (by decide) (BitVec.isLt _)
  exact crc

theorem make_packet_eq (small : data.length < 256) :
    makePacket crcHqx data badCrc badSync badSize =
      some (headerOf data badSync badSize ++ data ++
        LittleEndian.encode 2 (crcOf crcHqx data badCrc badSync badSize)) := by
  have packed := header_packed badSync badSize small
  have fits : ∀ field ∈ [(2, crcOf crcHqx data badCrc badSync badSize)],
      field.2 < 256 ^ field.1 := by
    rw [List.forall_mem_singleton]
    exact crc_fits crcHqx badCrc badSync badSize
  have tail := LittleEndian.pack_fits fits
  simp only [spoiled] at packed
  simp only [makePacket, packed, Option.bind_eq_bind, Option.bind_some, spoiled_crc]
  rw [crcOf] at tail ⊢
  rw [tail]
  rfl

theorem packet_parses (small : data.length < 256) :
    parse (headerOf data badSync badSize ++ data ++
        LittleEndian.encode 2 (crcOf crcHqx data badCrc badSync badSize)) = some {
      sync := spoiled badSync syncWord
      type := packetType
      size := spoiled badSize data.length
      payload := data
      crc := crcOf crcHqx data badCrc badSync badSize
      covered := headerOf data badSync badSize ++ data } := by
  have sync : spoiled badSync syncWord < 2 ^ 32 := spoiled_lt (by decide) (by decide)
  have size : spoiled badSize data.length < 2 ^ 8 := spoiled_lt (by decide) small
  exact parse_layout sync (by decide) size (crc_fits crcHqx badCrc badSync badSize) data

/-- A size of 256 or more does not fit, and flipping its lowest bit does not help. -/
theorem make_packet_overflows (large : 256 ≤ data.length) :
    makePacket crcHqx data badCrc badSync badSize = none := by
  have size : 256 ≤ spoiled badSize data.length := spoiled_large large
  have failed := @LittleEndian.pack_overflows [(4, spoiled badSync syncWord), (1, packetType),
    (1, spoiled badSize data.length)] 1 _ (by simp) size
  simp only [spoiled] at failed
  simp only [makePacket, failed, Option.bind_eq_bind, Option.bind_none]

end

/-- A test packet decodes back exactly if its payload is shorter than `MAX_DATA`. -/
theorem decodes_back_iff (crcHqx : CrcHqx) (data : Bytes) :
    DecodesBack crcHqx data ↔ data.length ≤ 255 := by
  constructor
  · intro decodes
    obtain ⟨packet, built⟩ := decodes.built false false false
    by_contra large
    rw [make_packet_overflows crcHqx false false false (by omega)] at built
    cases built
  · intro small
    have fits : data.length < 256 := Nat.lt_succ_of_le small
    constructor
    · intro badCrc badSync badSize
      exact ⟨_, make_packet_eq crcHqx badCrc badSync badSize fits⟩
    · intro packet built
      rw [make_packet_eq crcHqx false false false fits] at built
      cases built
      have front : (headerOf data false false ++ data ++
          LittleEndian.encode 2 (crcOf crcHqx data false false false)).take 6 =
            headerOf data false false := rfl
      rw [front]
      exact packet_parses crcHqx false false false fits
    · intro badCrc badSync badSize packet built
      rw [make_packet_eq crcHqx badCrc badSync badSize fits] at built
      cases built
      rw [packet_parses crcHqx badCrc badSync badSize fits]
      simp only [Option.map_some, Fields.faults, spoiled_check, crcOf]
      rfl

/-- The default size, 256, is admitted and does not fit the size byte. -/
theorem default_size_fails :
    ¬∀ (crcHqx : CrcHqx) (data : Bytes), data.length ≤ maxData → DecodesBack crcHqx data := by
  intro always
  let data : Bytes := List.replicate maxData 0
  have size : data.length = maxData := List.length_replicate
  have decodes := always (fun _ value => value) data (Nat.le_of_eq size)
  obtain ⟨packet, built⟩ := decodes.built false false false
  rw [make_packet_overflows _ false false false (Nat.le_of_eq size.symm)] at built
  cases built

end Testings.SerialTest
