import Testings.BitFields
import Testings.MpegTsAnalyzer

/-!
# The fields of timestamps

The five bytes of a PTS and the six bytes of a PCR as the standard lays them out, and
what `decode_pts` and `parse_pcr` make of them.
-/

set_option autoImplicit false

namespace Testings.MpegTs

open Python
open BitFields (append_to_nat part_to_nat bytesOf)

/-- Four bits of prefix, then the value in parts of 3, 15 and 15 bits, each with a marker
bit behind it. -/
def ptsWord (head : BitVec 4) (pts : BitVec 33) (first second third : BitVec 1) : BitVec 40 :=
  head ++ pts.extractLsb' 30 3 ++ first ++ pts.extractLsb' 15 15 ++ second ++
    pts.extractLsb' 0 15 ++ third

/-- 33 bits of base, 6 reserved bits and 9 bits of extension. -/
def pcrWord (base : BitVec 33) (reserved : BitVec 6) (extension : BitVec 9) : BitVec 48 :=
  base ++ reserved ++ extension

theorem pts_word_nat (head : BitVec 4) (pts : BitVec 33) (first second third : BitVec 1) :
    (ptsWord head pts first second third).toNat =
      head.toNat * 2 ^ 36 + pts.toNat / 2 ^ 30 % 2 ^ 3 * 2 ^ 33 + first.toNat * 2 ^ 32 +
        pts.toNat / 2 ^ 15 % 2 ^ 15 * 2 ^ 17 + second.toNat * 2 ^ 16 +
          pts.toNat % 2 ^ 15 * 2 + third.toNat := by
  simp only [ptsWord, append_to_nat, part_to_nat]
  omega

/-- The three parts of a value of 33 bits. -/
theorem pts_parts {value : Nat} (fits : value < 2 ^ 33) :
    ∃ top middle bottom, value / 2 ^ 30 % 2 ^ 3 = top ∧ value / 2 ^ 15 % 2 ^ 15 = middle ∧
      value % 2 ^ 15 = bottom ∧ top < 2 ^ 3 ∧ middle < 2 ^ 15 ∧ bottom < 2 ^ 15 ∧
        top * 2 ^ 30 + middle * 2 ^ 15 + bottom = value := by
  refine ⟨_, _, _, rfl, rfl, rfl, ?_, ?_, ?_, ?_⟩ <;> omega

theorem pts_first_byte {head top marker : Nat} (headFits : head < 2 ^ 4) (topFits : top < 2 ^ 3)
    (markerFits : marker < 2) :
    (head * 2 ^ 4 + top * 2 + marker) % 2 ^ 8 / 2 ^ 1 = head * 2 ^ 3 + top := by
  omega

/-- Parts of 3, 8, 7, 8 and 7 bits. -/
theorem pts_joined {top high middle low bottom : Nat} (highFits : high < 2 ^ 8)
    (middleFits : middle < 2 ^ 7) (lowFits : low < 2 ^ 8) (bottomFits : bottom < 2 ^ 7) :
    (top <<< 30) ||| (high <<< 22) ||| (middle <<< 15) ||| (low <<< 7) ||| bottom =
      (((top * 2 ^ 8 + high) * 2 ^ 7 + middle) * 2 ^ 8 + low) * 2 ^ 7 + bottom := by
  rw [BitFields.shift_or_shift 8 22 highFits, BitFields.shift_or_shift 7 15 middleFits,
    BitFields.shift_or_shift 8 7 lowFits, BitFields.shift_or 7 bottomFits]

theorem decode_pts_field (head : BitVec 4) (pts : BitVec 33) (first second third : BitVec 1) :
    TsAnalyzer.decodePts (bytesOf 5 (ptsWord head pts first second third)) = .ok pts.toNat := by
  have word := pts_word_nat head pts first second third
  have secondFits : second.toNat < 2 := second.isLt
  have thirdFits : third.toNat < 2 := third.isLt
  have firstFits : first.toNat < 2 := first.isLt
  obtain ⟨top, middle, bottom, isTop, isMiddle, isBottom, topFits, middleFits, bottomFits, value⟩ :=
    pts_parts pts.isLt
  rw [isTop, isMiddle, isBottom] at word
  clear isTop isMiddle isBottom
  generalize ptsWord head pts first second third = bits at word ⊢
  have above : bits.toNat / 2 ^ 32 = head.toNat * 2 ^ 4 + top * 2 + first.toNat := by omega
  have byte0 : (bits.toNat / 2 ^ 32 % 2 ^ 8) >>> 1 &&& 0x07 = top := by
    rw [above, Nat.shiftRight_eq_div_pow, pts_first_byte head.isLt topFits firstFits]
    exact BitFields.masked_field 3 topFits head.toNat
  have byte1 : bits.toNat / 2 ^ 24 % 2 ^ 8 = middle / 2 ^ 7 := by omega
  have byte2 : (bits.toNat / 2 ^ 16 % 2 ^ 8) >>> 1 = middle % 2 ^ 7 := by
    rw [Nat.shiftRight_eq_div_pow]
    omega
  have byte3 : bits.toNat / 2 ^ 8 % 2 ^ 8 = bottom / 2 ^ 7 := by omega
  have byte4 : (bits.toNat / 2 ^ 0 % 2 ^ 8) >>> 1 = bottom % 2 ^ 7 := by
    rw [Nat.shiftRight_eq_div_pow]
    omega
  have joined := @pts_joined top (middle / 2 ^ 7) (middle % 2 ^ 7) (bottom / 2 ^ 7)
    (bottom % 2 ^ 7) (by omega) (by omega) (by omega) (by omega)
  have bytes : bytesOf 5 bits = [bits.extractLsb' 32 8, bits.extractLsb' 24 8,
    bits.extractLsb' 16 8, bits.extractLsb' 8 8, bits.extractLsb' 0 8] := rfl
  simp only [TsAnalyzer.decodePts, bytes, index, List.getElem?_cons_zero,
    List.getElem?_cons_succ, ok_bind, part_to_nat, byte0, byte1, byte2, byte3, byte4, joined]
  have same : (((top * 2 ^ 8 + middle / 2 ^ 7) * 2 ^ 7 + middle % 2 ^ 7) * 2 ^ 8 +
      bottom / 2 ^ 7) * 2 ^ 7 + bottom % 2 ^ 7 = pts.toNat := by
    omega
  exact congrArg Except.ok same

/-- The bytes of a PCR, part by part. -/
def pcrFieldBytes (base extension : Nat) (reserved : BitVec 6) : Bytes :=
  [BitVec.ofNat 8 (base / 2 ^ 25), BitVec.ofNat 8 (base / 2 ^ 17), BitVec.ofNat 8 (base / 2 ^ 9),
    BitVec.ofNat 8 (base / 2),
    BitVec.ofNat 8 (base % 2 * 2 ^ 7 + reserved.toNat * 2 + extension / 2 ^ 8),
    BitVec.ofNat 8 extension]

theorem pcr_word_bytes (base : BitVec 33) (reserved : BitVec 6) (extension : BitVec 9) :
    bytesOf 6 (pcrWord base reserved extension) =
      pcrFieldBytes base.toNat extension.toNat reserved := by
  have word : (pcrWord base reserved extension).toNat =
      base.toNat * 2 ^ 15 + reserved.toNat * 2 ^ 9 + extension.toNat := by
    simp only [pcrWord, append_to_nat]
    omega
  have reservedFits : reserved.toNat < 2 ^ 6 := reserved.isLt
  have extensionFits : extension.toNat < 2 ^ 9 := extension.isLt
  generalize pcrWord base reserved extension = bits at word ⊢
  have byte {first value : Nat} (same : bits.toNat / 2 ^ first % 2 ^ 8 = value % 2 ^ 8) :
      bits.extractLsb' first 8 = BitVec.ofNat 8 value := by
    apply BitVec.eq_of_toNat_eq
    rw [part_to_nat, BitVec.toNat_ofNat, same]
  have bytes : bytesOf 6 bits = [bits.extractLsb' 40 8, bits.extractLsb' 32 8,
    bits.extractLsb' 24 8, bits.extractLsb' 16 8, bits.extractLsb' 8 8,
    bits.extractLsb' 0 8] := rfl
  have byte0 : bits.extractLsb' 40 8 = BitVec.ofNat 8 (base.toNat / 2 ^ 25) := byte (by omega)
  have byte1 : bits.extractLsb' 32 8 = BitVec.ofNat 8 (base.toNat / 2 ^ 17) := byte (by omega)
  have byte2 : bits.extractLsb' 24 8 = BitVec.ofNat 8 (base.toNat / 2 ^ 9) := byte (by omega)
  have byte3 : bits.extractLsb' 16 8 = BitVec.ofNat 8 (base.toNat / 2) := byte (by omega)
  have byte4 : bits.extractLsb' 8 8 = BitVec.ofNat 8
      (base.toNat % 2 * 2 ^ 7 + reserved.toNat * 2 + extension.toNat / 2 ^ 8) := byte (by omega)
  have byte5 : bits.extractLsb' 0 8 = BitVec.ofNat 8 extension.toNat := byte (by omega)
  rw [bytes, byte0, byte1, byte2, byte3, byte4, byte5]
  rfl

theorem pcr_base_read (base : Nat) {d4 : Nat} (bound : base < 2 ^ 33) (low : d4 >>> 7 = base % 2) :
    ((base / 2 ^ 25 % 2 ^ 8) <<< 25) ||| ((base / 2 ^ 17 % 2 ^ 8) <<< 17) |||
      ((base / 2 ^ 9 % 2 ^ 8) <<< 9) ||| ((base / 2 % 2 ^ 8) <<< 1) ||| (d4 >>> 7) = base := by
  have byte (value : Nat) : value % 2 ^ 8 < 2 ^ 8 := Nat.mod_lt _ (by decide)
  have bit : base % 2 < 2 ^ 1 := Nat.mod_lt _ (by decide)
  rw [low, BitFields.shift_or_shift 8 17 (byte _), BitFields.shift_or_shift 8 9 (byte _),
    BitFields.shift_or_shift 8 1 (byte _), BitFields.shift_or 1 bit]
  omega

/-- The fifth byte: the lowest bit of the base, the reserved bits and the highest bit of
the extension. -/
theorem pcr_fifth_byte (bit top : Nat) (bitBound : bit < 2) (topBound : top < 2)
    (reserved : BitVec 6) :
    ((bit * 2 ^ 7 + reserved.toNat * 2 + top) % 2 ^ 8) >>> 7 = bit ∧
      (bit * 2 ^ 7 + reserved.toNat * 2 + top) % 2 ^ 8 &&& 0x01 = top := by
  have reservedBound : reserved.toNat < 2 ^ 6 := reserved.isLt
  rw [Nat.shiftRight_eq_div_pow, Nat.and_one_is_mod]
  omega

/-- The state after a PCR. -/
def TsAnalyzer.clocked (self : TsAnalyzer) (pid pcr : Nat) : TsAnalyzer :=
  { self with
    firstPcr := some (self.firstPcr.getD pcr)
    ptsOrigin := some (self.ptsOrigin.getD pcr)
    previousPcr := some pcr }.print
      (.pcr pid (pcr - self.firstPcr.getD pcr : Int)
        (self.previousPcr.map fun previous => (pcr : Int) - previous))

theorem parse_pcr_field (self : TsAnalyzer) (pid : Nat) {base extension : Nat}
    (baseFits : base < 2 ^ 33) (extensionFits : extension < 2 ^ 9) (reserved : BitVec 6) :
    self.parsePcr pid (pcrFieldBytes base extension reserved) =
      .ok (self.clocked pid (base * 300 + extension)) := by
  obtain ⟨low, high⟩ := pcr_fifth_byte (base % 2) (extension / 2 ^ 8)
    (Nat.mod_lt _ (by decide)) (by omega) reserved
  have baseRead := pcr_base_read base baseFits low
  have extensionRead : ((extension / 2 ^ 8) <<< 8) ||| extension % 2 ^ 8 = extension := by
    rw [BitFields.shift_or 8 (Nat.mod_lt _ (by decide))]
    omega
  unfold TsAnalyzer.parsePcr pcrFieldBytes
  simp only [List.length_cons, List.length_nil, index, List.getElem?_cons_zero,
    List.getElem?_cons_succ, BitVec.toNat_ofNat, ok_bind, ne_eq, not_true_eq_false, if_false,
    baseRead, high, extensionRead]
  rfl

/-- Whatever the prefix, the marker bits and the reserved bits are. -/
theorem timestamps_decoded (head : BitVec 4) (pts : BitVec 33) (first second third : BitVec 1)
    (base : BitVec 33) (reserved : BitVec 6) (extension : BitVec 9) (self : TsAnalyzer)
    (pid : Nat) :
    TsAnalyzer.decodePts (bytesOf 5 (ptsWord head pts first second third)) = .ok pts.toNat ∧
      self.parsePcr pid (bytesOf 6 (pcrWord base reserved extension)) =
        .ok (self.clocked pid (base.toNat * 300 + extension.toNat)) := by
  constructor
  · exact decode_pts_field head pts first second third
  · rw [pcr_word_bytes]
    exact parse_pcr_field self pid base.isLt extension.isLt reserved

end Testings.MpegTs
