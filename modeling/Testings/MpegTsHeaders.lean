import Testings.HistoryLog
import Testings.MpegTsAnalyzer
import Testings.MpegTsExtract
import Testings.MpegTsPackets

/-!
# Packet headers

The header fields of a whole packet, and what the three tools do with it once
every read has succeeded.
-/

set_option autoImplicit false

namespace Testings.MpegTs

open Python

namespace TsPacket

def byte (packet : TsPacket) (position : Nat) : Nat := (packet.bytes.getD position 0).toNat

def pid (packet : TsPacket) : Nat := ((packet.byte 1 &&& 0x1F) <<< 8) ||| packet.byte 2

def pusi (packet : TsPacket) : Bool := decide (packet.byte 1 &&& 0x40 ≠ 0)

/-- `adaptation_field_control` -/
def afc (packet : TsPacket) : Nat := (packet.byte 3 >>> 4) &&& 3

/-- `continuity_counter` -/
def cc (packet : TsPacket) : Nat := packet.byte 3 &&& 0xF

def discontinuity (packet : TsPacket) : Bool :=
  decide ((packet.afc = 2 ∨ packet.afc = 3) ∧ packet.byte 4 ≠ 0 ∧ packet.byte 5 &&& 0x80 ≠ 0)

def info (packet : TsPacket) : PacketInfo where
  pid := packet.pid
  afc := packet.afc
  cc := packet.cc
  discontinuity := packet.discontinuity

theorem index_byte (packet : TsPacket) (position : Nat) (inside : position < tsSz) :
    index packet.bytes position = .ok (packet.byte position) := by
  have bound : position < packet.bytes.length := by
    rw [packet.whole]
    exact inside
  exact index_get_d bound

theorem byte_zero (packet : TsPacket) : packet.byte 0 = 0x47 := by
  have synced := packet.synced
  unfold SyncAt at synced
  rw [byte, List.getD_eq_getElem?_getD, synced]
  rfl

theorem cc_lt (packet : TsPacket) : packet.cc < 16 :=
  Nat.lt_succ_of_le Nat.and_le_right

theorem pid_lt (packet : TsPacket) : packet.pid < 0x2000 := by
  have low : packet.byte 2 < 2 ^ 8 := (packet.bytes.getD 2 0).isLt
  have high : packet.byte 1 &&& 0x1F < 2 ^ 5 := Nat.lt_succ_of_le Nat.and_le_right
  have shifted : (packet.byte 1 &&& 0x1F) <<< 8 < 2 ^ 13 := by
    rw [Nat.shiftLeft_eq]
    omega
  exact Nat.or_lt_two_pow shifted (Nat.lt_trans low (by decide))

theorem packet_info (packet : TsPacket) : packetInfo packet.bytes = .ok (some packet.info) := by
  have whole := packet.whole
  have first := packet.index_byte 0 (by decide)
  have b1 := packet.index_byte 1 (by decide)
  have b2 := packet.index_byte 2 (by decide)
  have b3 := packet.index_byte 3 (by decide)
  have b4 := packet.index_byte 4 (by decide)
  have b5 := packet.index_byte 5 (by decide)
  rw [byte_zero] at first
  unfold packetInfo
  simp only [whole, first, b1, b2, b3, b4, b5, ok_bind, ne_eq, not_true_eq_false, if_false]
  change (if packet.afc = 2 ∨ packet.afc = 3 then _ else _) = _
  by_cases field : packet.afc = 2 ∨ packet.afc = 3
  · by_cases empty : packet.byte 4 = 0
    · have marked : packet.discontinuity = false := by simp [discontinuity, empty]
      rw [if_pos field, if_neg (not_not.mpr empty), info, marked]
      rfl
    · have marked : packet.discontinuity = decide ¬packet.byte 5 &&& 0x80 = 0 := by
        simp [discontinuity, field, empty]
      rw [if_pos field, if_pos empty, info, marked]
      rfl
  · have marked : packet.discontinuity = false := by simp [discontinuity, field]
    rw [if_neg field, info, marked]
    rfl

end TsPacket

end Testings.MpegTs
