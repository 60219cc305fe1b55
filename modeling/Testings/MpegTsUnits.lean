import Mathlib.Data.BitVec
import Testings.MpegTsHeaders
import Testings.MpegTsTotal

/-!
# PES units in packets

The payload of a packet and the frame that begins with it, as functions of the
bytes alone, and what the analyzer does with a packet in these terms: a unit start
ends the record of its PID and opens another one, any other payload extends it.
-/

set_option autoImplicit false

namespace Testings.MpegTs

open Python

/-- The payload bytes, if there are any. -/
def TsPacket.payload (packet : TsPacket) : Option Bytes :=
  let start := TsAnalyzer.payloadStart packet.bytes packet.afc
  if packet.afc = 0 ∨ packet.afc = 2 ∨ tsSz ≤ start then none
  else some (sliceFrom packet.bytes start)

theorem TsPacket.unpack_head (packet : TsPacket) :
    unpackThree (slice packet.bytes 1 4) = .ok (packet.byte 1, packet.byte 2, packet.byte 3) := by
  unfold byte
  match packet.bytes, packet.whole with
  | _ :: b1 :: b2 :: b3 :: rest, _ => rfl

/-- A packet without adaptation field, with stuffing behind the bytes given. -/
def TsPacket.plain (pid : Nat) (starts : Bool) (payload : Bytes)
    (fits : payload.length ≤ tsSz - 4) : TsPacket where
  bytes := [0x47, BitVec.ofNat 8 ((if starts then 0x40 else 0) + pid / 2 ^ 8), BitVec.ofNat 8 pid,
    0x10] ++ payload ++ List.replicate (tsSz - 4 - payload.length) 0xFF
  whole := by
    rw [List.length_append, List.length_append, List.length_replicate]
    unfold tsSz at fits ⊢
    simp only [List.length_cons, List.length_nil]
    omega
  synced := by
    unfold SyncAt
    rfl

/-- `PES_header_data_length` -/
def headerLength (payload : Bytes) : Nat := (payload.getD 8 0).toNat

/-- The payload begins with a whole PES header that has a PTS. -/
def StartsFrame (payload : Bytes) : Prop :=
  payload.take 3 = [0x00, 0x00, 0x01] ∧ 9 ≤ payload.length ∧
    9 + headerLength payload ≤ payload.length ∧
    (payload.getD 7 0).toNat &&& 0x80 ≠ 0 ∧ 14 ≤ payload.length

instance (payload : Bytes) : Decidable (StartsFrame payload) :=
  inferInstanceAs (Decidable (_ ∧ _))

/-- A header with a PTS and nothing else, for a video frame. -/
def videoStart : Bytes :=
  [0x00, 0x00, 0x01, 0xE0, 0x00, 0x00, 0x80, 0x80, 0x05, 0x21, 0x00, 0x01, 0x00, 0x01]

def videoPacket (pid : Nat) : TsPacket := .plain pid true videoStart (by decide)

/-- The frame that begins with a unit start, with its bytes so far. -/
def unitFrame (type : MediaType) (payload : Bytes) : Option (MediaType × Nat) :=
  if type ≠ .unknown ∧ StartsFrame payload then
    some (type, payload.length - (9 + headerLength payload))
  else none

theorem unit_frame_none (type : MediaType) {payload : Bytes} (none_starts : ¬StartsFrame payload) :
    unitFrame type payload = none :=
  if_neg fun both => none_starts both.2

theorem unit_frame_some (type : MediaType) {payload : Bytes} (starts : StartsFrame payload)
    {pes : Pes} (sameType : pes.type = type) {pts : Nat} (given : pes.pts = some pts)
    (size : pes.size = payload.length - (9 + headerLength payload)) :
    pes.frame = unitFrame type payload := by
  subst sameType
  unfold Pes.frame Pes.shown unitFrame
  cases kind : pes.type <;> simp [given, size, starts]

namespace TsAnalyzer

/-- A record that is opened, if there is one. -/
def opening (self : TsAnalyzer) (pid : Nat) : Option Pes → TsAnalyzer
  | none => self
  | some pes => { self with pes := self.pes.assign pid pes }

theorem opening_reports {before self : TsAnalyzer} {lines : List Line}
    (reports : Reports before self lines) (pid : Nat) (opened : Option Pes) :
    Reports before (self.opening pid opened) lines := by
  cases opened with
  | none => exact reports
  | some pes => exact ⟨reports.frames, reports.frameCount⟩

theorem opening_tables (self : TsAnalyzer) (pid : Nat) (opened : Option Pes) :
    (self.opening pid opened).pmtPid = self.pmtPid ∧
      (self.opening pid opened).streams = self.streams := by
  cases opened <;> exact ⟨rfl, rfl⟩

theorem opening_open_size (self : TsAnalyzer) (pid other : Nat) (opened : Option Pes) :
    (self.opening pid opened).openSize other =
      if pid = other then (opened.or (self.pes.get? pid)).bind Pes.frame
      else self.openSize other := by
  cases opened with
  | none =>
      split_ifs with here
      · rw [here]
        rfl
      · rfl
  | some pes =>
      rw [opening, openSize, Dict.get_assign]
      split_ifs <;> rfl

theorem start_pes_opens {self : TsAnalyzer} {pid : Nat} {stream : Stream}
    (known : self.streams.get? pid = some stream) (payload : Bytes) (streamId headerLength : Nat)
    (pts : Option Nat) (offset : Nat) :
    self.startPes pid payload streamId headerLength pts offset =
      .ok (self.opening pid
        (if payload.length < 9 + headerLength then none
        else some {
          type := stream.type
          size := payload.length - (9 + headerLength)
          pts := pts
          streamId := streamId
          offset := offset })) := by
  unfold startPes
  rw [Dict.get_of_get? known]
  dsimp only
  split_ifs <;> rfl

theorem parse_pes_starts {self : TsAnalyzer} {pid : Nat} {stream : Stream}
    (known : self.streams.get? pid = some stream) (payload : Bytes) (offset : Nat) :
    ∃ opened : Option Pes,
      self.parsePes pid payload true offset = .ok ((self.finishPes pid).opening pid opened) ∧
        opened.bind Pes.frame = unitFrame stream.type payload := by
  have stillKnown : (self.finishPes pid).streams.get? pid = some stream := by
    rw [finish_pes_streams]
    exact known
  unfold parsePes
  rw [if_pos rfl]
  by_cases nine : payload.length < 9
  · refine ⟨none, if_pos nine, (unit_frame_none _ ?_).symm⟩
    rintro ⟨_, long, _⟩
    omega
  by_cases startCode : slice payload 0 3 ≠ [0x00, 0x00, 0x01]
  · refine ⟨none, ?_, (unit_frame_none _ fun starts => startCode starts.1).symm⟩
    rw [if_neg nine, if_pos startCode]
    rfl
  rw [if_neg nine, if_neg startCode, index_get_d (by omega), index_get_d (by omega),
    index_get_d (by omega)]
  simp only [ok_bind, start_pes_opens stillKnown]
  by_cases flagged : (payload.getD 7 0).toNat &&& 0x80 ≠ 0
  · rw [if_pos flagged]
    by_cases fourteen : payload.length < 14
    · refine ⟨none, if_pos fourteen, (unit_frame_none _ ?_).symm⟩
      rintro ⟨_, _, _, _, long⟩
      omega
    · rw [if_neg fourteen]
      have five : (slice payload 9 14).length = 5 := slice_length (by omega)
      obtain ⟨pts, decoded, _⟩ := decode_pts_returns five
      rw [decoded]
      refine ⟨_, rfl, ?_⟩
      by_cases short : payload.length < 9 + (payload.getD 8 0).toNat
      · rw [if_pos short]
        refine (unit_frame_none _ ?_).symm
        rintro ⟨_, _, whole, _⟩
        unfold headerLength at whole
        omega
      · rw [if_neg short]
        have starts : StartsFrame payload :=
          ⟨not_not.mp startCode, Nat.not_lt.mp nine, Nat.not_lt.mp short, flagged,
            Nat.not_lt.mp fourteen⟩
        exact unit_frame_some stream.type starts rfl rfl rfl
  · rw [if_neg flagged]
    refine ⟨_, rfl, ?_⟩
    rw [unit_frame_none _ fun starts => flagged starts.2.2.2.1]
    split_ifs
    · rfl
    · simp [Pes.frame, Pes.shown]
      cases stream.type <;> rfl

/-- A payload that starts no unit goes to the record of its PID. -/
def extending (self : TsAnalyzer) (pid : Nat) (payload : Bytes) : TsAnalyzer :=
  self.opening pid
    ((self.pes.get? pid).map fun pes => { pes with size := pes.size + payload.length })

theorem extending_tables (self : TsAnalyzer) (pid : Nat) (payload : Bytes) :
    (self.extending pid payload).pmtPid = self.pmtPid ∧
      (self.extending pid payload).streams = self.streams :=
  self.opening_tables pid _

theorem parse_pes_extends (self : TsAnalyzer) (pid : Nat) (payload : Bytes) (offset : Nat) :
    self.parsePes pid payload false offset = .ok (self.extending pid payload) := by
  unfold parsePes extending
  cases self.pes.get? pid with
  | none => rfl
  | some pes => rfl

theorem packet_dispatches (self : TsAnalyzer) (packet : TsPacket) (offset : Nat) :
    ∃ clocked, Clocked self clocked ∧
      self.packet packet.bytes offset =
        match packet.payload with
        | none => .ok clocked
        | some payload => clocked.dispatch packet.pid payload packet.pusi offset := by
  have first := packet.index_byte 0 (by decide)
  rw [TsPacket.byte_zero] at first
  obtain ⟨⟨clocked, start⟩, field, same, startEq⟩ :=
    adaptation_field_returns packet.whole self packet.pid packet.afc
  dsimp only at same startEq
  subst startEq
  unfold TsAnalyzer.packet TsPacket.payload
  rw [first, ok_bind, packet.unpack_head]
  by_cases reserved : packet.afc = 0
  · refine ⟨self, clocked_refl self, ?_⟩
    rw [if_pos (Or.inl reserved)]
    exact if_pos reserved
  · refine ⟨clocked, same, ?_⟩
    change (if packet.afc = 0 then _ else
      self.adaptationField packet.bytes packet.pid packet.afc >>= _) = _
    rw [if_neg reserved, field, ok_bind]
    by_cases noPayload : packet.afc = 2 ∨ tsSz ≤ payloadStart packet.bytes packet.afc
    · rw [if_pos (Or.inr noPayload)]
      exact if_pos noPayload
    · rw [if_neg (by tauto)]
      exact if_neg noPayload

/-- What becomes of a packet once its clock has been read. -/
inductive Dispatched (clocked : TsAnalyzer) (packet : TsPacket) (offset : Nat)
    (result : Py TsAnalyzer) : Prop
  | empty (absent : packet.payload = none) (passed : result = .ok clocked)
  | table (reserved : packet.pid = 0 ∨ some packet.pid = clocked.pmtPid)
      (read : Returns result (SameRecords clocked))
  | foreign (unknown : clocked.streams.get? packet.pid = none) (passed : result = .ok clocked)
  | data {payload : Bytes} {stream : Stream} (carried : packet.payload = some payload)
      (free : ¬(packet.pid = 0 ∨ some packet.pid = clocked.pmtPid))
      (known : clocked.streams.get? packet.pid = some stream)
      (parsed : result = clocked.parsePes packet.pid payload packet.pusi offset)

theorem packet_dispatched (self : TsAnalyzer) (packet : TsPacket) (offset : Nat) :
    ∃ clocked, Clocked self clocked ∧
      Dispatched clocked packet offset (self.packet packet.bytes offset) := by
  obtain ⟨clocked, clock, stepped⟩ := self.packet_dispatches packet offset
  refine ⟨clocked, clock, ?_⟩
  rw [stepped]
  cases carried : packet.payload with
  | none => exact .empty carried rfl
  | some payload =>
      dsimp only
      unfold dispatch
      by_cases pat : packet.pid = 0
      · rw [if_pos pat]
        exact .table (.inl pat) (parse_pat_returns clocked payload packet.pusi)
      rw [if_neg pat]
      by_cases pmt : some packet.pid = clocked.pmtPid
      · rw [if_pos pmt]
        exact .table (.inr pmt) (parse_pmt_returns clocked payload packet.pusi)
      rw [if_neg pmt, Dict.contains]
      cases known : clocked.streams.get? packet.pid with
      | none => exact .foreign known rfl
      | some stream => exact .data carried (not_or.mpr ⟨pat, pmt⟩) known rfl

/-- The packets one after the other, with their offsets. -/
def run (self : TsAnalyzer) (handed : List (TsPacket × Nat)) : Py TsAnalyzer :=
  handed.foldlM (fun self handed => self.packet handed.1.bytes handed.2) self

end TsAnalyzer

end Testings.MpegTs
