import Mathlib.Data.BitVec
import Testings.MpegTsCheckersAgree
import Testings.MpegTsUnits

/-!
# The elementary stream that is extracted

What `ExtractPid` writes of a packet, and PES packets split into the packets of one
PID. The header of a PES packet is skipped in one of the two branches only.
-/

set_option autoImplicit false

namespace Testings.MpegTs

open Python

/-- The bytes of a packet that `extract` writes. -/
def TsPacket.extracted (packet : TsPacket) : Bytes :=
  if packet.afc = 1 then sliceFrom packet.bytes (4 + if packet.pusi then 14 else 0)
  else if packet.afc = 3 ∧ 1 + packet.byte 4 < tsDataSz then
    sliceFrom packet.bytes (4 + (1 + packet.byte 4))
  else []

def extractedFrom (pid : Nat) (packets : List TsPacket) : Bytes :=
  (packets.filter (TsPacket.has pid)).flatMap TsPacket.extracted

namespace ExtractPid

/-- The packets of the PID so far are in the file, and all that is there is counted. -/
structure Wrote (pid : Nat) (before : List (TsPacket × Nat)) (state : ExtractPid) : Prop where
  own : state.pid = pid
  fout : state.fout = extractedFrom pid (before.map Prod.fst)
  counted : state.bytesCnt = state.fout.length

/-- What a call adds to the file. -/
structure Adds (bytes : Bytes) (before after : ExtractPid) : Prop where
  own : after.pid = before.pid
  fout : after.fout = before.fout ++ bytes
  counted : before.bytesCnt = before.fout.length → after.bytesCnt = after.fout.length

theorem write_adds (self : ExtractPid) (packet : TsPacket) (frameSize : Nat) {offset : Nat}
    (inside : offset ≤ tsDataSz) :
    Adds (sliceFrom packet.bytes (4 + offset)) self
      ({ self with frameSize := frameSize }.write packet.bytes offset) where
  own := rfl
  fout := rfl
  counted := by
    intro counted
    have whole := packet.whole
    unfold write
    rw [List.length_append, slice_from_length, whole, counted]
    unfold tsDataSz tsSz at *
    dsimp only
    omega

theorem check_continuity_adds {head : List Nat} (eight : head.length = 8) (self : ExtractPid)
    (offset : Nat) : Returns (self.checkContinuity head offset) (Adds [] self) := by
  have nothing (continuity : Int) (warnings : List Warning) :
      Adds [] self { self with continuity := continuity, warnings := warnings } :=
    ⟨rfl, (List.append_nil _).symm, id⟩
  apply Returns.bind (field_returns (by rw [eight]; decide))
  intro cont _
  apply Returns.ite
  · exact fun _ => .pure (nothing _ _)
  · intro _
    apply Returns.ite
    · exact fun _ => .pure (nothing _ _)
    · exact fun _ => .pure (nothing _ _)

theorem extract_adds {packet : TsPacket} {head : List Nat} (fields : HeadOf packet head)
    (self : ExtractPid) (offset : Nat) :
    Returns (self.extract head packet.bytes offset) (Adds packet.extracted self) := by
  unfold extract TsPacket.extracted
  rw [fields.adapt, ok_bind]
  apply Returns.ite
  · intro payloadOnly
    rw [fields.start, ok_bind, if_pos payloadOnly]
    cases packet.pusi with
    | true => exact .pure (write_adds self packet _ (by decide))
    | false => exact .pure (write_adds self packet _ (by decide))
  · intro other
    rw [if_neg other]
    apply Returns.ite
    · intro adapted
      rw [packet.index_byte 4 (by decide), ok_bind]
      apply Returns.ite
      · intro bad
        rw [packet.index_byte 5 (by decide), ok_bind, if_neg (by omega)]
        exact .pure ⟨rfl, (List.append_nil _).symm, id⟩
      · intro inside
        rw [if_pos ⟨adapted, by omega⟩]
        exact .pure (write_adds self packet _ (by omega))
    · intro silent
      rw [if_neg fun both => silent both.1]
      exact .pure ⟨rfl, (List.append_nil _).symm, id⟩

theorem call_wrote {unpack : Bytes → Py (List Nat)} (documented : UnpacksHead unpack) {pid : Nat}
    (before : List (TsPacket × Nat)) (state : ExtractPid) (item : TsPacket × Nat)
    (wrote : Wrote pid before state) :
    Returns (state.call unpack item.1.bytes (item.2 * tsSz)) (Wrote pid (before ++ [item])) := by
  have concat : extractedFrom pid ((before ++ [item]).map Prod.fst) =
      extractedFrom pid (before.map Prod.fst) ++
        if item.1.pid = pid then item.1.extracted else [] := by
    rw [extractedFrom, extractedFrom, List.map_append, List.filter_append, List.flatMap_append]
    by_cases own : item.1.pid = pid <;> simp [TsPacket.has, own]
  apply Returns.bind (unpack_packet documented item.1)
  intro head fields
  have checks : state.checkPid head = .ok (decide (item.1.pid = pid)) := by
    unfold checkPid
    rw [fields.pid, ok_bind, wrote.own]
    exact congrArg Except.ok (decide_eq_decide.mpr Int.ofNat_inj)
  rw [checks, ok_bind]
  by_cases own : item.1.pid = pid
  · rw [if_neg (by simp [own])]
    apply Returns.bind (check_continuity_adds fields.eight state _)
    intro checked first
    apply Returns.bind (extract_adds fields checked _)
    intro extracted second
    refine .pure ⟨second.own.trans (first.own.trans wrote.own), ?_,
      second.counted (first.counted wrote.counted)⟩
    rw [concat, if_pos own, ← wrote.fout]
    exact second.fout.trans (by rw [first.fout, List.append_nil])
  · rw [if_pos (by simp [own])]
    refine .pure ⟨wrote.own, ?_, wrote.counted⟩
    rw [concat, if_neg own, List.append_nil, wrote.fout]

end ExtractPid

theorem ts_extract_wrote {unpack : Bytes → Py (List Nat)} (documented : UnpacksHead unpack)
    (packets : List TsPacket) (pid : Nat) :
    Returns (tsExtract unpack (streamOf packets) pid) fun final =>
      final.fout = extractedFrom pid packets ∧ final.bytesCnt = final.fout.length := by
  have fresh : ExtractPid.Wrote pid [] (ExtractPid.init pid) := ⟨rfl, rfl, rfl⟩
  rw [ts_extract_fold]
  apply (Returns.foldlM (ExtractPid.Wrote pid) (ExtractPid.call_wrote documented)
    packets.zipIdx fresh).weaken
  intro final wrote
  have fout := wrote.fout
  rw [List.nil_append, List.zipIdx_map_fst] at fout
  exact ⟨fout, wrote.counted⟩

/-- A PES packet whose header has a PTS and nothing else. -/
structure PesPacket where
  header : Bytes
  payload : Bytes
  fourteen : header.length = 14
  prefixed : header.take 3 = [0x00, 0x00, 0x01]
  ptsOnly : (header.getD 7 0).toNat &&& 0xC0 = 0x80
  headerData : header.getD 8 0 = 5

/-- The lengths an adaptation field may have without and with payload behind it. -/
def TsPacket.Legal (packet : TsPacket) : Prop :=
  packet.afc = 1 ∨ packet.afc = 2 ∧ packet.byte 4 = 183 ∨ packet.afc = 3 ∧ packet.byte 4 ≤ 182

instance (packet : TsPacket) : Decidable packet.Legal :=
  inferInstanceAs (Decidable (_ ∨ _ ∧ _ ∨ _ ∧ _))

def TsPacket.payloadBytes (packet : TsPacket) : Bytes := packet.payload.getD []

/-- The packets of a PID that carry payload. -/
def carriers (pid : Nat) (packets : List TsPacket) : List TsPacket :=
  packets.filter fun packet => packet.has pid && packet.payload.isSome

/-- Each PES packet begins with a unit start and goes on in packets that start no unit. -/
inductive SplitInto : List PesPacket → List TsPacket → Prop
  | none : SplitInto [] []
  | unit {pes : PesPacket} {others : List PesPacket} {first : TsPacket}
      {rest packets : List TsPacket} (starts : first.pusi = true)
      (continues : ∀ packet ∈ rest, packet.pusi = false)
      (split : (first :: rest).flatMap TsPacket.payloadBytes = pes.header ++ pes.payload)
      (after : SplitInto others packets) : SplitInto (pes :: others) (first :: rest ++ packets)

/-- The extractor has written the payloads and counted their bytes. -/
structure ExtractsPayloads (pes : List PesPacket) (final : ExtractPid) : Prop where
  fout : final.fout = pes.flatMap PesPacket.payload
  bytesCnt : final.bytesCnt = (pes.flatMap PesPacket.payload).length

/-- A unit start with an adaptation field in front of its payload. -/
def TsPacket.StartsBehindField (packet : TsPacket) : Prop := packet.pusi = true ∧ packet.afc = 3

instance (packet : TsPacket) : Decidable packet.StartsBehindField :=
  inferInstanceAs (Decidable (_ ∧ _))

section packet

variable {packet : TsPacket}

theorem payload_plain (plain : packet.afc = 1) : packet.payload = some (packet.bytes.drop 4) := by
  rw [TsPacket.payload, TsAnalyzer.payloadStart, plain]
  rfl

theorem payload_adapted (adapted : packet.afc = 3) (fits : packet.byte 4 ≤ 182) :
    packet.payload = some (packet.bytes.drop (4 + (1 + packet.byte 4))) := by
  have start : TsAnalyzer.payloadStart packet.bytes packet.afc = 4 + (1 + packet.byte 4) :=
    if_pos (.inr adapted)
  rw [TsPacket.payload, start, if_neg]
  · rfl
  · unfold tsSz
    omega

theorem payload_field_only (field : packet.afc = 2) : packet.payload = none :=
  if_pos (.inr (.inl field))

theorem carrier_cases (legal : packet.Legal) (carrier : packet.payload.isSome = true) :
    packet.afc = 1 ∨ packet.afc = 3 ∧ packet.byte 4 ≤ 182 := by
  obtain plain | ⟨field, _⟩ | adapted := legal
  · exact .inl plain
  · rw [payload_field_only field] at carrier
    cases carrier
  · exact .inr adapted

theorem extracted_silent (legal : packet.Legal) (silent : ¬packet.payload.isSome = true) :
    packet.extracted = [] := by
  obtain plain | ⟨field, _⟩ | ⟨adapted, fits⟩ := legal
  · rw [payload_plain plain] at silent
    exact absurd rfl silent
  · rw [TsPacket.extracted, if_neg (by omega), if_neg (by omega)]
  · rw [payload_adapted adapted fits] at silent
    exact absurd rfl silent

/-- A packet that goes on with a PES packet writes its payload. -/
theorem extracted_continuing (legal : packet.Legal) (carrier : packet.payload.isSome = true)
    (continues : packet.pusi = false) : packet.extracted = packet.payloadBytes := by
  cases carrier_cases legal carrier with
  | inl plain =>
      rw [TsPacket.payloadBytes, payload_plain plain, TsPacket.extracted, if_pos plain, continues]
      rfl
  | inr adapted =>
      rw [TsPacket.payloadBytes, payload_adapted adapted.1 adapted.2, TsPacket.extracted,
        if_neg (by omega), if_pos ⟨adapted.1, by unfold tsDataSz; omega⟩]
      rfl

/-- Behind an adaptation field the header of a PES packet is written with the rest. -/
theorem extracted_behind_field (legal : packet.Legal) (behind : packet.StartsBehindField) :
    packet.extracted = packet.payloadBytes := by
  have adapted := behind.2
  have fits : packet.byte 4 ≤ 182 := by
    obtain plain | ⟨field, _⟩ | ⟨_, fits⟩ := legal
    · omega
    · omega
    · exact fits
  rw [TsPacket.payloadBytes, payload_adapted adapted fits, TsPacket.extracted,
    if_neg (by omega), if_pos ⟨adapted, by unfold tsDataSz; omega⟩]
  rfl

/-- Without an adaptation field the header fits into the first packet and is skipped. -/
theorem extracted_start (legal : packet.Legal) (carrier : packet.payload.isSome = true)
    (starts : packet.pusi = true) (plain : ¬packet.StartsBehindField) :
    14 ≤ packet.payloadBytes.length ∧ packet.extracted = packet.payloadBytes.drop 14 := by
  cases carrier_cases legal carrier with
  | inl payloadOnly =>
      have whole := packet.whole
      unfold tsSz at whole
      rw [TsPacket.payloadBytes, payload_plain payloadOnly, TsPacket.extracted,
        if_pos payloadOnly, starts, Option.getD_some, List.length_drop, List.drop_drop]
      exact ⟨by omega, rfl⟩
  | inr adapted => exact absurd ⟨starts, adapted.1⟩ plain

end packet

section split

variable {pes : List PesPacket} {packets : List TsPacket}

theorem extracted_rest {rest : List TsPacket}
    (legal : ∀ packet ∈ rest, packet.Legal ∧ packet.payload.isSome = true)
    (continues : ∀ packet ∈ rest, packet.pusi = false) :
    rest.flatMap TsPacket.extracted = rest.flatMap TsPacket.payloadBytes := by
  induction rest with
  | nil => rfl
  | cons packet rest ih =>
      obtain ⟨shape, carrier⟩ := legal packet List.mem_cons_self
      rw [List.flatMap_cons, List.flatMap_cons,
        extracted_continuing shape carrier (continues packet List.mem_cons_self),
        ih (fun other member => legal other (List.mem_cons_of_mem _ member))
          fun other member => continues other (List.mem_cons_of_mem _ member)]

/-- One PES packet: its payload, with the header in front if it starts behind an
adaptation field. -/
theorem extracted_unit {unit : PesPacket} {first : TsPacket} {rest : List TsPacket}
    (legal : ∀ packet ∈ first :: rest, packet.Legal ∧ packet.payload.isSome = true)
    (starts : first.pusi = true) (continues : ∀ packet ∈ rest, packet.pusi = false)
    (split : (first :: rest).flatMap TsPacket.payloadBytes = unit.header ++ unit.payload) :
    (first :: rest).flatMap TsPacket.extracted =
      (if first.StartsBehindField then unit.header else []) ++ unit.payload := by
  obtain ⟨shape, carrier⟩ := legal first List.mem_cons_self
  have following := extracted_rest
    (fun packet member => legal packet (List.mem_cons_of_mem _ member)) continues
  rw [List.flatMap_cons] at split
  rw [List.flatMap_cons, following]
  split_ifs with behind
  · rw [extracted_behind_field shape behind, split]
  · obtain ⟨room, written⟩ := extracted_start shape carrier starts behind
    have tail := congrArg (List.drop 14) split
    rw [List.drop_append_of_le_length room,
      List.drop_append_of_le_length (Nat.le_of_eq unit.fourteen.symm),
      List.drop_of_length_le (Nat.le_of_eq unit.fourteen)] at tail
    rw [written, tail]

/-- The unit starts whose headers are written. -/
def keptHeaders (packets : List TsPacket) : Nat :=
  packets.countP fun packet => packet.StartsBehindField

theorem kept_headers_unit (first : TsPacket) {rest : List TsPacket}
    (continues : ∀ packet ∈ rest, packet.pusi = false) :
    keptHeaders (first :: rest) = if first.StartsBehindField then 1 else 0 := by
  have none : keptHeaders rest = 0 := by
    rw [keptHeaders, List.countP_eq_zero]
    intro packet member behind
    have starts := (of_decide_eq_true behind).1
    rw [continues packet member] at starts
    cases starts
  rw [keptHeaders, List.countP_cons]
  change keptHeaders rest + _ = _
  rw [none, Nat.zero_add]
  simp

theorem split_length (split : SplitInto pes packets)
    (legal : ∀ packet ∈ packets, packet.Legal ∧ packet.payload.isSome = true) :
    (packets.flatMap TsPacket.extracted).length =
      (pes.flatMap PesPacket.payload).length + 14 * keptHeaders packets := by
  induction split with
  | none => rfl
  | @unit unit others first rest packets starts continues bytes after ih =>
      have written := extracted_unit
        (fun packet member => legal packet (List.mem_append_left _ member)) starts continues bytes
      have later := ih fun packet member => legal packet (List.mem_append_right _ member)
      have here := kept_headers_unit first continues
      have counted : keptHeaders (first :: rest ++ packets) =
          keptHeaders (first :: rest) + keptHeaders packets := List.countP_append
      rw [List.flatMap_append, List.length_append, written, later, counted, here,
        List.flatMap_cons, List.length_append, List.length_append]
      split_ifs
      · rw [unit.fourteen]
        omega
      · rw [List.length_nil]
        omega

theorem split_extracted (split : SplitInto pes packets)
    (legal : ∀ packet ∈ packets, packet.Legal ∧ packet.payload.isSome = true)
    (plain : ∀ packet ∈ packets, ¬packet.StartsBehindField) :
    packets.flatMap TsPacket.extracted = pes.flatMap PesPacket.payload := by
  induction split with
  | none => rfl
  | @unit unit others first rest packets starts continues bytes after ih =>
      have written := extracted_unit
        (fun packet member => legal packet (List.mem_append_left _ member)) starts continues bytes
      have later := ih (fun packet member => legal packet (List.mem_append_right _ member))
        fun packet member => plain packet (List.mem_append_right _ member)
      have firstPlain := plain first (List.mem_append_left _ List.mem_cons_self)
      rw [List.flatMap_append, written, later, if_neg firstPlain, List.flatMap_cons]
      rfl

theorem split_extracted_iff (split : SplitInto pes packets)
    (legal : ∀ packet ∈ packets, packet.Legal ∧ packet.payload.isSome = true) :
    packets.flatMap TsPacket.extracted = pes.flatMap PesPacket.payload ↔
      ∀ packet ∈ packets, ¬packet.StartsBehindField := by
  constructor
  · intro same packet member behind
    have length := split_length split legal
    rw [same] at length
    have counted : 0 < keptHeaders packets :=
      List.countP_pos_iff.mpr ⟨packet, member, decide_eq_true behind⟩
    omega
  · exact split_extracted split legal

end split

theorem mem_carriers {pid : Nat} {packets : List TsPacket} {packet : TsPacket} :
    packet ∈ carriers pid packets ↔
      packet ∈ packets ∧ packet.pid = pid ∧ packet.payload.isSome = true := by
  simp [carriers, TsPacket.has]

/-- Packets without payload write nothing. -/
theorem extracted_carriers {pid : Nat} {packets : List TsPacket}
    (legal : ∀ packet ∈ packets, packet.pid = pid → packet.Legal) :
    extractedFrom pid packets = (carriers pid packets).flatMap TsPacket.extracted := by
  induction packets with
  | nil => rfl
  | cons packet rest ih =>
      have later := ih fun other member => legal other (List.mem_cons_of_mem _ member)
      unfold extractedFrom carriers at later ⊢
      by_cases own : packet.pid = pid
      · have here : packet.has pid = true := decide_eq_true own
        rw [List.filter_cons_of_pos here, List.flatMap_cons, later]
        by_cases carrier : packet.payload.isSome = true
        · rw [List.filter_cons_of_pos (by rw [here, carrier]; rfl), List.flatMap_cons]
        · rw [List.filter_cons_of_neg (by simp [carrier]),
            extracted_silent (legal packet List.mem_cons_self own) carrier, List.nil_append]
      · have elsewhere : ¬packet.has pid = true := by simpa [TsPacket.has] using own
        rw [List.filter_cons_of_neg elsewhere, List.filter_cons_of_neg (by simp [elsewhere]), later]

/-- A unit start behind an adaptation field always has payload. -/
theorem starts_behind_carriers {pid : Nat} {packets : List TsPacket}
    (legal : ∀ packet ∈ packets, packet.pid = pid → packet.Legal) :
    (∀ packet ∈ carriers pid packets, ¬packet.StartsBehindField) ↔
      ∀ packet ∈ packets, packet.pid = pid → ¬packet.StartsBehindField := by
  constructor
  · intro none packet member own behind
    apply none packet _ behind
    rw [mem_carriers]
    refine ⟨member, own, ?_⟩
    have adapted := behind.2
    obtain plain | ⟨field, _⟩ | ⟨_, fits⟩ := legal packet member own
    · omega
    · omega
    · rw [payload_adapted adapted fits]
      rfl
  · intro none packet member
    obtain ⟨present, own, _⟩ := mem_carriers.mp member
    exact none packet present own

theorem ts_extract_payloads {unpack : Bytes → Py (List Nat)} (documented : UnpacksHead unpack)
    (packets : List TsPacket) (pid : Nat) (pes : List PesPacket)
    (legal : ∀ packet ∈ packets, packet.pid = pid → packet.Legal)
    (split : SplitInto pes (carriers pid packets)) :
    Returns (tsExtract unpack (streamOf packets) pid) (ExtractsPayloads pes) ↔
      ∀ packet ∈ packets, packet.pid = pid → ¬packet.StartsBehindField := by
  have shapes (packet : TsPacket) (member : packet ∈ carriers pid packets) :
      packet.Legal ∧ packet.payload.isSome = true := by
    obtain ⟨present, own, carrier⟩ := mem_carriers.mp member
    exact ⟨legal packet present own, carrier⟩
  obtain ⟨final, returned, fout, counted⟩ := ts_extract_wrote documented packets pid
  rw [extracted_carriers legal] at fout
  rw [← starts_behind_carriers legal, ← split_extracted_iff split shapes]
  constructor
  · rintro ⟨same, sameReturned, extracts⟩
    obtain rfl : same = final := Except.ok.inj (sameReturned.symm.trans returned)
    rw [← fout]
    exact extracts.fout
  · intro written
    rw [written] at fout
    exact ⟨final, returned, fout, by rw [counted, fout]⟩

/-- One PES packet whose payload fills up a packet without adaptation field. -/
def stuffedPes (count : Nat) : PesPacket where
  header := videoStart
  payload := List.replicate count 0xFF
  fourteen := by decide
  prefixed := by decide
  ptsOnly := by decide
  headerData := by decide

/-- The same one with ten bytes more in another packet. -/
def carriedPes : PesPacket where
  header := videoStart
  payload := List.replicate 170 0xFF ++ List.replicate 10 0xAA
  fourteen := by decide
  prefixed := by decide
  ptsOnly := by decide
  headerData := by decide

/-- Ten bytes of payload behind stuffing. -/
def stuffedTail : TsPacket where
  bytes := [0x47, 0x01, 0x00, 0x31, 0xAD, 0x00] ++ List.replicate 172 0xFF ++
    List.replicate 10 0xAA
  whole := rfl
  synced := by rfl

/-- Two units and a packet of another PID. -/
def stuffedStream : List TsPacket :=
  [videoPacket 0x100, videoPacket 0x200, stuffedTail, videoPacket 0x100]

theorem ts_extract_payloads_stuffed :
    Returns (tsExtract unpackFour (streamOf stuffedStream) (0x100 : Nat))
      (ExtractsPayloads [carriedPes, stuffedPes 170]) := by
  have documented : UnpacksHead unpackFour := fun _ _ _ _ => rfl
  have own : carriers 0x100 stuffedStream =
      [videoPacket 0x100, stuffedTail] ++ ([videoPacket 0x100] ++ []) := by decide +kernel
  have split : SplitInto [carriedPes, stuffedPes 170] (carriers 0x100 stuffedStream) := by
    rw [own]
    apply SplitInto.unit (by decide +kernel)
    · decide +kernel
    · decide +kernel
    · exact .unit (by decide +kernel) (fun _ member => absurd member List.not_mem_nil)
        (by decide +kernel) .none
  exact (ts_extract_payloads documented stuffedStream 0x100 [carriedPes, stuffedPes 170]
    (by decide +kernel) split).mpr (by decide +kernel)

/-- A video packet with a clock reference has an adaptation field in front of the PES
header. -/
def adaptedVideoPacket : TsPacket where
  bytes := [0x47, 0x41, 0x00, 0x30, 0x01, 0x00] ++ videoStart ++ List.replicate 168 0xFF
  whole := rfl
  synced := by rfl

theorem ts_extract_writes_header :
    UnpacksHead unpackFour ∧ (∀ packet ∈ [adaptedVideoPacket], packet.pid = 0x100 → packet.Legal) ∧
      SplitInto [stuffedPes 168] (carriers 0x100 [adaptedVideoPacket]) ∧
      ¬Returns (tsExtract unpackFour (streamOf [adaptedVideoPacket]) (0x100 : Nat))
        (ExtractsPayloads [stuffedPes 168]) := by
  have own : carriers 0x100 [adaptedVideoPacket] = [adaptedVideoPacket] ++ [] := by decide +kernel
  refine ⟨fun _ _ _ _ => rfl, by decide +kernel, ?_, ?_⟩
  · rw [own]
    exact .unit (by decide +kernel) (fun _ member => absurd member List.not_mem_nil)
      (by decide +kernel) .none
  · rintro ⟨final, returned, extracts⟩
    have counted : (tsExtract unpackFour (streamOf [adaptedVideoPacket]) (0x100 : Nat)).map
        ExtractPid.bytesCnt = .ok 182 := by decide +kernel
    rw [returned] at counted
    have bytes : final.bytesCnt = 182 := Except.ok.inj counted
    have expected := extracts.bytesCnt
    rw [bytes] at expected
    exact absurd expected (by decide +kernel)

end Testings.MpegTs
