import Mathlib.Data.List.Induction
import Testings.BitFields
import Testings.HistoryLog
import Testings.MpegTsAnalyzer

/-!
# Program tables

PAT and PMT sections as they lie in the payload of a packet, and what `parse_pat`
and `parse_pmt` read back from them. Reserved bits, the fixed header, the CRC and
the bytes behind the section are arbitrary, since the tables must come out the
same whatever they are.
-/

set_option autoImplicit false

namespace Testings.MpegTs

open Python
open HistoryLog

/-- A number of `top + 8` bits under the reserved bits of its first byte. -/
def fieldBytes (top reserved field : Nat) : Bytes :=
  [BitVec.ofNat 8 (reserved * 2 ^ top + field / 2 ^ 8), BitVec.ofNat 8 field]

/-- A 12-bit length and the bytes it counts. -/
structure Descriptors where
  reserved : BitVec 4
  bytes : Bytes
  fits : bytes.length < 2 ^ 12

def Descriptors.encode (descriptors : Descriptors) : Bytes :=
  fieldBytes 4 descriptors.reserved.toNat descriptors.bytes.length ++ descriptors.bytes

structure PatEntry where
  program : BitVec 16
  reserved : BitVec 3
  pid : BitVec 13

/-- Program number 0 is for the network information table. -/
def PatEntry.forProgram (entry : PatEntry) : Bool := decide (entry.program ≠ 0)

def PatEntry.encode (entry : PatEntry) : Bytes :=
  fieldBytes 8 0 entry.program.toNat ++ fieldBytes 5 entry.reserved.toNat entry.pid.toNat

structure PmtEntry where
  streamType : BitVec 8
  reserved : BitVec 3
  pid : BitVec 13
  esInfo : Descriptors

def PmtEntry.stream (entry : PmtEntry) : Stream :=
  ⟨entry.streamType.toNat, streamTypes entry.streamType.toNat⟩

def PmtEntry.line (entry : PmtEntry) : Line :=
  .found entry.pid.toNat entry.stream.streamType entry.stream.type

def PmtEntry.encode (entry : PmtEntry) : Bytes :=
  entry.streamType ::
    (fieldBytes 5 entry.reserved.toNat entry.pid.toNat ++ entry.esInfo.encode)

/-- What lies around the contents of a section: the pointer's filler, the bits next to
`section_length`, the identifier, version and numbers, the CRC, and the stuffing. -/
structure Carrier where
  filler : Bytes
  indicator : BitVec 4
  header : Bytes
  headerWhole : header.length = 5
  crc : Bytes
  crcWhole : crc.length = 4
  stuffing : Bytes

/-- The payload that starts with `pointer_field`. -/
def Carrier.payload (carrier : Carrier) (tableId : BitVec 8) (contents : Bytes) : Bytes :=
  BitVec.ofNat 8 carrier.filler.length :: carrier.filler ++
    (tableId :: (fieldBytes 4 carrier.indicator.toNat (5 + contents.length + 4) ++
      (carrier.header ++ (contents ++ (carrier.crc ++ carrier.stuffing)))))

/-- Everything before the contents. -/
def Carrier.front (carrier : Carrier) (tableId : BitVec 8) (contents : Bytes) : Bytes :=
  BitVec.ofNat 8 carrier.filler.length :: carrier.filler ++
    (tableId :: (fieldBytes 4 carrier.indicator.toNat (5 + contents.length + 4) ++
      carrier.header))

def patPayload (carrier : Carrier) (entries : List PatEntry) : Bytes :=
  carrier.payload 0x00 (entries.flatMap PatEntry.encode)

structure Pmt where
  reserved : BitVec 3
  pcrPid : BitVec 13
  programInfo : Descriptors
  entries : List PmtEntry

def Pmt.contents (pmt : Pmt) : Bytes :=
  fieldBytes 5 pmt.reserved.toNat pmt.pcrPid.toNat ++
    (pmt.programInfo.encode ++ pmt.entries.flatMap PmtEntry.encode)

def pmtPayload (carrier : Carrier) (pmt : Pmt) : Bytes := carrier.payload 0x02 pmt.contents

namespace TsAnalyzer

theorem field_bytes_length (top reserved field : Nat) :
    (fieldBytes top reserved field).length = 2 :=
  rfl

theorem word_append (before rest : Bytes) (mask position : Nat) :
    word (before ++ rest) mask (before.length + position) = word rest mask position := by
  unfold word
  rw [Nat.add_assoc, index_append, index_append]

theorem word_behind {before : Bytes} {position : Nat} (length : before.length = position)
    (rest : Bytes) (mask : Nat) : word (before ++ rest) mask position = word rest mask 0 := by
  rw [← length]
  exact word_append before rest mask 0

theorem word_field (top reserved : Nat) {field : Nat} (narrow : top ≤ 8)
    (fits : field < 2 ^ (top + 8)) (after : Bytes) :
    word (fieldBytes top reserved field ++ after) (2 ^ top - 1) 0 = .ok field := by
  have high : field / 2 ^ 8 < 2 ^ top := by
    rw [Nat.div_lt_iff_lt_mul (by decide), ← Nat.pow_add]
    exact fits
  have low : field % 2 ^ 8 < 2 ^ 8 := Nat.mod_lt _ (by decide)
  have masked : (reserved * 2 ^ top + field / 2 ^ 8) % 2 ^ 8 &&& (2 ^ top - 1) = field / 2 ^ 8 := by
    rw [BitFields.mask_mod, Nat.mod_mod_of_dvd _ (Nat.pow_dvd_pow 2 narrow), ← BitFields.mask_mod,
      BitFields.masked_field top high]
  change Except.ok ((((reserved * 2 ^ top + field / 2 ^ 8) % 2 ^ 8 &&& (2 ^ top - 1)) <<< 8) |||
    field % 2 ^ 8) = _
  rw [masked, BitFields.shift_or 8 low, Nat.div_add_mod']

theorem word_descriptors (descriptors : Descriptors) (after : Bytes) :
    word (descriptors.encode ++ after) 0x0F 0 = .ok descriptors.bytes.length := by
  rw [Descriptors.encode, List.append_assoc]
  exact word_field 4 _ (by decide) descriptors.fits _

theorem descriptors_length (descriptors : Descriptors) :
    descriptors.encode.length = 2 + descriptors.bytes.length := by
  rw [Descriptors.encode, List.length_append, field_bytes_length]

def selectProgram (self : TsAnalyzer) (entries : List PatEntry) : TsAnalyzer :=
  match entries.find? PatEntry.forProgram with
  | none => self
  | some entry => { self with
      pmtPid := some entry.pid.toNat
      printed := self.printed ++ [.pmtPid entry.pid.toNat] }

theorem select_program_cons (self : TsAnalyzer) (entry : PatEntry) (rest : List PatEntry) :
    self.selectProgram (entry :: rest) =
      if entry.program.toNat ≠ 0 then { self with
          pmtPid := some entry.pid.toNat
          printed := self.printed ++ [.pmtPid entry.pid.toNat] }
      else self.selectProgram rest := by
  cases kind : entry.forProgram with
  | false =>
      have zero : entry.program = 0 := not_not.mp (of_decide_eq_false kind)
      have passed : ¬entry.forProgram = true := by simp [kind]
      rw [selectProgram, List.find?_cons_of_neg passed, if_neg (by simp [zero])]
      rfl
  | true =>
      have nonzero : entry.program.toNat ≠ 0 := fun zero =>
        of_decide_eq_true kind (BitVec.eq_of_toNat_eq zero)
      rw [selectProgram, List.find?_cons_of_pos kind, if_pos nonzero]

theorem pat_entry_read (entry : PatEntry) (before after : Bytes) :
    word (before ++ (entry.encode ++ after)) 0xFF before.length = .ok entry.program.toNat ∧
      word (before ++ (entry.encode ++ after)) 0x1F (before.length + 2) = .ok entry.pid.toNat := by
  rw [PatEntry.encode, List.append_assoc]
  constructor
  · rw [word_behind rfl]
    exact word_field 8 0 (by decide) entry.program.isLt _
  · rw [word_append, word_behind (field_bytes_length ..)]
    exact word_field 5 entry.reserved.toNat (by decide) entry.pid.isLt after

theorem pat_programs_encoded (self : TsAnalyzer) (entries : List PatEntry) (before after : Bytes) :
    self.patPrograms (before ++ (entries.flatMap PatEntry.encode ++ after))
        (before.length + (entries.flatMap PatEntry.encode).length) before.length =
      .ok (self.selectProgram entries) := by
  induction entries generalizing before with
  | nil =>
      unfold patPrograms
      rw [if_neg (by simp)]
      rfl
  | cons entry rest ih =>
      have width : entry.encode.length = 4 := rfl
      have longer : (before ++ entry.encode).length = before.length + 4 := by
        rw [List.length_append, width]
      obtain ⟨program, pid⟩ :=
        pat_entry_read entry before (rest.flatMap PatEntry.encode ++ after)
      have next := ih (before ++ entry.encode)
      rw [longer, List.append_assoc] at next
      unfold patPrograms
      rw [List.flatMap_cons, List.append_assoc, List.length_append, width,
        if_pos (by omega), program, pid, ← Nat.add_assoc, next]
      rw [select_program_cons]
      exact (apply_ite Except.ok _ _ _).symm

def foundStream (self : TsAnalyzer) (entry : PmtEntry) : TsAnalyzer :=
  { self with
    streams := self.streams.assign entry.pid.toNat entry.stream
    printed := self.printed ++ [entry.line] }

theorem pmt_entry_length (entry : PmtEntry) :
    entry.encode.length = 5 + entry.esInfo.bytes.length := by
  rw [PmtEntry.encode, List.length_cons, List.length_append, field_bytes_length,
    descriptors_length]
  omega

theorem pmt_entry_read (entry : PmtEntry) (before after : Bytes) :
    index (before ++ (entry.encode ++ after)) before.length = .ok entry.streamType.toNat ∧
      word (before ++ (entry.encode ++ after)) 0x1F (before.length + 1) = .ok entry.pid.toNat ∧
      word (before ++ (entry.encode ++ after)) 0x0F (before.length + 3) =
        .ok entry.esInfo.bytes.length := by
  have split : entry.encode ++ after =
      ([entry.streamType] ++ fieldBytes 5 entry.reserved.toNat entry.pid.toNat) ++
        (entry.esInfo.encode ++ after) := by
    simp [PmtEntry.encode]
  rw [split]
  refine ⟨index_append before _ 0, ?_, ?_⟩
  · rw [word_append, List.append_assoc, word_behind (List.length_singleton)]
    exact word_field 5 entry.reserved.toNat (by decide) entry.pid.isLt _
  · rw [word_append, word_behind (by rw [List.length_append, field_bytes_length]; rfl)]
    exact word_descriptors entry.esInfo after

theorem pmt_streams_encoded (self : TsAnalyzer) (entries : List PmtEntry) (before after : Bytes) :
    self.pmtStreams (before ++ (entries.flatMap PmtEntry.encode ++ after))
        (before.length + (entries.flatMap PmtEntry.encode).length) before.length =
      .ok (entries.foldl foundStream self) := by
  induction entries generalizing before self with
  | nil =>
      unfold pmtStreams
      rw [if_neg (by simp)]
      rfl
  | cons entry rest ih =>
      have width := pmt_entry_length entry
      have longer : (before ++ entry.encode).length =
          before.length + 5 + entry.esInfo.bytes.length := by
        rw [List.length_append, width, Nat.add_assoc]
      obtain ⟨streamType, pid, esInfoLength⟩ :=
        pmt_entry_read entry before (rest.flatMap PmtEntry.encode ++ after)
      have next := ih (self.foundStream entry) (before ++ entry.encode)
      rw [longer, List.append_assoc] at next
      have last : before.length + (entry.encode.length + (rest.flatMap PmtEntry.encode).length) =
          before.length + 5 + entry.esInfo.bytes.length +
            (rest.flatMap PmtEntry.encode).length := by
        omega
      unfold pmtStreams
      rw [List.flatMap_cons, List.append_assoc, List.length_append,
        if_pos (by omega), streamType, pid, esInfoLength, last]
      exact next

theorem found_streams (self : TsAnalyzer) (entries : List PmtEntry) :
    ∃ streams : Dict Nat Stream,
      entries.foldl foundStream self = { self with
          streams := streams
          printed := self.printed ++ entries.map PmtEntry.line } ∧
        ∀ pid, streams.get? pid =
          ((latest (fun entry : PmtEntry => entry.pid.toNat = pid) entries).map
            PmtEntry.stream).or (self.streams.get? pid) := by
  induction entries using List.reverseRecOn with
  | nil => exact ⟨self.streams, by simp, fun pid => rfl⟩
  | append_singleton before entry ih =>
      obtain ⟨streams, same, listed⟩ := ih
      refine ⟨streams.assign entry.pid.toNat entry.stream, ?_, ?_⟩
      · simp only [List.foldl_append, same, List.foldl_cons, List.foldl_nil, foundStream,
          List.map_append, List.map_cons, List.map_nil, List.append_assoc]
      · intro pid
        rw [Dict.get_assign, latest_concat, listed]
        by_cases here : entry.pid.toNat = pid
        · simp [here]
        · simp [here]

section carrier

variable (carrier : Carrier) (tableId : BitVec 8) (contents : Bytes)

theorem carrier_split :
    carrier.payload tableId contents =
      carrier.front tableId contents ++ (contents ++ (carrier.crc ++ carrier.stuffing)) := by
  simp [Carrier.payload, Carrier.front]

theorem carrier_front_length :
    (carrier.front tableId contents).length = 1 + carrier.filler.length + 8 := by
  simp only [Carrier.front, List.length_append, List.length_cons, field_bytes_length,
    carrier.headerWhole]
  omega

theorem carrier_length : (carrier.payload tableId contents).length =
    1 + carrier.filler.length + 8 + contents.length + 4 + carrier.stuffing.length := by
  rw [carrier_split, List.length_append, List.length_append, List.length_append,
    carrier_front_length, carrier.crcWhole]
  omega

theorem carrier_table :
    index (carrier.payload tableId contents) (1 + carrier.filler.length) = .ok tableId.toNat := by
  rw [Nat.add_comm]
  exact index_append (BitVec.ofNat 8 carrier.filler.length :: carrier.filler) _ 0

variable {tableId contents}

theorem carrier_pointer (fits : (carrier.payload tableId contents).length ≤ tsSz - 4) :
    index (carrier.payload tableId contents) 0 = .ok carrier.filler.length := by
  rw [carrier_length] at fits
  have small : carrier.filler.length < 2 ^ 8 := by
    unfold tsSz at fits
    omega
  change Except.ok (carrier.filler.length % 2 ^ 8) = _
  rw [Nat.mod_eq_of_lt small]

theorem carrier_section_length (fits : (carrier.payload tableId contents).length ≤ tsSz - 4) :
    word (carrier.payload tableId contents) 0x0F (1 + carrier.filler.length + 1) =
      .ok (5 + contents.length + 4) := by
  rw [carrier_length] at fits
  have small : 5 + contents.length + 4 < 2 ^ (4 + 8) := by
    unfold tsSz at fits
    omega
  have front : (BitVec.ofNat 8 carrier.filler.length :: carrier.filler ++ [tableId]).length =
      1 + carrier.filler.length + 1 := by
    rw [List.length_append, List.length_cons, List.length_singleton, Nat.add_comm 1]
  have split : carrier.payload tableId contents =
      (BitVec.ofNat 8 carrier.filler.length :: carrier.filler ++ [tableId]) ++
        (fieldBytes 4 carrier.indicator.toNat (5 + contents.length + 4) ++
          (carrier.header ++ (contents ++ (carrier.crc ++ carrier.stuffing)))) := by
    simp [Carrier.payload]
  rw [split, word_behind front]
  exact word_field 4 _ (by decide) small _

theorem carrier_last :
    min (1 + carrier.filler.length + 3 + (5 + contents.length + 4) - 4)
        (carrier.payload tableId contents).length =
      (carrier.front tableId contents).length + contents.length := by
  rw [carrier_length, carrier_front_length]
  omega

end carrier

theorem parse_pat_encoded (self : TsAnalyzer) (carrier : Carrier) (entries : List PatEntry)
    (fits : (patPayload carrier entries).length ≤ tsSz - 4) :
    self.parsePat (patPayload carrier entries) true = .ok (self.selectProgram entries) := by
  have programs := self.pat_programs_encoded entries
    (carrier.front 0x00 (entries.flatMap PatEntry.encode)) (carrier.crc ++ carrier.stuffing)
  rw [← carrier_split, ← carrier_last, carrier_front_length] at programs
  have length := carrier_length carrier 0x00 (entries.flatMap PatEntry.encode)
  have started : ¬(true = false ∨ patPayload carrier entries = []) := by
    simp [patPayload, Carrier.payload]
  have long : ¬(patPayload carrier entries).length < 1 + carrier.filler.length + 8 := by
    unfold patPayload
    omega
  unfold parsePat
  rw [if_neg started]
  unfold patPayload at fits long ⊢
  rw [carrier_pointer carrier fits, ok_bind]
  simp only [carrier_table, carrier_section_length carrier fits, ok_bind, if_neg long]
  exact programs

section pmt

variable (carrier : Carrier) (pmt : Pmt)

/-- Everything before the entries. -/
def pmtFront : Bytes :=
  carrier.front 0x02 pmt.contents ++
    (fieldBytes 5 pmt.reserved.toNat pmt.pcrPid.toNat ++ pmt.programInfo.encode)

theorem pmt_split : pmtPayload carrier pmt =
    pmtFront carrier pmt ++
      (pmt.entries.flatMap PmtEntry.encode ++ (carrier.crc ++ carrier.stuffing)) := by
  rw [pmtPayload, carrier_split]
  simp [pmtFront, Pmt.contents]

theorem pmt_front_length : (pmtFront carrier pmt).length =
    1 + carrier.filler.length + (12 + pmt.programInfo.bytes.length) := by
  rw [pmtFront, List.length_append, List.length_append, carrier_front_length, field_bytes_length,
    descriptors_length]
  omega

theorem pmt_contents_length : pmt.contents.length =
    4 + pmt.programInfo.bytes.length + (pmt.entries.flatMap PmtEntry.encode).length := by
  rw [Pmt.contents, List.length_append, List.length_append, field_bytes_length,
    descriptors_length]
  omega

theorem pmt_pcr_pid : word (pmtPayload carrier pmt) 0x1F (1 + carrier.filler.length + 8) =
    .ok pmt.pcrPid.toNat := by
  rw [pmtPayload, carrier_split, word_behind (carrier_front_length ..), Pmt.contents,
    List.append_assoc]
  exact word_field 5 _ (by decide) pmt.pcrPid.isLt _

theorem pmt_program_info_length :
    word (pmtPayload carrier pmt) 0x0F (1 + carrier.filler.length + 10) =
      .ok pmt.programInfo.bytes.length := by
  have front : (carrier.front 0x02 pmt.contents ++
      fieldBytes 5 pmt.reserved.toNat pmt.pcrPid.toNat).length =
        1 + carrier.filler.length + 10 := by
    rw [List.length_append, carrier_front_length, field_bytes_length]
  have split : pmtPayload carrier pmt =
      (carrier.front 0x02 pmt.contents ++ fieldBytes 5 pmt.reserved.toNat pmt.pcrPid.toNat) ++
        (pmt.programInfo.encode ++
          (pmt.entries.flatMap PmtEntry.encode ++ (carrier.crc ++ carrier.stuffing))) := by
    rw [pmt_split]
    simp [pmtFront]
  rw [split, word_behind front]
  exact word_descriptors pmt.programInfo _

theorem parse_pmt_encoded (self : TsAnalyzer)
    (fits : (pmtPayload carrier pmt).length ≤ tsSz - 4) :
    self.parsePmt (pmtPayload carrier pmt) true =
      .ok (pmt.entries.foldl foundStream { self with
        pcrPid := some pmt.pcrPid.toNat
        printed := self.printed ++ [.pcrPid pmt.pcrPid.toNat] }) := by
  have streams := pmt_streams_encoded { self with
      pcrPid := some pmt.pcrPid.toNat
      printed := self.printed ++ [.pcrPid pmt.pcrPid.toNat] } pmt.entries
    (pmtFront carrier pmt) (carrier.crc ++ carrier.stuffing)
  have last : (pmtFront carrier pmt).length + (pmt.entries.flatMap PmtEntry.encode).length =
      (carrier.front 0x02 pmt.contents).length + pmt.contents.length := by
    rw [pmt_front_length, carrier_front_length, pmt_contents_length]
    omega
  rw [← pmt_split, last, ← carrier_last, pmt_front_length] at streams
  have length := carrier_length carrier 0x02 pmt.contents
  have contents := pmt_contents_length pmt
  have started : ¬(true = false ∨ pmtPayload carrier pmt = []) := by
    simp [pmtPayload, Carrier.payload]
  have long : ¬(pmtPayload carrier pmt).length < 1 + carrier.filler.length + 12 := by
    unfold pmtPayload
    omega
  have pcrPid := pmt_pcr_pid carrier pmt
  have programInfoLength := pmt_program_info_length carrier pmt
  unfold parsePmt
  rw [if_neg started]
  unfold pmtPayload at fits long pcrPid programInfoLength ⊢
  rw [carrier_pointer carrier fits, ok_bind]
  simp only [carrier_table, carrier_section_length carrier fits, pcrPid, programInfoLength,
    ok_bind, if_neg long]
  exact streams

end pmt

/-- A table that fits the payload of a packet is read as it was written. -/
theorem tables_decoded (self : TsAnalyzer) (carrier : Carrier) :
    (∀ entries : List PatEntry, (patPayload carrier entries).length ≤ tsSz - 4 →
      self.parsePat (patPayload carrier entries) true = .ok
        (match entries.find? PatEntry.forProgram with
        | none => self
        | some entry => { self with
            pmtPid := some entry.pid.toNat
            printed := self.printed ++ [.pmtPid entry.pid.toNat] })) ∧
      ∀ pmt : Pmt, (pmtPayload carrier pmt).length ≤ tsSz - 4 →
        ∃ streams : Dict Nat Stream,
          self.parsePmt (pmtPayload carrier pmt) true = .ok { self with
              pcrPid := some pmt.pcrPid.toNat
              streams := streams
              printed := self.printed ++
                .pcrPid pmt.pcrPid.toNat :: pmt.entries.map PmtEntry.line } ∧
            ∀ pid, streams.get? pid =
              ((latest (fun entry : PmtEntry => entry.pid.toNat = pid) pmt.entries).map
                PmtEntry.stream).or (self.streams.get? pid) := by
  constructor
  · intro entries fits
    exact self.parse_pat_encoded carrier entries fits
  · intro pmt fits
    obtain ⟨streams, found, listed⟩ := found_streams { self with
        pcrPid := some pmt.pcrPid.toNat
        printed := self.printed ++ [.pcrPid pmt.pcrPid.toNat] } pmt.entries
    refine ⟨streams, ?_, listed⟩
    rw [parse_pmt_encoded carrier pmt self fits, found, List.append_assoc]
    rfl

end TsAnalyzer

/-- One filler byte before the section, and stuffing behind it. -/
def sampleCarrier : Carrier where
  filler := [0x00]
  indicator := 0xB
  header := [0x00, 0x01, 0xC1, 0x00, 0x00]
  headerWhole := rfl
  crc := [0x2A, 0xB1, 0x04, 0xB2]
  crcWhole := rfl
  stuffing := List.replicate 20 0xFF

def samplePat : List PatEntry := [⟨0, 7, 0x0010⟩, ⟨1, 7, 0x0100⟩]

/-- PID 0x101 is listed twice. -/
def samplePmt : Pmt where
  reserved := 7
  pcrPid := 0x0101
  programInfo := ⟨0xF, [0x1B, 0xE1], by decide⟩
  entries := [⟨0x0F, 7, 0x0101, ⟨0xF, [], by decide⟩⟩, ⟨0x03, 7, 0x0102, ⟨0xF, [0x0A], by decide⟩⟩,
    ⟨0x1B, 7, 0x0101, ⟨0xF, [], by decide⟩⟩]

theorem tables_decoded_repeated_pid :
    (TsAnalyzer.init 0).parsePat (patPayload sampleCarrier samplePat) true =
        .ok { TsAnalyzer.init 0 with pmtPid := some 0x0100, printed := [.pmtPid 0x0100] } ∧
      Returns ((TsAnalyzer.init 0).parsePmt (pmtPayload sampleCarrier samplePmt) true)
        fun final => final.pcrPid = some 0x0101 ∧
          final.streams.get? 0x0101 = some ⟨0x1B, .video⟩ ∧
          final.streams.get? 0x0102 = some ⟨0x03, .audio⟩ ∧
          final.streams.get? 0x1BE1 = none := by
  obtain ⟨pat, pmt⟩ := TsAnalyzer.tables_decoded (.init 0) sampleCarrier
  refine ⟨pat samplePat (by decide), ?_⟩
  obtain ⟨streams, decoded, listed⟩ := pmt samplePmt (by decide)
  exact ⟨_, decoded, rfl, listed 0x0101, listed 0x0102, listed 0x1BE1⟩

end Testings.MpegTs
