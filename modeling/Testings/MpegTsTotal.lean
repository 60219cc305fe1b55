import Testings.MpegTsAnalyzer
import Testings.MpegTsExtract
import Testings.MpegTsReport

/-!
# The MPEG-TS tools on arbitrary input

Every index, unpacking and lookup of the three tools is in range, whatever the
length fields of the data say; the loops end because every turn moves on.
-/

set_option autoImplicit false

namespace Testings.MpegTs

open Python

/-- The computation ends and raises nothing. -/
def Succeeds {α : Type} (computation : Py α) : Prop := Returns computation fun _ => True

namespace TsAnalyzer

theorem word_returns {data : Bytes} {pos : Nat} (mask : Nat) (inside : pos + 1 < data.length) :
    Succeeds (word data mask pos) := by
  apply Returns.bind (index_returns (by omega))
  intro high _
  apply Returns.bind (index_returns inside)
  intro low _
  exact .pure trivial

theorem pat_programs_returns {payload : Bytes} {last : Nat} (bounded : last ≤ payload.length)
    (self : TsAnalyzer) (pos : Nat) :
    Returns (self.patPrograms payload last pos) (SameRecords self) := by
  fun_induction patPrograms self payload last pos with
  | case1 pos ahead ih =>
      apply Returns.bind (word_returns 0xFF (by omega))
      intro program _
      apply Returns.bind (word_returns 0x1F (by omega))
      intro pid _
      apply Returns.ite
      · exact fun _ => .pure (same_records_line rfl rfl rfl rfl)
      · exact fun _ => ih
  | case2 pos done => exact .pure (same_records_refl self)

theorem parse_pat_returns (self : TsAnalyzer) (payload : Bytes) (pusi : Bool) :
    Returns (self.parsePat payload pusi) (SameRecords self) := by
  apply Returns.ite
  · exact fun _ => .pure (same_records_refl self)
  · intro starts
    have nonempty : 0 < payload.length := List.length_pos_of_ne_nil fun empty => starts (.inr empty)
    apply Returns.bind (index_returns nonempty)
    intro pointer _
    apply Returns.ite
    · exact fun _ => .pure (same_records_refl self)
    · intro room
      apply Returns.bind (index_returns (by omega))
      intro tableId _
      apply Returns.ite
      · exact fun _ => .pure (same_records_refl self)
      · intro _
        apply Returns.bind (word_returns 0x0F (by omega))
        intro sectionLength _
        exact pat_programs_returns (Nat.min_le_right _ _) self _

theorem pmt_streams_returns {payload : Bytes} {last : Nat} (bounded : last ≤ payload.length)
    (self : TsAnalyzer) (pos : Nat) :
    Returns (self.pmtStreams payload last pos) (SameRecords self) := by
  fun_induction pmtStreams self payload last pos with
  | case1 self pos ahead ih =>
      apply Returns.bind (index_returns (by omega))
      intro streamType _
      apply Returns.bind (word_returns 0x1F (by omega))
      intro pid _
      apply Returns.bind (word_returns 0x0F (by omega))
      intro esInfoLength _
      apply Returns.weaken (ih streamType pid esInfoLength)
      intro next same
      refine SameRecords.trans ?_ same
      exact same_records_line rfl rfl rfl rfl
  | case2 self pos done => exact .pure (same_records_refl self)

theorem parse_pmt_returns (self : TsAnalyzer) (payload : Bytes) (pusi : Bool) :
    Returns (self.parsePmt payload pusi) (SameRecords self) := by
  apply Returns.ite
  · exact fun _ => .pure (same_records_refl self)
  · intro starts
    have nonempty : 0 < payload.length := List.length_pos_of_ne_nil fun empty => starts (.inr empty)
    apply Returns.bind (index_returns nonempty)
    intro pointer _
    apply Returns.ite
    · exact fun _ => .pure (same_records_refl self)
    · intro room
      apply Returns.bind (index_returns (by omega))
      intro tableId _
      apply Returns.ite
      · exact fun _ => .pure (same_records_refl self)
      · intro _
        apply Returns.bind (word_returns 0x0F (by omega))
        intro sectionLength _
        apply Returns.bind (word_returns 0x1F (by omega))
        intro pcrPid _
        apply Returns.bind (word_returns 0x0F (by omega))
        intro programInfoLength _
        apply Returns.weaken (pmt_streams_returns (Nat.min_le_right _ _) _ _)
        intro next same
        refine SameRecords.trans ?_ same
        exact same_records_line rfl rfl rfl rfl

theorem decode_pts_returns {data : Bytes} (five : data.length = 5) :
    Succeeds (decodePts data) := by
  apply Returns.bind (index_returns (by omega))
  intro first _
  apply Returns.bind (index_returns (by omega))
  intro second _
  apply Returns.bind (index_returns (by omega))
  intro third _
  apply Returns.bind (index_returns (by omega))
  intro fourth _
  apply Returns.bind (index_returns (by omega))
  intro fifth _
  exact .pure trivial

theorem start_pes_returns {self : TsAnalyzer} {pid : Nat} (known : self.streams.contains pid = true)
    (payload : Bytes) (streamId headerLength : Nat) (pts : Option Nat) (offset : Nat) :
    Succeeds (self.startPes pid payload streamId headerLength pts offset) := by
  apply Returns.ite
  · exact fun _ => .pure trivial
  · intro _
    apply Returns.bind (Dict.get_returns known)
    intro stream _
    exact .pure trivial

theorem parse_pes_returns {self : TsAnalyzer} {pid : Nat} (known : self.streams.contains pid = true)
    (payload : Bytes) (pusi : Bool) (offset : Nat) :
    Succeeds (self.parsePes pid payload pusi offset) := by
  apply Returns.ite
  · intro _
    have stillKnown : (self.finishPes pid).streams.contains pid = true := by
      rw [finish_pes_streams]
      exact known
    apply Returns.ite
    · exact fun _ => .pure trivial
    · intro nine
      apply Returns.ite
      · exact fun _ => .pure trivial
      · intro _
        apply Returns.bind (index_returns (by omega))
        intro streamId _
        apply Returns.bind (index_returns (by omega))
        intro flags _
        apply Returns.bind (index_returns (by omega))
        intro headerLength _
        apply Returns.ite
        · intro _
          apply Returns.ite
          · exact fun _ => .pure trivial
          · intro fourteen
            have five : (slice payload 9 14).length = 5 := slice_length (by omega)
            apply Returns.bind (decode_pts_returns five)
            intro pts _
            exact start_pes_returns stillKnown _ _ _ _ _
        · exact fun _ => start_pes_returns stillKnown _ _ _ _ _
  · intro _
    split
    · exact .pure trivial
    · exact .pure trivial

theorem parse_pcr_returns (self : TsAnalyzer) (pid : Nat) (data : Bytes) :
    Returns (self.parsePcr pid data) (Clocked self) := by
  apply Returns.ite
  · exact fun _ => .pure (clocked_refl self)
  · intro six
    rw [not_not] at six
    apply Returns.bind (index_returns (by omega))
    intro d0 _
    apply Returns.bind (index_returns (by omega))
    intro d1 _
    apply Returns.bind (index_returns (by omega))
    intro d2 _
    apply Returns.bind (index_returns (by omega))
    intro d3 _
    apply Returns.bind (index_returns (by omega))
    intro d4 _
    apply Returns.bind (index_returns (by omega))
    intro d5 _
    exact .pure ⟨same_records_line rfl rfl rfl rfl, rfl, rfl⟩

/-- Where the payload starts behind an adaptation field, if there is one. -/
def payloadStart (packet : Bytes) (adaptation : Nat) : Nat :=
  if adaptation = 2 ∨ adaptation = 3 then 4 + (1 + (packet.getD 4 0).toNat) else 4

theorem adaptation_field_returns {packet : Bytes} (whole : packet.length = tsSz) (self : TsAnalyzer)
    (pid adaptation : Nat) :
    Returns (self.adaptationField packet pid adaptation) fun parsed =>
      Clocked self parsed.1 ∧ parsed.2 = payloadStart packet adaptation := by
  unfold tsSz at whole
  apply Returns.ite
  · intro field
    have start : 4 + (1 + (packet.getD 4 0).toNat) = payloadStart packet adaptation :=
      (if_pos field).symm
    rw [index_get_d (by omega), ok_bind]
    apply Returns.ite
    · intro _
      apply Returns.bind (index_returns (by omega))
      intro flags _
      apply Returns.ite
      · intro _
        apply Returns.bind (parse_pcr_returns self pid _)
        intro next clocked
        exact .pure ⟨clocked, start⟩
      · exact fun _ => .pure ⟨clocked_refl self, start⟩
    · exact fun _ => .pure ⟨clocked_refl self, start⟩
  · intro absent
    exact .pure ⟨clocked_refl self, (if_neg absent).symm⟩

theorem dispatch_returns (self : TsAnalyzer) (pid : Nat) (payload : Bytes) (pusi : Bool)
    (offset : Nat) : Succeeds (self.dispatch pid payload pusi offset) := by
  apply Returns.ite
  · exact fun _ => (parse_pat_returns self payload pusi).weaken fun _ _ => trivial
  · intro _
    apply Returns.ite
    · exact fun _ => (parse_pmt_returns self payload pusi).weaken fun _ _ => trivial
    · intro _
      apply Returns.ite
      · exact fun known => parse_pes_returns known payload pusi offset
      · exact fun _ => .pure trivial

theorem packet_returns {packet : Bytes} (whole : packet.length = tsSz) (self : TsAnalyzer)
    (offset : Nat) : Succeeds (self.packet packet offset) := by
  have bytes : packet.length = 188 := whole
  have three : (slice packet 1 4).length = 3 := slice_length (by omega)
  apply Returns.bind (index_returns (by omega))
  intro first _
  apply Returns.ite
  · exact fun _ => .pure trivial
  · intro _
    apply Returns.bind (unpack_three_returns three)
    intro fields _
    apply Returns.ite
    · exact fun _ => .pure trivial
    · intro _
      apply Returns.bind (adaptation_field_returns whole self _ _)
      intro parsed _
      apply Returns.ite
      · exact fun _ => .pure trivial
      · exact fun _ => dispatch_returns _ _ _ _ _

end TsAnalyzer

theorem ts_pts_check_returns (inmm : Bytes) (frames : Nat) : Succeeds (tsPtsCheck inmm frames) := by
  refine Returns.bind (show Returns _ fun _ => True from ?_) ?_
  · apply TsParser.process_returns _ 0 _ trivial
    exact fun packet offset self whole _ => TsAnalyzer.packet_returns whole self offset
  · exact fun analyzer _ => .pure trivial

namespace ExtractPid

theorem field_returns {head : List Nat} {fld : Nat} (inside : fld < head.length) :
    Succeeds (field head fld) :=
  ⟨head[fld], by rw [field, List.getElem?_eq_getElem inside], trivial⟩

theorem check_continuity_returns {head : List Nat} (eight : head.length = 8) (self : ExtractPid)
    (offset : Nat) : Succeeds (self.checkContinuity head offset) := by
  apply Returns.bind (field_returns (by rw [eight]; decide))
  intro cont _
  apply Returns.ite
  · exact fun _ => .pure trivial
  · intro _
    apply Returns.ite
    · exact fun _ => .pure trivial
    · exact fun _ => .pure trivial

theorem extract_returns {head : List Nat} (eight : head.length = 8) {packet : Bytes}
    (whole : packet.length = tsSz) (self : ExtractPid) (offset : Nat) :
    Succeeds (self.extract head packet offset) := by
  unfold tsSz at whole
  apply Returns.bind (field_returns (by rw [eight]; decide))
  intro flg _
  apply Returns.ite
  · intro _
    apply Returns.bind (field_returns (by rw [eight]; decide))
    intro flst _
    exact .pure trivial
  · intro _
    apply Returns.ite
    · intro _
      apply Returns.bind (index_returns (by omega))
      intro length _
      apply Returns.ite
      · intro _
        apply Returns.bind (index_returns (by omega))
        intro adaptationSize _
        exact .pure trivial
      · exact fun _ => .pure trivial
    · exact fun _ => .pure trivial

theorem unpack_head_returns {unpack : Bytes → Py (List Nat)} (documented : UnpacksHead unpack)
    {data : Bytes} (four : data.length = 4) :
    Returns (unpack data) fun head => head.length = 8 := by
  match data, four with
  | [b0, b1, b2, b3], _ => exact ⟨_, documented b0 b1 b2 b3, rfl⟩

theorem call_returns {unpack : Bytes → Py (List Nat)} (documented : UnpacksHead unpack)
    {packet : Bytes} (whole : packet.length = tsSz) (self : ExtractPid) (offset : Nat) :
    Succeeds (self.call unpack packet offset) := by
  have four : (slice packet 0 4).length = 4 := by
    apply slice_length
    rw [whole]
    decide
  apply Returns.bind (unpack_head_returns documented four)
  intro head eight
  have checks : Succeeds (self.checkPid head) := by
    apply Returns.bind (field_returns (by rw [eight]; decide))
    exact fun pid _ => .pure trivial
  apply Returns.bind checks
  intro wanted _
  apply Returns.ite
  · exact fun _ => .pure trivial
  · intro _
    apply Returns.bind (check_continuity_returns eight self offset)
    intro checked _
    apply Returns.bind (extract_returns eight whole checked offset)
    intro extracted _
    exact .pure trivial

end ExtractPid

theorem ts_extract_returns {unpack : Bytes → Py (List Nat)} (documented : UnpacksHead unpack)
    (inmm : Bytes) (pid : Int) : Succeeds (tsExtract unpack inmm pid) := by
  apply Parser.process_returns _ 0 _ trivial
  exact fun packet offset self whole _ => ExtractPid.call_returns documented whole self offset

theorem packet_info_returns (pkt : Bytes) : Succeeds (packetInfo pkt) := by
  apply Returns.ite
  · exact fun _ => .pure trivial
  · intro whole
    have bytes : pkt.length = 188 := not_not.mp whole
    apply Returns.bind (index_returns (by omega))
    intro first _
    apply Returns.ite
    · exact fun _ => .pure trivial
    · intro _
      apply Returns.bind (index_returns (by omega))
      intro b1 _
      apply Returns.bind (index_returns (by omega))
      intro b2 _
      apply Returns.bind (index_returns (by omega))
      intro b3 _
      apply Returns.ite
      · intro _
        apply Returns.bind (index_returns (by omega))
        intro length _
        apply Returns.ite
        · intro _
          apply Returns.bind (index_returns (by omega))
          intro flags _
          exact .pure trivial
        · exact fun _ => .pure trivial
      · exact fun _ => .pure trivial

namespace Tscc

theorem compare_returns (self : Tscc) (packet : Nat) (info : PacketInfo) :
    Succeeds (self.compare packet info) := by
  apply Returns.ite
  · rintro ⟨known, _⟩
    apply Returns.bind (Dict.get_returns known)
    intro prev _
    apply Returns.ite
    · exact fun _ => .pure trivial
    · exact fun _ => .pure trivial
  · exact fun _ => .pure trivial

theorem packet_returns (self : Tscc) (showNull : Bool) (packet : Nat) (data : Bytes) :
    Succeeds (self.packet showNull packet data) := by
  apply Returns.bind (packet_info_returns data)
  intro info _
  cases info with
  | none => exact .pure trivial
  | some info =>
      apply Returns.ite
      · intro _
        apply Returns.ite
        · exact fun _ => .pure trivial
        · exact fun _ => .pure trivial
      · intro _
        apply Returns.ite
        · exact fun _ => .pure trivial
        · intro _
          apply Returns.bind (compare_returns self packet info)
          intro compared _
          exact .pure trivial

theorem scan_returns (self : Tscc) (showNull : Bool) (packet : Nat) (rest : Bytes) :
    Succeeds (self.scan showNull packet rest) := by
  fun_induction Tscc.scan self showNull packet rest with
  | case1 => exact .pure trivial
  | case2 => exact .pure trivial
  | case3 self packet rest more whole ih =>
      apply Returns.bind (packet_returns self showNull packet _)
      exact fun next _ => ih next

end Tscc

theorem tools_are_total {unpack : Bytes → Py (List Nat)} (documented : UnpacksHead unpack) :
    (∀ (inmm : Bytes) (pid : Int) (frames : Nat), tsSz ≤ inmm.length →
        Succeeds (tsPtsCheck inmm frames) ∧ Succeeds (tsExtract unpack inmm pid)) ∧
      ∀ (file : Bytes) (showNull : Bool), Succeeds (tscc file showNull) := by
  constructor
  · intro inmm pid frames _
    exact ⟨ts_pts_check_returns inmm frames, ts_extract_returns documented inmm pid⟩
  · intro file showNull
    exact Tscc.scan_returns _ showNull 0 file

/-- An unpacking that refuses anything but four bytes. -/
def unpackFour : Bytes → Py (List Nat)
  | [b0, b1, b2, b3] => .ok (headFields b0 b1 b2 b3)
  | _ => .error .valueError

def filled (front : Bytes) : Bytes := front ++ List.replicate (tsSz - front.length) 0xFF

/-- Both tables, two frames of video behind clock references, and a packet that is cut off. -/
def clockedFile : Bytes :=
  filled [0x47, 0x40, 0x00, 0x10, 0x00, 0x00, 0xB0, 0x0D, 0x00, 0x01, 0xC1, 0x00, 0x00, 0x00,
      0x01, 0xE1, 0x00, 0x00, 0x00, 0x00, 0x00] ++
    filled [0x47, 0x41, 0x00, 0x10, 0x00, 0x02, 0xB0, 0x12, 0x00, 0x01, 0xC1, 0x00, 0x00, 0xE1,
      0x01, 0xF0, 0x00, 0x1B, 0xE1, 0x01, 0xF0, 0x00, 0x00, 0x00, 0x00, 0x00] ++
    filled [0x47, 0x41, 0x01, 0x30, 0x07, 0x10, 0x00, 0x00, 0x00, 0x00, 0x7E, 0x00, 0x00, 0x00,
      0x01, 0xE0, 0x00, 0x00, 0x80, 0x80, 0x05, 0x21, 0x00, 0x01, 0x00, 0x01] ++
    filled [0x47, 0x41, 0x01, 0x32, 0x07, 0x10, 0x00, 0x00, 0x00, 0x01, 0x7E, 0x00, 0x00, 0x00,
      0x01, 0xE0, 0x00, 0x00, 0x80, 0x80, 0x05, 0x21, 0x00, 0x01, 0x00, 0x03] ++
    [0x47, 0x00]

/-- The checker finds the tables, the clock and both frames; the other two miss the counter
between the frames. -/
theorem tools_are_total_on_clocked_file :
    (∃ self, tsPtsCheck clockedFile 0 = .ok self ∧ self.pmtPid = some 0x100 ∧
        self.previousPcr = some 600 ∧ self.frameCount = 2) ∧
      (∃ self, tsExtract unpackFour clockedFile 0x101 = .ok self ∧ self.bytesCnt = 352 ∧
        self.warnings = [.streamBroken 564 0 2 1]) ∧
      ∃ self, tscc clockedFile true = .ok self ∧ self.errors = 1 := by
  have documented : UnpacksHead unpackFour := fun _ _ _ _ => rfl
  have total := tools_are_total documented
  obtain ⟨checks, extracts⟩ := total.1 clockedFile 0x101 0 (by decide +kernel)
  refine ⟨?_, ?_, ?_⟩
  · obtain ⟨self, ran, _⟩ := checks
    have shown : (tsPtsCheck clockedFile 0).map (fun self => decide
        (self.pmtPid = some 0x100 ∧ self.previousPcr = some 600 ∧ self.frameCount = 2)) =
          .ok true := by decide +kernel
    rw [ran] at shown
    exact ⟨self, ran, of_decide_eq_true (Except.ok.inj shown)⟩
  · obtain ⟨self, ran, _⟩ := extracts
    have shown : (tsExtract unpackFour clockedFile 0x101).map (fun self => decide
        (self.bytesCnt = 352 ∧ self.warnings = [.streamBroken 564 0 2 1])) = .ok true := by
      decide +kernel
    rw [ran] at shown
    exact ⟨self, ran, of_decide_eq_true (Except.ok.inj shown)⟩
  · obtain ⟨self, ran, _⟩ := total.2 clockedFile true
    have shown : (tscc clockedFile true).map (fun self => decide (self.errors = 1)) =
        .ok true := by decide +kernel
    rw [ran] at shown
    exact ⟨self, ran, of_decide_eq_true (Except.ok.inj shown)⟩

end Testings.MpegTs
