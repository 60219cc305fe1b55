import Testings.MpegTsContinuity
import Testings.MpegTsTotal

/-!
# The two continuity checkers

`ExtractPid.check_continuity` compares a packet with the last one of its PID,
`tscc.scan` a packet with payload with the last one that had payload, and not
where the discontinuity indicator is set. They agree exactly as long as that
makes no difference.
-/

set_option autoImplicit false

namespace Testings.MpegTs

open Python
open HistoryLog

def TsPacket.has (pid : Nat) (packet : TsPacket) : Bool := decide (packet.pid = pid)

/-- `cont - continuity - 1`, made non-negative. -/
def lostBetween (before after : Nat) : Int :=
  let lost := (after : Int) - before - 1
  if lost < 0 then lost + 16 else lost

/-- What `check_continuity` warns of when `previous` was the last packet of the PID. -/
def continuityWarnings (previous : TsPacket) (item : TsPacket × Nat) : List Warning :=
  if item.1.cc = (previous.cc + 1) % 16 then []
  else
    [.streamBroken (item.2 * tsSz) previous.cc item.1.cc (lostBetween previous.cc item.1.cc)]

def extractWarnings (pid : Nat) (before : List (TsPacket × Nat)) (item : TsPacket × Nat) :
    List Warning :=
  if item.1.pid = pid then
    match latest (TsPacket.has pid) (before.map Prod.fst) with
    | none => []
    | some previous => continuityWarnings previous item
  else []

def Warning.isBroken : Warning → Bool
  | .streamBroken .. => true
  | .badPacket .. => false

theorem placed_numbered (packets : List TsPacket) (number : Nat) :
    placed (number * tsSz) packets =
      (packets.zipIdx number).map fun item => (item.1, item.2 * tsSz) := by
  induction packets generalizing number with
  | nil => rfl
  | cons packet rest ih =>
      rw [placed, ← Nat.succ_mul, ih (number + 1)]
      rfl

namespace ExtractPid

structure Remembers (pid : Nat) (before : List (TsPacket × Nat)) (state : ExtractPid) : Prop where
  own : state.pid = pid
  continuity : state.continuity =
    match latest (TsPacket.has pid) (before.map Prod.fst) with
    | none => -1
    | some previous => (previous.cc : Int)
  warnings : state.warnings.filter Warning.isBroken = emitted (extractWarnings pid) [] before

/-- What `extract` leaves alone. -/
structure SameChecks (before after : ExtractPid) : Prop where
  own : after.pid = before.pid
  continuity : after.continuity = before.continuity
  warnings : after.warnings.filter Warning.isBroken = before.warnings.filter Warning.isBroken

theorem extract_same_checks {head : List Nat} (eight : head.length = 8) {packet : Bytes}
    (whole : packet.length = tsSz) (self : ExtractPid) (offset : Nat) :
    Returns (self.extract head packet offset) (SameChecks self) := by
  unfold tsSz at whole
  apply Returns.bind (field_returns (by rw [eight]; decide))
  intro flg _
  apply Returns.ite
  · intro _
    apply Returns.bind (field_returns (by rw [eight]; decide))
    intro flst _
    exact .pure ⟨rfl, rfl, rfl⟩
  · intro _
    apply Returns.ite
    · intro _
      apply Returns.bind (index_returns (by omega))
      intro length _
      apply Returns.ite
      · intro _
        apply Returns.bind (index_returns (by omega))
        intro adaptationSize _
        refine .pure ⟨rfl, rfl, ?_⟩
        simp [warn, Warning.isBroken]
      · exact fun _ => .pure ⟨rfl, rfl, rfl⟩
    · exact fun _ => .pure ⟨rfl, rfl, rfl⟩

/-- The fields of the header that the extractor reads. -/
structure HeadOf (packet : TsPacket) (head : List Nat) : Prop where
  eight : head.length = 8
  start : field head tsHdrStartFld = .ok (if packet.pusi then 1 else 0)
  pid : field head tsHdrPidFld = .ok packet.pid
  adapt : field head tsHdrAdaptFld = .ok packet.afc
  cont : field head tsHdrContFld = .ok packet.cc

/-- Bit 6 shifted down, and bit 6 masked out. -/
theorem start_indicator (byte : BitVec 8) :
    (byte.toNat >>> 6) &&& 1 = if byte.toNat &&& 0x40 ≠ 0 then 1 else 0 := by
  revert byte
  decide

/-- The first four bytes of a packet, unpacked. -/
theorem unpack_packet {unpack : Bytes → Py (List Nat)} (documented : UnpacksHead unpack)
    (packet : TsPacket) : Returns (unpack (slice packet.bytes 0 4)) (HeadOf packet) := by
  have whole : packet.bytes.length = 188 := packet.whole
  match shape : packet.bytes, whole with
  | b0 :: b1 :: b2 :: b3 :: rest, _ =>
      have high : packet.byte 1 = b1.toNat := by
        rw [TsPacket.byte, shape]
        rfl
      have low : packet.byte 2 = b2.toNat := by
        rw [TsPacket.byte, shape]
        rfl
      have flags : packet.byte 3 = b3.toNat := by
        rw [TsPacket.byte, shape]
        rfl
      refine ⟨headFields b0 b1 b2 b3, documented b0 b1 b2 b3, rfl, ?_, ?_, ?_, ?_⟩
      · rw [TsPacket.pusi, high]
        simp only [decide_eq_true_eq]
        rw [← start_indicator b1]
        rfl
      · rw [TsPacket.pid, high, low]
        rfl
      · rw [TsPacket.afc, flags]
        rfl
      · rw [TsPacket.cc, flags]
        rfl

/-- `check_continuity` writes the warnings of the packet and remembers its counter. -/
theorem check_continuity_remembers {pid : Nat} {before : List (TsPacket × Nat)}
    {state : ExtractPid} {item : TsPacket × Nat} {head : List Nat}
    (remembers : Remembers pid before state) (own : item.1.pid = pid)
    (cont : field head tsHdrContFld = .ok item.1.cc) :
    Returns (state.checkContinuity head (item.2 * tsSz)) (Remembers pid (before ++ [item])) := by
  have latestNow : latest (TsPacket.has pid) ((before ++ [item]).map Prod.fst) = some item.1 := by
    rw [List.map_append, List.map_singleton, latest_concat, if_pos (by simp [TsPacket.has, own])]
  have continuity := remembers.continuity
  have warnings := remembers.warnings
  have lines : emitted (extractWarnings pid) [] (before ++ [item]) =
      state.warnings.filter Warning.isBroken ++ extractWarnings pid before item := by
    rw [emitted_concat, warnings]
  have counter : ((item.1.cc : Nat) : Int) =
      match latest (TsPacket.has pid) ((before ++ [item]).map Prod.fst) with
      | none => -1
      | some previous => (previous.cc : Int) := by
    rw [latestNow]
  unfold checkContinuity
  rw [cont, ok_bind]
  have written : extractWarnings pid before item =
      match latest (TsPacket.has pid) (before.map Prod.fst) with
      | none => []
      | some previous => continuityWarnings previous item :=
    if_pos own
  cases previous : latest (TsPacket.has pid) (before.map Prod.fst) with
  | none =>
      rw [previous] at continuity written
      have first : state.continuity < 0 := by
        rw [continuity]
        decide
      rw [if_pos first]
      exact .pure ⟨remembers.own, counter, by rw [lines, written, List.append_nil]⟩
  | some last =>
      rw [previous] at continuity written
      dsimp only at continuity written
      have later : ¬state.continuity < 0 := by
        rw [continuity]
        exact Int.not_lt.mpr (Int.natCast_nonneg _)
      have test : (state.continuity + 1) % 16 ≠ (item.1.cc : Int) ↔
          ¬item.1.cc = (last.cc + 1) % 16 := by
        rw [continuity]
        omega
      rw [if_neg later]
      by_cases follows : item.1.cc = (last.cc + 1) % 16
      · rw [if_neg (by rw [test]; exact not_not.mpr follows)]
        refine .pure ⟨remembers.own, counter, ?_⟩
        rw [lines, written, continuityWarnings, if_pos follows, List.append_nil]
      · rw [if_pos (test.mpr follows)]
        refine .pure ⟨remembers.own, counter, ?_⟩
        rw [lines, written, continuityWarnings, if_neg follows, continuity]
        exact List.filter_append ..

theorem call_remembers {unpack : Bytes → Py (List Nat)} (documented : UnpacksHead unpack)
    {pid : Nat} (before : List (TsPacket × Nat)) (state : ExtractPid) (item : TsPacket × Nat)
    (remembers : Remembers pid before state) :
    Returns (state.call unpack item.1.bytes (item.2 * tsSz))
      (Remembers pid (before ++ [item])) := by
  apply Returns.bind (unpack_packet documented item.1)
  intro head fields
  have checks : state.checkPid head = .ok (decide (item.1.pid = pid)) := by
    unfold checkPid
    rw [fields.pid, ok_bind, remembers.own]
    exact congrArg Except.ok (decide_eq_decide.mpr Int.ofNat_inj)
  rw [checks, ok_bind]
  by_cases own : item.1.pid = pid
  · rw [if_neg (by simp [own])]
    apply Returns.bind (check_continuity_remembers remembers own fields.cont)
    intro checked after
    apply Returns.bind (extract_same_checks fields.eight item.1.whole checked _)
    intro extracted same
    refine .pure ⟨?_, ?_, ?_⟩
    · exact same.own.trans after.own
    · exact same.continuity.trans after.continuity
    · exact same.warnings.trans after.warnings
  · rw [if_pos (by simp [own])]
    have unseen : latest (TsPacket.has pid) ((before ++ [item]).map Prod.fst) =
        latest (TsPacket.has pid) (before.map Prod.fst) := by
      rw [List.map_append, List.map_singleton, latest_concat,
        if_neg (by simp [TsPacket.has, own])]
    refine .pure ⟨remembers.own, ?_, ?_⟩
    · rw [unseen]
      exact remembers.continuity
    · rw [emitted_concat, remembers.warnings, extractWarnings, if_neg own, List.append_nil]

end ExtractPid

/-- `ts_extract` on a file of whole packets calls the extractor with each of them. -/
theorem ts_extract_fold (unpack : Bytes → Py (List Nat)) (packets : List TsPacket) (pid : Nat) :
    tsExtract unpack (streamOf packets) pid =
      packets.zipIdx.foldlM
        (fun self item => self.call unpack item.1.bytes (item.2 * tsSz)) (.init pid) := by
  have offsets := offsets_packets [] packets
  rw [List.nil_append] at offsets
  have places := placed_numbered packets 0
  rw [Nat.zero_mul] at places
  rw [tsExtract, Parser.process_fold]
  change (((tsScan (streamOf packets)).offsets true ([] : Bytes).length).map
    (packetAt (streamOf packets))).foldlM _ _ = _
  rw [offsets, List.length_nil, places, List.map_map, List.foldlM_map]
  rfl

/-- What `ts_extract` warns of in a file of whole packets. -/
theorem ts_extract_stream {unpack : Bytes → Py (List Nat)} (documented : UnpacksHead unpack)
    (packets : List TsPacket) (pid : Nat) :
    Returns (tsExtract unpack (streamOf packets) pid) fun final =>
      final.warnings.filter Warning.isBroken =
        emitted (extractWarnings pid) [] packets.zipIdx := by
  have fresh : ExtractPid.Remembers pid [] (ExtractPid.init pid) := ⟨rfl, rfl, rfl⟩
  rw [ts_extract_fold]
  apply (Returns.foldlM (ExtractPid.Remembers pid) (ExtractPid.call_remembers documented)
    packets.zipIdx fresh).weaken
  exact fun final remembers => remembers.warnings

/-- `previous` was the last packet of the PID, and the counter does not follow it. -/
def ExtractorWarns (pid : Nat) (before : List TsPacket) (packet previous : TsPacket) : Prop :=
  packet.pid = pid ∧ latest (TsPacket.has pid) before = some previous ∧
    packet.cc ≠ (previous.cc + 1) % 16

/-- `previous` was the last packet with payload of the PID, and the counter of this
packet with payload does not follow it. -/
def ScannerReports (pid : Nat) (before : List TsPacket) (packet previous : TsPacket) : Prop :=
  packet.carries pid = true ∧ packet.discontinuity = false ∧
    latest (TsPacket.carries pid) before = some previous ∧ packet.cc ≠ (previous.cc + 1) % 16

theorem mem_extract_warnings {pid offset : Nat} {prev cont lost : Int}
    {before : List (TsPacket × Nat)} {item : TsPacket × Nat} :
    .streamBroken offset prev cont lost ∈ extractWarnings pid before item ↔
      ∃ previous, ExtractorWarns pid (before.map Prod.fst) item.1 previous ∧
        offset = item.2 * tsSz ∧ prev = previous.cc ∧ cont = item.1.cc ∧
          lost = lostBetween previous.cc item.1.cc := by
  unfold extractWarnings ExtractorWarns
  by_cases own : item.1.pid = pid
  · rw [if_pos own]
    cases latest (TsPacket.has pid) (before.map Prod.fst) with
    | none => simp
    | some last =>
        unfold continuityWarnings
        by_cases follows : item.1.cc = (last.cc + 1) % 16
        · simp [follows]
        · simp [follows, own]
  · simp [own]

theorem continuity_status_none (prev cc : Nat) :
    continuityStatus prev cc = none ↔ cc = (prev + 1) % 16 := by
  have expected : (prev + 1) &&& 0xf = (prev + 1) % 16 :=
    Nat.and_two_pow_sub_one_eq_mod (prev + 1) 4
  unfold continuityStatus
  dsimp only
  rw [expected]
  by_cases follows : cc = (prev + 1) % 16
  · rw [if_pos follows]
    exact iff_of_true rfl follows
  · rw [if_neg follows]
    exact iff_of_false (Option.some_ne_none _) follows

theorem mem_broken_line {offset packet pid prev cc : Nat} {status : Status}
    {previous item : TsPacket × Nat} :
    .broken offset packet pid prev cc status ∈ brokenLine previous item ↔
      item.1.discontinuity = false ∧ item.1.pid = pid ∧
        offset = item.2 * tsSz ∧ packet = item.2 ∧ prev = previous.1.cc ∧ cc = item.1.cc ∧
          continuityStatus previous.1.cc item.1.cc = some status := by
  unfold brokenLine
  by_cases marked : item.1.discontinuity = true
  · simp [marked]
  · cases continuityStatus previous.1.cc item.1.cc with
    | none => simp
    | some found =>
        simp only [marked, Bool.false_eq_true, if_false, Option.toList_some, List.map_cons,
          List.map_nil, List.mem_singleton, Report.broken.injEq, Option.some_inj]
        constructor
        · rintro ⟨rfl, rfl, rfl, rfl, rfl, rfl⟩
          exact ⟨trivial, rfl, rfl, rfl, rfl, rfl, rfl⟩
        · rintro ⟨-, rfl, rfl, rfl, rfl, rfl, rfl⟩
          exact ⟨rfl, rfl, rfl, rfl, rfl, rfl⟩

theorem mem_tscc_lines {showNull : Bool} {pid offset packet prev cc : Nat} {status : Status}
    (real : pid ≠ nullPid) {before : List (TsPacket × Nat)} {item : TsPacket × Nat} :
    .broken offset packet pid prev cc status ∈ tsccLines showNull before item ↔
      ∃ previous, ScannerReports pid (before.map Prod.fst) item.1 previous ∧
        offset = item.2 * tsSz ∧ packet = item.2 ∧ prev = previous.cc ∧ cc = item.1.cc ∧
          continuityStatus previous.cc item.1.cc = some status := by
  unfold tsccLines ScannerReports
  by_cases null : item.1.pid = nullPid
  · have unseen : item.1.carries pid = false := by
      simp [TsPacket.carries, null, Ne.symm real]
    rw [if_pos null, unseen]
    cases showNull <;> simp
  · rw [if_neg null]
    by_cases empty : hasPayload item.1.afc = false
    · rw [if_pos empty]
      simp [TsPacket.carries, empty]
    · rw [if_neg empty]
      rw [Bool.not_eq_false] at empty
      have seen : latest (TsPacket.carries item.1.pid) (before.map Prod.fst) =
          (before.filter fun seen => seen.1.carries item.1.pid).getLast?.map Prod.fst :=
        latest_map Prod.fst _ before
      unfold followed
      by_cases own : item.1.pid = pid
      · have carries : item.1.carries pid = true := by simp [TsPacket.carries, own, empty]
        rw [own] at seen ⊢
        rw [seen, carries]
        cases (before.filter fun seen => seen.1.carries pid).getLast? with
        | none => simp
        | some previous =>
            dsimp only
            rw [mem_broken_line]
            constructor
            · rintro ⟨unmarked, -, at_offset, at_packet, of_prev, of_cc, status⟩
              refine ⟨previous.1, ⟨rfl, unmarked, rfl, ?_⟩, at_offset, at_packet, of_prev, of_cc,
                status⟩
              intro follows
              rw [(continuity_status_none _ _).mpr follows] at status
              cases status
            · rintro ⟨other, ⟨-, unmarked, same, -⟩, rest⟩
              cases same
              exact ⟨unmarked, own, rest⟩
      · have other : item.1.carries pid = false := by simp [TsPacket.carries, own]
        rw [other]
        cases (before.filter fun seen => seen.1.carries item.1.pid).getLast? with
        | none => simp
        | some previous =>
            dsimp only
            rw [mem_broken_line]
            simp [own]

/-- At exactly the same packets of the PID, and with the same number where `tscc`
reports a loss. -/
def CheckersAgree (pid : Nat) (extracted : ExtractPid) (scanned : Tscc) : Prop :=
  (∀ offset,
      (∃ prev cont lost, .streamBroken offset prev cont lost ∈ extracted.warnings) ↔
        ∃ packet prev cc status, .broken offset packet pid prev cc status ∈ scanned.printed) ∧
    ∀ offset (prev cont lost : Int) packet last cc (delta : Nat),
      .streamBroken offset prev cont lost ∈ extracted.warnings →
        .broken offset packet pid last cc (.lost delta) ∈ scanned.printed → lost = delta

/-- The last packet of the PID and its last packet with payload stand for the same
counter, as far as a packet behind them can tell. -/
def Undisturbed (pid : Nat) (before : List TsPacket) (packet : TsPacket) : Prop :=
  ∀ previous, latest (TsPacket.has pid) before = some previous →
    match latest (TsPacket.carries pid) before with
    | some last =>
        if packet.carries pid = true ∧ packet.discontinuity = false then
          previous.cc = last.cc ∨
            (packet.cc = last.cc ∧ packet.cc ≠ (previous.cc + 1) % 16)
        else packet.cc = (previous.cc + 1) % 16
    | none => packet.cc = (previous.cc + 1) % 16

/-- The two verdicts on one packet are the same. -/
def VerdictsAgree (pid : Nat) (before : List TsPacket) (packet : TsPacket) : Prop :=
  ((∃ previous, ExtractorWarns pid before packet previous) ↔
      ∃ previous, ScannerReports pid before packet previous) ∧
    ∀ previous last (delta : Nat), ExtractorWarns pid before packet previous →
      ScannerReports pid before packet last →
        continuityStatus last.cc packet.cc = some (.lost delta) →
          lostBetween previous.cc packet.cc = delta

theorem continuity_status_lost {last cc delta : Nat} :
    continuityStatus last cc = some (.lost delta) ↔
      cc ≠ (last + 1) % 16 ∧ delta = (cc + 16 - (last + 1) % 16) % 16 ∧ delta ≠ 15 := by
  have expected : (last + 1) &&& 0xf = (last + 1) % 16 :=
    Nat.and_two_pow_sub_one_eq_mod (last + 1) 4
  unfold continuityStatus
  dsimp only
  rw [expected]
  by_cases follows : cc = (last + 1) % 16
  · simp [follows]
  · rw [if_neg follows]
    by_cases dup : (cc + 16 - (last + 1) % 16) % 16 = 0xf
    · rw [if_pos dup]
      simp [dup]
    · rw [if_neg dup]
      simp only [Option.some_inj, Status.lost.injEq, ne_eq, follows, not_false_eq_true, true_and]
      constructor
      · rintro rfl
        exact ⟨rfl, dup⟩
      · rintro ⟨rfl, -⟩
        rfl

/-- Two counters to compare with give the same verdict when they are equal, and when one
of them is repeated: there `tscc` speaks of a duplicate. -/
theorem same_verdict_iff {prev last cc : Nat} (prevBound : prev < 16) (lastBound : last < 16)
    (bound : cc < 16) :
    ((cc ≠ (prev + 1) % 16 ↔ cc ≠ (last + 1) % 16) ∧
        (cc ≠ (prev + 1) % 16 → ∀ delta : Nat, continuityStatus last cc = some (.lost delta) →
          lostBetween prev cc = delta)) ↔
      prev = last ∨ (cc = last ∧ cc ≠ (prev + 1) % 16) := by
  constructor
  · rintro ⟨same, counts⟩
    by_cases follows : cc = (prev + 1) % 16
    · left
      have other : cc = (last + 1) % 16 := not_not.mp fun differs => same.mpr differs follows
      omega
    · have differs := same.mp follows
      by_cases dup : (cc + 16 - (last + 1) % 16) % 16 = 15
      · exact .inr ⟨by omega, follows⟩
      · left
        have number := counts follows _ (continuity_status_lost.mpr ⟨differs, rfl, dup⟩)
        unfold lostBetween at number
        dsimp only at number
        split_ifs at number <;> omega
  · rintro (rfl | ⟨rfl, broken⟩)
    · refine ⟨Iff.rfl, ?_⟩
      intro _ delta status
      obtain ⟨differs, rfl, -⟩ := continuity_status_lost.mp status
      unfold lostBetween
      dsimp only
      split_ifs <;> omega
    · refine ⟨iff_of_true broken (by omega), ?_⟩
      intro _ delta status
      obtain ⟨-, rfl, counted⟩ := continuity_status_lost.mp status
      exact absurd (by omega) counted

section verdicts

variable {pid : Nat} {before : List TsPacket} {packet previous last : TsPacket}

theorem extractor_warns_iff (own : packet.pid = pid)
    (seen : latest (TsPacket.has pid) before = some previous) (other : TsPacket) :
    ExtractorWarns pid before packet other ↔
      other = previous ∧ packet.cc ≠ (previous.cc + 1) % 16 := by
  unfold ExtractorWarns
  rw [seen]
  constructor
  · rintro ⟨-, same, broken⟩
    cases same
    exact ⟨rfl, broken⟩
  · rintro ⟨rfl, broken⟩
    exact ⟨own, rfl, broken⟩

theorem scanner_reports_iff (compared : packet.carries pid = true ∧ packet.discontinuity = false)
    (carried : latest (TsPacket.carries pid) before = some last) (other : TsPacket) :
    ScannerReports pid before packet other ↔
      other = last ∧ packet.cc ≠ (last.cc + 1) % 16 := by
  unfold ScannerReports
  rw [carried]
  constructor
  · rintro ⟨-, -, same, broken⟩
    cases same
    exact ⟨rfl, broken⟩
  · rintro ⟨rfl, broken⟩
    exact ⟨compared.1, compared.2, rfl, broken⟩

/-- Where `tscc` has nothing to compare, the extractor has to be silent too. -/
theorem silent_scanner_iff (own : packet.pid = pid)
    (seen : latest (TsPacket.has pid) before = some previous)
    (silent : ∀ other, ¬ScannerReports pid before packet other) :
    VerdictsAgree pid before packet ↔ packet.cc = (previous.cc + 1) % 16 := by
  unfold VerdictsAgree
  simp only [extractor_warns_iff own seen, silent, exists_false, iff_false, false_implies,
    implies_true, and_true, exists_eq_left, not_not]

theorem verdicts_agree_iff (own : packet.pid = pid) :
    VerdictsAgree pid before packet ↔ Undisturbed pid before packet := by
  cases seen : latest (TsPacket.has pid) before with
  | none =>
      have nothing (carrying : TsPacket) :
          latest (TsPacket.carries pid) before ≠ some carrying := by
        intro carried
        have has : carrying.has pid = true := by
          have carries := latest_selected carried
          simp only [TsPacket.carries, Bool.and_eq_true] at carries
          exact carries.1
        obtain ⟨other, found⟩ := latest_of_mem (latest_mem carried) has
        rw [seen] at found
        cases found
      simp [VerdictsAgree, Undisturbed, ExtractorWarns, ScannerReports, seen, nothing]
  | some previous =>
      unfold Undisturbed
      simp only [seen, Option.some_inj, forall_eq']
      cases carried : latest (TsPacket.carries pid) before with
      | none =>
          apply silent_scanner_iff own seen
          rintro other ⟨-, -, found, -⟩
          rw [carried] at found
          cases found
      | some last =>
          dsimp only
          split_ifs with compared
          · rw [← same_verdict_iff previous.cc_lt last.cc_lt packet.cc_lt]
            unfold VerdictsAgree
            simp only [extractor_warns_iff own seen, scanner_reports_iff compared carried,
              exists_eq_left]
            apply and_congr_right
            intro same
            constructor
            · intro counts broken delta status
              exact counts previous last delta ⟨rfl, broken⟩ ⟨rfl, same.mp broken⟩ status
            · rintro counts _ _ delta ⟨rfl, broken⟩ ⟨rfl, -⟩ status
              exact counts broken delta status
          · apply silent_scanner_iff own seen
            rintro other ⟨carries, unmarked, -⟩
            exact compared ⟨carries, unmarked⟩

end verdicts

/-- A packet of the stream with what is before and behind it. -/
theorem numbered_split {packets : List TsPacket} {first last : List (TsPacket × Nat)}
    {item : TsPacket × Nat} (split : packets.zipIdx = first ++ item :: last) :
    packets = first.map Prod.fst ++ item.1 :: last.map Prod.fst ∧ item.2 = first.length := by
  have all : packets.zipIdx.map Prod.fst = packets := List.zipIdx_map_fst 0 packets
  have here : packets.zipIdx[first.length]? = some item := by
    rw [split]
    simp
  constructor
  · rw [← all, split, List.map_append, List.map_cons]
  · obtain ⟨_, _, same⟩ := Option.map_eq_some_iff.mp (List.getElem?_zipIdx ▸ here)
    rw [← same, Nat.zero_add]

theorem numbered_of_split (before : List TsPacket) (packet : TsPacket) (after : List TsPacket) :
    (before ++ packet :: after).zipIdx =
      before.zipIdx ++ (packet, before.length) :: after.zipIdx (before.length + 1) := by
  rw [List.zipIdx_append, List.zipIdx_cons, Nat.zero_add]

/-- Offsets tell packets apart. -/
theorem same_position {before other after behind : List TsPacket} {packet found : TsPacket}
    (split : before ++ packet :: after = other ++ found :: behind)
    (offset : before.length * tsSz = other.length * tsSz) : before = other ∧ packet = found := by
  have length : before.length = other.length :=
    Nat.eq_of_mul_eq_mul_right (by decide) offset
  obtain ⟨same, rest⟩ := List.append_inj split length
  exact ⟨same, (List.cons.inj rest).1⟩

section logs

variable {packets : List TsPacket} {pid : Nat} {extracted : ExtractPid} {scanned : Tscc}
  {showNull : Bool}

theorem warned_iff
    (warnings : extracted.warnings.filter Warning.isBroken =
      emitted (extractWarnings pid) [] packets.zipIdx)
    (offset : Nat) (prev cont lost : Int) :
    .streamBroken offset prev cont lost ∈ extracted.warnings ↔
      ∃ before packet after previous, packets = before ++ packet :: after ∧
        ExtractorWarns pid before packet previous ∧ offset = before.length * tsSz ∧
          prev = previous.cc ∧ cont = packet.cc ∧ lost = lostBetween previous.cc packet.cc := by
  have shown : .streamBroken offset prev cont lost ∈ extracted.warnings ↔
      .streamBroken offset prev cont lost ∈ emitted (extractWarnings pid) [] packets.zipIdx := by
    rw [← warnings, List.mem_filter]
    exact (and_iff_left rfl).symm
  rw [shown, mem_emitted]
  constructor
  · rintro ⟨first, item, last, split, written⟩
    obtain ⟨previous, warns, at_offset, rest⟩ := mem_extract_warnings.mp written
    obtain ⟨parts, number⟩ := numbered_split split
    rw [List.nil_append] at warns
    refine ⟨first.map Prod.fst, item.1, last.map Prod.fst, previous, parts, warns, ?_, rest⟩
    rw [at_offset, number, List.length_map]
  · rintro ⟨before, packet, after, previous, rfl, warns, rest⟩
    refine ⟨_, _, _, numbered_of_split before packet after, mem_extract_warnings.mpr ?_⟩
    refine ⟨previous, ?_, rest⟩
    rw [List.nil_append, List.zipIdx_map_fst]
    exact warns

theorem reported_iff (printed : scanned.printed = emitted (tsccLines showNull) [] packets.zipIdx)
    (real : pid ≠ nullPid) (offset number prev cc : Nat) (status : Status) :
    .broken offset number pid prev cc status ∈ scanned.printed ↔
      ∃ before packet after previous, packets = before ++ packet :: after ∧
        ScannerReports pid before packet previous ∧ offset = before.length * tsSz ∧
          number = before.length ∧ prev = previous.cc ∧ cc = packet.cc ∧
            continuityStatus previous.cc packet.cc = some status := by
  rw [printed, mem_emitted]
  constructor
  · rintro ⟨first, item, last, split, written⟩
    obtain ⟨previous, reports, at_offset, at_number, rest⟩ := (mem_tscc_lines real).mp written
    obtain ⟨parts, place⟩ := numbered_split split
    rw [List.nil_append] at reports
    rw [place] at at_offset at_number
    refine ⟨first.map Prod.fst, item.1, last.map Prod.fst, previous, parts, reports, ?_, ?_, rest⟩
    · rw [at_offset, List.length_map]
    · rw [at_number, List.length_map]
  · rintro ⟨before, packet, after, previous, rfl, reports, rest⟩
    refine ⟨_, _, _, numbered_of_split before packet after, (mem_tscc_lines real).mpr ?_⟩
    refine ⟨previous, ?_, rest⟩
    rw [List.nil_append, List.zipIdx_map_fst]
    exact reports

/-- The warnings at the offset of one packet are about that packet. -/
theorem warned_at
    (warnings : extracted.warnings.filter Warning.isBroken =
      emitted (extractWarnings pid) [] packets.zipIdx)
    {before after : List TsPacket} {packet : TsPacket}
    (split : packets = before ++ packet :: after) :
    (∃ prev cont lost, .streamBroken (before.length * tsSz) prev cont lost ∈ extracted.warnings) ↔
      ∃ previous, ExtractorWarns pid before packet previous := by
  constructor
  · rintro ⟨_, _, _, line⟩
    obtain ⟨other, found, _, previous, parts, warns, place, _⟩ :=
      (warned_iff warnings _ _ _ _).mp line
    obtain ⟨rfl, rfl⟩ := same_position (split.symm.trans parts) place
    exact ⟨previous, warns⟩
  · rintro ⟨previous, warns⟩
    exact ⟨_, _, _, (warned_iff warnings _ _ _ _).mpr
      ⟨before, packet, after, previous, split, warns, rfl, rfl, rfl, rfl⟩⟩

theorem reported_at (printed : scanned.printed = emitted (tsccLines showNull) [] packets.zipIdx)
    (real : pid ≠ nullPid) {before after : List TsPacket} {packet : TsPacket}
    (split : packets = before ++ packet :: after) :
    (∃ number prev cc status,
        .broken (before.length * tsSz) number pid prev cc status ∈ scanned.printed) ↔
      ∃ previous, ScannerReports pid before packet previous := by
  constructor
  · rintro ⟨_, _, _, _, line⟩
    obtain ⟨other, found, _, previous, parts, reports, place, _⟩ :=
      (reported_iff printed real _ _ _ _ _).mp line
    obtain ⟨rfl, rfl⟩ := same_position (split.symm.trans parts) place
    exact ⟨previous, reports⟩
  · rintro ⟨previous, reports⟩
    obtain ⟨status, shown⟩ : ∃ status, continuityStatus previous.cc packet.cc = some status := by
      apply Option.ne_none_iff_exists'.mp
      exact mt (continuity_status_none _ _).mp reports.2.2.2
    exact ⟨_, _, _, _, (reported_iff printed real _ _ _ _ _).mpr
      ⟨before, packet, after, previous, split, reports, rfl, rfl, rfl, rfl, shown⟩⟩

theorem ScannerReports.own {before : List TsPacket} {packet previous : TsPacket}
    (reports : ScannerReports pid before packet previous) : packet.pid = pid := by
  have carries := reports.1
  simp only [TsPacket.carries, Bool.and_eq_true, decide_eq_true_eq] at carries
  exact carries.1

/-- The whole outputs agree exactly when the verdicts on every packet of the PID do. -/
theorem checkers_agree_by_packet
    (warnings : extracted.warnings.filter Warning.isBroken =
      emitted (extractWarnings pid) [] packets.zipIdx)
    (printed : scanned.printed = emitted (tsccLines showNull) [] packets.zipIdx)
    (real : pid ≠ nullPid) :
    CheckersAgree pid extracted scanned ↔
      ∀ before packet after, packets = before ++ packet :: after → packet.pid = pid →
        VerdictsAgree pid before packet := by
  have warned := warned_iff warnings
  have reported := reported_iff printed real
  constructor
  · rintro ⟨same, counts⟩ before packet after split own
    constructor
    · rw [← warned_at warnings split, ← reported_at printed real split]
      exact same (before.length * tsSz)
    · intro previous last delta warns reports shown
      have warning := (warned _ _ _ _).mpr
        ⟨before, packet, after, previous, split, warns, rfl, rfl, rfl, rfl⟩
      have report := (reported _ _ _ _ _).mpr
        ⟨before, packet, after, last, split, reports, rfl, rfl, rfl, rfl, shown⟩
      exact counts _ _ _ _ _ _ _ _ warning report
  · intro verdicts
    constructor
    · intro offset
      constructor
      · rintro ⟨_, _, _, line⟩
        obtain ⟨before, packet, after, previous, split, warns, rfl, -⟩ := (warned _ _ _ _).mp line
        rw [reported_at printed real split]
        exact (verdicts before packet after split warns.1).1.mp ⟨previous, warns⟩
      · rintro ⟨_, _, _, _, line⟩
        obtain ⟨before, packet, after, last, split, reports, rfl, -⟩ :=
          (reported _ _ _ _ _).mp line
        rw [warned_at warnings split]
        exact (verdicts before packet after split reports.own).1.mpr ⟨last, reports⟩
    · intro offset prev cont lost number lastCc cc delta warnLine reportLine
      obtain ⟨before, packet, after, previous, split, warns, rfl, -, -, rfl⟩ :=
        (warned _ _ _ _).mp warnLine
      obtain ⟨other, found, _, last, parts, reports, place, -, -, -, shown⟩ :=
        (reported _ _ _ _ _).mp reportLine
      obtain ⟨rfl, rfl⟩ := same_position (split.symm.trans parts) place
      exact (verdicts before packet after split warns.1).2 previous last delta warns reports shown

end logs

/-- On a file of whole packets the two checkers agree about a PID exactly when each of
its packets is undisturbed. -/
theorem checkers_agree_iff {unpack : Bytes → Py (List Nat)} (documented : UnpacksHead unpack)
    (packets : List TsPacket) (showNull : Bool) {pid : Nat} (real : pid ≠ nullPid) :
    (∃ extracted scanned, tsExtract unpack (streamOf packets) pid = .ok extracted ∧
        tscc (streamOf packets) showNull = .ok scanned ∧ CheckersAgree pid extracted scanned) ↔
      ∀ before packet after, packets = before ++ packet :: after → packet.pid = pid →
        Undisturbed pid before packet := by
  obtain ⟨extracted, extracts, warnings⟩ := ts_extract_stream documented packets pid
  obtain ⟨scanned, scans, printed, -⟩ := tscc_stream packets showNull
  have byPacket := checkers_agree_by_packet warnings printed real
  constructor
  · rintro ⟨_, _, extracts', scans', agree⟩ before packet after split own
    cases extracts.symm.trans extracts'
    cases scans.symm.trans scans'
    exact (verdicts_agree_iff own).mp (byPacket.mp agree before packet after split own)
  · intro undisturbed
    refine ⟨extracted, scanned, extracts, scans, byPacket.mpr ?_⟩
    intro before packet after split own
    exact (verdicts_agree_iff own).mpr (undisturbed before packet after split own)

/-- A PID whose packets all have payload and no discontinuity indicator. -/
def PayloadOnly (pid : Nat) (packets : List TsPacket) : Prop :=
  ∀ packet ∈ packets, packet.pid = pid →
    packet.carries pid = true ∧ packet.discontinuity = false

instance (pid : Nat) (packets : List TsPacket) : Decidable (PayloadOnly pid packets) :=
  inferInstanceAs (Decidable (∀ packet ∈ packets, _ → _))

theorem PayloadOnly.undisturbed {pid : Nat} {before after : List TsPacket} {packet : TsPacket}
    (only : PayloadOnly pid (before ++ packet :: after)) (own : packet.pid = pid) :
    Undisturbed pid before packet := by
  have same : latest (TsPacket.carries pid) before = latest (TsPacket.has pid) before := by
    unfold latest
    congr 1
    apply List.filter_congr
    intro seen present
    by_cases mine : seen.pid = pid
    · rw [(only seen (List.mem_append_left _ present) mine).1]
      simp [TsPacket.has, mine]
    · simp [TsPacket.has, TsPacket.carries, mine]
  have compared := only packet (List.mem_append_right _ List.mem_cons_self) own
  intro previous seen
  rw [same, seen]
  dsimp only
  rw [if_pos compared]
  exact .inl rfl

theorem checkers_agree_after_loss :
    ∃ extracted scanned,
      tsExtract unpackFour (streamOf [countedPacket 14, countedPacket 2]) (0x100 : Nat) =
        .ok extracted ∧
      tscc (streamOf [countedPacket 14, countedPacket 2]) false = .ok scanned ∧
      CheckersAgree 0x100 extracted scanned := by
  have documented : UnpacksHead unpackFour := fun _ _ _ _ => rfl
  have only : PayloadOnly 0x100 [countedPacket 14, countedPacket 2] := by decide +kernel
  refine (checkers_agree_iff documented [countedPacket 14, countedPacket 2] false
    (by decide : 0x100 ≠ nullPid)).mpr ?_
  intro before packet after split own
  exact (split ▸ only).undisturbed own

/-- A packet of PID 0x100 without payload; its counter does not go up. -/
def adaptationPacket (cc : BitVec 4) : TsPacket where
  bytes := [0x47, 0x01, 0x00, 0x20 ||| cc.setWidth 8, 0xB7, 0x00] ++ List.replicate 182 0xFF
  whole := rfl
  synced := by rfl

/-- A packet with payload, then one without: the extractor speaks of fifteen lost packets. -/
theorem extractor_counts_adaptation_packet :
    ¬∀ (unpack : Bytes → Py (List Nat)) (packets : List TsPacket) (showNull : Bool) (pid : Nat),
      UnpacksHead unpack → pid ≠ nullPid →
        ∃ extracted scanned, tsExtract unpack (streamOf packets) pid = .ok extracted ∧
          tscc (streamOf packets) showNull = .ok scanned ∧
          CheckersAgree pid extracted scanned := by
  intro always
  have documented : UnpacksHead unpackFour := fun _ _ _ _ => rfl
  have real : 0x100 ≠ nullPid := by decide
  obtain ⟨extracted, scanned, extracts, scans, same, -⟩ :=
    always unpackFour [countedPacket 3, adaptationPacket 3] false 0x100 documented real
  obtain ⟨_, extracts', warnings⟩ :=
    ts_extract_stream documented [countedPacket 3, adaptationPacket 3] 0x100
  obtain ⟨_, scans', printed, -⟩ := tscc_stream [countedPacket 3, adaptationPacket 3] false
  cases extracts.symm.trans extracts'
  cases scans.symm.trans scans'
  have warns : ExtractorWarns 0x100 [countedPacket 3] (adaptationPacket 3) (countedPacket 3) :=
    ⟨by decide +kernel, by decide +kernel, by decide +kernel⟩
  obtain ⟨_, _, _, _, line⟩ := (same (1 * tsSz)).mp ⟨_, _, _, (warned_iff warnings _ _ _ _).mpr
    ⟨[countedPacket 3], adaptationPacket 3, [], countedPacket 3, rfl, warns, rfl, rfl, rfl, rfl⟩⟩
  obtain ⟨other, found, _, _, parts, reports, place, -⟩ :=
    (reported_iff printed real _ _ _ _ _).mp line
  obtain ⟨rfl, rfl⟩ : [countedPacket 3] = other ∧ adaptationPacket 3 = found :=
    same_position parts place
  exact absurd reports.1 (by decide +kernel)

end Testings.MpegTs
