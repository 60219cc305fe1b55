import Mathlib.Algebra.BigOperators.Group.Finset.Piecewise
import Testings.DeletionGaps
import Testings.MpegTsHeaders

/-!
# Continuity reports of `tscc`

`scan` compares the counter of a packet with payload with that of the last one of
the same PID. Its output is a function of the packets before each packet; per
PID, deletions of at most 14 packets in a row show up as exactly as many lost.
-/

set_option autoImplicit false

namespace Testings.MpegTs

open Python
open HistoryLog

/-- What is printed about a counter `cc` that follows `prev`. -/
def continuityStatus (prev cc : Nat) : Option Status :=
  let expected := (prev + 1) &&& 0xf
  let delta := (cc + 16 - expected) % 16
  if cc = expected then none else some (if delta = 0xf then .dup else .lost delta)

namespace Tscc

def compared (self : Tscc) (packet : Nat) (info : PacketInfo) : Tscc :=
  match self.last.get? info.pid with
  | none => self
  | some prev =>
      if info.discontinuity then self
      else
        match continuityStatus prev info.cc with
        | none => self
        | some status =>
            { self.print (.broken (packet * tsSz) packet info.pid prev info.cc status) with
              errors := self.errors + 1 }

def accept (showNull : Bool) (self : Tscc) (item : TsPacket × Nat) : Tscc :=
  let info := item.1.info
  if info.pid = nullPid then
    if showNull then self.print (.null (item.2 * tsSz) item.2 info.pid info.cc) else self
  else if hasPayload info.afc = false then self
  else { self.compared item.2 info with last := self.last.assign info.pid info.cc }

theorem compared_last (self : Tscc) (packet : Nat) (info : PacketInfo) :
    (self.compared packet info).last = self.last := by
  unfold compared
  cases self.last.get? info.pid with
  | none => rfl
  | some prev =>
      dsimp only
      split_ifs
      · rfl
      · cases continuityStatus prev info.cc <;> rfl

theorem compare_eq (self : Tscc) (packet : Nat) (info : PacketInfo) :
    self.compare packet info = .ok (self.compared packet info) := by
  unfold compare compared Dict.contains
  cases found : self.last.get? info.pid with
  | none => rfl
  | some prev =>
      cases info.discontinuity with
      | true => rfl
      | false =>
          have taken : (some prev).isSome = true ∧ false = false := ⟨rfl, rfl⟩
          unfold continuityStatus
          dsimp only
          rw [if_pos taken, Dict.get_of_get? found, ok_bind, if_neg Bool.false_ne_true]
          by_cases same : info.cc = (prev + 1) &&& 0xf
          · rw [if_neg (not_not.mpr same), if_pos same]
            rfl
          · rw [if_pos same, if_neg same]
            rfl

theorem packet_eq (self : Tscc) (showNull : Bool) (packet : TsPacket) (number : Nat) :
    self.packet showNull number packet.bytes = .ok (self.accept showNull (packet, number)) := by
  unfold Tscc.packet accept
  simp only [packet.packet_info, ok_bind, compare_eq, compared_last]
  split_ifs <;> rfl

theorem scan_stream (showNull : Bool) (packets : List TsPacket) (number : Nat) (self : Tscc) :
    self.scan showNull number (streamOf packets) =
      .ok ((packets.zipIdx number).foldl (accept showNull) self) := by
  induction packets generalizing number self with
  | nil =>
      rw [Tscc.scan]
      rfl
  | cons packet rest ih =>
      have some_left : streamOf (packet :: rest) ≠ [] := by
        intro empty
        have length := stream_length (packet :: rest)
        rw [empty] at length
        simp [tsSz] at length
      have enough : ¬(streamOf (packet :: rest)).length < tsSz := by
        rw [stream_length, List.length_cons, Nat.succ_mul]
        omega
      have first : slice (streamOf (packet :: rest)) 0 tsSz = packet.bytes := by
        rw [stream_cons, slice, ← packet.whole, List.take_left, List.drop_zero]
      have remains : sliceFrom (streamOf (packet :: rest)) tsSz = streamOf rest := by
        rw [stream_cons, sliceFrom, ← packet.whole, List.drop_left]
      rw [Tscc.scan, if_neg some_left, dif_neg enough, first, remains, packet_eq, ok_bind, ih]
      rfl

end Tscc

def TsPacket.carries (pid : Nat) (packet : TsPacket) : Bool :=
  decide (packet.pid = pid) && hasPayload packet.afc

/-- What is printed when `previous` was the last packet with payload of the PID. -/
def brokenLine (previous item : TsPacket × Nat) : List Report :=
  if item.1.discontinuity then []
  else
    (continuityStatus previous.1.cc item.1.cc).toList.map fun status =>
      .broken (item.2 * tsSz) item.2 item.1.pid previous.1.cc item.1.cc status

def tsccLines (showNull : Bool) (before : List (TsPacket × Nat)) (item : TsPacket × Nat) :
    List Report :=
  if item.1.pid = nullPid then
    if showNull then [.null (item.2 * tsSz) item.2 item.1.pid item.1.cc] else []
  else if hasPayload item.1.afc = false then []
  else followed brokenLine (before.filter fun seen => seen.1.carries item.1.pid) item

def Report.isBroken : Report → Bool
  | .broken .. => true
  | _ => false

namespace Tscc

structure Remembers (before : List (TsPacket × Nat)) (state : Tscc) : Prop where
  last : ∀ pid ≠ nullPid, state.last.get? pid =
    (latest (fun seen : TsPacket × Nat => seen.1.carries pid) before).map fun seen => seen.1.cc
  errors : state.errors = state.printed.countP Report.isBroken

theorem compared_lines {before : List (TsPacket × Nat)} {self : Tscc}
    (remembers : Remembers before self) {item : TsPacket × Nat} (real : item.1.pid ≠ nullPid) :
    (self.compared item.2 item.1.info).printed = self.printed ++
        followed brokenLine (before.filter fun seen => seen.1.carries item.1.pid) item ∧
      (self.compared item.2 item.1.info).errors =
        (self.compared item.2 item.1.info).printed.countP Report.isBroken := by
  have last := remembers.last item.1.pid real
  have errors := remembers.errors
  change self.last.get? item.1.info.pid = _ at last
  unfold latest at last
  unfold compared followed
  rw [last]
  cases before.filter (fun seen => seen.1.carries item.1.pid) |>.getLast? with
  | none => exact ⟨(List.append_nil _).symm, errors⟩
  | some previous =>
      have status : continuityStatus previous.1.cc item.1.info.cc =
          continuityStatus previous.1.cc item.1.cc := rfl
      dsimp only [Option.map_some, brokenLine]
      by_cases marked : item.1.discontinuity = true
      · have shown : item.1.info.discontinuity = true := marked
        rw [if_pos shown, if_pos marked]
        exact ⟨(List.append_nil _).symm, errors⟩
      · have shown : ¬item.1.info.discontinuity = true := marked
        rw [if_neg shown, if_neg marked, status]
        cases continuityStatus previous.1.cc item.1.cc with
        | none => exact ⟨(List.append_nil _).symm, errors⟩
        | some status =>
            refine ⟨rfl, ?_⟩
            simp [print, errors, Report.isBroken]

/-- One packet prints its lines and is remembered. -/
theorem accept_lines (showNull : Bool) (before : List (TsPacket × Nat)) (self : Tscc)
    (item : TsPacket × Nat) (remembers : Remembers before self) :
    Remembers (before ++ [item]) (accept showNull self item) ∧
      (accept showNull self item).printed = self.printed ++ tsccLines showNull before item := by
  unfold accept tsccLines
  dsimp only
  by_cases null : item.1.pid = nullPid
  · have unseen : ∀ pid ≠ nullPid, item.1.carries pid = false := by
      intro pid real
      simp [TsPacket.carries, null, Ne.symm real]
    have last : ∀ pid ≠ nullPid, self.last.get? pid =
        (latest (fun seen : TsPacket × Nat => seen.1.carries pid) (before ++ [item])).map
          fun seen => seen.1.cc := by
      intro pid real
      rw [latest_concat, if_neg (by simp [unseen pid real])]
      exact remembers.last pid real
    have kind : item.1.info.pid = nullPid := null
    rw [if_pos kind, if_pos null]
    cases showNull with
    | true =>
        refine ⟨⟨last, ?_⟩, rfl⟩
        simp [print, remembers.errors, Report.isBroken]
    | false => exact ⟨⟨last, remembers.errors⟩, (List.append_nil _).symm⟩
  · have kind : ¬item.1.info.pid = nullPid := null
    rw [if_neg kind, if_neg null]
    by_cases empty : hasPayload item.1.afc = false
    · have bare : hasPayload item.1.info.afc = false := empty
      rw [if_pos bare, if_pos empty]
      refine ⟨⟨?_, remembers.errors⟩, (List.append_nil _).symm⟩
      intro pid real
      rw [latest_concat, if_neg (by simp [TsPacket.carries, empty])]
      exact remembers.last pid real
    · have bare : ¬hasPayload item.1.info.afc = false := empty
      obtain ⟨written, errors⟩ := compared_lines remembers null
      rw [if_neg bare, if_neg empty]
      refine ⟨⟨?_, errors⟩, written⟩
      intro pid real
      change (self.last.assign item.1.pid item.1.cc).get? pid = _
      rw [Dict.get_assign, latest_concat]
      rw [Bool.not_eq_false] at empty
      by_cases same : item.1.pid = pid
      · rw [if_pos same, if_pos (by simp [TsPacket.carries, same, empty])]
        rfl
      · rw [if_neg same, if_neg (by simp [TsPacket.carries, same])]
        exact remembers.last pid real

end Tscc

/-- `scan` on a file of whole packets: what it prints and what it returns. -/
theorem tscc_stream (packets : List TsPacket) (showNull : Bool) :
    Returns (tscc (streamOf packets) showNull) fun final =>
      final.printed = emitted (tsccLines showNull) [] packets.zipIdx ∧
        final.errors = final.printed.countP Report.isBroken := by
  have fresh : Tscc.Remembers [] { last := .empty, errors := 0, printed := [] } :=
    ⟨fun _ _ => rfl, rfl⟩
  obtain ⟨remembers, printed⟩ :=
    fold_emitted Tscc.printed Tscc.Remembers (Tscc.accept_lines showNull) packets.zipIdx fresh
  exact ⟨_, Tscc.scan_stream showNull packets 0 _, printed, remembers.errors⟩

def statusOf (pid : Nat) : Report → Option Status
  | .broken _ _ other _ _ status => if other = pid then some status else none
  | _ => none

def statuses (pid : Nat) (reports : List Report) : List Status := reports.filterMap (statusOf pid)

/-- What is printed between two successive packets with payload of a PID. -/
def statusAfter (previous item : TsPacket × Nat) : List Status :=
  if item.1.discontinuity then [] else (continuityStatus previous.1.cc item.1.cc).toList

theorem broken_line_statuses (pid : Nat) (previous item : TsPacket × Nat) :
    (brokenLine previous item).filterMap (statusOf pid) =
      if item.1.pid = pid then statusAfter previous item else [] := by
  unfold brokenLine statusAfter
  by_cases marked : item.1.discontinuity = true
  · simp [marked]
  · cases continuityStatus previous.1.cc item.1.cc with
    | none => simp [marked]
    | some status =>
        by_cases same : item.1.pid = pid
        · simp [marked, same, statusOf]
        · simp [marked, same, statusOf]

/-- A PID's reports depend on its packets with payload only. -/
theorem statuses_emitted (showNull : Bool) {pid : Nat} (real : pid ≠ nullPid)
    (items : List (TsPacket × Nat)) :
    statuses pid (emitted (tsccLines showNull) [] items) =
      (consecutive (items.filter fun item => item.1.carries pid)).flatMap fun pair =>
        statusAfter pair.1 pair.2 := by
  rw [statuses, emitted_filter_map,
    emitted_filter (fun item => item.1.carries pid) (followed statusAfter), List.filter_nil,
    emitted_followed]
  · intro before item carries
    obtain ⟨same, payload⟩ : item.1.pid = pid ∧ hasPayload item.1.afc = true := by
      simpa [TsPacket.carries] using carries
    unfold tsccLines followed
    rw [if_neg (same ▸ real), if_neg (by simp [payload]), same]
    cases before.filter (fun seen => seen.1.carries pid) |>.getLast? with
    | none => rfl
    | some previous =>
        dsimp only
        rw [broken_line_statuses, if_pos same]
  · intro before item other
    unfold tsccLines followed
    split_ifs with null shown empty
    · rfl
    · rfl
    · rfl
    · have elsewhere : item.1.pid ≠ pid := by
        intro same
        simp [TsPacket.carries, same] at other
        exact empty other
      cases before.filter (fun seen => seen.1.carries item.1.pid) |>.getLast? with
      | none => rfl
      | some previous =>
          dsimp only
          rw [broken_line_statuses, if_neg elsewhere]

theorem filter_numbered (packets : List TsPacket) (pid : Nat) :
    (packets.zipIdx.filter fun item => item.1.carries pid).map (fun item => item.1.cc) =
      (packets.filter (TsPacket.carries pid)).map TsPacket.cc := by
  have numbered : packets.zipIdx.map Prod.fst = packets := List.zipIdx_map_fst 0 packets
  conv => rhs; rw [← numbered]
  rw [List.filter_map, List.map_map]
  rfl

theorem statuses_counters (showNull : Bool) {pid : Nat} (real : pid ≠ nullPid)
    {packets : List TsPacket} (unmarked : ∀ packet ∈ packets, packet.discontinuity = false) :
    statuses pid (emitted (tsccLines showNull) [] packets.zipIdx) =
      (consecutive ((packets.filter (TsPacket.carries pid)).map TsPacket.cc)).flatMap fun pair =>
        (continuityStatus pair.1 pair.2).toList := by
  rw [statuses_emitted showNull real, ← filter_numbered, consecutive_map, List.flatMap_map]
  apply List.flatMap_congr
  intro pair found
  have present := (mem_of_consecutive found).2
  have member : pair.2.1 ∈ packets :=
    List.fst_mem_of_mem_zipIdx (List.mem_filter.mp present).1
  simp [statusAfter, unmarked pair.2.1 member]

/-- At most 14 packets lost between two counters are counted as they are. -/
theorem continuity_status_gap (previous : Nat) {gap : Nat} (small : gap ≤ 14) :
    continuityStatus previous ((previous + gap + 1) % 16) =
      if 0 < gap then some (.lost gap) else none := by
  have expected : (previous + 1) &&& 0xf = (previous + 1) % 16 :=
    Nat.and_two_pow_sub_one_eq_mod (previous + 1) 4
  have delta : ((previous + gap + 1) % 16 + 16 - (previous + 1) % 16) % 16 = gap := by omega
  unfold continuityStatus
  dsimp only
  rw [expected, delta]
  by_cases nothing : gap = 0
  · subst nothing
    rw [if_pos (by rw [Nat.add_zero]), if_neg (Nat.lt_irrefl 0)]
  · have differs : (previous + gap + 1) % 16 ≠ (previous + 1) % 16 := by omega
    have counted : gap ≠ 0xf := by omega
    rw [if_neg differs, if_neg counted, if_pos (Nat.pos_of_ne_zero nothing)]

theorem statuses_gaps {counters : List (Nat × Nat)} {gaps : List Nat}
    (differ : List.Forall₂ (fun pair gap => pair.2 = (pair.1 + gap + 1) % 16) counters gaps)
    (small : ∀ gap ∈ gaps, gap ≤ 14) :
    (counters.flatMap fun pair => (continuityStatus pair.1 pair.2).toList) =
      (gaps.filter (0 < ·)).map Status.lost := by
  induction differ with
  | nil => rfl
  | cons here rest ih =>
      rename_i pair gap pairs others
      have others_small := ih fun other present => small other (List.mem_cons_of_mem _ present)
      rw [List.flatMap_cons, others_small, here,
        continuity_status_gap pair.1 (small gap List.mem_cons_self)]
      by_cases lost : 0 < gap
      · rw [if_pos lost, List.filter_cons_of_pos (by simpa using lost)]
        rfl
      · rw [if_neg lost, List.filter_cons_of_neg (by simpa using lost)]
        rfl

/-- The counters of the packets with payload go up by one modulo 16 per PID. -/
structure Continuous (packets : List TsPacket) : Prop where
  unmarked : ∀ packet ∈ packets, packet.discontinuity = false
  counted : ∀ pid ≠ nullPid, ((packets.filter (TsPacket.carries pid)).map TsPacket.cc).IsChain
    (DeletionGaps.Successive 16)

/-- Which packets with payload of a PID survive. -/
def survivors (pid : Nat) (stream : List (TsPacket × Bool)) : List Bool :=
  (stream.filter fun entry => entry.1.carries pid).map Prod.snd

def surviving (stream : List (TsPacket × Bool)) : List TsPacket :=
  (stream.filter Prod.snd).map Prod.fst

theorem surviving_statuses {stream : List (TsPacket × Bool)}
    (continuous : Continuous (stream.map Prod.fst)) {pid : Nat} (real : pid ≠ nullPid)
    (small : ∀ gap ∈ DeletionGaps.gaps (survivors pid stream), gap ≤ 14) (showNull : Bool) :
    statuses pid (emitted (tsccLines showNull) [] (surviving stream).zipIdx) =
      ((DeletionGaps.gaps (survivors pid stream)).filter (0 < ·)).map Status.lost := by
  let counters := (stream.filter fun entry => entry.1.carries pid).map fun entry =>
    (entry.1.cc, entry.2)
  have all : counters.map Prod.fst =
      ((stream.map Prod.fst).filter (TsPacket.carries pid)).map TsPacket.cc := by
    rw [List.filter_map, List.map_map, List.map_map]
    rfl
  have flags : counters.map Prod.snd = survivors pid stream := by
    rw [List.map_map]
    rfl
  have kept : (counters.filter Prod.snd).map Prod.fst =
      ((surviving stream).filter (TsPacket.carries pid)).map TsPacket.cc := by
    unfold surviving
    rw [List.filter_map, List.filter_map, List.map_map, List.map_map, List.filter_filter,
      List.filter_filter]
    congr 1
    apply List.filter_congr
    intro entry _
    exact Bool.and_comm _ _
  have unmarked : ∀ packet ∈ surviving stream, packet.discontinuity = false := by
    intro packet present
    obtain ⟨entry, survives, rfl⟩ := List.mem_map.mp present
    exact continuous.unmarked entry.1 (List.mem_map_of_mem (List.mem_filter.mp survives).1)
  have bounded : ∀ counter ∈ counters, counter.1 < 16 := by
    intro counter present
    obtain ⟨entry, -, rfl⟩ := List.mem_map.mp present
    exact entry.1.cc_lt
  have counted := continuous.counted pid real
  rw [← all] at counted
  have differ := DeletionGaps.survivors_differ counters counted bounded
  rw [kept, flags] at differ
  rw [statuses_counters showNull real unmarked, statuses_gaps differ small]

/-- Only packets of real PIDs are reported. -/
theorem broken_pid {showNull : Bool} {items : List (TsPacket × Nat)}
    {offset packet pid prev cc : Nat} {status : Status}
    (printed : .broken offset packet pid prev cc status ∈ emitted (tsccLines showNull) [] items) :
    pid < nullPid := by
  obtain ⟨before, item, _, -, written⟩ := mem_emitted.mp printed
  rw [List.nil_append] at written
  unfold tsccLines followed at written
  split_ifs at written with null shown empty
  · simp at written
  · simp at written
  · simp at written
  · have bound := item.1.pid_lt
    have same : item.1.pid = pid := by
      cases last : before.filter (fun seen => seen.1.carries item.1.pid) |>.getLast? with
      | none => simp [last] at written
      | some previous =>
          simp only [last, brokenLine] at written
          split_ifs at written
          · simp at written
          · simp only [List.mem_map, Report.broken.injEq] at written
            obtain ⟨_, _, _, _, same, _⟩ := written
            exact same
    unfold nullPid at null ⊢
    omega

/-- Every report is one of exactly one PID. -/
theorem broken_by_pid {reports : List Report} {bound : Nat}
    (real : ∀ offset packet pid prev cc status,
      .broken offset packet pid prev cc status ∈ reports → pid < bound) :
    reports.countP Report.isBroken =
      ∑ pid ∈ Finset.range bound, (statuses pid reports).length := by
  induction reports with
  | nil => simp [statuses]
  | cons report rest ih =>
      have others := ih fun offset packet pid prev cc status present =>
        real offset packet pid prev cc status (List.mem_cons_of_mem _ present)
      rw [List.countP_cons, others]
      cases report with
      | broken offset packet pid prev cc status =>
          have inside : pid ∈ Finset.range bound :=
            Finset.mem_range.mpr (real offset packet pid prev cc status List.mem_cons_self)
          have once (other : Nat) :
              (statuses other (.broken offset packet pid prev cc status :: rest)).length =
                (statuses other rest).length + if other = pid then 1 else 0 := by
            by_cases same : pid = other
            · simp [statuses, statusOf, same]
            · simp [statuses, statusOf, same, Ne.symm same]
          rw [Finset.sum_congr rfl fun other _ => once other, Finset.sum_add_distrib,
            Finset.sum_ite_eq', if_pos inside]
          rfl
      | _ => rfl

/-- The numbers of packets reported lost. -/
def lostNumbers (pid : Nat) (reports : List Report) : List Nat :=
  (statuses pid reports).filterMap fun
    | .lost delta => some delta
    | .dup => none

theorem lost_numbers_gaps {reports : List Report} {pid : Nat} {gaps : List Nat}
    (counted : statuses pid reports = (gaps.filter (0 < ·)).map Status.lost) :
    (lostNumbers pid reports).sum = gaps.sum := by
  have numbers : lostNumbers pid reports = gaps.filter (0 < ·) := by
    rw [lostNumbers, counted, List.filterMap_map]
    exact List.filterMap_some
  rw [numbers]
  clear counted numbers
  induction gaps with
  | nil => rfl
  | cons gap rest ih =>
      by_cases lost : 0 < gap
      · rw [List.filter_cons_of_pos (by simpa using lost), List.sum_cons, List.sum_cons, ih]
      · have nothing : gap = 0 := Nat.eq_zero_of_not_pos lost
        rw [List.filter_cons_of_neg (by simpa using lost), List.sum_cons, ih, nothing,
          Nat.zero_add]

/-- When at most 14 packets with payload of a PID go missing in a row, `scan` reports no
duplicates, one error for each place where some are missing, and as many lost per PID
as were deleted inside. -/
theorem losses_counted (stream : List (TsPacket × Bool)) (showNull : Bool)
    (continuous : Continuous (stream.map Prod.fst))
    (small : ∀ pid ≠ nullPid, ∀ gap ∈ DeletionGaps.gaps (survivors pid stream), gap ≤ 14) :
    Returns (tscc (streamOf (surviving stream)) showNull) fun final =>
      (∀ report ∈ final.printed, ∀ pid, statusOf pid report ≠ some .dup) ∧
        final.errors = ∑ pid ∈ Finset.range nullPid,
          (DeletionGaps.gaps (survivors pid stream)).countP (0 < ·) ∧
        ∀ pid ≠ nullPid, (lostNumbers pid final.printed).sum =
          DeletionGaps.deletedInside (survivors pid stream) := by
  apply (tscc_stream (surviving stream) showNull).weaken
  rintro final ⟨printed, errors⟩
  have counted : ∀ pid ≠ nullPid, statuses pid final.printed =
      ((DeletionGaps.gaps (survivors pid stream)).filter (0 < ·)).map Status.lost := by
    intro pid real
    rw [printed]
    exact surviving_statuses continuous real (small pid real) showNull
  have real : ∀ offset packet pid prev cc status,
      .broken offset packet pid prev cc status ∈ final.printed → pid < nullPid := by
    intro offset packet pid prev cc status present
    rw [printed] at present
    exact broken_pid present
  refine ⟨?_, ?_, ?_⟩
  · intro report present pid dup
    have shown : Status.dup ∈ statuses pid final.printed :=
      List.mem_filterMap.mpr ⟨report, present, dup⟩
    have below : pid < nullPid := by
      cases report with
      | broken offset packet other prev cc status =>
          have same : other = pid := by
            by_contra differs
            simp [statusOf, differs] at dup
          exact same ▸ real offset packet other prev cc status present
      | _ => cases dup
    rw [counted pid (Nat.ne_of_lt below)] at shown
    obtain ⟨gap, -, lost⟩ := List.mem_map.mp shown
    cases lost
  · rw [errors, broken_by_pid real]
    apply Finset.sum_congr rfl
    intro pid below
    rw [counted pid (Nat.ne_of_lt (Finset.mem_range.mp below)), List.length_map,
      List.countP_eq_length_filter]
  · intro pid other
    rw [lost_numbers_gaps (counted pid other), DeletionGaps.gaps_sum]

/-- A packet of PID 0x100 with payload. -/
def countedPacket (cc : BitVec 4) : TsPacket where
  bytes := [0x47, 0x01, 0x00, 0x10 ||| cc.setWidth 8] ++ List.replicate 184 0
  whole := rfl
  synced := by rfl

theorem counted_packet_carries (cc : BitVec 4) {pid : Nat} (other : pid ≠ 0x100) :
    (countedPacket cc).carries pid = false := by
  have high : (countedPacket cc).byte 1 = 1 := rfl
  have low : (countedPacket cc).byte 2 = 0 := rfl
  have own : (countedPacket cc).pid = 0x100 := by
    rw [TsPacket.pid, high, low]
    rfl
  simp [TsPacket.carries, own, Ne.symm other]

/-- The third of five packets is lost, across the wrap of the counter. -/
theorem losses_counted_one_lost :
    Returns (tscc (streamOf (surviving [(countedPacket 14, true), (countedPacket 15, true),
      (countedPacket 0, false), (countedPacket 1, true), (countedPacket 2, false)])) false)
      fun final => final.errors = 1 ∧ (lostNumbers 0x100 final.printed).sum = 1 := by
  have others (pid : Nat) (other : pid ≠ 0x100) (cc : BitVec 4) :
      (countedPacket cc).carries pid = false :=
    counted_packet_carries cc other
  refine (losses_counted [(countedPacket 14, true), (countedPacket 15, true),
      (countedPacket 0, false), (countedPacket 1, true), (countedPacket 2, false)] false
      ⟨by decide +kernel, ?_⟩ ?_).weaken ?_
  · intro pid _
    by_cases other : pid = 0x100
    · subst other
      decide +kernel
    · simp [others pid other]
  · intro pid _
    by_cases other : pid = 0x100
    · subst other
      decide +kernel
    · simp [survivors, others pid other, DeletionGaps.gaps, DeletionGaps.gapsFrom]
  · rintro final ⟨-, errors, lost⟩
    have one : (lostNumbers 0x100 final.printed).sum = 1 :=
      (lost 0x100 (by decide)).trans (by decide +kernel)
    refine ⟨?_, one⟩
    rw [errors, Finset.sum_eq_single 0x100]
    · decide +kernel
    · intro pid _ other
      simp [survivors, others pid other, DeletionGaps.gaps, DeletionGaps.gapsFrom]
    · intro outside
      exact absurd (Finset.mem_range.mpr (by decide)) outside

end Testings.MpegTs
