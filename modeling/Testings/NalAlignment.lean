import Testings.NalEmulation
import Testings.NalUnits

/-!
# The alignment byte that is reported

`main` of `h264nal.py`. The last byte with a bit set is looked up in the payload
without its emulation prevention bytes, and printed as an offset into the file.
-/

set_option autoImplicit false

namespace Testings.H264

open Python

/-- The loop of `find_rbsp_trailing_bits` over the bit positions below a bound, from
the last one down. -/
def trailingBitsBelow (rbsp : Bytes) : Nat → Py (Option (Nat × Nat))
  | 0 => pure none
  | bitPos + 1 => do
      let byteIndex := bitPos / 8
      let bitIndex := 7 - bitPos % 8
      let byte ← index rbsp byteIndex
      if (byte >>> bitIndex) &&& 1 ≠ 0 then pure (some (byteIndex, byte))
      else trailingBitsBelow rbsp bitPos

def findRbspTrailingBits (rbsp : Bytes) : Py (Option (Nat × Nat)) :=
  trailingBitsBelow rbsp (rbsp.length * 8)

structure AlignmentReport where
  offset : Nat
  fileOffset : Nat
  byteValue : Nat
  deriving DecidableEq

/-- One turn of the loop of `main`; the lines printed so far are carried along. -/
def reportNal (data : Bytes) (printed : List AlignmentReport) (nal : NalUnit) :
    Py (List AlignmentReport) :=
  let bytes := slice data nal.nalStart nal.nalEnd
  if bytes = [] then pure printed
  else do
    let first ← index bytes 0
    let nalType := first &&& 0x1F
    if nalType = 5 then do
      let rbsp := removeEmulationPrevention (sliceFrom bytes 1)
      let found ← findRbspTrailingBits rbsp
      match found with
      | some (byteIndex, byteValue) =>
          pure (printed ++ [⟨nal.offset, nal.nalStart + 1 + byteIndex, byteValue⟩])
      | none => pure printed
    else pure printed

/-- `main` of `h264nal.py` on the contents of the file. -/
def alignmentReports (data : Bytes) : Py (List AlignmentReport) :=
  (nalUnits data).foldlM (reportNal data) []

/-- The last byte that is not zero, with its index. -/
def LastNonzero (rbsp : Bytes) : Option (Nat × Nat) → Prop
  | none => ∀ byte ∈ rbsp, byte = 0
  | some (k, value) => ∃ byte, rbsp[k]? = some byte ∧ byte ≠ 0 ∧ byte.toNat = value ∧
      ∀ j later, k < j → rbsp[j]? = some later → later = 0

/-- The bit that `find_rbsp_trailing_bits` looks at. -/
def bitAt (rbsp : Bytes) (bitPos : Nat) : Nat :=
  ((rbsp.getD (bitPos / 8) 0).toNat >>> (7 - bitPos % 8)) &&& 1

theorem byte_zero_of_bits {byte : BitVec 8}
    (clear : ∀ bit, bit < 8 → (byte.toNat >>> bit) &&& 1 = 0) : byte = 0 := by
  revert byte
  decide

theorem bit_of_zero_byte (bit : Nat) : ((0 : BitVec 8).toNat >>> bit) &&& 1 = 0 := by
  simp

/-- A byte whose bits are all clear is zero. -/
theorem byte_zero_of_bits_at {rbsp : Bytes} {j : Nat} {byte : BitVec 8}
    (present : rbsp[j]? = some byte) (clear : ∀ bit, bit < 8 → bitAt rbsp (8 * j + bit) = 0) :
    byte = 0 := by
  apply byte_zero_of_bits
  intro bit bounded
  have here := clear (7 - bit) (by omega)
  rw [bitAt, show (8 * j + (7 - bit)) / 8 = j by omega,
    show 7 - (8 * j + (7 - bit)) % 8 = bit by omega, List.getD_eq_getElem?_getD, present] at here
  exact here

theorem trailing_bits_below_returns {rbsp : Bytes} {n : Nat} (bounded : n ≤ rbsp.length * 8)
    (clear : ∀ bitPos, n ≤ bitPos → bitAt rbsp bitPos = 0) :
    Returns (trailingBitsBelow rbsp n) (LastNonzero rbsp) := by
  induction n with
  | zero =>
      apply Returns.pure
      intro byte member
      obtain ⟨j, inside, here⟩ := List.mem_iff_getElem.mp member
      apply byte_zero_of_bits_at (j := j) (by rw [List.getElem?_eq_getElem inside, here])
      exact fun bit _ => clear _ (Nat.zero_le _)
  | succ bitPos ih =>
      have inside : bitPos / 8 < rbsp.length := by omega
      rw [trailingBitsBelow, index_get_d inside, ok_bind]
      apply Returns.ite
      · intro set
        apply Returns.pure
        have present := List.getElem?_eq_getElem inside
        have same : rbsp.getD (bitPos / 8) 0 = rbsp[bitPos / 8] := by
          rw [List.getD_eq_getElem?_getD, present, Option.getD_some]
        refine ⟨rbsp[bitPos / 8], present, ?_, by rw [same], ?_⟩
        · intro zero
          rw [same, zero] at set
          exact set (bit_of_zero_byte _)
        · intro j later behind laterPresent
          exact byte_zero_of_bits_at laterPresent fun bit _ => clear _ (by omega)
      · intro unset
        apply ih (by omega)
        intro other above
        by_cases here : other = bitPos
        · rw [here]
          exact not_not.mp unset
        · exact clear other (by omega)

theorem find_trailing_bits_returns (rbsp : Bytes) :
    Returns (findRbspTrailingBits rbsp) (LastNonzero rbsp) := by
  apply trailing_bits_below_returns (Nat.le_refl _)
  intro bitPos beyond
  have outside : rbsp.length ≤ bitPos / 8 := by omega
  rw [bitAt, List.getD_eq_getElem?_getD, List.getElem?_eq_none outside]
  exact bit_of_zero_byte _

/-- The third byte of `00 00 03`. -/
def IsEmulationByte (payload : Bytes) (p : Nat) : Prop :=
  2 ≤ p ∧ payload[p - 2]? = some 0 ∧ payload[p - 1]? = some 0 ∧ payload[p]? = some 3

/-- What `remove_emulation_prevention` keeps, with the offsets it has it from. -/
def keptFrom (i : Nat) : Bytes → List (Nat × BitVec 8)
  | [] => []
  | byte :: rest =>
      if AtWindow byte rest then (i, 0) :: (i + 1, 0) :: keptFrom (i + 3) (rest.drop 2)
      else (i, byte) :: keptFrom (i + 1) rest
termination_by payload => payload.length
decreasing_by
  · rw [List.length_drop, List.length_cons]
    omega
  · exact Nat.lt_succ_self _

theorem kept_bytes (i : Nat) (payload : Bytes) :
    (keptFrom i payload).map Prod.snd = removeEmulationPrevention payload := by
  fun_induction keptFrom i payload with
  | case1 i => rw [remove_nil, List.map_nil]
  | case2 i byte rest window ih => rw [removeEmulationPrevention, if_pos window, ← ih]; rfl
  | case3 i byte rest other ih => rw [remove_skip other, ← ih]; rfl

theorem window_shape {byte : BitVec 8} {rest : Bytes} (window : AtWindow byte rest) :
    byte :: rest = 0 :: 0 :: 3 :: rest.drop 2 := by
  obtain ⟨zero, two⟩ := window
  have split := List.take_append_drop 2 rest
  rw [two] at split
  rw [zero, ← split]
  rfl

theorem no_emulation_early {payload : Bytes} {p : Nat} (early : p < 2) :
    ¬IsEmulationByte payload p := by
  intro emulation
  have bounded := emulation.1
  omega

theorem emulation_window {tail : Bytes} {p : Nat} :
    IsEmulationByte (0 :: 0 :: 3 :: tail) p ↔
      p = 2 ∨ ∃ q, p = q + 3 ∧ IsEmulationByte tail q := by
  match p with
  | 0 => simp [IsEmulationByte]
  | 1 => simp [IsEmulationByte]
  | 2 => simp [IsEmulationByte]
  | 3 => simp [IsEmulationByte]
  | 4 => simp [IsEmulationByte]
  | q + 5 => simp [IsEmulationByte]

theorem emulation_skip {byte : BitVec 8} {rest : Bytes} {p : Nat} (other : ¬AtWindow byte rest) :
    IsEmulationByte (byte :: rest) p ↔ ∃ q, p = q + 1 ∧ IsEmulationByte rest q := by
  match p with
  | 0 => simp [IsEmulationByte]
  | 1 => simp [IsEmulationByte]
  | 2 =>
      constructor
      · intro ⟨_, first, second, third⟩
        apply absurd _ other
        cases rest with
        | nil => cases second
        | cons next tail =>
            cases tail with
            | nil => cases third
            | cons last tail =>
                cases first
                cases second
                cases third
                exact ⟨rfl, rfl⟩
      · rintro ⟨q, here, bounded, _⟩
        omega
  | q + 3 => simp [IsEmulationByte]

/-- The byte kept at index `k` comes from an offset that is `k` unless an emulation
prevention byte has been left out before it. -/
theorem kept_at {i k offset : Nat} {payload : Bytes} {byte : BitVec 8}
    (kept : (keptFrom i payload)[k]? = some (offset, byte)) :
    ∃ p, offset = i + p ∧ k ≤ p ∧ payload[p]? = some byte ∧ ¬IsEmulationByte payload p ∧
      (k = p ↔ ∀ q, q < p → ¬IsEmulationByte payload q) := by
  fun_induction keptFrom i payload generalizing k with
  | case1 i => cases kept
  | case2 i head rest window ih =>
      rw [window_shape window]
      match k with
      | 0 =>
          cases kept
          refine ⟨0, rfl, Nat.le_refl 0, rfl, no_emulation_early (by omega), ?_⟩
          exact ⟨fun _ q before => no_emulation_early (by omega), fun _ => rfl⟩
      | 1 =>
          cases kept
          refine ⟨1, rfl, Nat.le_refl 1, rfl, no_emulation_early (by omega), ?_⟩
          exact ⟨fun _ q before => no_emulation_early (by omega), fun _ => rfl⟩
      | k + 2 =>
          obtain ⟨p, from_, after, present, plain, _⟩ := ih kept
          refine ⟨p + 3, by omega, by omega, present, ?_, ?_⟩
          · rw [emulation_window]
            rintro (here | ⟨q, here, emulation⟩)
            · omega
            · obtain rfl : q = p := by omega
              exact plain emulation
          · constructor
            · intro same
              omega
            · intro none
              exact absurd (emulation_window.mpr (.inl rfl)) (none 2 (by omega))
  | case3 i head rest other ih =>
      match k with
      | 0 =>
          cases kept
          refine ⟨0, rfl, Nat.le_refl 0, rfl, no_emulation_early (by omega), ?_⟩
          exact ⟨fun _ q before => no_emulation_early (by omega), fun _ => rfl⟩
      | k + 1 =>
          obtain ⟨p, from_, after, present, plain, same⟩ := ih kept
          refine ⟨p + 1, by omega, by omega, present, ?_, ?_⟩
          · rw [emulation_skip other]
            rintro ⟨q, here, emulation⟩
            obtain rfl : q = p := by omega
            exact plain emulation
          · constructor
            · intro indices q before
              rw [emulation_skip other]
              rintro ⟨earlier, here, emulation⟩
              exact same.mp (by omega) earlier (by omega) emulation
            · intro none
              rw [same.mpr]
              intro q before emulation
              exact none (q + 1) (by omega) ((emulation_skip other).mpr ⟨q, rfl, emulation⟩)

theorem kept_mem {i p : Nat} {payload : Bytes} {byte : BitVec 8}
    (present : payload[p]? = some byte) (plain : ¬IsEmulationByte payload p) :
    (i + p, byte) ∈ keptFrom i payload := by
  fun_induction keptFrom i payload generalizing p with
  | case1 i => cases present
  | case2 i head rest window ih =>
      rw [window_shape window] at present plain
      match p with
      | 0 =>
          cases present
          exact List.mem_cons_self
      | 1 =>
          cases present
          exact List.mem_cons_of_mem _ List.mem_cons_self
      | 2 => exact absurd (emulation_window.mpr (.inl rfl)) plain
      | p + 3 =>
          apply List.mem_cons_of_mem _ (List.mem_cons_of_mem _ _)
          rw [show i + (p + 3) = i + 3 + p by omega]
          exact ih present fun emulation => plain (emulation_window.mpr (.inr ⟨p, rfl, emulation⟩))
  | case3 i head rest other ih =>
      match p with
      | 0 =>
          cases present
          exact List.mem_cons_self
      | p + 1 =>
          apply List.mem_cons_of_mem
          rw [show i + (p + 1) = i + 1 + p by omega]
          exact ih present fun emulation => plain ((emulation_skip other).mpr ⟨p, rfl, emulation⟩)

theorem kept_increasing (i : Nat) (payload : Bytes) :
    (keptFrom i payload).Pairwise fun first next => first.1 < next.1 := by
  have behind {j : Nat} {bytes : Bytes} {entry : Nat × BitVec 8}
      (member : entry ∈ keptFrom j bytes) : j ≤ entry.1 := by
    obtain ⟨k, inside, here⟩ := List.mem_iff_getElem.mp member
    obtain ⟨p, from_, _⟩ := kept_at ((List.getElem?_eq_getElem inside).trans (congrArg some here))
    omega
  fun_induction keptFrom i payload with
  | case1 i => exact List.Pairwise.nil
  | case2 i head rest window ih =>
      apply List.Pairwise.cons _ (List.Pairwise.cons _ ih)
      · intro next member
        cases List.mem_cons.mp member with
        | inl second => exact second ▸ Nat.lt_succ_self i
        | inr later =>
            have after := behind later
            change i < next.1
            omega
      · intro next later
        have after := behind later
        change i + 1 < next.1
        omega
  | case3 i head rest other ih =>
      apply List.Pairwise.cons _ ih
      intro next later
      exact behind later

/-- The last byte of the payload that is not zero, emulation prevention bytes
disregarded. -/
structure IsLastNonzero (payload : Bytes) (p : Nat) (byte : BitVec 8) : Prop where
  present : payload[p]? = some byte
  nonzero : byte ≠ 0
  plain : ¬IsEmulationByte payload p
  last : ∀ q later, p < q → payload[q]? = some later → ¬IsEmulationByte payload q → later = 0

/-- Only zeros and emulation prevention bytes follow an emulation prevention byte. -/
def ZerosAfterEmulation (payload : Bytes) : Prop :=
  ∀ p q byte, IsEmulationByte payload p → p < q → payload[q]? = some byte →
    ¬IsEmulationByte payload q → byte = 0

theorem kept_get {payload : Bytes} {k : Nat} {byte : BitVec 8}
    (present : (removeEmulationPrevention payload)[k]? = some byte) :
    ∃ offset, (keptFrom 0 payload)[k]? = some (offset, byte) := by
  rw [← kept_bytes 0, List.getElem?_map] at present
  obtain ⟨entry, kept, same⟩ := Option.map_eq_some_iff.mp present
  exact ⟨entry.1, by rw [kept, ← same]⟩

theorem kept_index {payload : Bytes} {p : Nat} {byte : BitVec 8}
    (present : payload[p]? = some byte) (plain : ¬IsEmulationByte payload p) :
    ∃ k : Nat, (keptFrom 0 payload)[k]? = some (p, byte) ∧
      (removeEmulationPrevention payload)[k]? = some byte := by
  have member := kept_mem (i := 0) present plain
  rw [Nat.zero_add] at member
  obtain ⟨k, kept⟩ := List.getElem?_of_mem member
  refine ⟨k, kept, ?_⟩
  rw [← kept_bytes 0, List.getElem?_map, kept]
  rfl

/-- The kept bytes stand in the order of their offsets. -/
theorem kept_order {payload : Bytes} {j k : Nat} {first second : Nat × BitVec 8}
    (at_j : (keptFrom 0 payload)[j]? = some first)
    (at_k : (keptFrom 0 payload)[k]? = some second) (before : first.1 < second.1) : j < k := by
  obtain ⟨inside_j, here⟩ := List.getElem?_eq_some_iff.mp at_j
  obtain ⟨inside_k, there⟩ := List.getElem?_eq_some_iff.mp at_k
  have increasing := List.pairwise_iff_getElem.mp (kept_increasing 0 payload)
  by_contra behind
  by_cases same : j = k
  · subst same
    rw [← here, ← there] at before
    omega
  · have order := increasing k j inside_k inside_j (by omega)
    rw [here, there] at order
    omega

/-- The last byte that is kept and not zero, and where its index is its offset. -/
theorem last_nonzero_offset {payload : Bytes} {k value : Nat}
    (found : LastNonzero (removeEmulationPrevention payload) (some (k, value))) :
    ∃ p byte, IsLastNonzero payload p byte ∧ byte.toNat = value ∧ k ≤ p ∧
      (k = p ↔ ∀ q, q < p → ¬IsEmulationByte payload q) := by
  obtain ⟨byte, present, nonzero, same, last⟩ := found
  obtain ⟨offset, kept⟩ := kept_get present
  obtain ⟨p, from_, after, here, plain, same_index⟩ := kept_at kept
  refine ⟨p, byte, ⟨here, nonzero, plain, ?_⟩, same, after, same_index⟩
  intro q later behind laterPresent laterPlain
  obtain ⟨j, laterKept, laterAt⟩ := kept_index laterPresent laterPlain
  exact last j later (kept_order kept laterKept (by change offset < q; omega)) laterAt

theorem last_nonzero_unique {payload : Bytes} {p q : Nat} {byte other : BitVec 8}
    (first : IsLastNonzero payload p byte) (second : IsLastNonzero payload q other) : p = q := by
  by_contra differ
  cases Nat.lt_or_gt_of_ne differ with
  | inl before => exact second.nonzero (first.last q other before second.present second.plain)
  | inr behind => exact first.nonzero (second.last p byte behind first.present first.plain)

theorem index_is_offset {payload : Bytes} {k value : Nat}
    (found : LastNonzero (removeEmulationPrevention payload) (some (k, value))) :
    (∃ byte, byte.toNat = value ∧ IsLastNonzero payload k byte) ↔
      ZerosAfterEmulation payload := by
  obtain ⟨p, byte, last, same, _, same_index⟩ := last_nonzero_offset found
  constructor
  · rintro ⟨other, _, here⟩ q later laterByte emulation before present plain
    have none := same_index.mp (last_nonzero_unique here last)
    by_cases behind : p < later
    · exact last.last later laterByte behind present plain
    · exact absurd emulation (none q (by omega))
  · intro zeros
    have index : k = p := same_index.mpr fun q before emulation =>
      last.nonzero (zeros q p byte emulation before last.present last.plain)
    subst index
    exact ⟨byte, same, last⟩

theorem zeros_of_none {payload : Bytes}
    (found : LastNonzero (removeEmulationPrevention payload) none) :
    ZerosAfterEmulation payload := by
  intro p q byte _ _ present plain
  obtain ⟨k, _, kept⟩ := kept_index present plain
  exact found byte (List.mem_of_getElem? kept)

def payload (data : Bytes) (nal : NalUnit) : Bytes := slice data (nal.nalStart + 1) nal.nalEnd

/-- The lines printed for a unit. -/
structure Reported (data : Bytes) (nal : NalUnit) (report : AlignmentReport) : Prop where
  offset : report.offset = nal.offset
  idr : IsIdr data nal
  found : ∃ k, report.fileOffset = nal.nalStart + 1 + k ∧
    LastNonzero (removeEmulationPrevention (payload data nal)) (some (k, report.byteValue))

/-- The printed byte is in the file at the printed offset and is the last of the
payload of its unit that is not zero. -/
structure ExactReport (data : Bytes) (nal : NalUnit) (report : AlignmentReport) : Prop where
  offset : report.offset = nal.offset
  exact : ∃ p byte, report.fileOffset = nal.nalStart + 1 + p ∧
    data[report.fileOffset]? = some byte ∧ byte.toNat = report.byteValue ∧
    IsLastNonzero (payload data nal) p byte

theorem slice_get {data : Bytes} {first last p : Nat} {byte : BitVec 8}
    (present : (slice data first last)[p]? = some byte) :
    data[first + p]? = some byte := by
  rw [slice, List.getElem?_drop] at present
  have inside := (List.getElem?_eq_some_iff.mp present).1
  rw [List.length_take] at inside
  rw [List.getElem?_take, if_pos (by omega)] at present
  exact present

theorem report_exact_iff {data : Bytes} {nal : NalUnit} {report : AlignmentReport}
    (reported : Reported data nal report) :
    ExactReport data nal report ↔ ZerosAfterEmulation (payload data nal) := by
  obtain ⟨k, position, found⟩ := reported.found
  rw [← index_is_offset found]
  constructor
  · rintro ⟨_, p, byte, offset, _, value, last⟩
    obtain rfl : p = k := by omega
    exact ⟨byte, value, last⟩
  · rintro ⟨byte, value, last⟩
    exact ⟨reported.offset, k, byte, position, position ▸ slice_get last.present, value, last⟩

/-- A unit whose payload has nothing but zeros is not reported. -/
def Silent (data : Bytes) (nal : NalUnit) : Prop :=
  LastNonzero (removeEmulationPrevention (payload data nal)) none

theorem slice_head {data : Bytes} {first last : Nat} (nonempty : slice data first last ≠ []) :
    first < last ∧ (slice data first last)[0]? = data[first]? := by
  have bounded : first < last := by
    by_contra empty
    apply nonempty
    rw [slice, List.drop_eq_nil_of_le]
    rw [List.length_take]
    omega
  rw [slice, List.getElem?_drop, Nat.add_zero, List.getElem?_take, if_pos bounded]
  exact ⟨bounded, rfl⟩

theorem report_nal_returns (data : Bytes) (printed : List AlignmentReport) (nal : NalUnit) :
    Returns (reportNal data printed nal) fun next =>
      ∃ lines, next = printed ++ lines ∧ (∀ report ∈ lines, Reported data nal report) ∧
        (IsIdr data nal → Silent data nal ∨ lines ≠ []) := by
  have quiet (silent : IsIdr data nal → Silent data nal) :
      ∃ lines, printed = printed ++ lines ∧ (∀ report ∈ lines, Reported data nal report) ∧
        (IsIdr data nal → Silent data nal ∨ lines ≠ []) :=
    ⟨[], (List.append_nil printed).symm, fun _ member => absurd member (List.not_mem_nil),
      fun idr => .inl (silent idr)⟩
  apply Returns.ite
  · intro empty
    apply Returns.pure
    apply quiet
    intro _ byte member
    have none : payload data nal = [] := by
      have dropped := congrArg (List.drop 1) empty
      rw [slice, List.drop_drop] at dropped
      exact dropped
    rw [none, remove_nil] at member
    cases member
  · intro nonempty
    obtain ⟨bounded, head⟩ := slice_head nonempty
    have inside : 0 < (slice data nal.nalStart nal.nalEnd).length :=
      List.length_pos_of_ne_nil nonempty
    have header := List.getElem?_eq_getElem inside
    rw [index_header header, ok_bind]
    rw [head] at header
    apply Returns.ite
    · intro idr
      have rest : sliceFrom (slice data nal.nalStart nal.nalEnd) 1 = payload data nal := by
        rw [sliceFrom, slice, List.drop_drop]
        rfl
      rw [rest]
      apply Returns.bind (find_trailing_bits_returns _)
      intro found last
      cases found with
      | none => exact .pure (quiet fun _ => last)
      | some entry =>
          refine .pure ⟨_, rfl, ?_, fun _ => .inr (List.cons_ne_nil _ _)⟩
          intro report member
          rw [List.mem_singleton.mp member]
          exact ⟨rfl, ⟨_, header, idr⟩, entry.1, rfl, last⟩
    · intro other
      apply Returns.pure
      apply quiet
      rintro ⟨byte, present, idr⟩
      rw [header, Option.some.injEq] at present
      exact absurd (present ▸ idr) other

/-- What has been printed for the units that are done. -/
structure ReportsOf (data : Bytes) (units : List NalUnit) (reports : List AlignmentReport) :
    Prop where
  known : ∀ report ∈ reports, ∃ nal ∈ units, Reported data nal report
  covered : ∀ nal ∈ units, IsIdr data nal →
    Silent data nal ∨ ∃ report ∈ reports, Reported data nal report

theorem reports_of_nil (data : Bytes) : ReportsOf data [] [] :=
  ⟨fun _ member => absurd member List.not_mem_nil, fun _ member => absurd member List.not_mem_nil⟩

theorem report_nal_keeps {data : Bytes} {units : List NalUnit} {reports : List AlignmentReport}
    (inv : ReportsOf data units reports) (nal : NalUnit) :
    Returns (reportNal data reports nal) (ReportsOf data (units ++ [nal])) := by
  apply (report_nal_returns data reports nal).weaken
  rintro next ⟨lines, rfl, reported, seen⟩
  constructor
  · intro report member
    cases List.mem_append.mp member with
    | inl old =>
        obtain ⟨unit, present, holds⟩ := inv.known report old
        exact ⟨unit, List.mem_append_left _ present, holds⟩
    | inr new =>
        exact ⟨nal, List.mem_append_right _ (List.mem_singleton_self nal), reported report new⟩
  · intro unit member idr
    cases List.mem_append.mp member with
    | inl old =>
        exact (inv.covered unit old idr).imp_right fun ⟨report, present, holds⟩ =>
          ⟨report, List.mem_append_left _ present, holds⟩
    | inr new =>
        obtain rfl := List.mem_singleton.mp new
        refine (seen idr).imp_right fun some => ?_
        obtain ⟨report, present⟩ := List.exists_mem_of_ne_nil lines some
        exact ⟨report, List.mem_append_right _ present, reported report present⟩

theorem alignment_reports_returns (data : Bytes) :
    Returns (alignmentReports data) (ReportsOf data (nalUnits data)) :=
  Returns.foldlM (ReportsOf data) (fun _ _ nal inv => report_nal_keeps inv nal) (nalUnits data)
    (reports_of_nil data)

theorem unit_offset_unique {data : Bytes} {nal other : NalUnit} (unit : nal ∈ nalUnits data)
    (otherUnit : other ∈ nalUnits data) (same : nal.offset = other.offset) : nal = other := by
  by_contra differ
  have placed := start_codes_placed data
  have apart : (nalUnits data).Pairwise fun a b => a.offset ≠ b.offset := by
    apply (nal_units_disjoint placed).imp_of_mem
    intro first second member _ disjoint
    obtain ⟨⟨code, present, offset, starts⟩, bounds⟩ := of_mem_nal_units placed member
    have wide := (of_mem_start_codes present).2.2
    omega
  have symmetric : Std.Symm fun a b : NalUnit => a.offset ≠ b.offset := ⟨fun _ _ => Ne.symm⟩
  exact apart.forall unit otherUnit differ same

theorem alignment_reports_exact (data : Bytes) :
    (Returns (alignmentReports data) fun reports =>
      ∀ report ∈ reports, ∃ nal ∈ nalUnits data, ExactReport data nal report) ↔
      ∀ nal ∈ nalUnits data, IsIdr data nal → ZerosAfterEmulation (payload data nal) := by
  obtain ⟨reports, returned, known, covered⟩ := alignment_reports_returns data
  constructor
  · rintro ⟨same, sameReturned, exact⟩ nal unit idr
    obtain rfl : same = reports := Except.ok.inj (sameReturned.symm.trans returned)
    cases covered nal unit idr with
    | inl silent => exact zeros_of_none silent
    | inr printed =>
        obtain ⟨report, member, reported⟩ := printed
        obtain ⟨other, otherUnit, exactly⟩ := exact report member
        have same : nal = other :=
          unit_offset_unique unit otherUnit (reported.offset.symm.trans exactly.offset)
        exact (report_exact_iff reported).mp (same ▸ exactly)
  · intro zeros
    refine ⟨reports, returned, fun report member => ?_⟩
    obtain ⟨nal, unit, reported⟩ := known report member
    exact ⟨nal, unit, (report_exact_iff reported).mpr (zeros nal unit reported.idr)⟩

/-- One escape before the last byte moves the printed offset one to the left. -/
theorem alignment_report_moved :
    ¬Returns (alignmentReports [0, 0, 1, 0x65, 0, 0, 3, 1, 0x80]) fun reports =>
      ∀ report ∈ reports, ∃ nal ∈ nalUnits [0, 0, 1, 0x65, 0, 0, 3, 1, 0x80],
        ExactReport [0, 0, 1, 0x65, 0, 0, 3, 1, 0x80] nal report := by
  rintro ⟨reports, returned, exact⟩
  have printed : alignmentReports [0, 0, 1, 0x65, 0, 0, 3, 1, 0x80] = .ok [⟨0, 7, 0x80⟩] := by
    decide +kernel
  rw [returned, Except.ok.injEq] at printed
  obtain ⟨nal, _, _, p, byte, _, present, value, _⟩ := exact ⟨0, 7, 0x80⟩
    (by rw [printed]; exact List.mem_singleton_self _)
  cases present
  exact absurd value (by decide)

end Testings.H264
