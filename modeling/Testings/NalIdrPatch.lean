import Testings.NalUnits

/-!
# Setting the last bit of the IDR units

`patch_idr_alignment` of `h264cabac.py`. The byte it changes stands right before the
next start code and may be a zero that trails the unit.
-/

set_option autoImplicit false

namespace Testings.H264

open Python

structure PatchLine where
  offset : Nat
  lastByteOffset : Nat
  original : Nat
  patched : Nat
  deriving DecidableEq

structure IdrPatch where
  data : Bytes
  printed : List PatchLine
  deriving DecidableEq

/-- One turn of the loop of `patch_idr_alignment`. -/
def patchNal (self : IdrPatch) (nal : NalUnit) : Py IdrPatch :=
  if self.data.length ≤ nal.nalStart then pure self
  else do
    let first ← index self.data nal.nalStart
    let nalType := first &&& 0x1F
    if nalType = 5 then
      let payloadStart := nal.nalStart + 1
      let payloadEnd := nal.nalEnd
      if payloadEnd ≤ payloadStart then pure self
      else do
        let lastByteOffset := payloadEnd - 1
        let original ← index self.data lastByteOffset
        let data := self.data.modify lastByteOffset (· ||| 0x01)
        let patched ← index data lastByteOffset
        pure ⟨data, self.printed ++ [⟨nal.offset, lastByteOffset, original, patched⟩]⟩
    else pure self

def patchIdrAlignment (data : Bytes) : Py IdrPatch :=
  (nalUnits data).foldlM patchNal ⟨data, []⟩

/-- The lowest bit of the bytes at some offsets is set, and nothing else changes. -/
structure LowBitsSet (Ends : Nat → Prop) (data patched : Bytes) : Prop where
  length : patched.length = data.length
  ends : ∀ p, Ends p → patched[p]? = data[p]?.map (· ||| 1)
  others : ∀ p, ¬Ends p → patched[p]? = data[p]?

theorem low_bit_twice (byte : BitVec 8) : byte ||| 1 ||| 1 = byte ||| 1 := by
  rw [BitVec.or_assoc, BitVec.or_self]

theorem LowBitsSet.refl {Ends : Nat → Prop} (data : Bytes) (none : ∀ p, ¬Ends p) :
    LowBitsSet Ends data data :=
  ⟨rfl, fun p ends => absurd ends (none p), fun _ _ => rfl⟩

theorem LowBitsSet.append {First Second Both : Nat → Prop} {data between patched : Bytes}
    (first : LowBitsSet First data between) (second : LowBitsSet Second between patched)
    (both : ∀ p, Both p ↔ First p ∨ Second p) : LowBitsSet Both data patched where
  length := second.length.trans first.length
  ends := by
    intro p ends
    by_cases later : Second p
    · rw [second.ends p later]
      by_cases earlier : First p
      · rw [first.ends p earlier, Option.map_map]
        congr 1
        funext byte
        exact low_bit_twice byte
      · rw [first.others p earlier]
    · have earlier : First p := ((both p).mp ends).resolve_right later
      rw [second.others p later, first.ends p earlier]
  others := by
    intro p none
    rw [second.others p fun later => none ((both p).mpr (.inr later)),
      first.others p fun earlier => none ((both p).mpr (.inl earlier))]

theorem LowBitsSet.congr {First Second : Nat → Prop} {data patched : Bytes}
    (set : LowBitsSet First data patched) (same : ∀ p, First p ↔ Second p) :
    LowBitsSet Second data patched where
  length := set.length
  ends := fun p ends => set.ends p ((same p).mpr ends)
  others := fun p none => set.others p fun ends => none ((same p).mp ends)

theorem low_bits_set_modify (data : Bytes) (position : Nat) :
    LowBitsSet (· = position) data (data.modify position (· ||| 1)) where
  length := List.length_modify _ _ _
  ends := by
    intro p here
    rw [List.getElem?_modify, here]
    simp
  others := by
    intro p elsewhere
    rw [List.getElem?_modify]
    simp [Ne.symm elsewhere]

/-- The loop patches the last byte of this unit. -/
def Patches (data : Bytes) (nal : NalUnit) : Prop :=
  IsIdr data nal ∧ nal.nalStart + 1 < nal.nalEnd

/-- An offset of a byte that is patched. -/
def PatchedEnd (data : Bytes) (nals : List NalUnit) (p : Nat) : Prop :=
  ∃ nal ∈ nals, Patches data nal ∧ p + 1 = nal.nalEnd

theorem patch_nal_returns {self : IdrPatch} {nal : NalUnit}
    (bounded : nal.nalEnd ≤ self.data.length) :
    Returns (patchNal self nal) fun next =>
      LowBitsSet (PatchedEnd self.data [nal]) self.data next.data := by
  have same (unpatched : ¬Patches self.data nal) :
      LowBitsSet (PatchedEnd self.data [nal]) self.data self.data :=
    .refl self.data fun p ⟨unit, member, patches, _⟩ =>
      unpatched (List.mem_singleton.mp member ▸ patches)
  apply Returns.ite
  · intro outside
    apply Returns.pure
    apply same
    rintro ⟨⟨byte, header, _⟩, _⟩
    have inside := (List.getElem?_eq_some_iff.mp header).1
    omega
  · intro inside
    have header := List.getElem?_eq_getElem (show nal.nalStart < self.data.length by omega)
    rw [index_header header, ok_bind]
    apply Returns.ite
    · intro idr
      apply Returns.ite
      · intro empty
        exact .pure (same fun patches => by
          have payload := patches.2
          omega)
      · intro payload
        have last : nal.nalEnd - 1 < self.data.length := by omega
        apply Returns.bind (index_returns last)
        intro original _
        apply Returns.bind (index_returns (by rw [List.length_modify]; exact last))
        intro patched _
        apply Returns.pure
        apply (low_bits_set_modify self.data (nal.nalEnd - 1)).congr
        have patches : Patches self.data nal := ⟨⟨_, header, idr⟩, by omega⟩
        intro p
        constructor
        · intro here
          exact ⟨nal, List.mem_singleton_self nal, patches, by omega⟩
        · rintro ⟨unit, member, _, ends⟩
          rw [List.mem_singleton.mp member] at ends
          omega
    · intro other
      apply Returns.pure
      apply same
      rintro ⟨⟨byte, present, idr⟩, _⟩
      rw [header, Option.some.injEq] at present
      exact other (present ▸ idr)

/-- What is patched elsewhere leaves the header of a unit alone. -/
theorem LowBitsSet.patches_iff {Ends : Nat → Prop} {data patched : Bytes} {nal : NalUnit}
    (set : LowBitsSet Ends data patched) (kept : ¬Ends nal.nalStart) :
    Patches patched nal ↔ Patches data nal := by
  rw [Patches, Patches, IsIdr, IsIdr, set.others nal.nalStart kept]

/-- The first unit changes nothing that decides whether one of the others is patched. -/
theorem patched_end_cons {data next : Bytes} {nal : NalUnit} {rest : List NalUnit}
    (same : ∀ unit ∈ rest, Patches next unit ↔ Patches data unit) (p : Nat) :
    PatchedEnd data (nal :: rest) p ↔ PatchedEnd data [nal] p ∨ PatchedEnd next rest p := by
  constructor
  · intro patched
    obtain ⟨unit, member, patches, ends⟩ := patched
    cases List.mem_cons.mp member with
    | inl here => exact .inl ⟨unit, List.mem_singleton.mpr here, patches, ends⟩
    | inr after => exact .inr ⟨unit, after, (same unit after).mpr patches, ends⟩
  · intro either
    cases either with
    | inl here =>
        obtain ⟨unit, member, patches, ends⟩ := here
        exact ⟨unit, List.mem_cons.mpr (.inl (List.mem_singleton.mp member)), patches, ends⟩
    | inr after =>
        obtain ⟨unit, member, patches, ends⟩ := after
        exact ⟨unit, List.mem_cons_of_mem _ member, (same unit member).mp patches, ends⟩

theorem patch_nals_returns {nals : List NalUnit} {self : IdrPatch}
    (ordered : nals.Pairwise fun nal next => nal.nalEnd ≤ next.nalStart)
    (bounded : ∀ nal ∈ nals, nal.nalEnd ≤ self.data.length) :
    Returns (nals.foldlM patchNal self) fun final =>
      LowBitsSet (PatchedEnd self.data nals) self.data final.data := by
  induction nals generalizing self with
  | nil =>
      rw [List.foldlM_nil]
      exact .pure (.refl self.data fun p ⟨_, member, _⟩ => List.not_mem_nil member)
  | cons nal rest ih =>
      rw [List.foldlM_cons]
      apply Returns.bind (patch_nal_returns (bounded nal List.mem_cons_self))
      intro next first
      have boundedRest : ∀ unit ∈ rest, unit.nalEnd ≤ next.data.length := by
        intro unit member
        rw [first.length]
        exact bounded unit (List.mem_cons_of_mem _ member)
      apply (ih ordered.tail boundedRest).weaken
      intro final second
      apply first.append second
      intro p
      -- the units that follow begin behind the byte that this one changes
      have later (unit : NalUnit) (member : unit ∈ rest) :
          Patches next.data unit ↔ Patches self.data unit := by
        apply first.patches_iff
        rintro ⟨own, ownMember, _, ends⟩
        have follows := List.rel_of_pairwise_cons ordered member
        rw [List.mem_singleton.mp ownMember] at ends
        omega
      exact patched_end_cons later p

/-- An offset of the last byte of an IDR unit with some payload. -/
def IsIdrEnd (data : Bytes) : Nat → Prop := PatchedEnd data (nalUnits data)

theorem nal_units_ordered (data : Bytes) :
    (nalUnits data).Pairwise fun nal next => nal.nalEnd ≤ next.nalStart := by
  have placed := start_codes_placed data
  apply (nal_units_disjoint placed).imp_of_mem
  intro nal next _ member disjoint
  obtain ⟨⟨code, _, offset, starts⟩, _⟩ := of_mem_nal_units placed member
  omega

theorem patch_idr_returns (data : Bytes) :
    Returns (patchIdrAlignment data) fun final => LowBitsSet (IsIdrEnd data) data final.data :=
  patch_nals_returns (nal_units_ordered data) fun _ member =>
    (of_mem_nal_units (start_codes_placed data) member).2.2

/-- The `n` bytes before `e` are zero. -/
def ZerosBefore (data : Bytes) (n e : Nat) : Prop :=
  ∀ p, e ≤ p + n → p < e → data[p]? = some 0

/-- The unit is patched, and zeros before its last byte make the patched byte the end
of a start code. At the end of the file only a code of four bytes is found. -/
def CreatesStartCode (data : Bytes) (nal : NalUnit) : Prop :=
  Patches data nal ∧
    if nal.nalEnd < data.length then ZerosBefore data 3 nal.nalEnd
    else ZerosBefore data 4 nal.nalEnd

theorem or_one_eq_zero (byte : BitVec 8) : byte ||| 1 ≠ 0 := by
  revert byte
  decide

theorem or_one_eq_one {byte : BitVec 8} (one : byte ||| 1 = 1) : byte = 0 ∨ byte = 1 := by
  revert byte
  decide

section patched

variable {Ends : Nat → Prop} {data patched : Bytes} {p : Nat}

theorem LowBitsSet.zero_before (set : LowBitsSet Ends data patched)
    (zero : patched[p]? = some 0) : data[p]? = some 0 := by
  by_cases ends : Ends p
  · rw [set.ends p ends] at zero
    obtain ⟨byte, _, made⟩ := Option.map_eq_some_iff.mp zero
    exact absurd made (or_one_eq_zero byte)
  · rw [← set.others p ends, zero]

theorem LowBitsSet.one_before (set : LowBitsSet Ends data patched)
    (one : patched[p]? = some 1) : data[p]? = some 1 ∨ Ends p ∧ data[p]? = some 0 := by
  by_cases ends : Ends p
  · rw [set.ends p ends] at one
    obtain ⟨byte, present, made⟩ := Option.map_eq_some_iff.mp one
    rw [present]
    cases or_one_eq_one made with
    | inl zero => exact .inr ⟨ends, congrArg some zero⟩
    | inr kept => exact .inl (congrArg some kept)
  · rw [set.others p ends] at one
    exact .inl one

end patched

theorem start_code_kept {data : Bytes} {code : Nat × Nat} {p : Nat}
    (member : code ∈ findStartCodes data) (inside : code.1 ≤ p) (before : p < code.1 + code.2) :
    ¬IsIdrEnd data p := by
  rintro ⟨nal, unit, ⟨_, payload⟩, ends⟩
  have apart := nal_units_apart (start_codes_placed data) unit member
  omega

theorem patched_codes {data patched : Bytes} (set : LowBitsSet (IsIdrEnd data) data patched)
    {code : Nat × Nat} (member : code ∈ findStartCodes data) :
    startCodeWidth patched code.1 = code.2 := by
  have kept (k : Nat) (bounded : k < code.2) : patched[code.1 + k]? = data[code.1 + k]? :=
    set.others _ (start_code_kept member (by omega) (by omega))
  obtain ⟨_, width, wide⟩ := of_mem_start_codes member
  obtain none | three | four := start_code_width_cases data code.1
  · omega
  · have bytes := start_code_width_three.mp three
    rw [width, three, start_code_width_three]
    exact ⟨(kept 0 (by omega)).trans bytes.1, (kept 1 (by omega)).trans bytes.2.1,
      (kept 2 (by omega)).trans bytes.2.2⟩
  · have bytes := start_code_width_four.mp four
    rw [width, four, start_code_width_four]
    exact ⟨(kept 0 (by omega)).trans bytes.1, (kept 1 (by omega)).trans bytes.2.1,
      (kept 2 (by omega)).trans bytes.2.2.1, (kept 3 (by omega)).trans bytes.2.2.2⟩

/-- Where a code ends in the patched data, it has ended before, or the unit in front of
the end creates it. -/
theorem patched_code_end {data patched : Bytes} {e n : Nat}
    (set : LowBitsSet (IsIdrEnd data) data patched)
    (none : ∀ nal ∈ nalUnits data, ¬CreatesStartCode data nal)
    (one : patched[e]? = some 1) (zeros : ZerosBefore data n e) (wide : 2 ≤ n)
    (long : 3 ≤ n ∨ e + 1 < data.length) : data[e]? = some 1 := by
  cases set.one_before one with
  | inl kept => exact kept
  | inr changed =>
      obtain ⟨⟨nal, unit, patches, ends⟩, zero⟩ := changed
      apply absurd _ (none nal unit)
      have run (k : Nat) (bounded : k ≤ n + 1) : ZerosBefore data k nal.nalEnd := by
        intro p within before
        by_cases last : p = e
        · rw [last, zero]
        · exact zeros p (by omega) (by omega)
      refine ⟨patches, ?_⟩
      split_ifs with further
      · exact run 3 (by omega)
      · exact run 4 (by omega)

theorem patched_start_codes {data patched : Bytes}
    (set : LowBitsSet (IsIdrEnd data) data patched)
    (none : ∀ nal ∈ nalUnits data, ¬CreatesStartCode data nal) :
    findStartCodes patched = findStartCodes data := by
  have codes (code : Nat × Nat) (member : code ∈ findStartCodes data) :=
    patched_codes set member
  rw [findStartCodes, findStartCodes, find_start_codes_scan, find_start_codes_scan]
  rw [findStartCodes, find_start_codes_scan] at codes
  apply StrideScan.found_congr (congrArg (· - 3) set.length) codes
  intro i _ examined matched unmatched
  have within : i < data.length - 3 := examined
  have silent : startCodeWidth data i = 0 := unmatched
  obtain nothing | three | four := start_code_width_cases patched i
  · exact matched nothing
  · obtain ⟨first, second, third⟩ := start_code_width_three.mp three
    have zeros : ZerosBefore data 2 (i + 2) := by
      intro p after before
      obtain rfl | rfl : p = i ∨ p = i + 1 := by omega
      · exact set.zero_before first
      · exact set.zero_before second
    have last := patched_code_end set none third zeros (Nat.le_refl 2) (by omega)
    have found : startCodeWidth data i = 3 :=
      start_code_width_three.mpr ⟨set.zero_before first, set.zero_before second, last⟩
    omega
  · obtain ⟨first, second, third, fourth⟩ := start_code_width_four.mp four
    have zeros : ZerosBefore data 3 (i + 3) := by
      intro p after before
      obtain rfl | rfl | rfl : p = i ∨ p = i + 1 ∨ p = i + 2 := by omega
      · exact set.zero_before first
      · exact set.zero_before second
      · exact set.zero_before third
    have last := patched_code_end set none fourth zeros (by omega) (.inl (Nat.le_refl 3))
    have found : startCodeWidth data i = 4 :=
      start_code_width_four.mpr
        ⟨set.zero_before first, set.zero_before second, set.zero_before third, last⟩
    omega

theorem zeros_in_payload {data : Bytes} {nal : NalUnit} {n : Nat} (patches : Patches data nal)
    (zeros : ZerosBefore data n nal.nalEnd) : nal.nalStart + n < nal.nalEnd := by
  obtain ⟨⟨byte, header, idr⟩, payload⟩ := patches
  by_contra short
  rw [zeros nal.nalStart (by omega) (by omega), Option.some.injEq] at header
  rw [← header] at idr
  exact absurd idr (by decide)

/-- The last byte of a unit is the only one of it that may be patched. -/
theorem unit_kept {data : Bytes} {nal : NalUnit} {p : Nat} (unit : nal ∈ nalUnits data)
    (after : nal.nalStart ≤ p) (before : p + 1 < nal.nalEnd) : ¬IsIdrEnd data p := by
  rintro ⟨other, otherUnit, ⟨_, payload⟩, ends⟩
  have apart : (nalUnits data).Pairwise fun a b =>
      a.nalEnd ≤ b.nalStart ∨ b.nalEnd ≤ a.nalStart :=
    (nal_units_ordered data).imp fun ordered => .inl ordered
  have symmetric : Std.Symm fun a b : NalUnit =>
      a.nalEnd ≤ b.nalStart ∨ b.nalEnd ≤ a.nalStart := ⟨fun _ _ => Or.symm⟩
  have differ : nal ≠ other := by
    intro same
    subst same
    omega
  have separate := apart.forall unit otherUnit differ
  omega

/-- A created code ends where no code has ended before. -/
theorem created_start_code {data patched : Bytes}
    (set : LowBitsSet (IsIdrEnd data) data patched) {nal : NalUnit} (unit : nal ∈ nalUnits data)
    (creates : CreatesStartCode data nal) : findStartCodes patched ≠ findStartCodes data := by
  intro same
  obtain ⟨patches, zeros⟩ := creates
  obtain ⟨_, _, bounded⟩ := of_mem_nal_units (start_codes_placed data) unit
  have ended {code : Nat × Nat} (member : code ∈ findStartCodes patched)
      (zero : data[nal.nalEnd - 1]? = some 0) (positive : 0 < nal.nalEnd) :
      code.1 + code.2 ≠ nal.nalEnd := by
    intro ends
    rw [same] at member
    rw [start_codes_end member (by omega)] at zero
    exact absurd zero (by decide)
  have still {n : Nat} (zeros : ZerosBefore data n nal.nalEnd) :
      ZerosBefore patched (n - 1) (nal.nalEnd - 1) := by
    have within := zeros_in_payload patches zeros
    intro p after before
    rw [set.others p (unit_kept unit (by omega) (by omega))]
    exact zeros p (by omega) (by omega)
  have last {n : Nat} (zeros : ZerosBefore data (n + 1) nal.nalEnd) :
      patched[nal.nalEnd - 1]? = some 1 := by
    have within := zeros_in_payload patches zeros
    rw [set.ends _ ⟨nal, unit, patches, by omega⟩, zeros _ (by omega) (by omega)]
    rfl
  split_ifs at zeros with further
  · have within := zeros_in_payload patches zeros
    have occurs : startCodeWidth patched (nal.nalEnd - 3) = 3 := by
      rw [start_code_width_three, show nal.nalEnd - 3 + 2 = nal.nalEnd - 1 by omega]
      exact ⟨still zeros _ (by omega) (by omega), still zeros _ (by omega) (by omega), last zeros⟩
    obtain ⟨code, member, tail⟩ := start_codes_tail occurs (by rw [set.length]; omega)
    exact ended member (zeros _ (by omega) (by omega)) (by omega) (by omega)
  · have within := zeros_in_payload patches zeros
    have occurs : startCodeWidth patched (nal.nalEnd - 4) = 4 := by
      rw [start_code_width_four, show nal.nalEnd - 4 + 3 = nal.nalEnd - 1 by omega]
      exact ⟨still zeros _ (by omega) (by omega), still zeros _ (by omega) (by omega),
        still zeros _ (by omega) (by omega), last zeros⟩
    have ends := ended (start_codes_long occurs) (zeros _ (by omega) (by omega)) (by omega)
    exact ends (show nal.nalEnd - 4 + 4 = nal.nalEnd by omega)

theorem nal_units_patched {data patched : Bytes} (length : patched.length = data.length)
    (codes : findStartCodes patched = findStartCodes data) : nalUnits patched = nalUnits data := by
  rw [nalUnits, nalUnits, codes, length]

theorem LowBitsSet.determined {Ends : Nat → Prop} {data first second : Bytes}
    (set : LowBitsSet Ends data first) (other : LowBitsSet Ends data second) : first = second := by
  apply List.ext_getElem?
  intro p
  by_cases ends : Ends p
  · rw [set.ends p ends, other.ends p ends]
  · rw [set.others p ends, other.others p ends]

/-- With the start codes where they were, the same bytes are patched again. -/
theorem idr_end_patched {data patched : Bytes}
    (set : LowBitsSet (IsIdrEnd data) data patched)
    (codes : findStartCodes patched = findStartCodes data) (p : Nat) :
    IsIdrEnd patched p ↔ IsIdrEnd data p := by
  rw [IsIdrEnd, IsIdrEnd, nal_units_patched set.length codes]
  have same (nal : NalUnit) (unit : nal ∈ nalUnits data) :
      Patches patched nal ↔ Patches data nal := by
    by_cases payload : nal.nalStart + 1 < nal.nalEnd
    · exact set.patches_iff (unit_kept unit (Nat.le_refl _) payload)
    · exact ⟨fun patches => absurd patches.2 payload, fun patches => absurd patches.2 payload⟩
  constructor
  · rintro ⟨nal, unit, patches, ends⟩
    exact ⟨nal, unit, (same nal unit).mp patches, ends⟩
  · rintro ⟨nal, unit, patches, ends⟩
    exact ⟨nal, unit, (same nal unit).mpr patches, ends⟩

theorem patch_idr_again {data patched : Bytes}
    (set : LowBitsSet (IsIdrEnd data) data patched)
    (codes : findStartCodes patched = findStartCodes data) :
    Returns (patchIdrAlignment patched) fun again => again.data = patched := by
  apply (patch_idr_returns patched).weaken
  intro again second
  exact (set.append second fun p => by
    rw [idr_end_patched set codes p, or_self]).determined set

/-- Patching leaves a string that differs in the lowest bits of the last bytes of IDR
units only, has the same start codes, and stays as it is when it is patched again. -/
structure KeepsStructure (data patched : Bytes) : Prop where
  lowBits : LowBitsSet (IsIdrEnd data) data patched
  startCodes : findStartCodes patched = findStartCodes data
  again : Returns (patchIdrAlignment patched) fun again => again.data = patched

theorem patch_idr_keeps_structure (data : Bytes) :
    (Returns (patchIdrAlignment data) fun final => KeepsStructure data final.data) ↔
      ∀ nal ∈ nalUnits data, ¬CreatesStartCode data nal := by
  obtain ⟨final, returned, set⟩ := patch_idr_returns data
  constructor
  · rintro ⟨same, sameReturned, keeps⟩ nal unit creates
    exact created_start_code keeps.lowBits unit creates keeps.startCodes
  · intro none
    have codes := patched_start_codes set none
    exact ⟨final, returned, set, codes, patch_idr_again set codes⟩

/-- An IDR unit with three zeros before the next start code. -/
theorem patch_idr_creates_start_code :
    ¬Returns (patchIdrAlignment [0, 0, 1, 0x65, 0, 0, 0, 0, 0, 0, 1, 0x41]) fun final =>
      KeepsStructure [0, 0, 1, 0x65, 0, 0, 0, 0, 0, 0, 1, 0x41] final.data := by
  rintro ⟨final, returned, keeps⟩
  have patched : (patchIdrAlignment [0, 0, 1, 0x65, 0, 0, 0, 0, 0, 0, 1, 0x41]).map IdrPatch.data =
      .ok [0, 0, 1, 0x65, 0, 0, 1, 0, 0, 0, 1, 0x41] := by decide +kernel
  rw [returned] at patched
  have data : final.data = [0, 0, 1, 0x65, 0, 0, 1, 0, 0, 0, 1, 0x41] := Except.ok.inj patched
  have codes := keeps.startCodes
  rw [data] at codes
  exact absurd codes (by decide +kernel)

end Testings.H264
