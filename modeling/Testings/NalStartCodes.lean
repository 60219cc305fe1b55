import Testings.PythonData
import Testings.StrideScan

/-!
# The start codes of a byte stream

`find_start_codes`, which `h264nal.py` and `h264cabac.py` share word for word. It
looks for three bytes or four at every offset, up to one bound for both.
-/

set_option autoImplicit false

namespace Testings.H264

open Python

/-- The loop of `find_start_codes` from an offset on. -/
def findStartCodesFrom (data : Bytes) (i : Nat) : List (Nat × Nat) :=
  if i + 3 < data.length then
    if slice data i (i + 3) = [0, 0, 1] then (i, 3) :: findStartCodesFrom data (i + 3)
    else if slice data i (i + 4) = [0, 0, 0, 1] then (i, 4) :: findStartCodesFrom data (i + 4)
    else findStartCodesFrom data (i + 1)
  else []
termination_by data.length - i

/-- `list(find_start_codes(data))` -/
def findStartCodes (data : Bytes) : List (Nat × Nat) := findStartCodesFrom data 0

def startCodeWidth (data : Bytes) (i : Nat) : Nat :=
  if slice data i (i + 3) = [0, 0, 1] then 3
  else if slice data i (i + 4) = [0, 0, 0, 1] then 4
  else 0

def startCodeScan (data : Bytes) : StrideScan where
  limit := data.length - 3
  width := startCodeWidth data

theorem find_start_codes_scan (data : Bytes) (i : Nat) :
    findStartCodesFrom data i = (startCodeScan data).found i := by
  fun_induction findStartCodesFrom data i with
  | case1 i examined three ih =>
      have width : (startCodeScan data).width i = 3 := if_pos three
      have within : i < (startCodeScan data).limit := by
        change i < data.length - 3
        omega
      rw [StrideScan.found_match within (by omega), width, ih]
  | case2 i examined three four ih =>
      have width : (startCodeScan data).width i = 4 := (if_neg three).trans (if_pos four)
      have within : i < (startCodeScan data).limit := by
        change i < data.length - 3
        omega
      rw [StrideScan.found_match within (by omega), width, ih]
  | case3 i examined three four ih =>
      have width : (startCodeScan data).width i = 0 := (if_neg three).trans (if_neg four)
      have within : i < (startCodeScan data).limit := by
        change i < data.length - 3
        omega
      rw [StrideScan.found_skip within width, ih]
  | case4 i done =>
      rw [StrideScan.found_done]
      change ¬i < data.length - 3
      omega

theorem slice_cons {data : Bytes} {i n : Nat} {byte : BitVec 8} {rest : Bytes} :
    slice data i (i + (n + 1)) = byte :: rest ↔
      data[i]? = some byte ∧ slice data (i + 1) (i + 1 + n) = rest := by
  rw [slice, slice, List.drop_take, List.drop_take, Nat.add_sub_cancel_left,
    Nat.add_sub_cancel_left]
  by_cases inside : i < data.length
  · rw [List.drop_eq_getElem_cons inside, List.take_succ_cons, List.getElem?_eq_getElem inside]
    simp
  · rw [List.drop_eq_nil_of_le (by omega), List.getElem?_eq_none (by omega)]
    simp

theorem slice_empty (data : Bytes) (i : Nat) : slice data i i = [] := by
  simp [slice]

theorem slice_three {data : Bytes} {i : Nat} {a b c : BitVec 8} :
    slice data i (i + 3) = [a, b, c] ↔
      data[i]? = some a ∧ data[i + 1]? = some b ∧ data[i + 2]? = some c := by
  rw [slice_cons, slice_cons, slice_cons]
  simp [slice_empty]

theorem slice_four {data : Bytes} {i : Nat} {a b c d : BitVec 8} :
    slice data i (i + 4) = [a, b, c, d] ↔
      data[i]? = some a ∧ data[i + 1]? = some b ∧ data[i + 2]? = some c ∧
        data[i + 3]? = some d := by
  rw [slice_cons, slice_cons, slice_cons, slice_cons]
  simp [slice_empty]

theorem start_code_width_three {data : Bytes} {i : Nat} :
    startCodeWidth data i = 3 ↔
      data[i]? = some 0 ∧ data[i + 1]? = some 0 ∧ data[i + 2]? = some 1 := by
  rw [← slice_three, startCodeWidth]
  split_ifs with three four
  · exact ⟨fun _ => three, fun _ => rfl⟩
  · exact ⟨fun width => absurd width (by decide), fun now => absurd now three⟩
  · exact ⟨fun width => absurd width (by decide), fun now => absurd now three⟩

theorem start_code_width_four {data : Bytes} {i : Nat} :
    startCodeWidth data i = 4 ↔
      data[i]? = some 0 ∧ data[i + 1]? = some 0 ∧ data[i + 2]? = some 0 ∧
        data[i + 3]? = some 1 := by
  rw [← slice_four, startCodeWidth]
  split_ifs with three four
  · constructor
    · exact fun width => absurd width (by decide)
    · intro both
      have last := (slice_three.mp three).2.2
      rw [(slice_four.mp both).2.2.1] at last
      exact absurd last (by decide)
  · exact ⟨fun _ => four, fun _ => rfl⟩
  · exact ⟨fun width => absurd width (by decide), fun now => absurd now four⟩

theorem start_code_width_cases (data : Bytes) (i : Nat) :
    startCodeWidth data i = 0 ∨ startCodeWidth data i = 3 ∨ startCodeWidth data i = 4 := by
  unfold startCodeWidth
  split_ifs <;> simp

/-- The match ends in `01`, and all before that is zero. -/
theorem start_code_bytes {data : Bytes} {i p : Nat} (inside : i ≤ p)
    (before : p < i + startCodeWidth data i) :
    data[p]? = some (if p + 1 = i + startCodeWidth data i then 1 else 0) := by
  cases start_code_width_cases data i with
  | inl none =>
      rw [none] at before
      omega
  | inr some =>
      cases some with
      | inl three =>
          have bytes := start_code_width_three.mp three
          rw [three] at before ⊢
          obtain rfl | rfl | rfl : p = i ∨ p = i + 1 ∨ p = i + 2 := by omega
          · simpa using bytes.1
          · simpa using bytes.2.1
          · simpa using bytes.2.2
      | inr four =>
          have bytes := start_code_width_four.mp four
          rw [four] at before ⊢
          obtain rfl | rfl | rfl | rfl : p = i ∨ p = i + 1 ∨ p = i + 2 ∨ p = i + 3 := by omega
          · simpa using bytes.1
          · simpa using bytes.2.1
          · simpa using bytes.2.2.1
          · simpa using bytes.2.2.2

theorem of_mem_start_codes {data : Bytes} {code : Nat × Nat}
    (member : code ∈ findStartCodes data) :
    code.1 + 3 < data.length ∧ code.2 = startCodeWidth data code.1 ∧ 3 ≤ code.2 := by
  rw [findStartCodes, find_start_codes_scan] at member
  obtain ⟨_, within, width, positive⟩ := StrideScan.of_mem_found member
  have wide : code.2 = startCodeWidth data code.1 := width
  have below : code.1 < data.length - 3 := within
  have kinds := start_code_width_cases data code.1
  omega

/-- A start code is found, or it begins inside one that is. -/
theorem start_codes_complete {data : Bytes} {i : Nat} (examined : i + 3 < data.length)
    (matched : startCodeWidth data i ≠ 0) :
    (i, startCodeWidth data i) ∈ findStartCodes data ∨
      ∃ code ∈ findStartCodes data, code.1 < i ∧ i < code.1 + code.2 := by
  rw [findStartCodes, find_start_codes_scan]
  apply StrideScan.found_complete (Nat.zero_le i) _ matched
  change i < data.length - 3
  omega

theorem start_codes_disjoint (data : Bytes) :
    (findStartCodes data).Pairwise fun code next => code.1 + code.2 ≤ next.1 := by
  rw [findStartCodes, find_start_codes_scan]
  exact StrideScan.found_disjoint _ _

theorem start_codes_increasing (data : Bytes) :
    (findStartCodes data).Pairwise fun code next => code.1 < next.1 := by
  rw [findStartCodes, find_start_codes_scan]
  exact StrideScan.found_increasing _ _

theorem start_codes_unique {data : Bytes} {code other : Nat × Nat} {p : Nat}
    (member : code ∈ findStartCodes data) (otherMember : other ∈ findStartCodes data)
    (inside : code.1 ≤ p) (before : p < code.1 + code.2) (otherInside : other.1 ≤ p)
    (otherBefore : p < other.1 + other.2) : code = other := by
  rw [findStartCodes, find_start_codes_scan] at member otherMember
  exact StrideScan.found_unique member otherMember inside before otherInside otherBefore

/-- What a found start code has at each of its offsets. -/
theorem start_codes_bytes {data : Bytes} {code : Nat × Nat} {p : Nat}
    (member : code ∈ findStartCodes data) (inside : code.1 ≤ p) (before : p < code.1 + code.2) :
    data[p]? = some (if p + 1 = code.1 + code.2 then 1 else 0) := by
  rw [(of_mem_start_codes member).2.1] at before ⊢
  exact start_code_bytes inside before

theorem start_codes_end {data : Bytes} {code : Nat × Nat} {p : Nat}
    (member : code ∈ findStartCodes data) (last : p + 1 = code.1 + code.2) :
    data[p]? = some 1 := by
  have width := (of_mem_start_codes member).2.2
  rw [start_codes_bytes member (by omega) (by omega), if_pos last]

/-- A code that is going on at `p` ends where the bytes from `p` on first have `01`. -/
theorem start_codes_end_of_zeros {data : Bytes} {code : Nat × Nat} {p n : Nat}
    (member : code ∈ findStartCodes data) (before : p < code.1 + code.2)
    (zeros : ∀ k, k < n → data[p + k]? = some 0) : p + n < code.1 + code.2 := by
  by_contra ends
  have zero := zeros (code.1 + code.2 - 1 - p) (by omega)
  rw [start_codes_end member (by omega)] at zero
  exact absurd zero (by decide)

theorem start_codes_tail {data : Bytes} {p : Nat} (occurs : startCodeWidth data p = 3)
    (examined : p + 3 < data.length) :
    ∃ code ∈ findStartCodes data, code.1 + code.2 = p + 3 := by
  cases start_codes_complete examined (by omega) with
  | inl found =>
      rw [occurs] at found
      exact ⟨_, found, rfl⟩
  | inr covered =>
      obtain ⟨code, member, before, after⟩ := covered
      obtain ⟨first, second, _⟩ := start_code_width_three.mp occurs
      have beyond : p + 2 < code.1 + code.2 :=
        start_codes_end_of_zeros member after fun k bounded => by
          obtain rfl | rfl : k = 0 ∨ k = 1 := by omega
          · exact first
          · exact second
      obtain ⟨_, width, _⟩ := of_mem_start_codes member
      have kinds := start_code_width_cases data code.1
      exact ⟨code, member, by omega⟩

/-- Where three zeros stand before `01`, the long code is found. -/
theorem start_codes_long {data : Bytes} {p : Nat} (occurs : startCodeWidth data p = 4) :
    (p, 4) ∈ findStartCodes data := by
  obtain ⟨first, second, third, fourth⟩ := start_code_width_four.mp occurs
  have examined : p + 3 < data.length := (List.getElem?_eq_some_iff.mp fourth).1
  cases start_codes_complete examined (by omega) with
  | inl found => exact occurs ▸ found
  | inr covered =>
      obtain ⟨code, member, before, after⟩ := covered
      have beyond : p + 3 < code.1 + code.2 :=
        start_codes_end_of_zeros member after fun k bounded => by
          obtain rfl | rfl | rfl : k = 0 ∨ k = 1 ∨ k = 2 := by omega
          · exact first
          · exact second
          · exact third
      obtain ⟨_, width, _⟩ := of_mem_start_codes member
      have kinds := start_code_width_cases data code.1
      omega

/-- The byte before an occurrence of `00 00 01` makes it a long code. -/
theorem start_code_width_succ {data : Bytes} {p : Nat} (zero : data[p]? = some 0)
    (occurs : startCodeWidth data (p + 1) = 3) : startCodeWidth data p = 4 := by
  have bytes := start_code_width_three.mp occurs
  exact start_code_width_four.mpr ⟨zero, bytes⟩

/-- What a search for start codes should yield: codes in order, apart from one
another, with the tail of exactly one at each `00 00 01`; it has four bytes where a
zero that no earlier code has taken stands before them. -/
structure ExactSearch (data : Bytes) (codes : List (Nat × Nat)) : Prop where
  increasing : codes.Pairwise fun code next => code.1 < next.1
  disjoint : codes.Pairwise fun code next => code.1 + code.2 ≤ next.1
  covers : ∀ code ∈ codes,
    slice data code.1 (code.1 + code.2) = [0, 0, 1] ∨
      slice data code.1 (code.1 + code.2) = [0, 0, 0, 1]
  tails : ∀ p, slice data p (p + 3) = [0, 0, 1] →
    ∃! code, code ∈ codes ∧ code.1 + code.2 = p + 3
  longer : ∀ p, slice data (p + 1) (p + 1 + 3) = [0, 0, 1] → data[p]? = some 0 →
    ∀ code ∈ codes, code.1 + code.2 = p + 1 + 3 →
      (∀ earlier ∈ codes, earlier.1 < code.1 →
        ¬(earlier.1 ≤ p ∧ p < earlier.1 + earlier.2)) →
      code.2 = 4

/-- The string ends in a start code of three bytes that is not one of four. -/
def EndsInShortCode (data : Bytes) : Prop :=
  [0, 0, 1] <:+ data ∧ ¬[0, 0, 0, 1] <:+ data

theorem start_codes_covers {data : Bytes} {code : Nat × Nat}
    (member : code ∈ findStartCodes data) :
    slice data code.1 (code.1 + code.2) = [0, 0, 1] ∨
      slice data code.1 (code.1 + code.2) = [0, 0, 0, 1] := by
  obtain ⟨_, width, wide⟩ := of_mem_start_codes member
  obtain none | three | four := start_code_width_cases data code.1
  · omega
  · rw [width, three]
    exact .inl (slice_three.mpr (start_code_width_three.mp three))
  · rw [width, four]
    exact .inr (slice_four.mpr (start_code_width_four.mp four))

theorem start_codes_longer {data : Bytes} {code : Nat × Nat} {p : Nat}
    (occurs : startCodeWidth data (p + 1) = 3) (zero : data[p]? = some 0)
    (member : code ∈ findStartCodes data) (tail : code.1 + code.2 = p + 1 + 3) : code.2 = 4 := by
  have long := start_codes_long (start_code_width_succ zero occurs)
  have wide := (of_mem_start_codes member).2.2
  have same := start_codes_unique (p := p + 3) member long (by omega) (by omega)
    (Nat.le_add_right p 3) (Nat.lt_succ_self _)
  rw [same]

theorem suffix_slice {pattern data : Bytes} :
    pattern <:+ data ↔ ∃ p, p + pattern.length = data.length ∧
      slice data p (p + pattern.length) = pattern := by
  rw [List.suffix_iff_eq_drop]
  constructor
  · intro tail
    have fits := congrArg List.length tail
    rw [List.length_drop] at fits
    refine ⟨data.length - pattern.length, by omega, ?_⟩
    rw [slice, List.take_of_length_le (by omega), ← tail]
  · rintro ⟨p, ends, tail⟩
    rw [slice, List.take_of_length_le (by omega)] at tail
    rw [show data.length - pattern.length = p by omega, tail]

/-- The last three bytes are never a code of three bytes that the search yields. -/
theorem short_code_missed {data : Bytes} {p : Nat} (ends : p + 3 = data.length)
    (short : ¬[0, 0, 0, 1] <:+ data) {code : Nat × Nat} (member : code ∈ findStartCodes data) :
    code.1 + code.2 ≠ p + 3 := by
  intro tail
  obtain ⟨within, width, wide⟩ := of_mem_start_codes member
  obtain none | three | four := start_code_width_cases data code.1
  · omega
  · omega
  · apply short
    rw [suffix_slice]
    exact ⟨code.1, show code.1 + 4 = data.length by omega,
      slice_four.mpr (start_code_width_four.mp four)⟩

theorem start_codes_found {data : Bytes} {p : Nat} (regular : ¬EndsInShortCode data)
    (occurs : slice data p (p + 3) = [0, 0, 1]) :
    ∃ code ∈ findStartCodes data, code.1 + code.2 = p + 3 := by
  have bytes := slice_three.mp occurs
  have inside := (List.getElem?_eq_some_iff.mp bytes.2.2).1
  by_cases examined : p + 3 < data.length
  · exact start_codes_tail (start_code_width_three.mpr bytes) examined
  · have ends : p + 3 = data.length := by omega
    have long : [0, 0, 0, 1] <:+ data := by
      by_contra short
      exact regular ⟨suffix_slice.mpr ⟨p, ends, occurs⟩, short⟩
    obtain ⟨first, endsLong, four⟩ := suffix_slice.mp long
    have total : first + 4 = data.length := endsLong
    have found := start_codes_long (start_code_width_four.mpr (slice_four.mp four))
    exact ⟨_, found, show first + 4 = p + 3 by omega⟩

theorem find_start_codes_exact (data : Bytes) :
    ExactSearch data (findStartCodes data) ↔ ¬EndsInShortCode data := by
  constructor
  · intro exact ⟨three, short⟩
    obtain ⟨p, ends, occurs⟩ := suffix_slice.mp three
    obtain ⟨code, ⟨member, tail⟩, _⟩ := exact.tails p occurs
    exact short_code_missed ends short member tail
  · intro regular
    refine ⟨start_codes_increasing data, start_codes_disjoint data,
      fun code => start_codes_covers, ?_, ?_⟩
    · intro p occurs
      obtain ⟨code, member, tail⟩ := start_codes_found regular occurs
      refine ⟨code, ⟨member, tail⟩, fun other otherTail => ?_⟩
      have wide := (of_mem_start_codes member).2.2
      have otherWide := (of_mem_start_codes otherTail.1).2.2
      exact start_codes_unique (p := p + 2) otherTail.1 member (by omega) (by omega) (by omega)
        (by omega)
    · intro p occurs zero code member tail _
      exact start_codes_longer (start_code_width_three.mpr (slice_three.mp occurs)) zero member tail

theorem find_start_codes_misses_last :
    ¬ExactSearch [0x65, 0, 0, 1] (findStartCodes [0x65, 0, 0, 1]) := by
  intro exact
  obtain ⟨code, ⟨member, _⟩, _⟩ := exact.tails 1 (by decide)
  have none : findStartCodes [0x65, 0, 0, 1] = [] := by decide +kernel
  rw [none] at member
  cases member

end Testings.H264
