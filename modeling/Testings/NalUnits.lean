import Testings.NalStartCodes

/-!
# The NAL units between the start codes

What the loops of `h264nal.py` and `h264cabac.py` go over: each start code with
where its unit begins and where the next code, or the file, ends it.
-/

set_option autoImplicit false

namespace Testings.H264

open Python

structure NalUnit where
  offset : Nat
  nalStart : Nat
  nalEnd : Nat
  deriving DecidableEq

/-- `start_codes[idx+1][0] if idx+1 < len(start_codes) else len(data)` -/
def nalEndBefore (total : Nat) : List (Nat × Nat) → Nat
  | [] => total
  | next :: _ => next.1

def nalUnitsOf (total : Nat) : List (Nat × Nat) → List NalUnit
  | [] => []
  | (offset, scLen) :: rest =>
      ⟨offset, offset + scLen, nalEndBefore total rest⟩ :: nalUnitsOf total rest

def nalUnits (data : Bytes) : List NalUnit := nalUnitsOf data.length (findStartCodes data)

/-- Codes apart from one another and inside the data. -/
structure Placed (total : Nat) (codes : List (Nat × Nat)) : Prop where
  disjoint : codes.Pairwise fun code next => code.1 + code.2 ≤ next.1
  inside : ∀ code ∈ codes, 0 < code.2 ∧ code.1 + code.2 ≤ total

theorem Placed.tail {total : Nat} {code : Nat × Nat} {codes : List (Nat × Nat)}
    (placed : Placed total (code :: codes)) : Placed total codes where
  disjoint := placed.disjoint.tail
  inside := fun code member => placed.inside code (List.mem_cons_of_mem _ member)

theorem start_codes_placed (data : Bytes) : Placed data.length (findStartCodes data) where
  disjoint := start_codes_disjoint data
  inside := by
    intro code member
    obtain ⟨within, width, wide⟩ := of_mem_start_codes member
    have last := start_codes_end (p := code.1 + code.2 - 1) member (by omega)
    have bounded := (List.getElem?_eq_some_iff.mp last).1
    omega

section units

variable {total : Nat} {codes : List (Nat × Nat)}

theorem nal_end_bounds {bound : Nat} (total_ge : bound ≤ total)
    (codes_ge : ∀ code ∈ codes, bound ≤ code.1) (placed : Placed total codes) :
    bound ≤ nalEndBefore total codes ∧ nalEndBefore total codes ≤ total := by
  cases codes with
  | nil => exact ⟨total_ge, Nat.le_refl _⟩
  | cons next rest =>
      have inside := placed.inside next List.mem_cons_self
      exact ⟨codes_ge next List.mem_cons_self, Nat.le_trans (Nat.le_add_right _ _) inside.2⟩

theorem nal_end_le {code : Nat × Nat} (placed : Placed total codes) (member : code ∈ codes) :
    nalEndBefore total codes ≤ code.1 := by
  cases codes with
  | nil => cases member
  | cons next rest =>
      cases List.mem_cons.mp member with
      | inl same => exact same ▸ Nat.le_refl _
      | inr later =>
          have disjoint := List.rel_of_pairwise_cons placed.disjoint later
          exact Nat.le_trans (Nat.le_add_right _ _) disjoint

theorem of_mem_nal_units {nal : NalUnit} (placed : Placed total codes)
    (member : nal ∈ nalUnitsOf total codes) :
    (∃ code ∈ codes, code.1 = nal.offset ∧ code.1 + code.2 = nal.nalStart) ∧
      nal.nalStart ≤ nal.nalEnd ∧ nal.nalEnd ≤ total := by
  induction codes with
  | nil => cases member
  | cons code rest ih =>
      cases List.mem_cons.mp member with
      | inl same =>
          subst same
          have inside := placed.inside code List.mem_cons_self
          have bounds := nal_end_bounds inside.2
            (fun next later => List.rel_of_pairwise_cons placed.disjoint later) placed.tail
          exact ⟨⟨code, List.mem_cons_self, rfl, rfl⟩, bounds⟩
      | inr later =>
          obtain ⟨⟨first, present, starts⟩, bounds⟩ := ih placed.tail later
          exact ⟨⟨first, List.mem_cons_of_mem _ present, starts⟩, bounds⟩

/-- Units follow one another. -/
theorem nal_units_disjoint (placed : Placed total codes) :
    (nalUnitsOf total codes).Pairwise fun nal next => nal.nalEnd ≤ next.offset := by
  induction codes with
  | nil => exact List.Pairwise.nil
  | cons code rest ih =>
      apply List.Pairwise.cons _ (ih placed.tail)
      intro next later
      obtain ⟨⟨first, present, starts, _⟩, _⟩ := of_mem_nal_units placed.tail later
      rw [← starts]
      exact nal_end_le placed.tail present

/-- No code reaches into a unit. -/
theorem nal_units_apart {nal : NalUnit} {code : Nat × Nat} (placed : Placed total codes)
    (member : nal ∈ nalUnitsOf total codes) (present : code ∈ codes) :
    code.1 + code.2 ≤ nal.nalStart ∨ nal.nalEnd ≤ code.1 := by
  induction codes with
  | nil => cases member
  | cons first rest ih =>
      cases List.mem_cons.mp member with
      | inl same =>
          subst same
          cases List.mem_cons.mp present with
          | inl here => exact .inl (here ▸ Nat.le_refl _)
          | inr later => exact .inr (nal_end_le placed.tail later)
      | inr later =>
          cases List.mem_cons.mp present with
          | inl here =>
              obtain ⟨⟨own, ownPresent, _, starts⟩, _⟩ := of_mem_nal_units placed.tail later
              have disjoint := List.rel_of_pairwise_cons placed.disjoint ownPresent
              subst here
              exact .inl (by omega)
          | inr elsewhere => exact ih placed.tail later elsewhere

end units

theorem index_header {data : Bytes} {position : Nat} {byte : BitVec 8}
    (header : data[position]? = some byte) : index data position = .ok byte.toNat := by
  rw [index, header]

/-- `nal[0] & 0x1F` is 5. -/
def IsIdr (data : Bytes) (nal : NalUnit) : Prop :=
  ∃ byte, data[nal.nalStart]? = some byte ∧ byte.toNat &&& 0x1F = 5

instance (data : Bytes) (nal : NalUnit) : Decidable (IsIdr data nal) :=
  match header : data[nal.nalStart]? with
  | some byte =>
      if kind : byte.toNat &&& 0x1F = 5 then isTrue ⟨byte, header, kind⟩
      else isFalse fun ⟨other, present, idr⟩ => by
        rw [header, Option.some.injEq] at present
        exact kind (present ▸ idr)
  | none => isFalse fun ⟨other, present, _⟩ => by
      rw [header] at present
      cases present

end Testings.H264
