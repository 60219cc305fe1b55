import Testings.FoldUntil
import Testings.PythonData
import Testings.ResyncScan

/-!
# The two MPEG-TS scanners

`Parser.find_packet` and `Parser.process` of `ts_extract.py` and
`TsParser.process` of `ts_pts_check.py`, over the mapped file. What they hand
each packet to is a parameter with a state of its own. Both are the same
resynchronising scan up to the last 188 bytes of the file, which `find_packet`
hands over without a look at them.
-/

set_option autoImplicit false

namespace Testings.MpegTs

open Python

def tsSz : Nat := 188

def sync : Nat := 0x47

def Parser.findPacket (inmm : Bytes) (pos : Nat) : Py Int :=
  let last : Int := inmm.length - tsSz
  if ahead : (pos : Int) < last then do
    let begChr ← index inmm pos
    let endChr ← index inmm (pos + tsSz)
    if begChr = sync ∧ endChr = sync then pure pos else Parser.findPacket inmm (pos + 1)
  else if last < pos then pure (-1)
  else pure pos
termination_by inmm.length - pos

theorem Parser.find_packet_bounds (inmm : Bytes) (start : Nat) :
    Returns (Parser.findPacket inmm start) fun position =>
      position < 0 ∨ (start : Int) ≤ position ∧ position + tsSz ≤ inmm.length := by
  fun_induction Parser.findPacket inmm start with
  | case1 pos last ahead ih =>
      dsimp only [last, tsSz] at ahead
      refine (index_returns (by omega)).bind fun begChr _ => ?_
      refine (index_returns (by unfold tsSz; omega)).bind fun endChr _ => ?_
      apply Returns.ite
      · intro _
        exact .pure (.inr ⟨Int.le_refl _, by unfold tsSz; omega⟩)
      · intro _
        apply ih.weaken
        rintro position (nothing | found)
        · exact .inl nothing
        · exact .inr ⟨by omega, found.2⟩
  | case2 pos last ahead past => exact .pure (.inl (by decide))
  | case3 pos last ahead past =>
      dsimp only [last, tsSz] at past
      exact .pure (.inr ⟨Int.le_refl _, by unfold tsSz; omega⟩)

variable {State : Type}

def Parser.process (inmm : Bytes) (functor : Bytes → Nat → State → Py State) (nextPos : Nat)
    (state : State) : Py State :=
  match _found : Parser.findPacket inmm nextPos with
  | .error error => .error error
  | .ok position =>
      if _stop : position < 0 then .ok state
      else do
        let state ← functor (slice inmm position.toNat (position.toNat + tsSz)) position.toNat state
        Parser.process inmm functor (position.toNat + tsSz) state
termination_by inmm.length + 1 - nextPos
decreasing_by
  obtain ⟨value, returned, bounds⟩ := Parser.find_packet_bounds inmm nextPos
  rw [_found] at returned
  cases returned
  unfold tsSz at bounds ⊢
  omega

/-- The byte behind the packet; there is none to doubt at the end of the file. -/
def TsParser.behind (inmm : Bytes) (pos : Nat) : Py Nat :=
  if pos + tsSz < inmm.length then index inmm (pos + tsSz) else pure sync

def TsParser.process (inmm : Bytes) (packet : Bytes → Nat → State → Py State)
    (done : State → Bool) (pos : Nat) (state : State) : Py State :=
  if _ahead : pos + tsSz ≤ inmm.length then do
    let first ← index inmm pos
    if first ≠ sync then TsParser.process inmm packet done (pos + 1) state
    else do
      let behind ← TsParser.behind inmm pos
      if behind ≠ sync then TsParser.process inmm packet done (pos + 1) state
      else do
        let state ← packet (slice inmm pos (pos + tsSz)) pos state
        if done state then pure state
        else TsParser.process inmm packet done (pos + tsSz) state
  else pure state
termination_by inmm.length - pos
decreasing_by
  all_goals
    unfold tsSz at *
    omega

def SyncAt (inmm : Bytes) (pos : Nat) : Prop := inmm[pos]? = some 0x47

instance (inmm : Bytes) (pos : Nat) : Decidable (SyncAt inmm pos) :=
  inferInstanceAs (Decidable (_ = _))

/-- A frame is confirmed by a second sync byte right behind it. -/
def tsScan (inmm : Bytes) : ResyncScan where
  width := tsSz
  positive := by decide
  total := inmm.length
  confirmed pos := decide (SyncAt inmm pos ∧ SyncAt inmm (pos + tsSz))

/-- What a scanner hands over for an offset. -/
def packetAt (inmm : Bytes) (offset : Nat) : Bytes × Nat :=
  (slice inmm offset (offset + tsSz), offset)

/-- The callee that only writes down what it gets. -/
def record (packet : Bytes) (offset : Nat) (log : List (Bytes × Nat)) : Py (List (Bytes × Nat)) :=
  pure (log ++ [(packet, offset)])

theorem index_sync {inmm : Bytes} {pos : Nat} (inside : pos < inmm.length) :
    Returns (index inmm pos) fun byte => byte = sync ↔ SyncAt inmm pos := by
  refine ⟨_, index_eq inside, ?_⟩
  rw [SyncAt, List.getElem?_eq_getElem inside, Option.some_inj, ← BitVec.toNat_inj]
  rfl

theorem TsParser.behind_sync (inmm : Bytes) (pos : Nat) :
    Returns (TsParser.behind inmm pos) fun byte =>
      byte = sync ↔ (pos + tsSz < inmm.length → SyncAt inmm (pos + tsSz)) := by
  apply Returns.ite
  · intro inside
    apply (index_sync inside).weaken
    intro byte behind
    simp [behind, inside]
  · intro outside
    exact .pure (by simp [outside])

section offsets

variable {inmm : Bytes} {last : Bool} {pos : Nat}

theorem ts_offsets_confirmed (ahead : pos + tsSz < inmm.length) (first : SyncAt inmm pos)
    (behind : SyncAt inmm (pos + tsSz)) :
    (tsScan inmm).offsets last pos = pos :: (tsScan inmm).offsets last (pos + tsSz) :=
  ResyncScan.offsets_confirmed ahead (decide_eq_true ⟨first, behind⟩)

theorem ts_offsets_skip (ahead : pos + tsSz < inmm.length)
    (unconfirmed : ¬(SyncAt inmm pos ∧ SyncAt inmm (pos + tsSz))) :
    (tsScan inmm).offsets last pos = (tsScan inmm).offsets last (pos + 1) :=
  ResyncScan.offsets_skip ahead fun confirmed => unconfirmed (of_decide_eq_true confirmed)

theorem ts_offsets_end (atEnd : pos + tsSz = inmm.length) :
    (tsScan inmm).offsets last pos = if last then [pos] else [] :=
  ResyncScan.offsets_end atEnd

theorem ts_offsets_past (past : inmm.length < pos + tsSz) :
    (tsScan inmm).offsets last pos = [] :=
  ResyncScan.offsets_past past

end offsets

/-- `find_packet` stops at the next offset of the scan that takes the last frame unseen. -/
theorem Parser.find_packet_next (inmm : Bytes) (start : Nat) :
    Returns (Parser.findPacket inmm start) fun position =>
      (tsScan inmm).offsets true start =
        if position < 0 then []
        else position.toNat :: (tsScan inmm).offsets true (position.toNat + tsSz) := by
  fun_induction Parser.findPacket inmm start with
  | case1 pos last ahead ih =>
      have inside : pos + tsSz < inmm.length := by omega
      refine (index_sync (by omega)).bind fun begChr first => ?_
      refine (index_sync inside).bind fun endChr behind => ?_
      apply Returns.ite
      · rintro ⟨begSync, endSync⟩
        exact .pure (by simp [ts_offsets_confirmed inside (first.mp begSync) (behind.mp endSync)])
      · intro unconfirmed
        rw [first, behind] at unconfirmed
        rw [ts_offsets_skip inside unconfirmed]
        exact ih
  | case2 pos last ahead past =>
      have outside : inmm.length < pos + tsSz := by omega
      exact .pure (by simp [ts_offsets_past outside])
  | case3 pos last ahead past =>
      have atEnd : pos + tsSz = inmm.length := by omega
      have outside : inmm.length < pos + tsSz + tsSz := by
        unfold tsSz at atEnd ⊢
        omega
      exact .pure (by simp [ts_offsets_end atEnd, ts_offsets_past outside])

/-- `Parser.process` calls its functor on the packets of the scan that takes the last
frame unseen. -/
theorem Parser.process_fold (inmm : Bytes) (functor : Bytes → Nat → State → Py State)
    (nextPos : Nat) (state : State) :
    Parser.process inmm functor nextPos state =
      (((tsScan inmm).offsets true nextPos).map (packetAt inmm)).foldlM
        (fun state handed => functor handed.1 handed.2 state) state := by
  fun_induction Parser.process inmm functor nextPos state with
  | case1 nextPos state error failed =>
      obtain ⟨position, found, _⟩ := Parser.find_packet_next inmm nextPos
      rw [failed] at found
      cases found
  | case2 nextPos state position found stop =>
      obtain ⟨_, same, offsets⟩ := Parser.find_packet_next inmm nextPos
      cases found.symm.trans same
      rw [offsets, if_pos stop]
      rfl
  | case3 nextPos state position found running ih =>
      obtain ⟨_, same, offsets⟩ := Parser.find_packet_next inmm nextPos
      cases found.symm.trans same
      rw [offsets, if_neg running, List.map_cons, List.foldlM_cons]
      exact bind_congr ih

/-- `TsParser.process` is the scan that looks at the last frame before it takes it. -/
theorem TsParser.process_fold (inmm : Bytes) (packet : Bytes → Nat → State → Py State)
    (done : State → Bool) (pos : Nat) (state : State) :
    TsParser.process inmm packet done pos state =
      foldUntil done (fun state handed => packet handed.1 handed.2 state) state
        (((tsScan inmm).offsets (decide (SyncAt inmm (inmm.length - tsSz))) pos).map
          (packetAt inmm)) := by
  fun_induction TsParser.process inmm packet done pos state with
  | case1 pos state ahead skip taken =>
      have inside : pos < inmm.length := by
        unfold tsSz at ahead
        omega
      obtain ⟨firstByte, readFirst, first⟩ := index_sync inside
      obtain ⟨behindByte, readBehind, behind⟩ := TsParser.behind_sync inmm pos
      simp only [readFirst, readBehind, ok_bind, ne_eq, first, behind, ite_not]
      by_cases firstSync : SyncAt inmm pos
      · rw [if_pos firstSync]
        by_cases behindSync : pos + tsSz < inmm.length → SyncAt inmm (pos + tsSz)
        · rw [if_pos behindSync]
          simp only [taken]
          by_cases more : pos + tsSz < inmm.length
          · rw [ts_offsets_confirmed more firstSync (behindSync more)]
            rfl
          · have atEnd : pos + tsSz = inmm.length := by omega
            have last : inmm.length - tsSz = pos := by omega
            have past : inmm.length < pos + tsSz + tsSz := by
              unfold tsSz at atEnd ⊢
              omega
            rw [ts_offsets_past past, ts_offsets_end atEnd, last, decide_eq_true firstSync]
            rfl
        · rw [if_neg behindSync]
          rw [Classical.not_imp] at behindSync
          rw [ts_offsets_skip behindSync.1 fun both => behindSync.2 both.2]
          exact skip
      · rw [if_neg firstSync]
        by_cases more : pos + tsSz < inmm.length
        · rw [ts_offsets_skip more fun both => firstSync both.1]
          exact skip
        · have atEnd : pos + tsSz = inmm.length := by omega
          have last : inmm.length - tsSz = pos := by omega
          rw [ts_offsets_past (by omega)] at skip
          rw [ts_offsets_end atEnd, last, decide_eq_false firstSync]
          exact skip
  | case2 pos state short =>
      rw [ts_offsets_past (by omega)]
      rfl

theorem fold_record (handed log : List (Bytes × Nat)) :
    handed.foldlM (fun log packet => record packet.1 packet.2 log) log = .ok (log ++ handed) := by
  induction handed generalizing log with
  | nil => rw [List.append_nil]; rfl
  | cons packet rest ih =>
      rw [List.append_cons]
      exact ih (log ++ [packet])

theorem Parser.process_record (inmm : Bytes) (nextPos : Nat) (log : List (Bytes × Nat)) :
    Parser.process inmm record nextPos log =
      .ok (log ++ ((tsScan inmm).offsets true nextPos).map (packetAt inmm)) := by
  rw [Parser.process_fold, fold_record]

theorem TsParser.process_record (inmm : Bytes) (pos : Nat) (log : List (Bytes × Nat)) :
    TsParser.process inmm record (fun _ => false) pos log =
      .ok (log ++ ((tsScan inmm).offsets (decide (SyncAt inmm (inmm.length - tsSz))) pos).map
        (packetAt inmm)) := by
  rw [TsParser.process_fold, fold_until_never, fold_record]

section returns

variable {inmm : Bytes} {callee : Bytes → Nat → State → Py State} {Inv : State → Prop}

/-- What the callee keeps on every packet of 188 bytes, a whole scan keeps. -/
theorem Parser.process_returns
    (kept : ∀ packet offset state, packet.length = tsSz → Inv state →
      Returns (callee packet offset state) Inv)
    (nextPos : Nat) (state : State) (holds : Inv state) :
    Returns (Parser.process inmm callee nextPos state) Inv := by
  fun_induction Parser.process inmm callee nextPos state with
  | case1 nextPos state error failed =>
      obtain ⟨position, found, _⟩ := Parser.find_packet_bounds inmm nextPos
      rw [failed] at found
      cases found
  | case2 nextPos state position found stop => exact ⟨state, rfl, holds⟩
  | case3 nextPos state position found running ih =>
      obtain ⟨_, same, bounds⟩ := Parser.find_packet_bounds inmm nextPos
      cases found.symm.trans same
      have whole : (slice inmm position.toNat (position.toNat + tsSz)).length = tsSz := by
        rw [slice_length (by omega)]
        omega
      apply Returns.bind (kept _ _ state whole holds)
      exact ih

theorem TsParser.process_returns {done : State → Bool}
    (kept : ∀ packet offset state, packet.length = tsSz → Inv state →
      Returns (callee packet offset state) Inv)
    (pos : Nat) (state : State) (holds : Inv state) :
    Returns (TsParser.process inmm callee done pos state) Inv := by
  fun_induction TsParser.process inmm callee done pos state with
  | case1 pos state ahead skip taken =>
      have inside : pos < inmm.length := by
        unfold tsSz at ahead
        omega
      have whole : (slice inmm pos (pos + tsSz)).length = tsSz := by
        rw [slice_length ahead]
        omega
      apply Returns.bind (index_sync inside)
      intro first _
      apply Returns.ite
      · exact fun _ => skip holds
      · intro _
        apply Returns.bind (TsParser.behind_sync inmm pos)
        intro behind _
        apply Returns.ite
        · exact fun _ => skip holds
        · intro _
          apply Returns.bind (kept _ pos state whole holds)
          intro next kept
          apply Returns.ite
          · exact fun _ => .pure kept
          · exact fun _ => taken next kept
  | case2 pos state short => exact .pure holds

end returns

/-- The offsets are the same, and every packet handed over starts with 0x47. -/
def ScannersAgree (inmm : Bytes) : Prop :=
  ∃ extracted checked : List (Bytes × Nat),
    Parser.process inmm record 0 [] = .ok extracted ∧
      TsParser.process inmm record (fun _ => false) 0 [] = .ok checked ∧
      extracted.map Prod.snd = checked.map Prod.snd ∧
      ∀ packet ∈ extracted ++ checked, SyncAt packet.1 0

theorem packet_sync (inmm : Bytes) (offset : Nat) :
    SyncAt (packetAt inmm offset).1 0 ↔ SyncAt inmm offset := by
  have inside : offset < offset + tsSz := Nat.lt_add_of_pos_right (by decide)
  simp only [SyncAt, packetAt, slice]
  rw [List.getElem?_drop, Nat.add_zero, List.getElem?_take_of_lt inside]

theorem offsets_sync {inmm : Bytes} {offset : Nat}
    (found : offset ∈ (tsScan inmm).offsets (decide (SyncAt inmm (inmm.length - tsSz))) 0) :
    SyncAt inmm offset := by
  obtain ⟨_, confirmed | ⟨atEnd, last⟩⟩ := ResyncScan.mem_offsets found
  · exact (of_decide_eq_true confirmed).1
  · have same : inmm.length - tsSz = offset := Nat.sub_eq_of_eq_add atEnd.symm
    rw [← same]
    exact of_decide_eq_true last

theorem packet_offsets (inmm : Bytes) (offsets : List Nat) :
    (offsets.map (packetAt inmm)).map Prod.snd = offsets := by
  rw [List.map_map]
  exact List.map_id offsets

theorem scanners_agree_iff (inmm : Bytes) (enough : tsSz ≤ inmm.length) :
    ScannersAgree inmm ↔
      ((tsScan inmm).Reaches 0 (inmm.length - tsSz) → SyncAt inmm (inmm.length - tsSz)) := by
  have extracts := Parser.process_record inmm 0 []
  have checks := TsParser.process_record inmm 0 []
  rw [List.nil_append] at extracts checks
  have fits : (tsScan inmm).width ≤ (tsScan inmm).total := enough
  have same := ResyncScan.offsets_last_iff fits (decide (SyncAt inmm (inmm.length - tsSz))) 0
  rw [decide_eq_true_eq] at same
  constructor
  · rintro ⟨extracted, checked, extracted', checked', offsets, _⟩
    cases extracts.symm.trans extracted'
    cases checks.symm.trans checked'
    rw [packet_offsets, packet_offsets] at offsets
    exact same.mp offsets
  · intro starts
    have offsets := same.mpr starts
    refine ⟨_, _, extracts, checks, ?_, ?_⟩
    · rw [packet_offsets, packet_offsets]
      exact offsets
    · intro packet passed
      rw [offsets, List.mem_append, or_self] at passed
      obtain ⟨offset, found, rfl⟩ := List.mem_map.mp passed
      exact (packet_sync inmm offset).mpr (offsets_sync found)

def zeroPacket : Bytes := 0x47 :: List.replicate 187 0

/-- Four packets with noise in front and in the middle. -/
def noisyFile : Bytes :=
  [0x47, 0] ++ zeroPacket ++ zeroPacket ++ [0, 0, 0] ++ zeroPacket ++ zeroPacket

/-- The second packet goes with the noise behind it. -/
theorem scanners_agree_iff_noisy_file :
    (tsScan noisyFile).offsets true 0 = [2, 381, 569] ∧ ScannersAgree noisyFile := by
  refine ⟨by decide +kernel, ?_⟩
  exact (scanners_agree_iff noisyFile (by decide +kernel)).mpr fun _ => by decide +kernel

/-- A file of 188 zero bytes: `ts_extract` hands them over as a packet. -/
theorem extract_takes_unsynced_tail :
    ¬∀ inmm : Bytes, tsSz ≤ inmm.length → ScannersAgree inmm := by
  intro always
  obtain ⟨extracted, _, extracts, _, _, synced⟩ :=
    always (List.replicate 188 0) (by decide +kernel)
  cases (Parser.process_record (List.replicate 188 0) 0 []).symm.trans extracts
  rw [ts_offsets_end (by decide +kernel)] at synced
  have starts := synced (packetAt (List.replicate 188 0) 0) (by simp)
  exact absurd ((packet_sync (List.replicate 188 0) 0).mp starts) (by decide +kernel)

end Testings.MpegTs
