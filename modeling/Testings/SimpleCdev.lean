import Testings.StepSystem
import Mathlib.Data.Vector.Basic
import Mathlib.Logic.Function.Basic

/-!
# The character device of the simple driver

One buffer of 128 bytes, written through files with a position each and through a
sysfs attribute. A store outside the buffer has no outcome.
-/

set_option autoImplicit false

namespace Testings.SimpleCdev

abbrev Bytes := List (BitVec 8)

def bufSize : Nat := 128

structure Priv where
  buf : Vector (BitVec 8) bufSize
  len : Nat

/-- `memcpy` to a position of the buffer. -/
def copyAt (buf : Vector (BitVec 8) bufSize) (pos : Nat) (bytes : Bytes) :
    Vector (BitVec 8) bufSize :=
  Vector.ofFn fun place =>
    if pos ≤ place then (bytes[place.val - pos]?).getD buf[place] else buf[place]

/-- The kernel's helper: the buffer, the position and the number of bytes copied. -/
def simpleWriteToBuffer (target : Vector (BitVec 8) bufSize) (available pos : Nat)
    (source : Bytes) : Vector (BitVec 8) bufSize × Nat × Int :=
  let copied := source.take (available - pos)
  (copyAt target pos copied, pos + copied.length, copied.length)

/-- The kernel's helper: the bytes read and the position. -/
def simpleReadFromBuffer (count pos : Nat) (source : Bytes) (available : Nat) : Bytes × Nat :=
  let copied := ((source.take available).drop pos).take count
  (copied, pos + copied.length)

/-- `priv->buf[priv->len] = '\\0'` -/
def Priv.terminate (priv : Priv) : Option Priv :=
  if inside : priv.len < bufSize then some { priv with buf := priv.buf.set priv.len 0 inside }
  else none

def simpleRead (priv : Priv) (count pos : Nat) : Bytes × Nat :=
  simpleReadFromBuffer count pos priv.buf.toList priv.len

def simpleWrite (priv : Priv) (pos : Nat) (ubuf : Bytes) : Option (Priv × Nat × Int) := do
  let (buf, pos, ret) := simpleWriteToBuffer priv.buf (bufSize - 1) pos ubuf
  let priv ← { buf := buf, len := if 0 ≤ ret then ret.toNat else priv.len : Priv }.terminate
  some (priv, pos, ret)

def valueStore (priv : Priv) (buf : Bytes) : Option Priv :=
  let len := min buf.length (bufSize - 1)
  { buf := copyAt priv.buf 0 (buf.take len), len := len : Priv }.terminate

structure Device where
  priv : Priv
  positions : Nat → Nat

inductive Op where
  | openFile (file : Nat)
  | read (file count : Nat)
  | write (file : Nat) (ubuf : Bytes)
  | store (buf : Bytes)

def Device.step (self : Device) : Op → Option Device
  | .openFile file => some { self with positions := Function.update self.positions file 0 }
  | .read file count =>
      let (_, pos) := simpleRead self.priv count (self.positions file)
      some { self with positions := Function.update self.positions file pos }
  | .write file ubuf => do
      let (priv, pos, _) ← simpleWrite self.priv (self.positions file) ubuf
      some ⟨priv, Function.update self.positions file pos⟩
  | .store buf => do
      let priv ← valueStore self.priv buf
      some { self with priv := priv }

/-- `devm_kzalloc` clears the buffer. -/
def device : StepSystem Device Op where
  start := ⟨⟨Vector.replicate bufSize 0, 0⟩, fun _ => 0⟩
  step := Device.step

/-- The successive writes of a file that has just been opened. -/
def written (self : Device) (file : Nat) (chunks : List Bytes) : Option Device :=
  device.runFrom self (.openFile file :: chunks.map (.write file))

/-- What a string leaves in the device: its first 127 bytes, and a zero behind them. -/
structure Holds (priv : Priv) (text : Bytes) : Prop where
  len : priv.len = min text.length (bufSize - 1)
  bytes : ∀ place < priv.len, priv.buf[place]? = text[place]?
  terminated : priv.buf[priv.len]? = some 0

/-- The chunks leave in the device what one write of all of them leaves. -/
def StoredAsOne (self : Device) (file : Nat) (chunks : List Bytes) : Prop :=
  ∃ split single, written self file chunks = some split ∧
    written self file [chunks.flatten] = some single ∧ split.priv = single.priv ∧
      Holds split.priv chunks.flatten

theorem copy_at_get (buf : Vector (BitVec 8) bufSize) (pos : Nat) (bytes : Bytes) {place : Nat}
    (inside : place < bufSize) :
    (copyAt buf pos bytes)[place] =
      if pos ≤ place then (bytes[place - pos]?).getD buf[place] else buf[place] := by
  rw [copyAt, Vector.getElem_ofFn]
  rfl

/-- The buffer with some bytes at a position and a zero behind as many bytes. -/
def Priv.stored (priv : Priv) (pos : Nat) (copied : Bytes) (fits : copied.length < bufSize) :
    Priv where
  buf := (copyAt priv.buf pos copied).set copied.length 0 fits
  len := copied.length

theorem taken_fits (pos : Nat) (ubuf : Bytes) :
    (ubuf.take (bufSize - 1 - pos)).length < bufSize := by
  have bound := List.length_take_le (bufSize - 1 - pos) ubuf
  have size : bufSize = 128 := rfl
  omega

theorem simple_write_eq (priv : Priv) (pos : Nat) (ubuf : Bytes) :
    simpleWrite priv pos ubuf =
      some (priv.stored pos (ubuf.take (bufSize - 1 - pos)) (taken_fits pos ubuf),
        pos + (ubuf.take (bufSize - 1 - pos)).length,
        ((ubuf.take (bufSize - 1 - pos)).length : Int)) := by
  simp only [simpleWrite, simpleWriteToBuffer, Priv.terminate, Int.natCast_nonneg, if_true,
    Int.toNat_natCast, dif_pos (taken_fits pos ubuf)]
  rfl

theorem stored_get (priv : Priv) (pos : Nat) {copied : Bytes} (fits : copied.length < bufSize)
    {place : Nat} (inside : place < bufSize) :
    (priv.stored pos copied fits).buf[place] =
      if copied.length = place then 0
      else if pos ≤ place then (copied[place - pos]?).getD priv.buf[place]
      else priv.buf[place] := by
  rw [← copy_at_get priv.buf pos copied inside]
  exact Vector.getElem_set fits inside

/-- The device after a write. -/
def Device.wrote (self : Device) (file : Nat) (ubuf : Bytes) : Device where
  priv := self.priv.stored (self.positions file) (ubuf.take (bufSize - 1 - self.positions file))
    (taken_fits _ ubuf)
  positions := Function.update self.positions file
    (self.positions file + (ubuf.take (bufSize - 1 - self.positions file)).length)

theorem write_step (self : Device) (file : Nat) (ubuf : Bytes) :
    self.step (.write file ubuf) = some (self.wrote file ubuf) := by
  rw [Device.step, simple_write_eq]
  rfl

theorem wrote_position {self : Device} {file : Nat} (inside : self.positions file ≤ bufSize - 1)
    (ubuf : Bytes) :
    (self.wrote file ubuf).positions file =
      min (bufSize - 1) (self.positions file + ubuf.length) := by
  have moved : (self.wrote file ubuf).positions file =
      self.positions file + (ubuf.take (bufSize - 1 - self.positions file)).length :=
    Function.update_self ..
  rw [moved, List.length_take]
  omega

theorem wrote_len (self : Device) (file : Nat) (ubuf : Bytes) :
    (self.wrote file ubuf).priv.len = min (bufSize - 1 - self.positions file) ubuf.length :=
  List.length_take

theorem stored_front (priv : Priv) {pos : Nat} (front : pos = 0) (ubuf : Bytes) :
    priv.stored pos (ubuf.take (bufSize - 1 - pos)) (taken_fits pos ubuf) =
      priv.stored 0 (ubuf.take (bufSize - 1)) (taken_fits 0 ubuf) := by
  subst front
  rfl

/-- A write to a file that is at the front. -/
theorem wrote_front {self : Device} {file : Nat} (front : self.positions file = 0)
    (ubuf : Bytes) :
    (self.wrote file ubuf).priv =
      self.priv.stored 0 (ubuf.take (bufSize - 1)) (taken_fits 0 ubuf) :=
  stored_front self.priv front ubuf

/-- The buffers are the same but for the first byte. -/
def SameBehindFirst (left right : Vector (BitVec 8) bufSize) : Prop :=
  ∀ place (inside : place < bufSize), place ≠ 0 → left[place] = right[place]

/-- A write to the front does not depend on the first byte: it is overwritten. -/
theorem stored_congr {left right : Priv} (same : SameBehindFirst left.buf right.buf)
    {copied : Bytes} (fits : copied.length < bufSize) :
    left.stored 0 copied fits = right.stored 0 copied fits := by
  have buffers : (left.stored 0 copied fits).buf = (right.stored 0 copied fits).buf := by
    apply Vector.ext
    intro place inside
    rw [stored_get left 0 fits inside, stored_get right 0 fits inside, if_pos (Nat.zero_le _),
      if_pos (Nat.zero_le _)]
    by_cases last : copied.length = place
    · rw [if_pos last, if_pos last]
    · rw [if_neg last, if_neg last]
      by_cases first : place = 0
      · have covered : place - 0 < copied.length := by omega
        rw [List.getElem?_eq_getElem covered]
        rfl
      · rw [same place inside first]
  exact congrArg (fun buf => Priv.mk buf copied.length) buffers

theorem stored_nothing (priv : Priv) {copied : Bytes} (none_copied : copied = [])
    (fits : copied.length < bufSize) :
    SameBehindFirst (priv.stored 0 copied fits).buf priv.buf := by
  subst none_copied
  intro place inside behind
  have differs : ([] : Bytes).length ≠ place := Ne.symm behind
  rw [stored_get priv 0 fits inside, if_neg differs, if_pos (Nat.zero_le _)]
  rfl

theorem stored_holds (priv : Priv) (text : Bytes)
    (fits : (text.take (bufSize - 1)).length < bufSize) :
    Holds (priv.stored 0 (text.take (bufSize - 1)) fits) text where
  len := List.length_take.trans (Nat.min_comm _ _)
  bytes := by
    intro place inside
    have covered : place < (text.take (bufSize - 1)).length := inside
    have inText : place < text.length := Nat.lt_of_lt_of_le covered (List.length_take_le' _ _)
    have inBuf : place < bufSize := Nat.lt_trans covered fits
    rw [Vector.getElem?_eq_getElem inBuf, stored_get priv 0 fits inBuf,
      if_neg (Nat.ne_of_gt covered), if_pos (Nat.zero_le _), Nat.sub_zero,
      List.getElem?_eq_getElem covered, List.getElem?_eq_getElem inText, List.getElem_take]
    rfl
  terminated := by
    have last := stored_get priv 0 fits fits
    rw [if_pos rfl] at last
    exact (Vector.getElem?_eq_getElem fits).trans (congrArg some last)

theorem writes_position (chunks : List Bytes) {self : Device} {file : Nat}
    (inside : self.positions file ≤ bufSize - 1) :
    ∃ next, device.runFrom self (chunks.map (.write file)) = some next ∧
      next.positions file = min (bufSize - 1) (self.positions file + chunks.flatten.length) := by
  induction chunks generalizing self with
  | nil => exact ⟨self, rfl, (Nat.min_eq_right inside).symm⟩
  | cons chunk rest ih =>
      have position := wrote_position inside chunk
      obtain ⟨next, run, final⟩ :=
        ih (Nat.le_trans (Nat.le_of_eq position) (Nat.min_le_left _ _))
      refine ⟨next, ?_, ?_⟩
      · exact StepSystem.run_from_cons_some.mpr ⟨_, write_step self file chunk, run⟩
      · rw [final, position, List.flatten_cons, List.length_append]
        omega

/-- Writes of nothing at the front. -/
theorem empty_writes {chunks : List Bytes} (empty : ∀ chunk ∈ chunks, chunk = [])
    {self next : Device} {file : Nat} (front : self.positions file = 0)
    (run : device.runFrom self (chunks.map (.write file)) = some next) :
    next.positions file = 0 ∧ SameBehindFirst next.priv.buf self.priv.buf := by
  induction chunks generalizing self with
  | nil =>
      cases run
      exact ⟨front, fun _ _ _ => rfl⟩
  | cons chunk rest ih =>
      obtain ⟨none_written, others⟩ := List.forall_mem_cons.mp empty
      subst none_written
      obtain ⟨middle, taken, later⟩ := StepSystem.run_from_cons_some.mp run
      have wrote : self.wrote file [] = middle :=
        Option.some.inj ((write_step self file []).symm.trans taken)
      subst wrote
      have position : (self.wrote file []).positions file = 0 := by
        rw [wrote_position (by rw [front]; exact Nat.zero_le _), front]
        rfl
      obtain ⟨final, same⟩ := ih others position later
      refine ⟨final, ?_⟩
      have stored : SameBehindFirst (self.wrote file []).priv.buf self.priv.buf := by
        rw [wrote_front front]
        exact stored_nothing self.priv List.take_nil (taken_fits 0 [])
      intro place inside behind
      exact (same place inside behind).trans (stored place inside behind)

def Device.opened (self : Device) (file : Nat) : Device :=
  { self with positions := Function.update self.positions file 0 }

theorem opened_front (self : Device) (file : Nat) : (self.opened file).positions file = 0 :=
  Function.update_self ..

theorem written_one (self : Device) (file : Nat) (text : Bytes) :
    written self file [text] = some ((self.opened file).wrote file text) := by
  apply StepSystem.run_from_cons_some.mpr
  refine ⟨self.opened file, rfl, ?_⟩
  apply StepSystem.run_from_cons_some.mpr
  exact ⟨_, write_step (self.opened file) file text, rfl⟩

/-- The last write of a text begins where the others end. -/
theorem written_last (self : Device) (file : Nat) (before : List Bytes) (last : Bytes) :
    ∃ middle, device.runFrom (self.opened file) (before.map (.write file)) = some middle ∧
      middle.positions file = min (bufSize - 1) before.flatten.length ∧
      written self file (before ++ [last]) = some (middle.wrote file last) := by
  have front := opened_front self file
  obtain ⟨middle, run, position⟩ :=
    writes_position before (Nat.le_trans (Nat.le_of_eq front) (Nat.zero_le _))
  rw [front, Nat.zero_add] at position
  refine ⟨middle, run, position, ?_⟩
  apply StepSystem.run_from_cons_some.mpr
  refine ⟨self.opened file, rfl, ?_⟩
  rw [List.map_append, StepSystem.run_from_append, run]
  exact StepSystem.run_from_cons_some.mpr ⟨_, write_step middle file last, rfl⟩

theorem stored_as_one_iff (self : Device) (file : Nat) (before : List Bytes) (last : Bytes) :
    StoredAsOne self file (before ++ [last]) ↔ ∀ chunk ∈ before, chunk = [] := by
  have front := opened_front self file
  obtain ⟨middle, run, position, split⟩ := written_last self file before last
  have single := written_one self file (before ++ [last]).flatten
  have joined : (before ++ [last]).flatten = before.flatten ++ last := by
    rw [List.flatten_append, List.flatten_singleton]
  constructor
  · intro stored
    obtain ⟨first, second, ranSplit, ranSingle, same, _⟩ := stored
    have sameSplit := Option.some.inj (split.symm.trans ranSplit)
    have sameSingle := Option.some.inj (single.symm.trans ranSingle)
    subst sameSplit sameSingle
    have lengths := congrArg Priv.len same
    rw [wrote_len, wrote_len, front, position, joined, List.length_append] at lengths
    have size : bufSize = 128 := rfl
    have none_before : before.flatten.length = 0 := by omega
    exact List.flatten_eq_nil_iff.mp (List.length_eq_zero_iff.mp none_before)
  · intro empty
    obtain ⟨atFront, same⟩ := empty_writes empty front run
    have text : (before ++ [last]).flatten = last := by
      rw [joined, List.flatten_eq_nil_iff.mpr empty, List.nil_append]
    have alike : (middle.wrote file last).priv = ((self.opened file).wrote file last).priv := by
      rw [wrote_front atFront, wrote_front front]
      exact stored_congr same _
    unfold StoredAsOne
    rw [text] at single ⊢
    refine ⟨_, _, split, single, alike, ?_⟩
    rw [alike, wrote_front front]
    exact stored_holds _ last _

theorem terminate_len {priv next : Priv} (taken : priv.terminate = some next) :
    next.len = priv.len := by
  unfold Priv.terminate at taken
  split at taken
  · cases taken
    rfl
  · cases taken

theorem step_len {self next : Device} {op : Op} (before : self.priv.len ≤ bufSize - 1)
    (taken : self.step op = some next) : next.priv.len ≤ bufSize - 1 := by
  cases op with
  | openFile file =>
      cases taken
      exact before
  | read file count =>
      cases taken
      exact before
  | write file ubuf =>
      have wrote := Option.some.inj ((write_step self file ubuf).symm.trans taken)
      rw [← wrote, wrote_len]
      exact Nat.le_trans (Nat.min_le_left _ _) (Nat.sub_le _ _)
  | store buf =>
      obtain ⟨priv, stored, same⟩ := Option.bind_eq_some_iff.mp taken
      have len := terminate_len stored
      have kept := congrArg Device.priv (Option.some.inj same)
      rw [← kept, len]
      exact Nat.min_le_right _ _

theorem reachable_len {self : Device} (reached : device.Reachable self) :
    self.priv.len ≤ bufSize - 1 := by
  apply reached.invariant (fun self => self.priv.len ≤ bufSize - 1) (Nat.zero_le _)
  intro state op next before taken
  exact step_len before taken

/-- In every reachable state the length is in the buffer, and a text written in pieces is
stored as one exactly if all pieces but the last are empty. -/
theorem split_write_iff (self : Device) (reached : device.Reachable self) (file : Nat)
    (before : List Bytes) (last : Bytes) :
    self.priv.len ≤ bufSize - 1 ∧
      (StoredAsOne self file (before ++ [last]) ↔ ∀ chunk ∈ before, chunk = []) :=
  ⟨reachable_len reached, stored_as_one_iff self file before last⟩

/-- Over a text of two bytes an empty write and one of a byte store the byte; two bytes in two
writes are not stored as one. -/
theorem split_write_over_text :
    ∃ self, device.Reachable self ∧ self.priv.len = 2 ∧ StoredAsOne self 0 ([[]] ++ [[0x43]]) ∧
      ¬StoredAsOne self 0 ([[0x43]] ++ [[0x44]]) := by
  obtain ⟨self, reached, passes⟩ := StepSystem.reachable_of_run device
    [.openFile 0, .write 0 [0x41, 0x42]] (fun self => decide (self.priv.len = 2))
    (by decide +kernel)
  have stored := (split_write_iff self reached 0 [[]] [0x43]).2.mpr (by decide)
  have pieces := (split_write_iff self reached 0 [[0x43]] [0x44]).2.not.mpr (by decide)
  exact ⟨self, reached, of_decide_eq_true passes, stored, pieces⟩

/-- Two writes of one byte leave the length 1, and a zero on the second byte's place. -/
theorem second_write_overwrites_length :
    ¬∀ (self : Device) (file : Nat) (before : List Bytes) (last : Bytes),
      device.Reachable self → StoredAsOne self file (before ++ [last]) := by
  intro always
  have stored := always device.start 0 [[0x41]] [0x42] ⟨[], rfl⟩
  have empty := (stored_as_one_iff device.start 0 [[0x41]] [0x42]).mp stored [0x41]
    List.mem_cons_self
  cases empty

end Testings.SimpleCdev
