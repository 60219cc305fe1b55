import Testings.MpegTsAnalyzer

/-!
# What `finish_pes` reports

The record that is taken out, the corrected PTS of a frame that is shown, and the
lines and fields that change with it.
-/

set_option autoImplicit false

namespace Testings.MpegTs

open Python

/-- The corrected PTS of a record that is shown: an audio or video frame with a PTS. -/
def Pes.shown (pes : Pes) : Option Nat :=
  match pes.type with
  | .unknown => none
  | .audio => pes.pts.map (· + 20 * 90)
  | .video => pes.pts

/-- Type and size of the frame, if it will be shown. -/
def Pes.frame (pes : Pes) : Option (MediaType × Nat) := pes.shown.map fun _ => (pes.type, pes.size)

def Line.isFrame : Line → Bool
  | .frame .. => true
  | _ => false

def Line.typeSize : Line → Option (MediaType × Nat)
  | .frame type size .. => some (type, size)
  | _ => none

namespace TsAnalyzer

/-- The header is printed with the first frame. -/
def headerLines (self : TsAnalyzer) : List Line := if self.headerPrinted then [] else [.header]

def frameLine (self : TsAnalyzer) (pes : Pes) (pts : Nat) : Line :=
  .frame pes.type pes.size (pts * 300 - self.ptsOrigin.getD (pts * 300) : Int)
    ((self.previousPtsByType.get? pes.type).map fun previous : Nat => (pts : Int) - previous)
    (self.previousPts.map fun previous : Nat => (pts : Int) - previous)

theorem report_frame_eq (self : TsAnalyzer) (pes : Pes) (pts : Nat) :
    self.reportFrame pes pts = { self with
      ptsOrigin := some (self.ptsOrigin.getD (pts * 300))
      previousPts := some pts
      previousPtsByType := self.previousPtsByType.assign pes.type pts
      frameCount := self.frameCount + 1
      headerPrinted := true
      printed := self.printed ++ (self.headerLines ++ [self.frameLine pes pts]) } := by
  have lifted (previous : Option Nat) :
      ((do let value ← previous; pure (value : Int)).map fun value => (pts : Int) - value) =
        previous.map fun value : Nat => (pts : Int) - value := by
    cases previous <;> rfl
  unfold reportFrame headerLines frameLine print
  simp only [lifted]
  cases shown : self.headerPrinted with
  | true => simp
  | false => simp

/-- What is left when the record of `pid` has been taken out. -/
def cleared (self : TsAnalyzer) (pid : Nat) : TsAnalyzer := { self with pes := self.pes.pop pid }

/-- The frame that is open on `pid`, with its corrected PTS, if it will be shown. -/
def openFrame (self : TsAnalyzer) (pid : Nat) : Option (Pes × Nat) :=
  (self.pes.get? pid).bind fun pes => pes.shown.map fun pts => (pes, pts)

theorem finish_pes_eq (self : TsAnalyzer) (pid : Nat) :
    self.finishPes pid =
      match self.openFrame pid with
      | none => self.cleared pid
      | some (pes, pts) => (self.cleared pid).reportFrame pes pts := by
  unfold finishPes openFrame Pes.shown
  cases self.pes.get? pid with
  | none => rfl
  | some pes =>
      cases given : pes.pts with
      | none => cases kind : pes.type <;> simp [given, kind, cleared]
      | some pts => cases kind : pes.type <;> simp [given, kind, cleared]

theorem finish_pes_shown {self : TsAnalyzer} {pid : Nat} {pes : Pes} {pts : Nat}
    (opened : self.openFrame pid = some (pes, pts)) :
    self.finishPes pid = (self.cleared pid).reportFrame pes pts := by
  rw [finish_pes_eq, opened]

theorem finish_pes_hidden {self : TsAnalyzer} {pid : Nat} (hidden : self.openFrame pid = none) :
    self.finishPes pid = self.cleared pid := by
  rw [finish_pes_eq, hidden]

theorem finish_pes_pes (self : TsAnalyzer) (pid : Nat) :
    (self.finishPes pid).pes = self.pes.pop pid := by
  cases opened : self.openFrame pid with
  | none => rw [finish_pes_hidden opened, cleared]
  | some frame => rw [finish_pes_shown opened, report_frame_eq, cleared]

theorem finish_pes_pmt_pid (self : TsAnalyzer) (pid : Nat) :
    (self.finishPes pid).pmtPid = self.pmtPid := by
  cases opened : self.openFrame pid with
  | none => rw [finish_pes_hidden opened, cleared]
  | some frame => rw [finish_pes_shown opened, report_frame_eq, cleared]

theorem finish_pes_streams (self : TsAnalyzer) (pid : Nat) :
    (self.finishPes pid).streams = self.streams := by
  cases opened : self.openFrame pid with
  | none => rw [finish_pes_hidden opened, cleared]
  | some frame => rw [finish_pes_shown opened, report_frame_eq, cleared]

/-- The frame lines printed so far. -/
def frames (self : TsAnalyzer) : List Line := self.printed.filter Line.isFrame

/-- Exactly these frame lines are printed in between, and counted. -/
structure Reports (before after : TsAnalyzer) (lines : List Line) : Prop where
  frames : after.frames = before.frames ++ lines
  frameCount : after.frameCount = before.frameCount + lines.length

theorem Reports.trans {first second third : TsAnalyzer} {lines later : List Line}
    (before : Reports first second lines) (after : Reports second third later) :
    Reports first third (lines ++ later) where
  frames := by rw [after.frames, before.frames, List.append_assoc]
  frameCount := by rw [after.frameCount, before.frameCount, List.length_append, Nat.add_assoc]

/-- Type and size so far of the frame that is open on `pid`, if it will be shown. -/
def openSize (self : TsAnalyzer) (pid : Nat) : Option (MediaType × Nat) :=
  (self.pes.get? pid).bind Pes.frame

theorem open_frame_sized (self : TsAnalyzer) (pid : Nat) :
    self.openSize pid =
      (self.openFrame pid).map fun frame => (frame.1.type, frame.1.size) := by
  unfold openSize openFrame
  cases self.pes.get? pid with
  | none => rfl
  | some pes => simp [Pes.frame, Function.comp_def]

theorem finish_pes_reports (self : TsAnalyzer) (pid : Nat) :
    ∃ lines, Reports self (self.finishPes pid) lines ∧
      lines.map Line.typeSize = (self.openSize pid).toList.map some := by
  cases opened : self.openFrame pid with
  | none =>
      refine ⟨[], ?_, ?_⟩
      · rw [finish_pes_hidden opened]
        exact ⟨(List.append_nil _).symm, rfl⟩
      · rw [open_frame_sized, opened]
        rfl
  | some frame =>
      have header : (self.cleared pid).headerLines.filter Line.isFrame = [] := by
        unfold headerLines
        split_ifs <;> rfl
      refine ⟨[(self.cleared pid).frameLine frame.1 frame.2], ⟨?_, ?_⟩, ?_⟩
      · rw [finish_pes_shown opened, report_frame_eq, frames, List.filter_append,
          List.filter_append, header]
        rfl
      · rw [finish_pes_shown opened, report_frame_eq]
        rfl
      · rw [open_frame_sized, opened]
        rfl

theorem finish_pes_open_size (self : TsAnalyzer) (pid other : Nat) :
    (self.finishPes pid).openSize other = if pid = other then none else self.openSize other := by
  rw [openSize, finish_pes_pes, Dict.get_pop]
  split_ifs <;> rfl

theorem finish_pes_fold_pes (self : TsAnalyzer) (pids : List Nat) :
    (pids.foldl finishPes self).pes = pids.foldl Dict.pop self.pes := by
  induction pids generalizing self with
  | nil => rfl
  | cons pid rest ih => rw [List.foldl_cons, ih, finish_pes_pes, List.foldl_cons]

theorem finish_pes_empty (self : TsAnalyzer) (pid : Nat) : self.finish.openSize pid = none := by
  rw [openSize, finish, finish_pes_fold_pes, Dict.get_pop_keys]
  rfl

/-- What tables and clocks leave alone. -/
structure SameRecords (before after : TsAnalyzer) : Prop where
  pes : after.pes = before.pes
  silent : Reports before after []

theorem SameRecords.open_size {before after : TsAnalyzer} (same : SameRecords before after)
    (pid : Nat) : after.openSize pid = before.openSize pid := by
  rw [openSize, same.pes]
  rfl

theorem same_records_refl (self : TsAnalyzer) : SameRecords self self :=
  ⟨rfl, (List.append_nil _).symm, rfl⟩

theorem SameRecords.trans {first second third : TsAnalyzer} (before : SameRecords first second)
    (after : SameRecords second third) : SameRecords first third :=
  ⟨after.pes.trans before.pes, before.silent.trans after.silent⟩

/-- One line that is not a frame line. -/
theorem same_records_line {before after : TsAnalyzer} {line : Line}
    (pes : after.pes = before.pes) (frameCount : after.frameCount = before.frameCount)
    (printed : after.printed = before.printed ++ [line]) (other : line.isFrame = false) :
    SameRecords before after where
  pes := pes
  silent := ⟨by simp [frames, printed, other], frameCount⟩

/-- What a PCR leaves alone. -/
structure Clocked (before after : TsAnalyzer) : Prop where
  records : SameRecords before after
  pmtPid : after.pmtPid = before.pmtPid
  streams : after.streams = before.streams

theorem clocked_refl (self : TsAnalyzer) : Clocked self self :=
  ⟨same_records_refl self, rfl, rfl⟩

end TsAnalyzer

end Testings.MpegTs
