import Testings.HistoryLog
import Testings.MpegTsFields
import Testings.MpegTsReport

/-!
# Differences of timestamps

The true times of frames and clock samples are integers without bound; their
fields in the stream wrap, every 2^33 ticks of 90 kHz for a PTS and 300 times
that in ticks of 27 MHz for a PCR. `finish_pes` and `parse_pcr` subtract the
fields as they are.
-/

set_option autoImplicit false

namespace Testings.MpegTs

open Python
open HistoryLog

/-- What a printed difference is about. -/
inductive Series where
  | video
  | audio
  | pcr
  deriving DecidableEq

/-- The field starts again after so many ticks. -/
def Series.period : Series → Int
  | .video | .audio => 2 ^ 33
  | .pcr => 2 ^ 33 * 300

/-- A frame that is finished, or a PCR that is received, with its true time. -/
inductive Sample where
  | frame (video : Bool) (time : Int) (pid size streamId offset : Nat)
  | pcr (time : Int) (pid : Nat) (reserved : BitVec 6)

namespace Sample

def series : Sample → Series
  | .frame true .. => .video
  | .frame false .. => .audio
  | .pcr .. => .pcr

def time : Sample → Int
  | .frame _ time .. => time
  | .pcr time .. => time

/-- What the stream carries of the time. -/
def field (sample : Sample) : Nat := (sample.time % sample.series.period).toNat

end Sample

def mediaType (video : Bool) : MediaType := if video then .video else .audio

/-- The six bytes of a PCR: 33 bits of base, 6 reserved bits, 9 bits of extension. -/
def pcrBytes (pcr : Nat) (reserved : BitVec 6) : Bytes :=
  let base := pcr / 300
  let extension := pcr % 300
  [BitVec.ofNat 8 (base / 2 ^ 25), BitVec.ofNat 8 (base / 2 ^ 17), BitVec.ofNat 8 (base / 2 ^ 9),
    BitVec.ofNat 8 (base / 2),
    BitVec.ofNat 8 (base % 2 * 2 ^ 7 + reserved.toNat * 2 + extension / 2 ^ 8),
    BitVec.ofNat 8 extension]

/-- What the analyzer does when the frame ends or the PCR comes. -/
def TsAnalyzer.sample (self : TsAnalyzer) (sample : Sample) : Py TsAnalyzer :=
  match sample with
  | .frame video _ pid size streamId offset =>
      let pes := {
        type := mediaType video
        size := size
        pts := some sample.field
        streamId := streamId
        offset := offset }
      pure ({ self with pes := self.pes.assign pid pes }.finishPes pid)
  | .pcr _ pid reserved => self.parsePcr pid (pcrBytes sample.field reserved)

/-- The difference a line shows: of one type for a frame. -/
def lineDelta : Line → Option (Series × Option Int)
  | .frame .video _ _ deltaType _ => some (.video, deltaType)
  | .frame .audio _ _ deltaType _ => some (.audio, deltaType)
  | .pcr _ _ delta => some (.pcr, delta)
  | _ => none

def TsAnalyzer.deltas (self : TsAnalyzer) : List (Series × Option Int) :=
  self.printed.filterMap lineDelta

def Sample.inSeries (series : Series) (sample : Sample) : Bool := decide (sample.series = series)

/-- The difference to the last sample of the series, in the fields. -/
def fieldDelta (before : List Sample) (sample : Sample) : Series × Option Int :=
  (sample.series, (latest (Sample.inSeries sample.series) before).map fun previous =>
    (sample.field : Int) - previous.field)

/-- The difference to the last sample of the series, in the true times. -/
def trueDelta (before : List Sample) (sample : Sample) : Series × Option Int :=
  (sample.series, (latest (Sample.inSeries sample.series) before).map fun previous =>
    sample.time - previous.time)

theorem parse_pcr_bytes (self : TsAnalyzer) (pid : Nat) {pcr : Nat} (bound : pcr < 2 ^ 33 * 300)
    (reserved : BitVec 6) :
    self.parsePcr pid (pcrBytes pcr reserved) = .ok (self.clocked pid pcr) := by
  have parts : pcrBytes pcr reserved = pcrFieldBytes (pcr / 300) (pcr % 300) reserved := rfl
  have value : pcr / 300 * 300 + pcr % 300 = pcr := by omega
  rw [parts, parse_pcr_field self pid (by omega) (by omega) reserved, value]

/-- What `finish_pes` adds to the PTS of a frame before it compares. -/
def ptsCorrection (video : Bool) : Nat := if video then 0 else 20 * 90

def frameSeries (video : Bool) : Series := if video then .video else .audio

theorem Sample.field_bounds (sample : Sample) :
    (sample.field : Int) = sample.time % sample.series.period ∧
      (sample.field : Int) < sample.series.period := by
  have positive : 0 < sample.series.period := by
    cases sample.series <;> decide
  have lower := Int.emod_nonneg sample.time (Int.ne_of_gt positive)
  have same : (sample.field : Int) = sample.time % sample.series.period :=
    Int.toNat_of_nonneg lower
  exact ⟨same, same ▸ Int.emod_lt_of_pos _ positive⟩

@[simp] theorem frame_series (video : Bool) (time : Int) (pid size streamId offset : Nat) :
    (Sample.frame video time pid size streamId offset).series = frameSeries video := by
  cases video <;> rfl

namespace TsAnalyzer

structure RemembersTimes (before : List Sample) (state : TsAnalyzer) : Prop where
  byType : ∀ video, state.previousPtsByType.get? (mediaType video) =
    (latest (Sample.inSeries (frameSeries video)) before).map fun previous =>
      previous.field + ptsCorrection video
  clock : state.previousPcr =
    (latest (Sample.inSeries .pcr) before).map fun previous => previous.field
  deltas : state.deltas = emitted (fun before item => [fieldDelta before item]) [] before

theorem header_lines_deltas (self : TsAnalyzer) : self.headerLines.filterMap lineDelta = [] := by
  unfold headerLines
  split_ifs <;> rfl

/-- The record of a frame that is about to end. -/
def framePes (video : Bool) (pts size streamId offset : Nat) : Pes where
  type := mediaType video
  size := size
  pts := some pts
  streamId := streamId
  offset := offset

theorem frame_pes_open (state : TsAnalyzer) (pid : Nat) (video : Bool)
    (pts size streamId offset : Nat) :
    ({ state with pes := state.pes.assign pid (framePes video pts size streamId offset) } :
        TsAnalyzer).openFrame pid =
      some (framePes video pts size streamId offset, pts + ptsCorrection video) := by
  unfold openFrame
  dsimp only
  rw [Dict.get_assign, if_pos rfl]
  cases video <;> rfl

/-- The correction is the same for all frames of a type, so it drops out. -/
theorem frame_line_delta {before : List Sample} {state : TsAnalyzer}
    (remembers : RemembersTimes before state) (video : Bool) (time : Int)
    (pid size streamId offset : Nat) {line : TsAnalyzer}
    (same : line.previousPtsByType = state.previousPtsByType) :
    lineDelta (line.frameLine
        (framePes video (Sample.frame video time pid size streamId offset).field size streamId
          offset)
        ((Sample.frame video time pid size streamId offset).field + ptsCorrection video)) =
      some (fieldDelta before (.frame video time pid size streamId offset)) := by
  generalize item_eq : Sample.frame video time pid size streamId offset = item
  have series : item.series = frameSeries video := by
    rw [← item_eq]
    exact frame_series ..
  have shown : (line.previousPtsByType.get? (mediaType video)).map
      (fun previous : Nat => ((item.field + ptsCorrection video : Nat) : Int) - previous) =
      (latest (Sample.inSeries item.series) before).map fun previous =>
        (item.field : Int) - previous.field := by
    rw [same, remembers.byType video, series, Option.map_map]
    congr 1
    funext previous
    simp only [Function.comp_apply]
    omega
  unfold frameLine fieldDelta
  rw [series] at shown ⊢
  cases video with
  | true => exact congrArg some (congrArg (Prod.mk Series.video) shown)
  | false => exact congrArg some (congrArg (Prod.mk Series.audio) shown)

/-- A frame that ends shows the difference to the last one of its type. -/
theorem frame_remembers {before : List Sample} {state : TsAnalyzer}
    (remembers : RemembersTimes before state) (video : Bool) (time : Int)
    (pid size streamId offset : Nat) :
    Returns (state.sample (.frame video time pid size streamId offset))
      (RemembersTimes (before ++ [.frame video time pid size streamId offset])) := by
  let item : Sample := .frame video time pid size streamId offset
  let pes : Pes := framePes video item.field size streamId offset
  have opened : ({ state with pes := state.pes.assign pid pes } : TsAnalyzer).openFrame pid =
      some (pes, item.field + ptsCorrection video) :=
    frame_pes_open state pid video item.field size streamId offset
  have byType := remembers.byType
  refine .pure ?_
  change RemembersTimes _ (({ state with pes := state.pes.assign pid pes } :
    TsAnalyzer).finishPes pid)
  rw [finish_pes_shown opened, report_frame_eq]
  refine ⟨?_, ?_, ?_⟩
  · intro other
    dsimp only [cleared, pes, framePes]
    rw [Dict.get_assign, latest_concat]
    by_cases same : video = other
    · subst same
      rw [if_pos rfl, if_pos (by simp [Sample.inSeries])]
      rfl
    · have differs : ¬mediaType video = mediaType other := by
        cases video <;> cases other <;> simp_all [mediaType]
      have elsewhere : ¬frameSeries video = frameSeries other := by
        cases video <;> cases other <;> simp_all [frameSeries]
      rw [if_neg differs, if_neg (by simp [Sample.inSeries, elsewhere])]
      exact byType other
  · dsimp only [cleared]
    have notClock : ¬frameSeries video = .pcr := by cases video <;> decide
    rw [latest_concat, if_neg (by simp [Sample.inSeries, notClock])]
    exact remembers.clock
  · have line : lineDelta (frameLine (cleared { state with pes := state.pes.assign pid pes } pid)
        pes (item.field + ptsCorrection video)) = some (fieldDelta before item) :=
      frame_line_delta remembers video time pid size streamId offset rfl
    rw [emitted_concat, ← remembers.deltas]
    unfold deltas
    rw [List.filterMap_append, List.filterMap_append, header_lines_deltas,
      List.filterMap_cons_some line]
    rfl

theorem clock_remembers {before : List Sample} {state : TsAnalyzer}
    (remembers : RemembersTimes before state) (time : Int) (pid : Nat) (reserved : BitVec 6) :
    Returns (state.sample (.pcr time pid reserved))
      (RemembersTimes (before ++ [.pcr time pid reserved])) := by
  have bound : (Sample.pcr time pid reserved).field < 2 ^ 33 * 300 := by
    have bounds := (Sample.field_bounds (.pcr time pid reserved)).2
    change _ < (2 ^ 33 * 300 : Int) at bounds
    omega
  have read := parse_pcr_bytes state pid bound reserved
  refine ⟨_, read, ?_, ?_, ?_⟩
  · intro video
    have other : ¬Series.pcr = frameSeries video := by cases video <;> decide
    rw [latest_concat, if_neg (by simp [Sample.inSeries, Sample.series, other])]
    exact remembers.byType video
  · rw [latest_concat, if_pos (by simp [Sample.inSeries, Sample.series])]
    rfl
  · have log := remembers.deltas
    have difference : fieldDelta before (.pcr time pid reserved) =
        (.pcr, (latest (Sample.inSeries .pcr) before).map fun previous =>
          ((Sample.pcr time pid reserved).field : Int) - previous.field) :=
      rfl
    rw [emitted_concat, ← log, difference]
    change (state.printed ++ [_]).filterMap lineDelta = _
    rw [List.filterMap_append, remembers.clock]
    cases latest (Sample.inSeries .pcr) before with
    | none => rfl
    | some previous => rfl

theorem sample_remembers (before : List Sample) (state : TsAnalyzer) (item : Sample)
    (remembers : RemembersTimes before state) :
    Returns (state.sample item) (RemembersTimes (before ++ [item])) := by
  cases item with
  | frame video time pid size streamId offset =>
      exact frame_remembers remembers video time pid size streamId offset
  | pcr time pid reserved => exact clock_remembers remembers time pid reserved

end TsAnalyzer

/-- Differences of wrapped values are true exactly when nothing wraps in between. -/
theorem wrapped_difference_iff {modulus : Int} (positive : 0 < modulus) (earlier later : Int) :
    later % modulus - earlier % modulus = later - earlier ↔
      later / modulus = earlier / modulus := by
  rw [Int.emod_def, Int.emod_def]
  constructor
  · intro same
    have scaled : modulus * (later / modulus) = modulus * (earlier / modulus) := by omega
    exact Int.eq_of_mul_eq_mul_left (Int.ne_of_gt positive) scaled
  · intro same
    rw [same]
    omega

/-- No wrap between a sample and the last one of its series. -/
def NoWrap (samples : List Sample) : Prop :=
  ∀ before sample after, samples = before ++ sample :: after →
    ∀ previous, latest (Sample.inSeries sample.series) before = some previous →
      sample.time / sample.series.period = previous.time / sample.series.period

/-- Every difference that is shown is the true one. -/
def DeltasTrue (samples : List Sample) (frameLimit : Nat) : Prop :=
  Returns (samples.foldlM TsAnalyzer.sample (TsAnalyzer.init frameLimit)) fun final =>
    final.deltas = emitted (fun before sample => [trueDelta before sample]) [] samples

theorem field_delta_true_iff (before : List Sample) (sample : Sample) :
    fieldDelta before sample = trueDelta before sample ↔
      ∀ previous, latest (Sample.inSeries sample.series) before = some previous →
        sample.time / sample.series.period = previous.time / sample.series.period := by
  unfold fieldDelta trueDelta
  cases seen : latest (Sample.inSeries sample.series) before with
  | none => simp
  | some previous =>
      have same : previous.series = sample.series := by
        simpa [Sample.inSeries] using latest_selected seen
      have positive : 0 < sample.series.period := by
        cases sample.series <;> decide
      have difference := wrapped_difference_iff positive previous.time sample.time
      rw [← same, ← previous.field_bounds.1, same, ← sample.field_bounds.1] at difference
      simp only [Option.map_some, Prod.mk.injEq, Option.some_inj, true_and, forall_eq']
      exact difference

theorem deltas_true_iff (samples : List Sample) (frameLimit : Nat) :
    DeltasTrue samples frameLimit ↔ NoWrap samples := by
  have fresh : TsAnalyzer.RemembersTimes [] (TsAnalyzer.init frameLimit) :=
    ⟨fun _ => rfl, rfl, rfl⟩
  obtain ⟨final, returned, remembers⟩ :=
    Returns.foldlM TsAnalyzer.RemembersTimes TsAnalyzer.sample_remembers samples fresh
  have shown := remembers.deltas
  rw [List.nil_append] at shown
  have pointwise : DeltasTrue samples frameLimit ↔
      emitted (fun before item => [fieldDelta before item]) [] samples =
        emitted (fun before item => [trueDelta before item]) [] samples := by
    rw [← shown]
    constructor
    · rintro ⟨_, same, differences⟩
      cases returned.symm.trans same
      exact differences
    · exact fun differences => ⟨final, returned, differences⟩
  rw [pointwise, emitted_same_iff]
  constructor
  · intro same before sample after split
    exact (field_delta_true_iff before sample).mp (same before sample after split)
  · intro noWrap before sample after split
    exact (field_delta_true_iff before sample).mpr (noWrap before sample after split)

/-- Samples of one series lie less than half a period apart. -/
def StepsSmall (samples : List Sample) : Prop :=
  ∀ before sample after, samples = before ++ sample :: after →
    ∀ previous, latest (Sample.inSeries sample.series) before = some previous →
      ((sample.time - previous.time).natAbs : Int) < sample.series.period / 2

/-- Two video frames on both sides of the wrap. -/
def acrossWrap : List Sample :=
  [.frame true (2 ^ 33 - 1) 0x100 0 0 0, .frame true (2 ^ 33) 0x100 0 0 0]

theorem across_wrap_small : StepsSmall acrossWrap := by
  intro before sample after split previous seen
  match before, split with
  | [], _ => cases seen
  | [first], split =>
      cases split
      cases seen
      decide
  | _ :: _ :: rest, split =>
      have length := congrArg List.length split
      simp [acrossWrap] at length

theorem difference_across_wrap :
    ¬∀ (samples : List Sample) (frameLimit : Nat), StepsSmall samples →
      DeltasTrue samples frameLimit := by
  intro always
  obtain ⟨final, returned, differences⟩ := always acrossWrap 0 across_wrap_small
  have shown : (acrossWrap.foldlM TsAnalyzer.sample (TsAnalyzer.init 0)).map TsAnalyzer.deltas =
      .ok [(.video, none), (.video, some (-(2 ^ 33 - 1)))] := by
    decide +kernel
  rw [returned] at shown
  change Except.ok final.deltas = _ at shown
  rw [differences] at shown
  exact absurd shown (by decide +kernel)

end Testings.MpegTs
