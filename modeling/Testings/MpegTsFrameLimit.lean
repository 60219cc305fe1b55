import Testings.MpegTsTables
import Testings.MpegTsUnits

/-!
# The frame limit

With `-n N` the packet loop ends as soon as N frames have ended, and `finish` then
prints whatever is still open. The limit holds exactly when no frame beyond the
N-th begins before N frames have ended.
-/

set_option autoImplicit false

namespace Testings.MpegTs

open Python

namespace TsAnalyzer

def withLimit (frameLimit : Nat) (self : TsAnalyzer) : TsAnalyzer :=
  { self with frameLimit := frameLimit }

section mirrors

variable (frameLimit : Nat) (self : TsAnalyzer)

theorem pat_programs_mirrors (payload : Bytes) (last pos : Nat) :
    Mirrors (withLimit frameLimit) ((self.withLimit frameLimit).patPrograms payload last pos)
      (self.patPrograms payload last pos) := by
  fun_induction patPrograms self payload last pos with
  | case1 pos ahead ih =>
      rw [patPrograms, if_pos ahead]
      apply Mirrors.read
      intro program
      apply Mirrors.read
      intro pid
      exact .ite (.pure rfl) ih
  | case2 pos done =>
      rw [patPrograms, if_neg done]
      exact .pure rfl

theorem parse_pat_mirrors (payload : Bytes) (pusi : Bool) :
    Mirrors (withLimit frameLimit) ((self.withLimit frameLimit).parsePat payload pusi)
      (self.parsePat payload pusi) := by
  apply Mirrors.ite (.pure rfl)
  apply Mirrors.read
  intro pointer
  apply Mirrors.ite (.pure rfl)
  apply Mirrors.read
  intro tableId
  apply Mirrors.ite (.pure rfl)
  apply Mirrors.read
  intro sectionLength
  exact pat_programs_mirrors frameLimit self payload _ _

theorem pmt_streams_mirrors (payload : Bytes) (last pos : Nat) :
    Mirrors (withLimit frameLimit) ((self.withLimit frameLimit).pmtStreams payload last pos)
      (self.pmtStreams payload last pos) := by
  fun_induction pmtStreams self payload last pos with
  | case1 self pos ahead ih =>
      rw [pmtStreams, if_pos ahead]
      apply Mirrors.read
      intro streamType
      apply Mirrors.read
      intro pid
      apply Mirrors.read
      intro esInfoLength
      exact ih streamType pid esInfoLength
  | case2 self pos done =>
      rw [pmtStreams, if_neg done]
      exact .pure rfl

theorem parse_pmt_mirrors (payload : Bytes) (pusi : Bool) :
    Mirrors (withLimit frameLimit) ((self.withLimit frameLimit).parsePmt payload pusi)
      (self.parsePmt payload pusi) := by
  apply Mirrors.ite (.pure rfl)
  apply Mirrors.read
  intro pointer
  apply Mirrors.ite (.pure rfl)
  apply Mirrors.read
  intro tableId
  apply Mirrors.ite (.pure rfl)
  apply Mirrors.read
  intro sectionLength
  apply Mirrors.read
  intro pcrPid
  apply Mirrors.read
  intro programInfoLength
  exact pmt_streams_mirrors frameLimit
    ({ self with pcrPid := some pcrPid }.print (.pcrPid pcrPid)) payload _ _

theorem finish_pes_limit (pid : Nat) :
    (self.withLimit frameLimit).finishPes pid = (self.finishPes pid).withLimit frameLimit := by
  cases opened : self.openFrame pid with
  | none =>
      have same : (self.withLimit frameLimit).openFrame pid = none := opened
      rw [finish_pes_hidden opened, finish_pes_hidden same]
      rfl
  | some frame =>
      have same : (self.withLimit frameLimit).openFrame pid = some (frame.1, frame.2) := opened
      rw [finish_pes_shown opened, finish_pes_shown same, report_frame_eq, report_frame_eq]
      rfl

theorem start_pes_mirrors (pid : Nat) (payload : Bytes) (streamId headerLength : Nat)
    (pts : Option Nat) (offset : Nat) :
    Mirrors (withLimit frameLimit)
      ((self.withLimit frameLimit).startPes pid payload streamId headerLength pts offset)
      (self.startPes pid payload streamId headerLength pts offset) := by
  apply Mirrors.ite (.pure rfl)
  apply Mirrors.read
  intro stream
  exact .pure rfl

theorem opening_limit (pid : Nat) (opened : Option Pes) :
    (self.withLimit frameLimit).opening pid opened =
      (self.opening pid opened).withLimit frameLimit := by
  cases opened <;> rfl

theorem parse_pes_mirrors (pid : Nat) (payload : Bytes) (pusi : Bool) (offset : Nat) :
    Mirrors (withLimit frameLimit)
      ((self.withLimit frameLimit).parsePes pid payload pusi offset)
      (self.parsePes pid payload pusi offset) := by
  cases pusi with
  | false =>
      rw [parse_pes_extends, parse_pes_extends]
      exact .pure (opening_limit frameLimit self pid _)
  | true =>
      unfold parsePes
      rw [if_pos rfl, if_pos rfl, finish_pes_limit]
      apply Mirrors.ite (.pure rfl)
      apply Mirrors.ite (.pure rfl)
      apply Mirrors.read
      intro streamId
      apply Mirrors.read
      intro flags
      apply Mirrors.read
      intro headerLength
      apply Mirrors.ite
      · apply Mirrors.ite (.pure rfl)
        apply Mirrors.read
        intro pts
        exact start_pes_mirrors frameLimit _ pid payload _ _ _ _
      · exact start_pes_mirrors frameLimit _ pid payload _ _ _ _

theorem parse_pcr_mirrors (pid : Nat) (data : Bytes) :
    Mirrors (withLimit frameLimit) ((self.withLimit frameLimit).parsePcr pid data)
      (self.parsePcr pid data) := by
  apply Mirrors.ite (.pure rfl)
  apply Mirrors.read
  intro d0
  apply Mirrors.read
  intro d1
  apply Mirrors.read
  intro d2
  apply Mirrors.read
  intro d3
  apply Mirrors.read
  intro d4
  apply Mirrors.read
  intro d5
  exact .pure rfl

theorem adaptation_field_mirrors (packet : Bytes) (pid adaptation : Nat) :
    Mirrors (Prod.map (withLimit frameLimit) id)
      ((self.withLimit frameLimit).adaptationField packet pid adaptation)
      (self.adaptationField packet pid adaptation) := by
  apply Mirrors.ite
  · apply Mirrors.read
    intro length
    apply Mirrors.ite
    · apply Mirrors.read
      intro flags
      apply Mirrors.ite
      · apply Mirrors.bind (parse_pcr_mirrors frameLimit self pid _)
        intro next
        exact .pure rfl
      · exact .pure rfl
    · exact .pure rfl
  · exact .pure rfl

theorem dispatch_mirrors (pid : Nat) (payload : Bytes) (pusi : Bool) (offset : Nat) :
    Mirrors (withLimit frameLimit)
      ((self.withLimit frameLimit).dispatch pid payload pusi offset)
      (self.dispatch pid payload pusi offset) := by
  apply Mirrors.ite (parse_pat_mirrors frameLimit self payload pusi)
  apply Mirrors.ite (parse_pmt_mirrors frameLimit self payload pusi)
  exact .ite (parse_pes_mirrors frameLimit self pid payload pusi offset) (.pure rfl)

theorem packet_mirrors (bytes : Bytes) (offset : Nat) :
    Mirrors (withLimit frameLimit) ((self.withLimit frameLimit).packet bytes offset)
      (self.packet bytes offset) := by
  apply Mirrors.read
  intro first
  apply Mirrors.ite (.pure rfl)
  apply Mirrors.read
  intro fields
  apply Mirrors.ite (.pure rfl)
  apply Mirrors.bind (adaptation_field_mirrors frameLimit self bytes _ _)
  intro parsed
  exact .ite (.pure rfl) (dispatch_mirrors frameLimit _ _ _ _ _)

theorem finish_limit :
    (self.withLimit frameLimit).finish = (self.finish).withLimit frameLimit := by
  unfold finish
  change (self.pes.keys).foldl finishPes (self.withLimit frameLimit) = _
  induction self.pes.keys generalizing self with
  | nil => rfl
  | cons pid rest ih => rw [List.foldl_cons, List.foldl_cons, finish_pes_limit, ih]

end mirrors

/-- The open records that will be shown. -/
def openFrames (self : TsAnalyzer) : Nat := self.pes.count fun pes => pes.frame.isSome

/-- The frames that have begun: those that have ended, and the open ones. -/
def begun (self : TsAnalyzer) : Nat := self.frameCount + self.openFrames

/-- The frame that begins with the packet. -/
def starting (self : TsAnalyzer) (packet : TsPacket) : Option (MediaType × Nat) :=
  if packet.pid = 0 ∨ some packet.pid = self.pmtPid ∨ packet.pusi = false then none
  else
    packet.payload.bind fun payload =>
      (self.streams.get? packet.pid).bind fun stream => unitFrame stream.type payload

theorem bind_frame_count (record : Option Pes) :
    (record.bind Pes.frame).toList.length =
      (record.any fun pes => pes.frame.isSome).toNat := by
  cases record with
  | none => rfl
  | some pes => cases shown : pes.frame <;> simp [shown]

theorem finish_pes_begun (self : TsAnalyzer) (pid : Nat) :
    (self.finishPes pid).begun = self.begun := by
  obtain ⟨lines, reports, sized⟩ := self.finish_pes_reports pid
  have printed := congrArg List.length sized
  rw [List.length_map, List.length_map, openSize, bind_frame_count] at printed
  have removed := self.pes.count_pop pid fun pes => pes.frame.isSome
  rw [begun, openFrames, finish_pes_pes, reports.frameCount, begun, openFrames]
  omega

theorem opening_begun {self : TsAnalyzer} {pid : Nat} (absent : self.pes.get? pid = none)
    (opened : Option Pes) :
    (self.opening pid opened).begun = self.begun + (opened.bind Pes.frame).toList.length := by
  cases opened with
  | none => rfl
  | some pes =>
      have added := self.pes.count_assign pid pes fun pes => pes.frame.isSome
      rw [absent] at added
      rw [bind_frame_count]
      unfold begun openFrames opening
      simp only [Option.any_none, Option.any_some, Bool.toNat_false] at added ⊢
      omega

theorem extending_begun (self : TsAnalyzer) (pid : Nat) (payload : Bytes) :
    (self.extending pid payload).begun = self.begun := by
  unfold extending
  cases found : self.pes.get? pid with
  | none => rfl
  | some pes =>
      have replaced := self.pes.count_assign pid { pes with size := pes.size + payload.length }
        fun pes => pes.frame.isSome
      have same : Pes.frame { pes with size := pes.size + payload.length } =
          pes.frame.map fun frame => (frame.1, frame.2 + payload.length) := by
        unfold Pes.frame
        rw [Option.map_map]
        rfl
      rw [found, same] at replaced
      unfold begun openFrames opening
      simp only [Option.any_some, Option.isSome_map] at replaced
      dsimp only [Option.map_some]
      omega

theorem SameRecords.begun {before after : TsAnalyzer} (same : SameRecords before after) :
    after.begun = before.begun := by
  rw [TsAnalyzer.begun, openFrames, same.pes, same.silent.frameCount]
  rfl

/-- What one packet adds to the frames printed and to the frames begun. -/
structure Adds (before after : TsAnalyzer) (frames : Nat) : Prop where
  reports : ∃ lines, Reports before after lines
  begun : after.begun = before.begun + frames

theorem SameRecords.adds {before after : TsAnalyzer} (same : SameRecords before after) :
    Adds before after 0 :=
  ⟨⟨[], same.silent⟩, same.begun⟩

theorem Adds.after_clock {self clocked next : TsAnalyzer} {frames : Nat}
    (clock : Clocked self clocked) (adds : Adds clocked next frames) : Adds self next frames where
  reports := by
    obtain ⟨lines, reports⟩ := adds.reports
    exact ⟨[] ++ lines, clock.records.silent.trans reports⟩
  begun := by rw [adds.begun, clock.records.begun]

theorem parse_pes_adds {self : TsAnalyzer} {pid : Nat} {stream : Stream}
    (known : self.streams.get? pid = some stream) (payload : Bytes) (pusi : Bool) (offset : Nat) :
    Returns (self.parsePes pid payload pusi offset) fun next =>
      Adds self next
        (if pusi then unitFrame stream.type payload else none).toList.length := by
  cases pusi with
  | true =>
      obtain ⟨opened, stepped, frame⟩ := parse_pes_starts known payload offset
      have absent : (self.finishPes pid).pes.get? pid = none := by
        rw [finish_pes_pes, Dict.get_pop, if_pos rfl]
      obtain ⟨lines, reports, _⟩ := self.finish_pes_reports pid
      refine ⟨_, stepped, ⟨lines, opening_reports reports pid opened⟩, ?_⟩
      rw [opening_begun absent, finish_pes_begun, frame]
      rfl
  | false =>
      refine ⟨_, parse_pes_extends self pid payload offset, ⟨[], ?_⟩,
        extending_begun self pid payload⟩
      exact opening_reports (same_records_refl self).silent pid _

theorem packet_adds (self : TsAnalyzer) (packet : TsPacket) (offset : Nat) :
    Returns (self.packet packet.bytes offset) fun next =>
      Adds self next (self.starting packet).toList.length := by
  obtain ⟨clocked, clock, dispatched⟩ := self.packet_dispatched packet offset
  have same : self.starting packet = clocked.starting packet := by
    rw [starting, starting, clock.pmtPid, clock.streams]
  suffices adds : Returns (self.packet packet.bytes offset) fun next =>
      Adds clocked next (clocked.starting packet).toList.length by
    rw [same]
    exact adds.weaken fun next => Adds.after_clock clock
  cases dispatched with
  | empty absent passed =>
      have none_starts : clocked.starting packet = none := by simp [starting, absent]
      rw [none_starts, passed]
      exact .pure (same_records_refl clocked).adds
  | table reserved read =>
      have none_starts : clocked.starting packet = none := if_pos (or_assoc.mp (.inl reserved))
      rw [none_starts]
      exact read.weaken fun next => SameRecords.adds
  | foreign unknown passed =>
      have none_starts : clocked.starting packet = none := by simp [starting, unknown]
      rw [none_starts, passed]
      exact .pure (same_records_refl clocked).adds
  | @data payload stream carried free known parsed =>
      have starts : clocked.starting packet =
          if packet.pusi then unitFrame stream.type payload else none := by
        obtain ⟨notPat, notPmt⟩ := not_or.mp free
        cases unit : packet.pusi <;> simp [starting, carried, known, notPat, notPmt, unit]
      rw [starts, parsed]
      exact parse_pes_adds known payload packet.pusi offset

theorem finish_pes_fold_begun (self : TsAnalyzer) (pids : List Nat) :
    (pids.foldl finishPes self).begun = self.begun := by
  induction pids generalizing self with
  | nil => rfl
  | cons pid rest ih => rw [List.foldl_cons, ih, finish_pes_begun]

theorem finish_pes_fold_reports (self : TsAnalyzer) (pids : List Nat) :
    ∃ lines, Reports self (pids.foldl finishPes self) lines := by
  induction pids generalizing self with
  | nil => exact ⟨[], (same_records_refl self).silent⟩
  | cons pid rest ih =>
      obtain ⟨later, reports⟩ := ih (self.finishPes pid)
      obtain ⟨lines, first, _⟩ := self.finish_pes_reports pid
      exact ⟨lines ++ later, first.trans reports⟩

/-- The flush ends every frame that has begun. -/
theorem finish_begun (self : TsAnalyzer) : self.finish.frameCount = self.begun := by
  have drained : self.finish.openFrames = 0 := by
    rw [openFrames, finish, finish_pes_fold_pes]
    exact self.pes.count_pop_keys _
  have whole : self.finish.begun = self.begun := self.finish_pes_fold_begun self.pes.keys
  rw [begun, drained, Nat.add_zero] at whole
  exact whole

theorem finish_reports (self : TsAnalyzer) : ∃ lines, Reports self self.finish lines :=
  self.finish_pes_fold_reports self.pes.keys

theorem Adds.trans {first second third : TsAnalyzer} {frames later : Nat}
    (before : Adds first second frames) (after : Adds second third later) :
    Adds first third (frames + later) where
  reports := by
    obtain ⟨lines, reports⟩ := before.reports
    obtain ⟨more, reports'⟩ := after.reports
    exact ⟨lines ++ more, reports.trans reports'⟩
  begun := by rw [after.begun, before.begun, Nat.add_assoc]

theorem run_adds (self : TsAnalyzer) (handed : List (TsPacket × Nat)) :
    Returns (self.run handed) fun next => ∃ frames, Adds self next frames := by
  induction handed generalizing self with
  | nil => exact .pure ⟨0, (same_records_refl self).adds⟩
  | cons item rest ih =>
      rw [run, List.foldlM_cons]
      apply Returns.bind (self.packet_adds item.1 item.2)
      intro next added
      apply Returns.weaken (ih next)
      rintro last ⟨frames, adds⟩
      exact ⟨_, added.trans adds⟩

theorem run_append (self : TsAnalyzer) (first second : List (TsPacket × Nat)) :
    self.run (first ++ second) = self.run first >>= fun next => next.run second :=
  List.foldlM_append

theorem run_mirrors (frameLimit : Nat) (self : TsAnalyzer) (handed : List (TsPacket × Nat)) :
    Mirrors (withLimit frameLimit) ((self.withLimit frameLimit).run handed) (self.run handed) :=
  Mirrors.foldlM (fun state item => packet_mirrors frameLimit state item.1.bytes item.2)
    handed self

end TsAnalyzer

/-- What the scanner hands over, with the offsets. -/
def packets (inmm : Bytes) : List (TsPacket × Nat) :=
  ((tsScan inmm).offsets (decide (SyncAt inmm (inmm.length - tsSz))) 0).attach.map fun offset =>
    ({ bytes := (packetAt inmm offset.1).1
       whole := by
        have inside : offset.1 + tsSz ≤ inmm.length := (ResyncScan.mem_offsets offset.2).1
        rw [packetAt, slice_length inside, Nat.add_sub_cancel_left]
       synced := (packet_sync inmm offset.1).mpr (offsets_sync offset.2) }, offset.1)

theorem packets_handed (inmm : Bytes) :
    (packets inmm).map (fun handed => (handed.1.bytes, handed.2)) =
      ((tsScan inmm).offsets (decide (SyncAt inmm (inmm.length - tsSz))) 0).map
        (packetAt inmm) := by
  unfold packets
  rw [List.map_map]
  change List.map (fun offset : Subtype _ => packetAt inmm offset.1) _ = _
  exact List.attach_map_val

theorem done_limit (frameLimit : Nat) (self : TsAnalyzer) :
    (self.withLimit frameLimit).done = true ↔ 0 < frameLimit ∧ frameLimit ≤ self.frameCount :=
  decide_eq_true_iff

/-- A run with a limit is a run without one over the packets it takes, and a flush. -/
theorem ts_pts_check_run (inmm : Bytes) (frames : Nat) :
    ∃ taken rest self, packets inmm = taken ++ rest ∧
      (TsAnalyzer.init 0).run taken = .ok self ∧
      tsPtsCheck inmm frames = .ok (self.finish.withLimit frames) ∧
      (rest = [] ∨ 0 < frames ∧ frames ≤ self.frameCount) ∧
        ∀ before handed after middle, taken = before ++ handed :: after →
          (TsAnalyzer.init 0).run before = .ok middle →
            ¬(0 < frames ∧ frames ≤ middle.frameCount) := by
  obtain ⟨limited, ran, _⟩ : Returns (TsParser.process inmm
      (fun packet offset self => self.packet packet offset) TsAnalyzer.done 0
        (TsAnalyzer.init frames)) fun _ => True :=
    TsParser.process_returns
      (fun packet offset self whole _ => TsAnalyzer.packet_returns whole self offset) 0 _ trivial
  have loop := ran
  rw [TsParser.process_fold, ← packets_handed, fold_until_map] at loop
  have starts : (TsAnalyzer.init frames).done = false := by
    apply decide_eq_false
    rintro ⟨positive, reached⟩
    exact Nat.not_lt.mpr reached positive
  obtain ⟨taken, rest, split, reached, ended, running⟩ := fold_until_split starts loop
  obtain ⟨self, unlimited, _⟩ := (TsAnalyzer.init 0).run_adds taken
  have same := TsAnalyzer.run_mirrors frames (.init 0) taken
  have mirrored : (TsAnalyzer.init frames).run taken = .ok (self.withLimit frames) := by
    rw [unlimited] at same
    exact same
  cases mirrored.symm.trans reached
  refine ⟨taken, rest, self, split, unlimited, ?_, ?_, ?_⟩
  · rw [tsPtsCheck, ran, ok_bind, TsAnalyzer.finish_limit]
    rfl
  · rw [← done_limit frames self]
    exact ended
  · intro before handed after middle division came
    have before_mirrors := TsAnalyzer.run_mirrors frames (.init 0) before
    rw [came] at before_mirrors
    rw [← done_limit frames middle, Bool.not_eq_true]
    exact running before handed after (middle.withLimit frames) division before_mirrors

/-- At most `frames` frame lines are printed, the first ones of the run without a limit. -/
def LimitHolds (inmm : Bytes) (frames : Nat) : Prop :=
  ∃ limited unlimited,
    tsPtsCheck inmm frames = .ok limited ∧ tsPtsCheck inmm 0 = .ok unlimited ∧
      limited.frames.length ≤ frames ∧ limited.frames = unlimited.frames.take frames

/-- As long as fewer than `frames` frames have ended before a packet, no more than
`frames` have begun with it. -/
def BeginsInTime (inmm : Bytes) (frames : Nat) : Prop :=
  ∀ before handed after self, packets inmm = before ++ handed :: after →
    (TsAnalyzer.init 0).run before = .ok self → self.frameCount < frames →
      self.begun + (self.starting handed.1).toList.length ≤ frames

theorem finish_frames (self : TsAnalyzer) :
    ∃ lines, self.finish.frames = self.frames ++ lines ∧ lines.length = self.openFrames := by
  obtain ⟨lines, reports⟩ := self.finish_reports
  have ended := self.finish_begun
  rw [reports.frameCount, TsAnalyzer.begun] at ended
  exact ⟨lines, reports.frames, Nat.add_left_cancel ended⟩

/-- In a run from the start every frame line is counted. -/
theorem run_counted {handed : List (TsPacket × Nat)} {self : TsAnalyzer} {frameLimit : Nat}
    (ran : (TsAnalyzer.init frameLimit).run handed = .ok self) :
    self.frames.length = self.frameCount := by
  obtain ⟨_, same, _, ⟨lines, reports⟩, _⟩ := (TsAnalyzer.init frameLimit).run_adds handed
  cases ran.symm.trans same
  rw [reports.frames, reports.frameCount, List.length_append]
  rfl

theorem unlimited_run (inmm : Bytes) :
    ∃ last, (TsAnalyzer.init 0).run (packets inmm) = .ok last ∧
      tsPtsCheck inmm 0 = .ok (last.finish.withLimit 0) := by
  obtain ⟨all, rest, last, split, ran, printed, ended, _⟩ := ts_pts_check_run inmm 0
  have whole : rest = [] := by
    rcases ended with nothing | ⟨positive, _⟩
    · exact nothing
    · exact absurd positive (Nat.lt_irrefl 0)
  rw [whole, List.append_nil] at split
  exact ⟨last, split ▸ ran, printed⟩

/-- What counts is how many frames have begun when the loop ends. -/
theorem limit_holds_begun {inmm : Bytes} {frames : Nat} {taken rest : List (TsPacket × Nat)}
    {self : TsAnalyzer} (split : packets inmm = taken ++ rest)
    (ran : (TsAnalyzer.init 0).run taken = .ok self)
    (printed : tsPtsCheck inmm frames = .ok (self.finish.withLimit frames))
    (ended : rest = [] ∨ 0 < frames ∧ frames ≤ self.frameCount) :
    LimitHolds inmm frames ↔ self.begun ≤ frames := by
  have counted := run_counted ran
  obtain ⟨flushed, limited, opened⟩ := finish_frames self
  have length : (self.finish.withLimit frames).frames.length = self.begun := by
    change self.finish.frames.length = _
    rw [limited, List.length_append, counted, opened]
    rfl
  constructor
  · rintro ⟨_, _, printed', _, atMost, _⟩
    cases printed.symm.trans printed'
    rwa [length] at atMost
  · intro inTime
    have atMost : (self.finish.withLimit frames).frames.length ≤ frames := by
      rw [length]
      exact inTime
    obtain ⟨last, ranAll, unlimited⟩ := unlimited_run inmm
    refine ⟨_, _, printed, unlimited, atMost, ?_⟩
    change self.finish.frames = last.finish.frames.take frames
    rw [split, TsAnalyzer.run_append, ran, ok_bind] at ranAll
    rcases ended with rfl | ⟨_, reached⟩
    · cases ranAll
      exact (List.take_of_length_le atMost).symm
    · obtain ⟨_, same, _, ⟨more, later⟩, _⟩ := self.run_adds rest
      cases ranAll.symm.trans same
      obtain ⟨end', atEnd, _⟩ := finish_frames last
      have nothing : flushed = [] := by
        apply List.eq_nil_of_length_eq_zero
        unfold TsAnalyzer.begun at inTime
        omega
      have full : self.frames.length = frames := by
        unfold TsAnalyzer.begun at inTime
        omega
      rw [atEnd, later.frames, limited, nothing, List.append_nil, List.append_assoc, ← full,
        List.take_left]

theorem run_grows {self next : TsAnalyzer} {handed : List (TsPacket × Nat)}
    (ran : self.run handed = .ok next) :
    self.frameCount ≤ next.frameCount ∧ self.begun ≤ next.begun := by
  obtain ⟨_, same, _, ⟨lines, reports⟩, begun⟩ := self.run_adds handed
  cases ran.symm.trans same
  constructor
  · rw [reports.frameCount]
    exact Nat.le_add_right _ _
  · rw [begun]
    exact Nat.le_add_right _ _

theorem run_starting {self next : TsAnalyzer} {handed : TsPacket × Nat}
    {after : List (TsPacket × Nat)} (ran : self.run (handed :: after) = .ok next) :
    self.begun + (self.starting handed.1).toList.length ≤ next.begun := by
  obtain ⟨middle, stepped, adds⟩ := self.packet_adds handed.1 handed.2
  rw [TsAnalyzer.run, List.foldlM_cons, stepped, ok_bind] at ran
  rw [← adds.begun]
  exact (run_grows ran).2

/-- No frame begins late in a loop that ends with few enough begun, and the packets
behind the loop find enough ended. -/
theorem begins_in_time_begun {inmm : Bytes} {frames : Nat} {taken rest : List (TsPacket × Nat)}
    {self : TsAnalyzer} (split : packets inmm = taken ++ rest)
    (ran : (TsAnalyzer.init 0).run taken = .ok self)
    (ended : rest = [] ∨ 0 < frames ∧ frames ≤ self.frameCount)
    (running : ∀ before handed after middle, taken = before ++ handed :: after →
      (TsAnalyzer.init 0).run before = .ok middle →
        ¬(0 < frames ∧ frames ≤ middle.frameCount)) (positive : 0 < frames) :
    BeginsInTime inmm frames ↔ self.begun ≤ frames := by
  constructor
  · intro inTime
    rcases List.eq_nil_or_concat taken with rfl | ⟨before, handed, rfl⟩
    · cases ran
      exact Nat.zero_le frames
    · rw [List.concat_eq_append] at split ran running
      obtain ⟨middle, came, _⟩ := (TsAnalyzer.init 0).run_adds before
      have few : middle.frameCount < frames := by
        have unfinished := running before handed [] middle rfl came
        omega
      rw [List.append_assoc] at split
      have early := inTime before handed rest middle split came few
      obtain ⟨next, stepped, adds⟩ := middle.packet_adds handed.1 handed.2
      have whole : (TsAnalyzer.init 0).run (before ++ [handed]) = .ok next := by
        rw [TsAnalyzer.run_append, came, ok_bind, TsAnalyzer.run, List.foldlM_cons, stepped]
        rfl
      cases whole.symm.trans ran
      rw [adds.begun]
      exact early
  · intro inTime before handed after middle division came few
    have later (behind : List (TsPacket × Nat)) (longer : before = taken ++ behind)
        (more : rest ≠ []) : False := by
      have reached := (ended.resolve_left more).2
      rw [longer, TsAnalyzer.run_append, ran, ok_bind] at came
      have grown := (run_grows came).1
      omega
    rcases List.append_eq_append_iff.mp (split.symm.trans division) with
      ⟨behind, longer, left⟩ | ⟨middleTaken, shorter, right⟩
    · exact (later behind longer (by simp [left])).elim
    · cases middleTaken with
      | nil =>
          have same : before = taken ++ [] := by simp [shorter]
          have more : rest ≠ [] := by
            rw [← List.nil_append rest, ← right]
            exact List.cons_ne_nil _ _
          exact (later [] same more).elim
      | cons head tail =>
          obtain ⟨rfl, _⟩ := List.cons.inj right
          rw [shorter, TsAnalyzer.run_append, came, ok_bind] at ran
          exact Nat.le_trans (run_starting ran) inTime

/-- The limit holds exactly when no frame beyond it begins before enough have ended. -/
theorem frame_limit_iff (inmm : Bytes) (frames : Nat) (positive : 0 < frames) :
    LimitHolds inmm frames ↔ BeginsInTime inmm frames := by
  obtain ⟨taken, rest, self, split, ran, printed, ended, running⟩ := ts_pts_check_run inmm frames
  rw [limit_holds_begun split ran printed ended]
  exact (begins_in_time_begun split ran ended running positive).symm

/-- Both tables and two frames of one video stream. -/
def twoFrames : Bytes :=
  streamOf
    [.plain 0x0000 true (patPayload sampleCarrier samplePat) (by decide),
      .plain 0x0100 true (pmtPayload sampleCarrier samplePmt) (by decide),
      videoPacket 0x0101, videoPacket 0x0101]

theorem frame_limit_two_frames : BeginsInTime twoFrames 2 := by
  obtain ⟨limited, ran, _⟩ := ts_pts_check_returns twoFrames 2
  obtain ⟨unlimited, ranAll, _⟩ := ts_pts_check_returns twoFrames 0
  have shown : (do
      let limited ← tsPtsCheck twoFrames 2
      let unlimited ← tsPtsCheck twoFrames 0
      pure (decide (limited.frames.length ≤ 2 ∧ limited.frames = unlimited.frames.take 2))) =
        .ok true := by
    decide +kernel
  rw [ran, ranAll] at shown
  have holds := of_decide_eq_true (Except.ok.inj shown)
  exact (frame_limit_iff twoFrames 2 (by decide)).mp ⟨limited, unlimited, ran, ranAll, holds⟩

/-- The start of the second frame ends the first one; the flush prints the second. -/
theorem limit_of_one_prints_two :
    ¬∀ (inmm : Bytes) (frames : Nat), 0 < frames → LimitHolds inmm frames := by
  intro always
  obtain ⟨limited, _, ran, _, atMost, _⟩ := always twoFrames 1 (by decide)
  have shown : (tsPtsCheck twoFrames 1).map (fun final => final.frames.length) = .ok 2 := by
    decide +kernel
  rw [ran] at shown
  have two : limited.frames.length = 2 := Except.ok.inj shown
  rw [two] at atMost
  exact absurd atMost (by decide)

end Testings.MpegTs
