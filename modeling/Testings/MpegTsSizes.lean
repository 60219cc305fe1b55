import Testings.MpegTsUnits

/-!
# Sizes of frames

What a sequence of packets says about the frames on each PID, from its payloads
alone, and what the analyzer prints for that PID. The payloads of one PID come in
units, each from a unit start up to the next one; a record that is open stands for
the bytes seen so far of the last unit.
-/

set_option autoImplicit false

namespace Testings.MpegTs

open Python

/-- One payload, and whether it starts a unit. -/
structure Part where
  starts : Bool
  payload : Bytes
  deriving DecidableEq

def TsPacket.part (pid : Nat) (packet : TsPacket) : Option Part :=
  if packet.pid = pid then packet.payload.map fun payload => ⟨packet.pusi, payload⟩ else none

/-- Packets without payload bytes are passed over. -/
def parts (pid : Nat) (handed : List (TsPacket × Nat)) : List Part :=
  handed.filterMap fun item => item.1.part pid

/-- The payload bytes before the next unit start. -/
def continuation (parts : List Part) : Nat :=
  ((parts.takeWhile fun part => !part.starts).map fun part => part.payload.length).sum

/-- Type and size of every frame that starts in the parts. -/
def frameSizes (type : MediaType) : List Part → List (MediaType × Nat)
  | [] => []
  | part :: rest =>
      if part.starts = true ∧ type ≠ .unknown ∧ StartsFrame part.payload then
        (type, part.payload.length + continuation rest - 9 - headerLength part.payload) ::
          frameSizes type rest
      else frameSizes type rest

theorem continuation_start (payload : Bytes) (rest : List Part) :
    continuation (⟨true, payload⟩ :: rest) = 0 := rfl

theorem continuation_part (payload : Bytes) (rest : List Part) :
    continuation (⟨false, payload⟩ :: rest) = payload.length + continuation rest := by
  simp [continuation]

theorem frame_sizes_part (type : MediaType) (payload : Bytes) (rest : List Part) :
    frameSizes type (⟨false, payload⟩ :: rest) = frameSizes type rest := by
  simp [frameSizes]

/-- A frame with the bytes that are still to come. -/
def extended (more : Nat) (frame : MediaType × Nat) : MediaType × Nat := (frame.1, frame.2 + more)

theorem frame_sizes_start (type : MediaType) (payload : Bytes) (rest : List Part) :
    frameSizes type (⟨true, payload⟩ :: rest) =
      ((unitFrame type payload).map (extended (continuation rest))).toList ++
        frameSizes type rest := by
  rw [frameSizes, unitFrame]
  by_cases shown : type ≠ .unknown ∧ StartsFrame payload
  · obtain ⟨_, _, whole, _⟩ := shown.2
    have size : payload.length - (9 + headerLength payload) + continuation rest =
        payload.length + continuation rest - 9 - headerLength payload := by
      omega
    rw [if_pos ⟨rfl, shown⟩, if_pos shown]
    simp [extended, size]
  · rw [if_neg fun all => shown all.2, if_neg shown]
    rfl

theorem frame_sizes_unknown (parts : List Part) : frameSizes .unknown parts = [] := by
  induction parts with
  | nil => rfl
  | cons part rest ih =>
      rw [frameSizes, if_neg (by simp), ih]

/-- The analyzer with the frame lines it has printed, each with the PID whose record
was finished for it. -/
structure FrameLog where
  analyzer : TsAnalyzer
  lines : List (Nat × Line)

namespace FrameLog

/-- The frame lines of a call are those the state before did not have. -/
def after (log : FrameLog) (pid : Nat) (next : TsAnalyzer) : FrameLog where
  analyzer := next
  lines := log.lines ++ (next.frames.drop log.analyzer.frames.length).map fun line => (pid, line)

def packet (log : FrameLog) (handed : TsPacket × Nat) : Py FrameLog := do
  let next ← log.analyzer.packet handed.1.bytes handed.2
  pure (log.after handed.1.pid next)

def finishPes (log : FrameLog) (pid : Nat) : FrameLog :=
  log.after pid (log.analyzer.finishPes pid)

def finish (log : FrameLog) : FrameLog := log.analyzer.pes.keys.foldl finishPes log

/-- Type and size in the lines printed for a PID. -/
def sizes (log : FrameLog) (pid : Nat) : List (Option (MediaType × Nat)) :=
  (log.lines.filter fun entry => entry.1 = pid).map fun entry => entry.2.typeSize

theorem after_lines {log : FrameLog} {next : TsAnalyzer} {lines : List Line}
    (reports : TsAnalyzer.Reports log.analyzer next lines) (pid : Nat) :
    (log.after pid next).lines = log.lines ++ lines.map fun line => (pid, line) := by
  rw [after, reports.frames, List.drop_left]

theorem after_printed (log : FrameLog) {before : List Line}
    (printed : log.analyzer.frames = before ++ log.lines.map Prod.snd) {next : TsAnalyzer}
    {lines : List Line} (reports : TsAnalyzer.Reports log.analyzer next lines) (pid : Nat) :
    (log.after pid next).analyzer.frames = before ++ (log.after pid next).lines.map Prod.snd := by
  rw [after_lines reports, List.map_append, List.map_map, ← List.append_assoc, ← printed]
  change next.frames = log.analyzer.frames ++ lines.map id
  rw [List.map_id, reports.frames]

theorem after_sizes {log : FrameLog} {next : TsAnalyzer} {lines : List Line}
    (reports : TsAnalyzer.Reports log.analyzer next lines) (pid other : Nat) :
    (log.after pid next).sizes other =
      log.sizes other ++ if pid = other then lines.map Line.typeSize else [] := by
  rw [sizes, after_lines reports, List.filter_append, List.map_append, sizes, List.filter_map]
  by_cases here : pid = other
  · simp [here, Function.comp_def]
  · simp [here, Function.comp_def]

end FrameLog

/-- The type the tables give to a PID. -/
def TsAnalyzer.typeOf (self : TsAnalyzer) (pid : Nat) : MediaType :=
  ((self.streams.get? pid).map Stream.type).getD .unknown

/-- Whatever parts of a PID are still to come, the frames of all its parts are those
printed, the open one with what still belongs to it, and those that start later. -/
structure Accounts (start : TsAnalyzer) (handed : List (TsPacket × Nat)) (log : FrameLog) :
    Prop where
  pmtPid : log.analyzer.pmtPid = start.pmtPid
  streams : log.analyzer.streams = start.streams
  printed : log.analyzer.frames = start.frames ++ log.lines.map Prod.snd
  sizes : ∀ pid rest,
    (frameSizes (start.typeOf pid) (parts pid handed ++ rest)).map some =
      log.sizes pid ++
        ((log.analyzer.openSize pid).map (extended (continuation rest))).toList.map some ++
          (frameSizes (start.typeOf pid) rest).map some

theorem parts_concat (pid : Nat) (handed : List (TsPacket × Nat)) (item : TsPacket × Nat) :
    parts pid (handed ++ [item]) = parts pid handed ++ (item.1.part pid).toList := by
  rw [parts, List.filterMap_append, parts]
  cases part : item.1.part pid <;> simp [part]

/-- A step is right when it is right on its own PID. -/
theorem Accounts.step {start : TsAnalyzer} {handed : List (TsPacket × Nat)} {log : FrameLog}
    (accounts : Accounts start handed log) (item : TsPacket × Nat) {next : TsAnalyzer}
    {lines : List Line} (pmtPid : next.pmtPid = log.analyzer.pmtPid)
    (streams : next.streams = log.analyzer.streams)
    (reports : TsAnalyzer.Reports log.analyzer next lines)
    (others : ∀ pid, pid ≠ item.1.pid → next.openSize pid = log.analyzer.openSize pid)
    (own : ∀ rest,
      ((log.analyzer.openSize item.1.pid).map
          (extended (continuation ((item.1.part item.1.pid).toList ++ rest)))).toList.map some ++
        (frameSizes (start.typeOf item.1.pid)
          ((item.1.part item.1.pid).toList ++ rest)).map some =
      lines.map Line.typeSize ++
        ((next.openSize item.1.pid).map (extended (continuation rest))).toList.map some ++
          (frameSizes (start.typeOf item.1.pid) rest).map some) :
    Accounts start (handed ++ [item]) (log.after item.1.pid next) where
  pmtPid := pmtPid.trans accounts.pmtPid
  streams := streams.trans accounts.streams
  printed := log.after_printed accounts.printed reports item.1.pid
  sizes pid rest := by
    rw [parts_concat, List.append_assoc, accounts.sizes, FrameLog.after_sizes reports]
    by_cases here : item.1.pid = pid
    · subst here
      rw [if_pos rfl, List.append_assoc, own rest]
      simp only [List.append_assoc]
      rfl
    · have absent : item.1.part pid = none := if_neg here
      rw [if_neg here, absent, List.append_nil]
      change _ = log.sizes pid ++ ((next.openSize pid).map _).toList.map some ++ _
      rw [others pid (Ne.symm here)]
      rfl

/-- A packet without payload, or on a PID the tables do not list. -/
theorem Accounts.pass {start : TsAnalyzer} {handed : List (TsPacket × Nat)} {log : FrameLog}
    (accounts : Accounts start handed log) {item : TsPacket × Nat} {next : TsAnalyzer}
    (clock : TsAnalyzer.Clocked log.analyzer next)
    (nothing : item.1.part item.1.pid = none ∨ start.typeOf item.1.pid = .unknown) :
    Accounts start (handed ++ [item]) (log.after item.1.pid next) := by
  have records := clock.records.open_size
  apply accounts.step item clock.pmtPid clock.streams clock.records.silent
  · exact fun pid _ => records pid
  · intro rest
    rw [records]
    rcases nothing with absent | unknown
    · rw [absent]
      rfl
    · have closed := accounts.sizes item.1.pid []
      rw [unknown, frame_sizes_unknown, frame_sizes_unknown] at closed
      have empty : log.sizes item.1.pid = [] ∧ log.analyzer.openSize item.1.pid = none := by
        simpa using closed
      rw [empty.2, unknown, frame_sizes_unknown, frame_sizes_unknown]
      rfl

/-- A unit start prints what is open and opens what begins. -/
theorem Accounts.start_unit {start : TsAnalyzer} {handed : List (TsPacket × Nat)} {log : FrameLog}
    (accounts : Accounts start handed log) {item : TsPacket × Nat} {clocked : TsAnalyzer}
    (clock : TsAnalyzer.Clocked log.analyzer clocked) {payload : Bytes} {opened : Option Pes}
    (part : item.1.part item.1.pid = some ⟨true, payload⟩)
    (frame : opened.bind Pes.frame = unitFrame (start.typeOf item.1.pid) payload) :
    Accounts start (handed ++ [item])
      (log.after item.1.pid ((clocked.finishPes item.1.pid).opening item.1.pid opened)) := by
  obtain ⟨pmtPid, streams⟩ :=
    (clocked.finishPes item.1.pid).opening_tables item.1.pid opened
  rw [TsAnalyzer.finish_pes_pmt_pid, clock.pmtPid] at pmtPid
  rw [TsAnalyzer.finish_pes_streams, clock.streams] at streams
  obtain ⟨lines, reports, sized⟩ := clocked.finish_pes_reports item.1.pid
  rw [clock.records.open_size] at sized
  have ended := TsAnalyzer.opening_reports (clock.records.silent.trans reports) item.1.pid opened
  apply accounts.step item pmtPid streams ended
  · intro pid other
    rw [TsAnalyzer.opening_open_size, if_neg (Ne.symm other), TsAnalyzer.finish_pes_open_size,
      if_neg (Ne.symm other), clock.records.open_size]
  · intro rest
    have closed : (clocked.finishPes item.1.pid).pes.get? item.1.pid = none := by
      rw [TsAnalyzer.finish_pes_pes, Dict.get_pop, if_pos rfl]
    have bytes : (log.analyzer.openSize item.1.pid).map (extended 0) =
        log.analyzer.openSize item.1.pid := by
      cases log.analyzer.openSize item.1.pid <;> rfl
    rw [part, Option.toList_some, List.singleton_append, continuation_start, frame_sizes_start,
      TsAnalyzer.opening_open_size, if_pos rfl, closed, Option.or_none, frame, bytes,
      List.nil_append, sized, List.map_append, List.append_assoc]

/-- Any other payload goes to what is open. -/
theorem Accounts.extend_unit {start : TsAnalyzer} {handed : List (TsPacket × Nat)}
    {log : FrameLog} (accounts : Accounts start handed log) {item : TsPacket × Nat}
    {clocked : TsAnalyzer} (clock : TsAnalyzer.Clocked log.analyzer clocked) {payload : Bytes}
    (part : item.1.part item.1.pid = some ⟨false, payload⟩) :
    Accounts start (handed ++ [item])
      (log.after item.1.pid (clocked.extending item.1.pid payload)) := by
  obtain ⟨pmtPid, streams⟩ := clocked.extending_tables item.1.pid payload
  rw [clock.pmtPid] at pmtPid
  rw [clock.streams] at streams
  have nothing : TsAnalyzer.Reports log.analyzer (clocked.extending item.1.pid payload) [] :=
    TsAnalyzer.opening_reports clock.records.silent item.1.pid _
  apply accounts.step item pmtPid streams nothing
  · intro pid other
    rw [TsAnalyzer.extending, TsAnalyzer.opening_open_size, if_neg (Ne.symm other),
      clock.records.open_size]
  · intro rest
    have grown : (clocked.extending item.1.pid payload).openSize item.1.pid =
        (log.analyzer.openSize item.1.pid).map (extended payload.length) := by
      rw [TsAnalyzer.extending, TsAnalyzer.opening_open_size, if_pos rfl,
        ← clock.records.open_size, TsAnalyzer.openSize]
      cases clocked.pes.get? item.1.pid with
      | none => rfl
      | some pes =>
          simp only [Option.map_some, Option.some_or, Option.bind_some, Pes.frame, Option.map_map]
          rfl
    have more (frame : MediaType × Nat) :
        extended (continuation rest) (extended payload.length frame) =
          extended (payload.length + continuation rest) frame := by
      simp [extended, Nat.add_assoc]
    rw [part, Option.toList_some, List.singleton_append, continuation_part, frame_sizes_part,
      grown, Option.map_map]
    simp only [Function.comp_def, more]
    rfl

theorem packet_accounts {start : TsAnalyzer} {handed : List (TsPacket × Nat)} {log : FrameLog}
    (accounts : Accounts start handed log) {item : TsPacket × Nat}
    (data : item.1.pid ≠ 0 ∧ some item.1.pid ≠ start.pmtPid) :
    Returns (log.packet item) (Accounts start (handed ++ [item])) := by
  obtain ⟨clocked, clock, dispatched⟩ := log.analyzer.packet_dispatched item.1 item.2
  have tables : clocked.streams = start.streams := clock.streams.trans accounts.streams
  rw [FrameLog.packet]
  cases dispatched with
  | empty absent passed =>
      have nothing : item.1.part item.1.pid = none := by simp [TsPacket.part, absent]
      rw [passed]
      exact .pure (accounts.pass clock (.inl nothing))
  | table reserved read =>
      rw [clock.pmtPid, accounts.pmtPid] at reserved
      exact absurd reserved (not_or.mpr data)
  | foreign unknown passed =>
      have type : start.typeOf item.1.pid = .unknown := by
        simp [TsAnalyzer.typeOf, ← tables, unknown]
      rw [passed]
      exact .pure (accounts.pass clock (.inr type))
  | @data payload stream carried free known parsed =>
      have part : item.1.part item.1.pid = some ⟨item.1.pusi, payload⟩ := by
        simp [TsPacket.part, carried]
      have type : start.typeOf item.1.pid = stream.type := by
        simp [TsAnalyzer.typeOf, ← tables, known]
      rw [parsed]
      cases unit : item.1.pusi with
      | true =>
          rw [unit] at part
          obtain ⟨opened, opens, frame⟩ := TsAnalyzer.parse_pes_starts known payload item.2
          rw [opens, ok_bind]
          rw [← type] at frame
          exact .pure (accounts.start_unit clock part frame)
      | false =>
          rw [unit] at part
          rw [TsAnalyzer.parse_pes_extends, ok_bind]
          exact .pure (accounts.extend_unit clock part)

namespace FrameLog

theorem finish_pes_sizes (log : FrameLog) (pid other : Nat) :
    (log.finishPes pid).sizes other ++
        ((log.finishPes pid).analyzer.openSize other).toList.map some =
      log.sizes other ++ (log.analyzer.openSize other).toList.map some := by
  obtain ⟨lines, reports, sized⟩ := log.analyzer.finish_pes_reports pid
  have left : (log.finishPes pid).analyzer.openSize other =
      if pid = other then none else log.analyzer.openSize other :=
    log.analyzer.finish_pes_open_size pid other
  rw [left, finishPes, after_sizes reports, sized]
  split_ifs with here
  · rw [here, Option.toList_none, List.map_nil, List.append_nil]
  · rw [List.append_nil]

theorem finish_pes_fold_sizes (log : FrameLog) (pids : List Nat) (other : Nat) :
    (pids.foldl finishPes log).sizes other ++
        ((pids.foldl finishPes log).analyzer.openSize other).toList.map some =
      log.sizes other ++ (log.analyzer.openSize other).toList.map some := by
  induction pids generalizing log with
  | nil => rfl
  | cons pid rest ih => rw [List.foldl_cons, ih, finish_pes_sizes]

theorem finish_pes_fold_analyzer (log : FrameLog) (pids : List Nat) :
    (pids.foldl finishPes log).analyzer = pids.foldl TsAnalyzer.finishPes log.analyzer := by
  induction pids generalizing log with
  | nil => rfl
  | cons pid rest ih =>
      rw [List.foldl_cons, ih]
      rfl

theorem finish_pes_fold_printed (log : FrameLog) (pids : List Nat) {before : List Line}
    (printed : log.analyzer.frames = before ++ log.lines.map Prod.snd) :
    (pids.foldl finishPes log).analyzer.frames =
      before ++ (pids.foldl finishPes log).lines.map Prod.snd := by
  induction pids generalizing log with
  | nil => exact printed
  | cons pid rest ih =>
      obtain ⟨lines, reports, _⟩ := log.analyzer.finish_pes_reports pid
      exact ih (log.finishPes pid) (log.after_printed printed reports pid)

theorem finish_analyzer (log : FrameLog) : log.finish.analyzer = log.analyzer.finish :=
  log.finish_pes_fold_analyzer log.analyzer.pes.keys

/-- The flush prints whatever is open. -/
theorem finish_sizes (log : FrameLog) (pid : Nat) :
    log.finish.sizes pid = log.sizes pid ++ (log.analyzer.openSize pid).toList.map some := by
  have whole := log.finish_pes_fold_sizes log.analyzer.pes.keys pid
  have drained : log.finish.analyzer.openSize pid = none := by
    rw [finish_analyzer, TsAnalyzer.finish_pes_empty]
  change log.finish.sizes pid ++ (log.finish.analyzer.openSize pid).toList.map some = _ at whole
  rw [drained, Option.toList_none, List.map_nil, List.append_nil] at whole
  exact whole

end FrameLog

/-- The log keeps to the run of the analyzer. -/
theorem FrameLog.run_analyzer (log : FrameLog) (handed : List (TsPacket × Nat)) :
    (handed.foldlM FrameLog.packet log).map FrameLog.analyzer = log.analyzer.run handed := by
  induction handed generalizing log with
  | nil => rfl
  | cons item rest ih =>
      rw [TsAnalyzer.run, List.foldlM_cons, List.foldlM_cons, FrameLog.packet]
      cases log.analyzer.packet item.1.bytes item.2 with
      | error failure => rfl
      | ok next => exact ih (log.after item.1.pid next)

theorem run_accounts {start : TsAnalyzer} {before handed : List (TsPacket × Nat)}
    {log : FrameLog} (accounts : Accounts start before log)
    (data : ∀ item ∈ handed, item.1.pid ≠ 0 ∧ some item.1.pid ≠ start.pmtPid) :
    Returns (handed.foldlM FrameLog.packet log) (Accounts start (before ++ handed)) := by
  induction handed generalizing before log with
  | nil =>
      rw [List.append_nil]
      exact .pure accounts
  | cons item rest ih =>
      rw [List.foldlM_cons, List.append_cons]
      apply Returns.bind (packet_accounts accounts (data item List.mem_cons_self))
      intro next kept
      exact ih kept fun later member => data later (List.mem_cons_of_mem item member)

/-- The frame lines printed for a PID are the frames that start in its payloads, each
with the bytes up to the next unit start. -/
theorem sizes_accounted (start : TsAnalyzer) (noRecords : start.pes = .empty)
    (handed : List (TsPacket × Nat))
    (data : ∀ item ∈ handed, item.1.pid ≠ 0 ∧ some item.1.pid ≠ start.pmtPid) :
    Returns (handed.foldlM FrameLog.packet ⟨start, []⟩) fun log =>
      start.run handed = .ok log.analyzer ∧ log.finish.analyzer = log.analyzer.finish ∧
        log.finish.analyzer.frames = start.frames ++ log.finish.lines.map Prod.snd ∧
          ∀ pid, log.finish.sizes pid =
            (frameSizes (start.typeOf pid) (parts pid handed)).map some := by
  have fresh : Accounts start [] ⟨start, []⟩ :=
    { pmtPid := rfl
      streams := rfl
      printed := (List.append_nil _).symm
      sizes := fun pid rest => by
        rw [TsAnalyzer.openSize, noRecords, Dict.get_empty]
        rfl }
  obtain ⟨log, ran, accounts⟩ := run_accounts fresh data
  have analyzer := FrameLog.run_analyzer ⟨start, []⟩ handed
  rw [ran] at analyzer
  refine ⟨log, ran, analyzer.symm, log.finish_analyzer, ?_, ?_⟩
  · exact log.finish_pes_fold_printed log.analyzer.pes.keys accounts.printed
  · intro pid
    have whole := accounts.sizes pid []
    have bytes : (log.analyzer.openSize pid).map (extended (continuation [])) =
        log.analyzer.openSize pid := by
      cases log.analyzer.openSize pid <;> rfl
    rw [List.append_nil, List.nil_append, frameSizes, List.map_nil, List.append_nil, bytes] at whole
    rw [log.finish_sizes, whole]

/-- A video and an audio stream, and the PCR with the video. -/
def twoStreams : TsAnalyzer :=
  { TsAnalyzer.init 0 with
    pmtPid := some 0x0100
    pcrPid := some 0x0101
    streams := (Dict.empty.assign 0x0101 ⟨0x1B, .video⟩).assign 0x0102 ⟨0x03, .audio⟩ }

/-- The first video frame goes on behind the start of an audio frame. -/
def interleaved : List (TsPacket × Nat) :=
  [(videoPacket 0x0101, 0), (videoPacket 0x0102, 188),
    (.plain 0x0101 false [] (by decide), 376), (videoPacket 0x0101, 564)]

theorem sizes_accounted_interleaved :
    Returns (interleaved.foldlM FrameLog.packet ⟨twoStreams, []⟩) fun log =>
      log.finish.sizes 0x0101 = [some (.video, 354), some (.video, 170)] ∧
        log.finish.sizes 0x0102 = [some (.audio, 170)] := by
  apply (sizes_accounted twoStreams rfl interleaved (by decide)).weaken
  intro log accounted
  obtain ⟨_, _, _, sizes⟩ := accounted
  rw [sizes, sizes]
  decide +kernel

end Testings.MpegTs
