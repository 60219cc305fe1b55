import Testings.BitbangDevice

/-!
# Transmission over the whole life of the device

The levels that `tx_timer_cb` drives are the frames of the bytes it takes, the
last one cut short only while the timer is queued. A close keeps the timer and
the bit index; the first open after it overwrites the bit index, so a frame
that is still running then is never finished.
-/

set_option autoImplicit false

namespace Testings.Bitbang

open AsyncSerial

structure TransmitLog where
  written : List (BitVec 8)
  taken : List (BitVec 8)
  driven : List Bool

def recordTransmit (s : Device) (action : Action) (next : Device) (log : TransmitLog) :
    TransmitLog :=
  match action with
  | .write _ _ =>
      { log with written := log.written ++ next.uart.txFifo.drop s.uart.txFifo.length }
  | .txExpire =>
      { log with
        taken := log.taken ++
          s.uart.txFifo.take (s.uart.txFifo.length - next.uart.txFifo.length)
        driven := log.driven ++ (txTimerCb s.uart).driven.toList }
  | _ => log

def transmitSystem (periodMs : BitVec 32) : StepSystem (Device × TransmitLog) Action :=
  (device periodMs).observe ⟨[], [], []⟩ recordTransmit

/-- The levels driven so far, with two stop bits to a frame. The line is high
before the first of them. -/
structure WellFormed (state : Device × TransmitLog) : Prop where
  frames : state.2.driven = state.2.taken.flatMap (frame 2) ∨
    state.1.txQueued = true ∧ ∃ whole byte sent, state.2.taken = whole ++ [byte] ∧
      0 < sent ∧ sent < 12 ∧
      state.2.driven = whole.flatMap (frame 2) ++ (frame 2 byte).take sent
  order : state.2.taken ++ state.1.uart.txFifo = state.2.written
  idleHigh : state.1.txQueued = false → state.2.driven.getLast?.getD true = true

/-- No first open in the middle of a frame. -/
def FrameKept (state : Device × TransmitLog) (action : Action) : Prop :=
  action = .openFile → state.1.uart.openCount = 0 → state.1.txQueued = true →
    state.1.uart.txChr.idx = -1

instance (state : Device × TransmitLog) (action : Action) : Decidable (FrameKept state action) :=
  inferInstanceAs (Decidable (_ → _))

/-- Between two frames, or `sent` levels into the frame of `byte`. -/
inductive TransmitPhase (s : Device) (log : TransmitLog) : Prop where
  | idle (idx : s.uart.txChr.idx = -1) (driven : log.driven = log.taken.flatMap (frame 2)) :
      TransmitPhase s log
  | sending (whole : List (BitVec 8)) (byte : BitVec 8) (sent : Nat) (queued : s.txQueued = true)
      (taken : log.taken = whole ++ [byte])
      (driven : log.driven = whole.flatMap (frame 2) ++ (frame 2 byte).take sent)
      (sending : Sending s.uart.txChr byte sent) : TransmitPhase s log

structure Transmitting (state : Device × TransmitLog) : Prop where
  phase : TransmitPhase state.1 state.2
  order : state.2.taken ++ state.1.uart.txFifo = state.2.written

theorem frames_end_high (bytes : List (BitVec 8)) :
    (bytes.flatMap (frame 2)).getLast?.getD true = true := by
  induction bytes using List.reverseRecOn with
  | nil => rfl
  | append_singleton front byte _ =>
      have last : frame 2 byte = (false :: (bits byte ++ [parity byte, true])) ++ [true] := by
        simp [frame]
      rw [List.flatMap_append, List.flatMap_singleton, last, ← List.append_assoc,
        List.getLast?_concat]
      rfl

theorem Transmitting.wellFormed {state : Device × TransmitLog} (inv : Transmitting state) :
    WellFormed state where
  frames := by
    cases inv.phase with
    | idle _ driven => exact .inl driven
    | sending whole byte sent queued taken driven sending =>
        exact .inr ⟨queued, whole, byte, sent, taken, sending.started, sending.unfinished, driven⟩
  order := inv.order
  idleHigh stopped := by
    cases inv.phase with
    | idle _ driven =>
        rw [driven]
        exact frames_end_high _
    | sending _ _ _ queued =>
        rw [stopped] at queued
        cases queued

/-- A step that leaves the character, the fifo and the log alone and stops no timer. -/
theorem Transmitting.keep {s next : Device} {log : TransmitLog} (inv : Transmitting (s, log))
    (txChr : next.uart.txChr = s.uart.txChr) (txFifo : next.uart.txFifo = s.uart.txFifo)
    (queued : next.txQueued = s.txQueued) : Transmitting (next, log) where
  phase := by
    cases inv.phase with
    | idle idx driven => exact .idle (by rw [txChr]; exact idx) driven
    | sending whole byte sent running taken driven sending =>
        refine .sending whole byte sent (by rw [queued]; exact running) taken driven ?_
        rw [txChr]
        exact sending
  order := by
    dsimp only
    rw [txFifo]
    exact inv.order

theorem transmitting_open {s : Device} {log : TransmitLog} (inv : Transmitting (s, log))
    (kept : FrameKept (s, log) .openFile) :
    Transmitting ({ s with uart := bitbangUartOpen s.uart, files := s.files + 1 }, log) := by
  by_cases first : s.uart.openCount = 0
  · refine ⟨?_, by dsimp only; rw [open_tx_fifo]; exact inv.order⟩
    have overwritten : (bitbangUartOpen s.uart).txChr.idx = -1 := by rw [(open_first first).1]
    cases inv.phase with
    | idle idx driven => exact .idle overwritten driven
    | sending whole byte sent queued taken driven sending =>
        have betweenFrames : s.uart.txChr.idx = -1 := kept rfl first queued
        have idx := sending.idx
        have started := sending.started
        dsimp only at idx
        omega
  · exact inv.keep (open_later first).1 (open_tx_fifo _) rfl

theorem transmitting_write {s : Device} {log : TransmitLog} (inv : Transmitting (s, log))
    (copied : List (BitVec 8)) (starts : Bool) :
    Transmitting ({ s with
        uart := { s.uart with txFifo := s.uart.txFifo ++ copied }
        txQueued := s.txQueued || starts },
      { log with
        written := log.written ++ (s.uart.txFifo ++ copied).drop s.uart.txFifo.length }) where
  phase := by
    cases inv.phase with
    | idle idx driven => exact .idle idx driven
    | sending whole byte sent queued taken driven sending =>
        refine .sending whole byte sent ?_ taken driven sending
        dsimp only at queued ⊢
        rw [queued, Bool.true_or]
  order := by
    have order : log.taken ++ s.uart.txFifo = log.written := inv.order
    dsimp only
    rw [List.drop_left, ← order, List.append_assoc]

/-- One expiration drives the next level of the frame, or takes the next byte. -/
theorem transmitting_tick {s : Device} {log : TransmitLog} (inv : Transmitting (s, log)) :
    Transmitting ({ s with
        uart := (txTimerCb s.uart).uart
        txQueued := (txTimerCb s.uart).ret = .restart },
      { log with
        taken := log.taken ++
          s.uart.txFifo.take (s.uart.txFifo.length - (txTimerCb s.uart).uart.txFifo.length)
        driven := log.driven ++ (txTimerCb s.uart).driven.toList }) := by
  have order : log.taken ++ s.uart.txFifo = log.written := inv.order
  cases inv.phase with
  | idle idx driven =>
      cases waiting : s.uart.txFifo with
      | nil =>
          rw [tx_fifo_empty idx waiting]
          refine ⟨.idle idx ?_, ?_⟩
          · simpa using driven
          · simpa [waiting] using order
      | cons byte remains =>
          rw [tx_start_bit idx waiting]
          refine ⟨.sending log.taken byte 1 rfl ?_ ?_ (start_sending byte), ?_⟩
          · simp
          · dsimp only at driven ⊢
            rw [driven]
            rfl
          · simpa [waiting] using order
  | sending whole byte sent _ taken driven sending =>
      dsimp only at taken driven
      by_cases inner : sent < 11
      · rw [tx_next_level sending inner]
        refine ⟨.sending whole byte (sent + 1) rfl ?_ ?_ (sending.advance inner), ?_⟩
        · simpa using taken
        · dsimp only
          rw [driven, List.append_assoc, ← List.take_add_one]
        · simpa using order
      · obtain rfl : sent = 11 := by
          have unfinished := sending.unfinished
          omega
        rw [tx_last_level sending]
        refine ⟨.idle rfl ?_, ?_⟩
        · have complete : (frame 2 byte).take 11 ++ [true] = frame 2 byte := by
            simp [frame, List.take_append]
          dsimp only
          rw [driven, Option.toList_some, List.append_assoc, complete]
          simp [taken]
        · simpa using order

theorem transmitting_step {s next : Device} {action : Action} {log : TransmitLog}
    (inv : Transmitting (s, log)) (kept : FrameKept (s, log) action)
    (taken : step s action = some next) :
    Transmitting (next, recordTransmit s action next log) := by
  cases step_cases taken with
  | openFile => exact transmitting_open inv kept
  | closeFile => exact inv.keep (close_kept _).2.1 (close_kept _).1 rfl
  | write bytes count copied => exact transmitting_write inv copied _
  | read => exact inv.keep rfl rfl rfl
  | fallingEdge => exact inv.keep rfl rfl rfl
  | txExpire => exact transmitting_tick inv
  | rxExpire v => exact inv.keep (rx_tick_keeps_tx _ v).1 (rx_tick_keeps_tx _ v).2 rfl

theorem first_open_transmitting {s : Device} (fresh : NeverOpened s) :
    Transmitting
      ({ s with uart := bitbangUartOpen s.uart, files := s.files + 1 }, ⟨[], [], []⟩) where
  phase := .idle (by rw [(open_first fresh.count).1]) rfl
  order := by
    rw [open_tx_fifo, fresh.txEmpty]
    rfl

theorem reachable_transmitting {periodMs : BitVec 32} {state : Device × TransmitLog}
    (reached : ((transmitSystem periodMs).restrict FrameKept).Reachable state) :
    (NeverOpened state.1 ∧ state.2 = ⟨[], [], []⟩) ∨ Transmitting state := by
  apply reached.invariant fun state =>
    (NeverOpened state.1 ∧ state.2 = ⟨[], [], []⟩) ∨ Transmitting state
  · exact .inl ⟨device_probed_never_opened periodMs, rfl⟩
  · apply StepSystem.restrict_observe_preserved
    intro s action next log before kept taken
    right
    rcases before with ⟨fresh, rfl⟩ | inv
    · obtain ⟨rfl, _⟩ := fresh.opens taken
      cases taken
      exact first_open_transmitting fresh
    · exact transmitting_step inv kept taken

theorem frames_length (bytes : List (BitVec 8)) :
    (bytes.flatMap (frame 2)).length = 12 * bytes.length := by
  induction bytes with
  | nil => rfl
  | cons byte rest ih =>
      rw [List.flatMap_cons, List.length_append, ih, frame_length, List.length_cons]
      omega

theorem cut_frame_length {whole : List (BitVec 8)} {byte : BitVec 8} {sent : Nat}
    (unfinished : sent < 12) :
    (whole.flatMap (frame 2) ++ (frame 2 byte).take sent).length = 12 * whole.length + sent := by
  rw [List.length_append, frames_length, List.length_take, frame_length]
  omega

/-- With the number of bytes taken, the number of levels tells whether the
levels can be well formed. -/
theorem WellFormed.lengths {state : Device × TransmitLog} (formed : WellFormed state) :
    state.2.driven.length = 12 * state.2.taken.length ∨
      state.1.txQueued = true ∧ 12 * state.2.taken.length < state.2.driven.length + 12 ∧
        state.2.driven.length < 12 * state.2.taken.length := by
  rcases formed.frames with frames | ⟨queued, whole, byte, sent, taken, started, unfinished, driven⟩
  · left
    rw [frames, frames_length]
  · right
    rw [driven, cut_frame_length unfinished, taken, List.length_append, List.length_singleton]
    exact ⟨queued, by omega, by omega⟩

theorem run_tx_expire (periodMs : BitVec 32) {s : Device} (log : TransmitLog)
    (queued : s.txQueued = true) :
    (transmitSystem periodMs).runFrom (s, log) [.txExpire] =
      some ({ s with
          uart := (txTimerCb s.uart).uart
          txQueued := (txTimerCb s.uart).ret = .restart },
        { log with
          taken := log.taken ++
            s.uart.txFifo.take (s.uart.txFifo.length - (txTimerCb s.uart).uart.txFifo.length)
          driven := log.driven ++ (txTimerCb s.uart).driven.toList }) := by
  simp [StepSystem.runFrom, transmitSystem, StepSystem.observe, device, step, queued,
    recordTransmit]

/-- The next expiration after such an open shows the damage. -/
theorem cut_frame_not_well_formed {periodMs : BitVec 32} {state next : Device × TransmitLog}
    (inv : Transmitting state) (cut : ¬FrameKept state .openFile)
    (taken : (transmitSystem periodMs).step state .openFile = some next) :
    ∃ final, (transmitSystem periodMs).runFrom next [.txExpire] = some final ∧
      ¬WellFormed final := by
  obtain ⟨s, log⟩ := state
  unfold FrameKept at cut
  push Not at cut
  obtain ⟨_, first, queued, started⟩ := cut
  cases taken
  have phase := inv.phase
  cases phase with
  | idle idx driven => exact absurd idx started
  | sending whole byte sent _ takenBytes driven sending =>
      have overwritten : (bitbangUartOpen s.uart).txChr.idx = -1 := by rw [(open_first first).1]
      have levels : log.driven.length = 12 * whole.length + sent := by
        rw [driven]
        exact cut_frame_length sending.unfinished
      have bytes : log.taken.length = whole.length + 1 := by
        dsimp only at takenBytes
        simp [takenBytes]
      have unfinished := sending.unfinished
      dsimp only at queued
      refine ⟨_, run_tx_expire periodMs _ queued, ?_⟩
      intro formed
      have lengths := formed.lengths
      dsimp only [recordTransmit] at lengths
      cases waiting : s.uart.txFifo with
      | nil =>
          have empty : (bitbangUartOpen s.uart).txFifo = [] := by rw [open_tx_fifo, waiting]
          simp [tx_fifo_empty overwritten empty, levels, bytes] at lengths
          omega
      | cons next remains =>
          have more : (bitbangUartOpen s.uart).txFifo = next :: remains := by
            rw [open_tx_fifo, waiting]
          simp [tx_start_bit overwritten more, more, levels, bytes] at lengths
          omega

/-- Transmission is well formed in every run that opens the device between
frames only; an open in the middle of a frame breaks it with the next tick. -/
theorem well_formed_transmission (periodMs : BitVec 32) :
    (∀ state, ((transmitSystem periodMs).restrict FrameKept).Reachable state →
        WellFormed state) ∧
      ∀ state next, ((transmitSystem periodMs).restrict FrameKept).Reachable state →
        ¬FrameKept state .openFile → (transmitSystem periodMs).step state .openFile = some next →
          ∃ final, (transmitSystem periodMs).runFrom next [.txExpire] = some final ∧
            ¬WellFormed final := by
  constructor
  · intro state reached
    rcases reachable_transmitting reached with ⟨fresh, silent⟩ | inv
    · rw [← Prod.eta state, silent]
      exact ⟨.inl rfl, fresh.txEmpty, fun _ => rfl⟩
    · exact inv.wellFormed
  · intro state next reached cut taken
    rcases reachable_transmitting reached with ⟨fresh, _⟩ | inv
    · refine absurd ?_ cut
      intro _ _ queued
      rw [fresh.txIdle] at queued
      cases queued
    · exact cut_frame_not_well_formed inv cut taken

/-- A close and a second open in the middle of a frame do no harm. -/
theorem well_formed_transmission_second_open :
    ∃ state : Device × TransmitLog, state.1.files = 1 ∧ state.2.driven.length = 14 ∧
      WellFormed state := by
  obtain ⟨state, reached, passes⟩ := StepSystem.reachable_of_run
    ((transmitSystem 10#32).restrict FrameKept)
    (([.openFile, .write [0x47#8, 0x00#8] 2] : List Action) ++
      List.replicate 5 Action.txExpire ++ ([.openFile, .closeFile] : List Action) ++
      List.replicate 9 Action.txExpire)
    (fun state => decide (state.1.files = 1 ∧ state.2.driven.length = 14)) (by decide +kernel)
  obtain ⟨files, driven⟩ := of_decide_eq_true passes
  exact ⟨state, files, driven, (well_formed_transmission 10#32).1 state reached⟩

/-- The last close and the next open fall between the second and the third level
of a frame: the timer stops with the line low. -/
theorem reopened_device_stops_low :
    ¬∀ (periodMs : BitVec 32) (state : Device × TransmitLog),
      (transmitSystem periodMs).Reachable state → WellFormed state := by
  intro always
  obtain ⟨state, reached, passes⟩ := StepSystem.reachable_of_run (transmitSystem 10#32)
    [.openFile, .write [0x00#8] 1, .txExpire, .txExpire, .closeFile, .openFile, .txExpire]
    (fun state => decide (state.1.txQueued = false ∧ state.2.driven = [false, false]))
    (by decide +kernel)
  obtain ⟨stopped, driven⟩ := of_decide_eq_true passes
  have high := (always 10#32 state reached).idleHigh stopped
  rw [driven] at high
  cases high

end Testings.Bitbang
