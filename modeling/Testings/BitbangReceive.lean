import Testings.BitbangDevice

/-!
# Receive framing over the whole life of the device

The log keeps what the receiver sees and does, in order. Each byte pushed comes
right after eleven samples that are its frame with one stop bit, and these come
right after the falling edge that started the timer. The last close leaves the
timer running, so the next first open can put samples in front of a byte that
no edge has announced.
-/

set_option autoImplicit false

namespace Testings.Bitbang

open AsyncSerial

inductive ReceiveEvent where
  | firstOpen
  | edge
  | sample (level : Bool)
  | push (byte : BitVec 8)
  deriving DecidableEq

/-- An edge is logged when the handler starts the timer for it. -/
def recordReceive (s : Device) (action : Action) (next : Device) (log : List ReceiveEvent) :
    List ReceiveEvent :=
  match action with
  | .openFile => if s.uart.openCount = 0 then log ++ [.firstOpen] else log
  | .fallingEdge val => if rxIrqHandler s.uart val then log ++ [.edge] else log
  | .rxExpire v => log ++ [.sample v] ++ (pushedByte s.uart next.uart).toList.map .push
  | _ => log

def receiveSystem (periodMs : BitVec 32) : StepSystem (Device × List ReceiveEvent) Action :=
  (device periodMs).observe [] recordReceive

/-- An accepted edge and the samples that have followed it without a break. -/
def SamplesAfterEdge (log : List ReceiveEvent) (samples : List Bool) : Prop :=
  ∃ before, log = before ++ .edge :: samples.map .sample

/-- In front of each push is an accepted edge and the samples of the byte's frame. -/
def WellFramed (log : List ReceiveEvent) : Prop :=
  ∀ front byte, front ++ [.push byte] <+: log → SamplesAfterEdge front (frame 1 byte)

/-- No first open while the receive timer is queued. -/
def ReceiverKept (state : Device × List ReceiveEvent) (action : Action) : Prop :=
  action = .openFile → state.1.uart.openCount = 0 → state.1.rxQueued = false

instance (state : Device × List ReceiveEvent) (action : Action) :
    Decidable (ReceiverKept state action) :=
  inferInstanceAs (Decidable (_ → _))

/-- Waiting for an edge, or some samples into a frame. -/
inductive ReceivePhase (s : Device) (log : List ReceiveEvent) : Prop where
  | idle (stopped : s.rxQueued = false) (idx : s.uart.rxChr.idx = -1) : ReceivePhase s log
  | sampling (seen : List Bool) (queued : s.rxQueued = true) (after : SamplesAfterEdge log seen)
      (sampled : Sampled s.uart.rxChr seen) : ReceivePhase s log

structure Receiving (state : Device × List ReceiveEvent) : Prop where
  phase : ReceivePhase state.1 state.2
  framed : WellFramed state.2
  bounded : state.1.uart.rxFifo.length ≤ fifoSize

theorem well_framed_nil : WellFramed [] := by
  intro front byte shorter
  have length := shorter.length_le
  simp at length

theorem WellFramed.concat {log : List ReceiveEvent} {event : ReceiveEvent}
    (framed : WellFramed log)
    (announced : ∀ byte, event = .push byte → SamplesAfterEdge log (frame 1 byte)) :
    WellFramed (log ++ [event]) := by
  intro front byte shorter
  rcases List.prefix_concat_iff.mp shorter with whole | inside
  · obtain ⟨rfl, last⟩ := List.append_inj' whole rfl
    cases last
    exact announced byte rfl
  · exact framed front byte inside

theorem samples_after_new_edge (log : List ReceiveEvent) : SamplesAfterEdge (log ++ [.edge]) [] :=
  ⟨log, rfl⟩

theorem SamplesAfterEdge.sample {log : List ReceiveEvent} {seen : List Bool}
    (after : SamplesAfterEdge log seen) (v : Bool) :
    SamplesAfterEdge (log ++ [.sample v]) (seen ++ [v]) := by
  obtain ⟨before, rfl⟩ := after
  refine ⟨before, ?_⟩
  simp

theorem Receiving.keep {s next : Device} {log : List ReceiveEvent} (inv : Receiving (s, log))
    (rxChr : next.uart.rxChr = s.uart.rxChr) (queued : next.rxQueued = s.rxQueued)
    (shorter : next.uart.rxFifo.length ≤ s.uart.rxFifo.length) :
    Receiving (next, log) where
  phase := by
    cases inv.phase with
    | idle stopped idx => exact .idle (by rw [queued]; exact stopped) (by rw [rxChr]; exact idx)
    | sampling seen running after sampled =>
        refine .sampling seen (by rw [queued]; exact running) after ?_
        rw [rxChr]
        exact sampled
  framed := inv.framed
  bounded := shorter.trans inv.bounded

theorem receiving_open {s : Device} {log : List ReceiveEvent} (inv : Receiving (s, log))
    (kept : ReceiverKept (s, log) .openFile) :
    Receiving ({ s with uart := bitbangUartOpen s.uart, files := s.files + 1 },
      if s.uart.openCount = 0 then log ++ [.firstOpen] else log) := by
  have fifo := open_rx_fifo s.uart
  by_cases first : s.uart.openCount = 0
  · rw [if_pos first] at fifo ⊢
    have stopped : s.rxQueued = false := kept rfl first
    have overwritten : (bitbangUartOpen s.uart).rxChr.idx = -1 := by rw [(open_first first).2]
    exact ⟨.idle stopped overwritten, inv.framed.concat (by nofun), by simp [fifo]⟩
  · rw [if_neg first] at fifo ⊢
    exact inv.keep (open_later first).2 rfl (by simp [fifo])

theorem receiving_edge {s : Device} {log : List ReceiveEvent} (inv : Receiving (s, log))
    (val : Bool) :
    Receiving ({ s with rxQueued := s.rxQueued || rxIrqHandler s.uart val },
      if rxIrqHandler s.uart val then log ++ [.edge] else log) := by
  cases accepted : rxIrqHandler s.uart val with
  | false => exact inv.keep rfl (Bool.or_false _) (Nat.le_refl _)
  | true =>
      have idle : s.uart.rxChr.idx = -1 := by
        simp only [rxIrqHandler, Bool.and_eq_true, beq_iff_eq] at accepted
        exact accepted.2
      refine ⟨.sampling [] (Bool.or_true _) (samples_after_new_edge log) (sampled_none idle), ?_,
        inv.bounded⟩
      exact inv.framed.concat (by nofun)

/-- A sample continues the frame or ends it; the last sample of a complete frame
pushes the byte of that frame. -/
theorem receiving_tick {s : Device} {log : List ReceiveEvent} (inv : Receiving (s, log))
    (queued : s.rxQueued = true) (v : Bool) :
    Receiving ({ s with
        uart := (rxTimerCb s.uart v).uart
        rxQueued := (rxTimerCb s.uart v).ret = .restart },
      log ++ [.sample v] ++ (pushedByte s.uart (rxTimerCb s.uart v).uart).toList.map .push) := by
  have sampledFramed : WellFramed (log ++ [.sample v]) := inv.framed.concat (by nofun)
  cases inv.phase with
  | idle stopped =>
      rw [stopped] at queued
      cases queued
  | sampling seen _ after sampled =>
      by_cases inner : seen.length < 10
      · by_cases falseStart : seen = [] ∧ v = true
        · obtain ⟨rfl, rfl⟩ := falseStart
          have idle : s.uart.rxChr.idx = -1 := by
            have idx := sampled.idx
            simp only [List.length_nil] at idx
            omega
          rw [rx_false_start idle, pushed_byte_none]
          · exact ⟨.idle rfl idle, by simpa using sampledFramed, inv.bounded⟩
          · rfl
        · have start : seen = [] → v = false := by
            intro nothing
            cases v with
            | false => rfl
            | true => exact absurd ⟨nothing, rfl⟩ falseStart
          obtain ⟨chr, tick, advanced⟩ := rx_next_sample sampled inner v start
          rw [tick, pushed_byte_none]
          · refine ⟨.sampling (seen ++ [v]) rfl ?_ advanced, by simpa using sampledFramed,
              inv.bounded⟩
            simpa using after.sample v
          · rfl
      · have full : seen.length = 10 := by
          have unfinished := sampled.unfinished
          omega
        by_cases complete : seen ++ [v] = frame 1 s.uart.rxChr.data
        · have held : HoldsNewest s.uart.rxFifo s.uart.rxFifo := ⟨List.suffix_rfl, inv.bounded⟩
          rw [rx_stop_pushed inv.bounded sampled full complete,
            rx_stop_complete sampled full complete]
          refine ⟨.idle rfl rfl, sampledFramed.concat ?_, (held.push _).bounded⟩
          intro byte pushed
          cases pushed
          rw [← complete]
          exact after.sample v
        · obtain ⟨stats, counted, tick⟩ := rx_stop_broken sampled full complete
          rw [tick, pushed_byte_none]
          · exact ⟨.idle rfl rfl, by simpa using sampledFramed, inv.bounded⟩
          · exact counted

theorem receiving_step {s next : Device} {action : Action} {log : List ReceiveEvent}
    (inv : Receiving (s, log)) (kept : ReceiverKept (s, log) action)
    (taken : step s action = some next) :
    Receiving (next, recordReceive s action next log) := by
  cases step_cases taken with
  | openFile => exact receiving_open inv kept
  | closeFile =>
      refine inv.keep (close_kept _).2.2 rfl ?_
      dsimp only
      rw [close_rx_fifo]
      split_ifs <;> simp
  | write => exact inv.keep rfl rfl (Nat.le_refl _)
  | read room count n => exact inv.keep rfl rfl (by simp)
  | fallingEdge val => exact receiving_edge inv val
  | txExpire =>
      have kept := tx_tick_keeps_rx s.uart
      exact inv.keep kept.1 rfl (by rw [kept.2])
  | rxExpire v queued => exact receiving_tick inv queued v

theorem first_open_receiving {s : Device} (fresh : NeverOpened s) :
    Receiving ({ s with uart := bitbangUartOpen s.uart, files := s.files + 1 }, [.firstOpen]) where
  phase := .idle fresh.rxIdle (by rw [(open_first fresh.count).2])
  framed := well_framed_nil.concat (by nofun)
  bounded := by simp [open_rx_fifo, fresh.count]

theorem reachable_receiving {periodMs : BitVec 32} {state : Device × List ReceiveEvent}
    (reached : ((receiveSystem periodMs).restrict ReceiverKept).Reachable state) :
    (NeverOpened state.1 ∧ state.2 = []) ∨ Receiving state := by
  apply reached.invariant fun state => (NeverOpened state.1 ∧ state.2 = []) ∨ Receiving state
  · exact .inl ⟨device_probed_never_opened periodMs, rfl⟩
  · apply StepSystem.restrict_observe_preserved
    intro s action next log before kept taken
    right
    rcases before with ⟨fresh, rfl⟩ | inv
    · obtain ⟨rfl, first⟩ := fresh.opens taken
      cases taken
      rw [recordReceive, if_pos first]
      exact first_open_receiving fresh
    · exact receiving_step inv kept taken

theorem step_rx_expire (periodMs : BitVec 32) {s : Device} (log : List ReceiveEvent) (v : Bool)
    (queued : s.rxQueued = true) :
    (receiveSystem periodMs).step (s, log) (.rxExpire v) =
      some ({ s with
          uart := (rxTimerCb s.uart v).uart
          rxQueued := (rxTimerCb s.uart v).ret = .restart },
        log ++ [.sample v] ++ (pushedByte s.uart (rxTimerCb s.uart v).uart).toList.map .push) := by
  simp [receiveSystem, StepSystem.observe, device, step, queued, recordReceive]

/-- Up to ten samples after a low first one only collect. -/
theorem run_samples (periodMs : BitVec 32) (rest : List Bool) (s : Device)
    (log : List ReceiveEvent) (seen : List Bool) (queued : s.rxQueued = true)
    (sampled : Sampled s.uart.rxChr seen) (room : seen.length + rest.length ≤ 10)
    (start : ∀ level ∈ (seen ++ rest).head?, level = false) :
    ∃ after, (receiveSystem periodMs).runFrom (s, log) (rest.map .rxExpire) =
        some (after, log ++ rest.map .sample) ∧
      after.rxQueued = true ∧ Sampled after.uart.rxChr (seen ++ rest) ∧
      after.uart.rxFifo = s.uart.rxFifo := by
  induction rest generalizing s log seen with
  | nil => exact ⟨s, by simp [StepSystem.runFrom], queued, by simpa using sampled, rfl⟩
  | cons v rest ih =>
      rw [List.length_cons] at room
      have low : seen = [] → v = false := by
        rintro rfl
        exact start v rfl
      obtain ⟨chr, tick, advanced⟩ := rx_next_sample sampled (by omega) v low
      have taken := step_rx_expire periodMs log v queued
      have silent : pushedByte s.uart (rxTimerCb s.uart v).uart = none :=
        pushed_byte_none (by rw [tick])
      rw [silent, tick] at taken
      obtain ⟨after, run, running, complete, fifo⟩ := ih
        { s with uart := { s.uart with rxChr := chr }, rxQueued := true } (log ++ [.sample v])
        (seen ++ [v]) rfl advanced (by simp; omega) (by simpa using start)
      refine ⟨after, ?_, running, by simpa using complete, fifo⟩
      rw [List.map_cons, StepSystem.run_from_cons_some]
      refine ⟨_, taken, ?_⟩
      simpa using run

/-- A queued timer at the start of a frame receives it, whatever it was queued for. -/
theorem run_frame (periodMs : BitVec 32) (byte : BitVec 8) (s : Device)
    (log : List ReceiveEvent) (queued : s.rxQueued = true) (idle : s.uart.rxChr.idx = -1)
    (empty : s.uart.rxFifo = []) :
    ∃ final, (receiveSystem periodMs).runFrom (s, log) ((frame 1 byte).map .rxExpire) =
        some final ∧ final.2 = log ++ (frame 1 byte).map .sample ++ [.push byte] := by
  have split : (frame 1 byte).take 10 ++ [true] = frame 1 byte := by
    simp [frame, List.take_append]
  obtain ⟨before, run, running, sampled, fifo⟩ :=
    run_samples periodMs ((frame 1 byte).take 10) s log [] queued (sampled_none idle) (by simp)
      (by simp [frame])
  rw [List.nil_append] at sampled
  have data : before.uart.rxChr.data = byte := sampled.frame_data
  have complete : (frame 1 byte).take 10 ++ [true] = frame 1 before.uart.rxChr.data := by
    rw [data]
    exact split
  have last := step_rx_expire periodMs (log ++ ((frame 1 byte).take 10).map .sample) true running
  have bounded : before.uart.rxFifo.length ≤ fifoSize := by simp [fifo, empty]
  rw [rx_stop_pushed bounded sampled (by simp) complete] at last
  rw [← split, List.map_append, StepSystem.run_from_append, run, Option.bind_some]
  refine ⟨_, StepSystem.run_from_cons_some.mpr ⟨_, last, rfl⟩, ?_⟩
  simp [data]

theorem not_framed_after_open (log : List ReceiveEvent) (byte : BitVec 8) :
    ¬WellFramed (log ++ [.firstOpen] ++ (frame 1 byte).map .sample ++ [.push byte]) := by
  intro framed
  obtain ⟨before, announced⟩ := framed _ byte (List.prefix_refl _)
  rw [List.append_cons before] at announced
  have opened := List.append_cancel_right announced
  have last := (List.append_inj' opened rfl).2
  cases last

/-- In every run that opens the device only while the receive timer is idle each
byte is framed; after any other first open a byte can come in without an edge. -/
theorem well_framed_reception (periodMs : BitVec 32) :
    (∀ state, ((receiveSystem periodMs).restrict ReceiverKept).Reachable state →
        WellFramed state.2) ∧
      ∀ state next, ¬ReceiverKept state .openFile →
        (receiveSystem periodMs).step state .openFile = some next →
          ∀ byte : BitVec 8, ∃ final,
            (receiveSystem periodMs).runFrom next ((frame 1 byte).map .rxExpire) = some final ∧
              ¬WellFramed final.2 := by
  constructor
  · intro state reached
    rcases reachable_receiving reached with ⟨_, silent⟩ | inv
    · rw [silent]
      exact well_framed_nil
    · exact inv.framed
  · intro state next pending taken byte
    obtain ⟨s, log⟩ := state
    unfold ReceiverKept at pending
    push Not at pending
    obtain ⟨_, first, queued⟩ := pending
    cases taken
    dsimp only [recordReceive] at first queued ⊢
    rw [if_pos first]
    have fifo := open_rx_fifo s.uart
    rw [if_pos first] at fifo
    have idle : (bitbangUartOpen s.uart).rxChr.idx = -1 := by rw [(open_first first).2]
    obtain ⟨final, run, recorded⟩ := run_frame periodMs byte
      { s with uart := bitbangUartOpen s.uart, files := s.files + 1 } (log ++ [.firstOpen])
      (by simpa using queued) idle fifo
    exact ⟨final, run, recorded ▸ not_framed_after_open log byte⟩

theorem well_framed_reception_after_reopen :
    ∃ state : Device × List ReceiveEvent,
      state.2 = [.firstOpen, .firstOpen, .edge] ++ (frame 1 0x47#8).map .sample ++ [.push 0x47#8] ∧
        WellFramed state.2 := by
  obtain ⟨state, reached, passes⟩ := StepSystem.reachable_of_run
    ((receiveSystem 10#32).restrict ReceiverKept)
    (([.openFile, .closeFile, .openFile, .fallingEdge false] : List Action) ++
      (frame 1 0x47#8).map Action.rxExpire)
    (fun state => decide (state.2 =
      ([.firstOpen, .firstOpen, .edge] : List ReceiveEvent) ++
        (frame 1 0x47#8).map ReceiveEvent.sample ++ ([.push 0x47#8] : List ReceiveEvent)))
    (by decide +kernel)
  exact ⟨state, of_decide_eq_true passes, (well_framed_reception 10#32).1 state reached⟩

/-- The last close and the next open fall into a character, whose timer goes on
and takes a later low level for a start bit. -/
theorem reopened_device_skips_edge :
    ¬∀ (periodMs : BitVec 32) (state : Device × List ReceiveEvent),
      (receiveSystem periodMs).Reachable state → WellFramed state.2 := by
  intro always
  obtain ⟨state, reached, passes⟩ := StepSystem.reachable_of_run (receiveSystem 10#32)
    (([.openFile, .fallingEdge false, .rxExpire false, .rxExpire true, .closeFile,
      .openFile] : List Action) ++ (frame 1 0x47#8).map Action.rxExpire)
    (fun state => decide (state.2 =
      ([.firstOpen, .edge, .sample false, .sample true] : List ReceiveEvent) ++
        ([.firstOpen] : List ReceiveEvent) ++ (frame 1 0x47#8).map ReceiveEvent.sample ++
        ([.push 0x47#8] : List ReceiveEvent)))
    (by decide +kernel)
  have log := of_decide_eq_true passes
  have framed := always 10#32 state reached
  rw [log] at framed
  exact not_framed_after_open _ _ framed

end Testings.Bitbang
