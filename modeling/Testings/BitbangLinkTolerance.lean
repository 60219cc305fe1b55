import Testings.BitbangLinkDelivery

/-!
# The tolerance is exact

Outside of it one byte of zeros gets lost: its frame keeps the line low up to the first stop
bit. A receiver that is too fast takes all its samples from the low line; one that is too slow
takes the parity bit from the high one. Where a sample and a change of the line fall on one
instant, the order that does the harm is possible.
-/

set_option autoImplicit false

namespace Testings.Bitbang

open AsyncSerial

theorem zero_frame_low {m : Nat} (inner : m ≤ 9) : (frame 2 (0 : BitVec 8))[m]? = some false := by
  have all : ∀ m : Fin 10, (frame 2 (0 : BitVec 8))[m.val]? = some false := by decide
  exact all ⟨m, by omega⟩

/-- The line does not fall inside the frame. -/
theorem zero_frame_rises {m : Nat} {before after : Bool}
    (here : (frame 2 (0 : BitVec 8))[m]? = some before)
    (there : (frame 2 (0 : BitVec 8))[m + 1]? = some after) : before = true → after = true := by
  have all : ∀ m : Fin 12, (frame 2 (0 : BitVec 8))[m.val]? = some true →
      (frame 2 (0 : BitVec 8))[m.val + 1]? ≠ some false := by
    decide
  intro high
  have bound := (List.getElem?_eq_some_iff.mp here).1
  rw [frame_length] at bound
  cases after with
  | true => rfl
  | false =>
      rw [high] at here
      exact absurd there (all ⟨m, bound⟩ here)

theorem edge_starts_rising (d : BitbangUart) {before after : Bool}
    (rises : before = true → after = true) : edgeStarts d before after = false := by
  cases before with
  | false => rfl
  | true =>
      rw [rises rfl]
      rfl

/-- A frame whose parity bit is sampled high is not the frame of zeros. -/
theorem not_zero_frame {seen : List Bool} {v : Bool} {data : BitVec 8} (full : seen.length = 10)
    (parityHigh : ∀ level, seen[9]? = some level → level = true)
    (complete : seen ++ [v] = frame 1 data) : data ≠ 0 := by
  intro zero
  have ninth : (frame 1 (0 : BitVec 8))[9]? = some false := by decide
  rw [← zero, ← complete, List.getElem?_append_left (by omega)] at ninth
  cases parityHigh false ninth

/-- Too fast, or too slow. -/
def OutOfStep (early : Bool) (bit half period : Nat) : Prop :=
  if early then half + 10 * period ≤ 10 * bit else 10 * bit ≤ half + 9 * period

inductive MissPhase (early : Bool) (s : Link) (log : LoopLog) : Prop where
  | waiting (txIdx : s.sender.txChr.idx = -1) (queued : s.sender.txFifo = [0])
      (high : s.level = true) (rxIdx : s.receiver.rxChr.idx = -1) (stopped : s.rxExpires = none)
      (pushed : log.pushed = []) : MissPhase early s log
  | low (base m : Nat) (seen : List Bool) (sent : s.sender.txFifo = []) (inner : m ≤ 9)
      (sending : Sending s.sender.txChr 0 (m + 1))
      (ticks : s.txExpires = some (base + (m + 1) * s.sender.period)) (level : s.level = false)
      (samples : s.rxExpires =
        some (base + s.receiver.halfPeriod + seen.length * s.receiver.period))
      (sampled : Sampled s.receiver.rxChr seen) (few : early = false → seen.length ≤ 9)
      (pushed : log.pushed = []) : MissPhase early s log
  | high (seen : List Bool) (sent : s.sender.txFifo = [])
      (stopping : s.sender.txChr.idx = -1 ∨ Sending s.sender.txChr 0 11) (level : s.level = true)
      (running : s.rxExpires ≠ none) (sampled : Sampled s.receiver.rxChr seen)
      (parityHigh : ∀ level, seen[9]? = some level → level = true)
      (pushed : log.pushed = []) : MissPhase early s log
  | passed (sent : s.sender.txFifo = [])
      (sender : s.sender.txChr.idx = -1 ∧ s.level = true ∨
        ∃ m, Sending s.sender.txChr 0 (m + 1) ∧
          (frame 2 (0 : BitVec 8))[m]? = some s.level)
      (rxIdx : s.receiver.rxChr.idx = -1) (stopped : s.rxExpires = none)
      (missed : log.pushed ≠ [0]) : MissPhase early s log

structure MissInv (early : Bool) (state : Link × LoopLog) : Prop where
  phase : MissPhase early state.1 state.2
  outOfStep : OutOfStep early state.1.sender.period state.1.receiver.halfPeriod
    state.1.receiver.period
  enabled : state.1.receiver.irqDepth = 0
  served : state.1.txExpires = none → state.1.sender.txFifo = []
  txOnTime : ∀ expires ∈ state.1.txExpires, state.1.now ≤ expires
  rxOnTime : ∀ expires ∈ state.1.rxExpires, state.1.now ≤ expires
  written : state.2.written = [0]
  bounded : state.1.receiver.rxFifo.length ≤ fifoSize

section tick

variable {early : Bool} {s : Link} {log : LoopLog}

/-- A tick that finds no byte leaves everything but the timer. -/
theorem miss_tx_stop (inv : MissInv early (s, log)) (txIdx : s.sender.txChr.idx = -1)
    (sent : s.sender.txFifo = [])
    (phase : MissPhase early { s with txExpires := none } log) :
    MissInv early (linkTxTicked s, linkTxTickedLog s log) := by
  have same : linkTxTickedLog s log = log := by
    simp [linkTxTickedLog, tx_fifo_empty txIdx sent]
  rw [same, linkTxTicked, tx_fifo_empty txIdx sent]
  dsimp only [Option.getD_none]
  rw [edge_starts_level]
  exact { inv with
    phase := phase
    served := fun _ => sent
    txOnTime := by
      intro expires member
      cases member }

theorem miss_tx_start (inv : MissInv early (s, log)) (txIdx : s.sender.txChr.idx = -1)
    (queued : s.sender.txFifo = [0]) (high : s.level = true)
    (rxIdx : s.receiver.rxChr.idx = -1) (pushed : log.pushed = []) :
    MissInv early (linkTxTicked s, linkTxTickedLog s log) := by
  have took : linkTxTickedLog s log = { log with taken := log.taken ++ [0] } := by
    simp [linkTxTickedLog, tx_start_bit txIdx queued, queued]
  rw [took, linkTxTicked, tx_start_bit txIdx queued, high]
  dsimp only [Option.getD_some]
  rw [edge_starts_idle (by exact inv.enabled) rxIdx, return_restart]
  refine { inv with
    phase := .low s.now 0 [] rfl (by decide) (start_sending 0) ?_ rfl ?_ (sampled_none rxIdx)
      (by intro; decide) pushed
    served := ?_, txOnTime := ?_, rxOnTime := ?_ }
  · dsimp only
    rw [Nat.zero_add, Nat.one_mul]
  · dsimp only [hrtimerStart, List.length_nil]
    rw [if_pos rfl, Nat.zero_mul, Nat.add_zero]
  · intro stopped
    cases stopped
  · intro expires member
    cases member
    exact Nat.le_add_right _ _
  · intro expires member
    cases member
    exact Nat.le_add_right _ _

/-- Inside the frame the line does not fall, so that the receiver does not see an edge. -/
theorem miss_tx_level (inv : MissInv early (s, log)) {m : Nat}
    (sending : Sending s.sender.txChr 0 (m + 1)) (inner : m < 10)
    (level : (frame 2 (0 : BitVec 8))[m]? = some s.level)
    (phase : ∀ level, (frame 2 (0 : BitVec 8))[m + 1]? = some level →
      MissPhase early { s with
        sender := { s.sender with txChr := { s.sender.txChr with idx := s.sender.txChr.idx + 1 } }
        level := level
        txExpires := some (s.now + s.sender.period) } log) :
    MissInv early (linkTxTicked s, linkTxTickedLog s log) ∧
      edgeStarts s.receiver s.level ((txTimerCb s.sender).driven.getD s.level) = false := by
  have position : m + 1 < (frame 2 (0 : BitVec 8)).length := by
    rw [frame_length]
    omega
  have driven := List.getElem?_eq_getElem position
  have quiet : edgeStarts s.receiver s.level (frame 2 (0 : BitVec 8))[m + 1] = false :=
    edge_starts_rising _ (zero_frame_rises level driven)
  have same : linkTxTickedLog s log = log := by
    simp [linkTxTickedLog, tx_next_level sending (by omega)]
  rw [same, linkTxTicked, tx_next_level sending (by omega), driven]
  dsimp only [Option.getD_some]
  rw [quiet, return_restart]
  refine ⟨{ inv with phase := phase _ driven, served := ?_, txOnTime := ?_ }, rfl⟩
  · intro stopped
    cases stopped
  · intro expires member
    cases member
    exact Nat.le_add_right _ _

/-- The second stop bit leaves the line high. -/
theorem miss_tx_last (inv : MissInv early (s, log)) (sending : Sending s.sender.txChr 0 11)
    (high : s.level = true)
    (phase : MissPhase early { s with
      sender := { s.sender with
        txChr := { s.sender.txChr with idx := -1 }
        stats := { s.sender.stats with txCounter := s.sender.stats.txCounter + 1 } }
      level := true
      txExpires := some (s.now + s.sender.period) } log) :
    MissInv early (linkTxTicked s, linkTxTickedLog s log) ∧
      edgeStarts s.receiver s.level ((txTimerCb s.sender).driven.getD s.level) = false := by
  have same : linkTxTickedLog s log = log := by
    simp [linkTxTickedLog, tx_last_level sending]
  rw [same, linkTxTicked, tx_last_level sending, high]
  dsimp only [Option.getD_some]
  rw [edge_starts_level, return_restart]
  refine ⟨{ inv with phase := phase, served := ?_, txOnTime := ?_ }, rfl⟩
  · intro stopped
    cases stopped
  · intro expires member
    cases member
    exact Nat.le_add_right _ _

theorem miss_tx_tick (inv : MissInv early (s, log)) (expired : s.txExpires = some s.now)
    (first : early = true → ∀ sample ∈ s.rxExpires, s.now < sample) :
    MissInv early (linkTxTicked s, linkTxTickedLog s log) ∧
      linkWork (linkTxTicked s) < linkWork s := by
  have outOfStep := inv.outOfStep
  have rxOnTime := inv.rxOnTime
  dsimp only at outOfStep rxOnTime
  cases inv.phase with
  | waiting txIdx queued high rxIdx stopped pushed =>
      exact ⟨miss_tx_start inv txIdx queued high rxIdx pushed,
        start_tick_work txIdx queued expired inv.enabled rxIdx stopped high⟩
  | low base m seen sent inner sending ticks level samples sampled few pushed =>
      have here : (frame 2 (0 : BitVec 8))[m]? = some s.level := by
        rw [level]
        exact zero_frame_low inner
      have due : s.now = base + (m + 1) * s.sender.period :=
        Option.some.inj (expired.symm.trans ticks)
      have ticked := miss_tx_level inv sending (by omega) here ?_
      · exact ⟨ticked.1, sending_tick_work sending expired ticked.2⟩
      intro after driven
      by_cases more : m + 1 ≤ 9
      · rw [zero_frame_low more] at driven
        cases driven
        refine .low base (m + 1) seen sent more (sending.advance (by omega)) ?_ rfl samples sampled
          few pushed
        dsimp only
        rw [due, Nat.add_assoc, ← Nat.succ_mul]
      · -- the stop bit: a receiver that is too fast is done, one that is too slow is behind
        obtain rfl : m = 9 := by omega
        have stopBit : (frame 2 (0 : BitVec 8))[10]? = some true := by decide
        obtain rfl : after = true := Option.some.inj (driven.symm.trans stopBit)
        refine .high seen sent (.inr (sending.advance (by omega))) rfl ?_ sampled ?_ pushed
        · rw [show _ = _ from samples]
          nofun
        · have short : seen.length ≤ 9 := by
            cases early with
            | false => exact few rfl
            | true =>
                have pending := first rfl _ samples
                have unfinished := Nat.mul_le_mul_right s.receiver.period sampled.unfinished
                have harm : s.receiver.halfPeriod + 10 * s.receiver.period ≤
                    10 * s.sender.period := outOfStep
                dsimp only at pending
                omega
          intro level ninth
          rw [List.getElem?_eq_none (by omega)] at ninth
          cases ninth
  | high seen sent stopping level running sampled parityHigh pushed =>
      rcases stopping with txIdx | sending
      · exact ⟨miss_tx_stop inv txIdx sent
          (.high seen sent (.inl txIdx) level running sampled parityHigh pushed),
          empty_tick_work txIdx sent expired⟩
      · have ticked := miss_tx_last inv sending level
          (.high seen sent (.inl rfl) rfl running sampled parityHigh pushed)
        exact ⟨ticked.1, sending_tick_work sending expired ticked.2⟩
  | passed sent sender rxIdx stopped missed =>
      rcases sender with ⟨txIdx, high⟩ | ⟨m, sending, level⟩
      · exact ⟨miss_tx_stop inv txIdx sent (.passed sent (.inl ⟨txIdx, high⟩) rxIdx stopped missed),
          empty_tick_work txIdx sent expired⟩
      · by_cases inner : m < 10
        · have ticked := miss_tx_level inv sending inner level fun after driven =>
            .passed sent (.inr ⟨m + 1, sending.advance (by omega), driven⟩) rxIdx stopped missed
          exact ⟨ticked.1, sending_tick_work sending expired ticked.2⟩
        · obtain rfl : m = 10 := by
            have unfinished := sending.unfinished
            omega
          have stopBit : (frame 2 (0 : BitVec 8))[10]? = some true := by decide
          have high : s.level = true := Option.some.inj (level.symm.trans stopBit)
          have ticked := miss_tx_last inv sending high
            (.passed sent (.inl ⟨rfl, rfl⟩) rxIdx stopped missed)
          exact ⟨ticked.1, sending_tick_work sending expired ticked.2⟩

/-- A sample that restarts the timer. -/
theorem miss_rx_next (inv : MissInv early (s, log)) {seen : List Bool}
    (sampled : Sampled s.receiver.rxChr seen) (inner : seen.length < 10)
    (start : seen = [] → s.level = false)
    (phase : ∀ chr, Sampled chr (seen ++ [s.level]) →
      MissPhase early { s with
        receiver := { s.receiver with rxChr := chr }
        rxExpires := some (s.now + s.receiver.period) } log) :
    MissInv early (linkRxTicked s, linkRxTickedLog s log) := by
  rcases rx_next_sample sampled inner s.level start with ⟨chr, ticked, advanced⟩
  have same : linkRxTickedLog s log = log := by
    simp [linkRxTickedLog, ticked, pushed_byte_none]
  rw [same, linkRxTicked, ticked]
  dsimp only
  rw [return_restart]
  refine { inv with phase := phase chr advanced, rxOnTime := ?_ }
  intro expires member
  cases member
  exact Nat.le_add_right _ _

theorem sample_not_pushed {tick : RxTick} (ticked : rxTimerCb s.receiver s.level = tick)
    (same : tick.uart.stats.rxCounter = s.receiver.stats.rxCounter) :
    pushedByte s.receiver (rxTimerCb s.receiver s.level).uart ≠ some 0 := by
  rw [ticked, pushed_byte_none same]
  nofun

/-- A sample that ends what the receiver has taken for a frame, without the byte of zeros. -/
theorem miss_rx_last (inv : MissInv early (s, log)) {rxChr : BitbangChr}
    {rxFifo : List (BitVec 8)} {stats : BitbangStats} {wakes : Bool}
    (ticked : rxTimerCb s.receiver s.level =
      ⟨{ s.receiver with rxChr := rxChr, rxFifo := rxFifo, stats := stats }, wakes, .norestart⟩)
    (idx : rxChr.idx = -1) (bounded : rxFifo.length ≤ fifoSize)
    (other : pushedByte s.receiver (rxTimerCb s.receiver s.level).uart ≠ some 0)
    (pushed : log.pushed = [])
    (sent : s.sender.txFifo = [])
    (sender : s.sender.txChr.idx = -1 ∧ s.level = true ∨
      ∃ m, Sending s.sender.txChr 0 (m + 1) ∧ (frame 2 (0 : BitVec 8))[m]? = some s.level) :
    MissInv early (linkRxTicked s, linkRxTickedLog s log) := by
  have missed : (linkRxTickedLog s log).pushed ≠ [0] := by
    unfold linkRxTickedLog
    dsimp only
    rw [pushed, List.nil_append]
    intro zero
    exact other (Option.toList_eq_singleton_iff.mp zero)
  rw [linkRxTicked, ticked]
  refine { inv with
    phase := .passed sent sender idx rfl missed, rxOnTime := ?_, bounded := bounded }
  · intro expires member
    cases member

theorem miss_rx_tick (inv : MissInv early (s, log)) (expired : s.rxExpires = some s.now)
    (first : early = false → ∀ tick ∈ s.txExpires, s.now < tick) :
    MissInv early (linkRxTicked s, linkRxTickedLog s log) ∧
      linkWork (linkRxTicked s) < linkWork s := by
  have outOfStep := inv.outOfStep
  dsimp only at outOfStep
  cases inv.phase with
  | waiting txIdx queued high rxIdx stopped =>
      rw [show s.rxExpires = none from stopped] at expired
      cases expired
  | low base m seen sent inner sending ticks level samples sampled few pushed =>
      have due : s.now = base + s.receiver.halfPeriod + seen.length * s.receiver.period :=
        Option.some.inj (expired.symm.trans samples)
      by_cases more : seen.length < 10
      · refine ⟨miss_rx_next inv sampled more (fun _ => level) ?_,
          sample_work sampled more (fun _ => level) expired⟩
        intro chr advanced
        refine .low base m (seen ++ [s.level]) sent inner sending ticks level ?_ advanced ?_ pushed
        · dsimp only
          rw [due, List.length_append, List.length_singleton, Nat.succ_mul, ← Nat.add_assoc]
        · -- the parity bit would have been sampled before the stop bit began
          intro late
          have pending := first late _ ticks
          have harm : 10 * s.sender.period ≤ s.receiver.halfPeriod + 9 * s.receiver.period := by
            rw [late] at outOfStep
            exact outOfStep
          have bits := Nat.mul_le_mul_right s.sender.period (Nat.add_le_add_right inner 1)
          have few := few late
          rw [List.length_append, List.length_singleton]
          by_contra many
          have nine : seen.length = 9 := by omega
          rw [nine] at due
          dsimp only at pending
          omega
      · have full : seen.length = 10 := by
          have unfinished := sampled.unfinished
          omega
        have broken : seen ++ [s.level] ≠ frame 1 s.receiver.rxChr.data := by
          intro complete
          have high := ((complete_frame_iff sampled full s.level).mp complete).1
          rw [show s.level = false from level] at high
          cases high
        rcases rx_stop_broken sampled full broken with ⟨stats, counted, ticked⟩
        refine ⟨miss_rx_last inv ticked rfl inv.bounded (sample_not_pushed ticked counted) pushed
          sent (.inr ⟨m, sending, ?_⟩), ?_⟩
        · rw [show s.level = false from level]
          exact zero_frame_low inner
        · have idx := sampled.idx
          apply last_sample_work (by rw [ticked]) _ expired
          dsimp only at idx
          omega
  | high seen sent stopping level running sampled parityHigh pushed =>
      have stopBit : (frame 2 (0 : BitVec 8))[10]? = some true := by decide
      have sender : s.sender.txChr.idx = -1 ∧ s.level = true ∨
          ∃ m, Sending s.sender.txChr 0 (m + 1) ∧
            (frame 2 (0 : BitVec 8))[m]? = some s.level := by
        rcases stopping with txIdx | sending
        · exact .inl ⟨txIdx, level⟩
        · rw [show s.level = true from level]
          exact .inr ⟨10, sending, stopBit⟩
      have idx := sampled.idx
      have unfinished := sampled.unfinished
      dsimp only at idx
      rcases Nat.lt_or_eq_of_le unfinished with more | full
      · by_cases nothing : seen = []
        · -- the start bit is over before the first sample
          rw [nothing, List.length_nil] at idx
          have rxIdx : s.receiver.rxChr.idx = -1 := by omega
          have ticked := rx_false_start rxIdx
          rw [← show s.level = true from level] at ticked
          have unpushed := sample_not_pushed ticked rfl
          exact ⟨miss_rx_last inv ticked rxIdx inv.bounded unpushed pushed sent sender,
            last_sample_work (by rw [ticked]) (by omega) expired⟩
        · have start : seen = [] → s.level = false := fun none => absurd none nothing
          refine ⟨miss_rx_next inv sampled more start ?_,
            sample_work sampled more start expired⟩
          intro chr advanced
          refine .high (seen ++ [s.level]) sent stopping level (by nofun) advanced ?_ pushed
          intro bit ninth
          by_cases old : 9 < seen.length
          · rw [List.getElem?_append_left old] at ninth
            exact parityHigh bit ninth
          · have bound := (List.getElem?_eq_some_iff.mp ninth).1
            rw [List.length_append, List.length_singleton] at bound
            have here : seen.length = 9 := by omega
            rw [List.getElem?_append_right (by omega), here] at ninth
            exact (Option.some.inj ninth).symm.trans level
      · have inside : s.receiver.rxChr.idx ≤ 9 := by omega
        by_cases complete : seen ++ [s.level] = frame 1 s.receiver.rxChr.data
        · have ticked := rx_stop_complete sampled full complete
          have other := not_zero_frame full parityHigh complete
          have held : HoldsNewest s.receiver.rxFifo s.receiver.rxFifo :=
            ⟨List.suffix_rfl, inv.bounded⟩
          have last := rx_stop_pushed inv.bounded sampled full complete
          refine ⟨miss_rx_last inv ticked rfl (held.push _).bounded ?_ pushed sent sender, ?_⟩
          · rw [last]
            exact fun zero => other (Option.some.inj zero)
          · exact last_sample_work (by rw [ticked]) inside expired
        · rcases rx_stop_broken sampled full complete with ⟨stats, counted, ticked⟩
          exact ⟨miss_rx_last inv ticked rfl inv.bounded (sample_not_pushed ticked counted) pushed
            sent sender, last_sample_work (by rw [ticked]) inside expired⟩
  | passed sent sender rxIdx stopped =>
      rw [show s.rxExpires = none from stopped] at expired
      cases expired

end tick

theorem miss_wait {early : Bool} {s : Link} {log : LoopLog} (inv : MissInv early (s, log))
    {due : Nat} (tx : ∀ expires ∈ s.txExpires, due ≤ expires)
    (rx : ∀ expires ∈ s.rxExpires, due ≤ expires) :
    MissInv early ({ s with now := due }, log) := by
  refine { inv with phase := ?_, txOnTime := tx, rxOnTime := rx }
  cases inv.phase with
  | waiting txIdx queued high rxIdx stopped pushed =>
      exact .waiting txIdx queued high rxIdx stopped pushed
  | low base m seen sent inner sending ticks level samples sampled few pushed =>
      exact .low base m seen sent inner sending ticks level samples sampled few pushed
  | high seen sent stopping level running sampled parityHigh pushed =>
      exact .high seen sent stopping level running sampled parityHigh pushed
  | passed sent sender rxIdx stopped missed => exact .passed sent sender rxIdx stopped missed

/-- The next timer event, in the order that does the harm. -/
theorem miss_next_event (bit period : Nat) {early : Bool} {s : Link} {log : LoopLog}
    (inv : MissInv early (s, log)) (running : ¬(s.txExpires = none ∧ s.rxExpires = none)) :
    ∃ actions after log', (linkSystem bit period).runFrom (s, log) actions = some (after, log') ∧
      linkWork after < linkWork s ∧ MissInv early (after, log') := by
  -- a tick may go first where no sample comes before it, nor with it to a fast receiver
  have tickFirst (tick : Nat) (ticking : s.txExpires = some tick)
      (clear : ∀ sample ∈ s.rxExpires, tick ≤ sample)
      (first : early = true → ∀ sample ∈ s.rxExpires, tick < sample) :
      ∃ actions after log', (linkSystem bit period).runFrom (s, log) actions =
        some (after, log') ∧ linkWork after < linkWork s ∧ MissInv early (after, log') := by
    have toTick : ∀ expires ∈ s.txExpires, tick ≤ expires := by
      intro expires member
      rw [ticking] at member
      exact (Option.some.inj member).le
    have ticked := miss_tx_tick (miss_wait inv toTick clear) ticking first
    exact ⟨_, _, _, link_run_tx bit period log (inv.txOnTime tick ticking) ticking clear, ticked.2,
      ticked.1⟩
  have sampleFirst (sample : Nat) (pending : s.rxExpires = some sample)
      (clear : ∀ tick ∈ s.txExpires, sample ≤ tick)
      (first : early = false → ∀ tick ∈ s.txExpires, sample < tick) :
      ∃ actions after log', (linkSystem bit period).runFrom (s, log) actions =
        some (after, log') ∧ linkWork after < linkWork s ∧ MissInv early (after, log') := by
    have toSample : ∀ expires ∈ s.rxExpires, sample ≤ expires := by
      intro expires member
      rw [pending] at member
      exact (Option.some.inj member).le
    have sampled := miss_rx_tick (miss_wait inv clear toSample) pending first
    exact ⟨_, _, _, link_run_rx bit period log (inv.rxOnTime sample pending) pending clear,
      sampled.2, sampled.1⟩
  cases ticking : s.txExpires with
  | none =>
      cases pending : s.rxExpires with
      | none => exact absurd ⟨ticking, pending⟩ running
      | some sample =>
          refine sampleFirst sample pending ?_ ?_ <;> rw [ticking] <;> nofun
  | some tick =>
      cases pending : s.rxExpires with
      | none =>
          refine tickFirst tick ticking ?_ ?_ <;> rw [pending] <;> nofun
      | some sample =>
          rcases Nat.lt_trichotomy tick sample with before | same | behind
          · refine tickFirst tick ticking ?_ ?_ <;> rw [pending]
            · rintro _ ⟨⟩
              exact before.le
            · rintro _ _ ⟨⟩
              exact before
          · cases early with
            | true =>
                refine sampleFirst sample pending ?_ (by nofun)
                rw [ticking]
                rintro _ ⟨⟩
                exact same.ge
            | false =>
                refine tickFirst tick ticking ?_ (by nofun)
                rw [pending]
                rintro _ ⟨⟩
                exact same.le
          · refine sampleFirst sample pending ?_ ?_ <;> rw [ticking]
            · rintro _ ⟨⟩
              exact behind.le
            · rintro _ _ ⟨⟩
              exact behind

theorem miss_comes_to_rest (bit period work : Nat) {early : Bool} {s : Link} {log : LoopLog}
    (inv : MissInv early (s, log)) (bound : linkWork s ≤ work) :
    ∃ actions final, (linkSystem bit period).runFrom (s, log) actions = some final ∧
      (final.1.txExpires = none ∧ final.1.rxExpires = none) ∧ MissInv early final := by
  induction work generalizing s log with
  | zero =>
      by_cases rest : s.txExpires = none ∧ s.rxExpires = none
      · exact ⟨[], (s, log), rfl, rest, inv⟩
      · rcases miss_next_event bit period inv rest with ⟨_, _, _, _, less, _⟩
        omega
  | succ work ih =>
      by_cases rest : s.txExpires = none ∧ s.rxExpires = none
      · exact ⟨[], (s, log), rfl, rest, inv⟩
      · rcases miss_next_event bit period inv rest with ⟨event, after, log', run, less, kept⟩
        rcases ih kept (by omega) with ⟨others, final, more, stopped, missed⟩
        refine ⟨event ++ others, final, ?_, stopped, missed⟩
        rw [StepSystem.run_from_append, run, Option.bind_some]
        exact more

/-- At rest the byte of zeros has been lost. -/
theorem MissInv.lost {early : Bool} {state : Link × LoopLog} (inv : MissInv early state)
    (txRest : state.1.txExpires = none) (rxRest : state.1.rxExpires = none) :
    state.2.pushed ≠ state.2.written := by
  rw [inv.written]
  cases inv.phase with
  | waiting _ queued =>
      rw [inv.served txRest] at queued
      cases queued
  | low base m seen sent inner sending ticks level samples =>
      rw [rxRest] at samples
      cases samples
  | high seen sent stopping level running => exact absurd rxRest running
  | passed sent sender rxIdx stopped missed => exact missed

/-- The byte of zeros, written and not yet begun. -/
def zeroWritten (bit period : Nat) : Link where
  sender := { uartOpened bit with txFifo := [0] }
  receiver := uartOpened period
  now := 0
  level := true
  txExpires := some (0 + bit)
  rxExpires := none

theorem zero_written_run (bit period : Nat) :
    (linkSystem bit period).run [.write [0] 1] = some (zeroWritten bit period, ⟨[0], [], []⟩) :=
  rfl

theorem zero_written_miss {early : Bool} {bit period : Nat}
    (outOfStep : OutOfStep early bit (period / 2) period) :
    MissInv early (zeroWritten bit period, ⟨[0], [], []⟩) where
  phase := .waiting rfl rfl rfl rfl rfl rfl
  outOfStep := outOfStep
  enabled := rfl
  served := by nofun
  txOnTime := by
    intro expires member
    cases member
    exact Nat.le_add_right _ _
  rxOnTime := by nofun
  written := rfl
  bounded := Nat.zero_le _

theorem out_of_step_loses {early : Bool} {bit period : Nat}
    (outOfStep : OutOfStep early bit (period / 2) period) :
    ∃ state, (linkSystem bit period).Reachable state ∧ state.1.txExpires = none ∧
      state.1.rxExpires = none ∧ state.2.pushed ≠ state.2.written := by
  rcases miss_comes_to_rest bit period _ (zero_written_miss outOfStep) (Nat.le_refl _) with
    ⟨actions, final, run, ⟨txRest, rxRest⟩, missed⟩
  refine ⟨final, ⟨.write [0] 1 :: actions, ?_⟩, txRest, rxRest, missed.lost txRest rxRest⟩
  have written := zero_written_run bit period
  rw [StepSystem.run, ← List.singleton_append, StepSystem.run_from_append]
  rw [StepSystem.run] at written
  rw [written, Option.bind_some]
  exact run

/-- Two devices get all bytes across in every run exactly within the tolerance. -/
theorem link_exact (bit period : Nat) :
    (∀ state, (linkSystem bit period).Reachable state → state.1.txExpires = none →
      state.1.rxExpires = none → state.2.pushed = state.2.written) ↔ InTolerance bit period := by
  constructor
  · intro delivers
    by_contra outside
    have lost (early : Bool) (outOfStep : OutOfStep early bit (period / 2) period) : False := by
      rcases out_of_step_loses outOfStep with ⟨state, reached, txRest, rxRest, missed⟩
      exact missed (delivers state reached txRest rxRest)
    rcases not_and_or.mp outside with fast | slow
    · exact lost true (Nat.le_of_not_lt fast)
    · exact lost false (Nat.le_of_not_lt slow)
  · intro inTolerance state reached txRest _
    exact (reachable_link_inv inTolerance reached).sound.finished txRest

end Testings.Bitbang
