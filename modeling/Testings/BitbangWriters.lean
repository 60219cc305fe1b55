import Testings.StepSystem
import Testings.BitbangUart
import Mathlib.Data.Fintype.Basic
import Mathlib.Logic.Function.Basic

/-!
# Writers and the transmit timer

A writer copies into `tx_fifo` under the lock and later starts the timer unless
it is active; the callback decides under the lock whether it goes on, and the
timer stays active until it has returned. A writer that tests between the
decision to stop and the return leaves its bytes to nobody. Without such a test
a byte in the fifo always has someone left to serve it.
-/

set_option autoImplicit false

namespace Testings.Bitbang

/-- Between its copy and its test a writer remembers how many bytes it has copied. -/
inductive Writer where
  | idle
  | copied (bytes : Nat)
  deriving DecidableEq

inductive TxTimer where
  | inactive
  | queued
  | entered
  | returning (ret : HrtimerRestart)
  deriving DecidableEq

/-- `hrtimer_active`. -/
def TxTimer.active : TxTimer → Bool
  | .inactive => false
  | _ => true

def TxTimer.executing : TxTimer → Bool
  | .entered | .returning _ => true
  | _ => false

structure Writers (count : Nat) where
  uart : BitbangUart
  timer : TxTimer
  writer : Fin count → Writer

inductive WriterAction (count : Nat) where
  | copy (w : Fin count) (bytes : List (BitVec 8)) (size : Nat)
  | test (w : Fin count)
  | expire
  | callback
  | callbackReturn

def writersStep {count : Nat} (s : Writers count) : WriterAction count → Option (Writers count)
  | .copy w bytes size => match s.writer w with
      | .idle =>
          let out := bitbangTxCopy s.uart bytes size
          some { s with
            uart := out.1
            writer := Function.update s.writer w (.copied out.2.1) }
      | _ => none
  | .test w => match s.writer w with
      | .copied copied =>
          some { s with
            timer := if bitbangTxStarts copied s.timer.active then .queued else s.timer
            writer := Function.update s.writer w .idle }
      | _ => none
  | .expire => match s.timer with
      | .queued => some { s with timer := .entered }
      | _ => none
  | .callback => match s.timer with
      | .entered =>
          let tick := txTimerCb s.uart
          some { s with uart := tick.uart, timer := .returning tick.ret }
      | _ => none
  | .callbackReturn => match s.timer with
      | .returning ret =>
          some { s with timer := if ret = .restart then .queued else .inactive }
      | _ => none

/-- Any number of writers on a device that has been opened. The wait for room in
front of the copy is left out: with no room the copy copies nothing. -/
def writers (periodMs : BitVec 32) (count : Nat) :
    StepSystem (Writers count) (WriterAction count) where
  start :=
    { uart := bitbangUartOpen (bitbangUartInit periodMs)
      timer := .inactive
      writer := fun _ => .idle }
  step := writersStep

/-- A byte in the fifo has the timer queued, once nobody is at work. -/
def NoByteStuck {count : Nat} (s : Writers count) : Prop :=
  (∀ w, s.writer w = .idle) → s.timer.executing = false → s.uart.txFifo ≠ [] → s.timer = .queued

/-- The writer will start the timer if it finds it inactive. -/
def Writer.pending : Writer → Bool
  | .copied bytes => bytes != 0
  | .idle => false

/-- A writer of bytes that are still there does not test after the callback has
decided to stop and before it has returned, unless another such writer is left. -/
def TestHeard {count : Nat} (s : Writers count) : WriterAction count → Prop
  | .test w => (s.writer w).pending = true → s.timer = .returning .norestart →
      s.uart.txFifo ≠ [] → ∃ other, other ≠ w ∧ (s.writer other).pending = true
  | _ => True

instance {count : Nat} (s : Writers count) : (action : WriterAction count) →
    Decidable (TestHeard s action)
  | .test _ => inferInstanceAs (Decidable (_ → _ → _ → _))
  | .copy _ _ _ | .expire | .callback | .callbackReturn => isTrue trivial

def IdxInRange (d : BitbangUart) : Prop := -1 ≤ d.txChr.idx ∧ d.txChr.idx ≤ 10

theorem tick_idx_in_range {d : BitbangUart} (range : IdxInRange d) :
    IdxInRange (txTimerCb d).uart := by
  unfold IdxInRange at *
  unfold txTimerCb
  dsimp only
  split_ifs with outside idle
  · omega
  · cases d.txFifo with
    | nil => exact range
    | cons byte remains =>
        dsimp only
        omega
  all_goals
    dsimp only
    omega

/-- The callback decides to stop only when it has found the fifo empty. -/
theorem tick_stops {d : BitbangUart} (range : IdxInRange d)
    (stops : (txTimerCb d).ret = .norestart) : (txTimerCb d).uart.txFifo = [] := by
  have inside : ¬(10 < d.txChr.idx ∨ d.txChr.idx < -1) := by
    unfold IdxInRange at range
    omega
  revert stops
  unfold txTimerCb
  dsimp only
  rw [if_neg inside]
  split_ifs
  · cases waiting : d.txFifo with
    | nil => exact fun _ => waiting
    | cons byte remains => nofun
  all_goals nofun

/-- The timer is going to look into the fifo again. -/
def TxTimer.looks : TxTimer → Bool
  | .queued | .entered | .returning .restart => true
  | _ => false

structure WritersInv {count : Nat} (s : Writers count) : Prop where
  range : IdxInRange s.uart
  served : s.uart.txFifo ≠ [] → s.timer.looks = true ∨ ∃ w, (s.writer w).pending = true

theorem writers_start (periodMs : BitVec 32) (count : Nat) :
    WritersInv (writers periodMs count).start := by
  have fresh : (bitbangUartInit periodMs).openCount = 0 ∧
      (bitbangUartInit periodMs).txFifo = [] := by
    unfold bitbangUartInit bitbangUartSetPeriod
    split_ifs <;> exact ⟨rfl, rfl⟩
  constructor
  · unfold IdxInRange
    simp [writers, bitbangUartOpen, enableIrq, fresh.1]
  · intro waiting
    refine absurd ?_ waiting
    unfold writers bitbangUartOpen enableIrq
    dsimp only
    split_ifs <;> exact fresh.2

theorem pending_idle {writer : Writer} (pending : writer.pending = true) : writer ≠ .idle := by
  rintro rfl
  cases pending

/-- The copy leaves its writer to serve what it has copied. -/
theorem copy_served {count : Nat} {s : Writers count} (inv : WritersInv s) {w : Fin count}
    (point : s.writer w = .idle) (bytes : List (BitVec 8)) (size : Nat)
    (waiting : (bitbangTxCopy s.uart bytes size).1.txFifo ≠ []) :
    s.timer.looks = true ∨
      ∃ v, (Function.update s.writer w (.copied (bitbangTxCopy s.uart bytes size).2.1) v).pending =
        true := by
  by_cases nothing : (bitbangTxCopy s.uart bytes size).2.1 = 0
  · have before : s.uart.txFifo ≠ [] := by
      intro empty
      apply waiting
      have copied := List.eq_nil_of_length_eq_zero nothing
      dsimp only [bitbangTxCopy, kfifoFromUser] at copied ⊢
      rw [copied, empty]
      rfl
    rcases inv.served before with looks | ⟨v, pending⟩
    · exact .inl looks
    · right
      refine ⟨v, ?_⟩
      have other : v ≠ w := by
        rintro rfl
        exact pending_idle pending point
      rw [Function.update_of_ne other]
      exact pending
  · right
    refine ⟨w, ?_⟩
    rw [Function.update_self]
    exact bne_iff_ne.mpr nothing

/-- A test that starts nothing leaves its bytes to the timer or to another writer. -/
theorem test_served {count : Nat} {s : Writers count} (inv : WritersInv s) {w : Fin count}
    {copied : Nat} (point : s.writer w = .copied copied) (heard : TestHeard s (.test w))
    (waiting : s.uart.txFifo ≠ []) :
    (if bitbangTxStarts copied s.timer.active then TxTimer.queued else s.timer).looks = true ∨
      ∃ v, (Function.update s.writer w .idle v).pending = true := by
  have others : ∀ v, v ≠ w → (s.writer v).pending = true →
      (Function.update s.writer w .idle v).pending = true := by
    intro v other pending
    rw [Function.update_of_ne other]
    exact pending
  cases starts : bitbangTxStarts copied s.timer.active with
  | true => exact .inl rfl
  | false =>
      rcases inv.served waiting with looks | ⟨v, pending⟩
      · exact .inl looks
      · by_cases other : v = w
        · subst other
          have wanted : copied ≠ 0 := by
            rw [point] at pending
            exact bne_iff_ne.mp pending
          have active : s.timer.active = true := by
            simpa [bitbangTxStarts, wanted] using starts
          cases timer : s.timer with
          | inactive =>
              rw [timer] at active
              cases active
          | queued => exact .inl rfl
          | entered => exact .inl rfl
          | returning ret =>
              cases ret with
              | restart => exact .inl rfl
              | norestart =>
                  obtain ⟨next, different, left⟩ := heard pending timer waiting
                  exact .inr ⟨next, others next different left⟩
        · exact .inr ⟨v, others v other pending⟩

theorem writers_inv_step {count : Nat} {s next : Writers count} {action : WriterAction count}
    (inv : WritersInv s) (heard : TestHeard s action)
    (taken : writersStep s action = some next) : WritersInv next := by
  cases action with
  | copy w bytes size =>
      simp only [writersStep] at taken
      split at taken
      · next point =>
          cases taken
          exact ⟨inv.range, copy_served inv point bytes size⟩
      · cases taken
  | test w =>
      simp only [writersStep] at taken
      split at taken
      · next copied point =>
          cases taken
          exact ⟨inv.range, test_served inv point heard⟩
      · cases taken
  | expire =>
      simp only [writersStep] at taken
      split at taken
      · cases taken
        exact ⟨inv.range, fun _ => .inl rfl⟩
      · cases taken
  | callback =>
      simp only [writersStep] at taken
      split at taken
      · cases taken
        refine ⟨tick_idx_in_range inv.range, ?_⟩
        intro waiting
        left
        cases decision : (txTimerCb s.uart).ret with
        | restart => rfl
        | norestart => exact absurd (tick_stops inv.range decision) waiting
      · cases taken
  | callbackReturn =>
      simp only [writersStep] at taken
      split at taken
      · next ret point =>
          cases taken
          refine ⟨inv.range, ?_⟩
          intro waiting
          cases ret with
          | restart => exact .inl rfl
          | norestart =>
              right
              rcases inv.served waiting with looks | left
              · rw [point] at looks
                cases looks
              · exact left
      · cases taken

theorem reachable_writers_inv {periodMs : BitVec 32} {count : Nat} {s : Writers count}
    (reached : ((writers periodMs count).restrict TestHeard).Reachable s) : WritersInv s := by
  apply reached.invariant WritersInv
  · exact writers_start periodMs count
  · apply StepSystem.restrict_preserved
    intro s action next inv heard taken
    exact writers_inv_step inv heard taken

theorem WritersInv.noByteStuck {count : Nat} {s : Writers count} (inv : WritersInv s) :
    NoByteStuck s := by
  intro idle resting waiting
  rcases inv.served waiting with looks | ⟨w, pending⟩
  · cases timer : s.timer with
    | queued => rfl
    | inactive =>
        rw [timer] at looks
        cases looks
    | entered | returning =>
        rw [timer] at resting
        cases resting
  · exact absurd (idle w) (pending_idle pending)

/-- The test that nobody hears: when the callback returns, the byte is stuck. -/
theorem unheard_test_sticks {count : Nat} {s next : Writers count} {w : Fin count}
    (unheard : ¬TestHeard s (.test w)) (alone : ∀ other, other ≠ w → s.writer other = .idle)
    (taken : writersStep s (.test w) = some next) :
    ∃ final, writersStep next .callbackReturn = some final ∧ ¬NoByteStuck final := by
  unfold TestHeard at unheard
  push Not at unheard
  obtain ⟨_, stopping, waiting, _⟩ := unheard
  simp only [writersStep] at taken
  split at taken
  · next copied point =>
      cases taken
      have quiet : bitbangTxStarts copied s.timer.active = false := by
        rw [stopping]
        exact Bool.and_false _
      rw [quiet, if_neg Bool.false_ne_true, stopping]
      refine ⟨_, rfl, ?_⟩
      intro noByteStuck
      have queued := noByteStuck ?_ rfl waiting
      · cases queued
      · intro other
        by_cases same : other = w
        · rw [same]
          exact Function.update_self _ _ _
        · exact (Function.update_of_ne same _ _).trans (alone other same)
  · cases taken

/-- No byte is stuck in any run whose tests are all heard; a test that is not
heard leaves a byte stuck once the other writers are done. -/
theorem no_byte_stuck (periodMs : BitVec 32) (count : Nat) :
    (∀ s, ((writers periodMs count).restrict TestHeard).Reachable s → NoByteStuck s) ∧
      ∀ s w next, ¬TestHeard s (.test w) → (∀ other, other ≠ w → s.writer other = .idle) →
        (writers periodMs count).step s (.test w) = some next →
          ∃ final, (writers periodMs count).step next .callbackReturn = some final ∧
            ¬NoByteStuck final := by
  constructor
  · intro s reached
    exact (reachable_writers_inv reached).noByteStuck
  · intro s w next unheard alone taken
    exact unheard_test_sticks unheard alone taken

/-- One tick of the timer: the callback and its return. -/
def tickSchedule : List (WriterAction 2) := [.expire, .callback, .callbackReturn]

/-- The second writer tests inside the callback, and the first is still to test. -/
theorem no_byte_stuck_two_writers :
    ∃ s : Writers 2, s.timer = .queued ∧ s.uart.txFifo ≠ [] ∧ NoByteStuck s := by
  obtain ⟨s, reached, passes⟩ := StepSystem.reachable_of_run
    ((writers 10#32 2).restrict TestHeard)
    (([.copy 0 [0x47#8] 1, .test 0] : List (WriterAction 2)) ++
      (List.replicate 12 tickSchedule).flatten ++
      ([.expire, .callback, .copy 0 [0x48#8] 1, .copy 1 [0x49#8] 1, .test 1, .callbackReturn,
        .test 0] : List (WriterAction 2)))
    (fun s => decide (s.timer = .queued ∧ s.uart.txFifo ≠ [])) (by decide +kernel)
  obtain ⟨queued, waiting⟩ := of_decide_eq_true passes
  exact ⟨s, queued, waiting, (no_byte_stuck 10#32 2).1 s reached⟩

/-- The callback finds the fifo empty, a writer copies a byte and sees the timer
active, the callback returns. -/
theorem byte_stuck_after_last_tick :
    ¬∀ (periodMs : BitVec 32) (count : Nat) (s : Writers count),
      (writers periodMs count).Reachable s → NoByteStuck s := by
  intro never
  obtain ⟨s, reached, passes⟩ := StepSystem.reachable_of_run (writers 10#32 2)
    (([.copy 0 [0x47#8] 1, .test 0] : List (WriterAction 2)) ++
      (List.replicate 12 tickSchedule).flatten ++
      ([.expire, .callback, .copy 0 [0x48#8] 1, .test 0, .callbackReturn] :
        List (WriterAction 2)))
    (fun s => decide ((∀ w, s.writer w = .idle) ∧ s.timer = .inactive ∧ s.uart.txFifo ≠ []))
    (by decide +kernel)
  obtain ⟨idle, inactive, waiting⟩ := of_decide_eq_true passes
  have queued := never 10#32 2 s reached idle (by rw [inactive]; rfl) waiting
  rw [inactive] at queued
  cases queued

end Testings.Bitbang
