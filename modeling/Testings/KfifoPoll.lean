import Testings.KfifoDelivery
import Testings.KfifoOverwrite
import Testings.PollQueue

/-!
# What `mydev_poll` promises

`mydev_poll` of `kfifo.c` and of `kfifo_rxtx.c` registers a task on both wait queues and tests
both directions without the lock. Two promises are behind its mask: a task that sleeps in
`poll` is woken for its event, and a call made for an event that was shown needs not wait.
-/

set_option autoImplicit false

namespace Testings.Kfifo

def pollin : BitVec 32 := 0x1
def pollout : BitVec 32 := 0x4
def pollrdnorm : BitVec 32 := 0x40
def pollwrnorm : BitVec 32 := 0x100

/-- What a task may ask for when it wants to read. -/
def readEvents : BitVec 32 := pollin ||| pollrdnorm

def writeEvents : BitVec 32 := pollout ||| pollwrnorm

/-- The fifo that is read and the fifo that is written: one and the same in `kfifo.c`. -/
def mydevPoll (readFifo writeFifo : List (BitVec 8)) : BitVec 32 :=
  let mask := 0
  let mask := if readFifo ≠ [] then mask ||| (pollin ||| pollrdnorm) else mask
  if writeFifo.length ≠ fifoSize then mask ||| (pollout ||| pollwrnorm) else mask

theorem mydev_poll_read (readFifo writeFifo : List (BitVec 8)) :
    mydevPoll readFifo writeFifo &&& readEvents = if readFifo ≠ [] then readEvents else 0 := by
  by_cases data : readFifo = [] <;> by_cases room : writeFifo.length = fifoSize <;>
    simp [mydevPoll, data, room, readEvents, pollin, pollout, pollrdnorm, pollwrnorm]

theorem mydev_poll_write (readFifo writeFifo : List (BitVec 8)) :
    mydevPoll readFifo writeFifo &&& writeEvents =
      if writeFifo.length ≠ fifoSize then writeEvents else 0 := by
  by_cases data : readFifo = [] <;> by_cases room : writeFifo.length = fifoSize <;>
    simp [mydevPoll, data, room, writeEvents, pollin, pollout, pollrdnorm, pollwrnorm]

theorem shown_read {readFifo writeFifo : List (BitVec 8)}
    (shown : mydevPoll readFifo writeFifo &&& readEvents ≠ 0) :
    mydevRead.blocked readFifo = false := by
  rw [mydev_poll_read] at shown
  apply decide_eq_false
  intro empty
  rw [if_neg (not_not.mpr empty)] at shown
  exact shown rfl

theorem shown_write {readFifo writeFifo : List (BitVec 8)} {retests : Bool}
    (shown : mydevPoll readFifo writeFifo &&& writeEvents ≠ 0) :
    (mydevWriteCall retests).blocked writeFifo = false := by
  rw [mydev_poll_write] at shown
  apply decide_eq_false
  intro full
  rw [if_neg (not_not.mpr full)] at shown
  exact shown rfl

def overwriteDevice : PollQueue.Device Overwrite OverwriteAction where
  system := overwrite
  mask s := mydevPoll s.fifo s.fifo
  wakes s action := s.wakesReadWq action || s.wakesWriteWq action

def rxtxDevice : PollQueue.Device RxTx RxTxAction where
  system := rxtx
  mask s := mydevPoll s.rxFifo s.txFifo
  wakes s action := RxTx.wakesRxWq action || s.wakesTxWq action

/-- Who sleeps in `poll` for data is owed a wake-up where there is some, and so is who sleeps
for room. -/
theorem overwrite_pollers_owed (s : PollQueue.Polled Overwrite)
    (reached : overwriteDevice.polled.Reachable s) :
    (PollQueue.Sleeps readEvents s.pollers → s.device.fifo ≠ [] →
        s.device.irqWaking = true ∨ Owes s.device.writers) ∧
      (PollQueue.Sleeps writeEvents s.pollers → s.device.fifo.length ≠ fifoSize →
        Owes s.device.readers) := by
  constructor
  · apply PollQueue.polled_none_lost (d := overwriteDevice) (fun s => s.fifo ≠ [])
      (fun s => s.irqWaking = true ∨ Owes s.writers)
      _ _ reached
    · exact fun state data => (mydev_poll_read _ _).trans (if_pos data)
    · intro state action next before taken quiet data
      have owed := reachable_overwrite_wakeups before
      exact overwrite_supplies_data owed.bounded (overwrite_moves taken)
        (Bool.or_eq_false_iff.mp quiet).1 data
  · apply PollQueue.polled_none_lost (d := overwriteDevice) (fun s => s.fifo.length ≠ fifoSize)
      (fun s => Owes s.readers)
      _ _ reached
    · exact fun state room => (mydev_poll_write _ _).trans (if_pos room)
    · intro state action next before taken quiet room
      have owed := reachable_overwrite_wakeups before
      exact overwrite_supplies_room owed.bounded (overwrite_moves taken)
        (Bool.or_eq_false_iff.mp quiet).2 room

/-- Two tasks in `poll`, and the handler behind its unlock. -/
theorem overwrite_pollers_owed_irq :
    ∃ s : PollQueue.Polled Overwrite, overwriteDevice.polled.Reachable s ∧
      s.device.fifo ≠ [] ∧ (s.device.irqWaking = true ∨ Owes s.device.writers) := by
  rcases StepSystem.reachable_of_run overwriteDevice.polled
    [.poll pollin, .poller 0 false, .poller 0 false, .device (.irq 1)]
    (fun s => decide (s.device = ⟨[1], true, [], []⟩ ∧ s.pollers = [.polling pollin .asleep]))
    (by decide) with ⟨s, reached, passes⟩
  rcases of_decide_eq_true passes with ⟨device, pollers⟩
  have data : s.device.fifo ≠ [] := by
    rw [device]
    exact List.cons_ne_nil _ _
  have sleeps : PollQueue.Sleeps readEvents s.pollers := by
    rw [pollers]
    exact ⟨_, List.mem_singleton_self _, by decide⟩
  exact ⟨s, reached, data, (overwrite_pollers_owed s reached).1 sleeps data⟩

/-- The same of the two fifos of `kfifo_rxtx.c`. -/
theorem rxtx_pollers_owed (s : PollQueue.Polled RxTx) (reached : rxtxDevice.polled.Reachable s) :
    (PollQueue.Sleeps readEvents s.pollers → s.device.rxFifo ≠ [] →
        s.device.irqWaking = true) ∧
      (PollQueue.Sleeps writeEvents s.pollers → s.device.txFifo.length ≠ fifoSize →
        s.device.work.owes = true) := by
  constructor
  · apply PollQueue.polled_none_lost (d := rxtxDevice) (fun s => s.rxFifo ≠ [])
      (fun s => s.irqWaking = true)
      _ _ reached
    · exact fun state data => (mydev_poll_read _ _).trans (if_pos data)
    · intro state action next before taken quiet data
      exact rxtx_supplies_data (rxtx_moves taken) (Bool.or_eq_false_iff.mp quiet).1 data
  · apply PollQueue.polled_none_lost (d := rxtxDevice) (fun s => s.txFifo.length ≠ fifoSize)
      (fun s => s.work.owes = true)
      _ _ reached
    · exact fun state room => (mydev_poll_write _ _).trans (if_pos room)
    · intro state action next before taken quiet room
      have owed := reachable_rxtx_wakeups before
      exact rxtx_supplies_room owed.txBounded (rxtx_moves taken)
        (Bool.or_eq_false_iff.mp quiet).2 room

/-- A task asleep for room, and the work that has taken the first byte of a full fifo. -/
theorem rxtx_pollers_owed_work :
    ∃ s : PollQueue.Polled RxTx, rxtxDevice.polled.Reachable s ∧
      s.device.txFifo.length = 1023 ∧ s.device.work.owes = true := by
  rcases StepSystem.reachable_of_run rxtxDevice.polled
    [.device (.opening .openCount), .device (.opening (.requestIrq true)),
      .device (.write (List.replicate 1024 0x55) false), .device (.writer 0 false 1024),
      .device (.writer 0 false 1024), .device (.writerReturn 0), .poll pollout, .poller 0 false,
      .poller 0 false, .device .workStart, .device .workByte]
    (fun s => decide (s.device.txFifo.length = 1023 ∧ s.pollers = [.polling pollout .asleep]))
    (by decide +kernel) with ⟨s, reached, passes⟩
  rcases of_decide_eq_true passes with ⟨length, pollers⟩
  have room : s.device.txFifo.length ≠ fifoSize := by
    rw [length]
    decide
  have sleeps : PollQueue.Sleeps writeEvents s.pollers := by
    rw [pollers]
    exact ⟨_, List.mem_singleton_self _, by decide⟩
  exact ⟨s, reached, length, (rxtx_pollers_owed s reached).2 sleeps room⟩

section behind

variable {Request : Type} {calls : List (Call Request)} {i : Nat} {call moved : Call Request}

/-- A call that needs not wait: in front of a fifo that passes its test, until it has copied. -/
inductive Unhindered (t : Transfer Request) (asked : Request → Prop) (fifo : List (BitVec 8)) :
    Call Request → Prop where
  | entered {request : Request} {nonblock : Bool} (given : asked request)
      (passes : t.blocked fifo = false) : Unhindered t asked fifo (.entered request nonblock)
  | copying {request : Request} (given : asked request) (passes : t.blocked fifo = false) :
      Unhindered t asked fifo (.copying request)
  | copied {request : Request} {copied : Nat} {ret : Int}
      (answers : Answers (callResult copied ret)) :
      Unhindered t asked fifo (.copied request copied ret)
  | returned {ret : Int} (answers : Answers ret) : Unhindered t asked fifo (.returned ret)

/-- Call `n` needs not wait, and everybody else has returned. -/
structure Prompt (t : Transfer Request) (asked : Request → Prop) (fifo : List (BitVec 8))
    (calls : List (Call Request)) (n : Nat) : Prop where
  others : ∀ (j : Nat) (other : Call Request), calls[j]? = some other → other.live = true → j = n
  unhindered : ∃ call, calls[n]? = some call ∧ Unhindered t asked fifo call

namespace Prompt

variable {t : Transfer Request} {asked : Request → Prop} {fifo after : List (BitVec 8)}
  {reachable n : Nat}

theorem joined (finished : ∀ call ∈ calls, call.live = false) {fresh : Call Request}
    (unhindered : Unhindered t asked fifo fresh) :
    Prompt t asked fifo (calls ++ [fresh]) calls.length where
  others j other there live := by
    by_contra apart
    have bound := (List.getElem?_eq_some_iff.mp there).1
    rw [List.length_append, List.length_singleton] at bound
    rw [List.getElem?_append_left (by omega)] at there
    rw [finished other (List.mem_of_getElem? there)] at live
    cases live
  unhindered := ⟨fresh, List.getElem?_concat_length, unhindered⟩

theorem supplied (before : Prompt t asked fifo calls n)
    (opens : t.blocked fifo = false → t.blocked after = false) :
    Prompt t asked after calls n := by
  rcases before with ⟨others, call, here, unhindered⟩
  refine ⟨others, call, here, ?_⟩
  cases unhindered with
  | entered given passes => exact .entered given (opens passes)
  | copying given passes => exact .copying given (opens passes)
  | copied answers => exact .copied answers
  | returned answers => exact .returned answers

theorem woken (before : Prompt t asked fifo calls n) :
    Prompt t asked fifo (calls.map Call.wake) n := by
  rcases before with ⟨others, call, here, unhindered⟩
  have awake : call.wake = call := by
    cases unhindered <;> rfl
  refine ⟨?_, call, ?_, unhindered⟩
  · intro j other there live
    rw [List.getElem?_map, Option.map_eq_some_iff] at there
    rcases there with ⟨old, found, same⟩
    rw [← same, Call.wake_live] at live
    exact others j old found live
  · rw [List.getElem?_map, here, Option.map_some, awake]

theorem set (before : Prompt t asked fifo calls n) (here : calls[i]? = some call)
    (live : call.live = true)
    (unhindered : Unhindered t asked fifo call → Unhindered t asked after moved) :
    Prompt t asked after (calls.set i moved) n := by
  have mine := before.others i call here live
  subst mine
  rcases before with ⟨others, old, there, before⟩
  rw [here] at there
  cases there
  refine ⟨?_, moved, ?_, unhindered before⟩
  · intro j other found awake
    by_cases same : i = j
    · exact same.symm
    · rw [List.getElem?_set_ne same] at found
      exact others j other found awake
  · exact List.getElem?_set_self (List.getElem?_eq_some_iff.mp here).1

/-- The call's own step, where a copy from a fifo that passes the test has an answer. -/
theorem advanced (before : Prompt t asked fifo calls n) (here : calls[i]? = some call)
    (move : Transfer.Move t fifo reachable call after moved)
    (answers : ∀ request, t.blocked fifo = false → asked request →
      Answers (callResult (t.copy fifo request reachable).2.2
        (t.copy fifo request reachable).2.1)) :
    Prompt t asked after (calls.set i moved) n := by
  cases move with
  | waits _ _ live unpassed _ _ _ _ opens =>
      apply before.set here live
      intro unhindered
      cases unhindered with
      | entered given passes =>
          rw [opens _ _ rfl passes]
          exact .copying given passes
      | copying | copied => cases unpassed
      | returned => cases live
  | copies request =>
      apply before.set here rfl
      intro unhindered
      cases unhindered with
      | copying given passes => exact .copied (answers request passes given)

theorem unsignalled (before : Prompt t asked fifo calls n) {request : Request} {nonblock : Bool}
    {phase : WaitQueue.Phase} (here : calls[i]? = some (.waiting request nonblock phase)) :
    Prompt t asked fifo (calls.set i moved) n := by
  apply before.set here rfl
  intro unhindered
  cases unhindered

theorem returned (before : Prompt t asked fifo calls n) {request : Request} {copied : Nat}
    {ret : Int} (here : calls[i]? = some (.copied request copied ret)) :
    Prompt t asked fifo (calls.set i (.returned (callResult copied ret))) n := by
  apply before.set here rfl
  intro unhindered
  cases unhindered with
  | copied answers => exact .returned answers

end Prompt

/-- Nobody is in a call, and the fifo passes the test of the next one. -/
structure Idle (t : Transfer Request) (fifo : List (BitVec 8)) (calls : List (Call Request))
    (n : Nat) : Prop where
  finished : ∀ call ∈ calls, call.live = false
  length : calls.length = n
  passes : t.blocked fifo = false

namespace Idle

variable {t : Transfer Request} {asked : Request → Prop} {fifo after : List (BitVec 8)} {n : Nat}

theorem supplied (before : Idle t fifo calls n)
    (opens : t.blocked fifo = false → t.blocked after = false) : Idle t after calls n where
  finished := before.finished
  length := before.length
  passes := opens before.passes

theorem woken (before : Idle t fifo calls n) : Idle t fifo (calls.map Call.wake) n where
  finished call there := by
    rcases List.mem_map.mp there with ⟨old, present, same⟩
    rw [← same, Call.wake_live]
    exact before.finished old present
  length := (List.length_map Call.wake).trans before.length
  passes := before.passes

theorem unmoved (before : Idle t fifo calls n) (here : calls[i]? = some call) :
    call.live = false := before.finished call (List.mem_of_getElem? here)

theorem transfer_over (before : Idle t fifo calls n) {reachable : Nat}
    (here : calls[i]? = some call) (move : Transfer.Move t fifo reachable call after moved) :
    Idle t after (calls.set i moved) n := by
  have finished := before.unmoved here
  cases move with
  | waits _ _ live =>
      rw [finished] at live
      cases live
  | copies => cases finished

theorem joined (before : Idle t fifo calls n) {request : Request} {nonblock : Bool}
    (given : asked request) :
    Prompt t asked fifo (calls ++ [.entered request nonblock]) n := by
  rw [← before.length]
  exact Prompt.joined before.finished (.entered given before.passes)

end Idle

end behind

/-- The calls of one direction; `begins` are the steps that begin one. -/
structure Side (State Action Request : Type) where
  transfer : Transfer Request
  asked : Request → Prop
  fifo : State → List (BitVec 8)
  calls : State → List (Call Request)
  begins : Action → Bool

section side

variable {State Action Request : Type}

abbrev Side.Idle (side : Side State Action Request) (s : State) (n : Nat) : Prop :=
  Kfifo.Idle side.transfer (side.fifo s) (side.calls s) n

abbrev Side.Prompt (side : Side State Action Request) (s : State) (n : Nat) : Prop :=
  Kfifo.Prompt side.transfer side.asked (side.fifo s) (side.calls s) n

/-- Nothing but a call of this side closes its fifo. -/
structure Side.StaysOpen (side : Side State Action Request) (system : StepSystem State Action)
    (Inv : State → Prop) : Prop where
  kept : ∀ s action next, Inv s → system.step s action = some next → Inv next
  idle : ∀ s action next n, Inv s → system.step s action = some next →
    side.begins action = false → side.Idle s n → side.Idle next n
  prompt : ∀ s action next n, Inv s → system.step s action = some next →
    side.begins action = false → side.Prompt s n → side.Prompt next n

/-- A call that begins behind a fifo that has shown its event, while nobody else is in one or
begins one, comes back with an answer and does not wait. -/
theorem shown_call_answers {side : Side State Action Request} {system : StepSystem State Action}
    {Inv : State → Prop} (stays : side.StaysOpen system Inv) {s final : State}
    {before after : List Action} {entry : Action} {n : Nat}
    (others : ∀ action ∈ before ++ after, side.begins action = false)
    (enters : ∀ s next, system.step s entry = some next → side.Idle s n → side.Prompt next n)
    (inv : Inv s) (idle : side.Idle s n)
    (run : system.runFrom s (before ++ entry :: after) = some final) :
    ∃ call, (side.calls final)[n]? = some call ∧ call.phase = none ∧
      ∀ ret, call = .returned ret → Answers ret := by
  rw [StepSystem.run_from_append, Option.bind_eq_some_iff] at run
  rcases run with ⟨asking, first, rest⟩
  rcases StepSystem.run_from_cons_some.mp rest with ⟨entered, taken, second⟩
  have waiting : Inv asking ∧ side.Idle asking n := by
    apply StepSystem.run_from_keeps (fun s => Inv s ∧ side.Idle s n) _ ⟨inv, idle⟩ first
    intro s action next member both moved
    exact ⟨stays.kept s action next both.1 moved, stays.idle s action next n both.1 moved
      (others action (List.mem_append_left _ member)) both.2⟩
  have served : Inv final ∧ side.Prompt final n := by
    have prompt := enters asking entered taken waiting.2
    apply StepSystem.run_from_keeps (fun s => Inv s ∧ side.Prompt s n) _
      ⟨stays.kept asking entry entered waiting.1 taken, prompt⟩ second
    intro s action next member both moved
    exact ⟨stays.kept s action next both.1 moved, stays.prompt s action next n both.1 moved
      (others action (List.mem_append_right _ member)) both.2⟩
  rcases served.2.unhindered with ⟨call, here, unhindered⟩
  refine ⟨call, here, ?_, ?_⟩
  · cases unhindered <;> rfl
  · intro ret returned
    subst returned
    cases unhindered with
    | returned answers => exact answers

end side

section overwrite

variable {s next : Overwrite} {action : OverwriteAction} {n : Nat}

def OverwriteAction.reads : OverwriteAction → Bool
  | .read _ _ => true
  | _ => false

theorem overwrite_move_idle (bounded : s.fifo.length ≤ fifoSize)
    (moves : OverwriteMove s action next) (other : action.reads = false)
    (idle : Idle mydevRead s.fifo s.readers n) : Idle mydevRead next.fifo next.readers n := by
  have supplied (other : ∀ i signalled room, action ≠ .reader i signalled room) :
      Idle mydevRead next.fifo s.readers n :=
    idle.supplied (overwrite_keeps_data bounded moves other)
  cases moves with
  | irq | write | writer | writerSignal => exact supplied (by nofun)
  | irqWake => exact idle.woken
  | read => cases other
  | reader here move => exact idle.transfer_over here move
  | readerSignal here | readerReturn here => cases idle.unmoved here
  | writerReturn =>
      dsimp only
      split_ifs
      · exact idle.woken
      · exact idle

theorem overwrite_move_prompt (bounded : s.fifo.length ≤ fifoSize)
    (moves : OverwriteMove s action next) (other : action.reads = false)
    (prompt : Prompt mydevRead Asks s.fifo s.readers n) :
    Prompt mydevRead Asks next.fifo next.readers n := by
  have supplied (other : ∀ i signalled room, action ≠ .reader i signalled room) :
      Prompt mydevRead Asks next.fifo s.readers n :=
    prompt.supplied (overwrite_keeps_data bounded moves other)
  cases moves with
  | irq | write | writer | writerSignal => exact supplied (by nofun)
  | irqWake => exact prompt.woken
  | read => cases other
  | reader here move =>
      exact prompt.advanced here move fun len passed asks => read_answers passed asks _
  | readerSignal here => exact prompt.unsignalled here
  | readerReturn here => exact prompt.returned here
  | writerReturn =>
      dsimp only
      split_ifs
      · exact prompt.woken
      · exact prompt

def overwriteReads : Side Overwrite OverwriteAction Nat where
  transfer := mydevRead
  asked := Asks
  fifo := Overwrite.fifo
  calls := Overwrite.readers
  begins := OverwriteAction.reads

theorem overwrite_reads_stay_open : overwriteReads.StaysOpen overwrite WakeupsOwed where
  kept _ _ _ before taken := overwrite_move_wakeups before (overwrite_moves taken)
  idle _ _ _ _ before taken other idle :=
    overwrite_move_idle before.bounded (overwrite_moves taken) other idle
  prompt _ _ _ _ before taken other prompt :=
    overwrite_move_prompt before.bounded (overwrite_moves taken) other prompt

/-- `kfifo.c`: once `mydev_poll` has shown data, and as long as nobody else reads, the next read
neither waits nor fails, whatever the handler and the writers do in between. -/
theorem overwrite_shown_read_answers (s : Overwrite) (reached : overwrite.Reachable s)
    (finished : ∀ call ∈ s.readers, call.live = false)
    (shown : mydevPoll s.fifo s.fifo &&& readEvents ≠ 0) (before after : List OverwriteAction)
    (others : ∀ action ∈ before ++ after, action.reads = false) (len : Nat) (nonblock : Bool)
    (asked : 0 < len) (final : Overwrite)
    (run : overwrite.runFrom s (before ++ .read len nonblock :: after) = some final) :
    ∃ call, final.readers[s.readers.length]? = some call ∧ call.phase = none ∧
      ∀ ret, call = .returned ret → Answers ret := by
  have idle : overwriteReads.Idle s s.readers.length := ⟨finished, rfl, shown_read shown⟩
  apply shown_call_answers overwrite_reads_stay_open others _ (reachable_overwrite_wakeups reached)
    idle run
  intro s next taken idle
  cases taken
  exact idle.joined asked

/-- A nonblocking read behind a poll, with an interrupt in between. -/
theorem overwrite_shown_read_answers_irq :
    ∃ call : Call Nat, call.phase = none ∧ call = .returned 2 ∧ Answers 2 := by
  have first : overwrite.Reachable ⟨[1], true, [], []⟩ := ⟨[.irq 1], by decide⟩
  have run : overwrite.runFrom ⟨[1], true, [], []⟩
      ([.irqWake, .irq 0] ++ .read 4 true ::
        [.reader 0 false 4, .reader 0 false 4, .readerReturn 0]) =
      some ⟨[], true, [.returned 2], []⟩ := by decide
  rcases overwrite_shown_read_answers ⟨[1], true, [], []⟩ first (by decide) (by decide)
    [.irqWake, .irq 0] [.reader 0 false 4, .reader 0 false 4, .readerReturn 0] (by decide) 4 true
    (by decide) ⟨[], true, [.returned 2], []⟩ run with ⟨call, here, awake, answers⟩
  have returned : call = .returned 2 := (Option.some.inj here).symm
  exact ⟨call, awake, returned, answers 2 returned⟩

/-- The other direction is no promise there: the handler fills the fifo that has shown room,
and the only write is refused. -/
theorem overwrite_shown_write_refused :
    ∃ s final, overwrite.Reachable s ∧ mydevPoll s.fifo s.fifo &&& writeEvents ≠ 0 ∧
      overwrite.runFrom s [.irq 1, .write [7] true, .writer 1 false 1] = some final ∧
      final.writers = [.returned 1023, .returned eagain] := by
  rcases StepSystem.reachable_of_run overwrite
    [.write (List.replicate 1023 0x55) false, .writer 0 false 1023, .writer 0 false 1023,
      .writerReturn 0]
    (fun s => decide (s = ⟨List.replicate 1023 0x55, false, [], [.returned 1023]⟩))
    (by decide +kernel) with ⟨s, reached, passes⟩
  have same := of_decide_eq_true passes
  refine ⟨s, ⟨List.replicate 1023 0x55 ++ [1], true, [], [.returned 1023, .returned eagain]⟩,
    reached, ?_, ?_, rfl⟩
  · rw [same]
    decide +kernel
  · rw [same]
    decide +kernel

end overwrite

section rxtx

variable {s next : RxTx} {action : RxTxAction} {n : Nat}

def RxTxAction.reads : RxTxAction → Bool
  | .read _ _ => true
  | _ => false

def RxTxAction.writes : RxTxAction → Bool
  | .write _ _ => true
  | _ => false

def rxtxReads : Side RxTx RxTxAction Nat where
  transfer := mydevRead
  asked := Asks
  fifo := RxTx.rxFifo
  calls := RxTx.readers
  begins := RxTxAction.reads

def rxtxWrites : Side RxTx RxTxAction (List (BitVec 8)) where
  transfer := mydevWriteCall true
  asked := (· ≠ [])
  fifo := RxTx.txFifo
  calls := RxTx.writers
  begins := RxTxAction.writes

theorem rxtx_move_idle_reads (bounded : s.rxFifo.length ≤ fifoSize)
    (moves : RxTxMove s action next) (other : action.reads = false)
    (idle : rxtxReads.Idle s n) : rxtxReads.Idle next n := by
  cases moves with
  | irq val requested =>
      exact idle.supplied (rxtx_keeps_data bounded (.irq val requested) (by nofun))
  | irqWake => exact idle.woken
  | read => cases other
  | reader here move => exact idle.transfer_over here move
  | readerSignal here | readerReturn here => cases idle.unmoved here
  | _ => exact idle

theorem rxtx_move_prompt_reads (bounded : s.rxFifo.length ≤ fifoSize)
    (moves : RxTxMove s action next) (other : action.reads = false)
    (prompt : rxtxReads.Prompt s n) : rxtxReads.Prompt next n := by
  cases moves with
  | irq val requested =>
      exact prompt.supplied (rxtx_keeps_data bounded (.irq val requested) (by nofun))
  | irqWake => exact prompt.woken
  | read => cases other
  | reader here move =>
      exact prompt.advanced here move fun len passed asks => read_answers passed asks _
  | readerSignal here => exact prompt.unsignalled here
  | readerReturn here => exact prompt.returned here
  | _ => exact prompt

theorem rxtx_move_idle_writes (bounded : s.txFifo.length ≤ fifoSize)
    (moves : RxTxMove s action next) (other : action.writes = false)
    (idle : rxtxWrites.Idle s n) : rxtxWrites.Idle next n := by
  cases moves with
  | readerReturn | workWake =>
      change Idle _ _ (if _ then _ else _) _
      split_ifs
      · exact idle.woken
      · exact idle
  | write => cases other
  | writer here move => exact idle.transfer_over here move
  | writerSignal here | writerReturn here => cases idle.unmoved here
  | workByte draining queued =>
      exact idle.supplied (rxtx_keeps_room bounded (.workByte draining queued) (by nofun))
  | _ => exact idle

theorem rxtx_move_prompt_writes (bounded : s.txFifo.length ≤ fifoSize)
    (moves : RxTxMove s action next) (other : action.writes = false)
    (prompt : rxtxWrites.Prompt s n) : rxtxWrites.Prompt next n := by
  cases moves with
  | readerReturn | workWake =>
      change Prompt _ _ _ (if _ then _ else _) _
      split_ifs
      · exact prompt.woken
      · exact prompt
  | write => cases other
  | writer here move =>
      exact prompt.advanced here move fun buf passed given => write_answers bounded passed given _
  | writerSignal here => exact prompt.unsignalled here
  | writerReturn here => exact prompt.returned here
  | workByte draining queued =>
      exact prompt.supplied (rxtx_keeps_room bounded (.workByte draining queued) (by nofun))
  | _ => exact prompt

theorem rxtx_reads_stay_open : rxtxReads.StaysOpen rxtx RxTxWakeups where
  kept _ _ _ before taken := rxtx_move_wakeups before (rxtx_moves taken)
  idle _ _ _ _ before taken other idle :=
    rxtx_move_idle_reads before.rxBounded (rxtx_moves taken) other idle
  prompt _ _ _ _ before taken other prompt :=
    rxtx_move_prompt_reads before.rxBounded (rxtx_moves taken) other prompt

theorem rxtx_writes_stay_open : rxtxWrites.StaysOpen rxtx RxTxWakeups where
  kept _ _ _ before taken := rxtx_move_wakeups before (rxtx_moves taken)
  idle _ _ _ _ before taken other idle :=
    rxtx_move_idle_writes before.txBounded (rxtx_moves taken) other idle
  prompt _ _ _ _ before taken other prompt :=
    rxtx_move_prompt_writes before.txBounded (rxtx_moves taken) other prompt

/-- `kfifo_rxtx.c`: with a fifo for each direction both halves of the mask are promises. -/
theorem rxtx_shown_calls_answer (s : RxTx) (reached : rxtx.Reachable s)
    (before after : List RxTxAction) (nonblock : Bool) (final : RxTx) :
    ((∀ call ∈ s.readers, call.live = false) →
        mydevPoll s.rxFifo s.txFifo &&& readEvents ≠ 0 →
        (∀ action ∈ before ++ after, action.reads = false) → ∀ count, 0 < count →
        rxtx.runFrom s (before ++ .read count nonblock :: after) = some final →
        ∃ call, final.readers[s.readers.length]? = some call ∧ call.phase = none ∧
          ∀ ret, call = .returned ret → Answers ret) ∧
      ((∀ call ∈ s.writers, call.live = false) →
        mydevPoll s.rxFifo s.txFifo &&& writeEvents ≠ 0 →
        (∀ action ∈ before ++ after, action.writes = false) → ∀ buf, buf ≠ [] →
        rxtx.runFrom s (before ++ .write buf nonblock :: after) = some final →
        ∃ call, final.writers[s.writers.length]? = some call ∧ call.phase = none ∧
          ∀ ret, call = .returned ret → Answers ret) := by
  constructor
  · intro finished shown others count asked run
    have idle : rxtxReads.Idle s s.readers.length := ⟨finished, rfl, shown_read shown⟩
    apply shown_call_answers rxtx_reads_stay_open others _ (reachable_rxtx_wakeups reached) idle run
    intro s next taken idle
    change (if s.opens.files = 0 then none else some _) = some next at taken
    split_ifs at taken with closed zero
    · omega
    · cases taken
      exact idle.joined asked
  · intro finished shown others buf given run
    have idle : rxtxWrites.Idle s s.writers.length := ⟨finished, rfl, shown_write shown⟩
    apply shown_call_answers rxtx_writes_stay_open others _ (reachable_rxtx_wakeups reached) idle
      run
    intro s next taken idle
    change (if s.opens.files = 0 then none else some _) = some next at taken
    split_ifs at taken
    cases taken
    exact idle.joined given

/-- A nonblocking write behind a poll. -/
theorem rxtx_shown_calls_answer_write :
    ∃ call : Call (List (BitVec 8)), call.phase = none ∧ call = .returned 1 ∧ Answers 1 := by
  have first : rxtx.Reachable
      ⟨[], [], ⟨⟨1, true⟩, 1, 0, 0, 0⟩, 0, 0, false, false, .idle, [], [], []⟩ :=
    ⟨[.opening .openCount, .opening (.requestIrq true)], by decide⟩
  have run : rxtx.runFrom
      ⟨[], [], ⟨⟨1, true⟩, 1, 0, 0, 0⟩, 0, 0, false, false, .idle, [], [], []⟩
      ([] ++ .write [0x41] true :: [.writer 0 false 1, .writer 0 false 1, .writerReturn 0]) =
      some ⟨[], [0x41], ⟨⟨1, true⟩, 1, 0, 0, 0⟩, 0, 0, false, true, .idle, [], [],
        [.returned 1]⟩ := by decide
  rcases (rxtx_shown_calls_answer _ first [] [.writer 0 false 1, .writer 0 false 1, .writerReturn 0]
    true _).2 (by decide) (by decide) (by decide) [0x41] (by decide) run with
    ⟨call, here, awake, answers⟩
  have returned : call = .returned 1 := (Option.some.inj here).symm
  exact ⟨call, awake, returned, answers 1 returned⟩

end rxtx

end Testings.Kfifo
