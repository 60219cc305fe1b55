import Testings.BitbangDevice

/-!
# Blocking calls of the bit-bang device

Any number of `read` and `write` calls on an open device, interleaved with the
falling edges of the receive line and the two timers. The test of
`kfifo_is_empty` (`kfifo_is_full`), the section under the lock and the start of
the timer are separate steps; user copies succeed. Nobody tests again under the
lock, so a call that has passed its test returns 0 when another one has taken
the last byte (the last free place) in between.
-/

set_option autoImplicit false

namespace Testings.Bitbang

def eagain : Int := -11

def erestartsys : Int := -512

/-- Where a call stands. -/
inductive Call (Request : Type) where
  | entered (request : Request) (nonblock : Bool)
  | testing (request : Request)
  | waiting (request : Request)
  | tested (request : Request)
  | copied (copied : Nat) (ret : Int)
  | returned (ret : Int)
  deriving DecidableEq

/-- What `bitbang_rx` and `bitbang_tx` differ in: `avail` is what a call can
take, `copy` the section under the lock and `after` what follows it. -/
structure Transfer (Request : Type) where
  size : Request → Nat
  avail : BitbangUart → Nat
  blocked : BitbangUart → Bool
  copy : BitbangUart → Request → BitbangUart × Nat × Int
  after : Device → Nat → Device

namespace Transfer

variable {Request : Type}

/-- One step of a call. `wait_event_interruptible` leaves the loop to test again. -/
def advance (t : Transfer Request) (s : Device) : Call Request → Option (Device × Call Request)
  | .entered request nonblock =>
      some (s, if t.blocked s.uart && nonblock then .returned eagain else .testing request)
  | .testing request => some (s, if t.blocked s.uart then .waiting request else .tested request)
  | .waiting request => if t.blocked s.uart then none else some (s, .testing request)
  | .tested request =>
      let (uart, copied, ret) := t.copy s.uart request
      some ({ s with uart := uart }, .copied copied ret)
  | .copied copied ret => some (t.after s copied, .returned (if ret ≠ 0 then ret else copied))
  | .returned _ => none

/-- A signal ends the wait. -/
def signal : Call Request → Option (Call Request)
  | .waiting _ => some (.returned erestartsys)
  | _ => none

def advanceAt (t : Transfer Request) (s : Device) (calls : List (Call Request)) (i : Nat) :
    Option (Device × List (Call Request)) :=
  match calls[i]? with
  | none => none
  | some call => (t.advance s call).map fun (s, call) => (s, calls.set i call)

def signalAt (calls : List (Call Request)) (i : Nat) : Option (List (Call Request)) :=
  match calls[i]? with
  | none => none
  | some call => (signal call).map (calls.set i)

end Transfer

def bitbangRead : Transfer Nat where
  size count := count
  avail d := d.rxFifo.length
  blocked d := d.rxFifo = []
  copy d count :=
    let (rxFifo, copied, ret) := kfifoToUser d.rxFifo count count
    ({ d with rxFifo := rxFifo }, copied, ret)
  after s _ := s

def bitbangWrite : Transfer (List (BitVec 8)) where
  size bytes := bytes.length
  avail d := fifoSize - d.txFifo.length
  blocked d := kfifoIsFull d.txFifo
  copy d bytes := bitbangTxCopy d bytes bytes.length
  after s copied := { s with txQueued := s.txQueued || bitbangTxStarts copied s.txQueued }

structure Users where
  device : Device
  readers : List (Call Nat)
  writers : List (Call (List (BitVec 8)))
  deriving DecidableEq

inductive UserAction where
  | read (count : Nat) (nonblock : Bool)
  | reader (i : Nat)
  | readerSignal (i : Nat)
  | write (bytes : List (BitVec 8)) (nonblock : Bool)
  | writer (i : Nat)
  | writerSignal (i : Nat)
  | fallingEdge (val : Bool)
  | txExpire
  | rxExpire (v : Bool)
  deriving DecidableEq

def usersStep (s : Users) : UserAction → Option Users
  | .read count nonblock =>
      if 0 < count then some { s with readers := s.readers ++ [.entered count nonblock] } else none
  | .reader i =>
      (bitbangRead.advanceAt s.device s.readers i).map fun (device, readers) =>
        { s with device := device, readers := readers }
  | .readerSignal i =>
      (Transfer.signalAt s.readers i).map fun readers => { s with readers := readers }
  | .write bytes nonblock =>
      if 0 < bytes.length then
        some { s with writers := s.writers ++ [.entered bytes nonblock] }
      else none
  | .writer i =>
      (bitbangWrite.advanceAt s.device s.writers i).map fun (device, writers) =>
        { s with device := device, writers := writers }
  | .writerSignal i =>
      (Transfer.signalAt s.writers i).map fun writers => { s with writers := writers }
  | .fallingEdge val =>
      (step s.device (.fallingEdge val)).map fun device => { s with device := device }
  | .txExpire => (step s.device .txExpire).map fun device => { s with device := device }
  | .rxExpire v => (step s.device (.rxExpire v)).map fun device => { s with device := device }

/-- The device has been opened once and the file stays open. -/
def users (periodMs : BitVec 32) : StepSystem Users UserAction where
  start :=
    { device := { deviceProbed periodMs with
        uart := bitbangUartOpen (deviceProbed periodMs).uart
        files := 1 }
      readers := []
      writers := [] }
  step := usersStep

theorem bitbang_rx_split {s : Device} {count : Nat} (ready : bitbangRead.blocked s.uart = false) :
    ((bitbangRead.advance s (.testing count)).bind fun (s, call) =>
        (bitbangRead.advance s call).bind fun (s, call) => bitbangRead.advance s call) =
      (bitbangRx s.uart count count).map fun (uart, ret) =>
        ({ s with uart := uart }, .returned ret) := by
  have nonempty : s.uart.rxFifo ≠ [] := by simpa [bitbangRead] using ready
  simp [Transfer.advance, bitbangRead, bitbangRx, nonempty]

theorem bitbang_tx_split {s : Device} {bytes : List (BitVec 8)}
    (ready : bitbangWrite.blocked s.uart = false) :
    ((bitbangWrite.advance s (.testing bytes)).bind fun (s, call) =>
        (bitbangWrite.advance s call).bind fun (s, call) => bitbangWrite.advance s call) =
      (bitbangTx s.uart bytes bytes.length s.txQueued).map fun (uart, starts, ret) =>
        ({ s with uart := uart, txQueued := s.txQueued || starts }, .returned ret) := by
  have room : kfifoIsFull s.uart.txFifo = false := ready
  simp [Transfer.advance, bitbangWrite, bitbangTx, room]

def Call.isTested {Request : Type} : Call Request → Bool
  | .tested _ => true
  | _ => false

namespace Transfer

variable {Request : Type}

/-- The copy of call `i` takes all there is while another call has passed its test. -/
def exhausts (t : Transfer Request) (d : BitbangUart) (calls : List (Call Request)) (i : Nat) :
    Bool :=
  match calls[i]? with
  | some (.tested request) => t.avail d ≤ t.size request && (calls.eraseIdx i).any Call.isTested
  | _ => false

structure Lawful (t : Transfer Request) : Prop where
  blocked_iff : ∀ d, t.blocked d = true ↔ t.avail d = 0
  copied : ∀ d request, (t.copy d request).2 = (min (t.size request) (t.avail d), 0)
  remains : ∀ d request,
    t.avail (t.copy d request).1 = t.avail d - min (t.size request) (t.avail d)
  after_uart : ∀ s copied, (t.after s copied).uart = s.uart

/-- Nothing here can still return 0: a call that has passed its test finds something. -/
def Safe (t : Transfer Request) (avail : Nat) : Call Request → Prop
  | .entered request _ | .testing request | .waiting request => 0 < t.size request
  | .tested request => 0 < t.size request ∧ 0 < avail
  | .copied copied ret => 0 < copied ∧ ret = 0
  | .returned ret => ret ≠ 0

variable {t : Transfer Request}

theorem Safe.supplied {call : Call Request} {avail later : Nat} (safe : t.Safe avail call)
    (supplied : 0 < avail → 0 < later) : t.Safe later call := by
  cases call with
  | tested request => exact ⟨safe.1, supplied safe.2⟩
  | _ => exact safe

theorem Safe.not_tested {call : Call Request} {avail later : Nat} (safe : t.Safe avail call)
    (other : call.isTested = false) : t.Safe later call := by
  cases call with
  | tested request => cases other
  | _ => exact safe

/-- A step of a call keeps it safe; only the copy takes anything. -/
theorem advance_safe (lawful : t.Lawful) {s next : Device} {call moved : Call Request}
    (safe : t.Safe (t.avail s.uart) call) (taken : t.advance s call = some (next, moved)) :
    t.Safe (t.avail next.uart) moved ∧
      (t.avail next.uart = t.avail s.uart ∨
        ∃ request, call = .tested request ∧
          t.avail next.uart = t.avail s.uart - min (t.size request) (t.avail s.uart)) := by
  cases call with
  | entered request nonblock =>
      cases taken
      refine ⟨?_, .inl rfl⟩
      split_ifs
      · exact (by decide : eagain ≠ 0)
      · exact safe
  | testing request =>
      cases taken
      refine ⟨?_, .inl rfl⟩
      split_ifs with blocked
      · exact safe
      · have some_left := mt (lawful.blocked_iff s.uart).mpr blocked
        exact ⟨safe, Nat.pos_of_ne_zero some_left⟩
  | waiting request =>
      simp only [advance] at taken
      split_ifs at taken
      cases taken
      exact ⟨safe, .inl rfl⟩
  | tested request =>
      have copied := lawful.copied s.uart request
      have remains := lawful.remains s.uart request
      have positive : 0 < (t.copy s.uart request).2.1 := by
        rw [copied]
        exact Nat.lt_min.mpr safe
      have complete : (t.copy s.uart request).2.2 = 0 := by rw [copied]
      cases taken
      exact ⟨⟨positive, complete⟩, .inr ⟨request, rfl, remains⟩⟩
  | copied copied ret =>
      cases taken
      obtain ⟨positive, rfl⟩ := safe
      refine ⟨?_, .inl (congrArg t.avail (lawful.after_uart s copied))⟩
      exact Int.natCast_ne_zero.mpr (Nat.pos_iff_ne_zero.mp positive)
  | returned ret => cases taken

theorem advance_at_moves {s next : Device}
    {calls moved : List (Call Request)} {i : Nat}
    (taken : t.advanceAt s calls i = some (next, moved)) :
    ∃ call after, calls[i]? = some call ∧ t.advance s call = some (next, after) ∧
      moved = calls.set i after := by
  simp only [advanceAt] at taken
  cases here : calls[i]? with
  | none => simp [here] at taken
  | some call =>
      rw [here, Option.map_eq_some_iff] at taken
      obtain ⟨⟨device, after⟩, advanced, same⟩ := taken
      cases same
      exact ⟨call, after, rfl, advanced, rfl⟩

theorem advance_at_safe (lawful : t.Lawful) {s next : Device}
    {calls moved : List (Call Request)} {i : Nat}
    (safe : ∀ call ∈ calls, t.Safe (t.avail s.uart) call)
    (shared : t.exhausts s.uart calls i = false)
    (taken : t.advanceAt s calls i = some (next, moved)) :
    ∀ call ∈ moved, t.Safe (t.avail next.uart) call := by
  obtain ⟨call, after, here, advanced, rfl⟩ := advance_at_moves taken
  obtain ⟨movedSafe, level⟩ := advance_safe lawful (safe call (List.mem_of_getElem? here)) advanced
  intro other position
  obtain ⟨j, found⟩ := List.mem_iff_getElem?.mp position
  rw [List.getElem?_set] at found
  split_ifs at found with at_i inside
  · cases found
    exact movedSafe
  · have otherSafe := safe other (List.mem_of_getElem? found)
    rcases level with kept | ⟨request, rfl, remains⟩
    · exact otherSafe.supplied fun before => kept ▸ before
    · -- the copy: what is left is enough unless nobody else has passed the test
      rw [exhausts, here, Bool.and_eq_false_iff, decide_eq_false_iff_not] at shared
      rcases shared with left | alone
      · refine otherSafe.supplied fun _ => ?_
        rw [remains]
        omega
      · refine otherSafe.not_tested ?_
        have erased := List.mem_eraseIdx_iff_getElem?.mpr ⟨j, Ne.symm at_i, found⟩
        rw [List.any_eq_false] at alone
        exact Bool.eq_false_iff.mpr (alone other erased)

/-- A call that asks for something is safe before its test. -/
theorem call_safe {calls : List (Call Request)} {avail : Nat} {request : Request} {nonblock : Bool}
    (safe : ∀ call ∈ calls, t.Safe avail call) (positive : 0 < t.size request) :
    ∀ call ∈ calls ++ [.entered request nonblock], t.Safe avail call := by
  intro call present
  rcases List.mem_append.mp present with old | fresh
  · exact safe call old
  · rw [List.mem_singleton.mp fresh]
    exact positive

theorem signal_at_safe {calls moved : List (Call Request)} {i avail : Nat}
    (safe : ∀ call ∈ calls, t.Safe avail call) (taken : signalAt calls i = some moved) :
    ∀ call ∈ moved, t.Safe avail call := by
  simp only [signalAt] at taken
  cases here : calls[i]? with
  | none => simp [here] at taken
  | some call =>
      rw [here, Option.map_eq_some_iff] at taken
      obtain ⟨ended, signalled, rfl⟩ := taken
      intro other position
      rcases List.mem_or_eq_of_mem_set position with old | rfl
      · exact safe other old
      · cases call with
        | waiting request =>
            cases signalled
            exact (by decide : erestartsys ≠ 0)
        | _ => cases signalled

end Transfer

theorem kfifo_to_user_fits (fifo : List (BitVec 8)) (count : Nat) :
    kfifoToUser fifo count count =
      (fifo.drop (min count fifo.length), min count fifo.length, 0) := by
  simp [kfifoToUser]

theorem kfifo_from_user_fits (fifo bytes : List (BitVec 8)) :
    kfifoFromUser fifo bytes bytes.length =
      (fifo ++ bytes.take (fifoSize - fifo.length),
        min bytes.length (fifoSize - fifo.length), 0) := by
  simp [kfifoFromUser, Nat.min_comm]

theorem bitbang_read_lawful : bitbangRead.Lawful where
  blocked_iff d := by simp [bitbangRead]
  copied d count := by simp [bitbangRead, kfifo_to_user_fits]
  remains d count := by simp [bitbangRead, kfifo_to_user_fits]
  after_uart _ _ := rfl

theorem bitbang_write_lawful : bitbangWrite.Lawful where
  blocked_iff d := by
    simp only [bitbangWrite, kfifoIsFull, decide_eq_true_eq]
    omega
  copied d bytes := by simp [bitbangWrite, bitbangTxCopy, kfifo_from_user_fits]
  remains d bytes := by
    simp only [bitbangWrite, bitbangTxCopy, kfifo_from_user_fits, List.length_append,
      List.length_take]
    omega
  after_uart _ _ := rfl

/-- Each direction leaves the fifo of the other one alone. -/
theorem bitbang_read_keeps_writers {s next : Device} {call moved : Call Nat}
    (taken : bitbangRead.advance s call = some (next, moved)) :
    bitbangWrite.avail next.uart = bitbangWrite.avail s.uart := by
  cases call with
  | waiting count =>
      simp only [Transfer.advance] at taken
      split_ifs at taken
      cases taken
      rfl
  | returned ret => cases taken
  | _ =>
      cases taken
      rfl

theorem bitbang_write_keeps_readers {s next : Device} {call moved : Call (List (BitVec 8))}
    (taken : bitbangWrite.advance s call = some (next, moved)) :
    bitbangRead.avail next.uart = bitbangRead.avail s.uart := by
  cases call with
  | waiting bytes =>
      simp only [Transfer.advance] at taken
      split_ifs at taken
      cases taken
      rfl
  | returned ret => cases taken
  | _ =>
      cases taken
      rfl

theorem push_received_nonempty (fifo : List (BitVec 8)) (data : BitVec 8)
    (before : 0 < fifo.length) : 0 < (pushReceived fifo data).length := by
  unfold pushReceived kfifoIn kfifoIsFull fifoSize
  split_ifs with full
  · simp only [decide_eq_true_eq] at full
    simp
    omega
  · simp
    omega

theorem rx_tick_supplies (d : BitbangUart) (v : Bool) (before : 0 < bitbangRead.avail d) :
    0 < bitbangRead.avail (rxTimerCb d v).uart := by
  unfold rxTimerCb
  dsimp only
  split_ifs
  case pos => exact before
  case pos => exact before
  case neg => exact before
  case pos => exact before
  case pos => exact push_received_nonempty d.rxFifo d.rxChr.data before
  all_goals exact before

theorem tx_tick_supplies (d : BitbangUart) (before : 0 < bitbangWrite.avail d) :
    0 < bitbangWrite.avail (txTimerCb d).uart := by
  unfold txTimerCb
  dsimp only
  split_ifs
  case pos => exact before
  case pos =>
    cases fifo : d.txFifo with
    | nil => exact before
    | cons data remains =>
        simp only [bitbangWrite, fifo, List.length_cons] at before ⊢
        omega
  all_goals exact before

/-- No copy takes the last byte (the last free place) while another call that has
passed its test has not copied yet. -/
def LeavesSome (s : Users) : UserAction → Prop
  | .reader i => bitbangRead.exhausts s.device.uart s.readers i = false
  | .writer i => bitbangWrite.exhausts s.device.uart s.writers i = false
  | _ => True

instance (s : Users) (action : UserAction) : Decidable (LeavesSome s action) := by
  cases action <;> unfold LeavesSome <;> infer_instance

structure UsersSafe (s : Users) : Prop where
  readers : ∀ call ∈ s.readers, bitbangRead.Safe (bitbangRead.avail s.device.uart) call
  writers : ∀ call ∈ s.writers, bitbangWrite.Safe (bitbangWrite.avail s.device.uart) call

/-- What only adds bytes to read and places to write keeps every call safe. -/
theorem UsersSafe.supplied {s : Users} {device : Device} (safe : UsersSafe s)
    (bytes : 0 < bitbangRead.avail s.device.uart → 0 < bitbangRead.avail device.uart)
    (places : 0 < bitbangWrite.avail s.device.uart → 0 < bitbangWrite.avail device.uart) :
    UsersSafe { s with device := device } where
  readers call present := (safe.readers call present).supplied bytes
  writers call present := (safe.writers call present).supplied places

theorem users_safe_step (s : Users) (action : UserAction) (next : Users) (safe : UsersSafe s)
    (shared : LeavesSome s action) (taken : usersStep s action = some next) : UsersSafe next := by
  cases action with
  | read count nonblock =>
      simp only [usersStep] at taken
      split_ifs at taken with positive
      cases taken
      exact ⟨Transfer.call_safe safe.readers positive, safe.writers⟩
  | reader i =>
      rw [usersStep, Option.map_eq_some_iff] at taken
      obtain ⟨⟨device, readers⟩, advanced, rfl⟩ := taken
      obtain ⟨call, after, -, one, -⟩ := Transfer.advance_at_moves advanced
      refine ⟨Transfer.advance_at_safe bitbang_read_lawful safe.readers shared advanced, ?_⟩
      intro writer present
      refine (safe.writers writer present).supplied fun before => ?_
      rwa [bitbang_read_keeps_writers one]
  | readerSignal i =>
      rw [usersStep, Option.map_eq_some_iff] at taken
      obtain ⟨readers, signalled, rfl⟩ := taken
      exact ⟨Transfer.signal_at_safe safe.readers signalled, safe.writers⟩
  | write bytes nonblock =>
      simp only [usersStep] at taken
      split_ifs at taken with positive
      cases taken
      exact ⟨safe.readers, Transfer.call_safe safe.writers positive⟩
  | writer i =>
      rw [usersStep, Option.map_eq_some_iff] at taken
      obtain ⟨⟨device, writers⟩, advanced, rfl⟩ := taken
      obtain ⟨call, after, -, one, -⟩ := Transfer.advance_at_moves advanced
      refine ⟨?_, Transfer.advance_at_safe bitbang_write_lawful safe.writers shared advanced⟩
      intro reader present
      refine (safe.readers reader present).supplied fun before => ?_
      rwa [bitbang_write_keeps_readers one]
  | writerSignal i =>
      rw [usersStep, Option.map_eq_some_iff] at taken
      obtain ⟨writers, signalled, rfl⟩ := taken
      exact ⟨safe.readers, Transfer.signal_at_safe safe.writers signalled⟩
  | fallingEdge val =>
      rw [usersStep, Option.map_eq_some_iff] at taken
      obtain ⟨device, moved, rfl⟩ := taken
      cases step_cases moved
      exact safe.supplied id id
  | txExpire =>
      rw [usersStep, Option.map_eq_some_iff] at taken
      obtain ⟨device, moved, rfl⟩ := taken
      cases step_cases moved
      refine safe.supplied ?_ (tx_tick_supplies s.device.uart)
      intro before
      simpa [bitbangRead, (tx_tick_keeps_rx s.device.uart).2] using before
  | rxExpire v =>
      rw [usersStep, Option.map_eq_some_iff] at taken
      obtain ⟨device, moved, rfl⟩ := taken
      cases step_cases moved
      refine safe.supplied (rx_tick_supplies s.device.uart v) ?_
      intro before
      simpa [bitbangWrite, (rx_tick_keeps_tx s.device.uart v).2] using before

theorem users_start_safe (periodMs : BitVec 32) : UsersSafe (users periodMs).start where
  readers _ present := absurd present List.not_mem_nil
  writers _ present := absurd present List.not_mem_nil

theorem advance_at_of {Request : Type} {t : Transfer Request} {s next : Device}
    {calls : List (Call Request)} {i : Nat} {call after : Call Request}
    (here : calls[i]? = some call) (advanced : t.advance s call = some (next, after)) :
    t.advanceAt s calls i = some (next, calls.set i after) := by
  simp only [Transfer.advanceAt, here, advanced]
  rfl

/-- A call that has passed its test and finds nothing under the lock returns 0. -/
theorem tested_nothing_returns_zero {Request : Type} {t : Transfer Request} (lawful : t.Lawful)
    {s : Device} {calls : List (Call Request)} {j : Nat} {request : Request}
    (nothing : t.avail s.uart = 0) (here : calls[j]? = some (.tested request)) :
    ∃ middle between final after, t.advanceAt s calls j = some (middle, between) ∧
      t.advanceAt middle between j = some (final, after) ∧ .returned 0 ∈ after := by
  have inside : j < calls.length := (List.getElem?_eq_some_iff.mp here).1
  have outcome := lawful.copied s.uart request
  rw [nothing, Nat.min_zero] at outcome
  have copies : t.advance s (.tested request) =
      some ({ s with uart := (t.copy s.uart request).1 }, .copied 0 0) := by
    simp [Transfer.advance, outcome]
  have returns (device : Device) :
      t.advance device (.copied 0 0) = some (t.after device 0, .returned 0) := rfl
  have again : (calls.set j (.copied 0 0))[j]? = some (.copied 0 0) :=
    List.getElem?_set_self inside
  refine ⟨_, _, _, _, advance_at_of here copies, advance_at_of again (returns _), ?_⟩
  exact List.mem_set (by simpa using inside) _

theorem exhausted_returns_zero {Request : Type} {t : Transfer Request} (lawful : t.Lawful)
    {s next : Device} {calls moved : List (Call Request)} {i : Nat}
    (exhausts : t.exhausts s.uart calls i = true)
    (taken : t.advanceAt s calls i = some (next, moved)) :
    ∃ j middle between final after, t.advanceAt next moved j = some (middle, between) ∧
      t.advanceAt middle between j = some (final, after) ∧ .returned 0 ∈ after := by
  obtain ⟨call, copied, here, advanced, rfl⟩ := Transfer.advance_at_moves taken
  cases call with
  | tested request =>
      rw [Transfer.exhausts, here, Bool.and_eq_true, decide_eq_true_eq, List.any_eq_true]
        at exhausts
      obtain ⟨all, other, erased, passed⟩ := exhausts
      obtain ⟨j, differs, found⟩ := List.mem_eraseIdx_iff_getElem?.mp erased
      have nothing : t.avail next.uart = 0 := by
        have uart : next.uart = (t.copy s.uart request).1 := by
          cases advanced
          rfl
        rw [uart, lawful.remains]
        omega
      cases other with
      | tested second =>
          have stays : (calls.set i copied)[j]? = some (.tested second) := by
            rw [List.getElem?_set_ne (Ne.symm differs), found]
          exact ⟨j, tested_nothing_returns_zero lawful nothing stays⟩
      | _ => cases passed
  | _ => simp [Transfer.exhausts, here] at exhausts

/-- A call has returned 0. -/
def ReturnedZero (s : Users) : Prop := .returned 0 ∈ s.readers ∨ .returned 0 ∈ s.writers

instance (s : Users) : Decidable (ReturnedZero s) := inferInstanceAs (Decidable (_ ∨ _))

theorem exhausting_step_returns_zero {s next : Users} {action : UserAction}
    (exhausts : ¬LeavesSome s action) (taken : usersStep s action = some next)
    (periodMs : BitVec 32) :
    ∃ actions final, (users periodMs).runFrom next actions = some final ∧ ReturnedZero final := by
  cases action with
  | reader i =>
      rw [usersStep, Option.map_eq_some_iff] at taken
      obtain ⟨⟨device, readers⟩, advanced, rfl⟩ := taken
      obtain ⟨j, _, _, final, after, copies, returns, zero⟩ :=
        exhausted_returns_zero bitbang_read_lawful (by simpa [LeavesSome] using exhausts) advanced
      refine ⟨[.reader j, .reader j], ⟨final, after, s.writers⟩, ?_, .inl zero⟩
      simp [StepSystem.runFrom, users, usersStep, copies, returns]
  | writer i =>
      rw [usersStep, Option.map_eq_some_iff] at taken
      obtain ⟨⟨device, writers⟩, advanced, rfl⟩ := taken
      obtain ⟨j, _, _, final, after, copies, returns, zero⟩ :=
        exhausted_returns_zero bitbang_write_lawful (by simpa [LeavesSome] using exhausts) advanced
      refine ⟨[.writer j, .writer j], ⟨final, s.readers, after⟩, ?_, .inr zero⟩
      simp [StepSystem.runFrom, users, usersStep, copies, returns]
  | _ => exact absurd trivial exhausts

/-- In a run whose copies all leave something for a call that has passed its test
no call returns 0; after a copy that does not, the other call's own two steps return 0. -/
theorem no_call_returns_zero (periodMs : BitVec 32) :
    (∀ s, ((users periodMs).restrict LeavesSome).Reachable s → ¬ReturnedZero s) ∧
      ∀ s action next, (users periodMs).Reachable s →
        (users periodMs).step s action = some next → ¬LeavesSome s action →
          ∃ actions final, (users periodMs).runFrom next actions = some final ∧
            ReturnedZero final := by
  constructor
  · intro s reached zero
    have start : UsersSafe ((users periodMs).restrict LeavesSome).start :=
      users_start_safe periodMs
    have safe : UsersSafe s :=
      reached.invariant UsersSafe start (StepSystem.restrict_preserved users_safe_step)
    rcases zero with reader | writer
    · exact safe.readers _ reader rfl
    · exact safe.writers _ writer rfl
  · intro s action next _ taken exhausts
    exact exhausting_step_returns_zero exhausts taken periodMs

/-- The second reader tests after the first one has copied, and waits. -/
theorem no_call_returns_zero_two_readers :
    ∃ s : Users, s.readers = [.returned 1, .waiting 1] ∧ ¬ReturnedZero s := by
  obtain ⟨s, reached, passes⟩ := ((users 10).restrict LeavesSome).reachable_of_run
    ([.read 1 false, .read 1 false, .reader 0, .reader 1, .fallingEdge false] ++
      [false, true, false, false, false, false, false, true, false, false, true].map .rxExpire ++
      [.reader 0, .reader 0, .reader 0, .reader 1])
    (fun s => decide (s.readers = [.returned 1, .waiting 1])) (by decide)
  exact ⟨s, of_decide_eq_true passes, (no_call_returns_zero 10).1 s reached⟩

/-- One byte has been received; both readers see it before either takes it. -/
theorem second_reader_returns_zero :
    ¬∀ s, (users 10).Reachable s → ¬ReturnedZero s := by
  obtain ⟨s, reached, zero⟩ := (users 10).reachable_of_run
    ([.read 1 false, .read 1 false, .reader 0, .reader 1, .fallingEdge false] ++
      [false, true, false, false, false, false, false, true, false, false, true].map .rxExpire ++
      [.reader 0, .reader 1, .reader 0, .reader 1, .reader 1])
    (fun s => decide (ReturnedZero s)) (by decide)
  exact fun never => never s reached (of_decide_eq_true zero)

end Testings.Bitbang
