import Testings.KfifoTransmit
import Testings.WaitQueue

/-!
# Blocking calls on a kfifo

What `mydev_read` and `mydev_write` of `kfifo.c` and `kfifo_rxtx.c` have in common:
the test of the fifo without the lock, the wait, the copy under the lock, and what
follows the unlock. The four of them differ in the test, in the copy, in whether the
wait is inside a loop, and in what they do behind the unlock.
-/

set_option autoImplicit false

namespace Testings.Kfifo

/-- The FIFO, the result and the number that is copied, of a read of `count` bytes
into a user buffer whose first `room` bytes can be written. -/
def kfifoToUser (fifo : List (BitVec 8)) (count room : Nat) :
    List (BitVec 8) × Int × Nat :=
  let len := min count fifo.length
  let copied := min len room
  (fifo.drop copied, if room < len then efault else 0, copied)

/-- What the interrupt handlers do under the lock: drop the oldest byte of a full
fifo, then put theirs. -/
def overwriteOnFull (fifo : List (BitVec 8)) (val : BitVec 8) : List (BitVec 8) :=
  let fifo := if fifo.length = fifoSize then fifo.drop 1 else fifo
  fifo ++ [val].take (fifoSize - fifo.length)

theorem overwrite_on_full (fifo : List (BitVec 8)) (val : BitVec 8)
    (bounded : fifo.length ≤ fifoSize) :
    overwriteOnFull fifo val =
      fifo.drop (if fifo.length = fifoSize then 1 else 0) ++ [val] := by
  unfold overwriteOnFull
  dsimp only
  split_ifs with full
  · rw [List.take_of_length_le]
    simp [full, fifoSize]
  · rw [List.drop_zero, List.take_of_length_le]
    simp only [List.length_cons, List.length_nil]
    omega

theorem overwrite_length {fifo : List (BitVec 8)} (val : BitVec 8)
    (bounded : fifo.length ≤ fifoSize) :
    (overwriteOnFull fifo val).length = min (fifo.length + 1) fifoSize := by
  rw [overwrite_on_full fifo val bounded, List.length_append, List.length_drop]
  split_ifs with full
  · rw [full]
    simp [fifoSize]
  · simp only [List.length_cons, List.length_nil]
    omega

/-- Where a call stands: `copied` is behind the unlock. -/
inductive Call (Request : Type) where
  | entered (request : Request) (nonblock : Bool)
  | waiting (request : Request) (nonblock : Bool) (phase : WaitQueue.Phase)
  | copying (request : Request)
  | copied (request : Request) (copied : Nat) (ret : Int)
  | returned (ret : Int)
  deriving DecidableEq

section call

variable {Request : Type}

def Call.phase : Call Request → Option WaitQueue.Phase
  | .waiting _ _ phase => some phase
  | _ => none

def Call.wake : Call Request → Call Request
  | .waiting request nonblock phase => .waiting request nonblock (WaitQueue.wake phase)
  | call => call

def Call.signal : Call Request → Option (Call Request)
  | .waiting request nonblock phase =>
      (WaitQueue.signal phase).map fun phase => .waiting request nonblock phase
  | _ => none

/-- Behind the unlock with something copied. -/
def Call.owes : Call Request → Bool
  | .copied _ count _ => count != 0
  | _ => false

/-- Between its test and its return. -/
def Call.passed : Call Request → Bool
  | .copying _ => true
  | .copied _ _ _ => true
  | _ => false

def Call.live : Call Request → Bool
  | .returned _ => false
  | _ => true

@[simp] theorem Call.wake_phase (call : Call Request) :
    call.wake.phase = call.phase.map WaitQueue.wake := by
  cases call <;> rfl

@[simp] theorem Call.wake_live (call : Call Request) : call.wake.live = call.live := by
  cases call <;> rfl

@[simp] theorem Call.wake_owes (call : Call Request) : call.wake.owes = call.owes := by
  cases call <;> rfl

theorem Call.unpassed_free {call : Call Request} (unpassed : call.passed = false) :
    call.owes = false := by
  cases call with
  | copied request count ret => cases unpassed
  | _ => rfl

/-- Whether a call sleeps. -/
abbrev Sleeps (calls : List (Call Request)) : Prop := WaitQueue.Sleeps Call.phase calls

abbrev NoneLost (calls : List (Call Request)) (condition owed : Prop) : Prop :=
  WaitQueue.NoneLost Call.phase calls condition owed

def Owes (calls : List (Call Request)) : Prop := ∃ call ∈ calls, call.owes = true

theorem owes_wake {calls : List (Call Request)} : Owes (calls.map Call.wake) ↔ Owes calls := by
  constructor
  · intro owes
    rcases owes with ⟨call, present, owing⟩
    rcases List.mem_map.mp present with ⟨old, there, same⟩
    rw [← same, Call.wake_owes] at owing
    exact ⟨old, there, owing⟩
  · intro owes
    rcases owes with ⟨call, present, owing⟩
    exact ⟨call.wake, List.mem_map_of_mem present, by rwa [Call.wake_owes]⟩

theorem owes_append {calls : List (Call Request)} (call : Call Request) (owes : Owes calls) :
    Owes (calls ++ [call]) := by
  rcases owes with ⟨owing, present, owed⟩
  exact ⟨owing, List.mem_append_left _ present, owed⟩

/-- A move of a call that owes nothing leaves the others' debts. -/
theorem owes_set {calls : List (Call Request)} {i : Nat} {call moved : Call Request}
    (here : calls[i]? = some call) (free : call.owes = false) (owes : Owes calls) :
    Owes (calls.set i moved) := by
  rcases owes with ⟨owing, present, owed⟩
  rcases List.mem_iff_getElem?.mp present with ⟨j, there⟩
  have apart : i ≠ j := by
    intro same
    rw [← same, here] at there
    cases there
    rw [free] at owed
    cases owed
  refine ⟨owing, List.mem_of_getElem? (i := j) ?_, owed⟩
  rw [List.getElem?_set_ne apart]
  exact there

theorem owes_set_self {calls : List (Call Request)} {i : Nat} {call moved : Call Request}
    (here : calls[i]? = some call) (owing : moved.owes = true) : Owes (calls.set i moved) := by
  have bound := (List.getElem?_eq_some_iff.mp here).1
  exact ⟨moved, List.mem_set bound moved, owing⟩

/-- A wake-up returns no call. -/
theorem returned_woken {calls : List (Call Request)} {i : Nat} {ret : Int}
    (there : (calls.map Call.wake)[i]? = some (.returned ret)) :
    calls[i]? = some (.returned ret) := by
  rw [List.getElem?_map, Option.map_eq_some_iff] at there
  rcases there with ⟨call, found, same⟩
  cases call with
  | returned old =>
      cases same
      exact found
  | _ => cases same

/-- A move to no positive result leaves the positive results as they were. -/
theorem returned_set {calls : List (Call Request)} {i j : Nat} {moved : Call Request} {ret : Int}
    (fails : ∀ ret, moved = .returned ret → ret ≤ 0) (positive : 0 < ret)
    (there : (calls.set i moved)[j]? = some (.returned ret)) :
    calls[j]? = some (.returned ret) := by
  by_cases same : i = j
  · have bound := (List.getElem?_eq_some_iff.mp there).1
    rw [List.length_set] at bound
    rw [same, List.getElem?_set_self bound] at there
    have negative := fails ret (Option.some.inj there)
    omega
  · rwa [List.getElem?_set_ne same] at there

/-- A new call without a positive result leaves the positive results as they were. -/
theorem returned_append {calls : List (Call Request)} {i : Nat} {fresh : Call Request} {ret : Int}
    (fails : ∀ ret, fresh = .returned ret → ret ≤ 0) (positive : 0 < ret)
    (there : (calls ++ [fresh])[i]? = some (.returned ret)) :
    calls[i]? = some (.returned ret) := by
  rw [List.getElem?_append] at there
  split_ifs at there
  · exact there
  · have negative := fails ret (List.mem_singleton.mp (List.mem_of_getElem? there)).symm
    omega

end call

/-- `retests` is a `while` around the wait in place of an `if`. -/
structure Transfer (Request : Type) where
  blocked : List (BitVec 8) → Bool
  retests : Bool
  copy : List (BitVec 8) → Request → Nat → List (BitVec 8) × Int × Nat

namespace Transfer

variable {Request : Type}

/-- `reachable` is how much of the user's buffer the copy can reach. -/
def advance (t : Transfer Request) (fifo : List (BitVec 8)) (signalled : Bool)
    (reachable : Nat) : Call Request → Option (List (BitVec 8) × Call Request)
  | .entered request nonblock =>
      some (fifo,
        if t.blocked fifo then
          if nonblock then .returned eagain else .waiting request nonblock .testing
        else .copying request)
  | .waiting request nonblock phase =>
      (WaitQueue.advance (!t.blocked fifo) signalled phase).map fun outcome =>
        match outcome with
        | .waits phase => (fifo, .waiting request nonblock phase)
        | .holds =>
            (fifo, if t.retests then .entered request nonblock else .copying request)
        | .interrupted => (fifo, .returned erestartsys)
  | .copying request =>
      let (fifo, ret, copied) := t.copy fifo request reachable
      some (fifo, .copied request copied ret)
  | _ => none

def advanceAt (t : Transfer Request) (fifo : List (BitVec 8)) (calls : List (Call Request))
    (i : Nat) (signalled : Bool) (reachable : Nat) :
    Option (List (BitVec 8) × List (Call Request)) :=
  match calls[i]? with
  | none => none
  | some call =>
      (t.advance fifo signalled reachable call).map fun (fifo, call) => (fifo, calls.set i call)

/-- A signal for call `i`. -/
def signalAt (calls : List (Call Request)) (i : Nat) : Option (List (Call Request)) :=
  match calls[i]? with
  | none => none
  | some call => call.signal.map fun call => calls.set i call

/-- Everything a call does up to its unlock. Without touching the fifo it goes to sleep in
front of one that blocks it, goes on to the copy in front of one that does not (which it always
does when it comes in), or fails; or it copies. -/
inductive Move (t : Transfer Request) (fifo : List (BitVec 8)) (reachable : Nat) :
    Call Request → List (BitVec 8) → Call Request → Prop where
  | waits (call moved : Call Request) (live : call.live = true) (unpassed : call.passed = false)
      (sleeps : moved.phase = some .asleep → t.blocked fifo = true)
      (passes : ∀ request, moved = .copying request → t.blocked fifo = false)
      (uncopied : ∀ request copied ret, moved ≠ .copied request copied ret)
      (fails : ∀ ret, moved = .returned ret → ret < 0)
      (opens : ∀ request nonblock, call = .entered request nonblock →
        t.blocked fifo = false → moved = .copying request) : Move t fifo reachable call fifo moved
  | copies (request : Request) :
      Move t fifo reachable (.copying request) (t.copy fifo request reachable).1
        (.copied request (t.copy fifo request reachable).2.2 (t.copy fifo request reachable).2.1)

variable {t : Transfer Request} {fifo after : List (BitVec 8)} {reachable : Nat}

theorem advance_moves {signalled : Bool} {call moved : Call Request}
    (taken : t.advance fifo signalled reachable call = some (after, moved)) :
    Move t fifo reachable call after moved := by
  cases call with
  | entered request nonblock =>
      cases taken
      refine .waits _ _ rfl rfl ?_ ?_ ?_ ?_ ?_
      · split_ifs <;> nofun
      · intro request passes
        split_ifs at passes with blocked
        exact eq_false_of_ne_true blocked
      · split_ifs <;> nofun
      · intro ret failed
        split_ifs at failed
        cases failed
        decide
      · intro _ _ same passes
        cases same
        rw [passes]
        rfl
  | waiting request nonblock phase =>
      rw [advance, Option.map_eq_some_iff] at taken
      rcases taken with ⟨outcome, advanced, same⟩
      cases outcome with
      | waits phase =>
          cases same
          refine .waits _ _ rfl rfl ?_ (by nofun) (by nofun) (by nofun) (by nofun)
          intro asleep
          have slept : phase = .asleep := Option.some.inj asleep
          rw [slept] at advanced
          have closed := WaitQueue.advance_asleep advanced
          rwa [Bool.not_eq_false'] at closed
      | holds =>
          cases same
          refine .waits _ _ rfl rfl ?_ ?_ ?_ ?_ (by nofun)
          · split_ifs <;> nofun
          · intro _ _
            have opened := WaitQueue.advance_holds advanced
            rwa [Bool.not_eq_true'] at opened
          · split_ifs <;> nofun
          · split_ifs <;> nofun
      | interrupted =>
          cases same
          refine .waits _ _ rfl rfl (by nofun) (by nofun) (by nofun) ?_ (by nofun)
          intro ret failed
          cases failed
          decide
  | copying request =>
      cases taken
      exact .copies request
  | copied request copied ret => cases taken
  | returned ret => cases taken

theorem advance_at_moves {signalled : Bool} {calls moved : List (Call Request)} {i : Nat}
    (taken : t.advanceAt fifo calls i signalled reachable = some (after, moved)) :
    ∃ call call', calls[i]? = some call ∧ Move t fifo reachable call after call' ∧
      moved = calls.set i call' := by
  unfold advanceAt at taken
  cases here : calls[i]? with
  | none =>
      rw [here] at taken
      cases taken
  | some call =>
      rw [here] at taken
      dsimp only at taken
      rw [Option.map_eq_some_iff] at taken
      rcases taken with ⟨result, advanced, same⟩
      cases same
      exact ⟨call, result.2, rfl, advance_moves advanced, rfl⟩

theorem signal_at_moves {calls moved : List (Call Request)} {i : Nat}
    (taken : signalAt calls i = some moved) :
    ∃ request nonblock phase later, calls[i]? = some (.waiting request nonblock phase) ∧
      later ≠ .asleep ∧ moved = calls.set i (.waiting request nonblock later) := by
  unfold signalAt at taken
  cases here : calls[i]? with
  | none =>
      rw [here] at taken
      cases taken
  | some call =>
      rw [here] at taken
      dsimp only at taken
      rw [Option.map_eq_some_iff] at taken
      rcases taken with ⟨call', signalled, same⟩
      cases call with
      | waiting request nonblock phase =>
          rw [Call.signal, Option.map_eq_some_iff] at signalled
          rcases signalled with ⟨later, woken, moves⟩
          rw [← moves] at same
          exact ⟨request, nonblock, phase, later, rfl, WaitQueue.signal_awake woken, same.symm⟩
      | _ => cases signalled

theorem move_free {call moved : Call Request}
    (move : Move t fifo reachable call after moved) : call.owes = false := by
  cases move with
  | waits _ _ _ unpassed => exact Call.unpassed_free unpassed
  | copies => rfl

/-- A call goes to sleep only in front of a fifo that blocks it. -/
theorem moved_sleepers {calls : List (Call Request)} {call moved : Call Request} {i : Nat}
    {condition owed : Prop} (before : NoneLost calls condition owed)
    (move : Move t fifo reachable call after moved)
    (blocks : t.blocked fifo = true → ¬condition) :
    NoneLost (calls.set i moved) condition owed := by
  apply before.moved
  cases move with
  | waits _ _ _ _ sleeps => exact fun asleep => blocks (sleeps asleep)
  | copies request => nofun

end Transfer

/-- `blocked` and the copy of `mydev_read`, the same in both files. -/
def mydevRead : Transfer Nat where
  blocked fifo := fifo = []
  retests := false
  copy := kfifoToUser

/-- `mydev_write`, with or without the loop around its wait. -/
def mydevWriteCall (retests : Bool) : Transfer (List (BitVec 8)) where
  blocked fifo := fifo.length = fifoSize
  retests := retests
  copy := kfifoFromUser

/-- Behind the unlock: an error goes before the number. -/
def callResult (copied : Nat) (ret : Int) : Int := if ret ≠ 0 then ret else copied

theorem read_copies (fifo : List (BitVec 8)) (count room : Nat) :
    (mydevRead.copy fifo count room).1 = fifo.drop (mydevRead.copy fifo count room).2.2 ∧
      (mydevRead.copy fifo count room).2.2 ≤ fifo.length := by
  refine ⟨rfl, ?_⟩
  unfold mydevRead kfifoToUser
  dsimp only
  omega

theorem write_copies {fifo : List (BitVec 8)} (bounded : fifo.length ≤ fifoSize)
    (retests : Bool) (buf : List (BitVec 8)) (readable : Nat) :
    ((mydevWriteCall retests).copy fifo buf readable).1 =
        fifo ++ buf.take ((mydevWriteCall retests).copy fifo buf readable).2.2 ∧
      ((mydevWriteCall retests).copy fifo buf readable).1.length =
        fifo.length + ((mydevWriteCall retests).copy fifo buf readable).2.2 ∧
      ((mydevWriteCall retests).copy fifo buf readable).1.length ≤ fifoSize := by
  refine ⟨rfl, ?_, ?_⟩
  all_goals
    unfold mydevWriteCall kfifoFromUser
    dsimp only
    rw [List.length_append, List.length_take]
    omega

/-- A number of bytes or a fault. -/
def Answers (ret : Int) : Prop := 0 < ret ∨ ret = efault

theorem Answers.ne_zero {ret : Int} (answers : Answers ret) : ret ≠ 0 := by
  rcases answers with positive | fault
  · exact Int.ne_of_gt positive
  · rw [fault]
    decide

/-- Where there is something to copy the answer is a number or a fault. -/
theorem copy_answers {len : Nat} (given : 0 < len) (reachable : Nat) :
    Answers (callResult (min len reachable) (if reachable < len then efault else 0)) := by
  unfold callResult
  by_cases fault : reachable < len
  · simp only [if_pos fault]
    exact .inr (if_pos (by decide))
  · simp only [if_neg fault]
    rw [if_neg (by decide)]
    exact .inl (by omega)

/-- The reads that ask for something. -/
def Asks (len : Nat) : Prop := 0 < len

theorem supplied_opens {fifo after : List (BitVec 8)} (grows : fifo.length ≤ after.length) :
    mydevRead.blocked fifo = false → mydevRead.blocked after = false := by
  intro data
  have length := List.length_pos_iff.mpr (of_decide_eq_false data)
  exact decide_eq_false (List.length_pos_iff.mp (Nat.lt_of_lt_of_le length grows))

theorem read_answers {fifo : List (BitVec 8)} (passed : mydevRead.blocked fifo = false)
    {count : Nat} (given : 0 < count) (room : Nat) :
    Answers (callResult (mydevRead.copy fifo count room).2.2
      (mydevRead.copy fifo count room).2.1) := by
  have data : 0 < fifo.length := List.length_pos_iff.mpr (of_decide_eq_false passed)
  exact copy_answers (Nat.lt_min.mpr ⟨given, data⟩) room

theorem write_answers {fifo : List (BitVec 8)} (bounded : fifo.length ≤ fifoSize)
    {retests : Bool} (passed : (mydevWriteCall retests).blocked fifo = false)
    {buf : List (BitVec 8)} (given : buf ≠ []) (readable : Nat) :
    Answers (callResult ((mydevWriteCall retests).copy fifo buf readable).2.2
      ((mydevWriteCall retests).copy fifo buf readable).2.1) := by
  have room : fifo.length ≠ fifoSize := of_decide_eq_false passed
  have bytes : 0 < buf.length := List.length_pos_iff.mpr given
  exact copy_answers (Nat.lt_min.mpr ⟨bytes, by omega⟩) readable

section alone

variable {Request : Type} {calls : List (Call Request)} {i : Nat} {call moved : Call Request}

/-- At most one call has not returned. -/
def Alone (calls : List (Call Request)) : Prop :=
  ∀ (i j : Nat) (first second : Call Request), calls[i]? = some first →
    calls[j]? = some second → first.live = true → second.live = true → i = j

theorem Alone.set (alone : Alone calls) (here : calls[i]? = some call)
    (live : call.live = true) : Alone (calls.set i moved) := by
  -- whoever is live afterwards was live before, or is the one that has moved
  have before (j : Nat) (other : Call Request) (there : (calls.set i moved)[j]? = some other)
      (awake : other.live = true) : j = i := by
    by_cases same : i = j
    · exact same.symm
    · rw [List.getElem?_set_ne same] at there
      exact alone j i other call there here awake live
  intro j k first second firstThere secondThere firstLive secondLive
  exact (before j first firstThere firstLive).trans (before k second secondThere secondLive).symm

theorem Alone.append (finished : ∀ call ∈ calls, call.live = false) (call : Call Request) :
    Alone (calls ++ [call]) := by
  have last (j : Nat) (other : Call Request) (there : (calls ++ [call])[j]? = some other)
      (awake : other.live = true) : j = calls.length := by
    by_contra apart
    have bound := (List.getElem?_eq_some_iff.mp there).1
    rw [List.length_append, List.length_singleton] at bound
    rw [List.getElem?_append_left (by omega)] at there
    rw [finished other (List.mem_of_getElem? there)] at awake
    cases awake
  intro j k first second firstThere secondThere firstLive secondLive
  exact (last j first firstThere firstLive).trans (last k second secondThere secondLive).symm

theorem Alone.wake (alone : Alone calls) : Alone (calls.map Call.wake) := by
  intro j k first second firstThere secondThere firstLive secondLive
  rw [List.getElem?_map, Option.map_eq_some_iff] at firstThere secondThere
  rcases firstThere with ⟨a, aThere, rfl⟩
  rcases secondThere with ⟨b, bThere, rfl⟩
  rw [Call.wake_live] at firstLive secondLive
  exact alone j k a b aThere bThere firstLive secondLive

/-- A call by itself meets, under the lock, a fifo that still passes its test, and has an
answer other than zero where it has `asked` for something. -/
structure Served (t : Transfer Request) (asked : Request → Prop) (fifo : List (BitVec 8))
    (calls : List (Call Request)) : Prop where
  alone : Alone calls
  tested : ∀ request, .copying request ∈ calls → t.blocked fifo = false
  answered : ∀ request copied ret, .copied request copied ret ∈ calls → asked request →
    callResult copied ret ≠ 0

namespace Served

variable {t : Transfer Request} {asked : Request → Prop} {fifo after : List (BitVec 8)}
  {reachable : Nat}

theorem idle (t : Transfer Request) (asked : Request → Prop) (fifo : List (BitVec 8))
    {calls : List (Call Request)} (finished : ∀ call ∈ calls, call.live = false) :
    Served t asked fifo calls := by
  refine ⟨?_, ?_, ?_⟩
  · intro i j first second here there live
    rw [finished first (List.mem_of_getElem? here)] at live
    cases live
  · intro request there
    cases finished _ there
  · intro request copied ret there
    cases finished _ there

/-- What happens to the fifo from elsewhere and does not block it. -/
theorem supplied (before : Served t asked fifo calls)
    (opens : t.blocked fifo = false → t.blocked after = false) :
    Served t asked after calls where
  alone := before.alone
  tested request there := opens (before.tested request there)
  answered := before.answered

/-- A live call becomes one that is neither in front of its copy, unless the fifo passes its
test, nor right behind it. -/
theorem set (before : Served t asked fifo calls) (here : calls[i]? = some call)
    (live : call.live = true)
    (passes : ∀ request, moved = .copying request → t.blocked fifo = false)
    (uncopied : ∀ request copied ret, moved ≠ .copied request copied ret) :
    Served t asked fifo (calls.set i moved) where
  alone := before.alone.set here live
  tested request there := by
    rcases List.mem_or_eq_of_mem_set there with old | same
    · exact before.tested request old
    · exact passes request same.symm
  answered request copied ret there := by
    rcases List.mem_or_eq_of_mem_set there with old | same
    · exact before.answered request copied ret old
    · exact absurd same.symm (uncopied request copied ret)

theorem woken (before : Served t asked fifo calls) :
    Served t asked fifo (calls.map Call.wake) where
  alone := before.alone.wake
  tested request there := by
    rcases List.mem_map.mp there with ⟨call, present, same⟩
    cases call with
    | copying old =>
        cases same
        exact before.tested request present
    | _ => cases same
  answered request copied ret there := by
    rcases List.mem_map.mp there with ⟨call, present, same⟩
    cases call with
    | copied old count result =>
        cases same
        exact before.answered request copied ret present
    | _ => cases same

theorem joined (before : Served t asked fifo calls)
    (finished : ∀ call ∈ calls, call.live = false) {fresh : Call Request}
    (unpassed : fresh.passed = false) : Served t asked fifo (calls ++ [fresh]) where
  alone := Alone.append finished _
  tested request there := by
    rcases List.mem_append.mp there with old | same
    · exact before.tested request old
    · rw [← List.mem_singleton.mp same] at unpassed
      cases unpassed
  answered request copied ret there := by
    rcases List.mem_append.mp there with old | same
    · exact before.answered request copied ret old
    · rw [← List.mem_singleton.mp same] at unpassed
      cases unpassed

/-- The call's own step, where a copy from a fifo that passes the test has an answer. -/
theorem advanced (before : Served t asked fifo calls) (here : calls[i]? = some call)
    (move : Transfer.Move t fifo reachable call after moved)
    (answers : ∀ request, t.blocked fifo = false → asked request →
      Answers (callResult (t.copy fifo request reachable).2.2
        (t.copy fifo request reachable).2.1)) :
    Served t asked after (calls.set i moved) := by
  cases move with
  | waits _ _ live _ _ passes uncopied => exact before.set here live passes uncopied
  | copies request =>
      have passed := before.tested request (List.mem_of_getElem? here)
      refine ⟨before.alone.set here rfl, ?_, ?_⟩
      · -- nobody else is in front of a copy
        intro other there
        rcases List.mem_iff_getElem?.mp there with ⟨j, found⟩
        by_cases same : i = j
        · rw [← same, List.getElem?_set_self (List.getElem?_eq_some_iff.mp here).1] at found
          cases found
        · rw [List.getElem?_set_ne same] at found
          exact absurd (before.alone i j _ _ here found rfl rfl) same
      · intro other copied ret there given
        rcases List.mem_or_eq_of_mem_set there with old | same
        · exact before.answered other copied ret old given
        · cases same
          exact (answers request passed given).ne_zero

end Served

end alone

end Testings.Kfifo
