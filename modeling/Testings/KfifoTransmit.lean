import Testings.KfifoOpenRelease

/-!
# Bytes that wait for the transmit work

`mydev_open`, `mydev_write`, `mydev_release` and `tx_work_fn` of `kfifo_rxtx.c` as
single steps. `schedule_work` makes the work pending, `cancel_work_sync` takes a
pending work back; a running one is a step, so it is over when another begins.
-/

set_option autoImplicit false

namespace Testings.Kfifo

open AtomicCounter

/-- `FIFO_SIZE` -/
def fifoSize : Nat := 1024

def eagain : Int := -11
def efault : Int := -14
def erestartsys : Int := -512

/-- `sent` are the bytes given to `hw_tx_send_byte`, `files` the files that are open. -/
structure TxDevice where
  mydev : Mydev
  txFifo : List (BitVec 8)
  txWorkPending : Bool
  sent : List (BitVec 8)
  files : Nat
  deriving DecidableEq

/-- The FIFO, the result and the number that is copied, of a user buffer whose first
`readable` bytes can be read: what is copied before a fault stays in the FIFO. -/
def kfifoFromUser (fifo buf : List (BitVec 8)) (readable : Nat) :
    List (BitVec 8) × Int × Nat :=
  let len := min buf.length (fifoSize - fifo.length)
  let copied := min len readable
  (fifo ++ buf.take copied, if readable < len then efault else 0, copied)

/-- `none` while the write waits for room. -/
def mydevWrite (d : TxDevice) (buf : List (BitVec 8)) (nonblock interrupted : Bool)
    (readable : Nat) : Option (TxDevice × Int) :=
  if buf.length = 0 then some (d, 0)
  else if d.txFifo.length = fifoSize then
    if nonblock then some (d, eagain)
    else if interrupted then some (d, erestartsys)
    else none
  else
    let (fifo, ret, copied) := kfifoFromUser d.txFifo buf readable
    let d := { d with txFifo := fifo }
    if ret ≠ 0 then some (d, ret) else some ({ d with txWorkPending := true }, copied)

/-- `tx_work_fn` takes byte after byte. -/
def drain : List (BitVec 8) → List (BitVec 8) → List (BitVec 8) × List (BitVec 8)
  | [], sent => ([], sent)
  | byte :: rest, sent => drain rest (sent ++ [byte])

/-- The work is no longer pending when it runs. -/
def txWorkFn (d : TxDevice) : TxDevice :=
  let (fifo, sent) := drain d.txFifo d.sent
  { d with txFifo := fifo, txWorkPending := false, sent := sent }

def mydevOpen (d : TxDevice) (granted : Bool) : TxDevice :=
  let (count, old) := fetchAddUnless d.mydev.openCount 1 intMax
  let m := { d.mydev with openCount := count }
  if old = 0 then
    match requestIrq m granted with
    | some m => { d with mydev := m, files := d.files + 1 }
    | none => { d with mydev := { m with openCount := decReturn m.openCount } }
  else { d with mydev := m, files := d.files + 1 }

/-- The last release frees the interrupt and cancels the work. -/
def mydevRelease (d : TxDevice) : TxDevice :=
  let count := decReturn d.mydev.openCount
  let m := { d.mydev with openCount := count }
  if count = 0 then { d with mydev := freeIrq m, txWorkPending := false, files := d.files - 1 }
  else { d with mydev := m, files := d.files - 1 }

inductive TxAction where
  | openFile (granted : Bool)
  | write (buf : List (BitVec 8)) (nonblock interrupted : Bool) (readable : Nat)
  | release
  | work
  deriving DecidableEq

/-- Files are written to and released while they are open. -/
def txStep (d : TxDevice) : TxAction → Option TxDevice
  | .openFile granted => some (mydevOpen d granted)
  | .write buf nonblock interrupted readable =>
      if 0 < d.files then (mydevWrite d buf nonblock interrupted readable).map Prod.fst else none
  | .release => if 0 < d.files then some (mydevRelease d) else none
  | .work => if d.txWorkPending then some (txWorkFn d) else none

def transmit : StepSystem TxDevice TxAction where
  start := ⟨⟨0, false⟩, [], false, [], 0⟩
  step := txStep

/-- What has been accepted will be sent. -/
def NothingStranded (d : TxDevice) : Prop := d.txFifo ≠ [] → d.txWorkPending = true

/-- The last release while bytes are queued, and a write that faults behind its first
bytes while the work is not pending. -/
def Strands (d : TxDevice) : TxAction → Prop
  | .release => d.mydev.openCount = 1 ∧ d.txFifo ≠ []
  | .write buf _ _ readable =>
      d.txWorkPending = false ∧ 0 < readable ∧
        readable < min buf.length (fifoSize - d.txFifo.length)
  | _ => False

instance (d : TxDevice) : Decidable (NothingStranded d) := inferInstanceAs (Decidable (_ → _))

instance (d : TxDevice) (action : TxAction) : Decidable (Strands d action) := by
  unfold Strands
  split <;> infer_instance

section step

variable {d next : TxDevice}

theorem drain_empties (fifo sent : List (BitVec 8)) : drain fifo sent = ([], sent ++ fifo) := by
  induction fifo generalizing sent with
  | nil => rw [drain, List.append_nil]
  | cons byte rest ih => rw [drain, ih, List.append_assoc, List.singleton_append]

theorem open_keeps (d : TxDevice) (granted : Bool) :
    (mydevOpen d granted).txFifo = d.txFifo ∧
      (mydevOpen d granted).txWorkPending = d.txWorkPending := by
  unfold mydevOpen
  dsimp only
  split_ifs
  · split
    · exact ⟨rfl, rfl⟩
    · exact ⟨rfl, rfl⟩
  · exact ⟨rfl, rfl⟩

theorem last_release_iff (count : BitVec 32) : decReturn count = 0 ↔ count = 1 := by
  constructor
  · exact dec_return_zero
  · intro one
    rw [one]
    rfl

theorem release_stranded_iff (before : NothingStranded d) :
    NothingStranded (mydevRelease d) ↔ ¬Strands d .release := by
  unfold mydevRelease Strands
  dsimp only
  by_cases last : decReturn d.mydev.openCount = 0
  · have one := (last_release_iff _).mp last
    rw [if_pos last]
    constructor
    · intro sent both
      cases sent both.2
    · intro empty queued
      exact absurd ⟨one, queued⟩ empty
  · have more : d.mydev.openCount ≠ 1 := fun one => last ((last_release_iff _).mpr one)
    rw [if_neg last]
    exact ⟨fun _ both => more both.1, fun _ => before⟩

/-- A write that finds something to copy and room for it. -/
theorem write_room {buf : List (BitVec 8)} (given : buf.length ≠ 0)
    (room : d.txFifo.length ≠ fifoSize) (nonblock interrupted : Bool) (readable : Nat) :
    mydevWrite d buf nonblock interrupted readable =
      if readable < min buf.length (fifoSize - d.txFifo.length) then
        some ({ d with txFifo := d.txFifo ++ buf.take readable }, efault)
      else
        some ({ d with
          txFifo := d.txFifo ++ buf.take (min buf.length (fifoSize - d.txFifo.length))
          txWorkPending := true }, (min buf.length (fifoSize - d.txFifo.length) : Nat)) := by
  unfold mydevWrite kfifoFromUser
  dsimp only
  rw [if_neg given, if_neg room]
  by_cases fault : readable < min buf.length (fifoSize - d.txFifo.length)
  · rw [if_pos fault, if_pos fault, if_pos (by decide), Nat.min_eq_right (Nat.le_of_lt fault)]
  · rw [if_neg fault, if_neg fault, if_neg (by decide),
      Nat.min_eq_left (Nat.le_of_not_lt fault)]

theorem write_stranded_iff (before : NothingStranded d) {buf : List (BitVec 8)}
    {nonblock interrupted : Bool} {readable : Nat} {ret : Int}
    (taken : mydevWrite d buf nonblock interrupted readable = some (next, ret)) :
    NothingStranded next ↔ ¬Strands d (.write buf nonblock interrupted readable) := by
  -- nothing is copied where there is nothing to copy or no room
  have unchanged (nothing : min buf.length (fifoSize - d.txFifo.length) = 0) :
      NothingStranded d ↔ ¬Strands d (.write buf nonblock interrupted readable) := by
    constructor
    · intro _ strands
      have some_copied := strands.2.2
      omega
    · exact fun _ => before
  by_cases given : buf.length = 0
  · rw [mydevWrite, if_pos given] at taken
    cases taken
    exact unchanged (by omega)
  · by_cases room : d.txFifo.length = fifoSize
    · have same : next = d := by
        rw [mydevWrite, if_neg given, if_pos room] at taken
        split_ifs at taken <;> cases taken <;> rfl
      rw [same]
      exact unchanged (by omega)
    · rw [write_room given room] at taken
      split_ifs at taken with fault
      · cases taken
        unfold NothingStranded Strands at *
        dsimp only
        cases pending : d.txWorkPending with
        | true =>
            constructor
            · intro _ strands
              cases strands.1
            · exact fun _ _ => rfl
        | false =>
            have empty : d.txFifo = [] := by
              by_contra queued
              rw [before queued] at pending
              cases pending
            rw [empty, List.nil_append]
            rw [empty] at fault
            constructor
            · intro sent strands
              have copied : buf.take readable ≠ [] := by
                intro none
                have length := congrArg List.length none
                rw [List.length_take, List.length_nil] at length
                omega
              cases sent copied
            · intro whole copied
              have none : readable = 0 := by
                by_contra positive
                exact whole ⟨rfl, Nat.pos_of_ne_zero positive, fault⟩
              rw [none, List.take_zero] at copied
              exact absurd rfl copied
      · cases taken
        exact ⟨fun _ strands => fault strands.2.2, fun _ _ => rfl⟩

/-- One step of a state in which nothing is stranded. -/
theorem step_stranded_iff (before : NothingStranded d) {action : TxAction}
    (taken : txStep d action = some next) : NothingStranded next ↔ ¬Strands d action := by
  cases action with
  | openFile granted =>
      cases taken
      obtain ⟨fifo, pending⟩ := open_keeps d granted
      refine ⟨fun _ => id, fun _ => ?_⟩
      rw [NothingStranded, fifo, pending]
      exact before
  | write buf nonblock interrupted readable =>
      rw [txStep] at taken
      split_ifs at taken with opened
      obtain ⟨result, written, same⟩ := Option.map_eq_some_iff.mp taken
      rw [← same]
      exact write_stranded_iff before written
  | release =>
      rw [txStep] at taken
      split_ifs at taken with opened
      cases taken
      exact release_stranded_iff before
  | work =>
      rw [txStep] at taken
      split_ifs at taken with pending
      cases taken
      refine ⟨fun _ => id, fun _ queued => ?_⟩
      unfold txWorkFn at queued
      rw [drain_empties] at queued
      exact absurd rfl queued

end step

/-- No step strands a byte. -/
def NoStranding (d : TxDevice) (action : TxAction) : Prop := ¬Strands d action

instance (d : TxDevice) (action : TxAction) : Decidable (NoStranding d action) :=
  inferInstanceAs (Decidable (¬_))

/-- In every run without such a release or fault the work is pending while bytes are
queued; where it still is, the next step strands them exactly if it is one of these. -/
theorem accepted_bytes_not_stranded (d : TxDevice) :
    ((transmit.restrict NoStranding).Reachable d → NothingStranded d) ∧
      (transmit.Reachable d → NothingStranded d → ∀ action next,
        transmit.step d action = some next → (NothingStranded next ↔ NoStranding d action)) := by
  constructor
  · intro reached
    apply reached.invariant NothingStranded (by decide)
    apply StepSystem.restrict_preserved
    intro state action next before clean taken
    exact (step_stranded_iff before taken).mpr clean
  · intro _ before action next taken
    exact step_stranded_iff before taken

theorem accepted_bytes_not_stranded_two_writes :
    ∃ d : TxDevice, d.txFifo = [0x41, 0x42] ∧ NothingStranded d := by
  obtain ⟨d, reached, passes⟩ := StepSystem.reachable_of_run (transmit.restrict NoStranding)
    [.openFile true, .write [0x41] false false 1, .write [0x42] false false 1]
    (fun d => decide (d.txFifo = [0x41, 0x42])) (by decide)
  exact ⟨d, of_decide_eq_true passes, (accepted_bytes_not_stranded d).1 reached⟩

/-- Opened, written to and closed before the work has run. -/
theorem release_strands_byte : ¬∀ d, transmit.Reachable d → NothingStranded d := by
  intro always
  obtain ⟨d, reached, passes⟩ := StepSystem.reachable_of_run transmit
    [.openFile true, .write [0x41] false false 1, .release]
    (fun d => decide (d.txFifo = [0x41] ∧ d.txWorkPending = false)) (by decide)
  obtain ⟨queued, idle⟩ := of_decide_eq_true passes
  have pending := always d reached (by rw [queued]; exact List.cons_ne_nil _ _)
  rw [idle] at pending
  cases pending

end Testings.Kfifo
