import Testings.StepSystem
import Testings.SpiSlaveReceive

/-!
# The SPI slave driver as a system of interleaved threads

The receiving thread, `spi_imx_prepare_message` and `spi_imx_transfer` each
have a program point; an action is one atomic step of one of them or of their
surroundings (the clock, a signal, `kthread_stop`). Sections under `rx_lock`
are single steps, except that the reader keeps the lock from its test of
`RXRING_USED` to the copy or the unlock, so the other sections wait for it.
-/

set_option autoImplicit false

namespace Testings.SpiSlave

/-- Where `rx_thrd_fn` and the `receive_packet` it calls are. -/
inductive RxThread where
  | absent
  | wipe
  | clear
  | call
  | reserved (idx : Int)
  | poll (idx : Int) (cnt : Nat) (rv : Int)
  | burst (idx : Int) (cnt : Nat) (rv : Int)
  | count (idx : Int) (cnt : Nat) (rv : Int)
  | publish (idx : Int) (rv : Int)
  | wake (rv : Int)
  | returned (rv : Int)
  | exit
  deriving DecidableEq

/-- Where `spi_imx_prepare_message` is; `now` is its `now_jiffies`. -/
inductive PrepareMessage where
  | idle
  | test (now : BitVec 64)
  | wipe (now : BitVec 64)
  | clear (now : BitVec 64)
  | stamp (now : BitVec 64)
  | launch
  | assign (thrd : Bool)
  deriving DecidableEq

/-- Where `spi_imx_transfer` is. `prepared` records whether the task is still
`TASK_INTERRUPTIBLE` on `rx_wq`; `faulted` has returned `-EFAULT`. -/
inductive Reader where
  | idle
  | locking
  | checked (nReady : Int)
  | unlocked
  | prepared (interruptible : Bool)
  | asleep
  | resumed
  | finished
  | copied
  | faulted
  deriving DecidableEq

structure Driver where
  dev : SpiImx
  rx : RxThread
  prepare : PrepareMessage
  reader : Reader
  rxBuf : List (BitVec 32)
  jiffies : Nat
  shouldStop : Bool
  signalPending : Bool

inductive Action where
  | tick (elapsed : Nat)
  | signal
  | kthreadStop
  | prepareEnter
  | prepareTest
  | prepareWipe
  | prepareClear
  | prepareStamp
  | prepareLaunch (created : Bool)
  | prepareAssign
  | thrdWipe
  | thrdClear
  | reserve
  | checkReserved
  | pollStatus (stat : BitVec 32)
  | fill (val : BitVec 32)
  | countFill
  | drained
  | leave
  | publish
  | wakeUp
  | receiveReturn
  | thrdExit
  | transferEnter
  | transferLock
  | unlockEmpty
  | prepareToWait
  | schedule
  | finishWait
  | signalTest
  | consume
  | transferUnlock
  deriving DecidableEq

/-- `rx_lock` is held across steps by the reader only. -/
def Reader.holdsLock : Reader → Bool
  | .checked _ | .copied | .faulted => true
  | _ => false

def swab32 (val : BitVec 32) : BitVec 32 :=
  ((val &&& 0xFF#32) <<< 24) ||| ((val &&& 0xFF00#32) <<< 8) |||
    ((val &&& 0xFF0000#32) >>> 8) ||| ((val &&& 0xFF000000#32) >>> 24)

def memcpyBswapPacket (packet : List (BitVec 32)) : List (BitVec 32) := packet.map swab32

/-- `delta > 4*HZ` with `unsigned delta = now_jiffies - last_message_jiffies`. -/
def idleExpired (hz : Nat) (now last : BitVec 64) : Bool :=
  4 * hz < ((now - last).setWidth 32).toNat

/-- `wake_up(&spi_imx->rx_wq)`. -/
def Reader.wokenUp : Reader → Reader
  | .prepared _ => .prepared false
  | .asleep => .resumed
  | reader => reader

/-- The copy under `rx_lock` in `spi_imx_transfer`. -/
def transferCopy (s : Driver) : Driver :=
  let idx := rxringTailIdx s.dev.rxRing
  if 0 ≤ idx then
    { s with
      rxBuf := memcpyBswapPacket (slotPacket s.dev.packets idx)
      dev := { s.dev with rxRing := rxringRemove s.dev.rxRing }
      reader := .copied }
  else { s with reader := .faulted }

def step (hz : Nat) (s : Driver) : Action → Option Driver
  | .tick elapsed => some { s with jiffies := s.jiffies + elapsed }
  | .signal =>
      some { s with
        signalPending := true
        reader := if s.reader = .asleep then .resumed else s.reader }
  | .kthreadStop => if s.dev.rxThrd then some { s with shouldStop := true } else none
  | .prepareEnter => match s.prepare with
      | .idle => some { s with prepare := .test (BitVec.ofNat 64 s.jiffies) }
      | _ => none
  | .prepareTest => match s.prepare with
      | .test now =>
          some { s with
            prepare := if idleExpired hz now s.dev.stats.lastMessageJiffies then .wipe now
              else .stamp now }
      | _ => none
  | .prepareWipe => match s.prepare with
      | .wipe now => some { s with dev := { s.dev with stats := .zero }, prepare := .clear now }
      | _ => none
  | .prepareClear => match s.prepare, s.reader.holdsLock with
      | .clear now, false =>
          some { s with
            dev := { s.dev with rxRing := rxringClear s.dev.rxRing }
            prepare := .stamp now }
      | _, _ => none
  | .prepareStamp => match s.prepare with
      | .stamp now =>
          some { s with
            dev := { s.dev with stats := { s.dev.stats with lastMessageJiffies := now } }
            prepare := .launch }
      | _ => none
  | .prepareLaunch created => match s.prepare with
      | .launch =>
          -- `wake_up_process` lets the thread run before `rx_thrd` is assigned
          if s.dev.rxThrd then some { s with prepare := .idle }
          else if created then
            some { s with rx := .wipe, shouldStop := false, prepare := .assign true }
          else some { s with prepare := .assign false }
      | _ => none
  | .prepareAssign => match s.prepare with
      | .assign thrd => some { s with dev := { s.dev with rxThrd := thrd }, prepare := .idle }
      | _ => none
  | .thrdWipe => match s.rx with
      | .wipe => some { s with dev := { s.dev with stats := .zero }, rx := .clear }
      | _ => none
  | .thrdClear => match s.rx, s.reader.holdsLock with
      | .clear, false =>
          some { s with dev := { s.dev with rxRing := rxringClear s.dev.rxRing }, rx := .call }
      | _, _ => none
  | .reserve => match s.rx, s.reader.holdsLock with
      | .call, false =>
          some { s with
            dev := (receivePacketReserve s.dev).1
            rx := .reserved (receivePacketReserve s.dev).2 }
      | _, _ => none
  | .checkReserved => match s.rx with
      | .reserved idx =>
          if idx < 0 then some { s with rx := .returned efault }
          else if 1024#64 < s.dev.stats.pktLost then some { s with rx := .returned (-1) }
          else some { s with rx := .poll idx 0 (-1) }
      | _ => none
  | .pollStatus stat => match s.rx with
      | .poll idx cnt rv =>
          if s.shouldStop = false ∧ rv ≤ 0 then
            some { s with
              dev := { s.dev with stats := countOverrun s.dev.stats stat }
              rx := .burst idx cnt rv }
          else none
      | _ => none
  | .fill val => match s.rx with
      | .burst idx cnt _ =>
          let out := paketizer val s.dev.packets (packetAddress idx) cnt
          some { s with dev := { s.dev with packets := out.1 }, rx := .count idx out.2.1 out.2.2 }
      | _ => none
  | .countFill => match s.rx with
      | .count idx cnt rv =>
          some { s with
            dev := { s.dev with stats := countDword s.dev.stats rv }
            rx := if 0 < rv then .poll idx cnt rv else .burst idx cnt rv }
      | _ => none
  | .drained => match s.rx with
      | .burst idx cnt rv => some { s with rx := .poll idx cnt rv }
      | _ => none
  | .leave => match s.rx with
      | .poll idx _ rv =>
          if s.shouldStop = true ∨ 0 < rv then some { s with rx := .publish idx rv } else none
      | _ => none
  | .publish => match s.rx, s.reader.holdsLock with
      | .publish idx rv, false =>
          some { s with dev := receivePacketPublish s.dev idx, rx := .wake rv }
      | _, _ => none
  | .wakeUp => match s.rx with
      | .wake rv => some { s with rx := .returned rv, reader := s.reader.wokenUp }
      | _ => none
  | .receiveReturn => match s.rx with
      | .returned rv => some { s with rx := if 0 < rv then .call else .exit }
      | _ => none
  | .thrdExit => match s.rx with
      | .exit => some { s with dev := { s.dev with rxThrd := false }, rx := .absent }
      | _ => none
  | .transferEnter => match s.reader with
      | .idle => some { s with reader := .locking }
      | _ => none
  | .transferLock => match s.reader with
      | .locking => some { s with reader := .checked (rxringUsed s.dev.rxRing) }
      | _ => none
  | .unlockEmpty => match s.reader with
      | .checked nReady => if nReady = 0 then some { s with reader := .unlocked } else none
      | _ => none
  | .prepareToWait => match s.reader with
      | .unlocked => some { s with reader := .prepared true }
      | _ => none
  | .schedule => match s.reader with
      | .prepared interruptible =>
          some { s with
            reader := if interruptible && !s.signalPending then .asleep else .resumed }
      | _ => none
  | .finishWait => match s.reader with
      | .resumed => some { s with reader := .finished }
      | _ => none
  | .signalTest => match s.reader with
      | .finished =>
          if s.signalPending then some { s with reader := .idle, signalPending := false }
          else some { s with reader := .locking }
      | _ => none
  | .consume => match s.reader with
      | .checked nReady => if 0 < nReady then some (transferCopy s) else none
      | _ => none
  | .transferUnlock => match s.reader with
      | .copied => some { s with reader := .idle }
      | _ => none

def driverProbed : Driver where
  dev := spiImxProbed
  rx := .absent
  prepare := .idle
  reader := .idle
  rxBuf := []
  jiffies := 0
  shouldStop := false
  signalPending := false

/-- The driver from a successful probe on, with `HZ` as configured. -/
def driver (hz : Nat) : StepSystem Driver Action where
  start := driverProbed
  step := step hz

/-- A first `spi_imx_prepare_message` and the start of the thread it creates. -/
def startSchedule : List Action :=
  [.prepareEnter, .prepareTest, .prepareStamp, .prepareLaunch true, .prepareAssign,
    .thrdWipe, .thrdClear]

/-- `receive_packet` up to its second critical section, with `packet` in one burst. -/
def fillSchedule (packet : List (BitVec 32)) : List Action :=
  [.reserve, .checkReserved, .pollStatus 8#32] ++
    packet.flatMap (fun val => [.fill val, .countFill]) ++ [.leave]

def receiveSchedule (packet : List (BitVec 32)) : List Action :=
  fillSchedule packet ++ [.publish, .wakeUp, .receiveReturn]

def transferSchedule : List Action :=
  [.transferEnter, .transferLock, .consume, .transferUnlock]

def samplePacket : List (BitVec 32) :=
  0x47000010#32 :: (List.range 46).map (BitVec.ofNat 32)

/-- Everything a step can do, with its guards, one constructor for each branch. -/
inductive Step (hz : Nat) (s : Driver) : Action → Driver → Prop where
  | tick (elapsed : Nat) : Step hz s (.tick elapsed) { s with jiffies := s.jiffies + elapsed }
  | signal : Step hz s .signal { s with
      signalPending := true
      reader := if s.reader = .asleep then .resumed else s.reader }
  | kthreadStop (running : s.dev.rxThrd = true) :
      Step hz s .kthreadStop { s with shouldStop := true }
  | prepareEnter (point : s.prepare = .idle) :
      Step hz s .prepareEnter { s with prepare := .test (BitVec.ofNat 64 s.jiffies) }
  | prepareTest (now : BitVec 64) (point : s.prepare = .test now) :
      Step hz s .prepareTest { s with
        prepare := if idleExpired hz now s.dev.stats.lastMessageJiffies then .wipe now
          else .stamp now }
  | prepareWipe (now : BitVec 64) (point : s.prepare = .wipe now) :
      Step hz s .prepareWipe { s with
        dev := { s.dev with stats := .zero }
        prepare := .clear now }
  | prepareClear (now : BitVec 64) (point : s.prepare = .clear now)
      (unlocked : s.reader.holdsLock = false) :
      Step hz s .prepareClear { s with
        dev := { s.dev with rxRing := rxringClear s.dev.rxRing }
        prepare := .stamp now }
  | prepareStamp (now : BitVec 64) (point : s.prepare = .stamp now) :
      Step hz s .prepareStamp { s with
        dev := { s.dev with stats := { s.dev.stats with lastMessageJiffies := now } }
        prepare := .launch }
  | alreadyRunning (created : Bool) (point : s.prepare = .launch) (running : s.dev.rxThrd = true) :
      Step hz s (.prepareLaunch created) { s with prepare := .idle }
  | launched (point : s.prepare = .launch) (stopped : s.dev.rxThrd = false) :
      Step hz s (.prepareLaunch true)
        { s with rx := .wipe, shouldStop := false, prepare := .assign true }
  | launchFailed (point : s.prepare = .launch) (stopped : s.dev.rxThrd = false) :
      Step hz s (.prepareLaunch false) { s with prepare := .assign false }
  | prepareAssign (thrd : Bool) (point : s.prepare = .assign thrd) :
      Step hz s .prepareAssign { s with
        dev := { s.dev with rxThrd := thrd }
        prepare := .idle }
  | thrdWipe (point : s.rx = .wipe) :
      Step hz s .thrdWipe { s with dev := { s.dev with stats := .zero }, rx := .clear }
  | thrdClear (point : s.rx = .clear) (unlocked : s.reader.holdsLock = false) :
      Step hz s .thrdClear { s with
        dev := { s.dev with rxRing := rxringClear s.dev.rxRing }
        rx := .call }
  | reserve (point : s.rx = .call) (unlocked : s.reader.holdsLock = false) :
      Step hz s .reserve { s with
        dev := (receivePacketReserve s.dev).1
        rx := .reserved (receivePacketReserve s.dev).2 }
  | noFreeSlot (idx : Int) (point : s.rx = .reserved idx) (full : idx < 0) :
      Step hz s .checkReserved { s with rx := .returned efault }
  | tooManyLost (idx : Int) (point : s.rx = .reserved idx) (free : 0 ≤ idx)
      (lost : 1024#64 < s.dev.stats.pktLost) :
      Step hz s .checkReserved { s with rx := .returned (-1) }
  | startFilling (idx : Int) (point : s.rx = .reserved idx) (free : 0 ≤ idx)
      (few : ¬1024#64 < s.dev.stats.pktLost) :
      Step hz s .checkReserved { s with rx := .poll idx 0 (-1) }
  | pollStatus (stat : BitVec 32) (idx : Int) (cnt : Nat) (rv : Int)
      (point : s.rx = .poll idx cnt rv) (running : s.shouldStop = false) (low : rv ≤ 0) :
      Step hz s (.pollStatus stat) { s with
        dev := { s.dev with stats := countOverrun s.dev.stats stat }
        rx := .burst idx cnt rv }
  | fill (val : BitVec 32) (idx : Int) (cnt : Nat) (rv : Int) (point : s.rx = .burst idx cnt rv) :
      Step hz s (.fill val) { s with
        dev := { s.dev with packets := (paketizer val s.dev.packets (packetAddress idx) cnt).1 }
        rx := .count idx (paketizer val s.dev.packets (packetAddress idx) cnt).2.1
          (paketizer val s.dev.packets (packetAddress idx) cnt).2.2 }
  | countFill (idx : Int) (cnt : Nat) (rv : Int) (point : s.rx = .count idx cnt rv) :
      Step hz s .countFill { s with
        dev := { s.dev with stats := countDword s.dev.stats rv }
        rx := if 0 < rv then .poll idx cnt rv else .burst idx cnt rv }
  | drained (idx : Int) (cnt : Nat) (rv : Int) (point : s.rx = .burst idx cnt rv) :
      Step hz s .drained { s with rx := .poll idx cnt rv }
  | leave (idx : Int) (cnt : Nat) (rv : Int) (point : s.rx = .poll idx cnt rv)
      (ended : s.shouldStop = true ∨ 0 < rv) :
      Step hz s .leave { s with rx := .publish idx rv }
  | publish (idx : Int) (rv : Int) (point : s.rx = .publish idx rv)
      (unlocked : s.reader.holdsLock = false) :
      Step hz s .publish { s with dev := receivePacketPublish s.dev idx, rx := .wake rv }
  | wakeUp (rv : Int) (point : s.rx = .wake rv) :
      Step hz s .wakeUp { s with rx := .returned rv, reader := s.reader.wokenUp }
  | receiveReturn (rv : Int) (point : s.rx = .returned rv) :
      Step hz s .receiveReturn { s with rx := if 0 < rv then .call else .exit }
  | thrdExit (point : s.rx = .exit) :
      Step hz s .thrdExit { s with dev := { s.dev with rxThrd := false }, rx := .absent }
  | transferEnter (point : s.reader = .idle) :
      Step hz s .transferEnter { s with reader := .locking }
  | transferLock (point : s.reader = .locking) :
      Step hz s .transferLock { s with reader := .checked (rxringUsed s.dev.rxRing) }
  | unlockEmpty (point : s.reader = .checked 0) :
      Step hz s .unlockEmpty { s with reader := .unlocked }
  | prepareToWait (point : s.reader = .unlocked) :
      Step hz s .prepareToWait { s with reader := .prepared true }
  | schedule (interruptible : Bool) (point : s.reader = .prepared interruptible) :
      Step hz s .schedule { s with
        reader := if interruptible && !s.signalPending then .asleep else .resumed }
  | finishWait (point : s.reader = .resumed) :
      Step hz s .finishWait { s with reader := .finished }
  | interrupted (point : s.reader = .finished) (pending : s.signalPending = true) :
      Step hz s .signalTest { s with reader := .idle, signalPending := false }
  | retry (point : s.reader = .finished) (quiet : s.signalPending = false) :
      Step hz s .signalTest { s with reader := .locking }
  | copied (nReady : Int) (point : s.reader = .checked nReady) (ready : 0 < nReady)
      (valid : 0 ≤ rxringTailIdx s.dev.rxRing) :
      Step hz s .consume { s with
        rxBuf := memcpyBswapPacket (slotPacket s.dev.packets (rxringTailIdx s.dev.rxRing))
        dev := { s.dev with rxRing := rxringRemove s.dev.rxRing }
        reader := .copied }
  | faulted (nReady : Int) (point : s.reader = .checked nReady) (ready : 0 < nReady)
      (invalid : rxringTailIdx s.dev.rxRing < 0) :
      Step hz s .consume { s with reader := .faulted }
  | transferUnlock (point : s.reader = .copied) :
      Step hz s .transferUnlock { s with reader := .idle }

theorem step_cases {hz : Nat} {s next : Driver} {action : Action}
    (taken : step hz s action = some next) : Step hz s action next := by
  cases action with
  | tick elapsed => cases taken; exact .tick elapsed
  | signal => cases taken; exact .signal
  | kthreadStop =>
      simp only [step] at taken
      split at taken
      · next running => cases taken; exact .kthreadStop running
      · cases taken
  | prepareEnter =>
      simp only [step] at taken
      split at taken
      · next point => cases taken; exact .prepareEnter point
      · cases taken
  | prepareTest =>
      simp only [step] at taken
      split at taken
      · next now point => cases taken; exact .prepareTest now point
      · cases taken
  | prepareWipe =>
      simp only [step] at taken
      split at taken
      · next now point => cases taken; exact .prepareWipe now point
      · cases taken
  | prepareClear =>
      simp only [step] at taken
      split at taken
      · next now point unlocked => cases taken; exact .prepareClear now point unlocked
      · cases taken
  | prepareStamp =>
      simp only [step] at taken
      split at taken
      · next now point => cases taken; exact .prepareStamp now point
      · cases taken
  | prepareLaunch created =>
      simp only [step] at taken
      split at taken
      · next point =>
          split_ifs at taken with running wanted
          · cases taken; exact .alreadyRunning created point running
          · cases taken
            subst wanted
            exact .launched point (by simpa using running)
          · cases taken
            rw [Bool.not_eq_true] at wanted
            subst wanted
            exact .launchFailed point (by simpa using running)
      · cases taken
  | prepareAssign =>
      simp only [step] at taken
      split at taken
      · next thrd point => cases taken; exact .prepareAssign thrd point
      · cases taken
  | thrdWipe =>
      simp only [step] at taken
      split at taken
      · next point => cases taken; exact .thrdWipe point
      · cases taken
  | thrdClear =>
      simp only [step] at taken
      split at taken
      · next point unlocked => cases taken; exact .thrdClear point unlocked
      · cases taken
  | reserve =>
      simp only [step] at taken
      split at taken
      · next point unlocked => cases taken; exact .reserve point unlocked
      · cases taken
  | checkReserved =>
      simp only [step] at taken
      split at taken
      · next idx point =>
          split_ifs at taken with full lost
          · cases taken; exact .noFreeSlot idx point full
          · cases taken; exact .tooManyLost idx point (by omega) lost
          · cases taken; exact .startFilling idx point (by omega) lost
      · cases taken
  | pollStatus stat =>
      simp only [step] at taken
      split at taken
      · next idx cnt rv point =>
          split_ifs at taken with running
          cases taken
          exact .pollStatus stat idx cnt rv point running.1 running.2
      · cases taken
  | fill val =>
      simp only [step] at taken
      split at taken
      · next idx cnt rv point => cases taken; exact .fill val idx cnt rv point
      · cases taken
  | countFill =>
      simp only [step] at taken
      split at taken
      · next idx cnt rv point => cases taken; exact .countFill idx cnt rv point
      · cases taken
  | drained =>
      simp only [step] at taken
      split at taken
      · next idx cnt rv point => cases taken; exact .drained idx cnt rv point
      · cases taken
  | leave =>
      simp only [step] at taken
      split at taken
      · next idx cnt rv point =>
          split_ifs at taken with ended
          cases taken
          exact .leave idx cnt rv point ended
      · cases taken
  | publish =>
      simp only [step] at taken
      split at taken
      · next idx rv point unlocked => cases taken; exact .publish idx rv point unlocked
      · cases taken
  | wakeUp =>
      simp only [step] at taken
      split at taken
      · next rv point => cases taken; exact .wakeUp rv point
      · cases taken
  | receiveReturn =>
      simp only [step] at taken
      split at taken
      · next rv point => cases taken; exact .receiveReturn rv point
      · cases taken
  | thrdExit =>
      simp only [step] at taken
      split at taken
      · next point => cases taken; exact .thrdExit point
      · cases taken
  | transferEnter =>
      simp only [step] at taken
      split at taken
      · next point => cases taken; exact .transferEnter point
      · cases taken
  | transferLock =>
      simp only [step] at taken
      split at taken
      · next point => cases taken; exact .transferLock point
      · cases taken
  | unlockEmpty =>
      simp only [step] at taken
      split at taken
      · next nReady point =>
          split_ifs at taken with empty
          cases taken
          exact .unlockEmpty (empty ▸ point)
      · cases taken
  | prepareToWait =>
      simp only [step] at taken
      split at taken
      · next point => cases taken; exact .prepareToWait point
      · cases taken
  | schedule =>
      simp only [step] at taken
      split at taken
      · next interruptible point => cases taken; exact .schedule interruptible point
      · cases taken
  | finishWait =>
      simp only [step] at taken
      split at taken
      · next point => cases taken; exact .finishWait point
      · cases taken
  | signalTest =>
      simp only [step] at taken
      split at taken
      · next point =>
          split_ifs at taken with pending
          · cases taken; exact .interrupted point pending
          · cases taken; exact .retry point (by simpa using pending)
      · cases taken
  | consume =>
      simp only [step, transferCopy] at taken
      split at taken
      · next nReady point =>
          split_ifs at taken with ready valid
          · cases taken; exact .copied nReady point ready valid
          · cases taken; exact .faulted nReady point ready (by omega)
      · cases taken
  | transferUnlock =>
      simp only [step] at taken
      split at taken
      · next point => cases taken; exact .transferUnlock point
      · cases taken

end Testings.SpiSlave
