import Testings.GreedyFraming
import Testings.SpiSlaveFifo
import Testings.SpiSlaveTransfer
import Mathlib.Data.BitVec
import Mathlib.Tactic.LinearCombination

/-!
# Framing of the received stream

A `Tape` keeps what the FIFO has handed out and what has been published. Its
parse, packet after packet, is what the receiving thread has put into slots,
however the stream was split into bursts and calls, and `dwords` balances
against the other counters except for what an idle reset forgot.
-/

set_option autoImplicit false

namespace Testings.SpiSlave

/-- A packet starts at a dword whose top byte is `0x47`. -/
def packetFraming : GreedyFraming (BitVec 32) where
  sync := syncByte
  size := packetSizeDword
  positive := by decide

/-- `forgotten` dwords of the packet under construction were counted before the
last reset of the statistics, `idleResets` since the thread has started. -/
structure Tape where
  stream : List (BitVec 32)
  published : List (List (BitVec 32))
  forgotten : BitVec 64
  idleResets : Nat

/-- Dwords taken by `paketizer` and not counted yet. -/
def RxThread.inHand : RxThread → Nat
  | .count _ _ _ => 1
  | _ => 0

/-- Dwords taken that `skip` and `pkt_ok` do not stand for yet. -/
def RxThread.collected : RxThread → Nat
  | .poll _ cnt _ | .burst _ cnt _ => cnt
  | .count _ cnt rv => if 0 < rv then packetSizeDword else if rv = -3 then 1 else cnt
  | _ => 0

/-- A packet complete in its slot and not in the ring yet. -/
def RxThread.unpublished (packets : Int → BitVec 32) : RxThread → List (List (BitVec 32))
  | .poll idx _ rv | .count idx _ rv | .publish idx rv =>
      if 0 < rv then [slotPacket packets idx] else []
  | _ => []

/-- The packet under construction. -/
def RxThread.partialPacket (packets : Int → BitVec 32) : RxThread → List (BitVec 32)
  | .poll idx cnt _ | .burst idx cnt _ | .count idx cnt _ =>
      slotDwords packets (packetAddress idx) cnt
  | _ => []

/-- The packets behind the first `count` of the ring. -/
def packetsFrom (dev : SpiImx) (count : Nat) : List (List (BitVec 32)) :=
  (dev.rxRing.entries.drop count).map (slotPacket dev.packets)

/-- Published is what the ring has gained. -/
def recordTape (s : Driver) (action : Action) (next : Driver) (tape : Tape) : Tape :=
  match action with
  | .fill val => { tape with stream := tape.stream ++ [val] }
  | .publish =>
      { tape with
        published := tape.published ++ packetsFrom next.dev s.dev.rxRing.entries.length }
  | .prepareWipe =>
      { tape with
        forgotten := BitVec.ofNat 64 s.rx.collected - BitVec.ofNat 64 s.rx.inHand
        idleResets := tape.idleResets + 1 }
  | .thrdWipe => { tape with forgotten := 0, idleResets := 0 }
  | _ => tape

def framingSystem (hz : Nat) : StepSystem (Driver × Tape) Action :=
  ((driver hz).restrict notStopped).observe ⟨[], [], 0, 0⟩ recordTape

/-- `dwords`, with what was forgotten and what is in hand, is what the other
counters stand for and what is collected. -/
def DwordsCounted (stats : SpiImxStatistic) (forgotten : BitVec 64) (rx : RxThread) : Prop :=
  stats.dwords + forgotten + BitVec.ofNat 64 rx.inHand =
    stats.skip + BitVec.ofNat 64 packetSizeDword * stats.pktOk + BitVec.ofNat 64 rx.collected

/-- What `bytes_cnt` and `rv` can be at each point. -/
def RxThread.counts : RxThread → Prop
  | .poll _ cnt rv => cnt < packetSizeDword ∧ (0 < rv → cnt = 0)
  | .burst _ cnt rv => cnt < packetSizeDword ∧ rv ≤ 0
  | .count _ cnt rv =>
      cnt < packetSizeDword ∧ ((rv = -3 ∧ cnt = 0) ∨ (rv = 1 ∧ cnt = 0) ∨ rv = 0)
  | .publish _ rv => 0 < rv
  | _ => True

structure FramingInv (state : Driver × Tape) : Prop where
  inv : DriverInv state.1
  single : SingleReceiver state.1
  running : state.1.shouldStop = false
  counts : state.1.rx.counts
  frames : (packetFraming.parse state.2.stream).frames =
    state.2.published ++ state.1.rx.unpublished state.1.dev.packets
  current : (packetFraming.parse state.2.stream).current =
    state.1.rx.partialPacket state.1.dev.packets
  queued : ∀ idx ∈ state.1.dev.rxRing.entries,
    slotPacket state.1.dev.packets idx ∈ state.2.published
  counted : DwordsCounted state.1.dev.stats state.2.forgotten state.1.rx
  remembered : state.2.idleResets = 0 → state.2.forgotten = 0

/-- A dword is skipped, completes the packet or extends it. -/
theorem paketizer_cases (val : BitVec 32) (packets : Int → BitVec 32) (pkti : Int) {cnt : Nat}
    (room : cnt < packetSizeDword) :
    (cnt = 0 ∧ syncByte val = false ∧ (paketizer val packets pkti cnt).2 = (0, -3)) ∨
      (cnt ≠ 0 ∧ cnt + 1 = packetSizeDword ∧ (paketizer val packets pkti cnt).2 = (0, 1)) ∨
      ((cnt = 0 → syncByte val = true) ∧ cnt + 1 < packetSizeDword ∧
        (paketizer val packets pkti cnt).2 = (cnt + 1, 0)) := by
  rw [packet_size_dword_eq] at room
  by_cases first : cnt = 0
  · subst first
    rw [paketizer_first]
    cases sync : syncByte val with
    | false => exact .inl ⟨rfl, rfl, rfl⟩
    | true => exact .inr (.inr ⟨fun _ => rfl, by decide, rfl⟩)
  · rw [paketizer_next val packets pkti first]
    by_cases last : cnt + 1 = packetSizeDword
    · rw [if_pos last]
      exact .inr (.inl ⟨first, last, rfl⟩)
    · rw [if_neg last]
      rw [packet_size_dword_eq] at last ⊢
      exact .inr (.inr ⟨fun zero => absurd zero first, by omega, rfl⟩)

theorem paketizer_counts (val : BitVec 32) (packets : Int → BitVec 32) (idx : Int) {cnt : Nat}
    (room : cnt < packetSizeDword) :
    (RxThread.count idx (paketizer val packets (packetAddress idx) cnt).2.1
      (paketizer val packets (packetAddress idx) cnt).2.2).counts := by
  rcases paketizer_cases val packets (packetAddress idx) room with
    ⟨_, _, result⟩ | ⟨_, _, result⟩ | ⟨_, more, result⟩
  · rw [result]
    exact ⟨by decide, .inl ⟨rfl, rfl⟩⟩
  · rw [result]
    exact ⟨by decide, .inr (.inl ⟨rfl, rfl⟩)⟩
  · rw [result]
    exact ⟨more, .inr (.inr rfl)⟩

/-- The dword that comes in is one more, whatever becomes of it. -/
theorem paketizer_collected (val : BitVec 32) (packets : Int → BitVec 32) (idx : Int) {cnt : Nat}
    (room : cnt < packetSizeDword) :
    (RxThread.count idx (paketizer val packets (packetAddress idx) cnt).2.1
      (paketizer val packets (packetAddress idx) cnt).2.2).collected = cnt + 1 := by
  rcases paketizer_cases val packets (packetAddress idx) room with
    ⟨first, _, result⟩ | ⟨_, last, result⟩ | ⟨_, _, result⟩
  · rw [result, first]
    rfl
  · rw [result, last]
    rfl
  · rw [result]
    rfl

/-- `paketizer` is the parse fed with one dword. -/
theorem paketizer_feeds (val : BitVec 32) {packets : Int → BitVec 32} {idx : Int} {cnt : Nat}
    {framed : Framed (BitVec 32)} (room : cnt < packetSizeDword)
    (current : framed.current = slotDwords packets (packetAddress idx) cnt) :
    let out := paketizer val packets (packetAddress idx) cnt
    (packetFraming.feed framed val).frames =
        framed.frames ++ (RxThread.count idx out.2.1 out.2.2).unpublished out.1 ∧
      (packetFraming.feed framed val).current =
        (RxThread.count idx out.2.1 out.2.2).partialPacket out.1 := by
  have written := slot_dwords_write packets (packetAddress idx) cnt val
  have length : framed.current.length = cnt := by rw [current, slot_dwords_length]
  dsimp only
  rw [paketizer_memory]
  rcases paketizer_cases val packets (packetAddress idx) room with
    ⟨first, unsynced, result⟩ | ⟨started, last, result⟩ | ⟨synced, more, result⟩
  · have skipped : (framed.current.isEmpty && !packetFraming.sync val) = true := by
      have empty := List.length_eq_zero_iff.mp (length.trans first)
      simp [empty, packetFraming, unsynced]
    rw [result, GreedyFraming.feed, if_pos skipped]
    exact ⟨(List.append_nil _).symm, List.length_eq_zero_iff.mp (length.trans first)⟩
  · have taken : ¬(framed.current.isEmpty && !packetFraming.sync val) = true := by
      have nonempty : framed.current ≠ [] := by
        intro empty
        exact started (by simpa [empty] using length.symm)
      simp [nonempty]
    have full : framed.current.length + 1 = packetFraming.size := by rwa [length]
    rw [result, GreedyFraming.feed, if_neg taken, if_pos full]
    refine ⟨?_, rfl⟩
    rw [last] at written
    change _ = framed.frames ++ [slotDwords _ _ packetSizeDword]
    rw [written, current]
  · have taken : ¬(framed.current.isEmpty && !packetFraming.sync val) = true := by
      intro skipped
      obtain ⟨empty, unsynced⟩ := Bool.and_eq_true_iff.mp skipped
      have zero : cnt = 0 := by rw [← length, List.isEmpty_iff.mp empty, List.length_nil]
      have sync : packetFraming.sync val = true := synced zero
      rw [sync] at unsynced
      cases unsynced
    have unfinished : ¬framed.current.length + 1 = packetFraming.size := by
      rw [length]
      exact more.ne
    rw [result, GreedyFraming.feed, if_neg taken, if_neg unfinished]
    refine ⟨(List.append_nil _).symm, ?_⟩
    change framed.current ++ [val] = slotDwords _ _ (cnt + 1)
    rw [written, current]

theorem count_dword_counted {stats : SpiImxStatistic} {forgotten : BitVec 64} {idx : Int}
    {cnt : Nat} {rv : Int} (counts : (RxThread.count idx cnt rv).counts)
    (counted : DwordsCounted stats forgotten (.count idx cnt rv)) :
    DwordsCounted (countDword stats rv) forgotten
      (if 0 < rv then .poll idx cnt rv else .burst idx cnt rv) := by
  have unit : 1#64 = (1 : BitVec 64) := rfl
  obtain ⟨_, ⟨rfl, rfl⟩ | ⟨rfl, rfl⟩ | rfl⟩ := counts
  · -- skipped
    simp [DwordsCounted, RxThread.inHand, RxThread.collected, countDword] at counted ⊢
    linear_combination counted
  · -- the packet is complete
    simp [DwordsCounted, RxThread.inHand, RxThread.collected, countDword] at counted ⊢
    linear_combination counted - BitVec.ofNat 64 packetSizeDword * unit
  · -- one more of the packet
    simp [DwordsCounted, RxThread.inHand, RxThread.collected, countDword] at counted ⊢
    linear_combination counted

theorem fill_counted {stats : SpiImxStatistic} {forgotten : BitVec 64} {packets : Int → BitVec 32}
    {idx : Int} {cnt : Nat} {rv : Int} (val : BitVec 32) (room : cnt < packetSizeDword)
    (counted : DwordsCounted stats forgotten (.burst idx cnt rv)) :
    DwordsCounted stats forgotten
      (.count idx (paketizer val packets (packetAddress idx) cnt).2.1
        (paketizer val packets (packetAddress idx) cnt).2.2) := by
  have zero : 0#64 = (0 : BitVec 64) := rfl
  rw [DwordsCounted, paketizer_collected val packets idx room, BitVec.ofNat_add]
  simp only [DwordsCounted, RxThread.inHand, RxThread.collected] at counted ⊢
  linear_combination counted - zero

theorem count_overrun_counted {stats : SpiImxStatistic} {forgotten : BitVec 64} {rx : RxThread}
    (stat : BitVec 32) (counted : DwordsCounted stats forgotten rx) :
    DwordsCounted (countOverrun stats stat) forgotten rx := by
  obtain ⟨overruns, same⟩ := count_overrun_eq stats stat
  rw [same]
  exact counted

theorem reserve_counted {dev : SpiImx} {forgotten : BitVec 64} {rx : RxThread}
    (counted : DwordsCounted dev.stats forgotten rx) :
    DwordsCounted (receivePacketReserve dev).1.stats forgotten rx := by
  rw [reserve_eq]
  exact counted

theorem publish_counted {dev : SpiImx} {forgotten : BitVec 64} {rx : RxThread} (idx : Int)
    (counted : DwordsCounted dev.stats forgotten rx) :
    DwordsCounted (receivePacketPublish dev idx).stats forgotten rx := by
  obtain ⟨used, same⟩ := publish_eq dev idx
  rw [same]
  exact counted

/-- After a reset the dwords of the packet under construction are forgotten. -/
theorem wiped_counted (rx : RxThread) :
    DwordsCounted .zero (BitVec.ofNat 64 rx.collected - BitVec.ofNat 64 rx.inHand) rx := by
  simp [DwordsCounted, SpiImxStatistic.zero]

theorem DwordsCounted.moved {stats : SpiImxStatistic} {forgotten : BitVec 64} {rx next : RxThread}
    (counted : DwordsCounted stats forgotten rx) (inHand : next.inHand = rx.inHand)
    (collected : next.collected = rx.collected) : DwordsCounted stats forgotten next := by
  rw [DwordsCounted, inHand, collected]
  exact counted

theorem entries_room_subset {ring : CircBuf} (inv : RingInv ring) {idx : Int}
    (member : idx ∈ (ringWithRoom ring).entries) : idx ∈ ring.entries := by
  unfold ringWithRoom at member
  split_ifs at member with full
  · rw [entries_remove inv (used_of_full full)]
    exact List.mem_cons_of_mem _ member
  · exact member

/-- A step that takes no dword and leaves the slots alone. -/
theorem FramingInv.move {s next : Driver} {tape : Tape} (before : FramingInv (s, tape))
    (inv : DriverInv next) (single : SingleReceiver next) (running : next.shouldStop = false)
    (counts : next.rx.counts) (packets : next.dev.packets = s.dev.packets)
    (unpublished : next.rx.unpublished s.dev.packets = s.rx.unpublished s.dev.packets)
    (partialPacket : next.rx.partialPacket s.dev.packets = s.rx.partialPacket s.dev.packets)
    (entries : ∀ idx ∈ next.dev.rxRing.entries, idx ∈ s.dev.rxRing.entries)
    (counted : DwordsCounted next.dev.stats tape.forgotten next.rx) :
    FramingInv (next, tape) where
  inv := inv
  single := single
  running := running
  counts := counts
  frames := by
    dsimp only
    rw [packets, unpublished]
    exact before.frames
  current := by
    dsimp only
    rw [packets, partialPacket]
    exact before.current
  queued idx member := by
    dsimp only
    rw [packets]
    exact before.queued idx (entries idx member)
  counted := counted
  remembered := before.remembered

/-- The ring gains the packet of the reserved slot. -/
theorem packets_inserted {dev : SpiImx} {idx : Int} (inv : RingInv dev.rxRing)
    (reserved : SlotReserved dev.rxRing idx) :
    packetsFrom (receivePacketPublish dev idx) dev.rxRing.entries.length =
      [slotPacket dev.packets idx] := by
  rcases publish_eq dev idx with ⟨used, same⟩
  rw [packetsFrom, same]
  dsimp only
  rw [entries_insert inv reserved.room reserved.lower, List.drop_left]
  rfl

theorem framing_start (hz : Nat) : FramingInv (framingSystem hz).start where
  inv := driver_probed_inv
  single := ⟨fun _ _ => rfl, by nofun⟩
  running := rfl
  counts := trivial
  frames := by
    change (packetFraming.parse []).frames = []
    rw [GreedyFraming.parse_nil]
  current := by
    change (packetFraming.parse []).current = []
    rw [GreedyFraming.parse_nil]
  queued := by
    change ∀ idx ∈ spiImxProbed.rxRing.entries, _
    rw [probed_entries]
    nofun
  counted := rfl
  remembered _ := rfl

theorem framing_step {hz : Nat} {s next : Driver} {action : Action} {tape : Tape}
    (before : FramingInv (s, tape)) (continued : notStopped s action)
    (taken : step hz s action = some next) :
    FramingInv (next, recordTape s action next tape) := by
  have inv := step_driver_inv before.inv taken
  have single := step_single_receiver before.single taken
  have ring := before.inv.ring
  have slot := before.inv.slot
  have running := before.running
  have counts := before.counts
  have frames := before.frames
  have current := before.current
  have queued := before.queued
  have counted := before.counted
  dsimp only at ring slot running counts frames current queued counted
  cases step_cases taken with
  | kthreadStop => exact absurd rfl continued
  | tick | signal | prepareEnter | prepareTest | prepareStamp | alreadyRunning | launchFailed
  | prepareAssign | transferEnter | transferLock | unlockEmpty | prepareToWait | schedule
  | finishWait | interrupted | retry | transferUnlock =>
      exact { before with inv := inv, single := single }
  | prepareWipe now point =>
      exact { before with
        inv := inv, single := single, counted := wiped_counted s.rx, remembered := by nofun }
  | prepareClear =>
      refine before.move inv single running counts rfl rfl rfl ?_ counted
      dsimp only
      rw [clear_entries]
      nofun
  | launched point stopped =>
      have absent := before.single.named stopped (by simp [point])
      dsimp only at absent
      exact before.move inv single rfl trivial rfl (by rw [absent]; rfl) (by rw [absent]; rfl)
        (fun _ => id) (counted.moved (by rw [absent]; rfl) (by rw [absent]; rfl))
  | thrdWipe point =>
      rw [point] at frames current
      exact { before with
        inv := inv, single := single, counts := trivial, frames := frames, current := current
        counted := rfl, remembered := fun _ => rfl }
  | thrdClear point =>
      refine before.move inv single running trivial rfl (by rw [point]; rfl) (by rw [point]; rfl)
        ?_ (counted.moved (by rw [point]; rfl) (by rw [point]; rfl))
      dsimp only
      rw [clear_entries]
      nofun
  | reserve point =>
      refine before.move inv single running trivial (reserve_packets s.dev) (by rw [point]; rfl)
        (by rw [point]; rfl) ?_
        (reserve_counted (counted.moved (by rw [point]; rfl) (by rw [point]; rfl)))
      intro idx member
      dsimp only at member
      rw [reserve_ring] at member
      exact entries_room_subset ring member
  | noFreeSlot _ point | tooManyLost _ point | wakeUp _ point | thrdExit point =>
      exact before.move inv single running trivial rfl (by rw [point]; rfl) (by rw [point]; rfl)
        (fun _ => id) (counted.moved (by rw [point]; rfl) (by rw [point]; rfl))
  | startFilling idx point =>
      exact before.move inv single running ⟨by decide, fun _ => rfl⟩ rfl (by rw [point]; rfl)
        (by rw [point]; rfl) (fun _ => id) (counted.moved (by rw [point]; rfl) (by rw [point]; rfl))
  | pollStatus stat idx cnt rv point _ low =>
      rw [point] at counts
      refine before.move inv single running ⟨counts.1, low⟩ rfl ?_ (by rw [point]; rfl)
        (fun _ => id)
        (count_overrun_counted stat (counted.moved (by rw [point]; rfl) (by rw [point]; rfl)))
      rw [point]
      exact (if_neg (by omega)).symm
  | fill val idx cnt rv point =>
      rw [point] at counts frames current counted slot
      have room : cnt < packetSizeDword := counts.1
      have framed := GreedyFraming.parse_append_singleton packetFraming tape.stream val
      obtain ⟨fed, carried⟩ := paketizer_feeds val room current
      refine { before with
        inv := inv, single := single, counts := paketizer_counts val s.dev.packets idx room
        frames := ?_, current := ?_, queued := ?_, counted := fill_counted val room counted }
      · dsimp only [recordTape]
        rw [framed, fed, frames]
        exact congrArg (· ++ _) (List.append_nil _)
      · dsimp only [recordTape]
        rw [framed, carried]
      · intro other member
        have different : other ≠ idx := by
          rintro rfl
          exact (slot other rfl).fresh member
        dsimp only
        rw [fill_slot_frame val room different]
        exact queued other member
  | countFill idx cnt rv point =>
      rw [point] at counts counted
      refine before.move inv single running ?_ rfl ?_ ?_ (fun _ => id)
        (count_dword_counted counts counted)
      · dsimp only
        obtain ⟨room, results⟩ := counts
        split_ifs with high
        · exact ⟨room, fun _ => by omega⟩
        · exact ⟨room, Int.not_lt.mp high⟩
      · rw [point]
        dsimp only
        split_ifs with high
        · rfl
        · exact (if_neg high).symm
      · rw [point]
        dsimp only
        split_ifs <;> rfl
  | drained idx cnt rv point =>
      rw [point] at counts
      refine before.move inv single running ⟨counts.1, fun high => ?_⟩ rfl ?_ (by rw [point]; rfl)
        (fun _ => id) (counted.moved (by rw [point]; rfl) (by rw [point]; rfl))
      · exact absurd high (Int.not_lt.mpr counts.2)
      · rw [point]
        exact if_neg (Int.not_lt.mpr counts.2)
  | leave idx cnt rv point ended =>
      rw [point] at counts
      have high : 0 < rv := by
        rcases ended with stopped | high
        · rw [running] at stopped
          cases stopped
        · exact high
      have emptied := counts.2 high
      subst emptied
      exact before.move inv single running high rfl (by rw [point]; rfl) (by rw [point]; rfl)
        (fun _ => id) (counted.moved (by rw [point]; rfl) (by rw [point]; rfl))
  | publish idx rv point =>
      rw [point] at counts frames current slot
      have high : 0 < rv := counts
      have reserved := slot idx rfl
      have pending : (RxThread.publish idx rv).unpublished s.dev.packets =
          [slotPacket s.dev.packets idx] := if_pos high
      rw [pending] at frames
      have gained := packets_inserted ring reserved
      refine { before with
        inv := inv, single := single, counts := trivial, current := current, frames := ?_
        queued := ?_
        counted := publish_counted idx (counted.moved (by rw [point]; rfl) (by rw [point]; rfl)) }
      · dsimp only [recordTape]
        rw [gained, frames]
        exact (List.append_nil _).symm
      intro other member
      dsimp only [recordTape] at member ⊢
      rw [gained]
      dsimp only [receivePacketPublish] at member ⊢
      rw [entries_insert ring reserved.room reserved.lower] at member
      rcases List.mem_append.mp member with earlier | inserted
      · exact List.mem_append_left _ (queued other earlier)
      · cases List.mem_singleton.mp inserted
        exact List.mem_append_right _ List.mem_cons_self
  | receiveReturn rv point =>
      refine before.move inv single running ?_ rfl ?_ ?_ (fun _ => id) (counted.moved ?_ ?_)
      · dsimp only
        split_ifs <;> trivial
      all_goals
        rw [point]
        dsimp only
        split_ifs <;> rfl
  | copied nReady point positive =>
      have nonempty : 0 < rxringUsed s.dev.rxRing := before.inv.ready nReady point ▸ positive
      refine before.move inv single running counts rfl rfl rfl ?_ counted
      intro idx member
      rw [entries_remove ring nonempty]
      exact List.mem_cons_of_mem _ member
  | faulted nReady point positive invalid => exact absurd rfl inv.noFault

theorem reachable_framing {hz : Nat} {state : Driver × Tape}
    (reached : (framingSystem hz).Reachable state) : FramingInv state := by
  apply reached.invariant FramingInv
  · exact framing_start hz
  · apply StepSystem.observe_preserved
    intro s action next tape before taken
    obtain ⟨continued, moved⟩ := StepSystem.restrict_step_some.mp taken
    exact framing_step before continued moved

/-- The first byte on the wire of a dword that starts a packet. -/
theorem sync_byte_first {val : BitVec 32} (sync : syncByte val = true) :
    (val >>> 24).setWidth 8 = 0x47#8 := by
  have masked : (val >>> 24) &&& 0xFF#32 = 0x47#32 := by simpa [syncByte] using sync
  have low := congrArg (BitVec.setWidth 8) masked
  have ones : (0xFF#32).setWidth 8 = BitVec.allOnes 8 := rfl
  rwa [BitVec.setWidth_and, ones, BitVec.and_allOnes] at low

theorem framed_packet_bytes {stream packet : List (BitVec 32)}
    (member : packet ∈ (packetFraming.parse stream).frames) :
    packet.length = packetSizeDword ∧
      (packet.flatMap bigEndianBytes).head? = some 0x47#8 := by
  obtain ⟨size, first, head, sync⟩ := GreedyFraming.parse_frames member
  refine ⟨size, ?_⟩
  cases packet with
  | nil => cases head
  | cons val rest =>
      cases head
      exact congrArg some (sync_byte_first sync)

/-- Away from the update of the counters, what is collected is the packet under
construction. -/
theorem collected_partial (packets : Int → BitVec 32) {rx : RxThread} (between : rx.inHand = 0) :
    rx.collected = (rx.partialPacket packets).length := by
  cases rx with
  | count => cases between
  | poll | burst => exact (slot_dwords_length _ _ _).symm
  | _ => rfl

/-- The received stream is parsed greedily: the packets published, with one that
is complete and still in its slot, are its frames, and the slot being filled
holds the rest. Each dword goes into its slot, the counters balance, and the
packets in the ring come out as the bytes of the wire. -/
theorem receive_packet_parses_stream (hz : Nat) (s : Driver) (tape : Tape)
    (reached : (framingSystem hz).Reachable (s, tape)) :
    ((packetFraming.parse tape.stream).frames =
        tape.published ++ s.rx.unpublished s.dev.packets ∧
      (packetFraming.parse tape.stream).current = s.rx.partialPacket s.dev.packets) ∧
    (∀ idx cnt rv, s.rx = .burst idx cnt rv →
      (0 ≤ idx ∧ idx < rxRingPackets) ∧
      ∃ address, packetAddress idx ≤ address ∧ address < packetAddress (idx + 1) ∧
        ∀ val, (paketizer val s.dev.packets (packetAddress idx) cnt).1 =
          Function.update s.dev.packets address val) ∧
    (DwordsCounted s.dev.stats tape.forgotten s.rx ∧
      (tape.idleResets = 0 → s.rx.inHand = 0 →
        s.dev.stats.dwords =
          s.dev.stats.skip + BitVec.ofNat 64 packetSizeDword * s.dev.stats.pktOk +
            BitVec.ofNat 64 (packetFraming.parse tape.stream).current.length)) ∧
    (∀ idx ∈ s.dev.rxRing.entries, slotPacket s.dev.packets idx ∈ tape.published) ∧
    ∀ packet ∈ tape.published, packet.length = packetSizeDword ∧
      (memcpyBswapPacket packet).flatMap littleEndianBytes = packet.flatMap bigEndianBytes ∧
      (packet.flatMap bigEndianBytes).head? = some 0x47#8 := by
  have framing := reachable_framing reached
  have counted := framing.counted
  dsimp only at counted
  refine ⟨⟨framing.frames, framing.current⟩, ?_, ⟨counted, ?_⟩, framing.queued, ?_⟩
  · intro idx cnt rv point
    have counts := framing.counts
    have slot := framing.inv.slot
    dsimp only at counts slot
    rw [point] at counts slot
    have reserved := slot idx rfl
    have room : cnt < packetSizeDword := counts.1
    refine ⟨⟨reserved.lower, reserved.upper⟩, packetAddress idx + cnt, by omega, ?_, ?_⟩
    · simp only [packetAddress, packet_size_dword_eq] at room ⊢
      omega
    · exact fun val => paketizer_memory val _ _ _
  · intro unreset between
    have remembered : tape.forgotten = 0 := framing.remembered unreset
    have current := framing.current
    dsimp only at current
    rw [DwordsCounted, remembered, between, collected_partial s.dev.packets between, ← current]
      at counted
    simpa using counted
  · intro packet member
    have framed : packet ∈ (packetFraming.parse tape.stream).frames := by
      rw [framing.frames]
      exact List.mem_append_left _ member
    obtain ⟨size, first⟩ := framed_packet_bytes framed
    exact ⟨size, memcpy_bswap_packet_bytes packet, first⟩

/-- One dword to skip, then a packet, in two bursts. -/
theorem receive_packet_parses_two_bursts :
    ∃ s tape, (framingSystem 250).Reachable (s, tape) ∧ tape.stream = 0x12#32 :: samplePacket ∧
      s.dev.stats.skip = 1 ∧ (packetFraming.parse tape.stream).frames = [samplePacket] := by
  obtain ⟨⟨s, tape⟩, reached, passes⟩ := StepSystem.reachable_of_run (framingSystem 250)
    (startSchedule ++ ([.reserve, .checkReserved, .pollStatus 8#32, .fill 0x12#32, .countFill,
      .drained, .pollStatus 8#32] : List Action) ++
      samplePacket.flatMap (fun val => ([.fill val, .countFill] : List Action)) ++
      ([.leave, .publish] : List Action))
    (fun state => decide (state.2.stream = 0x12#32 :: samplePacket ∧
      state.1.dev.stats.skip = 1 ∧ state.2.published = [samplePacket] ∧ state.1.rx = .wake 1))
    (by decide +kernel)
  obtain ⟨stream, skip, published, point⟩ := of_decide_eq_true passes
  dsimp only at stream skip published point
  have frames := (receive_packet_parses_stream 250 s tape reached).1.1
  rw [published, point] at frames
  exact ⟨s, tape, reached, stream, skip, frames⟩

end Testings.SpiSlave
