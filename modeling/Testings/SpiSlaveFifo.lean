import Testings.DropOldestQueue
import Testings.SpiSlaveTransfer

/-!
# The receive ring refines a drop-oldest queue

`queueStep` says what the driver is for: it reads the same actions as the
driver and knows nothing of slots, flags or indices. A packet is put together
from the dwords of the fill steps and enters the queue at its publish; the
reader gets it byte-swapped. `Refines` ties the queue to the slots that the
ring names and the packet under construction to the reserved slot.
-/

set_option autoImplicit false

namespace Testings.SpiSlave

structure PacketQueue where
  fifo : DropOldestQueue (List (BitVec 32))
  assembling : List (BitVec 32)

def PacketQueue.empty : PacketQueue := ⟨.empty, []⟩

/-- `RX_RING_PACKETS - 1`. -/
def fifoCapacity : Nat := 16383

def queueStep (q : PacketQueue) : Action → PacketQueue
  | .reserve => { fifo := q.fifo.makeRoom fifoCapacity, assembling := [] }
  | .fill val => { q with assembling := assemble q.assembling val }
  | .publish => { fifo := q.fifo.enqueue q.assembling, assembling := [] }
  | .consume => { q with fifo := q.fifo.deliver }
  | .prepareClear => { q with fifo := q.fifo.clear }
  | .thrdClear => { q with fifo := q.fifo.clear }
  | _ => q

/-- The receiving thread is not being stopped. -/
def notStopped (_ : Driver) (action : Action) : Prop := action ≠ .kthreadStop

instance (s : Driver) (action : Action) : Decidable (notStopped s action) :=
  inferInstanceAs (Decidable (action ≠ .kthreadStop))

/-- The contents of `rx_buf` after each copy. -/
def recordDelivery (_ : Driver) (action : Action) (next : Driver)
    (log : List (List (BitVec 32))) : List (List (BitVec 32)) :=
  match action with
  | .consume => if next.reader = .copied then log ++ [next.rxBuf] else log
  | _ => log

def deliverySystem (hz : Nat) : StepSystem (Driver × List (List (BitVec 32))) Action :=
  ((driver hz).restrict notStopped).observe [] recordDelivery

/-- What the reserved slot holds of the packet under construction. -/
def Assembling (packets : Int → BitVec 32) (assembling : List (BitVec 32)) : RxThread → Prop
  | .reserved _ => assembling = []
  | .poll idx cnt rv | .count idx cnt rv =>
      (0 < rv ∧ Filled packets (packetAddress idx) assembling) ∨
        (rv ≤ 0 ∧ Filling packets (packetAddress idx) cnt assembling)
  | .burst idx cnt rv => rv ≤ 0 ∧ Filling packets (packetAddress idx) cnt assembling
  | .publish idx _ => Filled packets (packetAddress idx) assembling
  | _ => True

structure Refines (state : Driver × List (List (BitVec 32))) (q : PacketQueue) : Prop where
  inv : DriverInv state.1
  running : state.1.shouldStop = false
  queue : q.fifo.queue = state.1.dev.rxRing.entries.map (slotPacket state.1.dev.packets)
  assembling : Assembling state.1.dev.packets q.assembling state.1.rx
  delivered : state.2 = q.fifo.delivered.map memcpyBswapPacket
  ordered : q.fifo.Ordered

/-- Filling one slot leaves the packets in all others. -/
theorem fill_slot_frame {packets : Int → BitVec 32} {idx other : Int} {cnt : Nat} (val : BitVec 32)
    (room : cnt < packetSizeDword) (different : other ≠ idx) :
    slotPacket (paketizer val packets (packetAddress idx) cnt).1 other =
      slotPacket packets other := by
  apply slot_dwords_congr
  intro offset bound
  apply paketizer_frame val room
  simp only [packetAddress, packet_size_dword_eq] at *
  omega

theorem fill_entries_frame {packets : Int → BitVec 32} {idx : Int} {cnt : Nat} {entries : List Int}
    (val : BitVec 32) (room : cnt < packetSizeDword) (fresh : idx ∉ entries) :
    entries.map (slotPacket (paketizer val packets (packetAddress idx) cnt).1) =
      entries.map (slotPacket packets) := by
  apply List.map_congr_left
  intro other member
  apply fill_slot_frame val room
  rintro rfl
  exact fresh member

theorem reserve_packets (dev : SpiImx) : (receivePacketReserve dev).1.packets = dev.packets := by
  rw [reserve_eq]

/-- The first critical section makes room exactly when the queue is full. -/
theorem reserve_makes_room {ring : CircBuf} {q : DropOldestQueue (List (BitVec 32))}
    {packets : Int → BitVec 32} (inv : RingInv ring)
    (queue : q.queue = ring.entries.map (slotPacket packets)) :
    (q.makeRoom fifoCapacity).queue =
      (ringWithRoom ring).entries.map (slotPacket packets) := by
  have length : (q.queue.length : Int) = rxringUsed ring := by
    rw [queue, List.length_map, entries_length]
  have full : q.queue.length = fifoCapacity ↔ rxringVacant ring = 0 := by
    rw [vacant_zero_iff, ← length]
    simp only [fifoCapacity, rxRingPackets]
    omega
  unfold DropOldestQueue.makeRoom ringWithRoom
  by_cases noRoom : rxringVacant ring = 0
  · have nonempty := used_of_full noRoom
    rw [if_pos (full.mpr noRoom), if_pos noRoom]
    change q.queue.tail = _
    rw [queue, entries_remove inv nonempty, List.map_cons, List.tail_cons]
  · rw [if_neg (mt full.mp noRoom), if_neg noRoom]
    exact queue

theorem refines_start (hz : Nat) : Refines (deliverySystem hz).start PacketQueue.empty where
  inv := driver_probed_inv
  running := rfl
  queue := by
    change [] = spiImxProbed.rxRing.entries.map _
    rw [probed_entries]
    rfl
  assembling := trivial
  delivered := rfl
  ordered := DropOldestQueue.empty_ordered

theorem refines_step (hz : Nat) (state : Driver × List (List (BitVec 32))) (action : Action)
    (next : Driver × List (List (BitVec 32))) (q : PacketQueue) (related : Refines state q)
    (taken : (deliverySystem hz).step state action = some next) :
    Refines next (queueStep q action) := by
  obtain ⟨s, log⟩ := state
  obtain ⟨after, log'⟩ := next
  obtain ⟨restricted, recorded⟩ := StepSystem.observe_step_some.mp taken
  obtain ⟨continued, moved⟩ := StepSystem.restrict_step_some.mp restricted
  dsimp only at recorded continued moved
  subst recorded
  have inv := step_driver_inv related.inv moved
  have slot := related.inv.slot
  have queue := related.queue
  have running := related.running
  have assembling := related.assembling
  dsimp only at slot queue running assembling
  cases step_cases moved with
  | kthreadStop => exact absurd rfl continued
  | prepareClear =>
      refine { related with inv := inv, queue := ?_, ordered := related.ordered.clear }
      dsimp only
      rw [clear_entries]
      rfl
  | launched => exact { related with inv := inv, running := rfl, assembling := trivial }
  | thrdClear =>
      refine { related with
        inv := inv, queue := ?_, assembling := trivial, ordered := related.ordered.clear }
      dsimp only
      rw [clear_entries]
      rfl
  | reserve =>
      refine { related with
        inv := inv, queue := ?_, assembling := rfl, delivered := ?_
        ordered := related.ordered.makeRoom _ }
      · dsimp only
        rw [reserve_ring, reserve_packets]
        exact reserve_makes_room related.inv.ring queue
      · have same : (q.fifo.makeRoom fifoCapacity).delivered = q.fifo.delivered := by
          unfold DropOldestQueue.makeRoom
          split_ifs <;> rfl
        change log = (q.fifo.makeRoom fifoCapacity).delivered.map memcpyBswapPacket
        rw [same]
        exact related.delivered
  | startFilling idx point =>
      rw [point] at assembling
      have empty : q.assembling = [] := assembling
      refine { related with inv := inv, assembling := .inr ⟨by decide, ?_⟩ }
      change Filling s.dev.packets (packetAddress idx) 0 q.assembling
      rw [empty]
      exact filling_start _ _
  | pollStatus stat idx cnt rv point _ low =>
      rw [point] at assembling
      refine { related with inv := inv, assembling := ?_ }
      rcases assembling with ⟨high, _⟩ | ⟨_, filling⟩
      · omega
      · exact ⟨low, filling⟩
  | fill val idx cnt rv point =>
      rw [point] at assembling slot
      have filling : Filling s.dev.packets (packetAddress idx) cnt q.assembling := assembling.2
      refine { related with inv := inv, queue := ?_, assembling := ?_ }
      · change q.fifo.queue = _
        rw [queue]
        exact (fill_entries_frame val filling.room (slot idx rfl).fresh).symm
      · rcases paketizer_assembles filling val with ⟨result, complete⟩ | ⟨low, extended⟩
        · exact .inl ⟨by rw [result]; exact Int.one_pos, complete⟩
        · exact .inr ⟨low, extended⟩
  | countFill idx cnt rv point =>
      rw [point] at assembling
      refine { related with inv := inv, assembling := ?_ }
      dsimp only
      rcases assembling with ⟨high, complete⟩ | ⟨low, filling⟩
      · rw [if_pos high]
        exact .inl ⟨high, complete⟩
      · rw [if_neg (by omega)]
        exact ⟨low, filling⟩
  | drained idx cnt rv point =>
      rw [point] at assembling
      exact { related with inv := inv, assembling := .inr assembling }
  | leave idx cnt rv point ended =>
      rw [point] at assembling
      refine { related with inv := inv, assembling := ?_ }
      rcases assembling with ⟨_, complete⟩ | ⟨low, _⟩
      · exact complete
      · rcases ended with stopped | high
        · rw [running] at stopped
          cases stopped
        · omega
  | publish idx rv point =>
      rw [point] at assembling slot
      have complete : Filled s.dev.packets (packetAddress idx) q.assembling := assembling
      have reserved := slot idx rfl
      refine { related with
        inv := inv, queue := ?_, assembling := trivial
        ordered := related.ordered.enqueue _ }
      change q.fifo.queue ++ [q.assembling] =
        (rxringInsert s.dev.rxRing idx).entries.map (slotPacket s.dev.packets)
      rw [entries_insert related.inv.ring reserved.room reserved.lower, List.map_append, queue]
      simp [slotPacket, complete.stored]
  | receiveReturn =>
      refine { related with inv := inv, assembling := ?_ }
      dsimp only
      split_ifs <;> trivial
  | copied nReady point positive =>
      have nonempty : 0 < rxringUsed s.dev.rxRing := related.inv.ready nReady point ▸ positive
      have front := entries_remove related.inv.ring nonempty
      have delivery : q.fifo.deliver = { q.fifo with
          queue := (rxringRemove s.dev.rxRing).entries.map (slotPacket s.dev.packets)
          delivered := q.fifo.delivered ++
            [slotPacket s.dev.packets (rxringTailIdx s.dev.rxRing)] } := by
        unfold DropOldestQueue.deliver
        rw [queue, front]
        rfl
      refine { related with inv := inv, queue := ?_, delivered := ?_
                            ordered := related.ordered.deliver }
      · exact congrArg DropOldestQueue.queue delivery
      · have log' : log = q.fifo.delivered.map memcpyBswapPacket := related.delivered
        change log ++ [memcpyBswapPacket (slotPacket s.dev.packets (rxringTailIdx s.dev.rxRing))] =
          q.fifo.deliver.delivered.map memcpyBswapPacket
        rw [delivery, List.map_append, log']
        rfl
  | faulted nReady point positive invalid => exact absurd rfl inv.noFault
  | tick | signal | prepareEnter | prepareTest | prepareWipe | prepareStamp | alreadyRunning
  | launchFailed | prepareAssign | transferEnter | transferLock | unlockEmpty | prepareToWait
  | schedule | finishWait | interrupted | retry | transferUnlock =>
      exact { related with inv := inv }
  | thrdWipe | noFreeSlot | tooManyLost | wakeUp | thrdExit =>
      exact { related with inv := inv, assembling := trivial }

theorem run_refines (hz : Nat) {actions : List Action}
    {state : Driver × List (List (BitVec 32))}
    (run : (deliverySystem hz).run actions = some state) :
    Refines state (actions.foldl queueStep PacketQueue.empty) :=
  StepSystem.simulation Refines queueStep (refines_step hz) (refines_start hz) run

/-- Over any interleaving the reader finds in its memory, most significant byte first, the packets
that the drop-oldest queue delivers. -/
theorem transfer_delivers_queue (hz : Nat) (actions : List Action) (s : Driver)
    (delivered : List (List (BitVec 32)))
    (run : (deliverySystem hz).run actions = some (s, delivered)) :
    delivered.map (·.flatMap littleEndianBytes) =
        (actions.foldl queueStep PacketQueue.empty).fifo.delivered.map
          (·.flatMap bigEndianBytes) ∧
      (actions.foldl queueStep PacketQueue.empty).fifo.delivered.Sublist
        (actions.foldl queueStep PacketQueue.empty).fifo.enqueued ∧
      (actions.foldl queueStep PacketQueue.empty).fifo.queue.length ≤ fifoCapacity := by
  have related := run_refines hz run
  refine ⟨?_, related.ordered.delivered, ?_⟩
  · have copied : delivered = _ := related.delivered
    rw [copied, List.map_map]
    exact List.map_congr_left fun packet _ => memcpy_bswap_packet_bytes packet
  have length := entries_length s.dev.rxRing
  have bound := (used_range s.dev.rxRing).2
  rw [related.queue, List.length_map]
  simp only [fifoCapacity, rxRingPackets] at *
  omega

theorem transfer_delivers_queue_two_packets :
    ∃ s delivered, (deliverySystem 250).run (startSchedule ++ receiveSchedule samplePacket ++
        fillSchedule (samplePacket.map (· + 1)) ++ transferSchedule) = some (s, delivered) ∧
      delivered.map (·.flatMap littleEndianBytes) = [samplePacket.flatMap bigEndianBytes] := by
  obtain ⟨⟨s, delivered⟩, run⟩ := Option.isSome_iff_exists.mp
    (show ((deliverySystem 250).run (startSchedule ++ receiveSchedule samplePacket ++
      fillSchedule (samplePacket.map (· + 1)) ++ transferSchedule)).isSome = true by
        decide +kernel)
  refine ⟨s, delivered, run, ?_⟩
  rw [(transfer_delivers_queue 250 _ s delivered run).1]
  decide +kernel

end Testings.SpiSlave
