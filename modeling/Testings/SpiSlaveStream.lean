import Testings.QueueLedger
import Testings.SpiSlaveFraming

/-!
# From the wire to the reader

The whole way of a packet: the dwords the FIFO hands out, their framing, the ring of slots and
the swapped copy in `rx_buf`. What the transfers copy are packets of the stream as they came over
the wire, in their order, and the packets missing are those the driver has taken out of the ring
without a transfer: the oldest one of a full ring, and all of them at a reset.
-/

set_option autoImplicit false

namespace Testings.SpiSlave

/-- A packet as it comes over the wire. -/
def wireBytes (packet : List (BitVec 32)) : List (BitVec 8) := packet.flatMap bigEndianBytes

/-- The packets in the ring, the oldest first. -/
def queuedPackets (dev : SpiImx) : List (List (BitVec 8)) :=
  dev.rxRing.entries.map fun idx => wireBytes (slotPacket dev.packets idx)

/-- The bytes of `rx_buf` after each copy are delivered; what else leaves the ring is dropped. -/
def recordStream (state : Driver × Tape) (action : Action) (next : Driver × Tape)
    (ledger : QueueLedger (List (BitVec 8))) : QueueLedger (List (BitVec 8)) :=
  match action with
  | .publish => ledger.accept ((next.2.published.drop state.2.published.length).map wireBytes)
  | .consume =>
      if next.1.reader = .copied then
        ledger.deliver [next.1.rxBuf.flatMap littleEndianBytes]
      else ledger
  | .reserve | .prepareClear | .thrdClear =>
      ledger.drop ((queuedPackets state.1.dev).take
        ((queuedPackets state.1.dev).length - (queuedPackets next.1.dev).length))
  | _ => ledger

def streamSystem (hz : Nat) :
    StepSystem ((Driver × Tape) × QueueLedger (List (BitVec 8))) Action :=
  (framingSystem hz).observe .empty recordStream

/-- The packets of the stream as the parse finds them. -/
def streamPackets (tape : Tape) : List (List (BitVec 8)) :=
  (packetFraming.parse tape.stream).frames.map wireBytes

/-- A packet that is complete and not in the ring yet. -/
def pendingPackets (s : Driver) : List (List (BitVec 8)) :=
  (s.rx.unpublished s.dev.packets).map wireBytes

structure StreamInv (state : (Driver × Tape) × QueueLedger (List (BitVec 8))) : Prop where
  framing : FramingInv state.1
  kept : state.2.Kept (queuedPackets state.1.1.dev)
  accepted : state.2.accepted = state.1.2.published.map wireBytes

theorem queued_cleared {dev : SpiImx} :
    queuedPackets { dev with rxRing := rxringClear dev.rxRing } = [] := by
  rw [queuedPackets, clear_entries, List.map_nil]

theorem queued_removed {dev : SpiImx} (inv : RingInv dev.rxRing)
    (nonempty : 0 < rxringUsed dev.rxRing) :
    queuedPackets dev = wireBytes (slotPacket dev.packets (rxringTailIdx dev.rxRing)) ::
      queuedPackets { dev with rxRing := rxringRemove dev.rxRing } := by
  rw [queuedPackets, entries_remove inv nonempty, List.map_cons]
  rfl

/-- Making room takes the oldest packet out of a full ring and leaves any other ring. -/
theorem queued_reserved {dev : SpiImx} (inv : RingInv dev.rxRing) :
    queuedPackets (receivePacketReserve dev).1 <:+ queuedPackets dev := by
  have same : queuedPackets (receivePacketReserve dev).1 =
      queuedPackets { dev with rxRing := ringWithRoom dev.rxRing } := by
    rw [queuedPackets, reserve_ring, reserve_packets]
    rfl
  rw [same, ringWithRoom]
  split_ifs with full
  · rw [queued_removed inv (used_of_full full)]
    exact List.suffix_cons _ _
  · exact List.suffix_refl _

theorem queued_inserted {dev : SpiImx} {idx : Int} (inv : RingInv dev.rxRing)
    (room : rxringUsed dev.rxRing + 1 < rxRingPackets) (lower : 0 ≤ idx) :
    queuedPackets (receivePacketPublish dev idx) =
      queuedPackets dev ++ [wireBytes (slotPacket dev.packets idx)] := by
  rcases publish_eq dev idx with ⟨used, same⟩
  rw [same, queuedPackets, entries_insert inv room lower, List.map_append]
  rfl

/-- What a transfer leaves in the memory of the host is the packet as it came. -/
theorem copied_bytes (packet : List (BitVec 32)) :
    (memcpyBswapPacket packet).flatMap littleEndianBytes = wireBytes packet :=
  memcpy_bswap_packet_bytes packet

theorem StreamInv.keep {s next : Driver} {tape later : Tape}
    {ledger : QueueLedger (List (BitVec 8))} (before : StreamInv ((s, tape), ledger))
    (framing : FramingInv (next, later)) (published : later.published = tape.published)
    (queued : queuedPackets next.dev = queuedPackets s.dev) :
    StreamInv ((next, later), ledger) where
  framing := framing
  kept := by
    dsimp only
    rw [queued]
    exact before.kept
  accepted := by
    dsimp only
    rw [published]
    exact before.accepted

/-- A step that only takes packets out of the ring. -/
theorem StreamInv.shrink {s next : Driver} {tape : Tape}
    {ledger : QueueLedger (List (BitVec 8))} (before : StreamInv ((s, tape), ledger))
    (framing : FramingInv (next, tape)) (rest : queuedPackets next.dev <:+ queuedPackets s.dev) :
    StreamInv ((next, tape), ledger.drop ((queuedPackets s.dev).take
      ((queuedPackets s.dev).length - (queuedPackets next.dev).length))) where
  framing := framing
  kept := before.kept.shrunk rest
  accepted := before.accepted

theorem stream_step {hz : Nat} {s next : Driver} {action : Action} {tape : Tape}
    {ledger : QueueLedger (List (BitVec 8))} (before : StreamInv ((s, tape), ledger))
    (continued : notStopped s action) (taken : step hz s action = some next) :
    StreamInv ((next, recordTape s action next tape),
      recordStream (s, tape) action (next, recordTape s action next tape) ledger) := by
  have framing := framing_step before.framing continued taken
  have inv := before.framing.inv
  have ring := inv.ring
  have slot := inv.slot
  dsimp only at inv ring slot
  cases step_cases taken with
  | kthreadStop => exact absurd rfl continued
  | prepareClear | thrdClear =>
      apply before.shrink framing
      rw [queued_cleared]
      exact List.nil_suffix
  | reserve => exact before.shrink framing (queued_reserved ring)
  | fill val idx cnt rv point =>
      have counts := before.framing.counts
      dsimp only at counts
      rw [point] at counts slot
      apply before.keep framing rfl
      have bytes := congrArg (List.map wireBytes)
        (@fill_entries_frame s.dev.packets idx cnt _ val counts.1 (slot idx rfl).fresh)
      rw [List.map_map, List.map_map] at bytes
      exact bytes
  | publish idx rv point =>
      rw [point] at slot
      have reserved := slot idx rfl
      have queued := queued_inserted ring reserved.room reserved.lower
      have accepted := before.accepted
      dsimp only at accepted
      have gained := packets_inserted ring reserved
      refine { framing := framing, kept := ?_, accepted := ?_ }
      · dsimp only [recordStream, recordTape]
        rw [gained, queued, List.drop_left]
        exact before.kept.accept _
      · dsimp only [recordStream, recordTape, QueueLedger.accept]
        rw [List.drop_left, accepted, ← List.map_append]
  | copied nReady point positive =>
      have nonempty : 0 < rxringUsed s.dev.rxRing := inv.ready nReady point ▸ positive
      have front := queued_removed ring nonempty
      have delivered := before.kept.deliver 1
      dsimp only at delivered
      rw [front] at delivered
      refine { framing := framing, kept := ?_, accepted := before.accepted }
      dsimp only [recordStream]
      rw [if_pos rfl, copied_bytes]
      exact delivered
  | faulted nReady point positive invalid => exact absurd rfl framing.inv.noFault
  | _ => exact before.keep framing rfl rfl

theorem stream_start (hz : Nat) : StreamInv (streamSystem hz).start where
  framing := framing_start hz
  kept := by
    change QueueLedger.empty.Kept (queuedPackets spiImxProbed)
    rw [queuedPackets, probed_entries]
    exact QueueLedger.empty_kept
  accepted := rfl

theorem reachable_stream {hz : Nat} {state : (Driver × Tape) × QueueLedger (List (BitVec 8))}
    (reached : (streamSystem hz).Reachable state) : StreamInv state := by
  apply reached.invariant StreamInv (stream_start hz)
  intro before action after inv taken
  rcases before with ⟨⟨s, tape⟩, ledger⟩
  rcases after with ⟨⟨next, later⟩, record⟩
  rcases StepSystem.observe_step_some.mp taken with ⟨framed, recorded⟩
  rcases StepSystem.observe_step_some.mp framed with ⟨restricted, taped⟩
  rcases StepSystem.restrict_step_some.mp restricted with ⟨continued, moved⟩
  dsimp only at continued moved taped recorded
  rw [recorded, taped]
  exact stream_step inv continued moved

/-- A reset finds an empty ring, a reservation one that is not full. -/
def KeepsPackets (s : Driver) : Action → Prop
  | .prepareClear | .thrdClear => queuedPackets s.dev = []
  | .reserve => (queuedPackets s.dev).length ≠ fifoCapacity
  | _ => True

theorem queued_full_iff {dev : SpiImx} :
    (queuedPackets dev).length = fifoCapacity ↔ rxringVacant dev.rxRing = 0 := by
  have length : ((queuedPackets dev).length : Int) = rxringUsed dev.rxRing := by
    rw [queuedPackets, List.length_map, entries_length]
  rw [vacant_zero_iff, ← length]
  simp only [fifoCapacity, rxRingPackets]
  omega

theorem reserved_length_iff {dev : SpiImx} (inv : RingInv dev.rxRing) :
    (queuedPackets (receivePacketReserve dev).1).length = (queuedPackets dev).length ↔
      (queuedPackets dev).length ≠ fifoCapacity := by
  rw [Ne, queued_full_iff]
  have same : queuedPackets (receivePacketReserve dev).1 =
      queuedPackets { dev with rxRing := ringWithRoom dev.rxRing } := by
    rw [queuedPackets, reserve_ring, reserve_packets]
    rfl
  rw [same, ringWithRoom]
  split_ifs with full
  · rw [queued_removed inv (used_of_full full), List.length_cons]
    constructor
    · intro equal
      omega
    · intro room
      exact absurd full room
  · exact ⟨fun _ => full, fun _ => rfl⟩

theorem drop_nothing_iff {queue later : List (List (BitVec 8))}
    {ledger : QueueLedger (List (BitVec 8))} (rest : later <:+ queue) :
    (ledger.drop (queue.take (queue.length - later.length))).dropped = ledger.dropped ↔
      later.length = queue.length := by
  have shorter := rest.length_le
  rw [QueueLedger.drop, List.append_right_eq_self, List.take_eq_nil_iff]
  constructor
  · intro nothing
    rcases nothing with none | empty
    · omega
    · rw [empty] at shorter ⊢
      exact Nat.le_antisymm shorter (Nat.zero_le _)
  · intro equal
    exact .inl (by omega)

/-- A step loses no packet exactly when it keeps packets. -/
theorem step_drops_iff {hz : Nat} {s next : Driver} {action : Action} {tape later : Tape}
    {ledger : QueueLedger (List (BitVec 8))} (ring : RingInv s.dev.rxRing)
    (taken : step hz s action = some next) :
    (recordStream (s, tape) action (next, later) ledger).dropped = ledger.dropped ↔
      KeepsPackets s action := by
  cases step_cases taken with
  | prepareClear | thrdClear =>
      dsimp only [recordStream, KeepsPackets]
      rw [queued_cleared, drop_nothing_iff List.nil_suffix, List.length_nil, eq_comm,
        List.length_eq_zero_iff]
  | reserve =>
      dsimp only [recordStream, KeepsPackets]
      rw [drop_nothing_iff (queued_reserved ring), reserved_length_iff ring]
  | copied nReady point positive =>
      dsimp only [recordStream, KeepsPackets]
      rw [if_pos rfl]
      exact ⟨fun _ => trivial, fun _ => rfl⟩
  | faulted nReady point positive invalid =>
      dsimp only [recordStream, KeepsPackets]
      rw [if_neg (by nofun)]
      exact ⟨fun _ => trivial, fun _ => rfl⟩
  | _ => exact ⟨fun _ => trivial, fun _ => rfl⟩

/-- What transfers have copied, what waits in the ring and what is about to enter it are the
packets of the stream as they came over the wire, in their order, but for the dropped ones; and
these were dropped by a reset of a ring with packets or by the reservation in a full ring. -/
theorem stream_delivered (hz : Nat) (s : Driver) (tape : Tape)
    (ledger : QueueLedger (List (BitVec 8)))
    (reached : (streamSystem hz).Reachable ((s, tape), ledger)) :
    (ledger.delivered ++ queuedPackets s.dev ++ pendingPackets s).Sublist (streamPackets tape) ∧
      (streamPackets tape).Perm
        (ledger.delivered ++ queuedPackets s.dev ++ ledger.dropped ++ pendingPackets s) ∧
      (ledger.delivered ++ queuedPackets s.dev ++ pendingPackets s = streamPackets tape ↔
        ledger.dropped = []) ∧
      ∀ action next record,
        (streamSystem hz).step ((s, tape), ledger) action = some (next, record) →
          (record.dropped = ledger.dropped ↔ KeepsPackets s action) := by
  have inv := reachable_stream reached
  have frames := congrArg (List.map wireBytes) inv.framing.frames
  have accepted := inv.accepted
  dsimp only at frames accepted
  have packets : streamPackets tape = ledger.accepted ++ pendingPackets s := by
    rw [accepted, streamPackets, frames, List.map_append]
    rfl
  rw [packets]
  refine ⟨?_, ?_, ?_, ?_⟩
  · exact List.Sublist.append inv.kept.ordered (List.Sublist.refl _)
  · exact inv.kept.conserved.append_right _
  · rw [List.append_cancel_right_eq]
    exact inv.kept.lossless_iff
  · intro action next record taken
    rcases next with ⟨after, later⟩
    rcases StepSystem.observe_step_some.mp taken with ⟨framed, recorded⟩
    rcases StepSystem.observe_step_some.mp framed with ⟨restricted, _⟩
    rcases StepSystem.restrict_step_some.mp restricted with ⟨_, moved⟩
    dsimp only at recorded moved
    rw [recorded]
    exact step_drops_iff inv.framing.inv.ring moved

/-- A first packet copied and a second one in the ring. -/
theorem stream_delivered_two_packets :
    ∃ (s : Driver) (tape : Tape) (ledger : QueueLedger (List (BitVec 8))),
      ledger.delivered = [wireBytes samplePacket] ∧
        queuedPackets s.dev = [wireBytes (samplePacket.map (· + 1))] ∧
        ledger.delivered ++ queuedPackets s.dev ++ pendingPackets s = streamPackets tape := by
  rcases (streamSystem 250).reachable_of_run
    (startSchedule ++ receiveSchedule samplePacket ++
      receiveSchedule (samplePacket.map (· + 1)) ++ transferSchedule)
    (fun state => decide (state.2.delivered = [wireBytes samplePacket] ∧ state.2.dropped = [] ∧
      queuedPackets state.1.1.dev = [wireBytes (samplePacket.map (· + 1))]))
    (by decide +kernel) with ⟨⟨⟨s, tape⟩, ledger⟩, reached, passes⟩
  rcases of_decide_eq_true passes with ⟨delivered, dropped, queued⟩
  have whole := (stream_delivered 250 s tape ledger reached).2.2.1.mpr dropped
  exact ⟨s, tape, ledger, delivered, queued, whole⟩

end Testings.SpiSlave
