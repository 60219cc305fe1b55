import Testings.SpiSlaveReceive
import Mathlib.Data.List.Infix

/-!
# When `receive_packet` publishes a complete packet

The publish section after the fill loop is shared by its two exits: a packet
completed by `paketizer`, and a stop of the thread. The loop is followed here
over an arbitrary schedule of polls. `completes` reads off the dword stream
whether the packet under construction gets finished before the polls run out.
-/

set_option autoImplicit false

namespace Testings.SpiSlave

/-- Whether feeding `stream` to a slot that already holds `filled` completes a packet. -/
def completes (filled : List (BitVec 32)) : List (BitVec 32) → Bool
  | [] => false
  | val :: stream =>
      (assemble filled val).length == packetSizeDword || completes (assemble filled val) stream

/-- A whole packet, sync dword first, somewhere in the stream. -/
def StreamHasPacket (stream : List (BitVec 32)) : Prop :=
  ∃ packet, packet <:+: stream ∧ packet.length = packetSizeDword ∧ Synced packet

/-- The slot inserted by a call, if any, holds consecutive dwords received by
that call that start with a sync dword; a call that completes no packet leaves
the ring alone apart from making room. -/
def OnlyCompletePublished (dev : SpiImx) (polls : List Poll) : Prop :=
  let out := receivePacket dev polls
  let room := ringWithRoom dev.rxRing
  (out.1.rxRing ≠ room →
    out.1.rxRing = rxringInsert room (rxringGetFreeIdx room) ∧
      Synced (slotPacket out.1.packets (rxringGetFreeIdx room)) ∧
      ∃ received, pollStream polls = received ++ pollStream out.2.2 ∧
        slotPacket out.1.packets (rxringGetFreeIdx room) <:+: received) ∧
    (out.2.1 ≤ 0 → out.1.rxRing = room)

theorem completes_append (filled first second : List (BitVec 32)) :
    completes filled (first ++ second) =
      (completes filled first || completes (first.foldl assemble filled) second) := by
  induction first generalizing filled with
  | nil => simp [completes]
  | cons val first ih =>
      simp only [List.cons_append, completes, List.foldl_cons, ih, Bool.or_assoc]

/-- Once a sync dword is in the slot only the number of dwords matters. -/
theorem completes_started {filled : List (BitVec 32)} (started : filled ≠ [])
    (short : filled.length < packetSizeDword) (stream : List (BitVec 32)) :
    completes filled stream = true ↔ packetSizeDword ≤ filled.length + stream.length := by
  induction stream generalizing filled with
  | nil =>
      simp only [completes, List.length_nil, Bool.false_eq_true, false_iff]
      omega
  | cons val stream ih =>
      have extended : assemble filled val = filled ++ [val] := by simp [assemble, started]
      simp only [completes, extended, Bool.or_eq_true, beq_iff_eq, List.length_append,
        List.length_cons, List.length_nil]
      by_cases last : filled.length + 1 = packetSizeDword
      · simp only [last, Nat.zero_add, true_or, true_iff]
        omega
      · rw [ih (by simp) (by simp only [List.length_append, List.length_singleton]; omega)]
        simp only [List.length_append, List.length_singleton]
        omega

theorem packet_needs_length {stream : List (BitVec 32)} (packet : StreamHasPacket stream) :
    packetSizeDword ≤ stream.length := by
  obtain ⟨packet, inside, length, _⟩ := packet
  exact length ▸ inside.length_le

theorem has_packet_cons_skip {val : BitVec 32} (skipped : syncByte val = false)
    (stream : List (BitVec 32)) : StreamHasPacket (val :: stream) ↔ StreamHasPacket stream := by
  constructor
  · rintro ⟨packet, inside, length, synced⟩
    rcases List.infix_cons_iff.mp inside with first | later
    · obtain ⟨behind, split⟩ := first
      cases packet with
      | nil => exact absurd length (by decide)
      | cons head rest =>
          have same : head = val := (List.cons.inj split).1
          have sync := synced head (by simp)
          rw [same, skipped] at sync
          exact absurd sync (by decide)
    · exact ⟨packet, later, length, synced⟩
  · rintro ⟨packet, inside, length, synced⟩
    exact ⟨packet, List.infix_cons inside, length, synced⟩

theorem completes_iff (stream : List (BitVec 32)) :
    completes [] stream = true ↔ StreamHasPacket stream := by
  induction stream with
  | nil =>
      constructor
      · intro impossible
        exact absurd impossible (by decide)
      · intro packet
        exact absurd (packet_needs_length packet) (by decide)
  | cons val stream ih =>
      cases sync : syncByte val with
      | false =>
          have skipped : assemble [] val = [] := by simp [assemble, sync]
          rw [has_packet_cons_skip sync, ← ih]
          simp [completes, skipped, packetSizeDword, packetSize]
      | true =>
          have kept : assemble [] val = [val] := by simp [assemble, sync]
          have short : [val].length < packetSizeDword := by rw [List.length_singleton]; decide
          have started := completes_started (List.cons_ne_nil val []) short stream
          have unfolded : completes [] (val :: stream) = completes [val] stream := by
            simp [completes, kept, packetSizeDword, packetSize]
          rw [unfolded, started]
          constructor
          · intro enough
            refine ⟨(val :: stream).take packetSizeDword, (List.take_prefix _ _).isInfix, ?_, ?_⟩
            · rw [List.length_take, List.length_cons]
              simp only [List.length_singleton] at enough
              omega
            · intro first member
              have same : first = val := by
                simpa [packetSizeDword, packetSize, eq_comm] using member
              rw [same, sync]
          · intro packet
            have enough := packet_needs_length packet
            simp only [List.length_cons, List.length_nil] at enough ⊢
            omega

/-- Feeding `stream` to a slot that holds `filled` either completes a packet
and leaves `rest` unread, or reads everything and leaves the slot unfinished.
What is in the slot is always the end of what was received. -/
inductive FeedOutcome (packets : Int → BitVec 32) (pkti : Int) (cnt : Nat) (rv : Int)
    (filled stream rest : List (BitVec 32)) : Prop where
  | complete (high : 0 < rv) (ended : completes filled stream = true)
      (taken skipped packet : List (BitVec 32)) (consumed : stream = taken ++ rest)
      (kept : filled ++ taken = skipped ++ packet) (stored : Filled packets pkti packet)
  | pending (low : rv ≤ 0) (unended : completes filled stream = false)
      (stored : Filling packets pkti cnt (stream.foldl assemble filled))
      (skipped : List (BitVec 32))
      (kept : filled ++ stream = skipped ++ stream.foldl assemble filled)

theorem FeedOutcome.complete_append {packets : Int → BitVec 32} {pkti : Int} {cnt : Nat} {rv : Int}
    {filled stream rest : List (BitVec 32)} (high : 0 < rv)
    (outcome : FeedOutcome packets pkti cnt rv filled stream rest) (more : List (BitVec 32)) :
    FeedOutcome packets pkti cnt rv filled (stream ++ more) (rest ++ more) := by
  cases outcome with
  | complete high ended taken skipped packet consumed kept stored =>
      apply FeedOutcome.complete high _ taken skipped packet _ kept stored
      · rw [completes_append, ended, Bool.true_or]
      · rw [consumed, List.append_assoc]
  | pending low => omega

theorem FeedOutcome.filling {packets : Int → BitVec 32} {pkti : Int} {cnt : Nat} {rv : Int}
    {filled stream rest : List (BitVec 32)} (low : rv ≤ 0)
    (outcome : FeedOutcome packets pkti cnt rv filled stream rest) :
    Filling packets pkti cnt (stream.foldl assemble filled) := by
  cases outcome with
  | complete high => omega
  | pending _ _ stored => exact stored

theorem FeedOutcome.pending_append {middle packets : Int → BitVec 32} {pkti : Int}
    {cnt cnt' : Nat} {rv rv' : Int} {filled stream rest unread more : List (BitVec 32)}
    (low : rv ≤ 0) (first : FeedOutcome middle pkti cnt rv filled stream rest)
    (second : FeedOutcome packets pkti cnt' rv' (stream.foldl assemble filled) more unread) :
    FeedOutcome packets pkti cnt' rv' filled (stream ++ more) unread := by
  cases first with
  | complete high => omega
  | pending _ unended _ skipped kept =>
      cases second with
      | complete high ended taken later packet consumed moved stored =>
          apply FeedOutcome.complete high _ (stream ++ taken) (skipped ++ later) packet _ _ stored
          · rw [completes_append, ended, Bool.or_true]
          · rw [consumed, List.append_assoc]
          · rw [← List.append_assoc, kept, List.append_assoc, moved, List.append_assoc]
      | pending low unfinished stored later moved =>
          apply FeedOutcome.pending low _ _ (skipped ++ later)
          · rw [← List.append_assoc, kept, List.append_assoc, moved, List.foldl_append,
              List.append_assoc]
          · rw [completes_append, unended, unfinished, Bool.or_false]
          · rw [List.foldl_append]
            exact stored

theorem paketizer_outcome {packets : Int → BitVec 32} {pkti : Int} {cnt : Nat}
    {filled : List (BitVec 32)} (filling : Filling packets pkti cnt filled) (val : BitVec 32) :
    FeedOutcome (paketizer val packets pkti cnt).1 pkti (paketizer val packets pkti cnt).2.1
      (paketizer val packets pkti cnt).2.2 filled [val] [] := by
  obtain ⟨skipped, split⟩ : ∃ skipped, filled ++ [val] = skipped ++ assemble filled val := by
    unfold assemble
    split_ifs with reset
    · exact ⟨filled ++ [val], by simp⟩
    · exact ⟨[], rfl⟩
  rcases paketizer_assembles filling val with ⟨result, complete⟩ | ⟨low, next⟩
  · apply FeedOutcome.complete _ _ [val] skipped _ rfl split complete
    · rw [result]
      exact Int.one_pos
    · simp [completes, filled_length complete]
  · apply FeedOutcome.pending low _ next skipped split
    have short : (assemble filled val).length ≠ packetSizeDword := by
      rw [filling_length next]
      exact next.room.ne
    simp [completes, short]

theorem receive_burst_spec {dev : SpiImx} {pkti : Int} {cnt : Nat} {rv : Int}
    {filled : List (BitVec 32)} (filling : Filling dev.packets pkti cnt filled) (low : rv ≤ 0)
    (burst : List (BitVec 32)) :
    (receiveBurst dev pkti cnt rv burst).1.rxRing = dev.rxRing ∧
      FeedOutcome (receiveBurst dev pkti cnt rv burst).1.packets pkti
        (receiveBurst dev pkti cnt rv burst).2.1 (receiveBurst dev pkti cnt rv burst).2.2.1
        filled burst (receiveBurst dev pkti cnt rv burst).2.2.2 := by
  induction burst generalizing dev cnt rv filled with
  | nil => exact ⟨rfl, .pending low rfl filling [] (List.append_nil _)⟩
  | cons val burst ih =>
      have first := paketizer_outcome filling val
      simp only [receiveBurst]
      split_ifs with high
      · exact ⟨rfl, first.complete_append high burst⟩
      · have pending : (paketizer val dev.packets pkti cnt).2.2 ≤ 0 := by omega
        have second := @ih { dev with
          packets := (paketizer val dev.packets pkti cnt).1
          stats := countDword dev.stats (paketizer val dev.packets pkti cnt).2.2 }
          _ _ _ (first.filling pending) pending
        exact ⟨second.1, first.pending_append pending second.2⟩

theorem receive_loop_spec {dev : SpiImx} {pkti : Int} {cnt : Nat} {rv : Int}
    {filled : List (BitVec 32)} (filling : Filling dev.packets pkti cnt filled) (low : rv ≤ 0)
    (polls : List Poll) :
    (receiveLoop dev pkti cnt rv polls).1.rxRing = dev.rxRing ∧
      ∃ final, FeedOutcome (receiveLoop dev pkti cnt rv polls).1.packets pkti final
        (receiveLoop dev pkti cnt rv polls).2.1 filled (pollStream polls)
        (pollStream (receiveLoop dev pkti cnt rv polls).2.2) := by
  induction polls generalizing dev cnt rv filled with
  | nil => exact ⟨rfl, cnt, .pending low rfl filling [] (List.append_nil _)⟩
  | cons poll polls ih =>
      let polled := { dev with stats := countOverrun dev.stats poll.stat }
      obtain ⟨ringSame, burst⟩ := @receive_burst_spec polled _ _ _ _ filling low poll.burst
      simp only [receiveLoop, pollStream, List.flatMap_cons]
      split_ifs with high
      · exact ⟨ringSame, _, burst.complete_append high _⟩
      · have stillLow := Int.not_lt.mp high
        obtain ⟨ringLater, final, rest⟩ := ih (burst.filling stillLow) stillLow
        exact ⟨ringLater.trans ringSame, final, burst.pending_append stillLow rest⟩

theorem insert_ne_self (ring : CircBuf) (idx : Int) : rxringInsert ring idx ≠ ring := by
  intro same
  have head : rxringAdvance ring.head = ring.head := congrArg CircBuf.head same
  simp only [rxringAdvance, rxRingPackets] at head
  omega

/-- A call that passes the two early tests publishes whatever the loop left. -/
theorem receive_packet_publishes (dev : SpiImx) (polls : List Poll)
    (free : ¬rxringGetFreeIdx (ringWithRoom dev.rxRing) < 0)
    (few : ¬1024#64 < lostWithRoom dev) :
    ∃ final, (receivePacket dev polls).1.rxRing =
        rxringInsert (ringWithRoom dev.rxRing) (rxringGetFreeIdx (ringWithRoom dev.rxRing)) ∧
      FeedOutcome (receivePacket dev polls).1.packets
        (packetAddress (rxringGetFreeIdx (ringWithRoom dev.rxRing))) final
        (receivePacket dev polls).2.1 [] (pollStream polls)
        (pollStream (receivePacket dev polls).2.2) := by
  have unfolded : receivePacket dev polls =
      let out := receiveLoop (receivePacketReserve dev).1
        (packetAddress (rxringGetFreeIdx (ringWithRoom dev.rxRing))) 0 (-1) polls
      (receivePacketPublish out.1 (rxringGetFreeIdx (ringWithRoom dev.rxRing)),
        out.2.1, out.2.2) := by
    simp only [receivePacket, reserve_idx, reserve_lost, if_neg free, if_neg few]
  obtain ⟨ringSame, final, outcome⟩ := receive_loop_spec
    (filling_start (receivePacketReserve dev).1.packets
      (packetAddress (rxringGetFreeIdx (ringWithRoom dev.rxRing))))
    (show (-1 : Int) ≤ 0 by decide) polls
  rw [unfolded]
  refine ⟨final, ?_, outcome⟩
  simp only [receivePacketPublish]
  rw [ringSame, reserve_ring]

theorem receive_packet_returns_early (dev : SpiImx) (polls : List Poll)
    (early : rxringGetFreeIdx (ringWithRoom dev.rxRing) < 0 ∨ 1024#64 < lostWithRoom dev) :
    (receivePacket dev polls).1.rxRing = ringWithRoom dev.rxRing := by
  simp only [receivePacket, reserve_idx, reserve_lost]
  split_ifs with full lost
  · exact reserve_ring dev
  · exact reserve_ring dev
  · exact absurd early (not_or.mpr ⟨full, lost⟩)

/-- A call publishes complete packets only, unless the polls stop the thread
before a whole packet has been handed out. -/
theorem only_complete_published_iff (dev : SpiImx) (polls : List Poll) :
    OnlyCompletePublished dev polls ↔
      rxringGetFreeIdx (ringWithRoom dev.rxRing) < 0 ∨ 1024#64 < lostWithRoom dev ∨
        StreamHasPacket (pollStream polls) := by
  by_cases early : rxringGetFreeIdx (ringWithRoom dev.rxRing) < 0 ∨ 1024#64 < lostWithRoom dev
  · have unchanged := receive_packet_returns_early dev polls early
    constructor
    · intro _
      rcases early with full | lost
      · exact .inl full
      · exact .inr (.inl lost)
    · intro _
      exact ⟨fun changed => absurd unchanged changed, fun _ => unchanged⟩
  · obtain ⟨free, few⟩ := not_or.mp early
    obtain ⟨final, inserted, outcome⟩ := receive_packet_publishes dev polls free few
    have changed : (receivePacket dev polls).1.rxRing ≠ ringWithRoom dev.rxRing := by
      rw [inserted]
      exact insert_ne_self _ _
    rw [← completes_iff]
    cases outcome with
    | complete high ended taken skipped packet consumed kept stored =>
        constructor
        · intro _
          exact .inr (.inr ended)
        · intro _
          refine ⟨fun _ => ⟨inserted, ?_, taken, consumed, ?_⟩, fun low => absurd high (by omega)⟩
          · rw [slotPacket, stored.stored]
            exact stored.synced
          · rw [slotPacket, stored.stored]
            exact ⟨skipped, [], by simpa using kept.symm⟩
    | pending low unended =>
        constructor
        · intro complete
          exact absurd (complete.2 low) changed
        · rintro (full | lost | ended)
          · exact absurd full free
          · exact absurd lost few
          · rw [unended] at ended
            exact absurd ended (by decide)

/-- A stop after the first dword of a packet publishes the unfinished slot. -/
theorem stopped_call_publishes_unfinished_slot :
    ¬OnlyCompletePublished spiImxProbed [{ stat := 8#32, burst := [0x47000010#32] }] := by
  intro complete
  have unchanged := congrArg CircBuf.head (complete.2 (by decide))
  exact absurd unchanged (by decide)

end Testings.SpiSlave
