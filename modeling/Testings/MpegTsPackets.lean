import Mathlib.Data.Nat.Init
import Testings.MpegTsScan

/-!
# Streams of whole packets

A packet of 188 bytes with its sync byte, and what a file of such packets is to
the two scanners: behind any prefix in which nothing is confirmed, both hand
over exactly the packets, each with its offset.
-/

set_option autoImplicit false

namespace Testings.MpegTs

open Python

structure TsPacket where
  bytes : Bytes
  whole : bytes.length = tsSz
  synced : SyncAt bytes 0
  deriving DecidableEq

def streamOf (packets : List TsPacket) : Bytes := (packets.map TsPacket.bytes).flatten

/-- The packets with their offsets when the first one is at `start`. -/
def placed (start : Nat) : List TsPacket → List (TsPacket × Nat)
  | [] => []
  | packet :: rest => (packet, start) :: placed (start + tsSz) rest

theorem stream_length (packets : List TsPacket) :
    (streamOf packets).length = packets.length * tsSz := by
  induction packets with
  | nil => rfl
  | cons packet rest ih =>
      rw [streamOf, List.map_cons, List.flatten_cons, List.length_append, packet.whole]
      change tsSz + (streamOf rest).length = _
      rw [ih, List.length_cons, Nat.succ_mul, Nat.add_comm]

theorem stream_cons (packet : TsPacket) (rest : List TsPacket) :
    streamOf (packet :: rest) = packet.bytes ++ streamOf rest :=
  rfl

theorem sync_at_append {before after : Bytes} {position : Nat} :
    SyncAt (before ++ after) (before.length + position) ↔ SyncAt after position := by
  unfold SyncAt
  rw [List.getElem?_append_right (Nat.le_add_right _ _), Nat.add_sub_cancel_left]

theorem TsPacket.sync_at (packet : TsPacket) (before after : Bytes) :
    SyncAt (before ++ (packet.bytes ++ after)) before.length := by
  have here : SyncAt (packet.bytes ++ after) 0 := by
    have inside : 0 < packet.bytes.length := by
      rw [packet.whole]
      decide
    unfold SyncAt
    rw [List.getElem?_append_left inside]
    exact packet.synced
  exact sync_at_append.mpr here

theorem packet_at_packet (packet : TsPacket) (before after : Bytes) :
    packetAt (before ++ (packet.bytes ++ after)) before.length =
      (packet.bytes, before.length) := by
  have taken : (before ++ (packet.bytes ++ after)).take (before.length + tsSz) =
      before ++ packet.bytes := by
    rw [← packet.whole, List.take_length_add_append, List.take_left]
  rw [packetAt, slice, taken, List.drop_left]

/-- From the first packet on, every packet is confirmed by the next one, and the
last one ends the file. -/
theorem offsets_packets (before : Bytes) (packets : List TsPacket) :
    ((tsScan (before ++ streamOf packets)).offsets true before.length).map
        (packetAt (before ++ streamOf packets)) =
      (placed before.length packets).map fun handed => (handed.1.bytes, handed.2) := by
  induction packets generalizing before with
  | nil =>
      have past : (before ++ streamOf []).length < before.length + tsSz := by
        simp [streamOf, tsSz]
      rw [ts_offsets_past past]
      rfl
  | cons packet rest ih =>
      have next := ih (before ++ packet.bytes)
      rw [List.append_assoc, ← stream_cons, List.length_append, packet.whole] at next
      have first := packet.sync_at before (streamOf rest)
      have handed := packet_at_packet packet before (streamOf rest)
      rw [← stream_cons] at first handed
      rw [placed, List.map_cons, ← next, ← handed]
      cases rest with
      | nil =>
          have atEnd : before.length + tsSz = (before ++ streamOf [packet]).length := by
            simp [stream_length]
          have past : (before ++ streamOf [packet]).length < before.length + tsSz + tsSz := by
            rw [← atEnd]
            exact Nat.lt_add_of_pos_right (by decide)
          rw [ts_offsets_end atEnd, ts_offsets_past past]
          rfl
      | cons following others =>
          have ahead : before.length + tsSz <
              (before ++ streamOf (packet :: following :: others)).length := by
            rw [List.length_append, stream_length, List.length_cons, List.length_cons]
            unfold tsSz
            omega
          have behind := following.sync_at (before ++ packet.bytes) (streamOf others)
          rw [List.append_assoc, ← stream_cons, ← stream_cons, List.length_append,
            packet.whole] at behind
          rw [ts_offsets_confirmed ahead first behind]
          rfl

/-- The last packet ends the file, so both scanners take it. -/
theorem stream_last_sync (before : Bytes) {packets : List TsPacket} (some_packet : packets ≠ []) :
    SyncAt (before ++ streamOf packets) ((before ++ streamOf packets).length - tsSz) := by
  obtain ⟨front, last, rfl⟩ : ∃ front last, packets = front ++ [last] :=
    ⟨packets.dropLast, packets.getLast some_packet, (List.dropLast_append_getLast _).symm⟩
  have split : before ++ streamOf (front ++ [last]) =
      (before ++ streamOf front) ++ (last.bytes ++ []) := by
    simp [streamOf]
  have position : (before ++ streamOf (front ++ [last])).length - tsSz =
      (before ++ streamOf front).length := by
    rw [split, List.length_append, List.append_nil, last.whole, Nat.add_sub_cancel]
  rw [position, split]
  exact last.sync_at _ _

/-- Nothing in front of `stop` looks like a packet: 0x47 with another one 188 bytes later. -/
def NothingConfirmed (inmm : Bytes) (stop : Nat) : Prop :=
  ∀ j < stop, ¬(SyncAt inmm j ∧ SyncAt inmm (j + tsSz))

instance (inmm : Bytes) (stop : Nat) : Decidable (NothingConfirmed inmm stop) :=
  inferInstanceAs (Decidable (∀ j < stop, _))

theorem offsets_garbage {inmm : Bytes} {stop : Nat} (garbage : NothingConfirmed inmm stop)
    (enough : stop + tsSz ≤ inmm.length) (last : Bool) {pos : Nat} (before : pos ≤ stop) :
    (tsScan inmm).offsets last pos = (tsScan inmm).offsets last stop := by
  induction before using Nat.decreasingInduction with
  | of_succ pos earlier ih =>
      rw [ts_offsets_skip (by omega) (garbage pos earlier)]
      exact ih
  | self => rfl

variable {State : Type}

/-- What a caller sees that is handed `packets` at their places, one after the other. -/
def handOver (callee : Bytes → Nat → State → Py State) (start : Nat) (packets : List TsPacket)
    (state : State) : Py State :=
  (placed start packets).foldlM (fun state handed => callee handed.1.bytes handed.2 state) state

/-- Behind any prefix in which nothing is confirmed, both scanners hand over exactly
the packets, whatever they are handed to. -/
theorem scanners_resynchronise (garbage : Bytes) (packets : List TsPacket)
    (some_packet : packets ≠ [])
    (unconfirmed : NothingConfirmed (garbage ++ streamOf packets) garbage.length)
    (callee : Bytes → Nat → State → Py State) (state : State) :
    Parser.process (garbage ++ streamOf packets) callee 0 state =
        handOver callee garbage.length packets state ∧
      TsParser.process (garbage ++ streamOf packets) callee (fun _ => false) 0 state =
        handOver callee garbage.length packets state := by
  have enough : garbage.length + tsSz ≤ (garbage ++ streamOf packets).length := by
    have positive := List.length_pos_of_ne_nil some_packet
    rw [List.length_append, stream_length]
    unfold tsSz
    omega
  have last := stream_last_sync garbage some_packet
  have handed : (((tsScan (garbage ++ streamOf packets)).offsets true 0).map
      (packetAt (garbage ++ streamOf packets))).foldlM
        (fun state handed => callee handed.1 handed.2 state) state =
      handOver callee garbage.length packets state := by
    rw [offsets_garbage unconfirmed enough true (Nat.zero_le _), offsets_packets,
      List.foldlM_map]
    rfl
  constructor
  · rw [Parser.process_fold, handed]
  · rw [TsParser.process_fold, decide_eq_true last, fold_until_never, handed]

/-- A packet whose payload begins with another 0x47. -/
def imitatingPacket : TsPacket where
  bytes := [0x47, 0x47] ++ List.replicate 186 0
  whole := rfl
  synced := by decide

theorem scanners_resynchronise_behind_sync_byte :
    Parser.process ([0x47, 0x12] ++ streamOf [imitatingPacket, imitatingPacket]) record 0 [] =
        handOver record 2 [imitatingPacket, imitatingPacket] [] ∧
      TsParser.process ([0x47, 0x12] ++ streamOf [imitatingPacket, imitatingPacket]) record
          (fun _ => false) 0 [] =
        handOver record 2 [imitatingPacket, imitatingPacket] [] :=
  scanners_resynchronise [0x47, 0x12] [imitatingPacket, imitatingPacket]
    (List.cons_ne_nil _ _) (by decide +kernel) record []

end Testings.MpegTs
