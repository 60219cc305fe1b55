import Testings.SpiSlaveRing

/-!
# Packet reception of the SPI slave driver

Device data, `paketizer`, and `receive_packet` as one sequential call against
an arbitrary hardware schedule. A call sees one `Poll` for each turn of its
outer loop: the status register and the dwords the FIFO hands out before it
reads empty. `kthread_should_stop` becomes true when the polls run out.
`assemble` is the intended meaning of `paketizer` on the dwords of the packet
under construction.
-/

set_option autoImplicit false

namespace Testings.SpiSlave

open CircularWindow

/-- `PACKET_SIZE`. -/
def packetSize : Nat := 188

/-- `PACKET_SIZE_DWORD`, with `sizeof(u32)` four. -/
def packetSizeDword : Nat := packetSize / 4

theorem packet_size_dword_eq : packetSizeDword = 47 := rfl

/-- `struct spi_imx_statistic` on a 64-bit kernel. -/
structure SpiImxStatistic where
  pktOk : BitVec 64
  pktLost : BitVec 64
  pktErr : BitVec 32
  streamErr : BitVec 32
  overruns : BitVec 32
  maxRingUsed : BitVec 32
  dwords : BitVec 64
  skip : BitVec 64
  lastMessageJiffies : BitVec 64
  deriving DecidableEq

/-- `memset(&spi_imx->stats,0,sizeof(spi_imx->stats))`. -/
def SpiImxStatistic.zero : SpiImxStatistic :=
  ⟨0, 0, 0, 0, 0, 0, 0, 0, 0⟩

/-- `struct spi_imx_data`; the packet store is addressed by dwords. -/
structure SpiImx where
  rxRing : CircBuf
  packets : Int → BitVec 32
  stats : SpiImxStatistic
  rxThrd : Bool

/-- The zeroed allocations of `spi_imx_probe`. -/
def spiImxProbed : SpiImx where
  rxRing := { head := 0, tail := 0, buf := fun _ => 0 }
  packets _ := 0
  stats := .zero
  rxThrd := false

theorem probed_entries : spiImxProbed.rxRing.entries = [] :=
  (entries_empty_iff spiImxProbed.rxRing).mpr rfl

theorem probed_ring_inv : RingInv spiImxProbed.rxRing where
  headRange := ⟨le_refl _, rx_ring_packets_positive⟩
  tailRange := ⟨le_refl _, rx_ring_packets_positive⟩
  distinct := by simp [probed_entries]
  inRange := by simp [probed_entries]
  flags := by
    intro idx lower upper
    rw [probed_entries]
    simp [rxringFlag, spiImxProbed]

/-- Dword address of a packet slot, `packets + idx*PACKET_SIZE`. -/
def packetAddress (idx : Int) : Int := idx * packetSizeDword

def slotDwords (packets : Int → BitVec 32) (pkti : Int) (count : Nat) : List (BitVec 32) :=
  (List.range count).map fun offset : Nat => packets (pkti + offset)

def slotPacket (packets : Int → BitVec 32) (idx : Int) : List (BitVec 32) :=
  slotDwords packets (packetAddress idx) packetSizeDword

/-- `((val>>24)&0xFF)==0x47`. -/
def syncByte (val : BitVec 32) : Bool := (val >>> 24) &&& 0xFF#32 == 0x47#32

def paketizer (val : BitVec 32) (packets : Int → BitVec 32) (pkti : Int) (pcnt : Nat) :
    (Int → BitVec 32) × Nat × Int :=
  let packets := Function.update packets (pkti + pcnt) val
  let cnt := pcnt + 1
  if cnt = 1 then
    if syncByte val then (packets, cnt, 0) else (packets, 0, -3)
  else if cnt = packetSizeDword then (packets, 0, 1)
  else (packets, cnt, 0)

/-- The counters updated after each dword from the FIFO. -/
def countDword (stats : SpiImxStatistic) (rv : Int) : SpiImxStatistic :=
  let stats := { stats with dwords := stats.dwords + 1 }
  if 0 < rv then { stats with pktOk := stats.pktOk + 1 }
  else if rv = -1 then { stats with pktErr := stats.pktErr + 1 }
  else if rv = -2 then { stats with streamErr := stats.streamErr + 1 }
  else if rv = -3 then { stats with skip := stats.skip + 1 }
  else stats

/-- The overrun test on the status register. -/
def countOverrun (stats : SpiImxStatistic) (stat : BitVec 32) : SpiImxStatistic :=
  if stat &&& (1#32 <<< 6) ≠ 0 then { stats with overruns := stats.overruns + 1 } else stats

/-- First critical section of `receive_packet`. -/
def receivePacketReserve (dev : SpiImx) : SpiImx × Int :=
  let dev :=
    if rxringVacant dev.rxRing = 0 then
      { dev with
        stats := { dev.stats with pktLost := dev.stats.pktLost + 1 }
        rxRing := rxringRemove dev.rxRing }
    else dev
  (dev, rxringGetFreeIdx dev.rxRing)

/-- Second critical section of `receive_packet`. -/
def receivePacketPublish (dev : SpiImx) (idx : Int) : SpiImx :=
  let ring := rxringInsert dev.rxRing idx
  let used := BitVec.ofInt 32 (rxringUsed ring)
  { dev with
    rxRing := ring
    stats := if dev.stats.maxRingUsed < used then { dev.stats with maxRingUsed := used }
      else dev.stats }

structure Poll where
  stat : BitVec 32
  burst : List (BitVec 32)

def pollStream (polls : List Poll) : List (BitVec 32) := polls.flatMap Poll.burst

/-- Inner loop over one burst; the last component is what stays in the FIFO. -/
def receiveBurst (dev : SpiImx) (pkti : Int) (cnt : Nat) (rv : Int) :
    List (BitVec 32) → SpiImx × Nat × Int × List (BitVec 32)
  | [] => (dev, cnt, rv, [])
  | val :: burst =>
      let out := paketizer val dev.packets pkti cnt
      let dev := { dev with packets := out.1, stats := countDword dev.stats out.2.2 }
      if 0 < out.2.2 then (dev, out.2.1, out.2.2, burst)
      else receiveBurst dev pkti out.2.1 out.2.2 burst

/-- Outer loop. A completed packet ends it whatever `kthread_should_stop` says. -/
def receiveLoop (dev : SpiImx) (pkti : Int) (cnt : Nat) (rv : Int) :
    List Poll → SpiImx × Int × List Poll
  | [] => (dev, rv, [])
  | poll :: polls =>
      let polled := { dev with stats := countOverrun dev.stats poll.stat }
      let out := receiveBurst polled pkti cnt rv poll.burst
      if 0 < out.2.2.1 then (out.1, out.2.2.1, { poll with burst := out.2.2.2 } :: polls)
      else receiveLoop out.1 pkti out.2.1 out.2.2.1 polls

/-- `-EFAULT`. -/
def efault : Int := -14

def receivePacket (dev : SpiImx) (polls : List Poll) : SpiImx × Int × List Poll :=
  let reserved := receivePacketReserve dev
  let dev := reserved.1
  let idx := reserved.2
  if idx < 0 then (dev, efault, polls)
  else if 1024#64 < dev.stats.pktLost then (dev, -1, polls)
  else
    let out := receiveLoop dev (packetAddress idx) 0 (-1) polls
    (receivePacketPublish out.1 idx, out.2.1, out.2.2)

/-- The ring once the oldest entry has made room, if there was none. -/
def ringWithRoom (ring : CircBuf) : CircBuf :=
  if rxringVacant ring = 0 then rxringRemove ring else ring

/-- `pkt_lost` after the first critical section. -/
def lostWithRoom (dev : SpiImx) : BitVec 64 :=
  if rxringVacant dev.rxRing = 0 then dev.stats.pktLost + 1 else dev.stats.pktLost

/-- All that the section changes. -/
theorem reserve_eq (dev : SpiImx) :
    (receivePacketReserve dev).1 = { dev with
      rxRing := ringWithRoom dev.rxRing
      stats := { dev.stats with pktLost := lostWithRoom dev } } := by
  unfold receivePacketReserve ringWithRoom lostWithRoom
  split_ifs <;> rfl

theorem reserve_ring (dev : SpiImx) :
    (receivePacketReserve dev).1.rxRing = ringWithRoom dev.rxRing := by
  rw [reserve_eq]

theorem reserve_idx (dev : SpiImx) :
    (receivePacketReserve dev).2 = rxringGetFreeIdx (ringWithRoom dev.rxRing) := by
  rw [← reserve_ring]
  rfl

theorem reserve_lost (dev : SpiImx) :
    (receivePacketReserve dev).1.stats.pktLost = lostWithRoom dev := by
  rw [reserve_eq]

/-- Room for one more entry, and the ring invariant kept. -/
theorem ring_with_room_spec {ring : CircBuf} (inv : RingInv ring) :
    RingInv (ringWithRoom ring) ∧ rxringUsed (ringWithRoom ring) + 1 < rxRingPackets := by
  have range := used_range ring
  unfold ringWithRoom
  split_ifs with full
  · have used := (vacant_zero_iff ring).mp full
    have nonempty := used_of_full full
    have removed := used_remove nonempty
    exact ⟨remove_inv inv nonempty, by omega⟩
  · have notFull := mt (vacant_zero_iff ring).mpr full
    exact ⟨inv, by omega⟩

theorem count_overrun_eq (stats : SpiImxStatistic) (stat : BitVec 32) :
    ∃ overruns, countOverrun stats stat = { stats with overruns := overruns } := by
  unfold countOverrun
  split_ifs
  · exact ⟨_, rfl⟩
  · exact ⟨stats.overruns, rfl⟩

theorem publish_eq (dev : SpiImx) (idx : Int) :
    ∃ used, receivePacketPublish dev idx = { dev with
      rxRing := rxringInsert dev.rxRing idx
      stats := { dev.stats with maxRingUsed := used } } := by
  unfold receivePacketPublish
  dsimp only
  split_ifs
  · exact ⟨_, rfl⟩
  · exact ⟨dev.stats.maxRingUsed, rfl⟩

/-- One more dword for the packet under construction: anything but a sync dword
is skipped while the packet is empty. -/
def assemble (filled : List (BitVec 32)) (val : BitVec 32) : List (BitVec 32) :=
  if filled = [] ∧ syncByte val = false then [] else filled ++ [val]

def Synced (filled : List (BitVec 32)) : Prop := ∀ first ∈ filled.head?, syncByte first = true

structure Filling (packets : Int → BitVec 32) (pkti : Int) (cnt : Nat)
    (filled : List (BitVec 32)) : Prop where
  room : cnt < packetSizeDword
  stored : slotDwords packets pkti cnt = filled
  synced : Synced filled

structure Filled (packets : Int → BitVec 32) (pkti : Int) (filled : List (BitVec 32)) : Prop where
  stored : slotDwords packets pkti packetSizeDword = filled
  synced : Synced filled

@[simp] theorem slot_dwords_length (packets : Int → BitVec 32) (pkti : Int) (count : Nat) :
    (slotDwords packets pkti count).length = count := by
  simp [slotDwords]

theorem slot_dwords_congr {before after : Int → BitVec 32} {pkti : Int} {count : Nat}
    (same : ∀ offset : Nat, offset < count → after (pkti + offset) = before (pkti + offset)) :
    slotDwords after pkti count = slotDwords before pkti count := by
  apply List.map_congr_left
  intro offset member
  exact same offset (List.mem_range.mp member)

theorem slot_dwords_write (packets : Int → BitVec 32) (pkti : Int) (cnt : Nat) (val : BitVec 32) :
    slotDwords (Function.update packets (pkti + cnt) val) pkti (cnt + 1) =
      slotDwords packets pkti cnt ++ [val] := by
  have prefixSame : slotDwords (Function.update packets (pkti + cnt) val) pkti cnt =
      slotDwords packets pkti cnt := by
    apply slot_dwords_congr
    intro offset bound
    exact Function.update_of_ne (by omega) _ _
  rw [← prefixSame]
  simp [slotDwords, List.range_succ]

theorem filling_start (packets : Int → BitVec 32) (pkti : Int) :
    Filling packets pkti 0 [] where
  room := by decide
  stored := rfl
  synced := by simp [Synced]

theorem filling_length {packets : Int → BitVec 32} {pkti : Int} {cnt : Nat}
    {filled : List (BitVec 32)} (filling : Filling packets pkti cnt filled) :
    filled.length = cnt := by
  rw [← filling.stored, slot_dwords_length]

theorem filled_length {packets : Int → BitVec 32} {pkti : Int} {filled : List (BitVec 32)}
    (complete : Filled packets pkti filled) : filled.length = packetSizeDword := by
  rw [← complete.stored, slot_dwords_length]

theorem assemble_synced {filled : List (BitVec 32)} (synced : Synced filled) (val : BitVec 32) :
    Synced (assemble filled val) := by
  unfold assemble
  split_ifs with skipped
  · simp [Synced]
  · cases filled with
    | nil =>
        intro first member
        simp only [List.nil_append, List.head?_cons, Option.mem_some_iff] at member
        subst member
        simpa using skipped
    | cons head rest => simpa [Synced] using synced

theorem paketizer_memory (val : BitVec 32) (packets : Int → BitVec 32) (pkti : Int) (cnt : Nat) :
    (paketizer val packets pkti cnt).1 = Function.update packets (pkti + cnt) val := by
  unfold paketizer
  dsimp only
  split_ifs <;> rfl

theorem paketizer_first (val : BitVec 32) (packets : Int → BitVec 32) (pkti : Int) :
    (paketizer val packets pkti 0).2 = if syncByte val then (1, 0) else (0, -3) := by
  cases sync : syncByte val <;> simp [paketizer, sync]

theorem paketizer_next (val : BitVec 32) (packets : Int → BitVec 32) (pkti : Int) {cnt : Nat}
    (started : cnt ≠ 0) :
    (paketizer val packets pkti cnt).2 =
      if cnt + 1 = packetSizeDword then (0, 1) else (cnt + 1, 0) := by
  unfold paketizer
  dsimp only
  rw [if_neg (by omega)]
  split_ifs <;> rfl

theorem paketizer_result (val : BitVec 32) (packets : Int → BitVec 32) (pkti : Int) (cnt : Nat) :
    -3 ≤ (paketizer val packets pkti cnt).2.2 := by
  by_cases first : cnt = 0
  · subst first
    rw [paketizer_first]
    split_ifs <;> decide
  · rw [paketizer_next val packets pkti first]
    split_ifs <;> simp

/-- A single dword either completes the packet in the slot or extends it. -/
theorem paketizer_assembles {packets : Int → BitVec 32} {pkti : Int} {cnt : Nat}
    {filled : List (BitVec 32)} (filling : Filling packets pkti cnt filled) (val : BitVec 32) :
    ((paketizer val packets pkti cnt).2 = (0, 1) ∧
        Filled (paketizer val packets pkti cnt).1 pkti (assemble filled val)) ∨
      ((paketizer val packets pkti cnt).2.2 ≤ 0 ∧
        Filling (paketizer val packets pkti cnt).1 pkti (paketizer val packets pkti cnt).2.1
          (assemble filled val)) := by
  have length := filling_length filling
  have written := slot_dwords_write packets pkti cnt val
  have synced := assemble_synced filling.synced val
  have room := filling.room
  rw [filling.stored] at written
  rw [paketizer_memory]
  by_cases first : cnt = 0
  · have empty : filled = [] := List.length_eq_zero_iff.mp (length.trans first)
    subst first empty
    rw [paketizer_first]
    right
    cases sync : syncByte val with
    | false =>
        have skipped : assemble [] val = [] := by simp [assemble, sync]
        exact ⟨by decide, room, by rw [skipped]; rfl, synced⟩
    | true =>
        have kept : assemble [] val = [val] := by simp [assemble, sync]
        exact ⟨le_refl _, by decide, by rw [kept]; exact written, synced⟩
  · have started : filled ≠ [] := by
      intro empty
      exact first (by simpa [empty] using length.symm)
    have extended : assemble filled val = filled ++ [val] := by simp [assemble, started]
    rw [paketizer_next val packets pkti first]
    split_ifs with last
    · left
      exact ⟨rfl, by rw [← last, extended]; exact written, synced⟩
    · right
      exact ⟨le_refl _, by dsimp only; omega, by rw [extended]; exact written, synced⟩

/-- `paketizer` writes inside its slot only. -/
theorem paketizer_frame {packets : Int → BitVec 32} {pkti : Int} {cnt : Nat} (val : BitVec 32)
    (room : cnt < packetSizeDword) {address : Int}
    (outside : address < pkti ∨ pkti + packetSizeDword ≤ address) :
    (paketizer val packets pkti cnt).1 address = packets address := by
  rw [paketizer_memory]
  exact Function.update_of_ne (by omega) _ _

end Testings.SpiSlave
