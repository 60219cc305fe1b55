import Testings.MpegTsScan

/-!
# The PID extractor and the continuity scanner

`ExtractPid` of `ts_extract.py` and `scan` of `tscc.py`. The extractor takes
its header fields from a library, `bitstruct.unpack`, which is a parameter here;
`UnpacksHead` is what its format string asks of it.
-/

set_option autoImplicit false

namespace Testings.MpegTs

open Python

def tsDataSz : Nat := 184
def tsHdrStartFld : Nat := 2
def tsHdrPidFld : Nat := 4
def tsHdrAdaptFld : Nat := 6
def tsHdrContFld : Nat := 7

/-- `bitstruct.unpack('>u8u1u1u1u13u2u2u4', data)` on four bytes. -/
def headFields (b0 b1 b2 b3 : BitVec 8) : List Nat :=
  [b0.toNat, b1.toNat >>> 7, (b1.toNat >>> 6) &&& 1, (b1.toNat >>> 5) &&& 1,
    ((b1.toNat &&& 0x1F) <<< 8) ||| b2.toNat, b3.toNat >>> 6, (b3.toNat >>> 4) &&& 3,
    b3.toNat &&& 0xF]

def UnpacksHead (unpack : Bytes → Py (List Nat)) : Prop :=
  ∀ b0 b1 b2 b3, unpack [b0, b1, b2, b3] = .ok (headFields b0 b1 b2 b3)

inductive Warning where
  | streamBroken (offset : Nat) (before after lost : Int)
  | badPacket (offset adaptationSize : Nat)
  deriving DecidableEq

/-- `fout` is what has been written to the output file. -/
structure ExtractPid where
  pid : Int
  fout : Bytes
  pidPacketsCnt : Nat
  extractedPacketsCnt : Nat
  bytesCnt : Nat
  continuity : Int
  frameSize : Nat
  warnings : List Warning
  deriving DecidableEq

namespace ExtractPid

def init (pid : Int) : ExtractPid where
  pid := pid
  fout := []
  pidPacketsCnt := 0
  extractedPacketsCnt := 0
  bytesCnt := 0
  continuity := -1
  frameSize := 0
  warnings := []

/-- `self.head[fld]` -/
def field (head : List Nat) (fld : Nat) : Py Nat :=
  match head[fld]? with
  | some value => .ok value
  | none => .error .indexError

def warn (self : ExtractPid) (warning : Warning) : ExtractPid :=
  { self with warnings := self.warnings ++ [warning] }

def checkPid (self : ExtractPid) (head : List Nat) : Py Bool := do
  let pid ← field head tsHdrPidFld
  pure (decide ((pid : Int) = self.pid))

/-- `& 0x0F` of a Python integer is its remainder modulo 16. -/
def checkContinuity (self : ExtractPid) (head : List Nat) (offset : Nat) : Py ExtractPid := do
  let cont ← field head tsHdrContFld
  if self.continuity < 0 then pure { self with continuity := cont }
  else if (self.continuity + 1) % 16 ≠ cont then
    let lost := (cont : Int) - self.continuity - 1
    let lost := if lost < 0 then lost + 16 else lost
    pure { self.warn (.streamBroken offset self.continuity cont lost) with continuity := cont }
  else pure { self with continuity := cont }

def write (self : ExtractPid) (packet : Bytes) (offset : Nat) : ExtractPid :=
  { self with
    fout := self.fout ++ sliceFrom packet (4 + offset)
    bytesCnt := self.bytesCnt + (tsDataSz - offset)
    extractedPacketsCnt := self.extractedPacketsCnt + 1 }

def extract (self : ExtractPid) (head : List Nat) (packet : Bytes) (offset : Nat) :
    Py ExtractPid := do
  let flg ← field head tsHdrAdaptFld
  if flg = 0b01 then do
    let flst ← field head tsHdrStartFld
    let ofst := if flst ≠ 0 then 14 else 0
    let frameSize := if flst ≠ 0 then 0 else self.frameSize
    pure ({ self with frameSize := frameSize + (tsDataSz - ofst) }.write packet ofst)
  else if flg = 0b11 then do
    let length ← index packet 4
    let payloadOffset := 1 + length
    if tsDataSz ≤ payloadOffset then do
      let adaptationSize ← index packet 5
      pure (self.warn (.badPacket offset adaptationSize))
    else
      pure ({ self with frameSize := self.frameSize + (tsDataSz - payloadOffset) }.write packet
        payloadOffset)
  else pure self

def call (unpack : Bytes → Py (List Nat)) (self : ExtractPid) (packet : Bytes) (offset : Nat) :
    Py ExtractPid := do
  let head ← unpack (slice packet 0 4)
  let wanted ← self.checkPid head
  if wanted = false then pure self
  else do
    let self ← self.checkContinuity head offset
    let self ← self.extract head packet offset
    pure { self with pidPacketsCnt := self.pidPacketsCnt + 1 }

end ExtractPid

/-- `main` of `ts_extract.py` on a mapped file. -/
def tsExtract (unpack : Bytes → Py (List Nat)) (inmm : Bytes) (pid : Int) : Py ExtractPid :=
  Parser.process inmm (fun packet offset self => self.call unpack packet offset) 0
    (ExtractPid.init pid)

def nullPid : Nat := 0x1fff

structure PacketInfo where
  pid : Nat
  afc : Nat
  cc : Nat
  discontinuity : Bool
  deriving DecidableEq

def packetInfo (pkt : Bytes) : Py (Option PacketInfo) :=
  if pkt.length ≠ tsSz then pure none
  else do
    let first ← index pkt 0
    if first ≠ 0x47 then pure none
    else do
      let b1 ← index pkt 1
      let b2 ← index pkt 2
      let b3 ← index pkt 3
      let pid := ((b1 &&& 0x1f) <<< 8) ||| b2
      let afc := (b3 >>> 4) &&& 3
      let cc := b3 &&& 0xf
      if afc = 2 ∨ afc = 3 then do
        let length ← index pkt 4
        if length ≠ 0 then do
          let flags ← index pkt 5
          pure (some ⟨pid, afc, cc, decide (flags &&& 0x80 ≠ 0)⟩)
        else pure (some ⟨pid, afc, cc, false⟩)
      else pure (some ⟨pid, afc, cc, false⟩)

def hasPayload (afc : Nat) : Bool := decide (afc = 1 ∨ afc = 3)

inductive Status where
  | dup
  | lost (delta : Nat)
  deriving DecidableEq

inductive Report where
  | truncated (offset length : Nat)
  | invalid (offset : Nat)
  | null (offset packet pid cc : Nat)
  | broken (offset packet pid prev cc : Nat) (status : Status)
  deriving DecidableEq

structure Tscc where
  last : Dict Nat Nat
  errors : Nat
  printed : List Report
  deriving DecidableEq

def Tscc.print (self : Tscc) (report : Report) : Tscc :=
  { self with printed := self.printed ++ [report] }

/-- The comparison with the last counter of the PID. -/
def Tscc.compare (self : Tscc) (packet : Nat) (info : PacketInfo) : Py Tscc :=
  if self.last.contains info.pid = true ∧ info.discontinuity = false then do
    let prev ← self.last.get info.pid
    let expected := (prev + 1) &&& 0xf
    if info.cc ≠ expected then
      -- `(cc - expected) & 0xf` of two counters
      let delta := (info.cc + 16 - expected) % 16
      let status := if delta = 0xf then .dup else .lost delta
      pure { self.print (.broken (packet * tsSz) packet info.pid prev info.cc status) with
        errors := self.errors + 1 }
    else pure self
  else pure self

/-- One turn of the loop of `scan` with a whole packet. -/
def Tscc.packet (self : Tscc) (showNull : Bool) (packet : Nat) (data : Bytes) : Py Tscc := do
  let info ← packetInfo data
  match info with
  | none => pure (self.print (.invalid (packet * tsSz)))
  | some info =>
      if info.pid = nullPid then
        if showNull then pure (self.print (.null (packet * tsSz) packet info.pid info.cc))
        else pure self
      else if hasPayload info.afc = false then pure self
      else do
        let self ← self.compare packet info
        pure { self with last := self.last.assign info.pid info.cc }

/-- `rest` is what has not been read of the file. -/
def Tscc.scan (self : Tscc) (showNull : Bool) (packet : Nat) (rest : Bytes) : Py Tscc :=
  if rest = [] then pure self
  else if _short : rest.length < tsSz then
    pure (self.print (.truncated (packet * tsSz) rest.length))
  else do
    let self ← self.packet showNull packet (slice rest 0 tsSz)
    self.scan showNull (packet + 1) (sliceFrom rest tsSz)
termination_by rest.length
decreasing_by
  rw [slice_from_length]
  unfold tsSz at *
  omega

def tscc (file : Bytes) (showNull : Bool) : Py Tscc :=
  { last := .empty, errors := 0, printed := [] : Tscc }.scan showNull 0 file

end Testings.MpegTs
