import Testings.MpegTsScan

/-!
# The PTS and PCR analyzer

`TsAnalyzer` of `ts_pts_check.py`. Differences are kept in the ticks they are
computed in, before the division and the formatting; what is printed or logged
is a list of lines in order. Every read of a payload is checked, so that a
length field that points outside would raise `IndexError` here as there.
-/

set_option autoImplicit false

namespace Testings.MpegTs

open Python

inductive MediaType where
  | video
  | audio
  | unknown
  deriving DecidableEq

/-- `STREAM_TYPES.get(stream_type, '?')` -/
def streamTypes (streamType : Nat) : MediaType :=
  if streamType ∈ [0x01, 0x02, 0x10, 0x1B, 0x24, 0x25] then .video
  else if streamType ∈ [0x03, 0x04, 0x0F, 0x11, 0x81, 0x87, 0x84] then .audio
  else .unknown

structure Stream where
  streamType : Nat
  type : MediaType
  deriving DecidableEq

structure Pes where
  type : MediaType
  size : Nat
  pts : Option Nat
  streamId : Nat
  offset : Nat
  deriving DecidableEq

/-- `pcr` and `delta` are in 27 MHz ticks, as is `pts`; the other two are in 90 kHz ticks. -/
inductive Line where
  | pmtPid (pid : Nat)
  | pcrPid (pid : Nat)
  | found (pid streamType : Nat) (type : MediaType)
  | pcr (pid : Nat) (pcr : Int) (delta : Option Int)
  | header
  | frame (type : MediaType) (size : Nat) (pts : Int) (deltaType deltaAny : Option Int)
  deriving DecidableEq

structure TsAnalyzer where
  pmtPid : Option Nat
  pcrPid : Option Nat
  streams : Dict Nat Stream
  pes : Dict Nat Pes
  ptsOrigin : Option Nat
  previousPts : Option Nat
  previousPtsByType : Dict MediaType Nat
  firstPcr : Option Nat
  previousPcr : Option Nat
  frameLimit : Nat
  frameCount : Nat
  headerPrinted : Bool
  printed : List Line
  deriving DecidableEq

namespace TsAnalyzer

def init (frameLimit : Nat) : TsAnalyzer where
  pmtPid := none
  pcrPid := none
  streams := .empty
  pes := .empty
  ptsOrigin := none
  previousPts := none
  previousPtsByType := .empty
  firstPcr := none
  previousPcr := none
  frameLimit := frameLimit
  frameCount := 0
  headerPrinted := false
  printed := []

def done (self : TsAnalyzer) : Bool :=
  decide (0 < self.frameLimit ∧ self.frameLimit ≤ self.frameCount)

def print (self : TsAnalyzer) (line : Line) : TsAnalyzer :=
  { self with printed := self.printed ++ [line] }

/-- `((data[pos] & mask) << 8) | data[pos + 1]` -/
def word (data : Bytes) (mask pos : Nat) : Py Nat := do
  let high ← index data pos
  let low ← index data (pos + 1)
  pure (((high &&& mask) <<< 8) ||| low)

def patPrograms (self : TsAnalyzer) (payload : Bytes) (last pos : Nat) : Py TsAnalyzer :=
  if pos + 4 ≤ last then do
    let program ← word payload 0xFF pos
    let pid ← word payload 0x1F (pos + 2)
    if program ≠ 0 then pure ({ self with pmtPid := some pid }.print (.pmtPid pid))
    else self.patPrograms payload last (pos + 4)
  else pure self
termination_by last - pos

def parsePat (self : TsAnalyzer) (payload : Bytes) (pusi : Bool) : Py TsAnalyzer :=
  if pusi = false ∨ payload = [] then pure self
  else do
    let pointer ← index payload 0
    let pos := 1 + pointer
    if payload.length < pos + 8 then pure self
    else do
      let tableId ← index payload pos
      if tableId ≠ 0x00 then pure self
      else do
        let sectionLength ← word payload 0x0F (pos + 1)
        let last := min (pos + 3 + sectionLength - 4) payload.length
        self.patPrograms payload last (pos + 8)

def pmtStreams (self : TsAnalyzer) (payload : Bytes) (last pos : Nat) : Py TsAnalyzer :=
  if pos + 5 ≤ last then do
    let streamType ← index payload pos
    let pid ← word payload 0x1F (pos + 1)
    let esInfoLength ← word payload 0x0F (pos + 3)
    let mediaType := streamTypes streamType
    let self := { self with streams := self.streams.assign pid ⟨streamType, mediaType⟩ }
    (self.print (.found pid streamType mediaType)).pmtStreams payload last (pos + 5 + esInfoLength)
  else pure self
termination_by last - pos

def parsePmt (self : TsAnalyzer) (payload : Bytes) (pusi : Bool) : Py TsAnalyzer :=
  if pusi = false ∨ payload = [] then pure self
  else do
    let pointer ← index payload 0
    let pos := 1 + pointer
    if payload.length < pos + 12 then pure self
    else do
      let tableId ← index payload pos
      if tableId ≠ 0x02 then pure self
      else do
        let sectionLength ← word payload 0x0F (pos + 1)
        let last := min (pos + 3 + sectionLength - 4) payload.length
        let pcrPid ← word payload 0x1F (pos + 8)
        let self := { self with pcrPid := some pcrPid }.print (.pcrPid pcrPid)
        let programInfoLength ← word payload 0x0F (pos + 10)
        self.pmtStreams payload last (pos + (12 + programInfoLength))

/-- The lines and the history of one frame whose corrected PTS is `pts`. -/
def reportFrame (self : TsAnalyzer) (pes : Pes) (pts : Nat) : TsAnalyzer :=
  let origin := self.ptsOrigin.getD (pts * 300)
  let self := { self with ptsOrigin := some origin }
  let deltaType := (self.previousPtsByType.get? pes.type).map fun previous => (pts : Int) - previous
  let deltaAny := self.previousPts.map fun previous => (pts : Int) - previous
  let self :=
    if self.headerPrinted then self else { self.print .header with headerPrinted := true }
  let self := self.print (.frame pes.type pes.size (pts * 300 - origin : Int) deltaType deltaAny)
  { self with
    frameCount := self.frameCount + 1
    previousPts := some pts
    previousPtsByType := self.previousPtsByType.assign pes.type pts }

def finishPes (self : TsAnalyzer) (pid : Nat) : TsAnalyzer :=
  let popped := self.pes.get? pid
  let self := { self with pes := self.pes.pop pid }
  match popped with
  | none => self
  | some pes =>
      match pes.pts with
      | none => self
      | some pts =>
          match pes.type with
          | .unknown => self
          | .audio => self.reportFrame pes (pts + 20 * 90)
          | .video => self.reportFrame pes pts

def decodePts (data : Bytes) : Py Nat := do
  let first ← index data 0
  let second ← index data 1
  let third ← index data 2
  let fourth ← index data 3
  let fifth ← index data 4
  pure ((((first >>> 1) &&& 0x07) <<< 30) ||| (second <<< 22) ||| ((third >>> 1) <<< 15) |||
    (fourth <<< 7) ||| (fifth >>> 1))

/-- The rest of `parse_pes` once the PTS is known. -/
def startPes (self : TsAnalyzer) (pid : Nat) (payload : Bytes) (streamId headerLength : Nat)
    (pts : Option Nat) (offset : Nat) : Py TsAnalyzer :=
  let headerSize := 9 + headerLength
  if payload.length < headerSize then pure self
  else do
    let stream ← self.streams.get pid
    pure { self with
      pes := self.pes.assign pid
        { type := stream.type
          size := payload.length - headerSize
          pts := pts
          streamId := streamId
          offset := offset } }

def parsePes (self : TsAnalyzer) (pid : Nat) (payload : Bytes) (pusi : Bool) (offset : Nat) :
    Py TsAnalyzer :=
  if pusi then
    let self := self.finishPes pid
    if payload.length < 9 then pure self
    else if slice payload 0 3 ≠ [0x00, 0x00, 0x01] then pure self
    else do
      let streamId ← index payload 3
      let flags ← index payload 7
      let headerLength ← index payload 8
      if flags &&& 0x80 ≠ 0 then
        if payload.length < 14 then pure self
        else do
          let pts ← decodePts (slice payload 9 14)
          self.startPes pid payload streamId headerLength (some pts) offset
      else self.startPes pid payload streamId headerLength none offset
  else
    match self.pes.get? pid with
    | some pes =>
        pure { self with pes := self.pes.assign pid { pes with size := pes.size + payload.length } }
    | none => pure self

def parsePcr (self : TsAnalyzer) (pid : Nat) (data : Bytes) : Py TsAnalyzer :=
  if data.length ≠ 6 then pure self
  else do
    let d0 ← index data 0
    let d1 ← index data 1
    let d2 ← index data 2
    let d3 ← index data 3
    let d4 ← index data 4
    let d5 ← index data 5
    let pcrBase := (d0 <<< 25) ||| (d1 <<< 17) ||| (d2 <<< 9) ||| (d3 <<< 1) ||| (d4 >>> 7)
    let pcrExtension := ((d4 &&& 0x01) <<< 8) ||| d5
    let pcr := pcrBase * 300 + pcrExtension
    let first := self.firstPcr.getD pcr
    let delta := self.previousPcr.map fun previous => (pcr : Int) - previous
    let self := { self with
      firstPcr := some first
      ptsOrigin := some (self.ptsOrigin.getD pcr)
      previousPcr := some pcr }
    pure (self.print (.pcr pid (pcr - first : Int) delta))

/-- The adaptation field, and where the payload starts. -/
def adaptationField (self : TsAnalyzer) (packet : Bytes) (pid adaptation : Nat) :
    Py (TsAnalyzer × Nat) :=
  if adaptation = 2 ∨ adaptation = 3 then do
    let length ← index packet 4
    if 7 ≤ length ∧ some pid = self.pcrPid then do
      let flags ← index packet 5
      if flags &&& 0x10 ≠ 0 then do
        let self ← self.parsePcr pid (slice packet 6 12)
        pure (self, 4 + (1 + length))
      else pure (self, 4 + (1 + length))
    else pure (self, 4 + (1 + length))
  else pure (self, 4)

def dispatch (self : TsAnalyzer) (pid : Nat) (payload : Bytes) (pusi : Bool) (offset : Nat) :
    Py TsAnalyzer :=
  if pid = 0 then self.parsePat payload pusi
  else if some pid = self.pmtPid then self.parsePmt payload pusi
  else if self.streams.contains pid then self.parsePes pid payload pusi offset
  else pure self

def packet (self : TsAnalyzer) (packet : Bytes) (offset : Nat) : Py TsAnalyzer := do
  let first ← index packet 0
  if first ≠ sync then pure self
  else do
    let (b1, b2, b3) ← unpackThree (slice packet 1 4)
    let pusi := decide (b1 &&& 0x40 ≠ 0)
    let pid := ((b1 &&& 0x1F) <<< 8) ||| b2
    let adaptation := (b3 >>> 4) &&& 3
    if adaptation = 0 then pure self
    else do
      let (self, pos) ← self.adaptationField packet pid adaptation
      if adaptation = 2 ∨ tsSz ≤ pos then pure self
      else self.dispatch pid (sliceFrom packet pos) pusi offset

def finish (self : TsAnalyzer) : TsAnalyzer := self.pes.keys.foldl finishPes self

end TsAnalyzer

/-- `main` of `ts_pts_check.py` on a mapped file. -/
def tsPtsCheck (inmm : Bytes) (frames : Nat) : Py TsAnalyzer := do
  let analyzer ← TsParser.process inmm (fun packet offset self => self.packet packet offset)
    TsAnalyzer.done 0 (TsAnalyzer.init frames)
  pure analyzer.finish

end Testings.MpegTs
