/-
# Ogg streams

A stream is read page by page, each with a checksum. The analysis counts what its packets have,
and the packets are put together from the segments of the pages in a second read.
-/

import Harmony.Inspect.Files
import Harmony.Library.ByteOrder
import Harmony.Library.Checked
import Harmony.Library.Lacing

namespace Harmony.Inspect.Ogg

open Checked (fail slice)

def pageHeaderSizeBytes : ℕ := 27

def endOfStreamFlag : UInt8 := 0x04

def beginningOfStreamFlag : UInt8 := 0x02

def continuedPacketFlag : UInt8 := 0x01

def maxSegmentSize : UInt8 := 255

def maxArtworkSizeBytes : ℕ := 20 * 1024 * 1024

def maxPictureCommentBytes : ℕ := (maxArtworkSizeBytes + 1024) * 2

def maxHeaderPacketBytes : ℕ := maxPictureCommentBytes + 64 * 1024

structure Page where
  headerType : UInt8
  granule : ℕ
  serial : ℕ
  sequence : ℕ
  segments : List UInt8
  payload : List UInt8
  deriving DecidableEq

def Page.isEndOfStream (page : Page) : Bool := page.headerType &&& endOfStreamFlag ≠ 0

inductive PageError
  /-- No bytes at all: the clean end of the stream. -/
  | eof
  | invalid (message : String)
  deriving DecidableEq

/-! ### Pages -/

def crcShift (value : UInt32) : UInt32 :=
  if value &&& 0x80000000 ≠ 0 then (value <<< 1) ^^^ 0x04c11db7 else value <<< 1

def crcTable (index : UInt8) : UInt32 := crcShift^[8] (index.toUInt32 <<< 24)

def crc (checksum : UInt32) (data : List UInt8) : UInt32 :=
  data.foldl
    (fun checksum byte => (checksum <<< 8) ^^^ crcTable ((checksum >>> 24).toUInt8 ^^^ byte))
      checksum

example : crc 0 [0x31, 0x32, 0x33, 0x34, 0x35, 0x36, 0x37, 0x38, 0x39] = 0x89a1897f := by
  decide +kernel

def capturePattern : List UInt8 := [0x4f, 0x67, 0x67, 0x53]

/-- The checksum of a page, taken with no checksum in its header. -/
def checksum (header segments payload : List UInt8) : UInt32 :=
  crc (crc (crc 0 (header.take 22 ++ [0, 0, 0, 0] ++ header.drop 26)) segments) payload

/-- The page behind its header, and what follows it. -/
def readBody (header body : List UInt8) : Except PageError (Page × List UInt8) :=
  let count := (header.getD 26 0).toNat
  if body.length < count then .error (.invalid "read OGG segment table: unexpected EOF")
  else
    let segments := body.take count
    let size := Lacing.total segments
    if (body.drop count).length < size then
      .error (.invalid "read OGG page payload: unexpected EOF")
    else
      let payload := (body.drop count).take size
      if (checksum header segments payload).toNat ≠ ByteOrder.ofLe ((header.drop 22).take 4) then
        .error (.invalid "OGG page checksum is invalid")
      else
        .ok
          ({ headerType := header.getD 5 0
             granule := ByteOrder.ofLe ((header.drop 6).take 8)
             serial := ByteOrder.ofLe ((header.drop 14).take 4)
             sequence := ByteOrder.ofLe ((header.drop 18).take 4)
             segments
             payload },
            (body.drop count).drop size)

def readPage (data : List UInt8) : Except PageError (Page × List UInt8) :=
  let header := data.take pageHeaderSizeBytes
  if header = [] then .error .eof
  else if header.length < pageHeaderSizeBytes then .error (.invalid "unexpected EOF")
  else if header.take 4 ≠ capturePattern ∨ header.getD 4 0 ≠ 0 then
    .error (.invalid "OGG page header is invalid")
  else readBody header (data.drop pageHeaderSizeBytes)

/-! ### The analysis -/

structure Analysis where
  encodedAudioBytes : ℕ
  finalGranule : ℕ
  deriving DecidableEq

inductive AnalysisError
  | cancelled
  | invalid (message : String)
  deriving DecidableEq

/-- What the analysis has found so far. -/
structure Scan where
  analysis : Analysis
  serial : ℕ
  expectedSequence : ℕ
  partialBytes : ℕ
  packetIndex : ℕ
  hasPage : Bool
  hasEos : Bool

def Scan.start : Scan := ⟨⟨0, 0⟩, 0, 0, 0, 0, false, false⟩

/-- The page follows the pages before it. -/
def validateContinuity (page : Page) (scan : Scan) : Except String Unit :=
  if scan.hasEos then .error "OGG data follows end-of-stream page"
  else if scan.hasPage = false ∧
      (page.headerType &&& beginningOfStreamFlag = 0 ∨ page.sequence ≠ 0) then
    .error "OGG beginning-of-stream page is invalid"
  else if scan.hasPage ∧
      (page.serial ≠ scan.serial ∨ page.sequence ≠ scan.expectedSequence ∨
        page.headerType &&& beginningOfStreamFlag ≠ 0) then
    .error "OGG stream continuity is invalid"
  else if (page.headerType &&& continuedPacketFlag ≠ 0) ≠ (0 < scan.partialBytes) then
    .error "OGG continued-packet flag is invalid"
  else .ok ()

section Analyze

variable (headerPackets : ℕ)

/-- A packet is ended. Its bytes count where it is not a header. -/
def endPacket (scan : Scan) (size : ℕ) : Scan :=
  { scan with
    analysis.encodedAudioBytes := scan.analysis.encodedAudioBytes +
      if headerPackets ≤ scan.packetIndex then size else 0
    partialBytes := 0
    packetIndex := scan.packetIndex + 1 }

def scanSegment (scan : Scan) (segment : UInt8) : Except String Scan :=
  let size := scan.partialBytes + segment.toNat
  if scan.packetIndex < headerPackets ∧ maxHeaderPacketBytes < size then
    .error "OGG header packet exceeds maximum size"
  else if segment < maxSegmentSize then .ok (endPacket headerPackets scan size)
  else .ok { scan with partialBytes := size }

/-- The stream has the serial number of its first page. -/
def beginPage (page : Page) (scan : Scan) : Scan :=
  { scan with
    serial := if scan.hasPage then scan.serial else page.serial
    hasPage := true
    expectedSequence := (page.sequence + 1) % 2 ^ 32 }

/-- The end of a page, which ends the stream where it says so. -/
def endPage (page : Page) (scan : Scan) : Scan :=
  if page.isEndOfStream then
    { scan with hasEos := true, analysis.finalGranule := page.granule }
  else scan

/-- Every segment of a page, and its end. -/
def scanSegments (scan : Scan) (page : Page) : Except String Scan := do
  let scan ← page.segments.foldlM (scanSegment headerPackets) (beginPage page scan)
  .ok (endPage page scan)

def scanPage (scan : Scan) (page : Page) : Except String Scan := do
  validateContinuity page scan
  scanSegments headerPackets scan page

variable (isCancelled : ℕ → Bool)

/-- Every page takes at least a byte. -/
def analyzeFrom : ℕ → ℕ → List UInt8 → Scan → Checked AnalysisError Scan
  | 0, _, _, _ => .error .unfinished
  | fuel + 1, call, data, scan =>
    if isCancelled call then fail .cancelled
    else
      match readPage data with
      | .error .eof => .ok scan
      | .error (.invalid message) => fail (.invalid s!"read OGG page: {message}")
      | .ok (page, rest) =>
        match scanPage headerPackets scan page with
        | .error message => fail (.invalid message)
        | .ok next => analyzeFrom fuel (call + 1) rest next

def Scan.IsComplete (scan : Scan) : Prop :=
  scan.hasPage ∧ scan.hasEos ∧ scan.partialBytes = 0 ∧ headerPackets < scan.packetIndex ∧
    0 < scan.analysis.encodedAudioBytes

instance (scan : Scan) : Decidable (scan.IsComplete headerPackets) :=
  inferInstanceAs (Decidable (_ ∧ _ ∧ _ ∧ _ ∧ _))

def analyze (file : File) : Checked AnalysisError Analysis := do
  let scan ← analyzeFrom headerPackets isCancelled (file.size + 1) 0 file.bytes .start
  if scan.IsComplete headerPackets then .ok scan.analysis
  else fail (.invalid "OGG stream is incomplete")

end Analyze

/-! ### Packets -/

/-- One packet with the page it completes on. -/
structure OggPacket where
  data : List UInt8
  granule : ℕ
  lastOnPage : Bool
  isLast : Bool
  deriving DecidableEq

/-- The packets that the segments of a page end, and what they leave of the next one. -/
def collectSegments (page : Page) :
    List UInt8 → ℕ → List UInt8 → Checked String (List OggPacket × List UInt8)
  | [], _, begun => .ok ([], begun)
  | segment :: rest, offset, begun => do
    let piece ← slice page.payload offset (offset + segment.toNat)
    if segment < maxSegmentSize then do
      let (packets, left) ← collectSegments page rest (offset + segment.toNat) []
      .ok (⟨begun ++ piece, page.granule, false, false⟩ :: packets, left)
    else collectSegments page rest (offset + segment.toNat) (begun ++ piece)

/-- Marks the last packet of a page. -/
def markLast (page : Page) : List OggPacket → List OggPacket
  | [] => []
  | [packet] => [{ packet with lastOnPage := true, isLast := page.isEndOfStream }]
  | packet :: rest => packet :: markLast page rest

def packetsFrom : ℕ → List UInt8 → List OggPacket → List UInt8 → Checked String (List OggPacket)
  | 0, _, _, _ => .error .unfinished
  | fuel + 1, data, out, begun =>
    match readPage data with
    | .error .eof => .ok out
    | .error (.invalid message) => fail message
    | .ok (page, rest) => do
      let (packets, left) ← collectSegments page page.segments 0 begun
      packetsFrom fuel rest (out ++ markLast page packets) left

def packets (file : File) : Checked String (List OggPacket) :=
  packetsFrom (file.size + 1) file.bytes [] []

end Harmony.Inspect.Ogg
