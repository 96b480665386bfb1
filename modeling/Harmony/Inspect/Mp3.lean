/-
# MP3 files

An MP3 file is an ID3v2 tag, the frames of the audio, and tags behind them: an APEv2 tag and an
ID3v1 block, each of which may be missing. The end of the audio is found from the end of the
file, with sizes that are read there, and the frames are then walked one after another.
-/

import Harmony.Inspect.Files
import Harmony.Inspect.Id3Frames

namespace Harmony.Inspect.Mp3

open Checked

def id3v1TagSizeBytes : ℕ := 128

/-! ### Frame headers -/

def baseSampleRates : List ℕ := [44100, 48000, 32000]

def mpeg1Bitrates : List ℕ := [0, 32, 40, 48, 56, 64, 80, 96, 112, 128, 160, 192, 224, 256, 320]

def mpeg2Bitrates : List ℕ := [0, 8, 16, 24, 32, 40, 48, 56, 64, 80, 96, 112, 128, 144, 160]

inductive MpegVersion
  | mpeg25
  | reserved
  | mpeg2
  | mpeg1
  deriving DecidableEq

def MpegVersion.ofBits : ℕ → MpegVersion
  | 0 => .mpeg25
  | 1 => .reserved
  | 2 => .mpeg2
  | _ => .mpeg1

structure FrameHeader where
  /-- The decoder that the profile was made for cannot decode the frame. -/
  goMp3Unsupported : Bool
  sampleRateHz : ℕ
  channelCount : ℕ
  frameSize : ℕ
  samples : ℕ

def MpegVersion.rate : MpegVersion → ℕ → ℕ
  | .mpeg2, base => base / 2
  | .mpeg25, base => base / 4
  | _, base => base

/-- The header of a frame, from its first four bytes. -/
def parseFrameHeader (data : List UInt8) : Checked Failure (Option FrameHeader) := do
  let header := ByteOrder.ofBe data
  let version := MpegVersion.ofBits (header / 2 ^ 19 % 4)
  let layer := header / 2 ^ 17 % 4
  let bitrateIndex := header / 2 ^ 12 % 16
  let sampleRateIndex := header / 2 ^ 10 % 4
  if header / 2 ^ 21 ≠ 2 ^ 11 - 1 ∨ version = .reserved ∨ layer ≠ 1 ∨ bitrateIndex = 0 ∨
      bitrateIndex = 15 ∨ sampleRateIndex = 3 then
    .ok none
  else
    let base ← index baseSampleRates sampleRateIndex
    let sampleRateHz := version.rate base
    let bitrateKbps ← index (if version = .mpeg1 then mpeg1Bitrates else mpeg2Bitrates) bitrateIndex
    let coefficient := if version = .mpeg1 then 144 else 72
    let padding := header / 2 ^ 9 % 2
    .ok (some
      { goMp3Unsupported := version = .mpeg25 ∨ header % 4 = 2
        sampleRateHz
        channelCount := if header / 2 ^ 6 % 4 = 3 then 1 else 2
        frameSize := coefficient * bitrateKbps * 1000 / sampleRateHz + padding
        samples := if version = .mpeg1 then 1152 else 576 })

/-! ### The tags behind the audio -/

def tagSignature : List UInt8 := [0x54, 0x41, 0x47]

/-- The end of the audio before an ID3v1 block. -/
def audioEnd (file : File) : Checked String ℕ :=
  if file.size < id3v1TagSizeBytes then .ok file.size
  else do
    let start ← sub file.size id3v1TagSizeBytes
    match file.readExactAt 3 start with
    | none => fail "read ID3v1 signature: unexpected EOF"
    | some signature => if signature = tagSignature then .ok start else .ok file.size

def apev2DescriptorSize : ℕ := 32

def apev2HasHeader : UInt32 := (1 : UInt32) <<< 31

def apev2IsHeader : UInt32 := (1 : UInt32) <<< 29

def apev2ItemFlags : UInt32 := 7

def apev2MinItemSize : ℕ := 11

def apev2Signature : List UInt8 := "APETAGEX".toList.map fun c => UInt8.ofNat c.toNat

/-- The number in four bytes of a descriptor. -/
def word (data : List UInt8) (start : ℕ) : Checked String ℕ := do
  .ok (ByteOrder.ofLe (← slice data start (start + 4)))

def validateApev2Descriptor (data : List UInt8) (isHeader : Bool) : Checked String Unit := do
  let flags := UInt32.ofNat (← word data 20)
  let version ← word data 8
  if (← slice data 0 8) ≠ apev2Signature ∨ version ≠ 2000 then
    fail "APEv2 signature or version is invalid"
  else
    let allowed := apev2HasHeader ||| apev2IsHeader ||| apev2ItemFlags
    if flags &&& ~~~allowed ≠ 0 ∨ decide (flags &&& apev2IsHeader ≠ 0) ≠ isHeader ∨
        flags &&& 6 = 6 ∨ Id3.isZero (← slice data 24 data.length) = false then
      fail "APEv2 flags or reserved bytes are invalid"
    else .ok ()

/-- The place behind the key that is being read, with its length so far. -/
def readKey (data : List UInt8) : ℕ → ℕ → ℕ → Checked String ℕ
  | 0, _, _ => .error .unfinished
  | fuel + 1, position, length =>
    match data[position]? with
    | none => fail "APEv2 item key is truncated: EOF"
    | some byte =>
      if byte = 0 ∧ 2 ≤ length then .ok (position + 1)
      else if byte < 0x20 ∨ 0x7e < byte then fail "APEv2 item key is invalid"
      else if 255 < length + 1 then fail "APEv2 item key exceeds length limit"
      else readKey data fuel (position + 1) (length + 1)

/-- The place behind so many items. -/
def readItems (data : List UInt8) : ℕ → ℕ → Checked String ℕ
  | 0, position => .ok position
  | count + 1, position => do
    if (← sub data.length position) < 8 then
      fail (if data.length = position then "read APEv2 item header: EOF"
        else "read APEv2 item header: unexpected EOF")
    else
      let valueSize ← word data position
      let flags := UInt32.ofNat (← word data (position + 4))
      if flags &&& ~~~apev2ItemFlags ≠ 0 ∨ flags &&& 6 = 6 then
        fail "APEv2 item flags are invalid"
      else
        -- a key has at most 255 characters
        let position ← readKey data 257 (position + 8) 0
        if (← sub data.length position) < valueSize then
          fail "APEv2 item exceeds tag boundaries: EOF"
        else readItems data count (position + valueSize)

/-- Walks the item lengths without reading the values. -/
def validateApev2Items (file : File) (isCancelled : Bool) (offset size count : ℕ) :
    Checked String Unit :=
  if isCancelled then fail "read APEv2 item header: context canceled"
  else
    match file.readExactAt size offset with
    | none => fail "read APEv2 item header: unexpected EOF"
    | some data => do
      let position ← readItems data count 0
      if position ≠ data.length then fail "APEv2 item count does not match tag size"
      else .ok ()

/-- A header without the flag that makes it one. -/
def withoutHeaderFlag (header : List UInt8) : Checked String (List UInt8) := do
  let flags := UInt32.ofNat (← word header 20) &&& ~~~apev2IsHeader
  .ok ((← slice header 0 20) ++ ByteOrder.toLe 4 flags.toNat ++ (← slice header 24 header.length))

/-- The start of an APEv2 tag whose items start here: its header stands before them where the
footer says so. -/
def apev2Start (file : File) (audioOffset start : ℕ) (footer : List UInt8) : Checked String ℕ := do
  if UInt32.ofNat (← word footer 20) &&& apev2HasHeader ≠ 0 then
    if start < audioOffset + apev2DescriptorSize then
      fail "APEv2 header overlaps ID3 or audio start"
    else
      let start ← sub start apev2DescriptorSize
      match file.readExactAt apev2DescriptorSize start with
      | none => fail "read APEv2 header: unexpected EOF"
      | some header =>
        validateApev2Descriptor header true
        if (← withoutHeaderFlag header) ≠ footer then fail "APEv2 header and footer disagree"
        else .ok start
  else .ok start

/-- The end of the audio before an APEv2 tag. -/
def apev2AudioEnd (file : File) (isCancelled : Bool) (audioOffset audioEnd : ℕ) :
    Checked String ℕ := do
  let room ← sub audioEnd audioOffset
  if room < apev2DescriptorSize then .ok audioEnd
  else
    match file.readExactAt apev2DescriptorSize (← sub audioEnd apev2DescriptorSize) with
    | none => fail "read APEv2 footer: unexpected EOF"
    | some footer =>
      if (← slice footer 0 8) ≠ apev2Signature then .ok audioEnd
      else
        validateApev2Descriptor footer false
        let size ← word footer 12
        let count ← word footer 16
        if size < apev2DescriptorSize then fail "APEv2 size or item count exceeds tag boundaries"
        else
          let itemsSize ← sub size apev2DescriptorSize
          if room < size ∨ itemsSize / apev2MinItemSize < count then
            fail "APEv2 size or item count exceeds tag boundaries"
          else
            let start ← sub audioEnd size
            validateApev2Items file isCancelled start itemsSize count
            apev2Start file audioOffset start footer

/-! ### The frames -/

structure StreamInfo where
  sampleRateHz : ℕ
  channelCount : ℕ
  /-- Modulo `2 ^ 64`. -/
  totalSamples : ℕ
  encodedBytes : ℕ
  /-- Where each frame starts and how long it is. -/
  frames : List (ℕ × ℕ)
  goMp3Unsupported : Bool
  deriving DecidableEq

def StreamInfo.empty : StreamInfo := ⟨0, 0, 0, 0, [], false⟩

/-- The stream with one more frame. -/
def StreamInfo.push (stream : StreamInfo) (offset : ℕ) (header : FrameHeader) : StreamInfo where
  sampleRateHz := if stream.totalSamples = 0 then header.sampleRateHz else stream.sampleRateHz
  channelCount := if stream.totalSamples = 0 then header.channelCount else stream.channelCount
  totalSamples := (stream.totalSamples + header.samples) % 2 ^ 64
  encodedBytes := stream.encodedBytes + header.frameSize
  frames := stream.frames ++ [(offset, header.frameSize)]
  goMp3Unsupported := stream.goMp3Unsupported || header.goMp3Unsupported

section Frames

variable (file : File) (isCancelled : ℕ → Bool)

/-- The frames from an offset on, with the position of the reader. Each frame is longer than its
header, so that there are fewer than bytes. -/
def readFramesFrom (audioEnd : ℕ) : ℕ → ℕ → ℕ → StreamInfo → Checked Failure StreamInfo
  | 0, _, _, _ => .error .unfinished
  | fuel + 1, position, offset, stream =>
    if audioEnd ≤ offset then .ok stream
    else if isCancelled (stream.frames.length + 1) then fail cancelled
    else
      match file.readExactAt 4 position with
      | none => fail (audioError "read MP3 frame header: unexpected EOF")
      | some data => do
        let left ← sub audioEnd offset
        match (← parseFrameHeader data).filter fun header => header.frameSize ≤ left with
        | none => fail (audioError "MP3 frame is invalid or truncated")
        | some header =>
          if stream.totalSamples ≠ 0 ∧ (stream.sampleRateHz ≠ header.sampleRateHz ∨
              stream.channelCount ≠ header.channelCount) then
            fail (audioError "MP3 stream properties change between frames")
          else
            let skipped ← sub header.frameSize 4
            readFramesFrom audioEnd fuel (position + 4 + skipped) (offset + header.frameSize)
              (stream.push offset header)

/-- The frames between a tag and the tags behind them. The cancellation is looked at once for
the APEv2 tag, and once for each frame. -/
def inspectFrames (audioOffset : ℕ) : Checked Failure StreamInfo := do
  let end₁ ← mapFail fileError (audioEnd file)
  let end₂ ← mapFail (error .invalidMetadata "APEv2")
    (apev2AudioEnd file (isCancelled 0) audioOffset end₁)
  if end₂ ≤ audioOffset then fail (audioError "MP3 audio stream is empty")
  else readFramesFrom file isCancelled end₂ (file.size + 1) audioOffset audioOffset .empty

end Frames

end Harmony.Inspect.Mp3
