/-
# WAV files

Integer PCM in a RIFF WAVE container. The chunks of the file are walked once, in any order: one
of them gives the format of the samples, one holds the samples and one holds the ID3 tag that the
metadata is read from. The samples are then read to their end.
-/

import Harmony.Inspect.Files
import Harmony.Inspect.Id3Values

namespace Harmony.Inspect.Wav

open Checked
open ManagedImport (TechnicalAudio)

local instance lawfulBEqBytes : LawfulBEq (List UInt8) := inferInstance

def pcm : ℕ := 0x0001

def extensible : ℕ := 0xfffe

def riffHeaderSizeBytes : ℕ := 12

def fmtMinSizeBytes : ℕ := 16

def fmtWaveformatexSizeBytes : ℕ := 18

def fmtExtensibleSizeBytes : ℕ := 40

def pcmSubformat : List UInt8 :=
  [0x01, 0x00, 0x00, 0x00, 0x00, 0x00, 0x10, 0x00, 0x80, 0x00, 0x00, 0xaa, 0x00, 0x38, 0x9b, 0x71]

structure Format where
  audioFormat : ℕ
  channelCount : ℕ
  sampleRateHz : ℕ
  bytesPerSecond : ℕ
  blockAlign : ℕ
  bitsPerSample : ℕ
  cbSize : ℕ
  validBits : ℕ
  subFormat : List UInt8

structure Chunks where
  format : Format
  dataOffset : ℕ
  dataSize : ℕ
  tags : Tags
  pictures : List Id3.TaggedPicture

def unsupported (message : String) : Failure := error .unsupportedFormat "container" message

def quoteCharacter (c : Char) : List Char :=
  if c = '"' then ['\\', '"']
  else if c = '\\' then ['\\', '\\']
  else if c.toNat = 0x08 then ['\\', 'b']
  else if c.toNat = 0x0c then ['\\', 'f']
  else if c = '\n' then ['\\', 'n']
  else if c = '\r' then ['\\', 'r']
  else if c = '\t' then ['\\', 't']
  else if c.toNat < 0x20 then '\\' :: 'u' :: '0' :: '0' :: hexDigits c.toNat
  else [c]

/-- The identifier of a chunk as a JSON string. -/
def goQuote (value : List Char) : String :=
  String.ofList ('"' :: value.flatMap quoteCharacter ++ ['"'])

/-! ### The format -/

/-- A number of two bytes. -/
def u16At (body : List UInt8) (start : ℕ) : Checked Failure ℕ := do
  .ok (ByteOrder.ofLe (← slice body start (start + 2)))

/-- A number of four bytes. -/
def u32At (body : List UInt8) (start : ℕ) : Checked Failure ℕ := do
  .ok (ByteOrder.ofLe (← slice body start (start + 4)))

/-- Four hexadecimal digits. -/
def hexWord (n : ℕ) : String := String.ofList (hexDigits (n / 256) ++ hexDigits (n % 256))

/-- Whether the samples are integers, in either kind of header. -/
def validateInteger (format : Format) : Except Failure Unit :=
  if format.audioFormat = extensible then
    if format.cbSize ≠ fmtExtensibleSizeBytes - fmtWaveformatexSizeBytes then
      .error (unsupported s!"extensible fmt extension size {format.cbSize} is invalid")
    else if format.subFormat ≠ pcmSubformat then
      .error (unsupported "WAV subformat is not integer PCM")
    else .ok ()
  else if format.audioFormat ≠ pcm then
    .error (unsupported s!"WAV audio format 0x{hexWord format.audioFormat} is not integer PCM")
  else .ok ()

def validateRates (format : Format) : Except Failure Unit :=
  let bits := format.bitsPerSample
  if format.channelCount = 0 ∨ 8 < format.channelCount then
    .error (audioError s!"channel count {format.channelCount} is invalid")
  else if format.sampleRateHz < 8000 ∨ 384000 < format.sampleRateHz then
    .error (audioError s!"sample rate {format.sampleRateHz} is invalid")
  else if bits % 8 ≠ 0 ∨ bits < 8 ∨ 32 < bits then
    .error (audioError s!"bit depth {bits} is invalid")
  else if format.blockAlign ≠ format.channelCount * (bits / 8) then
    .error (audioError
      s!"block align {format.blockAlign} does not match channels and bit depth")
  else if format.bytesPerSecond ≠ format.sampleRateHz * format.blockAlign % 2 ^ 32 then
    .error (audioError "byte rate does not match sample rate and block align")
  else if format.audioFormat = extensible ∧ (format.validBits = 0 ∨ bits < format.validBits) then
    .error (audioError (s!"valid bits {format.validBits} must be positive and no greater than " ++
      s!"container bit depth {bits}"))
  else .ok ()

def validateFormat (format : Format) : Except Failure Unit := do
  validateInteger format
  validateRates format

/-- The fields that every header has, and the size of the extension where there is one. -/
def parseBaseFormat (body : List UInt8) : Checked Failure Format := do
  let audioFormat ← u16At body 0
  let channelCount ← u16At body 2
  let sampleRateHz ← u32At body 4
  let bytesPerSecond ← u32At body 8
  let blockAlign ← u16At body 12
  let bitsPerSample ← u16At body 14
  let cbSize ← if fmtWaveformatexSizeBytes ≤ body.length then u16At body 16 else .ok 0
  .ok ⟨audioFormat, channelCount, sampleRateHz, bytesPerSecond, blockAlign, bitsPerSample, cbSize,
    0, List.replicate 16 0⟩

/-- The format with the fields of an extension, which only one kind of header has. -/
def parseExtension (body : List UInt8) (format : Format) : Checked Failure Format :=
  let size := body.length
  if format.audioFormat = extensible then
    if size < fmtExtensibleSizeBytes then
      fail (unsupported "extensible fmt chunk is truncated")
    else do
      let validBits ← u16At body 18
      let subFormat ← slice body 24 40
      .ok { format with validBits, subFormat }
  else if size ≠ fmtMinSizeBytes ∧ (size ≠ fmtWaveformatexSizeBytes ∨ format.cbSize ≠ 0) then
    fail (unsupported s!"PCM fmt chunk size {size} is invalid")
  else .ok format

def parseFormat (body : List UInt8) : Checked Failure Format := do
  let format ← parseExtension body (← parseBaseFormat body)
  ofExcept (validateFormat format)
  .ok format

section Chunks

variable (C : Casing) (file : File)

def readFormat (position size : ℕ) : Checked Failure Format :=
  if size < fmtMinSizeBytes ∨ fmtExtensibleSizeBytes < size then
    fail (unsupported s!"fmt chunk size {size} is invalid")
  else
    match file.readExactAt size position with
    | none => fail (fileError "read fmt chunk: unexpected EOF")
    | some body => parseFormat body

/-! ### The tag -/

/-- The values of a tag that fills its chunk. -/
def parseId3 (body : List UInt8) : Checked Failure (Tags × List Id3.TaggedPicture) := do
  let (version, tagSize) ← Id3.parseHeader body
  if headerSizeBytes + tagSize ≠ body.length then fail (Id3.invalid "ID3 tag size is invalid")
  else
    let payload ← slice body headerSizeBytes body.length
    let frames ← Id3.parseFrames payload version
    let (values, failure) := Id3.collectValues C frames version
    ofExcept failure.intoResult
    .ok (values.tags, values.pictures)

def readId3 (position size : ℕ) : Checked Failure (Tags × List Id3.TaggedPicture) :=
  if size < headerSizeBytes ∨ maxTagSizeBytes + headerSizeBytes < size then
    fail (Id3.invalid s!"ID3 chunk size {size} is invalid")
  else
    match file.readExactAt size position with
    | none => fail (fileError "read ID3 chunk: unexpected EOF")
    | some body => parseId3 C body

/-! ### Chunks -/

def formatId : List UInt8 := [0x66, 0x6d, 0x74, 0x20]

def dataId : List UInt8 := [0x64, 0x61, 0x74, 0x61]

def tagIds : List (List UInt8) := [[0x49, 0x44, 0x33, 0x20], [0x69, 0x64, 0x33, 0x20]]

/-- What the chunks read so far have given. -/
structure Found where
  format : Option Format
  data : Option (ℕ × ℕ)
  id3Values : Option (Tags × List Id3.TaggedPicture)

/-- Reads a chunk whose body begins at the position; one of another kind is passed over. -/
def readChunk (id : List UInt8) (position bodyOffset size : ℕ) (found : Found) :
    Checked Failure Found :=
  if id = formatId then do
    let parsed ← readFormat file position size
    if found.format.isSome then fail (unsupported "multiple fmt chunks are ambiguous")
    else .ok { found with format := some parsed }
  else if id = dataId then
    if found.data.isSome then fail (unsupported "multiple data chunks are ambiguous")
    else .ok { found with data := some (bodyOffset, size) }
  else if id ∈ tagIds then do
    let parsed ← readId3 C file position size
    if found.id3Values.isSome then
      fail (error .invalidMetadata "metadata" "multiple ID3 chunks are ambiguous")
    else .ok { found with id3Values := some parsed }
  else .ok found

/-- The end of a chunk, behind the byte that pads an odd one. -/
def chunkEnd (id : List UInt8) (size next : ℕ) : Checked Failure ℕ :=
  if size % 2 = 1 then
    if file.size ≤ next then
      fail (unsupported
        s!"RIFF chunk {goQuote (Chars.fromUtf8Lossy id)} is missing its padding byte")
    else addU64 next 1
  else .ok next

/-- The walk from a chunk to the end of the file. The header is read at the position of the file,
which is sought to each chunk whatever was read of the one before. -/
def chunksFrom : ℕ → ℕ → ℕ → Found → Checked Failure Found
  | 0, _, _, _ => .error .unfinished
  | fuel + 1, position, offset, found =>
    match file.readExactAt 8 position with
    | none => fail (unsupported "read RIFF chunk header: unexpected EOF")
    | some header => do
      let id := header.take 4
      let size := ByteOrder.ofLe (header.drop 4)
      let bodyOffset ← addU64 offset 8
      let next ← addU64 bodyOffset size
      if file.size < next then
        fail (unsupported
          s!"RIFF chunk {goQuote (Chars.fromUtf8Lossy id)} extends past the file")
      else
        let found ← readChunk C file id (position + 8) bodyOffset size found
        let next ← chunkEnd file id size next
        if file.size ≤ next then .ok found else chunksFrom fuel next next found

/-- The chunks that must be there, in the order in which they are asked for. -/
def requireChunks (found : Found) : Except Failure Chunks :=
  match found.format with
  | none => .error (unsupported "WAV fmt chunk is missing")
  | some format =>
    let (dataOffset, dataSize) := found.data.getD (0, 0)
    if dataSize = 0 then .error (audioError "WAV data chunk is missing or empty")
    else
      match found.id3Values with
      | none =>
        .error (error .invalidMetadata "metadata"
          "WAV ID3 chunk is missing; identity metadata is required")
      | some (tags, pictures) => .ok ⟨format, dataOffset, dataSize, tags, pictures⟩

/-- Every chunk is longer than seven bytes, so that there are fewer than bytes. -/
def readChunks : Checked Failure Chunks := do
  let found ← chunksFrom C file (file.size + 1) riffHeaderSizeBytes riffHeaderSizeBytes
    ⟨none, none, none⟩
  ofExcept (requireChunks found)

end Chunks

/-! ### Cancellation and progress -/

structure Progress where
  decodedSamples : ℕ
  totalSamples : ℕ
  percent : ℤ

/-- What an inspection is told and tells, by how often it has asked and reported. -/
structure Context where
  isCancelled : ℕ → Bool
  progress : Option (ℕ → Progress → Except Failure Unit)

namespace Context

def check (ctx : Context) (call : ℕ) : Checked Failure Unit :=
  if ctx.isCancelled call then fail cancelled else .ok ()

/-- The part that is decoded, by samples where their number is known and else by bytes. -/
def percentOf (decodedSamples totalSamples : ℕ) (encodedBytes totalBytes : ℤ) :
    Checked Failure ℤ :=
  if 0 < totalSamples then .ok (Int.bmod (decodedSamples * 100 / totalSamples : ℕ) (2 ^ 64))
  else if 0 < totalBytes then do
    let part ← fitI64 (encodedBytes * 100)
    .ok (part.tdiv totalBytes)
  else .ok 0

/-- Nothing is complete before it is said to be. -/
def shownPercent (percent : ℤ) (isComplete : Bool) : ℤ :=
  if isComplete then 100 else if 100 ≤ percent then 99 else percent

def report (ctx : Context) (call decodedSamples totalSamples : ℕ)
    (encodedBytes totalBytes : ℤ) (isComplete : Bool) : Checked Failure Unit :=
  match ctx.progress with
  | none => .ok ()
  | some report => do
    let percent ← percentOf decodedSamples totalSamples encodedBytes totalBytes
    ofExcept (report call ⟨decodedSamples, totalSamples, shownPercent percent isComplete⟩)

end Context

/-! ### Samples -/

section Samples

variable (file : File) (ctx : Context) (grant : ℕ → ℕ)

def bufferSizeBytes : ℕ := 1024 * 1024

/-- The bytes read, and why the reading stopped short of those wanted. -/
def readFull (want : ℕ) : ℕ → ℕ → List UInt8 → Checked Failure (List UInt8 × Option String)
  | 0, _, _ => .error .unfinished
  | fuel + 1, position, read =>
    if read.length < want then
      let more := file.read grant (want - read.length) position
      if more = [] then .ok (read, some (if read = [] then "EOF" else "unexpected EOF"))
      else readFull want fuel (position + more.length) (read ++ more)
    else .ok (read, none)

/-- Reads from the position on until nothing remains, behind the bytes that were read before. -/
def readSamples (blockAlign size : ℕ) :
    ℕ → ℕ → ℕ → ℕ → List UInt8 → List UInt8 × Checked Failure Unit
  | 0, _, _, _, bytes => (bytes, .error .unfinished)
  | fuel + 1, call, position, remaining, bytes =>
    if remaining = 0 then (bytes, .ok ())
    else
      match ctx.check (call + 1) with
      | .error stop => (bytes, .error stop)
      | .ok () =>
        let want := min remaining bufferSizeBytes
        match readFull file grant want (want + 1) position [] with
        | .error stop => (bytes, .error stop)
        | .ok (read, failure) =>
          let left := remaining - read.length
          match ctx.report call ((size - left) / blockAlign) (size / blockAlign)
            ((size - left : ℕ) : ℤ) size false with
          | .error stop => (bytes ++ read, .error stop)
          | .ok () =>
            match failure with
            | some cause => (bytes ++ read, fail (audioError s!"read PCM samples: {cause}"))
            | none =>
              readSamples blockAlign size fuel (call + 1) (position + read.length) left
                (bytes ++ read)

def codecName (bitsPerSample : ℕ) : String :=
  let digits := Nat.toDigits 10 bitsPerSample
  let padded := String.ofList (List.replicate (2 - digits.length) '0' ++ digits)
  if bitsPerSample = 8 then "pcm_u8" else s!"pcm_s{padded}le"

/-- The technical facts of samples that were read to their end. -/
def technicalAudio (format : Format) (size : ℕ) (calls : ℕ) : Checked Failure TechnicalAudio :=
  if format.sampleRateHz = 0 then .error .panicked
  else
    let frameCount := size / format.blockAlign
    let durationMs := frameCount * 1000 / format.sampleRateHz
    let bitrateKbps := (format.bytesPerSecond * 8 + 500) / 1000
    if durationMs = 0 then fail (audioError "decoded duration is not positive")
    else if bitrateKbps = 0 then fail (audioError "average encoded bitrate is not positive")
    else do
      ctx.report calls frameCount frameCount size size true
      .ok
        { format := "wav"
          container := "wav"
          codec := codecName format.bitsPerSample
          durationMs
          sampleRateHz := format.sampleRateHz
          channelCount := format.channelCount
          bitDepth := if 0 < format.validBits then format.validBits else format.bitsPerSample
          bitrateKbps }

/-- How many reads fill the buffer from so many bytes. -/
def rounds (size : ℕ) : ℕ := (size + bufferSizeBytes - 1) / bufferSizeBytes

/-- Reads the whole data chunk, in whole frames; the bytes it has read stand beside the result. -/
def decodePcm (chunks : Chunks) : List UInt8 × Checked Failure TechnicalAudio :=
  let format := chunks.format
  let size := chunks.dataSize
  if size % format.blockAlign ≠ 0 then
    ([], fail (audioError s!"data chunk size {size} is not a whole number of PCM frames"))
  else
    match ctx.check 0 with
    | .error stop => ([], .error stop)
    | .ok () =>
      let (bytes, result) :=
        readSamples file ctx grant format.blockAlign size (size + 1) 0 chunks.dataOffset size []
      (bytes, do
        result
        technicalAudio ctx format size (rounds size))

end Samples

end Harmony.Inspect.Wav
