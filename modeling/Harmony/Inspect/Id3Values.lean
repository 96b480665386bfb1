/-
# Values of ID3 frames

What the frames of a tag say. A text frame holds texts in one of four encodings; credits,
lyrics and pictures have a described field before what they hold, and the field ends where its
terminator stands. A frame that cannot be read leaves the values as they were.
-/

import Harmony.Inspect.Id3Frames
import Harmony.Inspect.Metadata
import Harmony.Library.Spans
import Harmony.Library.Utf16

namespace Harmony.Inspect.Id3

open Spans (cut)

def latin1 : UInt8 := 0

def utf16 : UInt8 := 1

def utf16be : UInt8 := 2

def utf8 : UInt8 := 3

def lyricsTextOffset : ℕ := 4

structure TaggedPicture where
  mimeType : String
  data : List UInt8
  pictureType : UInt8

structure Values where
  tags : Tags
  replayGain : Table String String
  pictures : List TaggedPicture

namespace Values

def empty : Values := ⟨∅, ∅, []⟩

/-- The values with more of a tag behind those it has. -/
def extend (values : Values) (key : String) (added : List String) : Values :=
  { values with tags := values.tags.extend key added }

end Values

/-! ### Texts -/

/-- The units of 16 bits in the bytes. -/
def units (littleEndian : Bool) : List UInt8 → List ℕ
  | first :: second :: rest =>
    (if littleEndian then ByteOrder.ofLe [first, second] else ByteOrder.ofBe [first, second]) ::
      units littleEndian rest
  | _ => []

/-- The text of units in one order. -/
def decodeUnits (littleEndian : Bool) (data : List UInt8) : Except String (List Char) :=
  if data.length % 2 ≠ 0 then .error "UTF-16 text has an odd byte count"
  else .ok (Utf16.decodeLossy (units littleEndian data))

/-- The byte order mark, where there is one, gives the order of all units. -/
def decodeUtf16 (data : List UInt8) (hasBom : Bool) : Except String (List Char) :=
  if hasBom then
    match data with
    | first :: second :: rest =>
      if first = 0xff ∧ second = 0xfe then decodeUnits true rest
      else if first = 0xfe ∧ second = 0xff then decodeUnits false rest
      else .error "UTF-16 byte order mark is invalid"
    | _ => .error "UTF-16 byte order mark is missing"
  else decodeUnits false data

def decodeText (encoding : UInt8) (data : List UInt8) : Except String (List Char) :=
  if encoding = latin1 then .ok (data.map fun byte => Char.ofNat byte.toNat)
  else if encoding = utf16 then decodeUtf16 data true
  else if encoding = utf16be then decodeUtf16 data false
  else if encoding = utf8 then
    match Utf8.decode data with
    | some text => .ok text
    | none => .error "ID3 text is not valid UTF-8"
  else .error s!"unsupported ID3 text encoding {encoding}"

def wide (encoding : UInt8) : Bool := encoding = utf16 ∨ encoding = utf16be

/-- The first place where two zeros stand together at an even offset. -/
def findPair (data : List UInt8) : Option ℕ :=
  (List.range (data.length - 1)).find? fun offset =>
    offset % 2 = 0 ∧ data[offset]? = some 0 ∧ data[offset + 1]? = some 0

def findSeparator (encoding : UInt8) (data : List UInt8) : Option ℕ :=
  if wide encoding then findPair data else data.findIdx? (· = 0)

/-- A terminated text field and the bytes behind it. -/
def splitEncodedField (encoding : UInt8) (data : List UInt8) :
    Except String (List Char × List UInt8) :=
  match findSeparator encoding data with
  | none => .error "encoded text separator is missing"
  | some separator => do
    let value ← decodeText encoding (data.take separator)
    .ok (value, data.drop (separator + if wide encoding then 2 else 1))

def decodeTextValues (payload : List UInt8) (version : UInt8) : Except String (List String) :=
  match payload with
  | encoding :: second :: rest => do
    let value ← decodeText encoding (second :: rest)
    if version ≠ 4 then .ok [String.ofList value]
    else .ok ((value.splitOn '\x00').map String.ofList)
  | _ => .error "text frame is empty"

/-! ### Frames -/

/-- The tag that a text frame is read into. -/
def canonicalName (name : String) (version : UInt8) : Option String :=
  let v2 := version = 2
  let later := version = 3 ∨ version = 4
  if v2 ∧ name = "TT2" ∨ later ∧ name = "TIT2" then some "TITLE"
  else if v2 ∧ name = "TP1" ∨ later ∧ name = "TPE1" then some "ARTIST"
  else if v2 ∧ name = "TP2" ∨ later ∧ name = "TPE2" then some "ALBUMARTIST"
  else if v2 ∧ name = "TAL" ∨ later ∧ name = "TALB" then some "ALBUM"
  else if v2 ∧ name = "TRK" ∨ later ∧ name = "TRCK" then some "TRACKNUMBER"
  else if v2 ∧ name = "TPA" ∨ later ∧ name = "TPOS" then some "DISCNUMBER"
  else if v2 ∧ name = "TCO" ∨ later ∧ name = "TCON" then some "GENRE"
  else if v2 ∧ name = "TYE" ∨ version = 3 ∧ name = "TYER" ∨ version = 4 ∧ name = "TDRC" then
    some "DATE"
  else none

def withoutTerminator (value : List Char) : List Char :=
  if value.getLast? = some '\x00' then value.dropLast else value

def byteOrderMark : Char := '\uFEFF'

def withoutByteOrderMark (value : List Char) : List Char :=
  if value.head? = some byteOrderMark then value.tail else value

/-- The credits of a described text. They are separated by zeros in every version, and one
final zero ends the text. -/
def credits (encoding : UInt8) (value : List Char) : List (List Char) :=
  ((withoutTerminator value).splitOn '\x00').map fun credit =>
    if encoding = utf16 then withoutByteOrderMark credit else credit

/-- The values with a described text among them. -/
def addUserText (values : Values) (encoding : UInt8) (key : String) (value : List Char) :
    Except String Values :=
  let credited :=
    if key = "ARTISTS" ∨ key = "ALBUMARTISTS" then
      values.extend key ((credits encoding value).map String.ofList)
    else values
  if "REPLAYGAIN_".toList.isPrefixOf key.toList then
    if (credited.replayGain.lookup key).isSome then .error s!"duplicate {key} tag"
    else
      .ok { credited with replayGain := credited.replayGain.insert key (String.ofList value) }
  else .ok credited

def collectUserText (C : Casing) (values : Values) (payload : List UInt8) :
    Except String Values :=
  match payload with
  | encoding :: second :: rest => do
    let (description, remainder) ← splitEncodedField encoding (second :: rest)
    let value ← decodeText encoding remainder
    addUserText values encoding (String.ofList (goUpper C (Chars.trim description))) value
  | _ => .error "described text frame is truncated"

/-- A lyrics frame: the encoding, a language of three letters, a terminated description and
the text. -/
def collectLyrics (values : Values) (payload : List UInt8) : Except Failure Values :=
  if payload.length < lyricsTextOffset then .error (invalid "lyrics frame is truncated")
  else
    let encoding := payload.headD 0
    match splitEncodedField encoding (payload.drop lyricsTextOffset) with
    | .error cause => .error (invalid cause)
    | .ok (_, remainder) =>
      match decodeText encoding remainder with
      | .error cause => .error (invalid cause)
      | .ok text => .ok (values.extend "LYRICS" [String.ofList text])

/-! ### Pictures -/

/-- The MIME type of a format that has three letters. -/
def formatMimeType (format : String) : String :=
  if format = "JPG" ∨ format = "JPEG" then "image/jpeg"
  else if format = "PNG" then "image/png"
  else ""

/-- The MIME type of a picture and the offset of what follows it. -/
def pictureMimeType (C : Casing) (payload : List UInt8) (version : UInt8) :
    Option (String × ℕ) :=
  if version = 2 then
    let format := goUpper C (Chars.fromUtf8Lossy (cut payload 1 4))
    some (formatMimeType (String.ofList format), 4)
  else
    ((payload.drop 1).findIdx? (· = 0)).map fun stop =>
      (tagString (cut payload 1 (1 + stop)), 1 + stop + 1)

/-- What follows the MIME type: the kind of the picture, a description and the data. -/
def decodePictureBody (encoding : UInt8) (mimeType : String) (body : List UInt8) :
    Except String TaggedPicture :=
  match body with
  | [] => .error "embedded picture type is truncated"
  | pictureType :: described =>
    match splitEncodedField encoding described with
    | .ok (_, first :: data) => .ok ⟨mimeType, first :: data, pictureType⟩
    | _ => .error "embedded picture description or data is truncated"

def decodePicture (C : Casing) (payload : List UInt8) (version : UInt8) :
    Except String TaggedPicture :=
  if payload.length < 6 then .error "embedded picture frame is truncated"
  else
    match pictureMimeType C payload version with
    | none => .error "embedded picture MIME type is truncated"
    | some (mimeType, offset) => decodePictureBody (payload.headD 0) mimeType (payload.drop offset)

/-! ### All values -/

def userTextName (version : UInt8) : String := if version = 2 then "TXX" else "TXXX"

def pictureName (version : UInt8) : String := if version = 2 then "PIC" else "APIC"

def lyricsName (version : UInt8) : String := if version = 2 then "ULT" else "USLT"

/-- A genre or a date of the encoding alone is no value. -/
def isBlank (key : String) (payload : List UInt8) : Bool :=
  (key = "GENRE" ∨ key = "DATE") ∧ payload.length = 1 ∧ payload.headD 0 ≤ utf8

def collectText (C : Casing) (values : Values) (key : String) (payload : List UInt8)
    (version : UInt8) : Except Failure Values :=
  if isBlank key payload then .ok values
  else
    match decodeTextValues payload version with
    | .error cause => .error (error .invalidMetadata key cause)
    | .ok texts =>
      .ok (values.extend key (if key = "GENRE" then splitGenreTagValues C texts else texts))

/-- The values of a frame, behind those of the frames before it. Each name is that of one kind of
frame, and each kind fails before it changes anything. -/
def collectFrame (C : Casing) (values : Values) (frame : Frame) (version : UInt8) :
    Except Failure Values :=
  match canonicalName frame.name version with
  | some key => collectText C values key frame.payload version
  | none =>
    if frame.name = userTextName version then
      (collectUserText C values frame.payload).mapError invalid
    else if frame.name = pictureName version then
      match decodePicture C frame.payload version with
      | .error cause => .error (error .invalidArtwork "artwork" cause)
      | .ok picture => .ok { values with pictures := values.pictures ++ [picture] }
    else if frame.name = lyricsName version then collectLyrics values frame.payload
    else .ok values

/-- The values of every frame, and each frame's failure in order. -/
def collectFrames (C : Casing) (version : UInt8) :
    List Frame → Values → List (Option Failure) → Values × List (Option Failure)
  | [], values, failures => (values, failures)
  | frame :: frames, values, failures =>
    match collectFrame C values frame version with
    | .ok next => collectFrames C version frames next (failures ++ [none])
    | .error failure => collectFrames C version frames values (failures ++ [some failure])

def collectValues (C : Casing) (frames : List Frame) (version : UInt8) : Values × Failure :=
  let (values, failures) := collectFrames C version frames .empty []
  (values, Failure.join failures)

end Harmony.Inspect.Id3
