/-
# Metadata from tags

The normalisation of tags that every inspector shares. Unicode normalisation and the case of
characters come from outside; white space, positions, totals and years are read here.
-/

import Harmony.Inspect.Errors
import Harmony.Library.Numerals
import Harmony.ManagedImport.AlbumKeys

namespace Harmony.Inspect

open ManagedImport (Platform MediaPosition ReplayGain normalizeValue)

def maxMediaPosition : ℕ := 9999

/-- Raw tag values by upper-case key, in file order. -/
abbrev Tags := Table String (List String)

namespace Tags

def get (tags : Tags) (key : String) : List String := (tags.lookup key).getD []

def hasValues (tags : Tags) (key : String) : Bool := !(tags.get key).isEmpty

/-- The values of the key, with more after them. -/
def extend (tags : Tags) (key : String) (values : List String) : Tags :=
  tags.insert key (tags.get key ++ values)

end Tags

/-- The case of characters and texts. -/
structure Casing where
  toUppercase : Char → List Char
  toLowercase : List Char → List Char

/-- Marks a value that was not valid UTF-8 in the file. -/
def invalidUtf8Marker : Char := '\uFFFE'

/-- A tag value read from raw bytes. -/
def tagString (bytes : List UInt8) : String :=
  match Utf8.decode bytes with
  | some value => String.ofList value
  | none => String.ofList (invalidUtf8Marker :: Chars.fromUtf8Lossy bytes)

def withoutMarker (value : List Char) : List Char :=
  if value.head? = some invalidUtf8Marker then value.tail else value

/-- Upper case where it is one character. -/
def goUpper (C : Casing) (value : List Char) : List Char :=
  value.map fun c =>
    match C.toUppercase c with
    | [single] => single
    | _ => c

/-! ### Genres -/

def isGenreDelimiter (c : Char) : Bool := c ∈ [';', '/', '|', ',']

local instance lawfulBEqChars : LawfulBEq (List Char) := inferInstance

/-- The values whose lower case is new, in order. -/
def newCases (C : Casing) : List (List Char) → List (List Char) → List (List Char)
  | _, [] => []
  | seen, value :: rest =>
    if C.toLowercase value ∈ seen then newCases C seen rest
    else value :: newCases C (C.toLowercase value :: seen) rest

/-- The genres of one delimited text. Delimiters in a row have nothing between them. -/
def splitGenres (C : Casing) (raw : List Char) : List (List Char) :=
  newCases C [] ((((Chars.trim raw).splitOnP isGenreDelimiter).map Chars.trim).filter (· ≠ []))

def splitGenreTagValues (C : Casing) (values : List String) : List String :=
  (newCases C [] (values.flatMap fun value => splitGenres C (withoutMarker value.toList))).map
    String.ofList

/-! ### Lyrics -/

/-- Each line end as a line feed. -/
def lineFeeds : List Char → List Char
  | '\r' :: '\n' :: rest => '\n' :: lineFeeds rest
  | c :: rest => (if c = '\r' then '\n' else c) :: lineFeeds rest
  | [] => []

def normalizedLyrics (value : String) : List Char :=
  Chars.trim (lineFeeds (withoutMarker value.toList))

/-- The values that may hold the lyrics, in the order in which they are tried. -/
def lyricsValues (tags : Tags) : List String :=
  ["LYRICS", "UNSYNCEDLYRICS", "UNSYNCED LYRICS"].flatMap tags.get

/-- The first lyrics that are not empty. -/
def optionalLyrics (tags : Tags) : String :=
  String.ofList
    ((((lyricsValues tags).map normalizedLyrics).find? (· ≠ [])).getD [])

/-! ### Identity values -/

section Values

variable (P : Platform)

def requiredTags (tags : Tags) (key : String) : Except Failure (List String) :=
  if tags.get key = [] then .error (error .invalidMetadata key "required tag is missing")
  else
    (tags.get key).mapM fun value =>
      match normalizeValue P value with
      | some normal => .ok normal
      | none =>
        .error (error .invalidMetadata key "tag is empty, too long, or contains unsafe characters")

def requiredSingleTag (tags : Tags) (key : String) : Except Failure String := do
  match ← requiredTags P tags key with
  | [value] => .ok value
  | _ => .error (error .invalidMetadata key "expected exactly one value")

/-- The credits of the plural tag where there is one, else of the singular one. -/
def requiredArtistCredits (tags : Tags) (key : String) : Except Failure (List String) :=
  if key ++ "S" ∈ tags then requiredTags P tags (key ++ "S") else requiredTags P tags key

end Values

/-! ### Numbers -/

def isSign (c : Char) : Bool := c = '+' ∨ c = '-'

/-- What is left of a sign, where there is one. -/
def withoutSign (value : List Char) : List Char :=
  if value.head?.any isSign then value.tail else value

def isNumeral (value : List Char) : Bool :=
  !(withoutSign value).isEmpty && (withoutSign value).all Char.isDigit

def atoi (value : List Char) : Option ℤ :=
  if isNumeral value then Numerals.parseI64 value else none

/-- The two hexadecimal digits of a number below 256. -/
def hexDigits (n : ℕ) : List Char := [Nat.digitChar (n / 16), Nat.digitChar (n % 16)]

def quoteCharacter (c : Char) : List Char :=
  if c = '"' then ['\\', '"']
  else if c = '\\' then ['\\', '\\']
  else if c = '\n' then ['\\', 'n']
  else if c = '\t' then ['\\', 't']
  else if c = '\r' then ['\\', 'r']
  else if c.toNat < 0x20 ∨ c.toNat = 0x7f then '\\' :: 'x' :: hexDigits c.toNat
  else [c]

def goQuote (value : List Char) : String :=
  String.ofList ('"' :: value.flatMap quoteCharacter ++ ['"'])

def atoiError (value : List Char) : String :=
  if isNumeral value then s!"strconv.Atoi: parsing {goQuote value}: value out of range"
  else s!"strconv.Atoi: parsing {goQuote value}: invalid syntax"

/-! ### Positions -/

def parsePosition (value : List Char) : Except String MediaPosition :=
  match value.splitOn '/' with
  | first :: rest =>
    if 1 < rest.length then .error "too many position parts"
    else
      let first := Chars.trim first
      match atoi first with
      | none => .error (atoiError first)
      | some number =>
        if number ≤ 0 ∨ (maxMediaPosition : ℤ) < number then
          .error "position is outside the supported range"
        else
          match rest with
          | [] => .ok ⟨number, 0⟩
          | second :: _ =>
            if Chars.trim second = [] then .ok ⟨number, 0⟩
            else
              match atoi (Chars.trim second) with
              | some total =>
                if number ≤ total ∧ total ≤ (maxMediaPosition : ℤ) then .ok ⟨number, total⟩
                else .error "position total is invalid"
              | none => .error "position total is invalid"
  -- A split has at least one part.
  | [] => .error (atoiError [])

section Positions

variable (P : Platform)

def requiredPosition (tags : Tags) (key : String) : Except Failure MediaPosition := do
  let value ← requiredSingleTag P tags key
  (parsePosition value.toList).mapError fun cause =>
    error .invalidMetadata key
      s!"position must be between 1 and {maxMediaPosition} with an optional total: {cause}"

def optionalTotal (tags : Tags) (key : String) : Except Failure (Option ℤ) :=
  if tags.hasValues key = false then .ok none
  else do
    let value ← requiredSingleTag P tags key
    match atoi value.toList with
    | some total =>
      if 0 < total ∧ total ≤ (maxMediaPosition : ℤ) then .ok (some total)
      else .error (error .invalidMetadata key s!"total must be between 1 and {maxMediaPosition}")
    | none =>
      .error (error .invalidMetadata key s!"total must be between 1 and {maxMediaPosition}")

def mergePositionTotal (tags : Tags) (position : MediaPosition) (totalKey : String) :
    Except Failure MediaPosition := do
  match ← optionalTotal P tags totalKey with
  | none => .ok position
  | some total =>
    if 0 < position.total ∧ position.total ≠ total then
      .error (error .invalidMetadata totalKey "total conflicts with the position tag")
    else if total < position.number then
      .error (error .invalidMetadata totalKey "total must not be less than the position")
    else .ok { position with total }

def trackPosition (tags : Tags) : Except Failure MediaPosition := do
  let position ← requiredPosition P tags "TRACKNUMBER"
  mergePositionTotal P tags position "TOTALTRACKS"

/-- The disc before its total: the first one where the tags have no number. -/
def numberedDisc (tags : Tags) : Except Failure MediaPosition :=
  if tags.hasValues "DISCNUMBER" then requiredPosition P tags "DISCNUMBER" else .ok ⟨1, 0⟩

def discPosition (tags : Tags) : Except Failure MediaPosition := do
  let first ← numberedDisc P tags
  let position ← mergePositionTotal P tags first "TOTALDISCS"
  if tags.hasValues "DISCNUMBER" = false ∧ 1 < position.total then
    .error (error .invalidMetadata "DISCNUMBER" "required for a multi-disc Album")
  else .ok position

def invalidDate : Failure :=
  error .invalidMetadata "DATE" "date must begin with a four-digit year"

def optionalYear (tags : Tags) : Except Failure ℤ :=
  if tags.hasValues "DATE" = false then .ok 0
  else do
    let value ← requiredSingleTag P tags "DATE"
    if value.utf8ByteSize < 4 then .error invalidDate
    else
      -- The first four bytes, where they are characters.
      match Utf8.decode ((Utf8.encode value.toList).take 4) with
      | none => .error invalidDate
      | some first =>
        match atoi first with
        | some year => if 0 < year then .ok year else .error invalidDate
        | none => .error invalidDate

/-! ### All tags -/

/-- The metadata of a file, with whether its tags number the disc. -/
structure NormalizedMetadata extends ManagedImport.NormalizedMetadata where
  hasDiscNumber : Bool

def normalize (C : Casing) (tags : Tags) (replayGain : ReplayGain) :
    Except Failure NormalizedMetadata :=
  let title := requiredSingleTag P tags "TITLE"
  let artists := requiredArtistCredits P tags "ARTIST"
  let albumArtists := requiredArtistCredits P tags "ALBUMARTIST"
  let album := requiredSingleTag P tags "ALBUM"
  let track := trackPosition P tags
  let disc := discPosition P tags
  let year := optionalYear P tags
  let failure := Failure.join
    [errOf title, errOf artists, errOf albumArtists, errOf album, errOf track, errOf disc,
      errOf year]
  if failure.isEmpty = false then .error failure
  else do
    let title ← title
    let artists ← artists
    let albumArtists ← albumArtists
    let album ← album
    let track ← track
    let disc ← disc
    let year ← year
    .ok
      { albumIdentityKey := ""
        title
        artists
        albumArtists
        album
        trackPosition := track
        discPosition := disc
        genres := splitGenreTagValues C (tags.get "GENRE")
        year
        replayGain
        lyrics := optionalLyrics tags
        hasDiscNumber := tags.hasValues "DISCNUMBER" }

end Positions

end Harmony.Inspect
