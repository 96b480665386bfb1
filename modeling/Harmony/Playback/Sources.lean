/-
# Queue item sources

Where a queue item came from, recorded at insertion. A source is read from the JSON of a
request or of the database, and written for the database and for a client. The library
that reads and writes JSON is a parameter: it takes a JSON text apart into the texts of its
members and elements, and reads and writes single strings.
-/

import Harmony.Library.CommaList
import Harmony.Library.Utf8
import Harmony.Search.StoredText

namespace Harmony.Playback

open CommaList (commas)
open Search.Json (Literal escape quoted)

/-! ### JSON texts -/

/-- A list, from the texts of its elements. -/
def arrayText (items : List (List Char)) : List Char := '[' :: (commas items ++ [']'])

/-- A member of an object, with a name in which nothing is escaped. -/
def memberText (member : String × List Char) : List Char :=
  quoted member.1.toList ++ ':' :: member.2

/-- An object, from the names and the texts of its members. -/
def objectText (members : List (String × List Char)) : List Char :=
  '\x7b' :: (commas (members.map memberText) ++ ['\x7d'])

/-- The JSON library. -/
structure Serde where
  /-- Writes a string. -/
  quote : String → List Char
  /-- The members of an object, in order, with the texts of their values. -/
  object : List Char → Option (List (String × List Char))
  /-- The texts of the elements of a list. -/
  array : List Char → Option (List (List Char))
  string : List Char → Option String
  isNull : List Char → Bool

namespace Serde

variable (serde : Serde)

/-- A list of strings, or `null`. -/
def strings (text : List Char) : Option (Option (List String)) :=
  if serde.isNull text then some none
  else (serde.array text).bind fun items => (items.mapM serde.string).map some

/-- A hash map from an object, or `null`. -/
def fields (text : List Char) : Option (Option (List (String × List Char))) :=
  if serde.isNull text then some none else (serde.object text).map some

end Serde

/-- The number of names: a hash map keeps one member of a name. -/
def fieldCount (members : List (String × List Char)) : ℕ := (members.map Prod.fst).dedup.length

/-- The member that it keeps, the last one. -/
def fieldAt (members : List (String × List Char)) (name : String) : Option (List Char) :=
  members.reverse.lookup name

/-! ### Sources -/

def maxSourceBytes : ℕ := 16 * 1024

def maxStringLength : ℕ := 1024

def maxBasedOn : ℕ := 20

def invalid : String := "invalid queue source"

structure QueueItemSource where
  kind : String
  albumId : String
  albumTitle : String
  artistName : String
  playlistId : String
  name : String
  basedOn : Option (List String)
  deriving DecidableEq

namespace QueueItemSource

def empty : QueueItemSource := ⟨"", "", "", "", "", "", none⟩

def user : QueueItemSource := { empty with kind := "user" }

/-- `basedOn` is omitted when it is empty, except for suggestions. -/
def forEncoding (source : QueueItemSource) : QueueItemSource :=
  let source := if source.kind ≠ "suggestion" ∧ source.basedOn = some [] then
    { source with basedOn := none } else source
  if source.kind = "suggestion" ∧ source.basedOn = none then
    { source with basedOn := some [] } else source

def names : List String :=
  ["kind", "albumId", "albumTitle", "artistName", "playlistId", "name", "basedOn"]

/-- The text of a field, empty where it is absent or `null`. -/
def nullable (serde : Serde) (members : List (String × List Char)) (name : String) :
    Option String :=
  match fieldAt members name with
  | none => some ""
  | some text => if serde.isNull text then some "" else serde.string text

/-- A list of strings, none where it is absent or `null`. -/
def optional (serde : Serde) (members : List (String × List Char)) (name : String) :
    Option (Option (List String)) :=
  match fieldAt members name with
  | none => some none
  | some text => serde.strings text

/-- A source from the members of an object. A field that is given twice is refused, an
absent one has its default, and any other member is ignored. -/
def deserialize (serde : Serde) (members : List (String × List Char)) : Option QueueItemSource :=
  if ((members.map Prod.fst).filter fun name => decide (name ∈ names)).Nodup then do
    let kind ← nullable serde members "kind"
    let albumId ← nullable serde members "albumId"
    let albumTitle ← nullable serde members "albumTitle"
    let artistName ← nullable serde members "artistName"
    let playlistId ← nullable serde members "playlistId"
    let name ← nullable serde members "name"
    let basedOn ← optional serde members "basedOn"
    return ⟨kind, albumId, albumTitle, artistName, playlistId, name, basedOn⟩
  else none

/-- The members that are written, in the order of the fields. -/
def members (serde : Serde) (source : QueueItemSource) : List (String × List Char) :=
  let nonempty (name value : String) : List (String × List Char) :=
    if value = "" then [] else [(name, serde.quote value)]
  [("kind", serde.quote source.kind)] ++ nonempty "albumId" source.albumId ++
    nonempty "albumTitle" source.albumTitle ++ nonempty "artistName" source.artistName ++
    nonempty "playlistId" source.playlistId ++ nonempty "name" source.name ++
    match source.basedOn with
    | none => []
    | some trackIds => [("basedOn", arrayText (trackIds.map serde.quote))]

end QueueItemSource

/-- The fields that a source of the kind has. -/
def required (kind : String) : Option (List String) :=
  if kind = "album" then some ["kind", "albumId", "albumTitle", "artistName"]
  else if kind = "playlist" then some ["kind", "playlistId", "name"]
  else if kind = "user" then some ["kind"]
  else if kind = "suggestion" then some ["kind", "basedOn"]
  else none

def isBlank (text : String) : Bool := (Chars.trim text.toList).isEmpty

variable (serde : Serde)

def validateField (field : String) (value : Option (List Char)) : Except String Unit :=
  let value := value.getD []
  if field = "basedOn" then
    match serde.strings value with
    | some (some trackIds) =>
      if maxBasedOn < trackIds.length then
        .error s!"{invalid}: basedOn exceeds {maxBasedOn} track IDs"
      else if trackIds.any fun trackId =>
          isBlank trackId || decide (maxStringLength < trackId.length) then
        .error (s!"{invalid}: basedOn track IDs must be nonblank and at most " ++
          s!"{maxStringLength} characters")
      else .ok ()
    | _ => .error s!"{invalid}: basedOn must be an array of track IDs"
  else
    match serde.string value with
    | some text =>
      if isBlank text then .error s!"{invalid}: {field} must be a nonblank string"
      else if maxStringLength < text.length then
        .error s!"{invalid}: {field} exceeds {maxStringLength} characters"
      else .ok ()
    | none => .error s!"{invalid}: {field} must be a nonblank string"

def parseJson (data : List Char) : Except String QueueItemSource :=
  if data = [] then .ok .user
  else if maxSourceBytes < (Utf8.encode data).length then
    .error s!"{invalid}: source exceeds {maxSourceBytes} bytes"
  else
    match serde.fields data with
    | some (some fields) =>
      -- The same text, read as the fields of a source.
      match QueueItemSource.deserialize serde fields with
      | none => .error s!"{invalid}: source fields have invalid types"
      | some source =>
        match required source.kind with
        | none => .error s!"{invalid}: unknown kind"
        | some required =>
          let kind := source.kind
          if fieldCount fields ≠ required.length then
            .error s!"{invalid}: fields do not match source kind \"{kind}\""
          else do
            required.forM fun field => validateField serde field (fieldAt fields field)
            return source
    | _ => .error s!"{invalid}: source must be an object"

/-- A request's source: absent is a user insertion. -/
def parse (raw : Option (List Char)) : Except String QueueItemSource :=
  match raw with
  | none => .ok .user
  | some raw => parseJson serde raw

/-- The JSON of a source, with the characters escaped that Go escapes. -/
def sourceText (source : QueueItemSource) : List Char :=
  escape (objectText (source.forEncoding.members serde))

/-- The stored JSON of one source, validated again. -/
def encode (source : QueueItemSource) : Except String (List Char) := do
  let data := sourceText serde source
  let _ ← parseJson serde data
  return data

end Harmony.Playback
