/-
# Serving a file

How the server answers a request for a file: the preconditions in their order, then the
whole file, one range of it, or several in a multipart body. The lengths are added as
64-bit numbers. The answer carries the bytes of the ranges in order, or the whole file
where the ranges together are longer, and it announces as many bytes as it carries.
-/

import Harmony.GoJson.Times
import Harmony.Library.Utf8
import Harmony.ServeFile.Ranges

namespace Harmony.ServeFile

open GoJson (SystemTime)
open RangeHeader (Says Spec)

/-! ### Requests and responses -/

inductive Method
  | get
  | head
  | other
  deriving DecidableEq

inductive HeaderName
  | acceptRanges
  | cacheControl
  | contentEncoding
  | contentLength
  | contentRange
  | contentType
  | etag
  | ifMatch
  | ifModifiedSince
  | ifNoneMatch
  | ifRange
  | ifUnmodifiedSince
  | lastModified
  | range
  | xContentTypeOptions
  deriving DecidableEq

/-- A value has one character for each byte. -/
abbrev HeaderMap := HeaderName → Option (List Char)

namespace HeaderMap

def empty : HeaderMap := fun _ => none

def insert (headers : HeaderMap) (name : HeaderName) (value : List Char) : HeaderMap :=
  Function.update headers name (some value)

def remove (headers : HeaderMap) (name : HeaderName) : HeaderMap :=
  Function.update headers name none

end HeaderMap

inductive StatusCode
  | ok
  | partialContent
  | notModified
  | preconditionFailed
  | rangeNotSatisfiable

structure Response where
  status : StatusCode
  headers : HeaderMap
  body : List UInt8

inductive ServeError
  | notFound
  | other

/-- A file as it is found: the extension of its name where that is a text, when it was last
modified, and its bytes. -/
structure File where
  extension : Option (List Char)
  modified : Option SystemTime
  bytes : List UInt8

/-- The number of bytes. -/
def File.size (file : File) : ℕ := file.bytes.length

/-- Libraries that the server asks: the type of a file by its extension, and the dates of
HTTP. -/
structure Libraries where
  guessType : List Char → Option (List Char)
  parseHttpDate : List Char → Option SystemTime
  fmtHttpDate : SystemTime → List Char

/-! ### Headers -/

def octetStream : List Char := "application/octet-stream".toList

variable (libraries : Libraries)

def contentType (file : File) : List Char :=
  let extension := (file.extension.getD []).map Char.toLower
  if extension = "mp3".toList then "audio/mpeg".toList
  else if extension = "flac".toList then "audio/flac".toList
  else if extension = "ogg".toList ∨ extension = "opus".toList then "audio/ogg".toList
  else if extension = "m4a".toList then "audio/mp4".toList
  else if extension = "wav".toList then "audio/wav".toList
  else (libraries.guessType extension).getD octetStream

/-- Only such text is read from a header, or written to one. -/
def isVisible (value : List Char) : Bool :=
  value.all fun c => (32 ≤ c.toNat && c.toNat < 127) || c = '\t'

def headerText (headers : HeaderMap) (name : HeaderName) : List Char :=
  match headers name with
  | none => []
  | some value => if isVisible value then value else []

/-- What is inside the quotes that end here, and what follows them. -/
def scanQuoted : List Char → Option (List Char × List Char)
  | [] => none
  | c :: rest =>
    if c = '"' then some ([], rest)
    else if c.toNat = 0x21 ∨ (0x23 ≤ c.toNat ∧ c.toNat ≤ 0x7e) ∨ 0x80 ≤ c.toNat then
      (scanQuoted rest).map fun parts => (c :: parts.1, parts.2)
    else none

/-- A valid tag at the start, and what follows. -/
def scanEtag (text : List Char) : Option (List Char × List Char) :=
  let text := trimBlanks text
  let start := if "W/".toList.isPrefixOf text then 2 else 0
  match text.drop start with
  | '"' :: rest =>
    (scanQuoted rest).map fun parts => (text.take start ++ '"' :: parts.1 ++ ['"'], parts.2)
  | _ => none

theorem scanQuoted_length {text inside rest : List Char}
    (h : scanQuoted text = some (inside, rest)) :
    rest.length < text.length := by
  induction text generalizing inside with
  | nil => cases h
  | cons c text ih =>
    rw [scanQuoted] at h
    split_ifs at h with hquote hallowed
    · cases h
      exact Nat.lt_succ_self _
    · obtain ⟨parts, hparts, heq⟩ := Option.map_eq_some_iff.mp h
      obtain ⟨-, rfl⟩ := Prod.mk.inj heq
      exact Nat.lt_succ_of_lt (ih hparts)

theorem length_trimBlanks_le (text : List Char) : (trimBlanks text).length ≤ text.length := by
  rw [trimBlanks, Chars.trimMatches, List.length_reverse]
  refine (List.dropWhile_suffix _).length_le.trans ?_
  rw [List.length_reverse]
  exact (List.dropWhile_suffix _).length_le

theorem scanEtag_length {text tag rest : List Char} (h : scanEtag text = some (tag, rest)) :
    rest.length < text.length := by
  simp only [scanEtag] at h
  split at h
  · rename_i quoted hdrop
    obtain ⟨parts, hparts, heq⟩ := Option.map_eq_some_iff.mp h
    obtain ⟨-, rfl⟩ := Prod.mk.inj heq
    have hquoted := scanQuoted_length hparts
    have hlength := congrArg List.length hdrop
    rw [List.length_drop, List.length_cons] at hlength
    have htrim := length_trimBlanks_le text
    omega
  · cases h

/-- Whether a list of tags comes to a `*` before what is none. -/
def reachesStar (value : List Char) : Bool :=
  match _hvalue : trimBlanks value with
  | [] => false
  | c :: rest =>
    if c = ',' then reachesStar rest
    else if c = '*' then true
    else
      match _hscan : scanEtag (c :: rest) with
      | some (_, rest) => reachesStar rest
      | none => false
termination_by value.length
decreasing_by
  all_goals
    have htrim := length_trimBlanks_le value
    rw [_hvalue, List.length_cons] at htrim
  · omega
  · have hrest := scanEtag_length _hscan
    rw [List.length_cons] at hrest
    omega

/-! ### Preconditions -/

inductive Condition
  | none
  | true
  | false
  deriving DecidableEq

/-- Without an ETag only `*` matches. -/
def checkIfMatch (headers : HeaderMap) : Condition :=
  let value := headerText headers .ifMatch
  if value = [] then .none else if reachesStar value then .true else .false

/-- Without an ETag only `*` fails. -/
def checkIfNoneMatch (headers : HeaderMap) : Condition :=
  let value := headerText headers .ifNoneMatch
  if value = [] then .none else if reachesStar value then .false else .true

def seconds (time : SystemTime) : ℕ := if 0 ≤ time then (time / 1000000000).toNat else 0

/-- No time, or exactly the beginning of 1970. -/
def isZeroTime (modified : Option SystemTime) : Bool :=
  match modified with
  | none => true
  | some modified => modified = 0

def parseTime (text : List Char) : Option ℕ := (libraries.parseHttpDate text).map seconds

def checkIfUnmodifiedSince (headers : HeaderMap) (modified : Option SystemTime) : Condition :=
  let value := headerText headers .ifUnmodifiedSince
  if value = [] ∨ isZeroTime modified then .none
  else
    match parseTime libraries value with
    | none => .none
    | some since => if (modified.map seconds).getD 0 ≤ since then .true else .false

def checkIfModifiedSince (method : Method) (headers : HeaderMap) (modified : Option SystemTime) :
    Condition :=
  if method ≠ .get ∧ method ≠ .head then .none
  else
    let value := headerText headers .ifModifiedSince
    if value = [] ∨ isZeroTime modified then .none
    else
      match parseTime libraries value with
      | none => .none
      | some since => if (modified.map seconds).getD 0 ≤ since then .false else .true

def checkIfRange (method : Method) (headers : HeaderMap) (modified : Option SystemTime) :
    Condition :=
  if method ≠ .get ∧ method ≠ .head then .none
  else
    let value := headerText headers .ifRange
    if value = [] then .none
    else if (scanEtag value).isSome then .false
    else
      match modified with
      | none => .false
      | some modified =>
        if parseTime libraries value = some (seconds modified) then .true else .false

/-! ### The response -/

/-- The headers that every response begins with. -/
def fileHeaders (file : File) : HeaderMap :=
  let type := contentType libraries file
  let headers := (HeaderMap.empty.insert .acceptRanges "bytes".toList).insert .contentType
    (if isVisible type then type else octetStream)
  match file.modified with
  | none => headers
  | some modified =>
    if modified = 0 then headers
    else headers.insert .lastModified (libraries.fmtHttpDate (seconds modified * 1000000000))

def notModified (headers : HeaderMap) : Response where
  status := .notModified
  headers := ((headers.remove .contentType).remove .contentLength).remove .contentEncoding
  body := []

/-- The response where a precondition ends the request. -/
def stopped (method : Method) (request : HeaderMap) (file : File) : Option Response :=
  let headers := fileHeaders libraries file
  let condition := match checkIfMatch request with
    | .none => checkIfUnmodifiedSince libraries request file.modified
    | condition => condition
  if condition = .false then some ⟨.preconditionFailed, headers, []⟩
  else
    match checkIfNoneMatch request with
    | .false =>
      if method = .get ∨ method = .head then some (notModified headers)
      else some ⟨.preconditionFailed, headers, []⟩
    | .none =>
      if checkIfModifiedSince libraries method request file.modified = .false then
        some (notModified headers)
      else none
    | .true => none

/-- The `Range` header, unless `If-Range` asks for the whole file. -/
def rangeHeader (method : Method) (request : HeaderMap) (file : File) : List Char :=
  let header := headerText request .range
  if header ≠ [] ∧ checkIfRange libraries method request file.modified = .false then []
  else header

def decimal (n : ℕ) : List Char := Nat.toDigits 10 n

def Range.contentRange (range : Range) (size : ℕ) : List Char :=
  "bytes ".toList ++ decimal range.start ++ '-' :: decimal (range.start + range.length - 1) ++
    '/' :: decimal size

def plainError (message : List Char) (headers : HeaderMap) : Response where
  status := .rangeNotSatisfiable
  headers :=
    ((((((headers.remove .cacheControl).remove .contentEncoding).remove .etag).remove
      .lastModified).remove .contentLength).insert .contentType
        "text/plain; charset=utf-8".toList).insert .xContentTypeOptions "nosniff".toList
  body := Utf8.encode (message ++ ['\n'])

/-- The sum as a 64-bit number. -/
def wrappingAdd (a b : ℕ) : ℕ := (a + b) % 2 ^ 64

def wrappingSum (numbers : List ℕ) : ℕ := numbers.foldl wrappingAdd 0

/-- A text that separates the parts of a multipart body. -/
structure Boundary where
  text : List Char
  length : text.length = 60
  ascii : ∀ c ∈ text, c.toNat < 0x80

/-- The bytes of a range. -/
def Range.bytesOf (range : Range) (file : File) : List UInt8 :=
  (file.bytes.drop range.start).take range.length

/-- What stands before the bytes of a range in a multipart body. -/
def partHeader (boundary : Boundary) (type : List Char) (size index : ℕ) (range : Range) :
    List UInt8 :=
  let separator := if index = 0 then "--".toList ++ boundary.text ++ "\r\n".toList
    else "\r\n--".toList ++ boundary.text ++ "\r\n".toList
  Utf8.encode (separator ++ "Content-Range: ".toList ++ range.contentRange size ++
    "\r\nContent-Type: ".toList ++ type ++ "\r\n\r\n".toList)

def closing (boundary : Boundary) : List UInt8 :=
  Utf8.encode ("\r\n--".toList ++ boundary.text ++ "--\r\n".toList)

/-- The response once the ranges are read. -/
def respond (boundary : Boundary) (method : Method) (file : File) (ranges : List Range) :
    Response :=
  let headers := fileHeaders libraries file
  let type := contentType libraries file
  let ranges := if file.size < wrappingSum (ranges.map Range.length) then [] else ranges
  let sent := fun body => if method = .head then [] else body
  match ranges with
  | [] => ⟨.ok, headers.insert .contentLength (decimal file.size), sent file.bytes⟩
  | [range] =>
    ⟨.partialContent, (headers.insert .contentRange (range.contentRange file.size)).insert
      .contentLength (decimal range.length), sent (range.bytesOf file)⟩
  | ranges =>
    let length := wrappingAdd
      (wrappingSum (ranges.mapIdx fun index range =>
        wrappingAdd (partHeader boundary type file.size index range).length range.length))
      (closing boundary).length
    let body := (ranges.mapIdx fun index range =>
      partHeader boundary type file.size index range ++ range.bytesOf file).flatten
    ⟨.partialContent, (headers.insert .contentType
      ("multipart/byteranges; boundary=".toList ++ boundary.text)).insert .contentLength
        (decimal length), sent (body ++ closing boundary)⟩

def serve (boundary : Boundary) (method : Method) (request : HeaderMap)
    (opened : Except ServeError File) : Except ServeError Response :=
  match opened with
  | .error error => .error error
  | .ok file =>
    match stopped libraries method request file with
    | some response => .ok response
    | none =>
      match parseRange (rangeHeader libraries method request file) file.size with
      | .ok ranges => .ok (respond libraries boundary method file ranges)
      | .error .noOverlap =>
        if file.size = 0 then .ok (respond libraries boundary method file [])
        else
          .ok (plainError "invalid range: failed to overlap".toList
            ((fileHeaders libraries file).insert .contentRange
              ("bytes */".toList ++ decimal file.size)))
      | .error .invalid =>
        .ok (plainError "invalid range".toList (fileHeaders libraries file))

end Harmony.ServeFile
