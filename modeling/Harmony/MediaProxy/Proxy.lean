/-
# The desktop's media proxy

The Desktop Client's player asks a proxy of its own for media. The proxy serves a few
paths of the Music Server under a token, and puts the token before every reference of
an HLS playlist that passes through it. Parsing URLs and request targets is the part of
two libraries.
-/

import Harmony.External.Playlist

namespace Harmony.MediaProxy

open External (startsWith contains uriMarker linesOf)

inductive ConnectionErrorCode
  | invalidRequest
  | invalidResponse

structure ConnectionError where
  code : ConnectionErrorCode
  message : String

def invalidHlsError (reason : String) : ConnectionError :=
  ⟨.invalidResponse, s!"Music Server HLS manifest {reason}."⟩

/-! ### The libraries -/

/-- What is read of a parsed URL. -/
structure ParsedUrl where
  path : List Char
  fragment : Option (List Char)

/-- A request's target. -/
structure Uri where
  path : List Char
  query : Option (List Char)

/-- `Url::parse`, and the target that a request for a text has. -/
structure UrlCrates where
  parse : List Char → Option ParsedUrl
  target : List Char → Option Uri

/-! ### The paths that are served -/

def endsWith (pattern line : List Char) : Bool := pattern.isSuffixOf line

def segments (path : List Char) : List String := (path.splitOn '/').map String.ofList

/-- External Track audio: the stream, the HLS playlist, and the signed resources that
the Music Server rewrites that playlist to. -/
def isExternalTrackPath (path : List Char) : Bool :=
  match segments path with
  | ["", "api", "v1", "external", "tracks", trackId, last] =>
    (last == "stream" || last == "playlist.m3u8") && trackId != ""
  | ["", "api", "v1", "external", "tracks", trackId, "resources", resource] =>
    trackId != "" && resource != ""
  | _ => false

/-- Album covers, Artist photos, External Track and Managed Import artwork. -/
def isImagePath (path : List Char) : Bool :=
  match segments path with
  | ["", "api", "v1", "library", "albums", albumId, "cover"] => albumId != ""
  | ["", "api", "v1", "library", "artists", artistId, "photo"] => artistId != ""
  | ["", "api", "v1", "external", "tracks", trackId, "artwork"] => trackId != ""
  | ["", "api", "v1", "import-batches", batchId, "artwork", artworkId] =>
    batchId != "" && artworkId != ""
  | _ => false

def isMediaPath (path : List Char) : Bool :=
  startsWith "/api/v1/tracks/".toList path && endsWith "/stream".toList path ||
    startsWith "/api/v1/radio/stations/".toList path && endsWith "/stream".toList path ||
    startsWith "/api/v1/radio/preview/".toList path && endsWith "/stream".toList path ||
    isExternalTrackPath path || isImagePath path

/-! ### Rewriting -/

section Rewrite

variable (crates : UrlCrates) (token : List Char)

def rewriteHlsUri (uri : List Char) : Except ConnectionError (List Char) :=
  match crates.parse ("http://desktop.invalid".toList ++ uri) with
  | none => .error (invalidHlsError "contained an invalid URI")
  | some parsed =>
    if !startsWith ['/'] uri || parsed.fragment.isSome || !isMediaPath parsed.path then
      .error (invalidHlsError "contained a URI outside the signed Music Server media API")
    else .ok ('/' :: token ++ uri)

/-- The line with the URI of each attribute rewritten. Each turn takes more than one
character of the line, so the fuel is never used up. -/
def rewriteHlsAttributes : ℕ → List Char → Except ConnectionError (List Char)
  | 0, remaining => .ok remaining
  | fuel + 1, remaining =>
    match Chars.splitOnce uriMarker remaining with
    | none => .ok remaining
    | some (before, value) =>
      match Chars.splitOnce ['"'] value with
      | none => .error (invalidHlsError "contained an unterminated URI attribute")
      | some (uri, rest) =>
        match rewriteHlsUri crates token uri with
        | .error error => .error error
        | .ok rewritten =>
          match rewriteHlsAttributes fuel rest with
          | .error error => .error error
          | .ok tail => .ok (before ++ uriMarker ++ rewritten ++ '"' :: tail)

/-- The line without a carriage return at its end, and that carriage return. -/
def stripCarriageReturn (line : List Char) : List Char × List Char :=
  if line.getLast? = some '\r' then (line.dropLast, ['\r']) else (line, [])

def rewriteHlsLine (line : List Char) : Except ConnectionError (List Char) :=
  let (content, suffix) := stripCarriageReturn line
  if content = [] then .ok suffix
  else if startsWith ['#'] content then
    (rewriteHlsAttributes crates token content.length content).map (· ++ suffix)
  else (rewriteHlsUri crates token content).map (· ++ suffix)

def trimStart (text : List Char) : List Char := text.dropWhile Chars.isWhitespace

def rewriteHlsManifest (manifest : List Char) : Except ConnectionError (List Char) :=
  if startsWith "#EXTM3U".toList (trimStart manifest) = false then
    .error (invalidHlsError "was missing the EXTM3U header")
  else ((linesOf manifest).mapM (rewriteHlsLine crates token)).map (List.intercalate ['\n'])

end Rewrite

/-! ### Forwarding -/

/-- What is asked of the Music Server for a request of the proxy. -/
def proxyRelativeUrl (uri : Uri) (token : List Char) : Except ConnectionError (List Char) :=
  match ('/' :: token).isPrefixOf? uri.path with
  | none => .error ⟨.invalidRequest, "Desktop media proxy token is invalid."⟩
  | some path =>
    if isMediaPath path = false then
      .error ⟨.invalidRequest, "Desktop media proxy only serves Music Server media API paths."⟩
    else
      match uri.query with
      | some query => .ok (path ++ '?' :: query)
      | none => .ok path

end Harmony.MediaProxy
