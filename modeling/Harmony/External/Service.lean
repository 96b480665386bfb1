/-
# The External Source

Search through yt-dlp, resolving a found Track once, and serving its audio, its HLS
resources and its cover. A request is a program of atomic steps: what the source does
between two awaits is one of them. What was found, run, resolved, asked for and
answered is kept in logs that no step reads.
-/

import Harmony.External.YtDlp
import Harmony.External.Playlist
import Harmony.Library.Numerals
import Harmony.Library.Thread

namespace Harmony.External

open Numerals

/-! ### What crosses the network -/

abbrev RequestHeaders := List (String × String)

/-- The part of a file a client asked for. -/
inductive RangeRequest
  | whole
  | single (start : UInt64) (last : Option UInt64)
  /-- Any other range, passed on as written. -/
  | other (raw : List UInt8)
  deriving DecidableEq

structure MediaHeaders where
  contentType : Option String
  contentLength : Option String
  contentRange : Option String
  acceptRanges : Option String
  cacheControl : Option String

/-- A body as it arrives; an error ends it early. -/
abbrev ByteStream := List (Except String (List UInt8))

/-- One upstream GET's response, with the final URL. -/
structure Fetched where
  status : ℕ
  url : Url
  headers : MediaHeaders
  body : ByteStream

inductive MediaStatus
  | full
  | partialContent
  | unsatisfiable

structure Media where
  status : MediaStatus
  headers : MediaHeaders
  body : ByteStream

/-- An upstream answer passed on as it is. -/
def Media.ofFetched (response : Fetched) : Media where
  status := if response.status = 206 then .partialContent
    else if response.status = 416 then .unsatisfiable else .full
  headers := response.headers
  body := response.body

inductive PlaybackFormat
  | progressive
  | hls
  deriving DecidableEq

/-- Where an External Track's audio is. -/
structure Resolved where
  url : String
  format : PlaybackFormat
  headers : RequestHeaders
  chunkSize : Option UInt64

/-- The request headers that are forwarded. -/
def forwardedHeaders : List String :=
  ["user-agent", "accept", "accept-language", "referer", "origin", "cookie", "sec-fetch-mode"]

def Resolved.ofFormat (resolved : ResolvedFormat) : Resolved where
  url := resolved.url
  format := if resolved.hls then .hls else .progressive
  headers := (resolved.headers.map fun header => (header.1.toLower, header.2)).filter
    fun header => decide (header.1 ∈ forwardedHeaders)
  chunkSize := resolved.chunkSize

/-! ### The range of a response -/

/-- `bytes <first>-<last>/<total>`. -/
def parseContentRange (headers : MediaHeaders) : Option (UInt64 × UInt64 × UInt64) := do
  let value ← headers.contentRange
  let trimmed := Chars.trim value.toList
  if startsWith "bytes ".toList trimmed = false then none
  else do
    let (span, total) ← Chars.splitOnce ['/'] (trimmed.drop "bytes ".length)
    let (first, last) ← Chars.splitOnce ['-'] span
    some (← parseU64 first, ← parseU64 last, ← parseU64 total)

def saturatingAdd (a b : UInt64) : UInt64 :=
  if 2 ^ 64 ≤ a.toNat + b.toNat then UInt64.ofNat (2 ^ 64 - 1) else a + b

def byteRange (first last : UInt64) : RangeRequest := .single first (some last)

/-! ### Times -/

/-- Nanoseconds of a clock that only moves on. -/
def seconds (n : ℕ) : ℕ := n * 1000000000

def cacheTtl : ℕ := seconds 600
def cacheCapacity : ℕ := 64
def hlsHeadersCapacity : ℕ := 256
def expiryMarginSeconds : ℤ := 30
def refusalGrace : ℕ := seconds 60

/-- The difference of two 64-bit integers. One that does not fit panics where the build
checks for it and wraps around where it does not. -/
def subI64 (overflowChecks : Bool) (a b : ℤ) : Option ℤ :=
  if -2 ^ 63 ≤ a - b ∧ a - b < 2 ^ 63 then some (a - b)
  else if overflowChecks then none
  else some (Int.bmod (a - b) (2 ^ 64))

/-- When the URL says it expires, in Unix seconds. -/
def expiresOf (urls : UrlLibrary) (url : String) : Option ℤ :=
  match urls.parse url with
  | .error _ => none
  | .ok parsed =>
    (parsed.queryPairs.find? fun pair => pair.1 = "expire" ∨ pair.1 = "expires").bind
      fun pair => parseI64 pair.2.toList

/-- Ten minutes, or less when the `expire` parameter of the URL says so. Nothing where the
calculation panics. -/
def cacheLifetime (urls : UrlLibrary) (overflowChecks : Bool) (url : String) (now : ℤ) :
    Option ℕ :=
  match expiresOf urls url with
  | none => some cacheTtl
  | some expires => do
    let untilThen ← subI64 overflowChecks expires now
    let left ← subI64 overflowChecks untilThen expiryMarginSeconds
    pure (min cacheTtl (seconds left.toNat))

/-! ### The state -/

/-- A search result as the client gets it. -/
structure ExternalTrack where
  id : String
  title : String
  artistName : Option String
  webpageUrl : Option String
  extractor : String
  hasArtwork : Bool

structure CacheEntry where
  resolved : Resolved
  /-- When it is stale. -/
  staleAt : ℕ
  resolvedAt : ℕ

/-- How far the task of a resolution is. -/
inductive Stage
  | queued
  | running
  | finished (result : Except ExternalError Resolved)
  /-- Whoever waits for it goes on. -/
  | settled (result : Except ExternalError Resolved)

structure Resolution where
  id : String
  track : TrackRef
  stage : Stage

/-- One search result that was returned, with what its id was signed for. -/
structure Found where
  item : SearchItem
  ref : TrackRef
  track : ExternalTrack

/-- One request that was handed to the fetcher. -/
structure Fetch where
  id : String
  url : Url
  range : RangeRequest
  headers : RequestHeaders
  sentAt : ℤ

/-- The request that an answer came for, and the URL it came from. -/
structure Answer where
  fetch : Fetch
  final : Url

/-- A playlist that was read whole and rewritten. -/
structure Playlist where
  id : String
  readAt : ℤ
  base : Url
  text : List Char
  linked : List String

structure World where
  /-- Unix seconds. -/
  now : ℤ
  instant : ℕ
  cache : Table String CacheEntry
  inFlight : Table String ℕ
  nextResolution : ℕ
  resolutions : Table ℕ Resolution
  hlsHeaders : Table String (RequestHeaders × ℕ)
  -- The logs.
  found : List Found
  runs : List (List String)
  resolved : List (String × String)
  fetches : List Fetch
  answers : List Answer
  playlists : List Playlist

def World.new (now : ℤ) (instant : ℕ) : World where
  now := now
  instant := instant
  cache := ∅
  inFlight := ∅
  nextResolution := 0
  resolutions := ∅
  hlsHeaders := ∅
  found := []
  runs := []
  resolved := []
  fetches := []
  answers := []
  playlists := []

/-- What the External Source takes from its libraries and its build. -/
structure Libraries where
  /-- Whether the build checks integer arithmetic for overflow. -/
  overflowChecks : Bool
  urls : UrlLibrary
  fromStr : String → Option Value
  tracks : PayloadFormat TrackRef
  claims : PayloadFormat ResourceClaims
  sha256 : List UInt8 → List UInt8
  toUppercase : List Char → List Char

structure ExternalSource where
  /-- Nothing while the External Source is not configured. -/
  searchPrefix : Option String
  extractorArgs : List String
  tracks : TokenSigner
  resources : ResourceSigner

namespace World

/-! ### Resolved URLs by id -/

def cached (w : World) (id : String) : Option Resolved :=
  ((w.cache.lookup id).filter (w.instant < ·.staleAt)).map (·.resolved)

/-- The request headers the Track resolved with, also when its URL is stale. -/
def cachedHeaders (w : World) (id : String) : RequestHeaders :=
  ((w.cache.lookup id).map (·.resolved.headers)).getD []

/-- The key whose row ends first. -/
def oldest {ρ : Type} (endsAt : ρ → ℕ) (rows : Table String ρ) : Option String :=
  (List.argmin (fun e => endsAt e.2) rows.entries).map (·.1)

def insertResolved (w : World) (id : String) (resolved : Resolved) (lifetime : ℕ) : World :=
  let kept := w.cache.filter fun _ entry => w.instant < entry.staleAt
  let room := if cacheCapacity ≤ kept.size then
      match oldest CacheEntry.staleAt kept with
      | some key => kept.erase key
      | none => kept
    else kept
  { w with cache := room.insert id ⟨resolved, w.instant + lifetime, w.instant⟩ }

/-- Drops the Track's URL after the site refused it, unless it is fresh. -/
def forgetRefused (w : World) (id : String) : World :=
  match w.cache.lookup id with
  | none => w
  | some entry =>
    if refusalGrace ≤ w.instant - entry.resolvedAt then { w with cache := w.cache.erase id } else w

/-! ### Headers of HLS Tracks -/

def keepHeaders (w : World) (id : String) (headers : RequestHeaders) : World :=
  let kept := w.hlsHeaders.filter fun _ entry => w.instant < entry.2
  let room := if id ∉ kept ∧ hlsHeadersCapacity ≤ kept.size then
      match oldest Prod.snd kept with
      | some key => kept.erase key
      | none => kept
    else kept
  { w with
    hlsHeaders := room.insert id (headers, w.instant + seconds hlsResourceTokenTtlSeconds.toNat) }

def headersOf (w : World) (id : String) : RequestHeaders :=
  match (w.hlsHeaders.lookup id).filter (w.instant < ·.2) with
  | some entry => entry.1
  | none => w.cachedHeaders id

/-! ### Resolutions -/

/-- The resolution running for the id, starting one if none is. -/
def resolution (w : World) (id : String) (track : TrackRef) : ℕ × World :=
  match w.inFlight.lookup id with
  | some existing => (existing, w)
  | none => (w.nextResolution,
      { w with
        inFlight := w.inFlight.insert id w.nextResolution
        resolutions := w.resolutions.insert w.nextResolution ⟨id, track, .queued⟩
        nextResolution := w.nextResolution + 1 })

def setStage (w : World) (n : ℕ) (stage : Stage) : World :=
  { w with resolutions := w.resolutions.modify n fun resolution => { resolution with stage } }

/-- Hands the request to the fetcher. -/
def send (w : World) (id : String) (url : Url) (headers : RequestHeaders)
    (range : RangeRequest) : Fetch × World :=
  let fetch : Fetch := { id, url, range, headers, sentAt := w.now }
  (fetch, { w with fetches := fetch :: w.fetches })

end World

/-! ### Steps of a request -/

/-- What a step of a request may be given from outside. -/
inductive Reply
  | none
  /-- yt-dlp is started. -/
  | started
  | output (result : Except ExternalError (List UInt8))
  | fetched (result : Except String Fetched)

abbrev Program := Thread World Reply ExternalError

/-- A step that may fail. -/
def attempt {α : Type} (run : World → Except ExternalError α × World) : Program α := do
  let result ← Thread.step run
  Thread.ofExcept result

/-- The answer to a request. -/
def receive (sent : Fetch) : Program (Except String Fetched) :=
  Thread.atomically fun w reply =>
    match reply with
    | .fetched (.ok response) =>
      some (.ok response, { w with answers := ⟨sent, response.url⟩ :: w.answers })
    | .fetched (.error error) => some (.error error, w)
    | _ => none

/-- The client's error names the URL; only its cause is kept. -/
def causeOf (error : String) : String :=
  match Chars.splitOnce "\": ".toList error.toList with
  | some (_, cause) => String.ofList cause
  | none => "request failed"

def readBody (tooLarge broken : ExternalError) (limit : ℕ) (read : List UInt8) :
    ByteStream → Except ExternalError (List UInt8)
  | [] => .ok read
  | .error _ :: _ => .error broken
  | .ok chunk :: rest =>
    if limit < (read ++ chunk).length then .error tooLarge
    else readBody tooLarge broken limit (read ++ chunk) rest

def maxHlsPlaylistBytes : ℕ := 1048576

def isHlsContent (contentType : Option String) (url : Url) : Bool :=
  let essence := String.ofList
    ((Chars.trim ((contentType.getD "").toList.takeWhile (· ≠ ';'))).map Char.toLower)
  essence ∈ ["application/vnd.apple.mpegurl", "application/x-mpegurl", "audio/mpegurl",
    "audio/x-mpegurl"] || ".m3u8".toList.isSuffixOf (url.path.toLower.toList)

def tracksPath : String := "/api/v1/external/tracks"

def streamPath (id : String) : String := s!"{tracksPath}/{id}/stream"

def playlistPath (id : String) : String := s!"{tracksPath}/{id}/playlist.m3u8"

def resourcePath (id resource : String) : String := s!"{tracksPath}/{id}/resources/{resource}"

structure Playback where
  format : PlaybackFormat
  streamPath : String

structure SearchResults where
  source : String
  items : List ExternalTrack

structure Artwork where
  mediaType : String
  data : List UInt8

/-- What an HLS resource turned out to be. -/
inductive Resource
  | playlist (text : List Char)
  | media (media : Media)

namespace ExternalSource

variable (source : ExternalSource) (lib : Libraries)

def ensureEnabled : Except ExternalError String :=
  match source.searchPrefix with
  | some searchPrefix => .ok searchPrefix
  | none => .error .disabled

def verifyId (id : String) : Except ExternalError TrackRef :=
  (source.tracks.verify lib.tracks lib.urls id).mapError .badRequest

/-! ### Search -/

def maxQueryChars : ℕ := 200

def foundAs (item : SearchItem) (ref : TrackRef) (id : String) (hasArtwork : Bool) : Found where
  item := item
  ref := ref
  track :=
    { id, title := item.title, artistName := item.artistName
      webpageUrl := some item.webpageUrl, extractor := item.extractor, hasArtwork }

/-- The result for an item. An id too long with its artwork is issued without it. -/
def issue (item : SearchItem) : Option Found :=
  let track := TrackRef.new item.webpageUrl item.extractor
  let withArtwork := { track with artworkUrl := item.artworkUrl }
  match source.tracks.sign lib.tracks withArtwork with
  | some id => some (foundAs item withArtwork id item.artworkUrl.isSome)
  | none => (source.tracks.sign lib.tracks track).map fun id => foundAs item track id false

/-- The request that yt-dlp run, or why it could not. -/
def startRun (args : List String) : Program (Except ExternalError Unit) :=
  Thread.atomically fun w reply =>
    match reply with
    | .started => some (.ok (), { w with runs := args :: w.runs })
    | .output (.error error) => some (.error error, w)
    | _ => none

/-- What yt-dlp printed. -/
def awaitOutput : Program (Except ExternalError (List UInt8)) :=
  Thread.atomically fun w reply =>
    match reply with
    | .output result => some (result, w)
    | _ => none

/-- The results, in the answer and in the log. -/
def issueAll (searchPrefix : String) (items : List SearchItem) (w : World) :
    SearchResults × World :=
  let issued := items.filterMap (source.issue lib)
  (⟨searchPrefix, issued.map (·.track)⟩, { w with found := issued ++ w.found })

def search (query : String) (limit : ℕ) : Program SearchResults := do
  let searchPrefix ← Thread.ofExcept source.ensureEnabled
  let wanted := Chars.trim (query.toList.filter fun c => !Chars.isControl c)
  if wanted = [] ∨ maxQueryChars < wanted.length then
    Thread.fail (.badRequest s!"q must be 1 to {maxQueryChars} characters")
  else if limit < 1 ∨ maxSearchResults < limit then
    Thread.fail (.badRequest s!"limit must be between 1 and {maxSearchResults}")
  else do
    let started ←
      startRun (searchArgs searchPrefix (String.ofList wanted) limit source.extractorArgs)
    Thread.ofExcept started
    let printed ← awaitOutput
    let output ← Thread.ofExcept printed
    let items ← Thread.ofExcept (parseSearch lib.urls lib.fromStr output limit)
    Thread.step (source.issueAll lib searchPrefix items)

/-! ### Resolving -/

/-- Waits until the resolution's task is over. -/
def awaitResolution (n : ℕ) : Program (Except ExternalError Resolved) :=
  Thread.atomically fun w _ =>
    match w.resolutions.lookup n with
    | some ⟨_, _, .settled result⟩ => some (result, w)
    | _ => none

/-- The Track's resolved audio. -/
def resolve (id : String) : Program Resolved := do
  let _ ← Thread.ofExcept source.ensureEnabled
  let track ← Thread.ofExcept (source.verifyId lib id)
  let cached ← Thread.step fun w => (w.cached id, w)
  match cached with
  | some resolved => pure resolved
  | none => do
    let n ← Thread.step (·.resolution id track)
    let result ← awaitResolution n
    Thread.ofExcept result

/-! ### Fetching -/

/-- Checks the URL and hands the request to the fetcher. -/
def sendChecked (id url : String) (headers : RequestHeaders) (range : RangeRequest) (w : World) :
    Except ExternalError Fetch × World :=
  match validateStreamUrl lib.urls url with
  | .error error => (.error (.failed error), w)
  | .ok () =>
    match lib.urls.parse url with
    | .error error => (.error (.failed error.message), w)
    | .ok parsed =>
      let (fetch, w') := w.send id parsed headers range
      (.ok fetch, w')

/-- The answer, when it is a good one. -/
def answered (sent : Fetch) : Program Fetched := do
  let answer ← receive sent
  match answer with
  | .error error =>
    Thread.fail (.failed s!"the External Track's stream failed: {causeOf error}")
  | .ok response =>
    if (200 ≤ response.status ∧ response.status ≤ 299) ∨ response.status = 416 then
      pure response
    else do
      if response.status ∈ [401, 403, 404, 410] then
        Thread.step fun w => ((), w.forgetRefused sent.id)
      else pure ()
      Thread.fail (.failed s!"the External Track's stream answered {response.status}")

/-- GETs a public HTTP(S) URL. A refused, expired or missing URL is forgotten, so the
next request resolves the Track again. -/
def fetch (id url : String) (headers : RequestHeaders) (range : RangeRequest) :
    Program Fetched := do
  let sent ← attempt (sendChecked lib id url headers range)
  answered sent

/-! ### Streams -/

/-- The body that ends a stream early. -/
def endedEarly (message : String) : ByteStream := [.error message]

/-- The later chunks, as many of them as the client reads. -/
def laterChunks (id : String) (url : Url) (headers : RequestHeaders) (chunkSize last : UInt64) :
    ℕ → UInt64 → Program ByteStream
  | 0, _ => pure []
  | reads + 1, next =>
    if last < next then pure []
    else do
      let chunkLast := min (saturatingAdd next (chunkSize - 1)) last
      let sent ← Thread.step (·.send id url headers (byteRange next chunkLast))
      let answer ← receive sent
      match answer with
      | .error _ => do
        let rest ← laterChunks id url headers chunkSize last reads (UInt64.ofNat (2 ^ 64 - 1))
        pure (endedEarly "the External Track's stream failed" ++ rest)
      | .ok response =>
        if response.status = 206 ∧
            (parseContentRange response.headers).any
              (fun span => span.1 = next ∧ span.2.1 = chunkLast) = true then do
          let rest ←
            laterChunks id url headers chunkSize last reads (saturatingAdd chunkLast 1)
          pure (response.body ++ rest)
        else do
          let rest ← laterChunks id url headers chunkSize last reads (UInt64.ofNat (2 ^ 64 - 1))
          pure (endedEarly
            s!"the External Track's stream answered {response.status} for a later chunk" ++ rest)

/-- Serves a span as one response from upstream ranges of the chunk size, fetched one
after another as the client reads. -/
def fetchInChunks (id : String) (resolved : Resolved) (chunkSize start : UInt64)
    (wantedLast : Option UInt64) (ranged head : Bool) (reads : ℕ) : Program Media := do
  let chunkLast := if head then start else saturatingAdd start (chunkSize - 1)
  let first ← fetch lib id resolved.url resolved.headers
    (byteRange start ((wantedLast.map (min · chunkLast)).getD chunkLast))
  match (parseContentRange first.headers).filter fun _ => first.status = 206 with
  | none => pure (Media.ofFetched first)
  | some (_, servedLast, total) => do
    Thread.ofExcept ((validateStreamUrl lib.urls first.url.text).mapError .failed)
    let fileLast := if total = 0 then 0 else total - 1
    let last := (wantedLast.map (min · fileLast)).getD fileLast
    let headers :=
      { first.headers with
        contentLength := some (toString (last + 1 - start))
        acceptRanges := some "bytes"
        contentRange := if ranged then some s!"bytes {start}-{last}/{total}" else none }
    let status := if ranged then MediaStatus.partialContent else .full
    if head then pure { status, headers, body := [] }
    else do
      let rest ←
        laterChunks id first.url resolved.headers chunkSize last reads (servedLast + 1)
      pure { status, headers, body := first.body ++ rest }

/-- The whole span that is asked for, when it is a single one. -/
def requestedSpan : RangeRequest → Option (UInt64 × Option UInt64)
  | .whole => some (0, none)
  | .single start last => some (start, last)
  | .other _ => none

/-- A progressive Track's audio. -/
def openStream (id : String) (range : RangeRequest) (head : Bool) (reads : ℕ) :
    Program Media := do
  let resolved ← source.resolve lib id
  if resolved.format ≠ .progressive then
    Thread.fail (.unplayable "the External Track plays as HLS; use its playlist")
  else
    match resolved.chunkSize, requestedSpan range with
    | some chunkSize, some (start, last) =>
      fetchInChunks lib id resolved chunkSize start last (range ≠ .whole) head reads
    | _, _ => do
      let response ← fetch lib id resolved.url resolved.headers range
      pure (Media.ofFetched response)

/-- How a client plays the Track. -/
def playback (id : String) : Program Playback := do
  let resolved ← source.resolve lib id
  pure
    { format := resolved.format
      streamPath := if resolved.format = .progressive then streamPath id else playlistPath id }

/-! ### Playlists -/

def rewriteFailure : RewriteError → ExternalError
  | .drm => .unplayable RewriteError.drm.message
  | .invalid message => .failed message
  | .panicked => .panicked

/-- Signs every URI of the playlist as a resource of the Track. -/
def signPlaylist (id : String) (headers : RequestHeaders) (base : Url) (text : List Char)
    (w : World) : Except ExternalError (List Char) × World :=
  let link (url : String) : String :=
    resourcePath id (source.resources.sign lib.claims w.now (fingerprint lib.sha256 id) url)
  match rewritePlaylistWith lib.urls base link lib.toUppercase text with
  | .error error => (.error (rewriteFailure error), w)
  | .ok (rewritten, linked) =>
    let kept := w.keepHeaders id headers
    (.ok rewritten,
      { kept with playlists := { id, readAt := w.now, base, text, linked } :: kept.playlists })

def rewrite (id : String) (headers : RequestHeaders) (response : Fetched) :
    Program (List Char) := do
  if ¬(200 ≤ response.status ∧ response.status < 300) then
    Thread.fail (.failed s!"the External Track's playlist answered {response.status}")
  else do
    let bytes ← Thread.ofExcept (readBody (.failed "HLS playlist exceeds size limit")
      (.failed "failed to read the HLS playlist") maxHlsPlaylistBytes [] response.body)
    attempt (source.signPlaylist lib id headers response.url (Chars.fromUtf8Lossy bytes))

/-- The HLS playlist of an HLS Track. -/
def playlist (id : String) : Program (List Char) := do
  let resolved ← source.resolve lib id
  if resolved.format ≠ .hls then
    Thread.fail (.unplayable "the External Track plays progressively; use its stream")
  else do
    let response ← fetch lib id resolved.url resolved.headers .whole
    source.rewrite lib id resolved.headers response

/-- Checks the id and the token and hands the resource's request to the fetcher. -/
def sendResource (id token : String) (range : RangeRequest) (w : World) :
    Except ExternalError Fetch × World :=
  match source.ensureEnabled, source.verifyId lib id with
  | .error error, _ => (.error error, w)
  | .ok _, .error error => (.error error, w)
  | .ok _, .ok _ =>
    match source.resources.verify lib.claims lib.urls w.now token (fingerprint lib.sha256 id) with
    | .error error => (.error (.badRequest error), w)
    | .ok url => sendChecked lib id url (w.headersOf id) range w

/-- One URI of a rewritten playlist. -/
def resource (id token : String) (range : RangeRequest) : Program Resource := do
  let sent ← attempt (source.sendResource lib id token range)
  let response ← answered sent
  if isHlsContent response.headers.contentType response.url then do
    let text ← source.rewrite lib id sent.headers response
    pure (.playlist text)
  else pure (.media (Media.ofFetched response))

/-! ### Artwork -/

def artworkMaxBytes : ℕ := 2097152

def artworkMediaTypes : List String := ["image/jpeg", "image/png", "image/webp"]

def sendArtwork (id url : String) (w : World) : Except ExternalError Fetch × World :=
  if isArtworkUrl lib.urls url = false then (.error (.failed "unsafe artwork URL"), w)
  else
    match lib.urls.parse url with
    | .error error => (.error (.failed error.message), w)
    | .ok parsed =>
      let (fetch, w') :=
        w.send id parsed [("accept", "image/jpeg, image/png, image/webp")] .whole
      (.ok fetch, w')

/-- The allowed media type that the answer names. -/
def artworkMediaType (headers : MediaHeaders) : Option String :=
  headers.contentType.bind fun value =>
    artworkMediaTypes.find? fun allowed =>
      allowed.toList = (Chars.trim (value.toList.takeWhile (· ≠ ';'))).map Char.toLower

def tooLargeArtwork : ExternalError := .failed "the External Track's artwork exceeds 2 MiB"

def readArtwork (response : Fetched) : Except ExternalError Artwork :=
  if response.status ≠ 200 then
    .error (.failed s!"the External Track's artwork answered {response.status}")
  else
    match artworkMediaType response.headers with
    | none => .error (.failed "the External Track's artwork is not an image")
    | some mediaType =>
      if (response.headers.contentLength.bind fun value => parseU64 value.toList).any
          (fun length => artworkMaxBytes < length.toNat) = true then
        .error tooLargeArtwork
      else
        (readBody tooLargeArtwork (.failed "failed to read the External Track's artwork")
          artworkMaxBytes [] response.body).map fun data => ⟨mediaType, data⟩

/-- The cover the search chose for the Track. -/
def artwork (id : String) : Program Artwork := do
  let _ ← Thread.ofExcept source.ensureEnabled
  let track ← Thread.ofExcept (source.verifyId lib id)
  match track.artworkUrl with
  | none => Thread.fail .artworkMissing
  | some url => do
    let sent ← attempt (sendArtwork lib id url)
    let answer ← receive sent
    match answer with
    | .error error =>
      Thread.fail (.failed s!"the External Track's artwork failed: {causeOf error}")
    | .ok response => Thread.ofExcept (readArtwork response)

end ExternalSource

/-! ### The server -/

inductive Request
  | search (query : String) (limit : ℕ)
  | playback (id : String)
  /-- The client reads as many later chunks. -/
  | stream (id : String) (range : RangeRequest) (head : Bool) (reads : ℕ)
  | playlist (id : String)
  | resource (id token : String) (range : RangeRequest)
  | artwork (id : String)

inductive Response
  | results (results : SearchResults)
  | playback (playback : Playback)
  | media (media : Media)
  | playlist (text : List Char)
  | resource (resource : Resource)
  | artwork (artwork : Artwork)

/-- What moves without a request. -/
inductive Outside
  /-- The clocks go on, and the wall clock may be set. -/
  | clock (now : ℤ) (passed : ℕ)
  | run (n : ℕ)
  | finish (n : ℕ) (output : Except ExternalError (List UInt8))
  | settle (n : ℕ)
  /-- The task ends without a result. -/
  | stop (n : ℕ) (error : String)

namespace World

variable (source : ExternalSource) (lib : Libraries)

/-- The payloads of the ids that were issued. -/
def trackPayloads (w : World) : List (List Char) :=
  w.found.map fun found => TokenSigner.payload lib.tracks found.ref

/-- What the token of a link says. -/
def claimsOf (playlist : Playlist) (url : String) : ResourceClaims :=
  ⟨fingerprint lib.sha256 playlist.id, url, playlist.readAt + hlsResourceTokenTtlSeconds⟩

def resourcePayloads (w : World) : List (List Char) :=
  w.playlists.flatMap fun playlist =>
    playlist.linked.map fun url => ResourceSigner.payload lib.claims (claimsOf lib playlist url)

/-- The task of a resolution keeps what yt-dlp found. Nothing where it panics. -/
def storeResult (w : World) (id : String) :
    Except ExternalError Resolved → Option World
  | .error _ => some w
  | .ok resolved =>
    (cacheLifetime lib.urls lib.overflowChecks resolved.url w.now).map fun lifetime =>
      let stored := w.insertResolved id resolved lifetime
      { stored with resolved := (id, resolved.url) :: stored.resolved }

/-- The result of a run, from what it printed. -/
def resultOf (output : Except ExternalError (List UInt8)) : Except ExternalError Resolved :=
  output.bind fun printed =>
    (parseResolved lib.urls lib.fromStr printed).map Resolved.ofFormat

def move (w : World) : Outside → Option World
  | .clock now passed => some { w with now, instant := w.instant + passed }
  | .run n =>
    match w.resolutions.lookup n with
    | some ⟨_, track, .queued⟩ =>
      let args := resolveArgs track.url track.extractor source.extractorArgs
      some { w.setStage n .running with runs := args :: w.runs }
    | _ => none
  | .finish n output =>
    match w.resolutions.lookup n with
    | some ⟨id, _, .running⟩ =>
      let result := resultOf lib output
      (w.storeResult lib id result).map (·.setStage n (.finished result))
    | some ⟨_, _, .queued⟩ =>
      match output with
      | .error error => some (w.setStage n (.finished (.error error)))
      | .ok _ => none
    | _ => none
  | .settle n =>
    match w.resolutions.lookup n with
    | some ⟨id, _, .finished result⟩ =>
      some { w.setStage n (.settled result) with inFlight := w.inFlight.erase id }
    | _ => none
  | .stop n error =>
    match w.resolutions.lookup n with
    | some ⟨_, _, .queued⟩ | some ⟨_, _, .running⟩ | some ⟨_, _, .finished _⟩ =>
      some (w.setStage n
        (.settled (.error (.failed s!"External Track resolution stopped: {error}"))))
    | _ => none

/-- A tag that is right on a text the client sends is one that this process gave. -/
def notForged (w : World) : Request → Bool
  | .search _ _ => true
  | .playback id | .stream id _ _ _ | .playlist id | .artwork id =>
    Genuine source.tracks.mac (w.trackPayloads lib) id
  | .resource id token _ =>
    Genuine source.tracks.mac (w.trackPayloads lib) id &&
      Genuine source.resources.mac (w.resourcePayloads lib) token

end World

def ExternalSource.handle (source : ExternalSource) (lib : Libraries) :
    Request → Program Response
  | .search query limit => Response.results <$> source.search lib query limit
  | .playback id => Response.playback <$> source.playback lib id
  | .stream id range head reads => Response.media <$> source.openStream lib id range head reads
  | .playlist id => Response.playlist <$> source.playlist lib id
  | .resource id token range => Response.resource <$> source.resource lib id token range
  | .artwork id => Response.artwork <$> source.artwork lib id

/-- The source's server, under clients that cannot forge tags. -/
def server (source : ExternalSource) (lib : Libraries) :
    Thread.Server World Reply ExternalError Response Request Outside where
  program := source.handle lib
  accepts request w := w.notForged source lib request
  outside event w := w.move source lib event

end Harmony.External
