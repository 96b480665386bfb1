/-
# What yt-dlp is asked and what it prints

yt-dlp gets a list of arguments, with the query or the page after `--`. Of what it
prints, only pages on public web addresses with an extractor of their own are search
results, and only public HTTPS images are covers.
-/

import Mathlib.Data.List.MinMax
import Harmony.External.Tokens

namespace Harmony.External

inductive ExternalError
  | disabled
  | badRequest (message : String)
  /-- No audio this server can play. -/
  | unplayable (message : String)
  | artworkMissing
  | failed (message : String)
  | unavailable (message : String)
  | timeout (message : String)
  /-- The request's task panicked. -/
  | panicked

/-! ### JSON values -/

inductive Value
  | null
  | bool (value : Bool)
  /-- A number, and what it is as an unsigned integer. -/
  | number (unsigned : Option UInt64)
  | string (value : String)
  | array (items : List Value)
  | object (fields : List (String × Value))

namespace Value

def get (key : String) : Value → Option Value
  | object fields => (fields.find? (·.1 = key)).map (·.2)
  | _ => none

def isObject : Value → Bool
  | object _ => true
  | _ => false

def asBool : Value → Option Bool
  | bool value => some value
  | _ => none

def asStr : Value → Option String
  | string value => some value
  | _ => none

def asU64 : Value → Option UInt64
  | number unsigned => unsigned
  | _ => none

def asArray : Value → Option (List Value)
  | array items => some items
  | _ => none

def asObject : Value → Option (List (String × Value))
  | object fields => some fields
  | _ => none

/-- The trimmed text of a field, when there is some. -/
def text (value : Value) (key : String) : Option String :=
  (((value.get key).bind asStr).map fun text => String.ofList (Chars.trim text.toList)).filter
    (· ≠ "")

end Value

/-! ### Arguments -/

def formatSelector : String :=
  "bestaudio[protocol^=http][protocol!*=dash]/bestaudio[protocol*=m3u8]/best[vcodec=none]"

def maxSearchResults : ℕ := 20

/-- The operator's extractor arguments, each after its own flag. -/
def extractorArgsFlags (extractorArgs : List String) : List String :=
  extractorArgs.flatMap fun item => ["--extractor-args", item]

def searchArgs (searchPrefix query : String) (limit : ℕ) (extractorArgs : List String) :
    List String :=
  ["--ignore-config", "--no-warnings", "--flat-playlist", "--dump-json", "--socket-timeout", "15"]
    ++ extractorArgsFlags extractorArgs ++ ["--", s!"{searchPrefix}{limit}:{query}"]

def resolveArgs (url extractor : String) (extractorArgs : List String) : List String :=
  ["--ignore-config", "--no-warnings", "--no-playlist", "--dump-json", "--use-extractors",
    extractor, "-f", formatSelector] ++ extractorArgsFlags extractorArgs ++ ["--", url]

/-! ### What it prints -/

/-- One search result as yt-dlp listed it. -/
structure SearchItem where
  webpageUrl : String
  extractor : String
  title : String
  artistName : Option String
  artworkUrl : Option String

/-- The audio yt-dlp chose for a page. -/
structure ResolvedFormat where
  url : String
  hls : Bool
  headers : List (String × String)
  chunkSize : Option UInt64

/-- A smaller `http_chunk_size` would only multiply upstream requests. -/
def minChunkSizeBytes : UInt64 := 262144

def artworkMinWidth : UInt64 := 300

def artworkMaxWidth : UInt64 := 1280

def artworkUrlMaxChars : ℕ := 1024

section Parse

variable (urls : UrlLibrary) (fromStr : String → Option Value)

def jsonLine (line : List Char) : Except ExternalError Value :=
  match fromStr (String.ofList line) with
  | some value =>
    if value.isObject then .ok value else .error (.failed "yt-dlp printed output that is not JSON")
  | none => .error (.failed "yt-dlp printed output that is not JSON")

def jsonLines (output : List UInt8) : Except ExternalError (List Value) :=
  ((Chars.lines (Chars.fromUtf8Lossy output)).filter fun line => !(Chars.trim line).isEmpty).mapM
    (jsonLine fromStr)

/-- A cover that may be signed into an id. -/
def isUsableArtwork (url : String) : Bool :=
  url.utf8ByteSize ≤ artworkUrlMaxChars && isArtworkUrl urls url

/-- A thumbnail with its width. -/
def artworkCandidate (thumbnail : Value) : Option (String × Option UInt64) :=
  ((thumbnail.text "url").filter (isUsableArtwork urls)).map fun url =>
    (url, ((thumbnail.get "width").bind Value.asU64).filter (0 < ·))

def artworkCandidates (entry : Value) : List (String × Option UInt64) :=
  (((entry.get "thumbnails").bind Value.asArray).getD []).filterMap (artworkCandidate urls)

/-- One cover image for a search result: among sized ones the narrowest from 300 to
1280 px, else the widest below; without sizes the `thumbnail`, else the last one. -/
def pickArtwork (entry : Value) : Option String :=
  let candidates := artworkCandidates urls entry
  let sized := candidates.filterMap fun candidate => candidate.2.map fun width =>
    (candidate.1, width)
  let wide := sized.filter fun image =>
    artworkMinWidth ≤ image.2 && image.2 ≤ artworkMaxWidth
  let narrow := sized.filter fun image => image.2 < artworkMinWidth
  ((List.argmin (·.2.toNat) wide).map (·.1)).or <|
    -- Of several widest ones the last.
    ((List.argmax (·.2.toNat) narrow.reverse).map (·.1)).or <|
    ((entry.text "thumbnail").filter (isUsableArtwork urls)).or <|
    (candidates.reverse.find? (·.2.isNone)).map (·.1)

/-- A result that yt-dlp could resolve again safely. -/
def searchItem (entry : Value) : Option SearchItem :=
  match (entry.text "ie_key").or (entry.text "extractor_key") with
  | none => none
  | some extractor =>
    if !isExtractorKey extractor ∨ extractor.toLower = "generic" then none
    else
      match (entry.text "webpage_url").or (entry.text "url") with
      | none => none
      | some webpageUrl =>
        match validateStreamUrl urls webpageUrl with
        | .error _ => none
        | .ok () => some
          { webpageUrl, extractor
            title := (entry.text "title").getD webpageUrl
            artistName := ["artist", "uploader", "channel"].findSome? entry.text
            artworkUrl := pickArtwork urls entry }

def parseSearch (output : List UInt8) (limit : ℕ) : Except ExternalError (List SearchItem) :=
  (jsonLines fromStr output).map fun entries => (entries.filterMap (searchItem urls)).take limit

/-- The entry of the chosen format in `formats`. -/
def chosenFormat (entry : Value) : Option Value :=
  (entry.text "format_id").bind fun id =>
    ((entry.get "formats").bind Value.asArray).bind fun formats =>
      formats.find? fun format => format.text "format_id" = some id

def httpChunkSize (value : Value) : Option UInt64 :=
  (((value.get "downloader_options").bind (·.get "http_chunk_size")).bind Value.asU64).filter
    (0 < ·)

def httpHeaders (entry : Value) : List (String × String) :=
  (((entry.get "http_headers").bind Value.asObject).getD []).filterMap fun header =>
    header.2.asStr.map fun value => (header.1, value)

/-- The `--dump-json` of one page after a format was chosen. -/
def parseResolved (output : List UInt8) : Except ExternalError ResolvedFormat :=
  match jsonLines fromStr output with
  | .error error => .error error
  | .ok [] => .error (.failed "yt-dlp printed no External Track")
  | .ok [entry] =>
    if (entry.get "is_live").bind Value.asBool = some true ∨
        entry.text "live_status" = some "is_live" ∨
        entry.text "live_status" = some "is_upcoming" then
      .error (.unplayable "live External Tracks cannot be played")
    else if (entry.get "has_drm").bind Value.asBool = some true then
      .error (.unplayable "the External Track is DRM-protected")
    else if entry.text "acodec" = some "none" then
      .error (.unplayable "the External Track has no audio")
    else
      match (entry.text "url").filter (isWebUrl urls) with
      | none => .error (.unplayable "the External Track has no HTTP audio")
      | some url =>
        let chunkSize :=
          ((httpChunkSize entry).or ((chosenFormat entry).bind httpChunkSize)).map
            (max minChunkSizeBytes)
        match entry.text "protocol" with
        | some "http" | some "https" =>
          .ok { url, hls := false, headers := httpHeaders entry, chunkSize }
        | some "m3u8" | some "m3u8_native" =>
          .ok { url, hls := true, headers := httpHeaders entry, chunkSize }
        | _ => .error (.unplayable "the External Track's audio uses an unsupported protocol")
  | .ok _ => .error (.unplayable "the External Track is a playlist, not one track")

variable {urls fromStr}

/-! ### What is let through -/

/-- A search result can be resolved again: its id will be accepted. -/
def SearchItem.IsSafe (urls : UrlLibrary) (item : SearchItem) : Prop :=
  isExtractorKey item.extractor = true ∧
    (validateStreamUrl urls item.webpageUrl).isOk = true ∧
    ∀ url, item.artworkUrl = some url → isArtworkUrl urls url = true

theorem isArtworkUrl_of_usable {url : String} (h : isUsableArtwork urls url = true) :
    isArtworkUrl urls url = true := by
  rw [isUsableArtwork, Bool.and_eq_true] at h
  exact h.2

theorem usable_of_mem_candidates {entry : Value} {candidate : String × Option UInt64}
    (h : candidate ∈ artworkCandidates urls entry) : isUsableArtwork urls candidate.1 = true := by
  rw [artworkCandidates, List.mem_filterMap] at h
  obtain ⟨thumbnail, -, hcandidate⟩ := h
  rw [artworkCandidate, Option.map_eq_some_iff] at hcandidate
  obtain ⟨url, hurl, rfl⟩ := hcandidate
  exact (Option.filter_eq_some_iff.mp hurl).2

/-- The cover comes from the checked thumbnails. -/
theorem usable_of_pickArtwork {entry : Value} {url : String}
    (h : pickArtwork urls entry = some url) : isUsableArtwork urls url = true := by
  have hsized : ∀ image ∈ (artworkCandidates urls entry).filterMap (fun candidate =>
      candidate.2.map fun width => (candidate.1, width)), isUsableArtwork urls image.1 = true := by
    intro image himage
    obtain ⟨candidate, hcandidate, heq⟩ := List.mem_filterMap.mp himage
    obtain ⟨width, -, rfl⟩ := Option.map_eq_some_iff.mp heq
    exact usable_of_mem_candidates hcandidate
  rw [pickArtwork] at h
  rw [Option.or_eq_some_iff, Option.or_eq_some_iff, Option.or_eq_some_iff] at h
  rcases h with h | ⟨-, h | ⟨-, h | ⟨-, h⟩⟩⟩
  · obtain ⟨image, himage, rfl⟩ := Option.map_eq_some_iff.mp h
    exact hsized image (List.mem_of_mem_filter (List.argmin_mem himage))
  · obtain ⟨image, himage, rfl⟩ := Option.map_eq_some_iff.mp h
    have hmem := List.argmax_mem himage
    rw [List.mem_reverse] at hmem
    exact hsized image (List.mem_of_mem_filter hmem)
  · exact (Option.filter_eq_some_iff.mp h).2
  · obtain ⟨candidate, hcandidate, rfl⟩ := Option.map_eq_some_iff.mp h
    exact usable_of_mem_candidates (List.mem_reverse.mp (List.mem_of_find?_eq_some hcandidate))

theorem searchItem_safe {entry : Value} {item : SearchItem}
    (h : searchItem urls entry = some item) :
    item.IsSafe urls := by
  rw [searchItem] at h
  cases hkey : (entry.text "ie_key").or (entry.text "extractor_key") with
  | none => simp [hkey] at h
  | some extractor =>
    simp only [hkey] at h
    split_ifs at h with hgeneric
    cases hpage : (entry.text "webpage_url").or (entry.text "url") with
    | none => simp [hpage] at h
    | some webpageUrl =>
      simp only [hpage] at h
      cases hvalid : validateStreamUrl urls webpageUrl with
      | error error => simp [hvalid] at h
      | ok checked =>
        simp only [hvalid] at h
        cases h
        refine ⟨?_, ?_, fun url hurl => ?_⟩
        · by_contra hnot
          exact hgeneric (Or.inl (by simpa using hnot))
        · dsimp only
          rw [hvalid]
          rfl
        · exact isArtworkUrl_of_usable (usable_of_pickArtwork hurl)

theorem parseSearch_safe {output : List UInt8} {limit : ℕ} {items : List SearchItem}
    (h : parseSearch urls fromStr output limit = .ok items) : ∀ item ∈ items, item.IsSafe urls := by
  intro item hitem
  rw [parseSearch] at h
  cases hlines : jsonLines fromStr output with
  | error error => simp [hlines, Except.map] at h
  | ok entries =>
    rw [hlines] at h
    cases h
    obtain ⟨entry, -, hentry⟩ := List.mem_filterMap.mp (List.mem_of_mem_take hitem)
    exact searchItem_safe hentry

end Parse

end Harmony.External
