/-
# The links of the Music Server, seen from the desktop

The rewritten playlists of a station, of a catalog preview and of an External Track
hold links of three forms. Each names a media path, no part of reading a URL changes
it, and a request for it under the proxy's token is forwarded as the link itself.
-/

import Harmony.MediaProxy.Proxy
import Harmony.External.Service

namespace Harmony.MediaProxy

open External

/-! ### Plain paths -/

/-- The characters of a path segment that stand for themselves or begin an escape. -/
def isPathCharacter (c : Char) : Bool :=
  c.isAlphanum || "-._~%!$&'()*+,;=:@".toList.contains c

/-- The segments that are not names but steps: `.` and `..`, escaped or not. -/
def dotSegments : List String := [".", "%2e", "..", ".%2e", "%2e.", "%2e%2e"]

/-- A segment that a URL keeps as it is. -/
structure Segment where
  text : List Char
  nonempty : text ≠ []
  plain : text.all isPathCharacter = true
  proper : String.ofList (text.map Char.toLower) ∉ dotSegments

def pathOf (names : List Segment) : List Char := names.flatMap fun name => '/' :: name.text

/-- The text of a request target. -/
def targetText (path : List Char) : Option (List Char) → List Char
  | some query => path ++ '?' :: query
  | none => path

/-- A query that a URL keeps as it is. -/
def isPlainQuery (query : Option (List Char)) : Bool := query.all (·.all isPathCharacter)

/-- What the two libraries make of a plain path and a plain query: nothing is changed,
and there is no fragment. -/
structure UrlCrates.Lawful (crates : UrlCrates) : Prop where
  parse : ∀ names query, names ≠ [] → isPlainQuery query = true →
    crates.parse ("http://desktop.invalid".toList ++ targetText (pathOf names) query) =
      some ⟨pathOf names, none⟩
  target : ∀ names query, names ≠ [] → isPlainQuery query = true →
    crates.target (targetText (pathOf names) query) = some ⟨pathOf names, query⟩

theorem Segment.slash_notMem (name : Segment) : '/' ∉ name.text := by
  intro hmem
  have hplain := List.all_eq_true.mp name.plain '/' hmem
  exact absurd hplain (by decide)

theorem splitOn_pathOf (names : List Segment) :
    (pathOf names).splitOn '/' = [] :: names.map (·.text) := by
  have hjoin : pathOf names = ['/'].intercalate ([] :: names.map (·.text)) := by
    induction names with
    | nil => rfl
    | cons name names ih =>
      rw [pathOf, List.flatMap_cons, ← pathOf, ih, List.map_cons, List.intercalate_cons_cons]
      cases names with
      | nil => simp
      | cons next names => simp [List.intercalate_cons_cons]
  rw [hjoin]
  refine List.splitOn_intercalate '/' ?_ (List.cons_ne_nil _ _)
  intro part hpart
  rcases List.mem_cons.mp hpart with rfl | hpart
  · exact List.not_mem_nil
  · obtain ⟨name, -, rfl⟩ := List.mem_map.mp hpart
    exact name.slash_notMem

theorem segments_pathOf (names : List Segment) :
    segments (pathOf names) = "" :: names.map fun name => String.ofList name.text := by
  rw [segments, splitOn_pathOf, List.map_cons, List.map_map]
  rfl

/-! ### Signed tokens are segments -/

theorem length_le_length_encode (bytes : List UInt8) :
    bytes.length ≤ (Base64.encode bytes).length := by
  induction bytes using Base64.encode.induct with
  | case1 => exact Nat.le_refl _
  | case2 a => exact Nat.le_succ 1
  | case3 a b => exact Nat.le_succ 2
  | case4 a b c rest ih =>
    rw [Base64.encode]
    simp only [List.length_cons]
    omega

theorem isPathCharacter_of_isIdCharacter {c : Char} (h : isIdCharacter c = true) :
    isPathCharacter c = true := by
  rw [isIdCharacter] at h
  rw [isPathCharacter]
  simp only [Bool.or_eq_true, beq_iff_eq] at h ⊢
  rcases h with ((h | rfl) | rfl) | rfl
  · exact .inl h
  · exact .inr (by decide)
  · exact .inr (by decide)
  · exact .inr (by decide)

/-- A text that is longer than every dot segment and has the characters of an id. -/
def Segment.ofId (text : List Char) (hlength : 6 < text.length)
    (hplain : text.all isIdCharacter = true) : Segment where
  text := text
  nonempty := List.length_pos_iff.mp (by omega)
  plain := by
    rw [List.all_eq_true] at hplain ⊢
    exact fun c hc => isPathCharacter_of_isIdCharacter (hplain c hc)
  proper := by
    intro hmem
    have hshort : ∀ name ∈ dotSegments, name.toList.length ≤ 6 := by decide
    have hle := hshort _ hmem
    rw [String.toList_ofList, List.length_map] at hle
    omega

/-- A segment that is written in the source. -/
def Segment.literal (name : String) (hname : name.toList ≠ [] ∧
    name.toList.all isPathCharacter = true ∧
      String.ofList (name.toList.map Char.toLower) ∉ dotSegments) : Segment where
  text := name.toList
  nonempty := hname.1
  plain := hname.2.1
  proper := hname.2.2

/-! ### The links -/

/-- What the playlist belongs to. -/
inductive Stream
  | station (stationId : Segment)
  | preview (stationUuid : Segment)
  | external (externalTrackId : Segment)

namespace Stream

/-- The path under which the playlist of a station or of a preview was asked for. -/
def proxyPath (kind : String) (id : Segment) : String :=
  s!"/api/v1/radio/{kind}/{String.ofList id.text}/stream"

/-- The link that `rewrite_playlist` makes, or the one for an External Track. -/
def link (resource : String) : Stream → String
  | station id => proxyPath "stations" id ++ "?resource=" ++ resource
  | preview id => proxyPath "preview" id ++ "?resource=" ++ resource
  | external id => resourcePath (String.ofList id.text) resource

def api : List Segment := [.literal "api" (by decide), .literal "v1" (by decide)]

def radioPath (kind id : Segment) : List Segment :=
  api ++ [.literal "radio" (by decide), kind, id, .literal "stream" (by decide)]

/-- The segments of a link's path. -/
def path (resource : Segment) : Stream → List Segment
  | station id => radioPath (.literal "stations" (by decide)) id
  | preview id => radioPath (.literal "preview" (by decide)) id
  | external id =>
    api ++ [.literal "external" (by decide), .literal "tracks" (by decide), id,
      .literal "resources" (by decide), resource]

def query (resource : Segment) : Stream → Option (List Char)
  | station _ | preview _ => some ("resource=".toList ++ resource.text)
  | external _ => none

variable (stream : Stream) (resource : Segment) (kind id : Segment)

theorem toList_link : (stream.link (String.ofList resource.text)).toList =
    targetText (pathOf (stream.path resource)) (stream.query resource) := by
  have hproxy (kind : String) (id : Segment) : proxyPath kind id =
      s!"/api/v1/radio/{kind}/{String.ofList id.text}/stream" := rfl
  cases stream with
  | station id =>
    simp [link, hproxy, targetText, path, query, radioPath, api, pathOf, Segment.literal, toString]
  | preview id =>
    simp [link, hproxy, targetText, path, query, radioPath, api, pathOf, Segment.literal, toString]
  | external id =>
    simp [link, resourcePath, tracksPath, targetText, path, query, api, pathOf, Segment.literal,
      toString]

theorem isPlainQuery_query : isPlainQuery (stream.query resource) = true := by
  have hparameter : "resource=".toList.all isPathCharacter = true := by decide
  cases stream with
  | station id =>
    rw [query, isPlainQuery, Option.all_some, List.all_append, hparameter, resource.plain]
    rfl
  | preview id =>
    rw [query, isPlainQuery, Option.all_some, List.all_append, hparameter, resource.plain]
    rfl
  | external id => rfl

theorem path_ne_nil : stream.path resource ≠ [] := by
  cases stream with
  | station id => exact List.cons_ne_nil _ _
  | preview id => exact List.cons_ne_nil _ _
  | external id => exact List.cons_ne_nil _ _

theorem pathOf_radioPath : pathOf (radioPath kind id) =
    ("/api/v1/radio/".toList ++ kind.text ++ ['/']) ++ (id.text ++ "/stream".toList) := by
  simp [radioPath, api, pathOf, Segment.literal]

theorem startsWith_pathOf_radioPath :
    startsWith ("/api/v1/radio/".toList ++ kind.text ++ ['/']) (pathOf (radioPath kind id)) =
      true := by
  rw [pathOf_radioPath, startsWith, List.isPrefixOf_iff_prefix]
  exact List.prefix_append _ _

theorem endsWith_pathOf_radioPath :
    endsWith "/stream".toList (pathOf (radioPath kind id)) = true := by
  rw [pathOf_radioPath, endsWith, List.isSuffixOf_iff_suffix, ← List.append_assoc]
  exact List.suffix_append _ _

/-- A link leads to media that the proxy serves. -/
theorem isMediaPath_path : isMediaPath (pathOf (stream.path resource)) = true := by
  cases stream with
  | station id =>
    have hstart := startsWith_pathOf_radioPath (.literal "stations" (by decide)) id
    have hend := endsWith_pathOf_radioPath (.literal "stations" (by decide)) id
    rw [isMediaPath, path, hend, show "/api/v1/radio/stations/".toList =
      "/api/v1/radio/".toList ++ "stations".toList ++ ['/'] from rfl]
    simp only [Segment.literal] at hstart ⊢
    rw [hstart]
    simp
  | preview id =>
    have hstart := startsWith_pathOf_radioPath (.literal "preview" (by decide)) id
    have hend := endsWith_pathOf_radioPath (.literal "preview" (by decide)) id
    rw [isMediaPath, path, hend, show "/api/v1/radio/preview/".toList =
      "/api/v1/radio/".toList ++ "preview".toList ++ ['/'] from rfl]
    simp only [Segment.literal] at hstart ⊢
    rw [hstart]
    simp
  | external id =>
    have hsegments : segments (pathOf (path resource (external id))) =
        ["", "api", "v1", "external", "tracks", String.ofList id.text, "resources",
          String.ofList resource.text] := by
      rw [segments_pathOf]
      simp [path, api, Segment.literal]
    have hexternal : isExternalTrackPath (pathOf (path resource (external id))) = true := by
      rw [isExternalTrackPath, hsegments]
      simp [id.nonempty, resource.nonempty]
    rw [isMediaPath, hexternal]
    simp

end Stream

/-! ### What the proxy makes of a link -/

theorem isPrefixOf?_append (front rest : List Char) :
    front.isPrefixOf? (front ++ rest) = some rest := by
  induction front with
  | nil => rfl
  | cons c front ih =>
    rw [List.cons_append, List.isPrefixOf?, if_pos (beq_self_eq_true c), ih]

section Proxy

variable {crates : UrlCrates} (stream : Stream) (resource : Segment)

/-- The proxy accepts a link in a playlist. -/
theorem rewriteHlsUri_link (hlawful : crates.Lawful) (token : List Char) :
    rewriteHlsUri crates token (stream.link (String.ofList resource.text)).toList =
      .ok ('/' :: token ++ (stream.link (String.ofList resource.text)).toList) := by
  have hparse := hlawful.parse (stream.path resource) (stream.query resource)
    (stream.path_ne_nil resource) (stream.isPlainQuery_query resource)
  have hslash : startsWith ['/']
      (targetText (pathOf (stream.path resource)) (stream.query resource)) = true := by
    cases stream with
    | station id => rfl
    | preview id => rfl
    | external id => rfl
  rw [stream.toList_link, rewriteHlsUri, hparse]
  simp only
  rw [hslash, stream.isMediaPath_path]
  rfl

/-- A request for what the proxy has written is forwarded as the link. -/
theorem proxyRelativeUrl_link (hlawful : crates.Lawful) (token : Segment) : ∃ uri,
    crates.target ('/' :: token.text ++ (stream.link (String.ofList resource.text)).toList) =
        some uri ∧
      proxyRelativeUrl uri token.text =
        .ok (stream.link (String.ofList resource.text)).toList := by
  have htarget := hlawful.target (token :: stream.path resource) (stream.query resource)
    (List.cons_ne_nil _ _) (stream.isPlainQuery_query resource)
  have hpath : pathOf (token :: stream.path resource) =
      '/' :: token.text ++ pathOf (stream.path resource) := by
    rw [pathOf, List.flatMap_cons, ← pathOf]
  have htext : '/' :: token.text ++ (stream.link (String.ofList resource.text)).toList =
      targetText (pathOf (token :: stream.path resource)) (stream.query resource) := by
    rw [stream.toList_link, hpath]
    cases stream.query resource with
    | none => rfl
    | some query => simp [targetText]
  refine ⟨_, htext ▸ htarget, ?_⟩
  rw [proxyRelativeUrl, hpath, isPrefixOf?_append]
  simp only
  rw [stream.isMediaPath_path, stream.toList_link]
  cases stream.query resource with
  | none => rfl
  | some query => rfl

end Proxy

end Harmony.MediaProxy
