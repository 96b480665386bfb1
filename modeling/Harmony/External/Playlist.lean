/-
# Rewriting HLS playlists

Every URI of a playlist, on a line of its own or in an attribute, is resolved against
the playlist's address, checked, and replaced by a link of this server.
-/

import Harmony.External.Url
import Harmony.Library.Traversal

namespace Harmony.External

inductive RewriteError
  | drm
  | invalid (message : String)
  /-- A slice of a line is outside it. -/
  | panicked
  deriving DecidableEq

def RewriteError.message : RewriteError → String
  | drm => "DRM-protected HLS is unsupported"
  | invalid message => message
  | panicked => "byte index is not a char boundary"

def startsWith (pattern line : List Char) : Bool := pattern.isPrefixOf line

def contains (pattern line : List Char) : Bool := (Chars.splitOnce pattern line).isSome

/-- Whether the key is one of DRM. The place of the format is found in the line in
upper case and looked up in the line itself, where it may be outside. -/
def hasUnsupportedProtection (toUppercase : List Char → List Char) (line : List Char) :
    Option Bool :=
  let upper := toUppercase line
  if !startsWith "#EXT-X-KEY:".toList upper && !startsWith "#EXT-X-SESSION-KEY:".toList upper then
    some false
  else if contains "METHOD=SAMPLE-AES".toList upper then some true
  else
    match Chars.findByte "KEYFORMAT=".toList upper with
    | none => some false
    | some index =>
      (Chars.dropBytes (index + "KEYFORMAT=".length) line).map fun rest =>
        let keyFormat :=
          Chars.trimMatches (fun c => c == '"' || c == ' ') (rest.takeWhile (· ≠ ','))
        keyFormat.map Char.toLower ≠ "identity".toList

/-! ### Rewriting -/

/-- A rewritten text and the URLs that links were made for. -/
abbrev Rewritten := List Char × List String

def uriMarker : List Char := "URI=\"".toList

section Rewrite

variable (urls : UrlLibrary) (base : Url) (link : String → String)

/-- The link for a reference. -/
def proxy (reference : List Char) : Except RewriteError Rewritten :=
  match urls.join base (String.ofList reference) with
  | .error error => .error (.invalid s!"invalid HLS playlist URL: {error.message}")
  | .ok resolved =>
    match validateStreamUrl urls resolved.text with
    | .error error => .error (.invalid s!"invalid HLS playlist URL: {error}")
    | .ok () => .ok ((link resolved.text).toList, [resolved.text])

/-- The line with the URI of each attribute replaced. Each turn takes more than one
character of the line, so the fuel is never used up. -/
def rewriteUriAttributes : ℕ → List Char → Except RewriteError Rewritten
  | 0, line => .ok (line, [])
  | fuel + 1, line =>
    match Chars.splitOnce uriMarker line with
    | none => .ok (line, [])
    | some (before, after) =>
      match Chars.splitOnce ['"'] after with
      | none => .error (.invalid "invalid HLS playlist: unterminated URI attribute")
      | some (reference, rest) =>
        match proxy urls base link reference with
        | .error error => .error error
        | .ok (text, linked) =>
          match rewriteUriAttributes fuel rest with
          | .error error => .error error
          | .ok (tail, more) =>
            .ok (before ++ uriMarker ++ text ++ '"' :: tail, linked ++ more)

def rewriteLine (toUppercase : List Char → List Char) (line : List Char) :
    Except RewriteError Rewritten :=
  if startsWith ['#'] line then
    match hasUnsupportedProtection toUppercase line with
    | none => .error .panicked
    | some true => .error .drm
    | some false => rewriteUriAttributes urls base link line.length line
  else if Chars.trim line = [] then .ok (line, [])
  else proxy urls base link (Chars.trim line)

def linesOf (playlist : List Char) : List (List Char) := playlist.splitOnP (· == '\n')

def rewritePlaylistWith (toUppercase : List Char → List Char) (playlist : List Char) :
    Except RewriteError Rewritten :=
  if startsWith "#EXTM3U".toList (Chars.trim playlist) = false then
    .error (.invalid "invalid HLS playlist: missing EXTM3U header")
  else
    ((linesOf playlist).mapM (rewriteLine urls base link toUppercase)).map fun lines =>
      (List.intercalate ['\n'] (lines.map (·.1)), lines.flatMap (·.2))

/-! ### What links are made for -/

/-- The line names the reference: it is all of the line or the value of an attribute. -/
def NamedIn (reference line : List Char) : Prop :=
  Chars.trim line = reference ∨
    ∃ before after, line = before ++ uriMarker ++ reference ++ '"' :: after

/-- The URL stands in a playlist that came from the address. -/
def Listed (playlist : List Char) (url : String) : Prop :=
  ∃ line ∈ linesOf playlist, ∃ reference resolved, NamedIn reference line ∧
    urls.join base (String.ofList reference) = .ok resolved ∧ resolved.text = url

variable {urls base link} {out : Rewritten}

theorem proxy_ok {reference : List Char} (h : proxy urls base link reference = .ok out) :
    ∀ url ∈ out.2, ∃ resolved, urls.join base (String.ofList reference) = .ok resolved ∧
      resolved.text = url := by
  intro url hurl
  rw [proxy] at h
  cases hjoin : urls.join base (String.ofList reference) with
  | error error => simp [hjoin] at h
  | ok resolved =>
    simp only [hjoin] at h
    cases hvalid : validateStreamUrl urls resolved.text with
    | error error => simp [hvalid] at h
    | ok _ =>
      simp only [hvalid] at h
      cases h
      exact ⟨resolved, rfl, (List.mem_singleton.mp hurl).symm⟩

/-- An accepted line names nothing, or goes on behind a reference that was accepted. -/
theorem rewriteUriAttributes_succ {fuel : ℕ} {line : List Char}
    (h : rewriteUriAttributes urls base link (fuel + 1) line = .ok out) :
    (Chars.splitOnce uriMarker line = none ∧ out = (line, [])) ∨
      ∃ before after reference rest made tail,
        Chars.splitOnce uriMarker line = some (before, after) ∧
        Chars.splitOnce ['"'] after = some (reference, rest) ∧
        proxy urls base link reference = .ok made ∧
        rewriteUriAttributes urls base link fuel rest = .ok tail ∧
        out = (before ++ uriMarker ++ made.1 ++ '"' :: tail.1, made.2 ++ tail.2) := by
  rw [rewriteUriAttributes] at h
  cases hmarker : Chars.splitOnce uriMarker line with
  | none =>
    simp only [hmarker] at h
    exact .inl ⟨rfl, (Except.ok.inj h).symm⟩
  | some parts =>
    simp only [hmarker] at h
    cases hquote : Chars.splitOnce ['"'] parts.2 with
    | none => simp [hquote] at h
    | some halves =>
      simp only [hquote] at h
      cases hproxy : proxy urls base link halves.1 with
      | error error => simp [hproxy] at h
      | ok made =>
        simp only [hproxy] at h
        cases htail : rewriteUriAttributes urls base link fuel halves.2 with
        | error error => simp [htail] at h
        | ok tail =>
          simp only [htail] at h
          exact .inr ⟨_, _, _, _, made, tail, rfl, hquote, hproxy, htail, (Except.ok.inj h).symm⟩

/-- The text between the marker and the next quote is an attribute's value. -/
theorem rewriteUriAttributes_ok {fuel : ℕ} {line : List Char}
    (h : rewriteUriAttributes urls base link fuel line = .ok out) :
    ∀ url ∈ out.2, ∃ reference resolved,
      (∃ before after, line = before ++ uriMarker ++ reference ++ '"' :: after) ∧
        urls.join base (String.ofList reference) = .ok resolved ∧ resolved.text = url := by
  induction fuel generalizing line out with
  | zero =>
    cases h
    simp
  | succ fuel ih =>
    rcases rewriteUriAttributes_succ h with
      ⟨-, rfl⟩ | ⟨before, after, reference, rest, made, tail, hmarker, hquote, hproxy, hrest, rfl⟩
    · simp
    · have hline : line = before ++ uriMarker ++ (reference ++ '"' :: rest) := by
        rw [Chars.eq_of_splitOnce hmarker, Chars.eq_of_splitOnce hquote]
        simp
      intro url hurl
      rcases List.mem_append.mp hurl with hurl | hurl
      · obtain ⟨resolved, hjoin, htext⟩ := proxy_ok hproxy url hurl
        exact ⟨reference, resolved, ⟨before, rest, by simp [hline]⟩, hjoin, htext⟩
      · obtain ⟨later, resolved, ⟨start, tail', htail⟩, hresolved⟩ := ih hrest url hurl
        refine ⟨later, resolved,
          ⟨before ++ uriMarker ++ reference ++ '"' :: start, tail', ?_⟩, hresolved⟩
        rw [hline, htail]
        simp

theorem rewriteLine_ok {toUppercase : List Char → List Char} {line : List Char}
    (h : rewriteLine urls base link toUppercase line = .ok out) :
    ∀ url ∈ out.2, ∃ reference resolved, NamedIn reference line ∧
      urls.join base (String.ofList reference) = .ok resolved ∧ resolved.text = url := by
  intro url hurl
  rw [rewriteLine] at h
  split_ifs at h with hhash hblank
  · cases hdrm : hasUnsupportedProtection toUppercase line with
    | none => simp [hdrm] at h
    | some refused =>
      cases refused with
      | true => simp [hdrm] at h
      | false =>
        simp only [hdrm] at h
        obtain ⟨reference, resolved, hvalue, hresolved⟩ := rewriteUriAttributes_ok h url hurl
        exact ⟨reference, resolved, Or.inr hvalue, hresolved⟩
  · cases h
    simp at hurl
  · obtain ⟨resolved, hresolved⟩ := proxy_ok h url hurl
    exact ⟨Chars.trim line, resolved, Or.inl rfl, hresolved⟩

/-- Links are made only for URLs that stand in the playlist. -/
theorem rewritePlaylistWith_listed {toUppercase : List Char → List Char} {playlist : List Char}
    (h : rewritePlaylistWith urls base link toUppercase playlist = .ok out) :
    ∀ url ∈ out.2, Listed urls base playlist url := by
  intro url hurl
  rw [rewritePlaylistWith] at h
  split_ifs at h with hheader
  cases hlines : (linesOf playlist).mapM (rewriteLine urls base link toUppercase) with
  | error error => simp [hlines, Except.map] at h
  | ok lines =>
    rw [hlines] at h
    cases h
    obtain ⟨row, hrow, hmem⟩ := List.mem_flatMap.mp hurl
    obtain ⟨line, hline, hrewritten⟩ := Traversal.exists_input_of_mapM hlines row hrow
    obtain ⟨reference, resolved, hnamed, hresolved⟩ := rewriteLine_ok hrewritten url hmem
    exact ⟨line, hline, reference, resolved, hnamed, hresolved⟩

end Rewrite

end Harmony.External
