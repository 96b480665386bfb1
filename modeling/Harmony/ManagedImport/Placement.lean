/-
# Where Managed Storage puts a file

The paths of a commit and of a Track Replacement. A Track lies in the directory of
its Album, which lies in that of its Album Artist; its name carries its id. Beside
the canonical files a Track Replacement uses two kinds of hidden names, one for
files that are about to become canonical and one for those that were.

The names that one plan uses are different, since the id in them is a UUID. Later
proofs use the plan only through `ReplacementPaths`.
-/

import Mathlib.Data.List.Infix
import Mathlib.Data.List.TakeWhile
import Harmony.ManagedImport.ReplacementData

namespace Harmony.ManagedImport

/-! ### Names -/

/-- `MAX_SLUG_BYTES`. -/
def maxSlugBytes : ℕ := 80

/-- `CANONICAL_LIBRARY_ROOT`. -/
def canonicalLibraryRoot : String := "library"

/-- `STAGING`. -/
def staging : String := ".staging"

/-- The lower case of a character as far as it is ASCII, and a hyphen otherwise. Two
letters beyond ASCII have a lower case in it. -/
def lowerAscii (c : Char) : Char :=
  if c.val < 128 then c.toLower
  else if c.val = 0x212a then 'k'
  else if c.val = 0x130 then 'i'
  else '-'

/-- Each run of characters outside `a-z0-9` becomes one hyphen. -/
def replaceSeparators : Bool → List Char → List Char
  | _, [] => []
  | inRun, c :: cs =>
    if ('a' ≤ c ∧ c ≤ 'z') ∨ ('0' ≤ c ∧ c ≤ '9') then c :: replaceSeparators false cs
    else if inRun then replaceSeparators true cs
    else '-' :: replaceSeparators true cs

def trimHyphens (cs : List Char) : List Char :=
  ((cs.dropWhile (· = '-')).reverse.dropWhile (· = '-')).reverse

/-- Lower-case ASCII words joined by hyphens, at most 80 bytes. -/
def slug (value : String) : String :=
  let words := trimHyphens (replaceSeparators false (value.toList.map lowerAscii))
  let bounded :=
    if maxSlugBytes < words.length then trimHyphens (words.take maxSlugBytes) else words
  if bounded = [] then "untitled" else String.ofList bounded

/-- The format `02` of a number. -/
def pad2 (n : ℤ) : String := if 0 ≤ n ∧ n < 10 then "0" ++ toString n else toString n

def sourceExtension (format : String) : Except Error String :=
  if format = "flac" then .ok ".flac"
  else if format = "wav" then .ok ".wav"
  else if format = "m4a" then .ok ".m4a"
  else if format = "mp3" then .ok ".mp3"
  else if format = "ogg" then .ok ".ogg"
  else if format = "opus" then .ok ".opus"
  else .error (.invalid ⟨"unsupported_format", "format", ""⟩
    s!"validated Source Audio Format \"{format}\" has no canonical extension")

def artworkExtension (mediaType : String) : String :=
  if mediaType = "image/jpeg" then ".jpg"
  else if mediaType = "image/webp" then ".webp"
  else ".png"

def base (path : RelativePath) : String := path.getLastD ""

/-- The last dot of a name and what follows it. -/
def pathExtension (path : RelativePath) : String :=
  let name := (base path).toList
  if '.' ∈ name then String.ofList ('.' :: (name.reverse.takeWhile (· ≠ '.')).reverse) else ""

/-! ### Plans -/

section Plans

variable (inspection : MediaInspection) (identity : CommitIdentity)

def albumDirectory : Except Error RelativePath :=
  match inspection.metadata.albumArtists.head? with
  | none => .error (.new "index out of bounds")
  | some albumArtist => .ok [canonicalLibraryRoot,
      slug albumArtist ++ "-" ++ identity.albumArtistId,
      slug inspection.metadata.album ++ "-" ++ identity.albumId]

/-- The album directory of an existing canonical Album. -/
def existingCanonicalAlbum : Except Error RelativePath :=
  let artwork := identity.existingArtworkPath
  let isCanonical : Bool := match artwork.dropLast with
    | [root, artist, album] =>
      root = canonicalLibraryRoot ∧ ("-" ++ identity.albumArtistId).toList <:+ artist.toList ∧
        ("-" ++ identity.albumId).toList <:+ album.toList ∧
        "cover.".toList <+: (base artwork).toList
    | _ => false
  if isCanonical then .ok artwork.dropLast
  else .error (.wrap .unsafeStoragePath "existing Album Artwork path is not canonical")

def audioFilename (extension : String) : String :=
  pad2 inspection.metadata.discPosition.number ++
    ("-" ++ pad2 inspection.metadata.trackPosition.number ++ "-" ++
      slug inspection.metadata.title ++
      "-" ++ identity.trackId ++ extension)

def coverFilename : String := "cover" ++ artworkExtension inspection.albumArtwork.mimeType

def planPlacementInAlbum (staged album artwork : RelativePath) : Except Error PlacedFiles :=
  (sourceExtension inspection.audio.format).map fun extension =>
    { audioPath := album ++ [audioFilename inspection identity extension]
      artworkPath := artwork
      stagedPath := staged
      artworkCreated := false }

/-- The artwork of a new Album, when the file carries one. -/
def newArtworkPath (album : RelativePath) : RelativePath :=
  if inspection.albumArtwork.sha256 = "" then [] else album ++ [coverFilename inspection]

def planPlacement (staged : RelativePath) : Except Error PlacedFiles := do
  let planned ← albumDirectory inspection identity
  if identity.existingArtworkPath = [] then
    planPlacementInAlbum inspection identity staged planned (newArtworkPath inspection planned)
  else
    let album ← existingCanonicalAlbum identity
    planPlacementInAlbum inspection identity staged album identity.existingArtworkPath

def albumArtworkConflict (reason : String) : Error :=
  .invalid ⟨"album_artwork_conflict", "artwork", reason⟩ reason

/-- The artwork of the Album that the replaced Track leaves empty. -/
def leftArtworkPath (target : Target) : RelativePath :=
  if identity.albumId ≠ target.row.albumId ∧ target.row.isSoleTrack then target.row.artworkPath
  else []

/-- The artwork paths of a Track Replacement, over those of its audio. -/
def planReplacementArtwork (target : Target) (album : RelativePath)
    (placement : ReplacementPlacement) : Except Error ReplacementPlacement :=
  let existing := identity.existingArtworkPath
  let isMovingAlbum : Bool := identity.albumId ≠ target.row.albumId
  let previousArtwork := leftArtworkPath identity target
  if existing = [] ∧ inspection.albumArtwork.sha256 = "" then
    .ok { placement with artworkMode := .none, artwork := [], previousArtwork := previousArtwork }
  else if existing = [] then
    .ok { placement with artworkMode := .create, previousArtwork := previousArtwork }
  else if identity.existingArtworkSha256 = inspection.albumArtwork.sha256 then
    .ok { placement with
      artworkMode := .existing
      artwork := existing
      previousArtwork := previousArtwork }
  else if isMovingAlbum ∨ !target.row.isSoleTrack then
    .error (albumArtworkConflict "embedded Album Artwork differs from the existing Album")
  else .ok { placement with
    artworkMode := .replace
    pendingArtwork := album ++
      [".replacement-" ++ ("cover" ++ artworkExtension inspection.albumArtwork.mimeType)]
    retiredArtwork := album ++ [".retired-" ++ ("cover" ++ pathExtension existing)]
    previousArtwork := existing }

/-- The paths of a Track Replacement before its artwork is planned. -/
def replacementAudio (staged album : RelativePath) (extension : String) (target : Target) :
    ReplacementPlacement where
  artworkMode := .none
  staged := staged
  pendingAudio := album ++ [".replacement-" ++ (identity.trackId ++ extension)]
  audio := album ++ [audioFilename inspection identity extension]
  previousAudio := target.relativePath
  retiredAudio := target.relativePath.dropLast ++
    [".retired-" ++ (identity.trackId ++ pathExtension target.relativePath)]
  pendingArtwork := []
  artwork := album ++ [coverFilename inspection]
  previousArtwork := []
  retiredArtwork := []
  artworkCreated := false

def replacementAlbum : Except Error RelativePath :=
  if identity.existingArtworkPath = [] then albumDirectory inspection identity
  else existingCanonicalAlbum identity

def planReplacementPlacement (staged : RelativePath) (target : Target) :
    Except Error ReplacementPlacement := do
  let album ← replacementAlbum inspection identity
  let extension ← sourceExtension inspection.audio.format
  planReplacementArtwork inspection identity target album
    (replacementAudio inspection identity staged album extension target)

end Plans

/-! ### Kinds of paths -/

/-- A version 4 UUID, as far as names depend on it. -/
def IsUuid (id : String) : Prop := id.length = 36 ∧ '.' ∉ id.toList

instance (id : String) : Decidable (IsUuid id) := inferInstanceAs (Decidable (_ ∧ _))

/-- What a path is for, read off its directory and its name. -/
inductive PathKind
  | staged
  | pendingAudio
  | pendingArtwork
  | retiredAudio
  | retiredArtwork
  | cover
  | track
  deriving DecidableEq

/-- A name without its extensions. -/
def stem (name : List Char) : List Char := name.takeWhile (· ≠ '.')

def kindOf (path : RelativePath) : PathKind :=
  let name := (base path).toList
  if path.head? = some staging then .staged
  else if ".replacement-".toList <+: name then
    if stem (name.drop 13) = "cover".toList then .pendingArtwork else .pendingAudio
  else if ".retired-".toList <+: name then
    if stem (name.drop 9) = "cover".toList then .retiredArtwork else .retiredAudio
  else if stem name = "cover".toList then .cover
  else .track

/-- An extension: nothing, or a dot and what follows. -/
def IsExtension (e : String) : Prop := e.toList = [] ∨ e.toList.head? = some '.'

theorem isExtension_pathExtension (path : RelativePath) : IsExtension (pathExtension path) := by
  simp only [pathExtension, IsExtension]
  split_ifs
  · exact .inr (by simp)
  · exact .inl rfl

theorem isExtension_artworkExtension (mediaType : String) :
    IsExtension (artworkExtension mediaType) := by
  unfold artworkExtension IsExtension
  split_ifs <;> decide

theorem isExtension_sourceExtension {format extension : String}
    (h : sourceExtension format = .ok extension) : IsExtension extension := by
  unfold sourceExtension at h
  split_ifs at h <;> cases h <;> exact .inr (by decide)

/-- The part of a name before its extension can be read off it. -/
theorem stem_append {a e : String} (ha : '.' ∉ a.toList) (he : IsExtension e) :
    stem (a ++ e).toList = a.toList := by
  have hall : ∀ c ∈ a.toList, decide (c ≠ '.') = true := by
    intro c hc
    have hne : c ≠ '.' := by
      rintro rfl
      exact ha hc
    simpa using hne
  have hnil : e.toList.takeWhile (· ≠ '.') = [] := by
    rcases he with he | he
    · rw [he, List.takeWhile_nil]
    · cases hlist : e.toList with
      | nil => rfl
      | cons c cs =>
        obtain rfl : c = '.' := by simpa [hlist] using he
        simp
  rw [stem, String.toList_append, List.takeWhile_append_of_pos hall, hnil, List.append_nil]

theorem IsUuid.stem_ne {id e : String} (hid : IsUuid id) (he : IsExtension e) :
    stem (id ++ e).toList ≠ "cover".toList := by
  rw [stem_append hid.2 he]
  intro h
  have hlength := hid.1
  rw [String.toList_inj.mp h] at hlength
  exact absurd hlength (by decide)

variable {path : RelativePath}

section Kinds

variable {directory : RelativePath} {name : String}

theorem head_append (hdirectory : directory.head? = some canonicalLibraryRoot) :
    (directory ++ [name]).head? ≠ some staging := by
  cases directory with
  | nil => simp at hdirectory
  | cons first rest =>
    obtain rfl : first = canonicalLibraryRoot := by simpa using hdirectory
    simp [canonicalLibraryRoot, staging]

theorem base_append : base (directory ++ [name]) = name := by simp [base]

theorem kindOf_replacement (hdirectory : directory.head? = some canonicalLibraryRoot) :
    kindOf (directory ++ [".replacement-" ++ name]) =
      if stem name.toList = "cover".toList then .pendingArtwork else .pendingAudio := by
  have hpre : ".replacement-".toList <+: (".replacement-" ++ name).toList := by
    rw [String.toList_append]
    exact List.prefix_append _ _
  have hdrop : (".replacement-" ++ name).toList.drop 13 = name.toList := by
    rw [String.toList_append]
    exact List.drop_left' (by decide)
  simp only [kindOf, head_append hdirectory, base_append, hpre, hdrop, if_true, if_false]

theorem kindOf_retired (hdirectory : directory.head? = some canonicalLibraryRoot) :
    kindOf (directory ++ [".retired-" ++ name]) =
      if stem name.toList = "cover".toList then .retiredArtwork else .retiredAudio := by
  have hpre : ".retired-".toList <+: (".retired-" ++ name).toList := by
    rw [String.toList_append]
    exact List.prefix_append _ _
  have hnot : ¬".replacement-".toList <+: (".retired-" ++ name).toList := by
    rw [String.toList_append]
    rintro ⟨rest, h⟩
    have hthird : ∀ a b : List Char, a = b → a[3]? = b[3]? := fun a b h => h ▸ rfl
    exact absurd (hthird _ _ h) (by simp)
  have hdrop : (".retired-" ++ name).toList.drop 9 = name.toList := by
    rw [String.toList_append]
    exact List.drop_left' (by decide)
  simp only [kindOf, head_append hdirectory, base_append, hpre, hnot, hdrop, if_true, if_false]

/-- Visible names: those of covers, and those of Tracks. -/
theorem kindOf_visible (hhead : path.head? ≠ some staging)
    (hname : (base path).toList.head? ≠ some '.') :
    kindOf path = if stem (base path).toList = "cover".toList then .cover else .track := by
  have hnot : ∀ hidden : List Char, hidden.head? = some '.' → ¬hidden <+: (base path).toList := by
    rintro hidden hdot ⟨rest, h⟩
    refine hname ?_
    rw [← h, List.head?_append, hdot]
    rfl
  simp only [kindOf, hhead, hnot ".replacement-".toList (by decide),
    hnot ".retired-".toList (by decide), if_false]

end Kinds

/-! ### The name of a Track -/

/-- A name starts with a digit or a sign. -/
def StartsWithNumber (name : String) : Prop :=
  ∃ c cs, name.toList = c :: cs ∧ (c.isDigit = true ∨ c = '-')

theorem startsWithNumber_append {a : String} (ha : StartsWithNumber a) (b : String) :
    StartsWithNumber (a ++ b) := by
  obtain ⟨c, cs, hlist, hc⟩ := ha
  exact ⟨c, cs ++ b.toList, by rw [String.toList_append, hlist]; rfl, hc⟩

theorem startsWithNumber_pad2 (n : ℤ) : StartsWithNumber (pad2 n) := by
  have hnat : ∀ m : ℕ, StartsWithNumber (Nat.repr m) := by
    intro m
    have hdigits : (Nat.repr m).toList = Nat.toDigits 10 m := by simp [Nat.repr]
    cases hlist : Nat.toDigits 10 m with
    | nil => exact absurd hlist Nat.toDigits_ne_nil
    | cons c cs =>
      refine ⟨c, cs, hdigits.trans hlist, .inl ?_⟩
      exact Nat.isDigit_of_mem_toDigits (b := 10) (n := m) (by decide) (by decide)
        (hlist ▸ List.mem_cons_self)
  unfold pad2
  split_ifs
  · exact ⟨'0', (toString n).toList, by simp [String.toList_append], .inl (by decide)⟩
  · cases n with
    | ofNat m => exact hnat m
    | negSucc m => exact ⟨'-', (Nat.repr (m + 1)).toList, by simp [toString, Int.repr], .inr rfl⟩

theorem StartsWithNumber.kindOf_track (h : StartsWithNumber (base path))
    (hhead : path.head? ≠ some staging) : kindOf path = .track := by
  obtain ⟨c, cs, hlist, hc⟩ := h
  have hdot : c ≠ '.' := by
    rintro rfl
    exact absurd hc (by decide)
  have hcover : c ≠ 'c' := by
    rintro rfl
    exact absurd hc (by decide)
  rw [kindOf_visible hhead (by rw [hlist]; simpa using hdot), if_neg]
  intro hstem
  rw [hlist, stem, List.takeWhile_cons_of_pos (by simpa using hdot)] at hstem
  exact hcover (List.cons.inj hstem).1

/-- Where an import puts the file of a Track: the library, the Album Artist, the
Album, and a name that starts with the disc number. -/
structure IsTrackPath (path : RelativePath) : Prop where
  head : path.head? = some canonicalLibraryRoot
  length : path.length = 4
  name : StartsWithNumber (base path)

theorem IsTrackPath.head_ne (h : IsTrackPath path) :
    path.head? ≠ some staging := by
  rw [h.head]
  decide

theorem IsTrackPath.kindOf (h : IsTrackPath path) :
    kindOf path = .track :=
  h.name.kindOf_track h.head_ne

/-- A directory of an Album. -/
structure IsAlbumPath (album : RelativePath) : Prop where
  head : album.head? = some canonicalLibraryRoot
  length : album.length = 3

section Plans

variable {inspection : MediaInspection} {identity : CommitIdentity} {album staged : RelativePath}

theorem isAlbumPath_albumDirectory (h : albumDirectory inspection identity = .ok album) :
    IsAlbumPath album := by
  unfold albumDirectory at h
  split at h
  · cases h
  · cases h
    exact ⟨rfl, rfl⟩

/-- The directory of an existing Album lies where Albums lie, and its artwork is a
cover in it. -/
theorem existingCanonicalAlbum_eq_ok (h : existingCanonicalAlbum identity = .ok album) :
    IsAlbumPath album ∧ album = identity.existingArtworkPath.dropLast ∧
      kindOf identity.existingArtworkPath = .cover := by
  unfold existingCanonicalAlbum at h
  simp only at h
  split_ifs at h with hcanonical
  cases h
  split at hcanonical
  · next root artist title hparts =>
    simp only [decide_eq_true_eq] at hcanonical
    obtain ⟨rfl, -, -, hname⟩ := hcanonical
    refine ⟨⟨by rw [hparts]; rfl, by rw [hparts]; rfl⟩, rfl, ?_⟩
    have hhead : identity.existingArtworkPath.head? = some canonicalLibraryRoot := by
      cases hpath : identity.existingArtworkPath with
      | nil => simp [hpath] at hparts
      | cons first rest =>
        cases rest with
        | nil => simp [hpath] at hparts
        | cons second rest =>
          rw [hpath] at hparts
          simpa using (List.cons.inj hparts).1
    obtain ⟨rest, hrest⟩ := hname
    have hstem : stem (base identity.existingArtworkPath).toList = "cover".toList := by
      rw [← hrest]
      rfl
    rw [kindOf_visible (by rw [hhead]; decide) (by rw [← hrest]; simp), if_pos hstem]
  · cases hcanonical

theorem audioFilename_startsWithNumber (extension : String) :
    StartsWithNumber (audioFilename inspection identity extension) :=
  startsWithNumber_append (startsWithNumber_pad2 _) _

theorem IsAlbumPath.trackPath (h : IsAlbumPath album) (extension : String) :
    IsTrackPath (album ++ [audioFilename inspection identity extension]) where
  head := by rw [List.head?_append, h.head]; rfl
  length := by rw [List.length_append, h.length]; rfl
  name := by rw [base_append]; exact audioFilename_startsWithNumber extension

theorem IsAlbumPath.kindOf_cover (h : IsAlbumPath album) :
    kindOf (album ++ [coverFilename inspection]) = .cover := by
  have hstem : stem (coverFilename inspection).toList = "cover".toList :=
    stem_append (by decide) (isExtension_artworkExtension _)
  have hdot : (base (album ++ [coverFilename inspection])).toList.head? ≠ some '.' := by
    rw [base_append, coverFilename, String.toList_append]
    simp
  rw [kindOf_visible (head_append h.head) hdot, base_append, if_pos hstem]

end Plans

/-! ### The paths of a Track Replacement -/

/-- What later proofs use of a plan: where its paths lie, and that each is of the
kind of its role. -/
structure ReplacementPlan (placement : ReplacementPlacement) (directory : RelativePath) :
    Prop where
  album : IsAlbumPath directory
  staged : placement.staged.dropLast = [staging]
  pendingAudio : kindOf placement.pendingAudio = .pendingAudio
  audio : kindOf placement.audio = .track
  previousAudio : kindOf placement.previousAudio = .track
  retiredAudio : kindOf placement.retiredAudio = .retiredAudio
  pendingAudio_parent : placement.pendingAudio.dropLast = directory
  audio_parent : placement.audio.dropLast = directory
  retiredAudio_parent : placement.retiredAudio.dropLast = placement.previousAudio.dropLast
  previousAudio_length : placement.previousAudio.length = 4
  artwork : placement.artworkMode ≠ .none →
    kindOf placement.artwork = .cover ∧ placement.artwork.dropLast = directory
  replace : placement.artworkMode = .replace →
    kindOf placement.pendingArtwork = .pendingArtwork ∧
      kindOf placement.retiredArtwork = .retiredArtwork ∧
      kindOf placement.previousArtwork = .cover ∧
      placement.pendingArtwork.dropLast = directory ∧
        placement.retiredArtwork.dropLast = directory ∧
      placement.previousArtwork.dropLast = directory

section Plan

variable {inspection : MediaInspection} {identity : CommitIdentity} {album staged : RelativePath}
  {target : Target} {placement : ReplacementPlacement}

theorem replacementAlbum_eq_ok (h : replacementAlbum inspection identity = .ok album) :
    IsAlbumPath album ∧ (identity.existingArtworkPath ≠ [] →
      kindOf identity.existingArtworkPath = .cover ∧
        identity.existingArtworkPath.dropLast = album) := by
  unfold replacementAlbum at h
  split_ifs at h with hexisting
  · exact ⟨isAlbumPath_albumDirectory h, fun hne => absurd hexisting hne⟩
  · obtain ⟨halbum, hparent, hkind⟩ := existingCanonicalAlbum_eq_ok h
    exact ⟨halbum, fun _ => ⟨hkind, hparent.symm⟩⟩

/-- A Track Replacement of a Track in its place, from an upload in staging, is
planned over paths of the kinds of their roles. -/
theorem planReplacementPlacement_eq_ok (hid : IsUuid identity.trackId)
    (hstaged : staged.dropLast = [staging]) (htarget : IsTrackPath target.relativePath)
    (h : planReplacementPlacement inspection identity staged target = .ok placement) :
    ∃ album, ReplacementPlan placement album := by
  simp only [planReplacementPlacement] at h
  cases halbum : replacementAlbum inspection identity with
  | error e =>
    rw [halbum] at h
    cases h
  | ok album =>
    cases hextension : sourceExtension inspection.audio.format with
    | error e =>
      rw [halbum, hextension] at h
      cases h
    | ok extension =>
      rw [halbum, hextension] at h
      obtain ⟨hdirectory, hexisting⟩ := replacementAlbum_eq_ok halbum
      refine ⟨album, ?_⟩
      have hretiredHead : target.relativePath.dropLast.head? = some canonicalLibraryRoot := by
        have hlength := htarget.length
        have hhead := htarget.head
        cases hpath : target.relativePath with
        | nil => simp [hpath] at hlength
        | cons first rest =>
          cases rest with
          | nil => simp [hpath] at hlength
          | cons second rest => simpa [hpath] using hhead
      -- The audio paths are the same in every artwork mode.
      have haudio : ReplacementPlan
          (replacementAudio inspection identity staged album extension target) album :=
        { album := hdirectory
          staged := hstaged
          pendingAudio := by
            rw [replacementAudio, kindOf_replacement hdirectory.head,
              if_neg (hid.stem_ne (isExtension_sourceExtension hextension))]
          audio := (hdirectory.trackPath extension).kindOf
          previousAudio := htarget.kindOf
          retiredAudio := by
            rw [replacementAudio, kindOf_retired hretiredHead,
              if_neg (hid.stem_ne (isExtension_pathExtension _))]
          pendingAudio_parent := by simp [replacementAudio]
          audio_parent := by simp [replacementAudio]
          retiredAudio_parent := by simp [replacementAudio]
          previousAudio_length := htarget.length
          artwork := fun hmode => absurd rfl hmode
          replace := fun hmode => by cases hmode }
      change planReplacementArtwork inspection identity target album _ = .ok placement at h
      simp only [planReplacementArtwork] at h
      split_ifs at h with hnone hcreate hsame hconflict
      · cases h
        exact { haudio with
          artwork := fun hmode => absurd rfl hmode
          replace := fun hmode => by cases hmode }
      · cases h
        exact { haudio with
          artwork := fun _ => ⟨hdirectory.kindOf_cover, by simp [replacementAudio]⟩
          replace := fun hmode => by cases hmode }
      · cases h
        exact { haudio with
          artwork := fun _ => hexisting hcreate
          replace := fun hmode => by cases hmode }
      · cases h
        refine { haudio with
          artwork := fun _ => ⟨hdirectory.kindOf_cover, by simp [replacementAudio]⟩
          replace := fun _ => ⟨?_, ?_, (hexisting hcreate).1, ?_, ?_, (hexisting hcreate).2⟩ }
        · rw [kindOf_replacement hdirectory.head,
            if_pos (stem_append (by decide) (isExtension_artworkExtension _))]
        · rw [kindOf_retired hdirectory.head,
            if_pos (stem_append (by decide) (isExtension_pathExtension _))]
        · simp
        · simp

end Plan

end Harmony.ManagedImport
