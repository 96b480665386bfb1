/-
# Which Album a file goes to

An Album is known by its key. The credits and the title of a file give the key of its own
Album, and with a suffix that of a separate edition; the library is asked for both. A
decision then selects one of the Albums, and its artwork.
-/

import Mathlib.Data.Prod.Lex
import Harmony.ManagedImport.Preparation

namespace Harmony.ManagedImport

/-! ### Albums with a key -/

/-- What stands between the key of an Album and the edition. -/
def editionMark : String := "\x1fmanaged-import-edition:"

/-- What the key of a separate edition has more than the key of its Album. -/
def editionSuffix (edition : String) : String := editionMark ++ edition

structure AlbumMatch where
  id : String
  year : ℤ
  hasArtwork : Bool
  identityKey : String

/-- `length` of SQLite: the characters before the first NUL. -/
def sqliteLength (text : String) : ℕ := (text.toList.takeWhile (· ≠ '\x00')).length

/-- `substr` of SQLite from the first character on. -/
def sqliteSubstr (text : String) (length : ℕ) : String :=
  String.ofList ((text.toList.takeWhile (· ≠ '\x00')).take length)

/-- The order of the Albums that match. -/
def AlbumMatch.isBefore (a b : AlbumMatch) : Bool :=
  toLex (a.identityKey, a.id) ≤ toLex (b.identityKey, b.id)

/-- `match_albums`: the Album with this key and every separate edition created from it. -/
def Database.matchAlbums (db : Database) (key : String) : List AlbumMatch :=
  let start := key ++ editionMark
  let found := db.albums.entries.filter fun e =>
    e.2.identityKey = key ∨ sqliteSubstr e.2.identityKey (sqliteLength start) = start
  let matched := found.map fun e =>
    ⟨e.1, e.2.year.getD 0, (db.albumArtwork.lookup e.1).isSome, e.2.identityKey⟩
  matched.mergeSort AlbumMatch.isBefore

theorem Database.mem_matchAlbums {db : Database} {key : String} {found : AlbumMatch} :
    found ∈ db.matchAlbums key ↔ ∃ row, db.albums.lookup found.id = some row ∧
      (row.identityKey = key ∨
        sqliteSubstr row.identityKey (sqliteLength (key ++ editionMark)) = key ++ editionMark) ∧
      found = ⟨found.id, row.year.getD 0, (db.albumArtwork.lookup found.id).isSome,
        row.identityKey⟩ := by
  rw [matchAlbums, List.mem_mergeSort, List.mem_map]
  constructor
  · rintro ⟨⟨id, row⟩, hmem, rfl⟩
    obtain ⟨hentry, hkey⟩ := List.mem_filter.mp hmem
    exact ⟨row, AList.mem_lookup_iff.mpr hentry, of_decide_eq_true hkey, rfl⟩
  · rintro ⟨row, hlookup, hkey, hfound⟩
    refine ⟨⟨found.id, row⟩, List.mem_filter.mpr ⟨AList.mem_lookup_iff.mp hlookup, ?_⟩, ?_⟩
    · exact decide_eq_true hkey
    · exact hfound.symm

/-! ### Decisions about Albums -/

structure ArtworkOption where
  id : String
  mediaType : String
  contentSha256 : String

/-- One Album among the accepted files of a Batch. -/
structure AlbumPreview where
  key : String
  existingAlbums : List AlbumMatch
  artworks : List ArtworkOption

structure AlbumDecision where
  albumKey : String
  albumId : String
  createSeparate : Bool
  artworkId : String
  artworkMode : String

/-- What no decision decides. -/
def AlbumDecision.default : AlbumDecision := ⟨"", "", false, "", ""⟩

def invalidChoice (detail : String) : Error := .wrap .invalidUpload detail

/-- An Album as a decision selects it; the id is empty for an Album of its own. -/
structure SelectedAlbum where
  key : String
  id : String
  hasArtwork : Bool

section Selection

variable (batchId baseKey : String) (album : AlbumPreview) (decision : AlbumDecision)

/-- The first half of `resolve_album_plan`. -/
def selectAlbum : Except Error SelectedAlbum :=
  if decision.createSeparate then
    if decision.albumId ≠ "" then
      .error (invalidChoice "a separate Album cannot target an existing Album")
    else .ok ⟨baseKey ++ editionSuffix batchId, "", false⟩
  else if decision.albumId = "" ∧ 1 < album.existingAlbums.length then
    .error (invalidChoice "choose an existing Album or create a separate Album")
  else
    let albumId := if decision.albumId = "" then (album.existingAlbums.head?.map (·.id)).getD ""
      else decision.albumId
    match (album.existingAlbums.filter (·.id = albumId)).getLast? with
    | some existing => .ok ⟨existing.identityKey, albumId, existing.hasArtwork⟩
    | none =>
      if albumId = "" then .ok ⟨baseKey, "", false⟩
      else .error (invalidChoice "selected Album does not match the file tags")

/-- The id of the artwork that an Album without one gets, empty for none. -/
def chooseArtwork : Except Error String :=
  if decision.artworkMode = "none" then .ok ""
  else if decision.artworkMode = "" ∨ decision.artworkMode = "auto" then
    if 1 < album.artworks.length then
      .error (invalidChoice "choose an Album cover or continue without artwork")
    else .ok ((album.artworks.head?.map (·.id)).getD "")
  else if decision.artworkMode = "selected" then
    match album.artworks.find? (·.id = decision.artworkId) with
    | some artwork => .ok artwork.id
    | none => .error (invalidChoice "selected artwork does not belong to this Album")
  else .error (invalidChoice "invalid artwork mode")

/-- The Album key and artwork a decision selects. -/
def resolveAlbumPlan : Except Error ImportPlan := do
  let selected ← selectAlbum batchId baseKey album decision
  let plan := { ImportPlan.unplanned with albumKey := selected.key }
  if selected.hasArtwork then .ok plan
  else if decision.artworkMode = "" ∧ selected.id ≠ "" then .ok plan
  else (chooseArtwork album decision).map fun artworkId => { plan with artworkId := artworkId }

end Selection

/-- The keys among which a decision selects. -/
def IsChoice (batchId baseKey : String) (existing : List AlbumMatch) (key : String) : Prop :=
  key = baseKey ∨ key = baseKey ++ editionSuffix batchId ∨
    ∃ found ∈ existing, key = found.identityKey

section Selected

variable {batchId baseKey : String} {album : AlbumPreview} {decision : AlbumDecision}

theorem isChoice_selectAlbum {selected : SelectedAlbum}
    (h : selectAlbum batchId baseKey album decision = .ok selected) :
    IsChoice batchId baseKey album.existingAlbums selected.key := by
  rw [selectAlbum] at h
  by_cases hseparate : decision.createSeparate = true
  · rw [if_pos hseparate] at h
    split_ifs at h
    cases h
    exact .inr (.inl rfl)
  rw [if_neg hseparate] at h
  by_cases hmany : decision.albumId = "" ∧ 1 < album.existingAlbums.length
  · rw [if_pos hmany] at h
    cases h
  rw [if_neg hmany] at h
  dsimp only at h
  split at h
  · rename_i existing hlast
    cases h
    have hmem := (List.mem_filter.mp (List.mem_of_getLast? hlast)).1
    exact .inr (.inr ⟨existing, hmem, rfl⟩)
  · split_ifs at h
    cases h
    exact .inl rfl

/-- What a plan of an Album says: the key of one of the choices, and nothing about its Tracks. -/
theorem resolveAlbumPlan_eq_ok {plan : ImportPlan}
    (h : resolveAlbumPlan batchId baseKey album decision = .ok plan) :
    IsChoice batchId baseKey album.existingAlbums plan.albumKey ∧
      ∃ artworkId, plan = { ImportPlan.unplanned with
        albumKey := plan.albumKey
        artworkId := artworkId } := by
  rw [resolveAlbumPlan] at h
  cases hselected : selectAlbum batchId baseKey album decision with
  | error e =>
    rw [hselected] at h
    cases h
  | ok selected =>
    rw [hselected] at h
    change (if _ then _ else _) = _ at h
    have hchoice := isChoice_selectAlbum hselected
    split_ifs at h
    · cases h
      exact ⟨hchoice, "", rfl⟩
    · cases h
      exact ⟨hchoice, "", rfl⟩
    · cases hartwork : chooseArtwork album decision with
      | error e =>
        rw [hartwork] at h
        cases h
      | ok artworkId =>
        rw [hartwork] at h
        cases h
        exact ⟨hchoice, artworkId, rfl⟩

end Selected

end Harmony.ManagedImport
