/-
# The tables of the library

The tables the Artist, Album and Track lists read, with the keys and references the
schema declares, the views over them and SQLite's text comparisons.
-/

import Harmony.Library.Query
import Mathlib.Data.String.Basic

namespace Harmony.LibraryReads

open Query

/-! ### Text comparisons -/

/-- LIKE: `%` stands for any text, `_` for any character, letters of ASCII match in
either case. -/
def like : List Char → List Char → Bool
  | [], text => text.isEmpty
  | '%' :: pattern, text => text.tails.any (like pattern ·)
  | '_' :: pattern, text =>
    match text with
    | [] => false
    | _ :: text => like pattern text
  | c :: pattern, text =>
    match text with
    | [] => false
    | d :: text => c.toLower == d.toLower && like pattern text

/-- `text LIKE '%' || q || '%'`: what `q` has of `%` and `_` is pattern too. -/
def likeAround (text q : String) : Bool :=
  like ('%' :: q.toList ++ ['%']) text.toList

/-- `=` under COLLATE NOCASE. -/
def nocaseEq (a b : String) : Bool :=
  a.toList.map Char.toLower == b.toList.map Char.toLower

/-! ### Rows -/

structure ArtistRow where
  id : String
  name : String
  nameSort : String

structure AlbumRow where
  id : String
  artistId : String
  title : String
  titleSort : String
  year : Option ℤ
  releaseDate : Option String
  genres : String

structure TrackRow where
  id : String
  albumId : String
  title : String
  titleSort : String
  artistName : String
  filePath : String
  missingAt : Option String
  isPendingCommit : Bool

structure TrackSource where
  trackId : String
  filePath : String

structure AlbumArtist where
  albumId : String
  artistId : String
  position : ℕ

structure TrackArtist where
  trackId : String
  artistId : String
  position : ℕ

structure GenreRow where
  id : String
  name : String

structure TrackGenre where
  trackId : String
  genreId : String
  position : ℕ

/-- The library, with the PRIMARY KEY, UNIQUE and REFERENCES clauses the lists rely
on. -/
structure Database where
  artists : List ArtistRow
  albums : List AlbumRow
  tracks : List TrackRow
  trackSources : List TrackSource
  albumArtists : List AlbumArtist
  trackArtists : List TrackArtist
  genres : List GenreRow
  trackGenres : List TrackGenre
  artists_key : (artists.map (·.id)).Nodup
  albums_key : (albums.map (·.id)).Nodup
  tracks_key : (tracks.map (·.id)).Nodup
  trackSources_track : (trackSources.map (·.trackId)).Nodup
  albumArtists_position : (albumArtists.map fun credit => (credit.albumId, credit.position)).Nodup
  albums_artist : ∀ al ∈ albums, ∃ a ∈ artists, a.id = al.artistId
  tracks_album : ∀ t ∈ tracks, ∃ al ∈ albums, al.id = t.albumId

namespace Database

variable (db : Database)

/-- The view `visible_tracks`. -/
def visibleTracks : List TrackRow :=
  db.tracks.filter fun t => t.missingAt.isNone && !t.isPendingCommit

theorem visibleTracks_key : (db.visibleTracks.map (·.id)).Nodup :=
  db.tracks_key.sublist (List.filter_sublist.map _)

/-! ### Library Track reads -/

/-- A row of the view `library_track_reads`. -/
structure LibraryTrackRead where
  track : TrackRow
  album : AlbumRow
  source : Option TrackSource

namespace LibraryTrackRead

variable (t : LibraryTrackRead)

def id : String := t.track.id

def title : String := t.track.title

def titleSort : String := t.track.titleSort

def artistName : String := t.track.artistName

def albumId : String := t.track.albumId

def albumTitle : String := t.album.title

/-- The managed source's path where there is one. -/
def filePath : String := (t.source.map (·.filePath)).getD t.track.filePath

end LibraryTrackRead

/-- The view `library_track_reads`: the visible Track with its Album and its managed
source. -/
def libraryTrackReads : List LibraryTrackRead :=
  (leftJoin
    (innerJoin db.visibleTracks db.albums fun t al => al.id == t.albumId)
    db.trackSources fun row ts => ts.trackId == row.1.id).map
    fun row => ⟨row.1.1, row.1.2, row.2⟩

/-- Neither join multiplies a visible Track or drops one. -/
theorem libraryTrackReads_tracks : db.libraryTrackReads.map (·.track) = db.visibleTracks := by
  have halbum : ∀ t ∈ db.visibleTracks, ∃ al,
      db.albums.filter (fun al => al.id == t.albumId) = [al] := by
    intro t ht
    obtain ⟨al, hal, hid⟩ := db.tracks_album t (List.mem_filter.mp ht).1
    rw [← hid]
    exact ⟨al, filter_key_eq db.albums_key hal⟩
  have hsource : ∀ row ∈ innerJoin db.visibleTracks db.albums fun t al => al.id == t.albumId,
      (db.trackSources.filter fun ts => ts.trackId == row.1.id).length ≤ 1 :=
    fun row _ => length_filter_key_le_one db.trackSources_track row.1.id
  calc
    _ = ((leftJoin (innerJoin db.visibleTracks db.albums fun t al => al.id == t.albumId)
          db.trackSources fun row ts => ts.trackId == row.1.id).map Prod.fst).map Prod.fst := by
      rw [libraryTrackReads, List.map_map, List.map_map]
      rfl
    _ = db.visibleTracks := by
      rw [leftJoin_map_fst hsource, innerJoin_map_fst halbum]

/-- A read carries the Album of its Track. -/
theorem libraryTrackReads_album {t : LibraryTrackRead} (ht : t ∈ db.libraryTrackReads) :
    t.album ∈ db.albums ∧ t.album.id = t.track.albumId := by
  obtain ⟨row, hrow, rfl⟩ := List.mem_map.mp ht
  obtain ⟨-, hal, hon⟩ := mem_innerJoin.mp (fst_of_mem_leftJoin hrow)
  exact ⟨hal, eq_of_beq hon⟩

end Database

end Harmony.LibraryReads
