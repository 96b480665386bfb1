/-
# Artist, Album and Track lists

`list_artists`, `list_albums` and `list_tracks` as the statements compute them: one
query counts, another lists what the joins, the WHERE, the GROUP BY and the ORDER BY
leave between LIMIT and OFFSET. The database orders rows with equal keys as it likes.
-/

import Harmony.LibraryReads.Tables
import Harmony.Library.Paging
import Mathlib.Data.Prod.Lex
import Mathlib.Order.WithBot

namespace Harmony.LibraryReads

open Query Paging

structure Page (α : Type*) where
  items : List α
  total : ℕ

structure Artist where
  id : String
  name : String
  albumCount : ℕ

structure Album where
  id : String
  title : String
  artistId : String
  artistName : String
  year : Option ℤ
  releaseDate : Option String
  genres : String
  trackCount : ℕ

structure Track where
  id : String
  title : String
  artistName : String
  albumId : String
  albumTitle : String
  filePath : String

/-! ### Artists -/

abbrev ArtistJoin := ArtistRow × AlbumArtist

abbrev ArtistOrder := Boolᵒᵈ ×ₗ String ×ₗ String

def artistWhere (q : String) (a : ArtistRow) : Bool :=
  q == "" || likeAround a.name q

/-- ORDER BY: an exact name first, then the sort name, then the id. -/
def artistOrder (q : String) (a : ArtistRow) : ArtistOrder :=
  toLex (OrderDual.toDual (q != "" && nocaseEq a.name q), toLex (a.nameSort, a.id))

/-- How the database orders the groups of one Artist query. -/
abbrev ArtistSorter (q : String) :=
  Sorter fun group : ArtistJoin × List ArtistJoin => artistOrder q group.1.1

/-! ### Albums -/

structure AlbumJoin where
  album : AlbumRow
  legacyArtist : ArtistRow
  primaryCredit : Option AlbumArtist
  primaryArtist : Option ArtistRow
  track : TrackRow

abbrev AlbumOrder := WithBot Bool ×ₗ (WithBot ℤ)ᵒᵈ ×ₗ String

/-- The columns of the GROUP BY: what a row shows of the Album and its Artists. -/
structure AlbumColumns where
  id : String
  title : String
  primaryId : Option String
  primaryName : Option String
  legacyId : String
  legacyName : String
  year : Option ℤ
  releaseDate : Option String
  genres : String
  deriving DecidableEq

def AlbumJoin.columns (row : AlbumJoin) : AlbumColumns where
  id := row.album.id
  title := row.album.title
  primaryId := row.primaryArtist.map (·.id)
  primaryName := row.primaryArtist.map (·.name)
  legacyId := row.legacyArtist.id
  legacyName := row.legacyArtist.name
  year := row.album.year
  releaseDate := row.album.releaseDate
  genres := row.album.genres

/-- ORDER BY: for one Artist the newest year first and no year last, then the sort
title. NULL comes before every value. -/
def albumOrder (artistId : String) (al : AlbumRow) : AlbumOrder :=
  let isNull : WithBot Bool := if artistId != "" then ↑al.year.isNone else ⊥
  let year : WithBot ℤ := if artistId != "" then al.year.elim ⊥ (↑·) else ⊥
  toLex (isNull, toLex (OrderDual.toDual year, al.titleSort))

abbrev AlbumSorter (artistId : String) :=
  Sorter fun group : AlbumJoin × List AlbumJoin => albumOrder artistId group.1.album

def toAlbum (group : AlbumJoin × List AlbumJoin) : Album :=
  let row := group.1.columns
  { id := row.id
    title := row.title
    artistId := row.primaryId.getD row.legacyId
    artistName := row.primaryName.getD row.legacyName
    year := row.year
    releaseDate := row.releaseDate
    genres := row.genres
    trackCount := group.2.length }

/-! ### Tracks -/

abbrev TrackSorter := Sorter Database.LibraryTrackRead.titleSort

def toTrack (t : Database.LibraryTrackRead) : Track where
  id := t.id
  title := t.title
  artistName := t.artistName
  albumId := t.albumId
  albumTitle := t.albumTitle
  filePath := t.filePath

namespace Database

variable (db : Database)

/-! ### The Artist statements -/

/-- The Album credits with a visible Track behind them. -/
def activeArtistAlbums : List AlbumArtist :=
  db.albumArtists.filter fun credit => db.visibleTracks.any fun t => t.albumId == credit.albumId

def artistRows (q : String) : List ArtistJoin :=
  (innerJoin db.artists db.activeArtistAlbums fun a credit => credit.artistId == a.id).filter
    fun row => artistWhere q row.1

def countArtists (q : String) : ℕ :=
  countDistinct (·.1.id) (db.artistRows q)

def artistGroups (q : String) : List (ArtistJoin × List ArtistJoin) :=
  groupBy (fun row => (row.1.id, row.1.name)) (db.artistRows q)

def listArtists (q : String) (sorter : ArtistSorter q) (limit offset : ℕ) : Page Artist where
  items := (page limit offset (sorter.sort (db.artistGroups q))).map fun group =>
    ⟨group.1.1.id, group.1.1.name, group.2.length⟩
  total := db.countArtists q

/-! ### The Album statements -/

def albumWhere (artistId q : String) (al : AlbumRow) : Bool :=
  (artistId == "" || db.albumArtists.any fun credit =>
    credit.albumId == al.id && credit.artistId == artistId) &&
  (q == "" || likeAround al.title q ||
    (innerJoin db.albumArtists db.artists fun credit credited =>
      credited.id == credit.artistId).any fun row =>
        row.1.albumId == al.id && likeAround row.2.name q)

def countAlbums (artistId q : String) : ℕ :=
  countDistinct (·.1.id) <|
    (innerJoin db.albums db.visibleTracks fun al t => t.albumId == al.id).filter
      fun row => db.albumWhere artistId q row.1

def albumJoins : List AlbumJoin :=
  let legacy := innerJoin db.albums db.artists fun al a => a.id == al.artistId
  let credited := leftJoin legacy db.albumArtists fun row credit =>
    credit.albumId == row.1.id && credit.position == 0
  let primary := leftJoin credited db.artists fun row a =>
    row.2.any fun credit => a.id == credit.artistId
  (innerJoin primary db.visibleTracks fun row t => t.albumId == row.1.1.1.id).map fun row =>
    ⟨row.1.1.1.1, row.1.1.1.2, row.1.1.2, row.1.2, row.2⟩

def albumGroups (artistId q : String) : List (AlbumJoin × List AlbumJoin) :=
  groupBy AlbumJoin.columns (db.albumJoins.filter fun row => db.albumWhere artistId q row.album)

def listAlbums (artistId q : String) (sorter : AlbumSorter artistId) (limit offset : ℕ) :
    Page Album where
  items := (page limit offset (sorter.sort (db.albumGroups artistId q))).map toAlbum
  total := db.countAlbums artistId q

/-! ### The Track statements -/

def trackWhere (artistId q : String) (t : TrackRow) (albumTitle : String) : Bool :=
  (artistId == "" ||
    (db.trackArtists.any fun credit => credit.trackId == t.id && credit.artistId == artistId) ||
    db.albumArtists.any fun credit => credit.albumId == t.albumId && credit.artistId == artistId) &&
  (q == "" || likeAround t.title q || likeAround albumTitle q ||
    ((innerJoin db.trackArtists db.artists fun credit credited =>
      credited.id == credit.artistId).any fun row =>
        row.1.trackId == t.id && likeAround row.2.name q) ||
    (innerJoin db.trackGenres db.genres fun relation genre =>
      genre.id == relation.genreId).any fun row =>
        row.1.trackId == t.id && likeAround row.2.name q)

def trackRows (artistId q : String) : List LibraryTrackRead :=
  db.libraryTrackReads.filter fun t => db.trackWhere artistId q t.track t.albumTitle

def countTracks (artistId q : String) : ℕ :=
  (db.trackRows artistId q).length

def listTracks (artistId q : String) (sorter : TrackSorter) (limit offset : ℕ) :
    Page Track where
  items := (page limit offset (sorter.sort (db.trackRows artistId q))).map toTrack
  total := db.countTracks artistId q

end Database

end Harmony.LibraryReads
