/-
# The pages of the library

Artist pages hold every Artist that matches once, since their order ends in the id.
Album and Track pages are ordered by sort titles alone, and hold every match once
exactly where no group of equal keys lies across a page boundary.
-/

import Harmony.LibraryReads.Repository

namespace Harmony.LibraryReads

open Query Paging

/-! ### What pages should hold -/

/-- The pages hold every entity once, and each page tells their number. -/
structure PagesPartition {α : Type*} (id : α → String) (entities : List String)
    (pages : List (Page α)) : Prop where
  total : ∀ p ∈ pages, p.total = entities.length
  once : ((pages.flatMap (·.items)).map id).Perm entities

/-- For pages cut out of sorted rows this is a partition of the rows. -/
theorem pagesPartition_iff {α ρ κ : Type*} [LinearOrder κ] {key : ρ → κ} {limit total : ℕ}
    {rows : List ρ} {item : ρ → α} {id : α → String} {entities : List String}
    (htotal : total = entities.length) :
    (∀ (sorts : ℕ → Sorter key) (count : ℕ), entities.length ≤ count * limit →
      PagesPartition id entities ((List.range count).map fun i =>
        ⟨(page limit (i * limit) ((sorts i).sort rows)).map item, total⟩)) ↔
      Partition key limit rows (fun r => id (item r)) entities := by
  have hitems : ∀ (sorts : ℕ → Sorter key) (count : ℕ),
      (((List.range count).map fun i =>
        (⟨(page limit (i * limit) ((sorts i).sort rows)).map item, total⟩ : Page α)).flatMap
          (·.items)).map id = (pages sorts limit rows count).map fun r => id (item r) := by
    intro sorts count
    rw [pages, List.flatMap_map, List.map_flatMap, List.map_flatMap]
    simp only [List.map_map, Function.comp_def]
  constructor
  · intro h sorts count hcount
    have := (h sorts count hcount).once
    rwa [hitems] at this
  · intro h sorts count hcount
    constructor
    · intro p hp
      obtain ⟨i, -, rfl⟩ := List.mem_map.mp hp
      exact htotal
    · rw [hitems]
      exact h sorts count hcount

namespace Database

variable (db : Database) (artistId q : String) (q : String)

/-- The Artists with an Album that has a visible Track, as far as the text matches. -/
def matchingArtists (q : String) : List ArtistRow :=
  db.artists.filter fun a =>
    db.activeArtistAlbums.any (fun credit => credit.artistId == a.id) && artistWhere q a

def matchingAlbums (artistId q : String) : List AlbumRow :=
  db.albums.filter fun al =>
    db.visibleTracks.any (fun t => t.albumId == al.id) && db.albumWhere artistId q al

def matchingTracks (artistId q : String) : List TrackRow :=
  db.visibleTracks.filter fun t =>
    db.albums.any fun al => al.id == t.albumId && db.trackWhere artistId q t al.title

/-- Whatever order the database chooses for each page, the Artist pages hold every
match once. -/
def ArtistPagesPartition (q : String) (limit : ℕ) : Prop :=
  ∀ (sorts : ℕ → ArtistSorter q) (count : ℕ),
    ((db.matchingArtists q).map (·.id)).length ≤ count * limit →
    PagesPartition Artist.id ((db.matchingArtists q).map (·.id))
      ((List.range count).map fun i => db.listArtists q (sorts i) limit (i * limit))

def AlbumPagesPartition (artistId q : String) (limit : ℕ) : Prop :=
  ∀ (sorts : ℕ → AlbumSorter artistId) (count : ℕ),
    ((db.matchingAlbums artistId q).map (·.id)).length ≤ count * limit →
    PagesPartition Album.id ((db.matchingAlbums artistId q).map (·.id))
      ((List.range count).map fun i => db.listAlbums artistId q (sorts i) limit (i * limit))

def TrackPagesPartition (artistId q : String) (limit : ℕ) : Prop :=
  ∀ (sorts : ℕ → TrackSorter) (count : ℕ),
    ((db.matchingTracks artistId q).map (·.id)).length ≤ count * limit →
    PagesPartition Track.id ((db.matchingTracks artistId q).map (·.id))
      ((List.range count).map fun i => db.listTracks artistId q (sorts i) limit (i * limit))

/-! ### Artists -/

theorem mem_artistRows_id {q id : String} :
    id ∈ (db.artistRows q).map (·.1.id) ↔ id ∈ (db.matchingArtists q).map (·.id) := by
  simp only [artistRows, matchingArtists, List.mem_map, List.mem_filter, mem_innerJoin,
    Bool.and_eq_true, List.any_eq_true]
  constructor
  · rintro ⟨⟨a, credit⟩, ⟨⟨ha, hcredit, hon⟩, hwhere⟩, rfl⟩
    exact ⟨a, ⟨ha, ⟨credit, hcredit, hon⟩, hwhere⟩, rfl⟩
  · rintro ⟨a, ⟨ha, ⟨credit, hcredit, hon⟩, hwhere⟩, rfl⟩
    exact ⟨(a, credit), ⟨⟨ha, hcredit, hon⟩, hwhere⟩, rfl⟩

theorem matchingArtists_key : ((db.matchingArtists q).map (·.id)).Nodup :=
  db.artists_key.sublist (List.filter_sublist.map _)

theorem countArtists_eq :
    db.countArtists q = ((db.matchingArtists q).map (·.id)).length :=
  (dedup_perm_of_mem_iff (db.matchingArtists_key q) fun _ => db.mem_artistRows_id).length_eq

/-- One group for each Artist: its name comes with its id. -/
theorem artistGroups_perm :
    ((db.artistGroups q).map fun group => group.1.1.id).Perm
      ((db.matchingArtists q).map (·.id)) := by
  have hkey : ∀ row ∈ db.artistRows q, ∀ row' ∈ db.artistRows q,
      (row.1.id, row.1.name) = (row'.1.id, row'.1.name) ↔ row.1.id = row'.1.id := by
    intro row hrow row' hrow'
    constructor
    · intro h
      exact congrArg Prod.fst h
    · intro hid
      have hmem := (mem_innerJoin.mp (List.mem_filter.mp hrow).1).1
      have hmem' := (mem_innerJoin.mp (List.mem_filter.mp hrow').1).1
      rw [List.inj_on_of_nodup_map db.artists_key hmem hmem' hid]
  exact (groupBy_map_perm hkey).trans
    (dedup_perm_of_mem_iff (db.matchingArtists_key q) fun _ => db.mem_artistRows_id)

theorem artist_pages_partition {limit : ℕ} (hlimit : 0 < limit) :
    db.ArtistPagesPartition q limit := by
  refine (pagesPartition_iff (db.countArtists_eq q)).mpr ?_
  refine (partition_iff_tiesFit hlimit (db.matchingArtists_key q) (db.artistGroups_perm q)).mpr ?_
  -- the id at the end of the order tells Artists apart
  apply tiesFit_of_nodup
  have hids := (db.artistGroups_perm q).nodup_iff.mpr (db.matchingArtists_key q)
  refine List.Nodup.of_map (fun order : ArtistOrder => (ofLex (ofLex order).2).2) ?_
  rw [List.map_map]
  exact hids

/-! ### Albums -/

/-- The primary credit and the Artists of a row are those of its Album. -/
structure AlbumJoin.Reads (row : AlbumJoin) : Prop where
  album : row.album ∈ db.albums
  legacyArtist : row.legacyArtist ∈ db.artists ∧ row.legacyArtist.id = row.album.artistId
  primaryCredit : row.primaryCredit =
    (db.albumArtists.filter fun credit =>
      credit.albumId == row.album.id && credit.position == 0).head?
  primaryArtist : row.primaryArtist =
    (db.artists.filter fun a => row.primaryCredit.any fun credit => a.id == credit.artistId).head?
  track : row.track ∈ db.visibleTracks ∧ row.track.albumId = row.album.id

theorem albumJoins_reads {row : AlbumJoin} (h : row ∈ db.albumJoins) : AlbumJoin.Reads db row := by
  obtain ⟨row, hrow, rfl⟩ := List.mem_map.mp h
  obtain ⟨hprimary, htrack, hon⟩ := mem_innerJoin.mp hrow
  have hcredited := fst_of_mem_leftJoin hprimary
  have hlegacy := mem_innerJoin.mp (fst_of_mem_leftJoin hcredited)
  refine ⟨hlegacy.1, ⟨hlegacy.2.1, eq_of_beq hlegacy.2.2⟩, ?_, ?_, ⟨htrack, eq_of_beq hon⟩⟩
  · exact snd_of_mem_leftJoin hcredited
      (length_filter_key_le_one db.albumArtists_position (row.1.1.1.1.id, 0))
  · refine snd_of_mem_leftJoin hprimary ?_
    cases row.1.1.2 with
    | none =>
      have hnil : (db.artists.filter fun _ => false) = [] := List.filter_false db.artists
      exact (congrArg List.length hnil).trans_le (Nat.zero_le 1)
    | some credit => exact length_filter_key_le_one db.artists_key credit.artistId

/-- Rows of one Album show the same columns. -/
theorem AlbumJoin.Reads.columns_eq {row row' : AlbumJoin} (h : AlbumJoin.Reads db row)
    (h' : AlbumJoin.Reads db row') (hid : row.album.id = row'.album.id) :
    row.columns = row'.columns := by
  have halbum := List.inj_on_of_nodup_map db.albums_key h.album h'.album hid
  have hlegacy := List.inj_on_of_nodup_map db.artists_key h.legacyArtist.1 h'.legacyArtist.1
    (by rw [h.legacyArtist.2, h'.legacyArtist.2, halbum])
  have hcredit : row.primaryCredit = row'.primaryCredit := by
    rw [h.primaryCredit, h'.primaryCredit, hid]
  have hprimary : row.primaryArtist = row'.primaryArtist := by
    rw [h.primaryArtist, h'.primaryArtist, hcredit]
  rw [AlbumJoin.columns, AlbumJoin.columns, halbum, hlegacy, hprimary]

theorem mem_albumJoins_id {artistId q id : String} :
    id ∈ (db.albumJoins.filter fun row => db.albumWhere artistId q row.album).map (·.album.id) ↔
      id ∈ (db.matchingAlbums artistId q).map (·.id) := by
  simp only [matchingAlbums, List.mem_map, List.mem_filter, Bool.and_eq_true, List.any_eq_true]
  constructor
  · rintro ⟨row, ⟨hrow, hwhere⟩, rfl⟩
    have h := db.albumJoins_reads hrow
    exact ⟨row.album, ⟨h.album, ⟨row.track, h.track.1, beq_iff_eq.mpr h.track.2⟩, hwhere⟩, rfl⟩
  · rintro ⟨al, ⟨hal, ⟨t, ht, hon⟩, hwhere⟩, rfl⟩
    obtain ⟨a, ha, hartist⟩ := db.albums_artist al hal
    have hlegacy : (al, a) ∈ innerJoin db.albums db.artists fun al a => a.id == al.artistId :=
      mem_innerJoin.mpr ⟨hal, ha, beq_iff_eq.mpr hartist⟩
    obtain ⟨credit, hcredited⟩ := exists_mem_leftJoin db.albumArtists
      (fun row credit => credit.albumId == row.1.id && credit.position == 0) hlegacy
    obtain ⟨primary, hprimary⟩ := exists_mem_leftJoin db.artists
      (fun row a => row.2.any fun credit => a.id == credit.artistId) hcredited
    refine ⟨⟨al, a, credit, primary, t⟩, ⟨?_, hwhere⟩, rfl⟩
    exact List.mem_map.mpr ⟨(_, t), mem_innerJoin.mpr ⟨hprimary, ht, hon⟩, rfl⟩

theorem matchingAlbums_key :
    ((db.matchingAlbums artistId q).map (·.id)).Nodup :=
  db.albums_key.sublist (List.filter_sublist.map _)

/-- The count has no Artist joins, and counts the same Albums. -/
theorem countAlbums_eq :
    db.countAlbums artistId q = ((db.matchingAlbums artistId q).map (·.id)).length := by
  refine (dedup_perm_of_mem_iff (db.matchingAlbums_key artistId q) ?_).length_eq
  intro id
  simp only [matchingAlbums, List.mem_map, List.mem_filter, mem_innerJoin, Bool.and_eq_true,
    List.any_eq_true]
  constructor
  · rintro ⟨row, ⟨⟨hal, ht, hon⟩, hwhere⟩, rfl⟩
    exact ⟨row.1, ⟨hal, ⟨row.2, ht, hon⟩, hwhere⟩, rfl⟩
  · rintro ⟨al, ⟨hal, ⟨t, ht, hon⟩, hwhere⟩, rfl⟩
    exact ⟨(al, t), ⟨⟨hal, ht, hon⟩, hwhere⟩, rfl⟩

/-- One group for each Album. -/
theorem albumGroups_perm :
    ((db.albumGroups artistId q).map fun group => group.1.album.id).Perm
      ((db.matchingAlbums artistId q).map (·.id)) := by
  refine (groupBy_map_perm ?_).trans
    (dedup_perm_of_mem_iff (db.matchingAlbums_key artistId q) fun _ => db.mem_albumJoins_id)
  intro row hrow row' hrow'
  have h := db.albumJoins_reads (List.mem_filter.mp hrow).1
  have h' := db.albumJoins_reads (List.mem_filter.mp hrow').1
  exact ⟨congrArg AlbumColumns.id, h.columns_eq db h'⟩

theorem albumGroups_albums :
    ((db.albumGroups artistId q).map (·.1.album)).Perm (db.matchingAlbums artistId q) := by
  refine perm_of_map_perm db.albums_key ?_ (fun al hal => (List.mem_filter.mp hal).1)
    (db.matchingAlbums_key artistId q) ?_
  · intro al hal
    obtain ⟨group, hgroup, rfl⟩ := List.mem_map.mp hal
    exact (db.albumJoins_reads (List.mem_filter.mp (mem_groupBy hgroup).1).1).album
  · rw [List.map_map]
    exact db.albumGroups_perm artistId q

theorem album_pages_partition_iff {limit : ℕ} (hlimit : 0 < limit) :
    db.AlbumPagesPartition artistId q limit ↔
      TiesFit limit ((db.matchingAlbums artistId q).map (albumOrder artistId)) := by
  refine (pagesPartition_iff (db.countAlbums_eq artistId q)).trans ?_
  refine (partition_iff_tiesFit hlimit (db.matchingAlbums_key artistId q)
    (db.albumGroups_perm artistId q)).trans ?_
  have horder := (db.albumGroups_albums artistId q).map (albumOrder artistId)
  rw [List.map_map] at horder
  exact tiesFit_perm horder

/-! ### Tracks -/

theorem matchingTracks_key :
    ((db.matchingTracks artistId q).map (·.id)).Nodup :=
  db.visibleTracks_key.sublist (List.filter_sublist.map _)

/-- The rows the statement keeps are the matching Tracks, each with the Album title it
is matched by. -/
theorem trackRows_perm :
    ((db.trackRows artistId q).map (·.track)).Perm (db.matchingTracks artistId q) := by
  have hreads : (db.libraryTrackReads.map (·.track)).Nodup := by
    rw [db.libraryTrackReads_tracks]
    exact db.visibleTracks_key.of_map
  have hrows : ((db.trackRows artistId q).map (·.track)).Nodup :=
    hreads.sublist (List.filter_sublist.map _)
  rw [List.perm_ext_iff_of_nodup hrows (db.matchingTracks_key artistId q).of_map]
  intro t
  constructor
  · intro ht
    obtain ⟨read, hread, rfl⟩ := List.mem_map.mp ht
    obtain ⟨hmem, hwhere⟩ := List.mem_filter.mp hread
    obtain ⟨halbum, hid⟩ := db.libraryTrackReads_album hmem
    refine List.mem_filter.mpr ⟨?_, List.any_eq_true.mpr ⟨read.album, halbum, ?_⟩⟩
    · rw [← db.libraryTrackReads_tracks]
      exact List.mem_map_of_mem hmem
    · exact Bool.and_eq_true_iff.mpr ⟨beq_iff_eq.mpr hid, hwhere⟩
  · intro ht
    obtain ⟨hvisible, hmatch⟩ := List.mem_filter.mp ht
    obtain ⟨al, hal, hon⟩ := List.any_eq_true.mp hmatch
    obtain ⟨hid, hwhere⟩ := Bool.and_eq_true_iff.mp hon
    rw [← db.libraryTrackReads_tracks] at hvisible
    obtain ⟨read, hread, rfl⟩ := List.mem_map.mp hvisible
    obtain ⟨halbum, hreadId⟩ := db.libraryTrackReads_album hread
    have hsame : read.album = al := by
      refine List.inj_on_of_nodup_map db.albums_key halbum hal ?_
      rw [hreadId, eq_of_beq hid]
    refine List.mem_map_of_mem (List.mem_filter.mpr ⟨hread, ?_⟩)
    rw [Database.LibraryTrackRead.albumTitle, hsame]
    exact hwhere

theorem track_pages_partition_iff {limit : ℕ} (hlimit : 0 < limit) :
    db.TrackPagesPartition artistId q limit ↔
      TiesFit limit ((db.matchingTracks artistId q).map (·.titleSort)) := by
  have hrows := db.trackRows_perm artistId q
  have hids : ((db.trackRows artistId q).map (·.id)).Perm
      ((db.matchingTracks artistId q).map (·.id)) := by
    have := hrows.map (·.id)
    rwa [List.map_map] at this
  have hkeys : ((db.trackRows artistId q).map (·.titleSort)).Perm
      ((db.matchingTracks artistId q).map (·.titleSort)) := by
    have := hrows.map (·.titleSort)
    rwa [List.map_map] at this
  have htotal : db.countTracks artistId q =
      ((db.matchingTracks artistId q).map (·.id)).length := by
    rw [← hids.length_eq, List.length_map, countTracks]
  refine (pagesPartition_iff htotal).trans ?_
  refine (partition_iff_tiesFit hlimit (db.matchingTracks_key artistId q) hids).trans ?_
  exact tiesFit_perm hkeys

/-! ### All three lists -/

/-- For every library, Artist filter, text and page size: Artist pages partition what
matches; Album and Track pages do so exactly where no group of matches with equal
ORDER BY keys lies across a page boundary. -/
theorem library_pages_partition (artistId q : String) {limit : ℕ} (hlimit : 0 < limit) :
    db.ArtistPagesPartition q limit ∧
    (db.AlbumPagesPartition artistId q limit ↔
      TiesFit limit ((db.matchingAlbums artistId q).map (albumOrder artistId))) ∧
    (db.TrackPagesPartition artistId q limit ↔
      TiesFit limit ((db.matchingTracks artistId q).map (·.titleSort))) :=
  ⟨db.artist_pages_partition q hlimit, db.album_pages_partition_iff artistId q hlimit,
    db.track_pages_partition_iff artistId q hlimit⟩

/-- Two Albums of the same title with a Track of the same title each. -/
def twins : Database where
  artists := [⟨"a", "Anna", "anna"⟩, ⟨"b", "Bo", "bo"⟩]
  albums := [⟨"x", "a", "Greatest Hits", "greatest hits", some 1999, none, "[]"⟩,
    ⟨"y", "b", "Greatest Hits", "greatest hits", some 2001, none, "[]"⟩]
  tracks := [⟨"s", "x", "Intro", "intro", "Anna", "x/1.flac", none, false⟩,
    ⟨"t", "y", "Intro", "intro", "Bo", "y/1.flac", none, false⟩]
  trackSources := []
  albumArtists := [⟨"x", "a", 0⟩, ⟨"y", "b", 0⟩]
  trackArtists := []
  genres := []
  trackGenres := []
  artists_key := by decide
  albums_key := by decide
  tracks_key := by decide
  trackSources_track := by decide
  albumArtists_position := by decide
  albums_artist := by decide
  tracks_album := by decide

theorem twins_on_one_page : twins.ArtistPagesPartition "" 2 ∧
    twins.AlbumPagesPartition "" "" 2 ∧ twins.TrackPagesPartition "" "" 2 := by
  obtain ⟨hartists, halbums, htracks⟩ :=
    library_pages_partition twins "" "" (show 0 < 2 by decide)
  exact ⟨hartists, halbums.mpr (by decide +kernel), htracks.mpr (by decide +kernel)⟩

/-- One Album to a page: the two may change places between the two requests, and one
of them is never listed. -/
theorem twins_change_places :
    ¬ twins.AlbumPagesPartition "" "" 1 ∧ ¬ twins.TrackPagesPartition "" "" 1 := by
  constructor
  · intro h
    have hfit := (twins.album_pages_partition_iff "" "" (show 0 < 1 by decide)).mp h
    exact absurd hfit (by decide +kernel)
  · intro h
    have hfit := (twins.track_pages_partition_iff "" "" (show 0 < 1 by decide)).mp h
    exact absurd hfit (by decide +kernel)

end Database

end Harmony.LibraryReads
