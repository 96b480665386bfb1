/-
# A replaced Track adopts the file

The columns of a Track that come from its file, read back with its source, its
credits and its Genres. An import and a Track Replacement write them on separate
paths; both leave the columns of the file, with one exception: the update of a
replaced Track does not name `lyrics`, so the lyrics of the previous file stay.

Credits are compared by position and normalized name, since a library may know an
Artist or a Genre under another spelling.
-/

import Harmony.ManagedImport.ReplacementData

namespace Harmony.ManagedImport

open Transaction

/-! ### File-derived columns -/

structure FileColumns where
  title : String
  titleSort : String
  artistName : String
  trackNo : ℤ
  durationMs : ℤ
  format : String
  sizeBytes : ℤ
  genre : String
  sampleRateHz : ℤ
  bitDepth : Option ℤ
  discNo : ℤ
  trackTotal : Option ℤ
  discTotal : Option ℤ
  channelCount : ℤ
  bitrateBps : ℤ
  codec : String
  container : String
  replayGain : ReplayGain
  identityKey : String
  lyrics : String
  contentSha256 : String
  sourceFormat : String
  sourceSizeBytes : ℤ
  artists : List (ℕ × Option String)
  genres : List (ℕ × Option String)

def fileColumnsOf (row : TrackRow) (source : SourceRow)
    (artists genres : List (ℕ × Option String)) :
    FileColumns where
  title := row.title
  titleSort := row.titleSort
  artistName := row.artistName
  trackNo := row.trackNo
  durationMs := row.durationMs
  format := row.format
  sizeBytes := row.sizeBytes
  genre := row.genre
  sampleRateHz := row.sampleRateHz
  bitDepth := row.bitDepth
  discNo := row.discNo
  trackTotal := row.trackTotal
  discTotal := row.discTotal
  channelCount := row.channelCount
  bitrateBps := row.bitrateBps
  codec := row.codec
  container := row.container
  replayGain := ⟨row.replaygainTrackGainDb, row.replaygainTrackPeak, row.replaygainAlbumGainDb,
    row.replaygainAlbumPeak⟩
  identityKey := row.identityKey
  lyrics := row.lyrics
  contentSha256 := source.contentSha256
  sourceFormat := source.sourceFormat
  sourceSizeBytes := source.sizeBytes
  artists := artists
  genres := genres

namespace Database

def artistName (db : Database) (id : String) : Option String :=
  (db.artists.lookup id).map ArtistRow.nameNormalized

def genreName (db : Database) (id : String) : Option String :=
  (db.genres.lookup id).map GenreRow.nameNormalized

end Database

/-- The credits of a Track, by position and normalized name. -/
def creditNames (nameOf : String → Option String) (ownerId : String) (credits : List CreditRow) :
    List (ℕ × Option String) :=
  (credits.filter fun row => row.ownerId = ownerId).map fun row =>
    (row.position, nameOf row.creditId)

/-- What the library stores of the Track's file. -/
def Database.fileColumns (db : Database) (trackId : String) : Option FileColumns := do
  let row ← db.tracks.lookup trackId
  let source ← db.trackSources.lookup trackId
  some (fileColumnsOf row source (creditNames db.artistName trackId db.trackArtists)
    (creditNames db.genreName trackId db.trackGenres))

/-! ### What the statements leave alone -/

/-- The statements before the Track is written: Artists are only added, and the
Tracks with what belongs to them stay. -/
structure Prepares (s t : Database) : Prop where
  tracks : t.tracks = s.tracks
  trackSources : t.trackSources = s.trackSources
  trackArtists : t.trackArtists = s.trackArtists
  trackGenres : t.trackGenres = s.trackGenres
  artistName : ∀ id name, s.artistName id = some name → t.artistName id = some name

instance : IsPreorder Database Prepares where
  refl _ := ⟨rfl, rfl, rfl, rfl, fun _ _ h => h⟩
  trans _ _ _ first second :=
    { tracks := second.tracks.trans first.tracks
      trackSources := second.trackSources.trans first.trackSources
      trackArtists := second.trackArtists.trans first.trackArtists
      trackGenres := second.trackGenres.trans first.trackGenres
      artistName := fun id name h => second.artistName id name (first.artistName id name h) }

/-- The statements after the Track is written: the Tracks with what belongs to
them stay, and so do the Artists and Genres that are credited. -/
structure KeepsTracks (s t : Database) : Prop where
  tracks : t.tracks = s.tracks
  trackSources : t.trackSources = s.trackSources
  trackArtists : t.trackArtists = s.trackArtists
  trackGenres : t.trackGenres = s.trackGenres
  artistName : ∀ row ∈ s.trackArtists, t.artistName row.creditId = s.artistName row.creditId
  genres : t.genres = s.genres

instance : IsPreorder Database KeepsTracks where
  refl _ := ⟨rfl, rfl, rfl, rfl, fun _ _ => rfl, rfl⟩
  trans _ _ _ first second :=
    { tracks := second.tracks.trans first.tracks
      trackSources := second.trackSources.trans first.trackSources
      trackArtists := second.trackArtists.trans first.trackArtists
      trackGenres := second.trackGenres.trans first.trackGenres
      artistName := fun row hrow =>
        (second.artistName row (first.trackArtists ▸ hrow)).trans (first.artistName row hrow)
      genres := second.genres.trans first.genres }

variable {s t : Database}

theorem KeepsTracks.fileColumns (h : KeepsTracks s t) (trackId : String) :
    t.fileColumns trackId = s.fileColumns trackId := by
  have hartists : creditNames t.artistName trackId t.trackArtists =
      creditNames s.artistName trackId s.trackArtists := by
    rw [h.trackArtists]
    refine List.map_congr_left fun row hrow => ?_
    rw [h.artistName row (List.mem_of_mem_filter hrow)]
  have hname : t.genreName = s.genreName := by
    funext id
    rw [Database.genreName, Database.genreName, h.genres]
  rw [Database.fileColumns, Database.fileColumns, h.tracks, h.trackSources, hartists, hname,
    h.trackGenres]

section Statements

variable {P : Platform} {stat : Stat} {ids : List (String × String)} {names : List String}
  {data : CommitData}

theorem uuid_prepares : Moves Prepares (Tx.uuid P) := by
  intro s id t hrun
  rw [Tx.run_uuid_ok] at hrun
  exact hrun.2 ▸ ⟨rfl, rfl, rfl, rfl, fun _ _ h => h⟩

/-- The Artist that is found or created carries the normalized name. -/
theorem upsertArtist_spec {name preferred id : String}
    (hrun : upsertArtist P name preferred s = .ok (id, t)) :
    Prepares s t ∧ t.artistName id = some (normalizeIdentity P name) := by
  simp only [upsertArtist, run_bind_ok, run_get_ok] at hrun
  obtain ⟨_, _, ⟨rfl, rfl⟩, hrun⟩ := hrun
  cases hfound : s.artistIdOf (normalizeIdentity P name) with
  | some found =>
    obtain ⟨row, hrow, hname⟩ := Database.keyOf_eq_some hfound
    simp only [hfound] at hrun
    split at hrun
    · simp at hrun
    · simp only [run_pure_ok] at hrun
      obtain ⟨rfl, rfl⟩ := hrun
      refine ⟨refl s, ?_⟩
      simpa [Database.artistName, hrow] using hname
  | none =>
    simp only [hfound, run_bind_ok, run_get_ok, Tx.run_constraint_ok, run_modify_ok,
      run_pure_ok] at hrun
    obtain ⟨new, u, hid, _, _, ⟨rfl, rfl⟩, _, _, ⟨hfresh, rfl⟩, _, _, rfl, rfl, rfl⟩ := hrun
    have hnew : new ∉ u.artists := by simpa using hfresh
    have hprepares : Prepares s u := Moves.ite uuid_prepares (.pure preferred) s new u hid
    refine ⟨trans_of Prepares hprepares ?_, by simp [Database.artistName]⟩
    refine ⟨rfl, rfl, rfl, rfl, fun id' name' hname => ?_⟩
    have hne : id' ≠ new := by
      rintro rfl
      rw [Database.artistName, AList.lookup_eq_none.mpr hnew] at hname
      simp at hname
    simpa [Database.artistName, Table.lookup_insert_eq, hne] using hname

/-- Every Artist ID is that of the Artist with the name it is filed under. -/
theorem upsertArtists_spec {albumArtists artists : List String} {albumArtistId : String}
    (hrun : upsertArtists P albumArtists artists albumArtistId s = .ok (ids, t)) :
    Prepares s t ∧ ∀ normalized id, ids.lookup normalized = some id →
      t.artistName id = some normalized := by
  simp only [upsertArtists, run_bind_ok, Tx.run_indexed_ok] at hrun
  obtain ⟨first, _, ⟨-, rfl⟩, hfold⟩ := hrun
  refine fold_preserves
    (P := fun ids u => Prepares s u ∧ ∀ normalized id, ids.lookup normalized = some id →
      u.artistName id = some normalized) ?_ ⟨refl s, by simp⟩ hfold
  rintro known name u ids' v ⟨hprepares, hknown⟩ hstep
  split at hstep
  · rw [run_pure_ok] at hstep
    obtain ⟨rfl, rfl⟩ := hstep
    exact ⟨hprepares, hknown⟩
  · simp only [run_bind_ok, run_pure_ok] at hstep
    obtain ⟨id, w, hupsert, rfl, rfl⟩ := hstep
    obtain ⟨hmoved, hnamed⟩ := upsertArtist_spec hupsert
    refine ⟨trans_of Prepares hprepares hmoved, fun normalized id' hlookup => ?_⟩
    rw [List.lookup_cons] at hlookup
    split at hlookup
    · next heq =>
      obtain rfl : id = id' := Option.some.inj hlookup
      rw [hnamed, eq_of_beq heq]
    · exact hmoved.artistName id' normalized (hknown normalized id' hlookup)

theorem upsertAlbumFor_prepares (data : CommitData) (ids : List (String × String)) :
    Moves Prepares (upsertAlbumFor P data ids) := by
  intro s a t hrun
  simp only [upsertAlbumFor, run_bind_ok, run_get_ok] at hrun
  obtain ⟨_, _, ⟨rfl, rfl⟩, hrun⟩ := hrun
  cases hfound : s.albumIdOf data.albumKey with
  | some existing =>
    simp only [hfound, run_require_ok] at hrun
    exact hrun.2 ▸ refl s
  | none =>
    simp only [hfound, run_bind_ok, Tx.run_indexed_ok, Tx.run_constraint_ok, run_modify_ok] at hrun
    obtain ⟨_, _, ⟨-, rfl⟩, _, _, ⟨-, rfl⟩, _, _, ⟨-, rfl⟩, _, _, ⟨-, rfl⟩, rfl⟩ := hrun
    exact ⟨rfl, rfl, rfl, rfl, fun _ _ h => h⟩

theorem moveOrDeleteArtworkReference_prepares (trackId albumId : String) :
    Moves Prepares (moveOrDeleteArtworkReference trackId albumId) := by
  intro s a t hrun
  simp only [moveOrDeleteArtworkReference, run_bind_ok, run_get_ok] at hrun
  obtain ⟨_, _, ⟨rfl, rfl⟩, hrun⟩ := hrun
  cases hother : s.otherTrack trackId albumId with
  | none =>
    simp only [hother, run_modify_ok] at hrun
    exact hrun ▸ ⟨rfl, rfl, rfl, rfl, fun _ _ h => h⟩
  | some other =>
    cases hartwork : s.albumArtwork.lookup albumId with
    | none =>
      simp only [hother, hartwork, run_pure_ok] at hrun
      exact hrun.2 ▸ refl s
    | some artwork =>
      simp only [hother, hartwork] at hrun
      split at hrun
      · exact Database.run_updateArtwork_ok hrun ▸ ⟨rfl, rfl, rfl, rfl, fun _ _ h => h⟩
      · rw [run_pure_ok] at hrun
        exact hrun.2 ▸ refl s

/-! ### Credits in the order of the file -/

/-- A row that credits the owner with a name of the file at its position. -/
def IsCredit (P : Platform) (nameOf : String → Option String) (ownerId : String) (row : CreditRow)
    (entry : String × ℕ) : Prop :=
  row.ownerId = ownerId ∧ row.position = entry.2 ∧
    nameOf row.creditId = some (normalizeIdentity P entry.1)

/-- What the file itself says about its credits or Genres. -/
def fileCredits (P : Platform) (names : List String) : List (ℕ × Option String) :=
  names.zipIdx.map fun entry => (entry.2, some (normalizeIdentity P entry.1))

theorem creditNames_of_isCredit {nameOf : String → Option String} {ownerId : String}
    {before rows : List CreditRow} (hbefore : ∀ row ∈ before, row.ownerId ≠ ownerId)
    (hrows : List.Forall₂ (IsCredit P nameOf ownerId) rows names.zipIdx) :
    creditNames nameOf ownerId (before ++ rows) = fileCredits P names := by
  have hnone : before.filter (fun row => row.ownerId = ownerId) = [] := by
    simpa [List.filter_eq_nil_iff] using hbefore
  rw [creditNames, List.filter_append, hnone, List.nil_append, fileCredits]
  generalize names.zipIdx = entries at hrows ⊢
  induction hrows with
  | nil => rfl
  | cons hrow _ ih =>
    obtain ⟨howner, hposition, hname⟩ := hrow
    simp [howner, hposition, hname, ih]

theorem insertTrackArtistCredits_spec {trackId : String} {a : Unit}
    (hids : ∀ normalized id, ids.lookup normalized = some id → s.artistName id = some normalized)
    (hrun : insertTrackArtistCredits P trackId names ids s = .ok (a, t)) :
    ∃ rows, { s with trackArtists := s.trackArtists ++ rows } = t ∧
      List.Forall₂ (IsCredit P s.artistName trackId) rows names.zipIdx := by
  refine forEach_preserves
    (P := fun entries u => ∃ rows, { s with trackArtists := s.trackArtists ++ rows } = u ∧
      List.Forall₂ (IsCredit P s.artistName trackId) rows entries) ?_ ⟨[], by simp, .nil⟩ hrun
  rintro entries entry _ v ⟨rows, rfl, hrows⟩ hstep
  simp only [creditId, run_bind_ok, Tx.run_indexed_ok, run_get_ok, Tx.run_constraint_ok,
    run_modify_ok] at hstep
  obtain ⟨id, _, ⟨hid, rfl⟩, _, _, ⟨rfl, rfl⟩, _, _, ⟨-, rfl⟩, rfl⟩ := hstep
  refine ⟨rows ++ [⟨trackId, id, entry.2⟩], by simp, ?_⟩
  exact List.rel_append hrows (.cons ⟨rfl, rfl, hids _ _ hid⟩ .nil)

/-- The Genre that is found or created carries the normalized name. -/
theorem upsertGenre_spec {name id : String} (hrun : upsertGenre P name s = .ok (id, t)) :
    { s with genres := t.genres, drawn := t.drawn } = t ∧
      (∀ id name, s.genreName id = some name → t.genreName id = some name) ∧
      t.genreName id = some (normalizeIdentity P name) := by
  simp only [upsertGenre, run_bind_ok, run_get_ok] at hrun
  obtain ⟨_, _, ⟨rfl, rfl⟩, hrun⟩ := hrun
  cases hfound : s.genreIdOf (normalizeIdentity P name) with
  | some found =>
    obtain ⟨row, hrow, hname⟩ := Database.keyOf_eq_some hfound
    simp only [hfound, run_pure_ok] at hrun
    obtain ⟨rfl, rfl⟩ := hrun
    refine ⟨rfl, fun _ _ h => h, ?_⟩
    simpa [Database.genreName, hrow] using hname
  | none =>
    simp only [hfound, run_bind_ok, Tx.run_uuid_ok, run_get_ok, Tx.run_constraint_ok,
      run_modify_ok, run_pure_ok] at hrun
    obtain ⟨_, _, ⟨rfl, rfl⟩, _, _, ⟨rfl, rfl⟩, _, _, ⟨hfresh, rfl⟩, _, _, rfl, rfl, rfl⟩ := hrun
    have hnew : P.uuid s.drawn ∉ s.genres := by simpa using hfresh
    refine ⟨rfl, fun id' name' hname => ?_, by simp [Database.genreName]⟩
    have hne : id' ≠ P.uuid s.drawn := by
      rintro rfl
      rw [Database.genreName, AList.lookup_eq_none.mpr hnew] at hname
      simp at hname
    simpa [Database.genreName, Table.lookup_insert_eq, hne] using hname

theorem insertTrackGenres_spec {trackId : String} {a : Unit}
    (hrun : insertTrackGenres P trackId names s = .ok (a, t)) :
    { s with trackGenres := t.trackGenres, genres := t.genres, drawn := t.drawn } = t ∧
      ∃ rows, t.trackGenres = s.trackGenres ++ rows ∧
        List.Forall₂ (IsCredit P t.genreName trackId) rows names.zipIdx := by
  refine forEach_preserves
    (P := fun entries u =>
      { s with trackGenres := u.trackGenres, genres := u.genres, drawn := u.drawn } = u ∧
      ∃ rows, u.trackGenres = s.trackGenres ++ rows ∧
        List.Forall₂ (IsCredit P u.genreName trackId) rows entries)
    ?_ ⟨rfl, [], by simp, .nil⟩ hrun
  rintro entries entry u v ⟨hkept, rows, hgenres, hrows⟩ hstep
  simp only [run_bind_ok, run_get_ok, Tx.run_constraint_ok, run_modify_ok] at hstep
  obtain ⟨id, w, hupsert, _, _, ⟨rfl, rfl⟩, _, _, ⟨-, rfl⟩, rfl⟩ := hstep
  obtain ⟨hmoved, hnames, hnamed⟩ := upsertGenre_spec hupsert
  have hrow : IsCredit P w.genreName trackId ⟨trackId, id, entry.2⟩ entry := ⟨rfl, rfl, hnamed⟩
  have hseen : List.Forall₂ (IsCredit P w.genreName trackId) rows entries :=
    hrows.imp fun row entry h => ⟨h.1, h.2.1, hnames _ _ h.2.2⟩
  refine ⟨?_, rows ++ [⟨trackId, id, entry.2⟩], ?_, List.rel_append hseen (.cons hrow .nil)⟩
  · rw [← hmoved, ← hkept]
  · rw [← hmoved]
    simp [hgenres]

theorem insertAlbumArtistCredits_prepares (albumId : String) (names : List String)
    (ids : List (String × String)) :
    Moves Prepares (insertAlbumArtistCredits P albumId names ids) := by
  refine Moves.forEach (fun entry => .bind (Moves.fromOption _ _) fun id => .modify fun s => ?_) _
  split
  · exact ⟨rfl, rfl, rfl, rfl, fun _ _ h => h⟩
  · exact refl s

/-- Both loops write the credits and Genres of the file when the Track has none
left, and leave its row and its source. -/
theorem insertRelationships_spec {a : Unit}
    (hids : ∀ normalized id, ids.lookup normalized = some id → s.artistName id = some normalized)
    (hartists : ∀ row ∈ s.trackArtists, row.ownerId ≠ data.identity.trackId)
    (hgenres : ∀ row ∈ s.trackGenres, row.ownerId ≠ data.identity.trackId)
    (hrun : insertRelationships P data ids s = .ok (a, t)) :
    t.tracks = s.tracks ∧ t.trackSources = s.trackSources ∧
      creditNames t.artistName data.identity.trackId t.trackArtists =
        fileCredits P data.inspection.metadata.artists ∧
      creditNames t.genreName data.identity.trackId t.trackGenres =
        fileCredits P data.inspection.metadata.genres := by
  simp only [insertRelationships, run_bind_ok] at hrun
  obtain ⟨_, u, halbum, _, v, hcredits, hlast⟩ := hrun
  have hu := insertAlbumArtistCredits_prepares _ _ _ s _ u halbum
  have hids' : ∀ normalized id, ids.lookup normalized = some id →
      u.artistName id = some normalized :=
    fun normalized id h => hu.artistName id normalized (hids normalized id h)
  obtain ⟨credits, rfl, hcredited⟩ := insertTrackArtistCredits_spec hids' hcredits
  obtain ⟨hkept, genres, hgenreRows, hnamed⟩ := insertTrackGenres_spec hlast
  have hnames : t.artistName = u.artistName := by
    rw [← hkept]
    rfl
  refine ⟨?_, ?_, ?_, ?_⟩
  · rw [← hkept]
    exact hu.tracks
  · rw [← hkept]
    exact hu.trackSources
  · have hrows : t.trackArtists = s.trackArtists ++ credits := by
      rw [← hkept, ← hu.trackArtists]
    rw [hrows, hnames]
    exact creditNames_of_isCredit hartists hcredited
  · rw [hgenreRows]
    refine creditNames_of_isCredit (fun row hrow => hgenres row ?_) hnamed
    rw [← hu.trackGenres]
    exact hrow

/-! ### What follows the Track -/

theorem insertArtworkFor_keepsTracks (data : CommitData) :
    Moves KeepsTracks (insertArtworkFor P data) := by
  refine .ite (.pure ()) (.bind ?_ fun id => ?_)
  · intro s id t hrun
    rw [Tx.run_uuid_ok] at hrun
    exact hrun.2 ▸ ⟨rfl, rfl, rfl, rfl, fun _ _ => rfl, rfl⟩
  · intro s _ t hrun
    exact Database.run_insertArtwork_ok hrun ▸ ⟨rfl, rfl, rfl, rfl, fun _ _ => rfl, rfl⟩

theorem writeReplacementArtwork_keepsTracks (data : CommitData) (target : Target)
    (placement : ReplacementPlacement) :
    Moves KeepsTracks (writeReplacementArtwork P data target placement) := by
  unfold writeReplacementArtwork
  cases placement.artworkMode with
  | create => exact insertArtworkFor_keepsTracks _
  | replace =>
    refine .bind .get fun db => .bind (.fromOption _ _) fun row => ?_
    intro s _ t hrun
    exact Database.run_updateArtwork_ok hrun ▸ ⟨rfl, rfl, rfl, rfl, fun _ _ => rfl, rfl⟩
  | none => exact .pure ()
  | existing => exact .pure ()

theorem deleteAlbumIfEmpty_keepsTracks (albumId : String) :
    Moves KeepsTracks (Database.deleteAlbumIfEmpty albumId) := by
  refine .modify fun s => ?_
  split
  · exact refl s
  · exact ⟨rfl, rfl, rfl, rfl, fun _ _ => rfl, rfl⟩

/-- An Artist that a Track credits is not deleted. -/
theorem deleteArtistIfUnreferenced_keepsTracks (artistId : String) :
    Moves KeepsTracks (Database.deleteArtistIfUnreferenced artistId) := by
  intro s _ t hrun
  simp only [Database.deleteArtistIfUnreferenced, run_bind_ok, run_get_ok] at hrun
  obtain ⟨_, _, ⟨rfl, rfl⟩, hrun⟩ := hrun
  split at hrun
  · rw [run_pure_ok] at hrun
    exact hrun.2 ▸ refl s
  · next hcredit =>
    simp only [run_bind_ok, Tx.run_constraint_ok, run_modify_ok] at hrun
    obtain ⟨_, _, ⟨-, rfl⟩, rfl⟩ := hrun
    refine ⟨rfl, rfl, rfl, rfl, fun row hrow => ?_, rfl⟩
    have hne : row.creditId ≠ artistId := by
      rintro rfl
      exact hcredit (by simpa [Database.hasArtistCredit] using .inl ⟨row, hrow, rfl⟩)
    simp [Database.artistName, AList.lookup_erase_ne hne]

theorem advanceQueues_keepsTracks (queues : List QueueReference) :
    Moves KeepsTracks (advanceQueues queues) :=
  .fold (fun _ _ => .bind .get fun _ => .bind
    (.modify fun _ => ⟨rfl, rfl, rfl, rfl, fun _ _ => rfl, rfl⟩) fun _ => .pure _) _ _

/-! ### The two paths -/

/-- An import leaves the columns of its rows and the credits of the file. -/
theorem writeCommitData_columns {a : Unit} (hcredits : s.CreditsHaveTracks)
    (hrun : writeCommitData P stat data s = .ok (a, t)) :
    ∃ facts id, stat data.placement.audioPath = some facts ∧
      t.fileColumns data.identity.trackId = some (fileColumnsOf (trackRow P data facts)
        (sourceRow data facts id) (fileCredits P data.inspection.metadata.artists)
        (fileCredits P data.inspection.metadata.genres)) := by
  simp only [writeCommitData, insertTrack, fileFacts, run_bind_ok, run_fromOption_ok,
    Tx.run_uuid_ok] at hrun
  obtain ⟨ids, s₁, hupsert, _, s₂, halbum, _, s₃, ⟨facts, _, ⟨hfacts, rfl⟩, _, s₄, htrack, _, _,
    ⟨rfl, rfl⟩, hsource⟩, _, s₅, hwritten, hartwork⟩ := hrun
  obtain ⟨hprepared, hids⟩ := upsertArtists_spec hupsert
  have hcreated := upsertAlbumFor_prepares _ _ s₁ _ s₂ halbum
  have hs₂ := trans_of Prepares hprepared hcreated
  obtain ⟨hnew, rfl⟩ := Database.run_insertTrack_ok htrack
  obtain rfl := Database.run_insertSource_ok hsource
  -- The Track is new, so nothing can be credited to it yet.
  rw [hs₂.tracks] at hnew
  have hartists : ∀ row ∈ s.trackArtists, row.ownerId ≠ data.identity.trackId :=
    fun row hrow heq => hnew (heq ▸ hcredits.trackArtists row hrow)
  have hgenres : ∀ row ∈ s.trackGenres, row.ownerId ≠ data.identity.trackId :=
    fun row hrow heq => hnew (heq ▸ hcredits.trackGenres row hrow)
  have hspec := fun hids hartists hgenres =>
    insertRelationships_spec hids hartists hgenres hwritten
  obtain ⟨htracks, hsources, hartistNames, hgenreNames⟩ := hspec
    (fun normalized id h => hcreated.artistName id normalized (hids normalized id h))
    (fun row hrow => hartists row (hs₂.trackArtists ▸ hrow))
    (fun row hrow => hgenres row (hs₂.trackGenres ▸ hrow))
  refine ⟨facts, P.uuid s₂.drawn, hfacts, ?_⟩
  rw [(insertArtworkFor_keepsTracks data s₅ _ t hartwork).fileColumns]
  simp [Database.fileColumns, htracks, hsources, hartistNames, hgenreNames]

/-- A Track Replacement leaves the columns of the updated rows and the credits of
the file. -/
theorem writeReplacementData_columns {target : Target} {placement : ReplacementPlacement}
    {invalidations : List QueueInvalidation} (htarget : data.identity.trackId = target.row.trackId)
    (hrun : writeReplacementData P stat data target placement s = .ok (invalidations, t)) :
    ∃ facts row source, stat data.placement.audioPath = some facts ∧
      s.tracks.lookup target.row.trackId = some row ∧
      t.fileColumns target.row.trackId = some (fileColumnsOf (replacedTrackRow P data facts row)
        (replacedSourceRow data facts source) (fileCredits P data.inspection.metadata.artists)
        (fileCredits P data.inspection.metadata.genres)) := by
  simp only [writeReplacementData, run_bind_ok] at hrun
  obtain ⟨ids, s₁, hupsert, _, s₂, halbum, previous, s₃, hprevious, _, s₄, hmove, _, s₅, hupdate,
    _, s₆, hclear, _, s₇, hcredits, _, s₈, hartwork, _, s₉, hempty, _, s₁₀, hartists,
    hqueues⟩ := hrun
  obtain ⟨hprepared, hids⟩ := upsertArtists_spec hupsert
  have hcreated := upsertAlbumFor_prepares _ _ s₁ _ s₂ halbum
  simp only [trackAndAlbumArtistIds, run_bind_ok, run_get_ok, run_pure_ok] at hprevious
  obtain ⟨_, _, ⟨rfl, rfl⟩, -, rfl⟩ := hprevious
  have hmoved : Prepares s₂ s₄ :=
    Moves.onlyIf _ (moveOrDeleteArtworkReference_prepares _ _) s₂ _ s₄ hmove
  have hs₄ := trans_of Prepares (trans_of Prepares hprepared hcreated) hmoved
  -- The update reads the row that the library held before the replacement.
  simp only [updateReplacedTrack, fileFacts, run_bind_ok, run_fromOption_ok, run_get_ok] at hupdate
  obtain ⟨facts, _, ⟨hfacts, rfl⟩, _, _, ⟨rfl, rfl⟩, row, _, ⟨hrow, rfl⟩, _, u, htrack, source, _,
    ⟨hsource, rfl⟩, hsourceUpdate⟩ := hupdate
  obtain rfl := Database.run_updateTrack_ok htrack
  obtain rfl := Database.run_updateSource_ok hsourceUpdate
  have hrow' : s₄.tracks.lookup target.row.trackId = some row :=
    (Option.filter_eq_some_iff.mp hrow).1
  have hsource' : s₄.trackSources.lookup target.row.trackId = some source :=
    (Option.filter_eq_some_iff.mp hsource).1
  simp only [clearTrackRelationships, run_modify_ok] at hclear
  subst hclear
  have hspec := fun hids hartists hgenres =>
    insertRelationships_spec hids hartists hgenres hcredits
  obtain ⟨htracks, hsources, hartistNames, hgenreNames⟩ := hspec
    (fun normalized id h => hmoved.artistName id normalized
      (hcreated.artistName id normalized (hids normalized id h)))
    (by simp [htarget]) (by simp [htarget])
  have hkept : KeepsTracks s₇ t :=
    trans_of KeepsTracks (writeReplacementArtwork_keepsTracks _ _ _ s₇ _ s₈ hartwork)
      (trans_of KeepsTracks
        (Moves.onlyIf _ (deleteAlbumIfEmpty_keepsTracks _) s₈ _ s₉ hempty)
        (trans_of KeepsTracks
          (Moves.forEach deleteArtistIfUnreferenced_keepsTracks _ s₉ _ s₁₀ hartists)
          (advanceQueues_keepsTracks _ s₁₀ _ t hqueues)))
  refine ⟨facts, row, source, hfacts, hs₄.tracks ▸ hrow', ?_⟩
  rw [htarget] at hartistNames hgenreNames
  rw [hkept.fileColumns]
  simp [Database.fileColumns, htracks, hsources, hartistNames, hgenreNames, hrow', hsource']

/-- The columns of a replaced Track are those of a fresh import of the same file
exactly when its previous file had the same lyrics. -/
theorem replaced_track_adopts_file_iff {stat' : Stat} {data imported : CommitData} {target : Target}
    {placement : ReplacementPlacement} {invalidations : List QueueInvalidation} {a : Unit}
    {library replaced fresh published : Database}
    (htarget : data.identity.trackId = target.row.trackId)
    (hsameFile : imported.inspection = data.inspection)
    (hsameSize : (stat' imported.placement.audioPath).map FileFacts.size =
      (stat data.placement.audioPath).map FileFacts.size)
    (hcredits : fresh.CreditsHaveTracks)
    (hreplace : writeReplacementData P stat data target placement library =
      .ok (invalidations, replaced))
    (himport : writeCommitData P stat' imported fresh = .ok (a, published)) :
    replaced.fileColumns target.row.trackId = published.fileColumns imported.identity.trackId ↔
      (library.tracks.lookup target.row.trackId).map TrackRow.lyrics =
        some data.inspection.metadata.lyrics := by
  obtain ⟨facts', id, hfacts', hpublished⟩ := writeCommitData_columns hcredits himport
  obtain ⟨facts, row, source, hfacts, hrow, hreplaced⟩ :=
    writeReplacementData_columns htarget hreplace
  have hsize : facts'.size = facts.size := by simpa [hfacts, hfacts'] using hsameSize
  rw [hpublished, hreplaced, hrow]
  simp [fileColumnsOf, trackRow, sourceRow, replacedTrackRow, replacedSourceRow, hsameFile, hsize]

end Statements

/-! ### A song and its replacement -/

def songMetadata (lyrics : String) : NormalizedMetadata where
  albumIdentityKey := ""
  title := "Song"
  artists := ["Artist"]
  albumArtists := ["Artist"]
  album := "Album"
  trackPosition := ⟨1, 0⟩
  discPosition := ⟨1, 0⟩
  genres := ["Genre"]
  year := 2020
  replayGain := ⟨none, none, none, none⟩
  lyrics := lyrics

def songInspection (lyrics sha256 : String) : MediaInspection where
  metadata := songMetadata lyrics
  albumArtwork := ⟨"", 0, 0, [], ""⟩
  audio := ⟨"flac", "flac", "flac", 1000, 44100, 2, 16, 800⟩
  fileSha256 := sha256

def songData (lyrics sha256 : String) : CommitData where
  identity := ⟨"artist", "album", "track", [], ""⟩
  placement := ⟨["library", sha256], [], [".staging", sha256], false⟩
  inspection := songInspection lyrics sha256
  albumKey := "Artist\x1fAlbum"

def songTarget : Target where
  row := ⟨"track", "album", 1, 1, ["library", "old"], "old", 1, [], "", true⟩
  relativePath := ["library", "old"]
  queues := []

def songPlacement : ReplacementPlacement where
  artworkMode := .none
  staged := [".staging", "new"]
  pendingAudio := ["library", "pending"]
  audio := ["library", "new"]
  previousAudio := ["library", "old"]
  retiredAudio := ["library", "retired"]
  pendingArtwork := []
  artwork := []
  previousArtwork := []
  retiredArtwork := []
  artworkCreated := false

def songStat : Stat := fun _ => some ⟨1, 0⟩

def importSong (lyrics sha256 : String) : Except Error (Unit × Database) :=
  writeCommitData plainPlatform songStat (songData lyrics sha256) Database.empty

def replaceSong (lyrics : String) (library : Database) :
    Except Error (List QueueInvalidation × Database) :=
  writeReplacementData plainPlatform songStat (songData lyrics "new") songTarget songPlacement
    library

theorem replaced_song_adopts_file :
    ∃ library replaced published, importSong "words" "old" = .ok library ∧
      replaceSong "words" library.2 = .ok replaced ∧ importSong "words" "new" = .ok published ∧
      replaced.2.fileColumns "track" = published.2.fileColumns "track" := by
  have himport : (importSong "words" "new").isOk = true := by decide +kernel
  have hreplace : (do replaceSong "words" (← importSong "words" "old").2).isOk = true := by
    decide +kernel
  cases hpublished : importSong "words" "new" with
  | error e => simp [hpublished, Except.isOk, Except.toBool] at himport
  | ok published =>
  cases hlibrary : importSong "words" "old" with
  | error e => simp [hlibrary, bind, Except.bind, Except.isOk, Except.toBool] at hreplace
  | ok library =>
  cases hreplaced : replaceSong "words" library.2 with
  | error e =>
    simp [hlibrary, hreplaced, bind, Except.bind, Except.isOk, Except.toBool] at hreplace
  | ok replaced =>
  refine ⟨library, replaced, published, rfl, hreplaced, rfl, ?_⟩
  have hlyrics : ((importSong "words" "old").map fun r =>
      (r.2.tracks.lookup "track").map TrackRow.lyrics).toOption = some (some "words") := by
    decide +kernel
  have hcredits : Database.empty.CreditsHaveTracks :=
    ⟨by simp [Database.empty], by simp [Database.empty]⟩
  have hprevious : (library.2.tracks.lookup "track").map TrackRow.lyrics = some "words" := by
    simpa [hlibrary, Except.map, Except.toOption] using hlyrics
  exact (replaced_track_adopts_file_iff rfl rfl rfl hcredits hreplaced hpublished).mpr hprevious

/-- A replacement with new lyrics leaves the old ones, which an import of the same
file does not write. -/
theorem replaced_song_keeps_previous_lyrics :
    (do
      let library ← importSong "old words" "old"
      let replaced ← replaceSong "new words" library.2
      let published ← importSong "new words" "new"
      pure ((replaced.2.fileColumns "track").map FileColumns.lyrics,
        (published.2.fileColumns "track").map FileColumns.lyrics)).toOption =
      some (some "old words", some "new words") := by
  decide +kernel

end Harmony.ManagedImport
