/-
# The library database

The tables that Managed Import writes, with the rules the schema enforces on
them: keys, references and the triggers on Album Artwork. A statement that breaks
a rule fails, and the transaction around it leaves nothing behind.

Rows keep the columns that some modelled function reads or writes. A row filed
under its primary key does not repeat it; the source of a Track and the artwork
of an Album are filed under the Track and the Album, which are unique in them.
-/

import Harmony.Library.Table
import Harmony.Library.Transaction
import Harmony.ManagedImport.Types

namespace Harmony.ManagedImport

/-! ### Rows of the library -/

structure ArtistRow where
  name : String
  nameSort : String
  nameNormalized : String

structure AlbumRow where
  artistId : String
  title : String
  titleSort : String
  year : Option ℤ
  releaseDate : Option String
  genres : List String
  identityKey : String

structure GenreRow where
  name : String
  nameNormalized : String

structure TrackRow where
  albumId : String
  title : String
  titleSort : String
  artistName : String
  trackNo : ℤ
  durationMs : ℤ
  format : String
  sizeBytes : ℤ
  filePath : RelativePath
  fileMtime : ℤ
  genre : String
  sampleRateHz : ℤ
  bitDepth : Option ℤ
  discNo : ℤ
  trackTotal : Option ℤ
  discTotal : Option ℤ
  channelCount : ℤ
  bitrateBps : ℤ
  codec : String
  container : String
  replaygainTrackGainDb : Option F64
  replaygainTrackPeak : Option F64
  replaygainAlbumGainDb : Option F64
  replaygainAlbumPeak : Option F64
  identityKey : String
  lyrics : String
  revision : ℕ
  /-- Whether `missing_at` is set. -/
  isMissing : Bool
  isPendingCommit : Bool

/-- The view `visible_tracks`. -/
def TrackRow.isVisible (row : TrackRow) : Bool := !row.isMissing && !row.isPendingCommit

/-- A managed source, filed under its Track. -/
structure SourceRow where
  id : String
  filePath : RelativePath
  contentSha256 : String
  sourceFormat : String
  sizeBytes : ℤ
  revision : ℕ

/-- An ordered reference: the Artist or Genre of a Track, or the Artist of an
Album. -/
structure CreditRow where
  ownerId : String
  creditId : String
  position : ℕ

/-- The artwork of an Album, filed under it. -/
structure ArtworkRow where
  id : String
  sourceTrackId : String
  contentSha256 : String
  mediaType : String
  width : ℤ
  height : ℤ
  encodedSizeBytes : ℤ
  filePath : RelativePath
  revision : ℕ

structure QueueItemRow where
  userId : String
  trackId : String

structure QueueStateRow where
  revision : ℕ
  eventSequence : ℕ

structure PlaylistTrackRow where
  playlistId : String
  trackId : String

/-! ### Rows of Managed Import -/

inductive JobStatus
  | uploading
  | awaitingConfirmation
  | committed
  | failed
  deriving DecidableEq

inductive Outcome
  | imported
  | rejected
  | failed
  | replaced
  | notAttempted

/-- The per-file plan a Batch confirmation stores. -/
structure ImportPlan where
  targetRevision : ℕ
  skipExact : Bool
  albumKey : String
  artworkId : String
  action : String
  targetId : String
  deriving DecidableEq

structure JobRow where
  status : JobStatus
  revision : ℕ
  batchId : Option String
  batchPosition : ℕ
  stagedFilePath : Option RelativePath
  contentSha256 : String
  trackId : Option String
  errorCode : String
  errorField : String
  errorReason : String
  outcome : Option Outcome
  selected : Bool
  replaceTrackId : Option String
  importPlan : Option ImportPlan
  uploadSizeBytes : ℤ
  updatedAt : ℕ

inductive BatchStatus
  | uploading
  | confirming
  | completed
  deriving DecidableEq

structure BatchRow where
  status : BatchStatus
  revision : ℕ
  updatedAt : ℕ

inductive CommitPhase
  | prepared
  | placed
  | verified
  | databaseCommitted
  | cleaned
  | completed
  | rolledBack

structure CommitJournalRow where
  jobId : String
  trackId : String
  phase : CommitPhase
  stagedFilePath : RelativePath
  audioFilePath : RelativePath
  artworkFilePath : RelativePath
  audioSha256 : String
  artworkSha256 : String
  isArtworkCreated : Bool
  recoveryReason : String

inductive ReplacementPhase
  | prepared
  | placed
  | verified
  | swapped
  | databaseCommitted
  | completed
  | rolledBack
  deriving DecidableEq

structure ReplacementJournalRow where
  jobId : String
  trackId : String
  phase : ReplacementPhase
  stagedFilePath : RelativePath
  pendingAudioPath : RelativePath
  audioFilePath : RelativePath
  previousAudioPath : RelativePath
  retiredAudioPath : RelativePath
  audioSha256 : String
  previousAudioSha256 : String
  artworkMode : ReplacementArtworkMode
  pendingArtworkPath : RelativePath
  artworkFilePath : RelativePath
  previousArtworkPath : RelativePath
  retiredArtworkPath : RelativePath
  artworkSha256 : String
  previousArtworkSha256 : String
  isArtworkCreated : Bool
  previousAlbumId : String
  recoveryReason : String
  deriving DecidableEq

/-- A row of `permanent_track_deletions`, filed under its Track. -/
structure DeletionRow where
  filePath : RelativePath
  contentSha256 : String
  artworkFilePath : RelativePath
  artworkContentSha256 : String

/-! ### The database -/

structure Database where
  artists : Table String ArtistRow
  albums : Table String AlbumRow
  genres : Table String GenreRow
  tracks : Table String TrackRow
  trackSources : Table String SourceRow
  trackArtists : List CreditRow
  trackGenres : List CreditRow
  albumArtists : List CreditRow
  albumArtwork : Table String ArtworkRow
  playbackQueue : List QueueItemRow
  playbackQueueState : Table String QueueStateRow
  playlistTracks : List PlaylistTrackRow
  jobs : Table String JobRow
  batches : Table String BatchRow
  commitJournals : Table String CommitJournalRow
  replacementJournals : Table String ReplacementJournalRow
  deletions : Table String DeletionRow
  /-- How many random ids were drawn so far. -/
  drawn : ℕ

namespace Database

def empty : Database where
  artists := ∅
  albums := ∅
  genres := ∅
  tracks := ∅
  trackSources := ∅
  trackArtists := []
  trackGenres := []
  albumArtists := []
  albumArtwork := ∅
  playbackQueue := []
  playbackQueueState := ∅
  playlistTracks := []
  jobs := ∅
  batches := ∅
  commitJournals := ∅
  replacementJournals := ∅
  deletions := ∅
  drawn := 0

end Database

/-- A write transaction on the library. -/
abbrev Tx (α : Type) := Transaction Database Error α

namespace Tx

export Transaction (require onlyIf fromOption forEach fold)

/-- A rule of the schema, under the name SQLite reports. -/
def constraint (rule : String) (holds : Bool) : Tx Unit :=
  require holds (.new s!"constraint failed: {rule}")

/-- `requireOne`: a guarded statement must have matched a row. -/
def requireOne (matched : Bool) : Tx Unit := require matched (.sentinel .invalidState)

/-- `Uuid::new_v4`. -/
def uuid (P : Platform) : Tx String := do
  let db ← get
  modify fun db => { db with drawn := db.drawn + 1 }
  pure (P.uuid db.drawn)

/-- An index that panics outside its bounds, which ends the request. -/
def indexed {α : Type} (o : Option α) : Tx α := fromOption (.new "index out of bounds") o

section Committed

variable {s t : Database} {a : Unit}

@[simp] theorem run_constraint_ok {rule : String} {holds : Bool} :
    constraint rule holds s = .ok (a, t) ↔ holds = true ∧ s = t :=
  Transaction.run_require_ok

@[simp] theorem run_requireOne_ok {matched : Bool} :
    requireOne matched s = .ok (a, t) ↔ matched = true ∧ s = t :=
  Transaction.run_require_ok

@[simp] theorem run_uuid_ok {P : Platform} {id : String} :
    uuid P s = .ok (id, t) ↔ P.uuid s.drawn = id ∧ { s with drawn := s.drawn + 1 } = t := by
  simp [uuid, Transaction.run_bind_ok, and_comm]

@[simp] theorem run_indexed_ok {α : Type} {o : Option α} {a : α} :
    indexed o s = .ok (a, t) ↔ o = some a ∧ s = t :=
  Transaction.run_fromOption_ok

end Committed

end Tx

/-! ### Statements and the rules of the schema -/

namespace Database

/-- The key under which a row of a kind is filed. -/
def keyOf {ρ : Type} (p : ρ → Bool) (t : Table String ρ) : Option String :=
  (t.entries.find? fun e => p e.2).map Sigma.fst

theorem keyOf_eq_some {ρ : Type} {p : ρ → Bool} {t : Table String ρ} {id : String}
    (h : keyOf p t = some id) : ∃ row, t.lookup id = some row ∧ p row = true := by
  obtain ⟨⟨key, row⟩, hfind, rfl⟩ := Option.map_eq_some_iff.mp h
  have hmem := List.mem_of_find?_eq_some hfind
  have hp := List.find?_some hfind
  exact ⟨row, AList.mem_lookup_iff.mpr hmem, hp⟩

def artistIdOf (db : Database) (normalized : String) : Option String :=
  keyOf (fun row => row.nameNormalized = normalized) db.artists

def albumIdOf (db : Database) (identityKey : String) : Option String :=
  keyOf (fun row => row.identityKey = identityKey) db.albums

def genreIdOf (db : Database) (normalized : String) : Option String :=
  keyOf (fun row => row.nameNormalized = normalized) db.genres

/-- The checks on positions: the columns' own and the trigger's. -/
def hasValidPosition (row : TrackRow) : Bool :=
  0 < row.discNo ∧ (∀ total ∈ row.trackTotal, row.trackNo ≤ total) ∧
    (∀ total ∈ row.discTotal, row.discNo ≤ total) ∧ 0 < row.channelCount ∧ 0 < row.bitrateBps

/-- No other Track that is not missing holds the row's position in its Album. -/
def hasFreePosition (db : Database) (trackId : String) (row : TrackRow) : Bool :=
  row.isMissing ∨ !db.tracks.any fun id other =>
    id ≠ trackId ∧ !other.isMissing ∧ other.albumId = row.albumId ∧
      other.discNo = row.discNo ∧ other.trackNo = row.trackNo

def hasFreePath (db : Database) (trackId : String) (row : TrackRow) : Bool :=
  !db.tracks.any fun id other => id ≠ trackId ∧ other.filePath = row.filePath

/-- The rules a row of `tracks` must keep. -/
def checkTrack (trackId : String) (row : TrackRow) : Tx Unit := do
  let db ← get
  Tx.constraint "FOREIGN KEY tracks.album_id" (row.albumId ∈ db.albums)
  Tx.constraint "CHECK tracks position totals" (hasValidPosition row)
  Tx.constraint "UNIQUE tracks.file_path" (db.hasFreePath trackId row)
  Tx.constraint "UNIQUE idx_tracks_active_album_position" (db.hasFreePosition trackId row)

def insertTrack (trackId : String) (row : TrackRow) : Tx Unit := do
  let db ← get
  Tx.constraint "UNIQUE tracks.id" (trackId ∉ db.tracks)
  checkTrack trackId row
  modify fun db => { db with tracks := db.tracks.insert trackId row }

variable {s t : Database} {trackId : String} {a : Unit} {row : ArtworkRow} {albumId : String}

theorem run_checkTrack_ok {row : TrackRow} :
    checkTrack trackId row s = .ok (a, t) ↔
      (row.albumId ∈ s.albums ∧ hasValidPosition row = true ∧ s.hasFreePath trackId row = true ∧
        s.hasFreePosition trackId row = true) ∧ s = t := by
  simp [checkTrack, Transaction.run_bind_ok, and_assoc]

theorem run_insertTrack_ok {row : TrackRow} (h : insertTrack trackId row s = .ok (a, t)) :
    trackId ∉ s.tracks ∧ { s with tracks := s.tracks.insert trackId row } = t := by
  simp only [insertTrack, Transaction.run_bind_ok, Transaction.run_get_ok, Tx.run_constraint_ok,
    run_checkTrack_ok, Transaction.run_modify_ok] at h
  obtain ⟨_, _, ⟨rfl, rfl⟩, _, _, ⟨hnew, rfl⟩, _, _, ⟨-, rfl⟩, hinsert⟩ := h
  exact ⟨by simpa using hnew, hinsert⟩

/-- The trigger that keeps the source of an Album's artwork in the Album. -/
def keepsArtworkSource (db : Database) (trackId albumId : String) : Bool :=
  !db.albumArtwork.any fun id artwork => artwork.sourceTrackId = trackId ∧ id ≠ albumId

/-- An update of the Track's row to what `f` makes of it. -/
def updateTrack (trackId : String) (row : TrackRow) : Tx Unit := do
  let db ← get
  Tx.constraint "Album Artwork source Track must remain in the Album"
    (db.keepsArtworkSource trackId row.albumId)
  checkTrack trackId row
  modify fun db => { db with tracks := db.tracks.modify trackId fun _ => row }

def checkSource (trackId : String) (row : SourceRow) : Tx Unit := do
  let db ← get
  Tx.constraint "UNIQUE track_sources.file_path"
    (!db.trackSources.any fun id other => id ≠ trackId ∧ other.filePath = row.filePath)
  Tx.constraint "UNIQUE track_sources.content_sha256"
    (!db.trackSources.any fun id other => id ≠ trackId ∧ other.contentSha256 = row.contentSha256)

def insertSource (trackId : String) (row : SourceRow) : Tx Unit := do
  let db ← get
  Tx.constraint "FOREIGN KEY track_sources.track_id" (trackId ∈ db.tracks)
  Tx.constraint "UNIQUE track_sources.track_id" (trackId ∉ db.trackSources)
  checkSource trackId row
  modify fun db => { db with trackSources := db.trackSources.insert trackId row }

def updateSource (trackId : String) (row : SourceRow) : Tx Unit := do
  checkSource trackId row
  modify fun db => { db with trackSources := db.trackSources.modify trackId fun _ => row }

theorem run_updateTrack_ok {row : TrackRow} (h : updateTrack trackId row s = .ok (a, t)) :
    { s with tracks := s.tracks.modify trackId fun _ => row } = t := by
  simp only [updateTrack, Transaction.run_bind_ok, Transaction.run_get_ok, Tx.run_constraint_ok,
    run_checkTrack_ok, Transaction.run_modify_ok] at h
  obtain ⟨_, _, ⟨rfl, rfl⟩, _, _, ⟨-, rfl⟩, _, _, ⟨-, rfl⟩, hupdate⟩ := h
  exact hupdate

theorem run_checkSource_ok {row : SourceRow} (h : checkSource trackId row s = .ok (a, t)) :
    s = t := by
  simp only [checkSource, Transaction.run_bind_ok, Transaction.run_get_ok,
    Tx.run_constraint_ok] at h
  obtain ⟨_, _, ⟨rfl, rfl⟩, _, _, ⟨-, rfl⟩, -, rfl⟩ := h
  rfl

theorem run_insertSource_ok {row : SourceRow} (h : insertSource trackId row s = .ok (a, t)) :
    { s with trackSources := s.trackSources.insert trackId row } = t := by
  simp only [insertSource, Transaction.run_bind_ok, Transaction.run_get_ok, Tx.run_constraint_ok,
    Transaction.run_modify_ok] at h
  obtain ⟨_, _, ⟨rfl, rfl⟩, _, _, ⟨-, rfl⟩, _, _, ⟨-, rfl⟩, _, _, hcheck, hinsert⟩ := h
  rw [run_checkSource_ok hcheck]
  exact hinsert

theorem run_updateSource_ok {row : SourceRow} (h : updateSource trackId row s = .ok (a, t)) :
    { s with trackSources := s.trackSources.modify trackId fun _ => row } = t := by
  simp only [updateSource, Transaction.run_bind_ok, Transaction.run_modify_ok] at h
  obtain ⟨_, _, hcheck, hupdate⟩ := h
  rw [run_checkSource_ok hcheck]
  exact hupdate

/-- The references of credits and Genres to their Tracks. -/
structure CreditsHaveTracks (db : Database) : Prop where
  trackArtists : ∀ row ∈ db.trackArtists, row.ownerId ∈ db.tracks
  trackGenres : ∀ row ∈ db.trackGenres, row.ownerId ∈ db.tracks

/-- The keys of a table of ordered references. -/
def acceptsCredit (credits : List CreditRow) (row : CreditRow) : Bool :=
  !credits.any fun other =>
    other.ownerId = row.ownerId ∧ (other.creditId = row.creditId ∨ other.position = row.position)

/-- The trigger on inserting or repointing Album Artwork. -/
def hasArtworkSource (db : Database) (albumId trackId : String) : Bool :=
  (db.tracks.lookup trackId).any fun row => row.albumId = albumId

/-- The checks on a row of `album_artwork`. -/
def checkArtwork (albumId : String) (row : ArtworkRow) : Tx Unit := do
  let db ← get
  Tx.constraint "Album Artwork source Track must belong to the Album"
    (db.hasArtworkSource albumId row.sourceTrackId)
  Tx.constraint "UNIQUE album_artwork.file_path"
    (!db.albumArtwork.any fun id other => id ≠ albumId ∧ other.filePath = row.filePath)

def insertArtwork (albumId : String) (row : ArtworkRow) : Tx Unit := do
  let db ← get
  Tx.constraint "UNIQUE album_artwork.album_id" (albumId ∉ db.albumArtwork)
  checkArtwork albumId row
  modify fun db => { db with albumArtwork := db.albumArtwork.insert albumId row }

def updateArtwork (albumId : String) (row : ArtworkRow) : Tx Unit := do
  checkArtwork albumId row
  modify fun db => { db with albumArtwork := db.albumArtwork.modify albumId fun _ => row }

theorem run_checkArtwork_ok :
    checkArtwork albumId row s = .ok (a, t) ↔
      (s.hasArtworkSource albumId row.sourceTrackId = true ∧
        (!s.albumArtwork.any fun id other => id ≠ albumId ∧ other.filePath = row.filePath) = true) ∧
      s = t := by
  simp [checkArtwork, Transaction.run_bind_ok, and_assoc]

theorem run_insertArtwork_ok (h : insertArtwork albumId row s = .ok (a, t)) :
    { s with albumArtwork := s.albumArtwork.insert albumId row } = t := by
  simp only [insertArtwork, Transaction.run_bind_ok, Transaction.run_get_ok, Tx.run_constraint_ok,
    run_checkArtwork_ok, Transaction.run_modify_ok] at h
  obtain ⟨_, _, ⟨rfl, rfl⟩, _, _, ⟨-, rfl⟩, _, _, ⟨-, rfl⟩, hinsert⟩ := h
  exact hinsert

theorem run_updateArtwork_ok (h : updateArtwork albumId row s = .ok (a, t)) :
    { s with albumArtwork := s.albumArtwork.modify albumId fun _ => row } = t := by
  simp only [updateArtwork, Transaction.run_bind_ok, run_checkArtwork_ok,
    Transaction.run_modify_ok] at h
  obtain ⟨_, _, ⟨-, rfl⟩, hupdate⟩ := h
  exact hupdate

/-- Deletes an Album that has no Track, with its credits and its artwork. -/
def deleteAlbumIfEmpty (albumId : String) : Tx Unit :=
  modify fun db =>
    if db.tracks.any fun _ row => row.albumId = albumId then db
    else { db with
      albums := db.albums.erase albumId
      albumArtists := db.albumArtists.filter fun row => row.ownerId ≠ albumId
      albumArtwork := db.albumArtwork.erase albumId }

def hasArtistCredit (db : Database) (artistId : String) : Bool :=
  db.trackArtists.any (fun row => row.creditId = artistId) ∨
    db.albumArtists.any fun row => row.creditId = artistId

/-- Deletes an Artist without credits. -/
def deleteArtistIfUnreferenced (artistId : String) : Tx Unit := do
  let db ← get
  if db.hasArtistCredit artistId then pure ()
  else do
    Tx.constraint "FOREIGN KEY albums.artist_id"
      (!db.albums.any fun _ album => album.artistId = artistId)
    modify fun db => { db with artists := db.artists.erase artistId }

end Database

end Harmony.ManagedImport
