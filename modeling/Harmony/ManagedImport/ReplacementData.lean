/-
# Writing a Track Replacement

A Track Replacement writes a file's metadata onto an existing Track: an update of
its row and its source, its credits and Genres written anew, and the artwork of
the Album it ends in. An import writes the same file's metadata into a new row.
The two paths name the columns separately.
-/

import Mathlib.Data.String.Basic
import Harmony.ManagedImport.CommitData

namespace Harmony.ManagedImport

/-! ### The Track to replace -/

/-- The current state of a Managed Track. -/
structure TargetRow where
  trackId : String
  albumId : String
  trackRevision : ℕ
  sourceRevision : ℕ
  filePath : RelativePath
  contentSha256 : String
  sizeBytes : ℤ
  artworkPath : RelativePath
  artworkSha256 : String
  isSoleTrack : Bool

structure QueueReference where
  userId : String
  itemCount : ℕ

/-- A Managed Track as a replacement sees it. -/
structure Target where
  row : TargetRow
  relativePath : RelativePath
  queues : List QueueReference

/-- A Queue revision advanced by a write, for Playback Clients to refetch. -/
structure QueueInvalidation where
  userId : String
  revision : ℕ
  sequence : ℕ

/-! ### References that a Track leaves behind -/

/-- Bumps each affected Queue revision so Playback Clients refetch. -/
def advanceQueues (queues : List QueueReference) : Tx (List QueueInvalidation) :=
  Tx.fold (fun invalidations queue => do
    let db ← get
    let advanced := match db.playbackQueueState.lookup queue.userId with
      | none => ⟨1, 1⟩
      | some state => ⟨state.revision + 1, state.eventSequence + 1⟩
    modify fun db =>
      { db with playbackQueueState := db.playbackQueueState.insert queue.userId advanced }
    pure (invalidations ++ [⟨queue.userId, advanced.revision, advanced.eventSequence⟩])) [] queues

/-- The first other Track of the Album, by id. -/
def Database.otherTrack (db : Database) (trackId albumId : String) : Option String :=
  let others := db.tracks.entries.filter fun e => e.2.albumId = albumId ∧ e.1 ≠ trackId
  (others.map Sigma.fst).min?

/-- Hands Album Artwork to another Track, or drops it with the Album's last
Track. -/
def moveOrDeleteArtworkReference (trackId albumId : String) : Tx Unit := do
  let db ← get
  match db.otherTrack trackId albumId with
  | none => modify fun db => { db with albumArtwork := db.albumArtwork.erase albumId }
  | some other =>
    match db.albumArtwork.lookup albumId with
    | none => pure ()
    | some artwork =>
      if artwork.sourceTrackId = trackId then
        Database.updateArtwork albumId { artwork with sourceTrackId := other }
      else pure ()

/-- The Artists of the Track and of the Album, each once. -/
def trackAndAlbumArtistIds (trackId albumId : String) : Tx (List String) := do
  let db ← get
  let track := db.trackArtists.filter fun row => row.ownerId = trackId
  let album := db.albumArtists.filter fun row => row.ownerId = albumId
  pure ((track ++ album).map CreditRow.creditId).dedup

def deleteUnreferencedArtists (artistIds : List String) : Tx Unit :=
  Tx.forEach Database.deleteArtistIfUnreferenced artistIds

/-! ### The replaced Track -/

section Writes

variable (P : Platform) (stat : Stat)

/-- What the update of `tracks` makes of a row. -/
def replacedTrackRow (data : CommitData) (facts : FileFacts) (row : TrackRow) : TrackRow :=
  { row with
    albumId := data.identity.albumId
    title := data.inspection.metadata.title
    titleSort := normalizeIdentity P data.inspection.metadata.title
    artistName := ", ".intercalate data.inspection.metadata.artists
    trackNo := data.inspection.metadata.trackPosition.number
    durationMs := data.inspection.audio.durationMs
    format := data.inspection.audio.format
    sizeBytes := facts.size
    filePath := data.placement.audioPath
    fileMtime := facts.mtime
    genre := data.inspection.metadata.genres.headD ""
    sampleRateHz := data.inspection.audio.sampleRateHz
    bitDepth := positive data.inspection.audio.bitDepth
    discNo := data.inspection.metadata.discPosition.number
    trackTotal := positive data.inspection.metadata.trackPosition.total
    discTotal := positive data.inspection.metadata.discPosition.total
    channelCount := data.inspection.audio.channelCount
    bitrateBps := data.inspection.audio.bitrateKbps * bitsPerKilobit
    codec := data.inspection.audio.codec
    container := data.inspection.audio.container
    replaygainTrackGainDb := data.inspection.metadata.replayGain.trackGainDb
    replaygainTrackPeak := data.inspection.metadata.replayGain.trackPeak
    replaygainAlbumGainDb := data.inspection.metadata.replayGain.albumGainDb
    replaygainAlbumPeak := data.inspection.metadata.replayGain.albumPeak
    identityKey := trackIdentityKey P data.inspection.metadata
    revision := row.revision + 1 }

/-- What the update of `track_sources` makes of a row. -/
def replacedSourceRow (data : CommitData) (facts : FileFacts) (row : SourceRow) : SourceRow :=
  { row with
    filePath := data.placement.audioPath
    contentSha256 := data.inspection.fileSha256
    sourceFormat := data.inspection.audio.format
    sizeBytes := facts.size
    revision := row.revision + 1 }

def updateReplacedTrack (data : CommitData) (target : Target) : Tx Unit := do
  let facts ← fileFacts stat data.placement.audioPath
  let db ← get
  let row ← Tx.fromOption (.wrap .replacementConflict "Track changed during replacement")
    ((db.tracks.lookup target.row.trackId).filter fun row =>
      row.revision = target.row.trackRevision ∧ !row.isMissing)
  Database.updateTrack target.row.trackId (replacedTrackRow P data facts row)
  let source ← Tx.fromOption (.wrap .replacementConflict "Track source changed during replacement")
    ((db.trackSources.lookup target.row.trackId).filter fun source =>
      source.revision = target.row.sourceRevision)
  Database.updateSource target.row.trackId (replacedSourceRow data facts source)

def clearTrackRelationships (trackId : String) : Tx Unit :=
  modify fun db => { db with
    trackArtists := db.trackArtists.filter fun row => row.ownerId ≠ trackId
    trackGenres := db.trackGenres.filter fun row => row.ownerId ≠ trackId }

/-- What the update of `album_artwork` makes of a row. -/
def replacedArtworkRow (data : CommitData) (target : Target) (row : ArtworkRow) : ArtworkRow :=
  { row with
    sourceTrackId := target.row.trackId
    contentSha256 := data.inspection.albumArtwork.sha256
    mediaType := data.inspection.albumArtwork.mimeType
    width := data.inspection.albumArtwork.width
    height := data.inspection.albumArtwork.height
    encodedSizeBytes := data.inspection.albumArtwork.data.length
    filePath := data.placement.artworkPath
    revision := row.revision + 1 }

def writeReplacementArtwork (data : CommitData) (target : Target)
    (placement : ReplacementPlacement) : Tx Unit :=
  match placement.artworkMode with
  | .create =>
    let identity := { data.identity with existingArtworkPath := [] }
    insertArtworkFor P { data with identity := identity }
  | .replace => do
    let db ← get
    let row ← Tx.fromOption (.sentinel .invalidState)
      (db.albumArtwork.lookup data.identity.albumId)
    Database.updateArtwork data.identity.albumId (replacedArtworkRow data target row)
  | _ => pure ()

def writeReplacementData (data : CommitData) (target : Target)
    (placement : ReplacementPlacement) : Tx (List QueueInvalidation) := do
  let metadata := data.inspection.metadata
  let artistIds ←
    upsertArtists P metadata.albumArtists metadata.artists data.identity.albumArtistId
  upsertAlbumFor P data artistIds
  let previousArtistIds ← trackAndAlbumArtistIds target.row.trackId target.row.albumId
  let movesAlbum : Bool := data.identity.albumId ≠ target.row.albumId
  Tx.onlyIf movesAlbum (moveOrDeleteArtworkReference target.row.trackId target.row.albumId)
  updateReplacedTrack P stat data target
  clearTrackRelationships target.row.trackId
  -- The source repeats the three loops of `insert_relationships` here.
  insertRelationships P data artistIds
  writeReplacementArtwork P data target placement
  Tx.onlyIf movesAlbum (Database.deleteAlbumIfEmpty target.row.albumId)
  deleteUnreferencedArtists previousArtistIds
  advanceQueues target.queues

end Writes

end Harmony.ManagedImport
