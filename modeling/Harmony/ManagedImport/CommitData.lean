/-
# Writing a committed Managed Track

The rows that one import writes in its transaction: the Artists and the Album
when they are new, the Track and its source, the ordered credits and Genres, and
the Album's artwork.

Statements are about committed transactions. `Credited` is what the two loops
over credits and over Genres leave behind: the names of the file, in its order,
each under the row that carries its normalized name.
-/

import Harmony.ManagedImport.Database

namespace Harmony.ManagedImport

/-- Everything one commit writes. -/
structure CommitData where
  identity : CommitIdentity
  placement : PlacedFiles
  inspection : MediaInspection
  albumKey : String

/-- What the file system says about a file. -/
structure FileFacts where
  size : ℤ
  mtime : ℤ

/-- The files a transaction can look at. -/
abbrev Stat := RelativePath → Option FileFacts

def showPath (path : RelativePath) : String := "/".intercalate path

/-- `BITS_PER_KILOBIT`. -/
def bitsPerKilobit : ℤ := 1000

section Writes

variable (P : Platform) (stat : Stat)

/-- The size and modification time of the placed audio file. -/
def fileFacts (path : RelativePath) : Tx FileFacts :=
  Tx.fromOption (.new s!"stat {showPath path}: No such file or directory (os error 2)") (stat path)

/-! ### Artists, Albums and Genres -/

/-- The preferred id, or a new one. -/
def preferredOr (preferred : String) : Tx String :=
  if preferred = "" then Tx.uuid P else pure preferred

/-- The Artist with a normalized name, created when there is none. -/
def upsertArtist (name preferred : String) : Tx String := do
  let db ← get
  let normalized := normalizeIdentity P name
  match db.artistIdOf normalized with
  | some id =>
    if preferred ≠ "" ∧ id ≠ preferred then
      throw (.new "resolved Artist identity changed during Managed Import commit")
    else pure id
  | none => do
    let id ← preferredOr P preferred
    let db ← get
    Tx.constraint "UNIQUE artists.id" (id ∉ db.artists)
    modify fun db =>
      { db with artists := db.artists.insert id ⟨name, normalized, normalized⟩ }
    pure id

/-- Artist IDs by normalized name; the primary Album Artist keeps the ID the
placement used. -/
def upsertArtists (albumArtists artists : List String) (albumArtistId : String) :
    Tx (List (String × String)) := do
  let primary := normalizeIdentity P (← Tx.indexed albumArtists.head?)
  Tx.fold (fun ids name => do
    let normalized := normalizeIdentity P name
    if (ids.lookup normalized).isSome then pure ids
    else do
      let preferred := if normalized = primary then albumArtistId else ""
      let id ← upsertArtist P name preferred
      pure ((normalized, id) :: ids)) [] (albumArtists ++ artists)

def albumRow (data : CommitData) (artistId : String) : AlbumRow where
  artistId := artistId
  title := data.inspection.metadata.album
  titleSort := normalizeIdentity P data.inspection.metadata.album
  year := positive data.inspection.metadata.year
  releaseDate := (positive data.inspection.metadata.year).map toString
  genres := data.inspection.metadata.genres
  identityKey := data.albumKey

def upsertAlbumFor (data : CommitData) (artistIds : List (String × String)) : Tx Unit := do
  let metadata := data.inspection.metadata
  let db ← get
  match db.albumIdOf data.albumKey with
  | some existing =>
    Tx.require (existing = data.identity.albumId)
      (.new "resolved Album identity changed during Managed Import commit")
  | none => do
    let first ← Tx.indexed metadata.albumArtists.head?
    let artistId ← Tx.indexed (artistIds.lookup (normalizeIdentity P first))
    Tx.constraint "UNIQUE albums.id" (data.identity.albumId ∉ db.albums)
    Tx.constraint "FOREIGN KEY albums.artist_id" (artistId ∈ db.artists)
    let row := albumRow P data artistId
    modify fun db => { db with albums := db.albums.insert data.identity.albumId row }

def upsertGenre (name : String) : Tx String := do
  let db ← get
  let normalized := normalizeIdentity P name
  match db.genreIdOf normalized with
  | some id => pure id
  | none => do
    let id ← Tx.uuid P
    let db ← get
    Tx.constraint "UNIQUE genres.id" (id ∉ db.genres)
    modify fun db => { db with genres := db.genres.insert id ⟨name, normalized⟩ }
    pure id

/-! ### The Track -/

/-- The row of `tracks` that an import writes. -/
def trackRow (data : CommitData) (facts : FileFacts) : TrackRow where
  albumId := data.identity.albumId
  title := data.inspection.metadata.title
  titleSort := normalizeIdentity P data.inspection.metadata.title
  artistName := ", ".intercalate data.inspection.metadata.artists
  trackNo := data.inspection.metadata.trackPosition.number
  durationMs := data.inspection.audio.durationMs
  format := data.inspection.audio.format
  sizeBytes := facts.size
  filePath := data.placement.audioPath
  fileMtime := facts.mtime
  genre := data.inspection.metadata.genres.headD ""
  sampleRateHz := data.inspection.audio.sampleRateHz
  bitDepth := positive data.inspection.audio.bitDepth
  discNo := data.inspection.metadata.discPosition.number
  trackTotal := positive data.inspection.metadata.trackPosition.total
  discTotal := positive data.inspection.metadata.discPosition.total
  channelCount := data.inspection.audio.channelCount
  bitrateBps := data.inspection.audio.bitrateKbps * bitsPerKilobit
  codec := data.inspection.audio.codec
  container := data.inspection.audio.container
  replaygainTrackGainDb := data.inspection.metadata.replayGain.trackGainDb
  replaygainTrackPeak := data.inspection.metadata.replayGain.trackPeak
  replaygainAlbumGainDb := data.inspection.metadata.replayGain.albumGainDb
  replaygainAlbumPeak := data.inspection.metadata.replayGain.albumPeak
  identityKey := trackIdentityKey P data.inspection.metadata
  lyrics := data.inspection.metadata.lyrics
  revision := 1
  isMissing := false
  isPendingCommit := false

/-- The row of `track_sources` that an import writes. -/
def sourceRow (data : CommitData) (facts : FileFacts) (id : String) : SourceRow where
  id := id
  filePath := data.placement.audioPath
  contentSha256 := data.inspection.fileSha256
  sourceFormat := data.inspection.audio.format
  sizeBytes := facts.size
  revision := 1

def insertTrack (data : CommitData) : Tx Unit := do
  let facts ← fileFacts stat data.placement.audioPath
  Database.insertTrack data.identity.trackId (trackRow P data facts)
  let sourceId ← Tx.uuid P
  Database.insertSource data.identity.trackId (sourceRow data facts sourceId)

/-! ### Credits and Genres -/

/-- The Artist IDs of the names, which panics on a name without one. -/
def creditId (artistIds : List (String × String)) (name : String) : Tx String :=
  Tx.indexed (artistIds.lookup (normalizeIdentity P name))

def insertTrackArtistCredits (trackId : String) (names : List String)
    (artistIds : List (String × String)) : Tx Unit :=
  Tx.forEach (fun entry => do
    let row := ⟨trackId, ← creditId P artistIds entry.1, entry.2⟩
    let db ← get
    Tx.constraint "UNIQUE track_artists" (Database.acceptsCredit db.trackArtists row)
    modify fun db => { db with trackArtists := db.trackArtists ++ [row] }) names.zipIdx

/-- A credit that the Album already has stays as it is. -/
def insertAlbumArtistCredits (albumId : String) (names : List String)
    (artistIds : List (String × String)) : Tx Unit :=
  Tx.forEach (fun entry => do
    let row := ⟨albumId, ← creditId P artistIds entry.1, entry.2⟩
    modify fun db =>
      if Database.acceptsCredit db.albumArtists row then
        { db with albumArtists := db.albumArtists ++ [row] }
      else db) names.zipIdx

def insertTrackGenres (trackId : String) (names : List String) : Tx Unit :=
  Tx.forEach (fun entry => do
    let row := ⟨trackId, ← upsertGenre P entry.1, entry.2⟩
    let db ← get
    Tx.constraint "UNIQUE track_genres" (Database.acceptsCredit db.trackGenres row)
    modify fun db => { db with trackGenres := db.trackGenres ++ [row] }) names.zipIdx

def insertRelationships (data : CommitData) (artistIds : List (String × String)) : Tx Unit := do
  let metadata := data.inspection.metadata
  insertAlbumArtistCredits P data.identity.albumId metadata.albumArtists artistIds
  insertTrackArtistCredits P data.identity.trackId metadata.artists artistIds
  insertTrackGenres P data.identity.trackId metadata.genres

/-! ### Artwork and the whole commit -/

def artworkRow (data : CommitData) (id : String) : ArtworkRow where
  id := id
  sourceTrackId := data.identity.trackId
  contentSha256 := data.inspection.albumArtwork.sha256
  mediaType := data.inspection.albumArtwork.mimeType
  width := data.inspection.albumArtwork.width
  height := data.inspection.albumArtwork.height
  encodedSizeBytes := data.inspection.albumArtwork.data.length
  filePath := data.placement.artworkPath
  revision := 1

def insertArtworkFor (data : CommitData) : Tx Unit := do
  let artwork := data.inspection.albumArtwork
  if data.identity.existingArtworkPath ≠ [] ∨ artwork.sha256 = "" then pure ()
  else do
    let id ← Tx.uuid P
    Database.insertArtwork data.identity.albumId (artworkRow data id)

def writeCommitData (data : CommitData) : Tx Unit := do
  let metadata := data.inspection.metadata
  let artistIds ←
    upsertArtists P metadata.albumArtists metadata.artists data.identity.albumArtistId
  upsertAlbumFor P data artistIds
  insertTrack P stat data
  insertRelationships P data artistIds
  insertArtworkFor P data

end Writes

end Harmony.ManagedImport
