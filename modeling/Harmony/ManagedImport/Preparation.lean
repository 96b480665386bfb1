/-
# What a confirmation chooses for each file

Before a staged file is committed the choices made for it are applied, and the library is asked
who holds its position. The plan of each chosen file is stored with its Job.
-/

import Mathlib.Data.List.Sort
import Harmony.ManagedImport.ReplacementData

namespace Harmony.ManagedImport

/-! ### Choices -/

def ImportPlan.unplanned : ImportPlan where
  targetRevision := 0
  skipExact := false
  albumKey := ""
  artworkId := ""
  action := ""
  targetId := ""

/-- `decode_import_plan`; a Job without a plan has the default one. -/
def decodeImportPlan (job : JobRow) : ImportPlan := job.importPlan.getD .unplanned

def replaceExisting : String := "replace_existing"

/-- An edition of its own for the Job, or for all of its Batch. -/
def separateAlbumIdentityKey (P : Platform) (jobId : String) (job : JobRow)
    (metadata : NormalizedMetadata) : String :=
  albumIdentityKey P metadata ++ "\x1fmanaged-import-edition:" ++ job.batchId.getD jobId

/-! ### What the library holds -/

/-- A Track at the position of a file. -/
structure PositionCandidate where
  trackId : String
  title : String
  revision : ℕ

def albumPositionConflict : Error :=
  let reason := "another title occupies this Album position; " ++
    "resolve the conflict or choose a separate Album"
  .invalid ⟨"album_position_conflict", "TRACKNUMBER", reason⟩ reason

namespace Database

/-- Tracks already at the file's disc and track position in its Album, in the order of
their ids. Hidden ones count. -/
def positionCandidates (P : Platform) (db : Database) (metadata : NormalizedMetadata)
    (excluded : String) : List PositionCandidate :=
  let isThere (id : String) (row : TrackRow) : Bool :=
    !row.isMissing ∧ id ≠ excluded ∧
      (db.albums.lookup row.albumId).any (·.identityKey = albumIdentityKey P metadata) ∧
      row.discNo = metadata.discPosition.number ∧ row.trackNo = metadata.trackPosition.number
  let found := (db.tracks.entries.filter fun e => isThere e.1 e.2).map fun e =>
    ⟨e.1, e.2.title, e.2.revision⟩
  found.insertionSort fun a b => a.trackId ≤ b.trackId

/-- An update of the Job's row, which must match. -/
def updateJob (jobId : String) (guard : JobRow → Bool) (f : JobRow → JobRow) : Tx Unit := do
  let db ← get
  Tx.requireOne ((db.jobs.lookup jobId).any guard)
  modify fun db => { db with jobs := db.jobs.modify jobId f }

/-- Stores each file's plan only while the Batch is still at the revision the plans were
computed from. -/
def saveImportPlans (batchId : String) (batch : BatchRow) (plans : List (String × ImportPlan)) :
    Tx Unit := do
  let db ← get
  let current ← Tx.fromOption (.new "sql: no rows in result set")
    ((db.batches.lookup batchId).filter fun row => row.status = .uploading)
  Tx.require (current.revision = batch.revision) (.sentinel .revisionConflict)
  Tx.forEach (fun entry => updateJob entry.1
    (fun job => job.batchId = some batchId ∧ job.status = .awaitingConfirmation)
    fun job => { job with
      importPlan := some entry.2
      replaceTrackId := if entry.2.targetId = "" then none else some entry.2.targetId }) plans

end Database

end Harmony.ManagedImport
