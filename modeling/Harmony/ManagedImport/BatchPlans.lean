/-
# The plans of a Batch

Before a Batch is confirmed each chosen file gets a plan: the Album that the decisions
select for its tags, and the Track that it replaces when its position is taken. Copies of
an earlier file are dropped from the choice. Everything is checked before the plans are
stored, and they are stored together.

What a Job's preview says of its file is decoded from outside, and so is which artwork is
staged for an Album of the Batch. The files that were read with the Batch are those of
its Jobs; a file that becomes ready in between revises the Batch.
-/

import Harmony.ManagedImport.AlbumPlans
import Harmony.ManagedImport.Uploads

namespace Harmony.ManagedImport

/-! ### What is planned -/

/-- What the preview of a file says. -/
structure PreviewFile where
  title : String
  artists : List String
  albumArtists : List String
  album : String
  genres : List String
  year : ℤ
  hasDiscNumber : Bool
  trackNo : ℤ
  trackTotal : ℤ
  discNo : ℤ
  discTotal : ℤ

structure BatchFile where
  jobId : String
  status : JobStatus
  preview : Option PreviewFile

/-- A Batch and its files, as they are read together. -/
structure Batch where
  id : String
  row : BatchRow
  files : List BatchFile

structure DuplicateDecision where
  jobId : String
  action : String
  trackId : String
  targetRevision : ℤ

/-- What no decision decides about a file. -/
def DuplicateDecision.default : DuplicateDecision := ⟨"", "", "", 0⟩

structure PlanDecisions where
  albumDecisions : List AlbumDecision
  duplicateDecisions : List DuplicateDecision

section Previews

variable (P : Platform)

def previewAlbumKey (file : PreviewFile) : String := albumKeyOf P file.albumArtists file.album

def albumPreviewKey (file : PreviewFile) : String :=
  P.sha256Hex (previewAlbumKey P file).toUTF8.toList

def metadataFromPreview (file : PreviewFile) (albumKey : String) : NormalizedMetadata where
  albumIdentityKey := albumKey
  title := file.title
  artists := file.artists
  albumArtists := file.albumArtists
  album := file.album
  trackPosition := ⟨file.trackNo, file.trackTotal⟩
  discPosition := ⟨file.discNo, file.discTotal⟩
  genres := file.genres
  year := file.year
  replayGain := ⟨none, none, none, none⟩
  lyrics := ""

/-- The file of a Job, with what its stored preview is decoded to. -/
def batchFileFromJob (preview : String → Option PreviewFile) (job : String × JobRow) : BatchFile :=
  ⟨job.1, job.2.status, preview job.1⟩

def decodeStoredPreview (preview : String → Option PreviewFile) (jobId : String) :
    Except Error PreviewFile :=
  match preview jobId with
  | some file => .ok file
  | none => .error (.new (s!"decode duplicate preview for job \"{jobId}\": " ++
      "EOF while parsing a value at line 1 column 0"))

/-! ### Albums -/

/-- The first file of each Album, past the Albums that were seen. -/
def firstOfAlbums (seen : List String) : List PreviewFile → List PreviewFile
  | [] => []
  | file :: files =>
    if albumPreviewKey P file ∈ seen then firstOfAlbums seen files
    else file :: firstOfAlbums (albumPreviewKey P file :: seen) files

variable (db : Database) (artworks : String → String → List ArtworkOption)

/-- The preview of the Album that a file belongs to. -/
def albumPreview (batchId : String) (file : PreviewFile) : AlbumPreview where
  key := albumPreviewKey P file
  existingAlbums := db.matchAlbums (previewAlbumKey P file)
  artworks := artworks batchId (albumPreviewKey P file)

def acceptedPreviews (files : List BatchFile) : List PreviewFile :=
  files.filterMap fun file => if file.status = .awaitingConfirmation then file.preview else none

/-- `populate_album_previews`: one preview per Album among accepted files. -/
def populateAlbumPreviews (batchId : String) (files : List BatchFile) : List AlbumPreview :=
  (firstOfAlbums P [] (acceptedPreviews files)).map (albumPreview P db artworks batchId)

/-- The key of the first file that belongs to the previewed Album. -/
def baseKeyOf (files : List BatchFile) (albumKey : String) : String :=
  (((files.filterMap BatchFile.preview).find? fun file => albumPreviewKey P file = albumKey).map
    (previewAlbumKey P)).getD ""

/-- The plan of each Album, under its preview's key. -/
def resolveAlbumPlans (batchId : String) (files : List BatchFile) (decisions : List AlbumDecision) :
    Except Error (List (String × ImportPlan)) :=
  if (decisions.any fun decision => decision.albumKey = "") ∨
      ¬(decisions.map AlbumDecision.albumKey).Nodup then
    .error (invalidChoice "Album decisions require unique keys")
  else
    (populateAlbumPreviews P db artworks batchId files).mapM fun album =>
      let decision := (decisions.find? (·.albumKey = album.key)).getD .default
      (resolveAlbumPlan batchId (baseKeyOf P files album.key) album decision).map fun plan =>
        (album.key, plan)

/-! ### Files -/

def planTrack (file : PreviewFile) (plan : ImportPlan) (decision : Option DuplicateDecision) :
    Except Error ImportPlan :=
  match db.positionCandidates P (metadataFromPreview file plan.albumKey) "" with
  | [] =>
    if decision.any (·.action ≠ "") then
      .error (invalidChoice "this file does not replace a Track")
    else .ok plan
  | [candidate] =>
    let decision := decision.getD .default
    if normalizeIdentity P candidate.title ≠ normalizeIdentity P file.title then
      .error albumPositionConflict
    else if decision.action ≠ replaceExisting ∨ decision.trackId ≠ candidate.trackId ∨
        decision.targetRevision ≠ candidate.revision then
      .error (.wrap .revisionConflict "confirm replacement of the matching Track or skip this file")
    else .ok { plan with
      action := decision.action
      targetId := candidate.trackId
      targetRevision := candidate.revision }
  | _ => .error albumPositionConflict

/-- A position in the Album of a plan. -/
def positionText (plan : ImportPlan) (file : PreviewFile) : String :=
  s!"{plan.albumKey}\x1f{file.discNo}\x1f{file.trackNo}"

/-- A file that is dropped because its bytes come with another one. -/
def ImportPlan.skipped : ImportPlan := { ImportPlan.unplanned with skipExact := true }

/-- What has been planned so far. -/
structure Planning where
  selected : List String
  plans : List (String × ImportPlan)
  positions : List String
  hashes : List String
  deriving DecidableEq

variable (preview : String → Option PreviewFile) (albums : List (String × ImportPlan))
  (decisions : List DuplicateDecision)

/-- One round of the loop over the Jobs of the Batch. -/
def planJob (planning : Planning) (entry : String × JobRow) : Except Error Planning :=
  let (jobId, job) := entry
  if jobId ∉ planning.selected then .ok planning
  else if job.status ≠ .awaitingConfirmation then .error (.sentinel .invalidState)
  else if job.contentSha256 ∈ planning.hashes then
    .ok { planning with
      selected := planning.selected.filter (· ≠ jobId)
      plans := planning.plans ++ [(jobId, .skipped)] }
  else do
    let file ← decodeStoredPreview preview jobId
    let plan := (albums.lookup (albumPreviewKey P file)).getD .unplanned
    if positionText plan file ∈ planning.positions then
      .error (invalidChoice "choose one file for each Album position")
    else do
      let planned ← planTrack P db file plan (decisions.find? (·.jobId = jobId))
      .ok {
        selected := planning.selected
        plans := planning.plans ++ [(jobId, planned)]
        positions := positionText plan file :: planning.positions
        hashes := job.contentSha256 :: planning.hashes }

def missingDiscNumber : Error :=
  .invalid ⟨"invalid_metadata", "DISCNUMBER",
    "DISCNUMBER is required for every selected file in a multi-disc Album"⟩
    "missing explicit disc number"

/-- The files that are planned for an Album, with the Album's key. -/
def plannedFiles (jobs : List (String × JobRow)) (plans : List (String × ImportPlan)) :
    Except Error (List (String × PreviewFile)) :=
  let planned := jobs.filterMap fun entry =>
    ((plans.lookup entry.1).filter fun plan => !plan.skipExact).map fun plan =>
      (plan.albumKey, entry.1)
  planned.mapM fun entry => (decodeStoredPreview preview entry.2).map (entry.1, ·)

/-- Whether the file says that its Album has several discs. -/
def PreviewFile.isMultiDisc (file : PreviewFile) : Bool := 1 < file.discNo ∨ 1 < file.discTotal

def validatePlannedDiscNumbers (jobs : List (String × JobRow))
    (plans : List (String × ImportPlan)) :
    Except Error Unit := do
  let files ← plannedFiles preview jobs plans
  if files.any fun entry => entry.2.isMultiDisc ∧
      files.any fun other => other.1 = entry.1 ∧ !other.2.hasDiscNumber then
    .error missingDiscNumber
  else .ok ()

end Previews

/-! ### The whole Batch -/

section Whole

variable (P : Platform) (preview : String → Option PreviewFile)
  (artworks : String → String → List ArtworkOption) (db : Database) (batch : Batch)
  (jobs : List (String × JobRow)) (selected : List String) (confirmation : PlanDecisions)

/-- The loop over the Jobs and the checks before it. -/
def planSelected (albums : List (String × ImportPlan)) : Except Error Planning :=
  if selected.any fun id => id ∉ jobs.map Prod.fst then
    .error (invalidChoice "selected file does not belong to this batch")
  else if (confirmation.duplicateDecisions.any fun decision =>
        decision.jobId ∉ jobs.map Prod.fst) ∨
      ¬(confirmation.duplicateDecisions.map DuplicateDecision.jobId).Nodup then
    .error (invalidChoice "file decisions require unique batch job IDs")
  else
    jobs.foldlM (planJob P db preview albums confirmation.duplicateDecisions) ⟨selected, [], [], []⟩

/-- Everything that `prepare_batch_plans` does before it stores the plans. -/
def planBatch : Except Error Planning := do
  let files := batch.files.filter fun file => file.jobId ∈ selected
  let albums ← resolveAlbumPlans P db artworks batch.id files confirmation.albumDecisions
  let planning ← planSelected P preview db jobs selected confirmation albums
  validatePlannedDiscNumbers preview jobs planning.plans
  .ok planning

/-- `prepare_batch_plans`: what is left of the choice, and the library with the plans of the
files. -/
def planAndStore : Except Error (List String) × Database :=
  match planBatch P preview artworks db batch jobs selected confirmation with
  | .error e => (.error e, db)
  | .ok planning =>
    match Database.saveImportPlans batch.id batch.row planning.plans db with
    | .error e => (.error e, db)
    | .ok ((), after) => (.ok planning.selected, after)

end Whole

end Harmony.ManagedImport
