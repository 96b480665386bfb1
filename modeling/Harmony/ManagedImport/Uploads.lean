/-
# Uploads of one server

An upload reserves its bytes against the limit of its Batch, streams into a staging
file, reserves what it really staged, is validated and ends with an Import Preview,
as an Exact Duplicate or failed. Uploads of one Job wait for each other; those of
different Jobs interleave between any two awaits. Every statement and every file
operation may fail.

A step is one such await: what the code does between two of them is one function.
What the file is worth (its validation) and why a file operation fails comes from
outside. A body of a declared length delivers no more than that length.
-/

import Harmony.Library.TableSum
import Harmony.Library.Transition
import Harmony.ManagedImport.Database

namespace Harmony.ManagedImport

/-! ### Statements on a Job -/

namespace Database

/-- What the other Jobs of the Batch have reserved. -/
def reservedBySiblings (db : Database) (jobId : String) (batchId : Option String) : ℤ :=
  db.jobs.sumExcept jobId fun _ job => if job.batchId = batchId then job.uploadSizeBytes else 0

/-- What the Jobs of a Batch have reserved. -/
def reserved (db : Database) (batchId : String) : ℤ :=
  db.jobs.sum fun _ job => if job.batchId = some batchId then job.uploadSizeBytes else 0

end Database

/-- A guarded update of one Job: what it matches, what it sets, what is reported when
no row matched, and the Batches whose revision it raises. -/
structure JobUpdate where
  guard : Database → JobRow → Bool
  change : JobRow → JobRow
  refuse : JobRow → Error
  revises : BatchRow → Bool

def BatchRow.revise (batch : BatchRow) : BatchRow := { batch with revision := batch.revision + 1 }

/-- The rules of the schema for the columns an upload writes. -/
def JobRow.isValid (job : JobRow) : Bool :=
  0 ≤ job.uploadSizeBytes ∧ (job.status = .awaitingConfirmation → job.stagedFilePath.isSome)

def JobUpdate.run (update : JobUpdate) (jobId : String) : Tx Unit := do
  let db ← get
  let job ← Tx.fromOption (.sentinel .notFound) (db.jobs.lookup jobId)
  Tx.require (update.guard db job) (update.refuse job)
  Tx.constraint "CHECK managed_import_jobs" (update.change job).isValid
  modify fun db => { db with
    jobs := db.jobs.modify jobId update.change
    batches := db.batches.updateWhere
      (fun batchId batch => job.batchId = some batchId && update.revises batch)
      BatchRow.revise }

/-- Whether the Job's bytes fit beside its siblings'. -/
def fitsBatch (size batchLimit : ℤ) (jobId : String) (db : Database) (job : JobRow) : Bool :=
  size + db.reservedBySiblings jobId job.batchId ≤ batchLimit

def reserveBatchUpload (jobId : String) (uploadSize batchLimit : ℤ) (now : ℕ) : Tx Unit :=
  JobUpdate.run
    { guard := fun db job => job.status = .uploading && job.batchId.isSome &&
        fitsBatch uploadSize batchLimit jobId db job
      change := fun job => { job with
        uploadSizeBytes := uploadSize
        errorCode := "", errorField := "", errorReason := "", updatedAt := now }
      refuse := fun job =>
        if job.status ≠ .uploading ∨ job.batchId = none then .sentinel .invalidState
        else .sentinel .batchTooLarge
      revises := fun _ => false } jobId

def markPreview (jobId : String) (stagedFilePath : RelativePath) (contentSha256 : String)
    (uploadSize batchLimit : ℤ) (now : ℕ) : Tx Unit :=
  JobUpdate.run
    { guard := fun db job => job.status = .uploading &&
        (job.batchId.isNone || fitsBatch uploadSize batchLimit jobId db job)
      change := fun job => { job with
        status := .awaitingConfirmation, revision := job.revision + 1
        stagedFilePath := some stagedFilePath, contentSha256 := contentSha256
        uploadSizeBytes := uploadSize
        errorCode := "", errorField := "", errorReason := ""
        outcome := none, selected := true, updatedAt := now }
      refuse := fun job =>
        if job.status = .uploading ∧ job.batchId ≠ none then .sentinel .batchTooLarge
        else .sentinel .invalidState
      revises := fun _ => true } jobId

def markExactDuplicate (jobId : String) (stagedPath : RelativePath)
    (contentSha256 trackId : String) (uploadSize : ℤ) (now : ℕ) : Tx Unit :=
  JobUpdate.run
    { guard := fun _ job => job.status = .uploading
      change := fun job => { job with
        status := .failed, revision := job.revision + 1, contentSha256 := contentSha256
        trackId := some trackId
        errorCode := "exact_duplicate", errorField := "file"
        errorReason := "file bytes match an existing Track"
        outcome := if job.batchId = none then none else some .rejected
        selected := false, stagedFilePath := some stagedPath, uploadSizeBytes := uploadSize
        updatedAt := now }
      refuse := fun _ => (Error.sentinel .invalidState).context "mark Exact Duplicate"
      revises := fun batch => batch.status = .uploading } jobId

def clearStagedFile (jobId : String) (now : ℕ) : Tx Unit :=
  JobUpdate.run
    { guard := fun _ job => job.stagedFilePath.isSome
      change := fun job =>
        let duplicate := job.errorCode = "exact_duplicate"
        { job with
          stagedFilePath := none, uploadSizeBytes := 0
          status := if duplicate then .failed else job.status
          outcome := if duplicate ∧ job.batchId ≠ none then some .rejected else job.outcome
          selected := if duplicate then false else job.selected
          updatedAt := now }
      refuse := fun _ => (Error.sentinel .invalidState).context "clear Managed Import staging path"
      revises := fun _ => false } jobId

def markUploadInterrupted (jobId : String) (now : ℕ) : Tx Unit :=
  JobUpdate.run
    { guard := fun _ job => job.status = .uploading && job.batchId.isSome
      change := fun job => { job with
        revision := job.revision + 1
        errorCode := "upload_interrupted", errorField := "file"
        errorReason := "upload stream was interrupted; retry this file"
        outcome := none, selected := false, stagedFilePath := none, contentSha256 := ""
        uploadSizeBytes := 0, updatedAt := now }
      refuse := fun _ =>
        (Error.sentinel .invalidState).context "mark Managed Import upload interrupted"
      revises := fun _ => true } jobId

/-- What was reserved stays reserved. -/
def markFailed (jobId : String) (errorCode errorField errorReason : String) (now : ℕ) : Tx Unit :=
  JobUpdate.run
    { guard := fun _ job => job.status = .uploading || job.status = .awaitingConfirmation
      change := fun job => { job with
        status := .failed
        errorCode := errorCode, errorField := errorField, errorReason := errorReason
        outcome := if job.batchId = none then none else some .rejected
        selected := false, stagedFilePath := none, updatedAt := now }
      refuse := fun _ => (Error.sentinel .invalidState).context "mark Managed Import failed"
      revises := fun batch => batch.status = .uploading } jobId

/-- The stored error code and reason of a failure. -/
def failureDetails (error : Error) : String × String :=
  match error.validation with
  | some validation => (validation.code, validation.reason)
  | none =>
    if error.is .uploadTooLarge then
      ("upload_too_large", "file exceeds the configured per-file byte limit")
    else if error.is .batchTooLarge then
      ("batch_upload_too_large", "batch exceeds the configured byte limit")
    else if error.is .invalidUpload then ("invalid_upload", "upload is invalid")
    else if error.is .insufficientStorage then
      ("insufficient_storage",
        "Managed Storage does not have enough capacity for this import and its safety reserve")
    else if error.is .unsafeStoragePath then
      ("unsafe_storage_path", "Managed Storage path failed containment checks")
    else if error.is .trackNotFound then
      ("track_not_found", "the Track to replace no longer exists")
    else if error.is .notManagedTrack then
      ("not_managed_track", "only Managed Tracks can be replaced")
    else if error.is .replacementConflict then
      ("replacement_preview_changed", "the Track to replace changed during validation")
    else if error.is .cancelled then ("validation_cancelled", "file validation was canceled")
    else ("inspection_failed", "file validation failed")

/-! ### Batches and their Jobs -/

def createBatch (batchId : String) (now : ℕ) : Tx Unit := do
  let db ← get
  Tx.constraint "UNIQUE managed_import_batches.id" (batchId ∉ db.batches)
  modify fun db => { db with batches := db.batches.insert batchId ⟨.uploading, 1, now⟩ }

/-- A new Job of a Batch, behind all others. -/
def createJob (jobId batchId : String) (now : ℕ) : Tx Unit := do
  let db ← get
  let batch ← Tx.fromOption (.sentinel .invalidState) (db.batches.lookup batchId)
  Tx.requireOne (batch.status = .uploading)
  Tx.constraint "UNIQUE managed_import_jobs.id" (jobId ∉ db.jobs)
  let positions := db.jobs.entries.filterMap fun e =>
    if e.2.batchId = some batchId then some e.2.batchPosition else none
  let job : JobRow :=
    { status := .uploading, revision := 1, batchId := some batchId
      batchPosition := positions.foldl max 0 + 1
      stagedFilePath := none, contentSha256 := "", trackId := none
      errorCode := "", errorField := "", errorReason := "", outcome := none, selected := true
      replaceTrackId := none, importPlan := none, uploadSizeBytes := 0, updatedAt := now }
  modify fun db => { db with
    jobs := db.jobs.insert jobId job
    batches := db.batches.modify batchId BatchRow.revise }

/-- The Job an upload is for, while its Batch takes uploads. -/
def getUploadingJob (db : Database) (jobId : String) : Except Error JobRow :=
  match db.jobs.lookup jobId with
  | none => .error (.sentinel .notFound)
  | some job =>
    if job.status ≠ .uploading then .error (.sentinel .invalidState)
    else match job.batchId with
      | none => .ok job
      | some batchId =>
        match db.batches.lookup batchId with
        | none => .error (.sentinel .notFound)
        | some batch =>
          if batch.status = .uploading then .ok job else .error (.sentinel .invalidState)

/-! ### Limits -/

structure UploadLimits where
  file : ℤ
  batch : ℤ

namespace UploadLimits

def validateUploadLength (limits : UploadLimits) (contentLength : ℤ) : Except Error Unit :=
  if contentLength > limits.file then .error (.sentinel .uploadTooLarge)
  else if contentLength > limits.batch then .error (.sentinel .batchTooLarge)
  else .ok ()

def uploadReservationSize (limits : UploadLimits) (contentLength : ℤ) : Except Error ℤ :=
  (limits.validateUploadLength contentLength).map fun _ => max contentLength 0

/-- The limit of a stream, and what is reported beyond it. -/
def streamLimit (limits : UploadLimits) : ℤ × Sentinel :=
  if limits.batch < limits.file then (limits.batch, .batchTooLarge)
  else (limits.file, .uploadTooLarge)

end UploadLimits

/-! ### One upload -/

/-- Where an upload stands. -/
inductive UploadPhase
  | reserving
  | creating
  /-- Between two chunks; `reserved` counts the bytes of an undeclared length. -/
  | reading (path : RelativePath) (reserved : ℤ)
  | writing (path : RelativePath) (reserved : ℤ) (chunk : ℕ)
  | staged (path : RelativePath)
  | validating (path : RelativePath)
  /-- Marked as an Exact Duplicate. -/
  | removing (path : RelativePath)
  | clearing
  /-- `handle_upload_failure`, or `fail_upload` when the failure is final. -/
  | failing (path : Option RelativePath) (isFinal : Bool) (error : Error)
  | marking (isRetryable : Bool) (field : String) (error : Error)

/-- The Job has not been marked yet. -/
def UploadPhase.isEarly : UploadPhase → Bool
  | .reserving | .creating | .reading .. | .writing .. | .staged _ | .validating _ => true
  | _ => false

/-- The file an upload has staged its bytes in so far. -/
def UploadPhase.stagingFile : UploadPhase → Option RelativePath
  | .reading path _ | .writing path _ _ | .staged path | .validating path | .removing path
  | .failing (some path) _ _ => some path
  | _ => none

/-- The Job is about to be marked as interrupted, not as failed. -/
def UploadPhase.isInterrupted : UploadPhase → Bool
  | .marking isRetryable _ _ => isRetryable
  | _ => false

/-- `contentLength` is negative when the length is not declared. -/
structure Upload where
  batchId : Option String
  contentLength : ℤ
  phase : UploadPhase

/-- Whether an undeclared length is reserved chunk by chunk. -/
def Upload.isReserving (upload : Upload) : Bool :=
  upload.batchId.isSome && upload.contentLength < 0

/-- Why a failed upload may be tried again. -/
def Upload.isRetryable (upload : Upload) (isCancelled : Bool) (error : Error) : Bool :=
  upload.batchId.isSome && (error.is .uploadInterrupted || isCancelled || error.is .cancelled)

/-- Less arrived than was declared. -/
def Upload.isShort (upload : Upload) (size : ℤ) : Bool :=
  0 ≤ upload.contentLength && size < upload.contentLength

/-- What `stage_upload` reports when the body or the file failed. Whatever failed,
an upload that is still short counts as interrupted. -/
def stagingFailure (upload : Upload) (size : ℤ) (failure removal : Option Error) : Error :=
  let isInterrupted := failure.any fun error => error.is .uploadInterrupted || error.is .cancelled
  if upload.isShort size || isInterrupted then
    (Error.sentinel .uploadInterrupted).also [some (.new "unexpected EOF"), failure, removal]
  else (failure.getD (.new "")).also [removal]

/-- The database, the size of each staging file, the Job each staging file was ever
made for, and the uploads under way by their Jobs. -/
structure Uploading where
  db : Database
  files : Table RelativePath ℤ
  owners : Table RelativePath String
  uploads : Table String Upload

inductive UploadEvent
  | createBatch (batchId : String) (now : ℕ)
  | createJob (jobId batchId : String) (now : ℕ)
  /-- The upload gets the Job's lock; `badFilename` is what is wrong with the name. -/
  | start (jobId : String) (contentLength : ℤ) (badFilename : Option Error)
  | reserve (jobId : String) (fault : Option Error) (now : ℕ)
  | create (jobId : String) (path : RelativePath) (fault : Option Error)
  | chunk (jobId : String) (length : ℕ) (fault removal : Option Error) (now : ℕ)
  | write (jobId : String) (fault removal : Option Error)
  | breakOff (jobId : String) (error : Error) (removal : Option Error)
  | finish (jobId : String) (fault removal : Option Error)
  | reserveStaged (jobId : String) (fault : Option Error) (now : ℕ)
  /-- Validation, or anything else before the Preview is stored, fails. -/
  | reject (jobId : String) (error : Error)
  /-- The answer of a transaction that committed may be `lost`. -/
  | markPreview (jobId contentSha256 : String) (fault lost reread : Option Error)
      (isCancelled : Bool) (now : ℕ)
  | markExactDuplicate (jobId contentSha256 trackId : String) (fault : Option Error) (now : ℕ)
  | remove (jobId : String) (removal : Option Error)
  | clear (jobId : String) (fault : Option Error) (now : ℕ)
  | discard (jobId : String) (isCancelled : Bool) (removal : Option Error)
  | mark (jobId : String) (fault : Option Error) (now : ℕ)

/-- A statement that the database may fail to run. -/
def attempt (fault : Option Error) (statement : Tx Unit) (db : Database) : Except Error Database :=
  match fault with
  | some error => .error error
  | none => Transaction.outcome statement db

namespace Uploading

def goOn (s : Uploading) (jobId : String) (upload : Upload) (phase : UploadPhase) : Uploading :=
  { s with uploads := s.uploads.insert jobId { upload with phase } }

def endUpload (s : Uploading) (jobId : String) : Uploading :=
  { s with uploads := s.uploads.erase jobId }

/-- A file is removed unless its removal fails. -/
def removeFile (s : Uploading) (path : RelativePath) (removal : Option Error) : Uploading :=
  if removal.isSome then s else { s with files := s.files.erase path }

/-- `stage_upload` fails: what it wrote is removed. -/
def stagingFails (s : Uploading) (jobId : String) (upload : Upload) (path : RelativePath)
    (removal : Option Error) (error : Error) : Uploading :=
  (s.removeFile path removal).goOn jobId upload (.failing none false error)

/-- Goes on after a statement, or fails with what it reports. -/
def afterStatement (s : Uploading) (jobId : String) (upload : Upload)
    (result : Except Error Database) (phase : UploadPhase) (path : Option RelativePath) :
    Uploading :=
  match result with
  | .ok db => { s with db }.goOn jobId upload phase
  | .error error => s.goOn jobId upload (.failing path false error)

def start (s : Uploading) (jobId : String) (contentLength : ℤ) (badFilename : Option Error) :
    Option Uploading :=
  match s.uploads.lookup jobId with
  | some _ => none
  | none =>
    match getUploadingJob s.db jobId with
    | .error _ => some s
    | .ok job =>
      let upload : Upload := ⟨job.batchId, contentLength, .reserving⟩
      match badFilename with
      | none => some (s.goOn jobId upload .reserving)
      | some error =>
        if job.batchId.isSome then some (s.goOn jobId upload (.marking false "file" error))
        else some s

def reserve (s : Uploading) (limits : UploadLimits) (jobId : String) (upload : Upload)
    (fault : Option Error) (now : ℕ) : Uploading :=
  if upload.batchId.isNone then s.goOn jobId upload .creating
  else
    match limits.uploadReservationSize upload.contentLength with
    | .error error => s.goOn jobId upload (.failing none false error)
    | .ok size =>
      s.afterStatement jobId upload
        (attempt fault (reserveBatchUpload jobId size limits.batch now) s.db) .creating none

def create (s : Uploading) (limits : UploadLimits) (jobId : String) (upload : Upload)
    (path : RelativePath) (fault : Option Error) : Option Uploading :=
  match limits.validateUploadLength upload.contentLength with
  | .error error => some (s.goOn jobId upload (.failing none false error))
  | .ok () =>
    match fault with
    | some error => some (s.goOn jobId upload (.failing none false error))
    | none =>
      -- Random ids never repeat.
      if path ∈ s.owners then none
      else
        some ({ s with
          files := s.files.insert path 0
          owners := s.owners.insert path jobId }.goOn jobId upload (.reading path 0))

/-- A chunk of an undeclared length is reserved before it is written. -/
def chunk (s : Uploading) (limits : UploadLimits) (jobId : String) (upload : Upload)
    (path : RelativePath) (reserved : ℤ) (length : ℕ) (size : ℤ) (fault removal : Option Error)
    (now : ℕ) : Uploading :=
  if upload.isReserving && length ≠ 0 then
    let total := reserved + length
    match attempt fault (reserveBatchUpload jobId total limits.batch now) s.db with
    | .ok db => { s with db }.goOn jobId upload (.writing path total length)
    | .error error =>
      s.stagingFails jobId upload path removal
        (stagingFailure upload size (some error) removal)
  else s.goOn jobId upload (.writing path reserved length)

def write (s : Uploading) (limits : UploadLimits) (jobId : String) (upload : Upload)
    (path : RelativePath) (reserved : ℤ) (length : ℕ) (size : ℤ) (fault removal : Option Error) :
    Uploading :=
  let (limit, sentinel) := limits.streamLimit
  if size + length > limit then
    s.stagingFails jobId upload path removal ((Error.sentinel sentinel).also [removal])
  else
    match fault with
    | some error =>
      s.stagingFails jobId upload path removal (stagingFailure upload size (some error) removal)
    | none =>
      { s with files := s.files.insert path (size + length) }.goOn jobId upload
        (.reading path reserved)

def finish (s : Uploading) (jobId : String) (upload : Upload) (path : RelativePath) (size : ℤ)
    (fault removal : Option Error) : Uploading :=
  if fault.isSome || upload.isShort size then
    s.stagingFails jobId upload path removal (stagingFailure upload size fault removal)
  else s.goOn jobId upload (.staged path)

def reserveStaged (s : Uploading) (limits : UploadLimits) (jobId : String) (upload : Upload)
    (path : RelativePath) (size : ℤ) (fault : Option Error) (now : ℕ) : Uploading :=
  if upload.batchId.isNone then s.goOn jobId upload (.validating path)
  else
    s.afterStatement jobId upload
      (attempt fault (reserveBatchUpload jobId size limits.batch now) s.db)
      (.validating path) (some path)

/-- `recover_preview_failure`: the transaction may have committed all the same. -/
def recoverPreviewFailure (s : Uploading) (jobId : String) (upload : Upload) (path : RelativePath)
    (error : Error) (reread : Option Error) (isCancelled : Bool) : Uploading :=
  if error.is .batchTooLarge then s.goOn jobId upload (.failing (some path) true error)
  else if reread.isNone && (s.db.jobs.lookup jobId).any (·.status = .awaitingConfirmation) then
    s.endUpload jobId
  else
    let error := if isCancelled then Error.sentinel .cancelled else error
    s.goOn jobId upload (.failing (some path) false (error.also [reread]))

def storePreview (s : Uploading) (limits : UploadLimits) (jobId : String) (upload : Upload)
    (path : RelativePath) (size : ℤ) (contentSha256 : String) (fault lost reread : Option Error)
    (isCancelled : Bool) (now : ℕ) : Uploading :=
  match attempt fault (markPreview jobId path contentSha256 size limits.batch now) s.db, lost with
  | .ok db, none => { s with db }.endUpload jobId
  | .ok db, some error =>
    { s with db }.recoverPreviewFailure jobId upload path error reread isCancelled
  | .error error, _ => s.recoverPreviewFailure jobId upload path error reread isCancelled

/-- The staged file goes before the Job is marked. A standalone Job that staged
nothing is not marked. -/
def discard (s : Uploading) (jobId : String) (upload : Upload) (path : Option RelativePath)
    (isFinal : Bool) (error : Error) (isCancelled : Bool) (removal : Option Error) : Uploading :=
  let isRetryable := !isFinal && upload.isRetryable isCancelled error
  match path with
  | some path =>
    let field := (error.validation.map ValidationError.field).getD ""
    (s.removeFile path removal).goOn jobId upload (.marking isRetryable field error)
  | none =>
    if upload.batchId.isSome then s.goOn jobId upload (.marking isRetryable "file" error)
    else s.endUpload jobId

def mark (s : Uploading) (jobId : String) (isRetryable : Bool) (field : String) (error : Error)
    (fault : Option Error) (now : ℕ) : Uploading :=
  let (code, reason) := failureDetails error
  let statement := if isRetryable then markUploadInterrupted jobId now
    else markFailed jobId code field reason now
  match attempt fault statement s.db with
  | .ok db => { s with db }.endUpload jobId
  | .error _ => s.endUpload jobId

/-- One step of one upload. -/
def perform (limits : UploadLimits) (s : Uploading) : UploadEvent → Option Uploading
  | .createBatch batchId now =>
    match Transaction.outcome (createBatch batchId now) s.db with
    | .ok db => some { s with db }
    | .error _ => some s
  | .createJob jobId batchId now =>
    match Transaction.outcome (createJob jobId batchId now) s.db with
    | .ok db => some { s with db }
    | .error _ => some s
  | .start jobId contentLength badFilename => s.start jobId contentLength badFilename
  | .reserve jobId fault now => do
    let upload ← s.uploads.lookup jobId
    match upload.phase with
    | .reserving => some (s.reserve limits jobId upload fault now)
    | _ => none
  | .create jobId path fault => do
    let upload ← s.uploads.lookup jobId
    match upload.phase with
    | .creating => s.create limits jobId upload path fault
    | _ => none
  | .chunk jobId length fault removal now => do
    let upload ← s.uploads.lookup jobId
    match upload.phase with
    | .reading path reserved =>
      let size ← s.files.lookup path
      if upload.contentLength < 0 ∨ size + length ≤ upload.contentLength then
        some (s.chunk limits jobId upload path reserved length size fault removal now)
      else none
    | _ => none
  | .write jobId fault removal => do
    let upload ← s.uploads.lookup jobId
    match upload.phase with
    | .writing path reserved length =>
      let size ← s.files.lookup path
      some (s.write limits jobId upload path reserved length size fault removal)
    | _ => none
  | .breakOff jobId error removal => do
    let upload ← s.uploads.lookup jobId
    match upload.phase with
    | .reading path _ =>
      let size ← s.files.lookup path
      some (s.stagingFails jobId upload path removal
        (stagingFailure upload size (some error) removal))
    | _ => none
  | .finish jobId fault removal => do
    let upload ← s.uploads.lookup jobId
    match upload.phase with
    | .reading path _ =>
      let size ← s.files.lookup path
      some (s.finish jobId upload path size fault removal)
    | _ => none
  | .reserveStaged jobId fault now => do
    let upload ← s.uploads.lookup jobId
    match upload.phase with
    | .staged path =>
      let size ← s.files.lookup path
      some (s.reserveStaged limits jobId upload path size fault now)
    | _ => none
  | .reject jobId error => do
    let upload ← s.uploads.lookup jobId
    match upload.phase with
    | .validating path => some (s.goOn jobId upload (.failing (some path) false error))
    | _ => none
  | .markPreview jobId contentSha256 fault lost reread isCancelled now => do
    let upload ← s.uploads.lookup jobId
    match upload.phase with
    | .validating path =>
      let size ← s.files.lookup path
      some (s.storePreview limits jobId upload path size contentSha256 fault lost reread
        isCancelled now)
    | _ => none
  | .markExactDuplicate jobId contentSha256 trackId fault now => do
    let upload ← s.uploads.lookup jobId
    match upload.phase with
    | .validating path =>
      let size ← s.files.lookup path
      some (s.afterStatement jobId upload
        (attempt fault (markExactDuplicate jobId path contentSha256 trackId size now) s.db)
        (.removing path) (some path))
    | _ => none
  | .remove jobId removal => do
    let upload ← s.uploads.lookup jobId
    match upload.phase with
    | .removing path =>
      if removal.isSome then some (s.endUpload jobId)
      else some ((s.removeFile path none).goOn jobId upload .clearing)
    | _ => none
  | .clear jobId fault now => do
    let upload ← s.uploads.lookup jobId
    match upload.phase with
    | .clearing =>
      match attempt fault (clearStagedFile jobId now) s.db with
      | .ok db => some ({ s with db }.endUpload jobId)
      | .error _ => some (s.endUpload jobId)
    | _ => none
  | .discard jobId isCancelled removal => do
    let upload ← s.uploads.lookup jobId
    match upload.phase with
    | .failing path isFinal error =>
      some (s.discard jobId upload path isFinal error isCancelled removal)
    | _ => none
  | .mark jobId fault now => do
    let upload ← s.uploads.lookup jobId
    match upload.phase with
    | .marking isRetryable field error => some (s.mark jobId isRetryable field error fault now)
    | _ => none

def Step (limits : UploadLimits) (s : Uploading) (event : UploadEvent) (t : Uploading) : Prop :=
  s.perform limits event = some t

/-- The server as it starts: a restart removes every staging file and cancels every
Batch that is not completed. -/
structure Init (limits : UploadLimits) (s : Uploading) : Prop where
  files : s.files = ∅
  owners : s.owners = ∅
  uploads : s.uploads = ∅
  rows : ∀ jobId job, s.db.jobs.lookup jobId = some job →
    job.stagedFilePath = none ∧ 0 ≤ job.uploadSizeBytes
  batches : ∀ jobId job batchId, s.db.jobs.lookup jobId = some job → job.batchId = some batchId →
    ∃ batch, s.db.batches.lookup batchId = some batch ∧ batch.status = .completed
  limit : 0 ≤ limits.batch ∧ ∀ batchId, s.db.reserved batchId ≤ limits.batch

/-- What any uploads lead to, in any interleaving. -/
def Reachable (limits : UploadLimits) : Uploading → Prop :=
  Transition.Reachable (Init limits) (Step limits)

end Uploading

end Harmony.ManagedImport
