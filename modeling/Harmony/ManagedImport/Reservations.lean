/-
# What the Jobs of a Batch have reserved

Every statement changes one row. With what it does to that row goes what it does to
the sum over the Batch, so the limit is kept by the two statements that raise a
reservation. The bytes in a staging file stay inside the reservation because each
byte is reserved before it is written, all at once for a declared length and chunk by
chunk otherwise.

A failed upload gives its reservation back where it is marked as interrupted or as a
duplicate. Marking it as failed does not.
-/

import Harmony.ManagedImport.Uploads

namespace Harmony.ManagedImport

/-! ### One statement -/

/-- The Batch still takes uploads. -/
def Database.TakesUploads (db : Database) (batchId : String) : Prop :=
  ∃ batch, db.batches.lookup batchId = some batch ∧ batch.status = .uploading

/-- One Job is changed, in its Batch, and the Batches keep their state. -/
structure Changes (db db' : Database) (jobId : String) (job job' : JobRow) : Prop where
  before : db.jobs.lookup jobId = some job
  lookup : ∀ id, db'.jobs.lookup id = if id = jobId then some job' else db.jobs.lookup id
  sum : ∀ f : String → JobRow → ℤ, db'.jobs.sum f = db.jobs.sum f - f jobId job + f jobId job'
  batchId : job'.batchId = job.batchId
  isValid : job'.isValid = true
  batches : ∀ id, id ∈ db'.batches ↔ id ∈ db.batches
  takesUploads : ∀ id, db'.TakesUploads id ↔ db.TakesUploads id

variable {db db' : Database}

/-- Raising revisions neither adds a Batch nor moves one on. -/
theorem takesUploads_revise {p : String → BatchRow → Bool}
    (hbatches : db'.batches = db.batches.updateWhere p BatchRow.revise) (id : String) :
    (id ∈ db'.batches ↔ id ∈ db.batches) ∧ (db'.TakesUploads id ↔ db.TakesUploads id) := by
  constructor
  · rw [← AList.lookup_isSome, ← AList.lookup_isSome, hbatches, Table.lookup_updateWhere,
      Option.isSome_map]
  · simp only [Database.TakesUploads, hbatches, Table.lookup_updateWhere, Option.map_eq_some_iff]
    constructor
    · rintro ⟨_, ⟨batch, hbatch, rfl⟩, hstatus⟩
      refine ⟨batch, hbatch, ?_⟩
      split_ifs at hstatus <;> exact hstatus
    · rintro ⟨batch, hbatch, hstatus⟩
      refine ⟨_, ⟨batch, hbatch, rfl⟩, ?_⟩
      split_ifs <;> exact hstatus

/-- What a guarded update that matched does. -/
theorem JobUpdate.run_ok {update : JobUpdate} {jobId : String}
    (hbatch : ∀ job, (update.change job).batchId = job.batchId)
    (h : Transaction.outcome (update.run jobId) db = .ok db') :
    ∃ job, update.guard db job = true ∧ Changes db db' jobId job (update.change job) := by
  obtain ⟨_, hrun⟩ := Transaction.outcome_eq_ok.mp h
  simp only [JobUpdate.run, Transaction.run_bind_ok, Transaction.run_get_ok,
    Transaction.run_fromOption_ok, Transaction.run_require_ok, Tx.run_constraint_ok,
    Transaction.run_modify_ok] at hrun
  obtain ⟨_, _, ⟨rfl, rfl⟩, job, _, ⟨hjob, rfl⟩, _, _, ⟨hguard, rfl⟩, _, _, ⟨hvalid, rfl⟩, rfl⟩ :=
    hrun
  refine ⟨job, hguard, hjob, fun id => ?_, fun f => ?_, hbatch job, hvalid, fun id => ?_,
    fun id => ?_⟩
  · rw [Table.lookup_modify]
    split_ifs with hid
    · rw [hid, hjob]
      rfl
    · rfl
  · exact Table.sum_modify f update.change hjob
  · exact (takesUploads_revise rfl id).1
  · exact (takesUploads_revise rfl id).2

theorem attempt_ok {fault : Option Error} {statement : Tx Unit}
    (h : attempt fault statement db = .ok db') :
    fault = none ∧ Transaction.outcome statement db = .ok db' := by
  cases fault with
  | some error => simp [attempt] at h
  | none => exact ⟨rfl, h⟩

variable {job : JobRow}

/-- A guarded update that matches is made, when the new row is valid. -/
theorem JobUpdate.run_of_guard {update : JobUpdate} {jobId : String} {db : Database}
    (hjob : db.jobs.lookup jobId = some job) (hguard : update.guard db job = true)
    (hvalid : (update.change job).isValid = true) :
    ∃ db', Transaction.outcome (update.run jobId) db = .ok db' := by
  have hrun : ∃ db', update.run jobId db = .ok ((), db') := by
    simp only [JobUpdate.run, Transaction.run_bind_ok, Transaction.run_get_ok,
      Transaction.run_fromOption_ok, Transaction.run_require_ok, Tx.run_constraint_ok,
      Transaction.run_modify_ok]
    exact ⟨_, db, db, ⟨rfl, rfl⟩, job, db, ⟨hjob, rfl⟩, (), db, ⟨hguard, rfl⟩, (), db,
      ⟨hvalid, rfl⟩, rfl⟩
  obtain ⟨db', hrun⟩ := hrun
  exact ⟨db', Transaction.outcome_eq_ok.mpr ⟨(), hrun⟩⟩

variable {path : RelativePath} {size : ℤ}

section Statements

variable {db db' : Database} {jobId : String} {now : ℕ}

theorem reserveBatchUpload_ok {size batchLimit : ℤ}
    (h : Transaction.outcome (reserveBatchUpload jobId size batchLimit now) db = .ok db') :
    ∃ job job', Changes db db' jobId job job' ∧
      size + db.reservedBySiblings jobId job.batchId ≤ batchLimit ∧
      job'.uploadSizeBytes = size ∧ job.status = .uploading ∧ job'.status = .uploading ∧
      job'.stagedFilePath = job.stagedFilePath := by
  obtain ⟨job, hguard, hchanges⟩ := JobUpdate.run_ok (fun _ => rfl) h
  simp only [Bool.and_eq_true, fitsBatch, decide_eq_true_eq] at hguard
  exact ⟨job, _, hchanges, hguard.2, rfl, hguard.1.1, hguard.1.1, rfl⟩

theorem markPreview_ok {contentSha256 : String} {size batchLimit : ℤ}
    (h : Transaction.outcome (markPreview jobId path contentSha256 size batchLimit now) db =
      .ok db') :
    ∃ job job', Changes db db' jobId job job' ∧
      (job.batchId = none ∨ size + db.reservedBySiblings jobId job.batchId ≤ batchLimit) ∧
      job'.uploadSizeBytes = size ∧ job'.status = .awaitingConfirmation ∧
      job'.stagedFilePath = some path := by
  obtain ⟨job, hguard, hchanges⟩ := JobUpdate.run_ok (fun _ => rfl) h
  simp only [Bool.and_eq_true, Bool.or_eq_true, fitsBatch, decide_eq_true_eq,
    Option.isNone_iff_eq_none] at hguard
  exact ⟨job, _, hchanges, hguard.2, rfl, rfl, rfl⟩

theorem markExactDuplicate_ok {contentSha256 trackId : String}
    (h : Transaction.outcome (markExactDuplicate jobId path contentSha256 trackId size now) db =
      .ok db') :
    ∃ job job', Changes db db' jobId job job' ∧
      job'.uploadSizeBytes = size ∧ job'.status = .failed ∧ job'.stagedFilePath = some path := by
  obtain ⟨job, -, hchanges⟩ := JobUpdate.run_ok (fun _ => rfl) h
  exact ⟨job, _, hchanges, rfl, rfl, rfl⟩

theorem clearStagedFile_ok (h : Transaction.outcome (clearStagedFile jobId now) db = .ok db') :
    ∃ job job', Changes db db' jobId job job' ∧
      job'.uploadSizeBytes = 0 ∧ job'.stagedFilePath = none := by
  obtain ⟨job, -, hchanges⟩ := JobUpdate.run_ok (fun _ => rfl) h
  exact ⟨job, _, hchanges, rfl, rfl⟩

theorem markUploadInterrupted_ok
    (h : Transaction.outcome (markUploadInterrupted jobId now) db = .ok db') :
    ∃ job job', Changes db db' jobId job job' ∧
      job'.uploadSizeBytes = 0 ∧ job'.stagedFilePath = none := by
  obtain ⟨job, -, hchanges⟩ := JobUpdate.run_ok (fun _ => rfl) h
  exact ⟨job, _, hchanges, rfl, rfl⟩

/-- The reservation is kept. -/
theorem markFailed_ok {code field reason : String}
    (h : Transaction.outcome (markFailed jobId code field reason now) db = .ok db') :
    ∃ job job', Changes db db' jobId job job' ∧
      job'.uploadSizeBytes = job.uploadSizeBytes ∧ job'.stagedFilePath = none := by
  obtain ⟨job, -, hchanges⟩ := JobUpdate.run_ok (fun _ => rfl) h
  exact ⟨job, _, hchanges, rfl, rfl⟩

end Statements

/-! ### What one statement does to the sums -/

/-- What the row counts for in the sum of a Batch. -/
def JobRow.share (batchId : String) (job : JobRow) : ℤ :=
  if job.batchId = some batchId then job.uploadSizeBytes else 0

theorem JobRow.zero_le_size (h : job.isValid = true) : 0 ≤ job.uploadSizeBytes := by
  simp only [JobRow.isValid, decide_eq_true_eq] at h
  exact h.1

namespace Changes

variable {db db' : Database} {jobId : String} {job job' : JobRow} {batchLimit : ℤ}

theorem reserved (h : Changes db db' jobId job job') (batchId : String) :
    db'.reserved batchId =
      db.reserved batchId - job.share batchId + job'.share batchId :=
  h.sum fun _ job => job.share batchId

/-- A reservation that is not raised keeps every limit. -/
theorem limit_of_le (h : Changes db db' jobId job job')
    (hle : job'.uploadSizeBytes ≤ job.uploadSizeBytes)
    (hlimit : ∀ batchId, db.reserved batchId ≤ batchLimit) (batchId : String) :
    db'.reserved batchId ≤ batchLimit := by
  have hbefore := hlimit batchId
  rw [h.reserved]
  simp only [JobRow.share, h.batchId]
  split_ifs <;> omega

/-- A reservation that was checked against the siblings keeps every limit. -/
theorem limit_of_fits (h : Changes db db' jobId job job')
    (hfits : job.batchId = none ∨
      job'.uploadSizeBytes + db.reservedBySiblings jobId job.batchId ≤ batchLimit)
    (hlimit : ∀ batchId, db.reserved batchId ≤ batchLimit) (batchId : String) :
    db'.reserved batchId ≤ batchLimit := by
  have hbefore := hlimit batchId
  rw [h.reserved]
  simp only [JobRow.share, h.batchId]
  split_ifs with hbatch
  · have hshare := Table.sum_eq_sumExcept_add
      (fun (_ : String) (job : JobRow) =>
        if job.batchId = some batchId then job.uploadSizeBytes else 0) h.before
    simp only [hbatch, if_true] at hshare
    simp only [hbatch, reduceCtorEq, false_or, Database.reservedBySiblings] at hfits
    simp only [Database.reserved] at hbefore ⊢
    omega
  · omega

end Changes

namespace Uploading

/-! ### The invariant -/

/-- The bytes in this file lie inside what the Job has reserved. -/
def Covers (s : Uploading) (job : JobRow) (path : RelativePath) : Prop :=
  job.batchId.isSome → ∀ size, s.files.lookup path = some size → size ≤ job.uploadSizeBytes

structure RowOk (s : Uploading) (jobId : String) (job : JobRow) : Prop where
  nonneg : 0 ≤ job.uploadSizeBytes
  batch : ∀ batchId, job.batchId = some batchId → batchId ∈ s.db.batches
  uploading : job.status = .uploading → job.stagedFilePath = none
  staged : ∀ path, job.stagedFilePath = some path →
    s.owners.lookup path = some jobId ∧ s.Covers job path

/-- A declared length is reserved whole, an undeclared one as far as it was read. -/
def Fits (upload : Upload) (job : JobRow) (reserved bytes : ℤ) : Prop :=
  upload.batchId.isSome →
    if 0 ≤ upload.contentLength then
      bytes ≤ upload.contentLength ∧ upload.contentLength ≤ job.uploadSizeBytes
    else bytes = reserved ∧ bytes ≤ job.uploadSizeBytes

variable {upload : Upload}

theorem Fits.le {reserved bytes : ℤ} (h : Fits upload job reserved bytes)
    (hbatch : upload.batchId.isSome) :
    bytes ≤ job.uploadSizeBytes := by
  have hfits := h hbatch
  split_ifs at hfits
  · omega
  · exact hfits.2

/-- What is known of the Job and its staging file in each phase. -/
def PhaseOk (s : Uploading) (jobId : String) (upload : Upload) (job : JobRow) :
    UploadPhase → Prop
  | .reserving | .marking .. | .failing none .. => True
  | .creating => upload.batchId.isSome → 0 ≤ upload.contentLength →
    upload.contentLength ≤ job.uploadSizeBytes
  | .reading path reserved => s.owners.lookup path = some jobId ∧
    ∃ size, s.files.lookup path = some size ∧ Fits upload job reserved size
  | .writing path reserved length => s.owners.lookup path = some jobId ∧
    ∃ size, s.files.lookup path = some size ∧ Fits upload job reserved (size + length)
  | .staged path => s.owners.lookup path = some jobId ∧ path ∈ s.files ∧ s.Covers job path
  | .validating path => s.owners.lookup path = some jobId ∧
    ∃ size, s.files.lookup path = some size ∧
      (upload.batchId.isSome → job.uploadSizeBytes = size)
  | .removing path => s.owners.lookup path = some jobId ∧ path ∈ s.files ∧
    job.stagedFilePath = some path ∧ job.status = .failed
  | .clearing => job.stagedFilePath.isSome ∧ job.status = .failed
  | .failing (some path) _ _ => s.owners.lookup path = some jobId ∧ s.Covers job path

def UploadOk (s : Uploading) (jobId : String) (upload : Upload) : Prop :=
  ∃ job, s.db.jobs.lookup jobId = some job ∧ job.batchId = upload.batchId ∧
    (upload.phase.isEarly = true → job.status = .uploading) ∧
    s.PhaseOk jobId upload job upload.phase

/-- A Job whose upload is over and that has no staged file reserves nothing, as long
as its Batch takes uploads. -/
def RowReleased (s : Uploading) (job : JobRow) : Prop :=
  ∀ batchId, job.batchId = some batchId → s.db.TakesUploads batchId →
    (∀ path, job.stagedFilePath = some path → path ∉ s.files) → job.uploadSizeBytes = 0

/-- All but the upload of one Job. `strict` asks that failed uploads reserve nothing. -/
structure SoundBut (limits : UploadLimits) (strict : Prop) (jobId : String) (s : Uploading) :
    Prop where
  limit : ∀ batchId, s.db.reserved batchId ≤ limits.batch
  rows : ∀ id job, s.db.jobs.lookup id = some job → s.RowOk id job
  uploads : ∀ id upload, id ≠ jobId → s.uploads.lookup id = some upload → s.UploadOk id upload
  released : strict → ∀ id job, id ≠ jobId → id ∉ s.uploads → s.db.jobs.lookup id = some job →
    s.RowReleased job

structure Sound (limits : UploadLimits) (strict : Prop) (s : Uploading) : Prop where
  limit : ∀ batchId, s.db.reserved batchId ≤ limits.batch
  rows : ∀ id job, s.db.jobs.lookup id = some job → s.RowOk id job
  uploads : ∀ id upload, s.uploads.lookup id = some upload → s.UploadOk id upload
  released : strict → ∀ id job, id ∉ s.uploads → s.db.jobs.lookup id = some job →
    s.RowReleased job

variable {limits : UploadLimits} {strict : Prop} {s t : Uploading} {jobId : String}

theorem Sound.but (h : s.Sound limits strict) (jobId : String) : s.SoundBut limits strict jobId :=
  ⟨h.limit, h.rows, fun id upload _ => h.uploads id upload, fun hs id job _ => h.released hs id job⟩

/-! ### What the parts of a step keep -/

/-- What other Jobs own is as it was. -/
structure Spares (s t : Uploading) (jobId : String) : Prop where
  files : ∀ path id, s.owners.lookup path = some id → id ≠ jobId →
    t.files.lookup path = s.files.lookup path
  owners : ∀ path id, s.owners.lookup path = some id → t.owners.lookup path = some id

theorem Spares.same (hfiles : t.files = s.files) (howners : t.owners = s.owners) :
    s.Spares t jobId :=
  ⟨fun _ _ _ _ => by rw [hfiles], fun _ _ h => by rwa [howners]⟩

theorem Covers.spares {id : String} (h : s.Covers job path) (hspares : s.Spares t jobId)
    (howner : s.owners.lookup path = some id) (hid : id ≠ jobId) :
    t.Covers job path := by
  intro hbatch size hsize
  rw [hspares.files path id howner hid] at hsize
  exact h hbatch size hsize

theorem mem_files_spares {id : String} (hspares : s.Spares t jobId)
    (howner : s.owners.lookup path = some id) (hid : id ≠ jobId) :
    path ∈ t.files ↔ path ∈ s.files := by
  rw [← AList.lookup_isSome, ← AList.lookup_isSome, hspares.files path id howner hid]

theorem PhaseOk.spares {id : String} {phase : UploadPhase} (h : s.PhaseOk id upload job phase)
    (hspares : s.Spares t jobId) (hid : id ≠ jobId) :
    t.PhaseOk id upload job phase := by
  cases phase with
  | reserving => trivial
  | creating => exact h
  | reading path reserved =>
    obtain ⟨howner, size, hsize, hfits⟩ := h
    exact ⟨hspares.owners _ _ howner, size, (hspares.files _ _ howner hid).trans hsize, hfits⟩
  | writing path reserved length =>
    obtain ⟨howner, size, hsize, hfits⟩ := h
    exact ⟨hspares.owners _ _ howner, size, (hspares.files _ _ howner hid).trans hsize, hfits⟩
  | staged path =>
    obtain ⟨howner, hfile, hcovers⟩ := h
    exact ⟨hspares.owners _ _ howner, (mem_files_spares hspares howner hid).mpr hfile,
      hcovers.spares hspares howner hid⟩
  | validating path =>
    obtain ⟨howner, size, hsize, hreserved⟩ := h
    exact ⟨hspares.owners _ _ howner, size, (hspares.files _ _ howner hid).trans hsize, hreserved⟩
  | removing path =>
    obtain ⟨howner, hfile, hrow⟩ := h
    exact ⟨hspares.owners _ _ howner, (mem_files_spares hspares howner hid).mpr hfile, hrow⟩
  | clearing => exact h
  | failing path isFinal error =>
    cases path with
    | none => trivial
    | some path => exact ⟨hspares.owners _ _ h.1, h.2.spares hspares h.1 hid⟩
  | marking isRetryable field error => trivial

/-- Files and owners change for one Job only, and the row of that Job still fits. -/
theorem SoundBut.files (h : s.SoundBut limits strict jobId) {files : Table RelativePath ℤ}
    {owners : Table RelativePath String} (hspares : s.Spares { s with files, owners } jobId)
    (hrow : ∀ job, s.db.jobs.lookup jobId = some job → ∀ path, job.stagedFilePath = some path →
      Covers { s with files, owners } job path) :
    SoundBut limits strict jobId { s with files, owners } where
  limit := h.limit
  rows id job hjob := by
    have hrowOk := h.rows id job hjob
    refine ⟨hrowOk.nonneg, hrowOk.batch, hrowOk.uploading, fun path hpath => ?_⟩
    obtain ⟨howner, hcovers⟩ := hrowOk.staged path hpath
    refine ⟨hspares.owners _ _ howner, ?_⟩
    by_cases hid : id = jobId
    · subst hid
      exact hrow job hjob path hpath
    · exact hcovers.spares hspares howner hid
  uploads id upload hid hupload := by
    obtain ⟨job, hjob, hbatch, hearly, hphase⟩ := h.uploads id upload hid hupload
    exact ⟨job, hjob, hbatch, hearly, hphase.spares hspares hid⟩
  released hstrict id job hid hupload hjob batchId hbatch htakes hgone := by
    refine h.released hstrict id job hid hupload hjob batchId hbatch htakes fun path hpath => ?_
    obtain ⟨howner, -⟩ := (h.rows id job hjob).staged path hpath
    exact (mem_files_spares hspares howner hid).not.mp (hgone path hpath)

/-- A file of the Job is removed. -/
theorem SoundBut.removeFile (h : s.SoundBut limits strict jobId)
    (howner : s.owners.lookup path = some jobId) (removal : Option Error) :
    (s.removeFile path removal).SoundBut limits strict jobId := by
  rw [Uploading.removeFile]
  split_ifs
  · exact h
  · have herase : ∀ other, AList.lookup other (s.files.erase path) =
        if other = path then none else s.files.lookup other := fun other =>
      Table.lookup_erase_eq s.files other path
    refine h.files ⟨fun other id hother hid => ?_, fun _ _ => id⟩ fun job hjob staged hstaged => ?_
    · show AList.lookup other (s.files.erase path) = _
      rw [herase, if_neg]
      rintro rfl
      exact hid (Option.some.inj (hother.symm.trans howner))
    · intro hbatch size hsize
      have hsize : AList.lookup staged (s.files.erase path) = some size := hsize
      rw [herase] at hsize
      split_ifs at hsize
      exact ((h.rows jobId job hjob).staged staged hstaged).2 hbatch size hsize

/-- A statement changes the Job's row. -/
theorem SoundBut.statement (h : s.SoundBut limits strict jobId) {db : Database}
    {job job' : JobRow} (hchanges : Changes s.db db jobId job job')
    (hlimit : ∀ batchId, db.reserved batchId ≤ limits.batch)
    (huploading : job'.status = .uploading → job'.stagedFilePath = none)
    (hstaged : ∀ path, job'.stagedFilePath = some path →
      s.owners.lookup path = some jobId ∧ s.Covers job' path) :
    SoundBut limits strict jobId { s with db } where
  limit := hlimit
  rows id other hother := by
    have hother : db.jobs.lookup id = some other := hother
    rw [hchanges.lookup] at hother
    split_ifs at hother with hid
    · subst hid
      cases hother
      refine ⟨JobRow.zero_le_size hchanges.isValid, fun batchId hbatch => ?_, huploading, hstaged⟩
      rw [hchanges.batchId] at hbatch
      exact (hchanges.batches batchId).mpr ((h.rows _ job hchanges.before).batch batchId hbatch)
    · have hrowOk := h.rows id other hother
      exact ⟨hrowOk.nonneg, fun batchId hbatch => (hchanges.batches batchId).mpr
        (hrowOk.batch batchId hbatch), hrowOk.uploading, hrowOk.staged⟩
  uploads id upload hid hupload := by
    obtain ⟨other, hother, hbatch, hearly, hphase⟩ := h.uploads id upload hid hupload
    refine ⟨other, ?_, hbatch, hearly, ?_⟩
    · show db.jobs.lookup id = some other
      rw [hchanges.lookup, if_neg hid]
      exact hother
    · exact hphase.spares (.same rfl rfl) hid
  released hstrict id other hid hupload hother batchId hbatch htakes hgone := by
    have hother : db.jobs.lookup id = some other := hother
    rw [hchanges.lookup, if_neg hid] at hother
    exact h.released hstrict id other hid hupload hother batchId hbatch
      ((hchanges.takesUploads batchId).mp htakes) hgone

theorem SoundBut.goOn (h : s.SoundBut limits strict jobId) {phase : UploadPhase}
    (hjob : s.db.jobs.lookup jobId = some job) (hbatch : job.batchId = upload.batchId)
    (hearly : phase.isEarly = true → job.status = .uploading)
    (hphase : s.PhaseOk jobId { upload with phase } job phase) :
    (s.goOn jobId upload phase).Sound limits strict where
  limit := h.limit
  rows id other hother := by
    have hrowOk := h.rows id other hother
    exact ⟨hrowOk.nonneg, hrowOk.batch, hrowOk.uploading, hrowOk.staged⟩
  uploads id other hother := by
    have hlookup : AList.lookup id (s.uploads.insert jobId { upload with phase }) = some other :=
      hother
    rw [Table.lookup_insert_eq] at hlookup
    split_ifs at hlookup with hid
    · cases hlookup
      subst hid
      exact ⟨job, hjob, hbatch, hearly, hphase⟩
    · obtain ⟨row, hrow, hrowBatch, hrowEarly, hrowPhase⟩ := h.uploads id other hid hlookup
      exact ⟨row, hrow, hrowBatch, hrowEarly, hrowPhase.spares (.same rfl rfl) hid⟩
  released hstrict id other hupload hother := by
    have hnot : id ∉ s.uploads.insert jobId { upload with phase } := hupload
    rw [AList.mem_insert, not_or] at hnot
    exact h.released hstrict id other hnot.1 hnot.2 hother

/-- The upload of the Job ends: it may have failed only if it gave everything back. -/
theorem SoundBut.endUpload (h : s.SoundBut limits strict jobId)
    (hreleased : strict → ∀ job, s.db.jobs.lookup jobId = some job → s.RowReleased job) :
    (s.endUpload jobId).Sound limits strict where
  limit := h.limit
  rows id other hother := by
    have hrowOk := h.rows id other hother
    exact ⟨hrowOk.nonneg, hrowOk.batch, hrowOk.uploading, hrowOk.staged⟩
  uploads id other hother := by
    have hlookup : AList.lookup id (s.uploads.erase jobId) = some other := hother
    rw [Table.lookup_erase_eq] at hlookup
    split_ifs at hlookup with hid
    obtain ⟨row, hrow, hrowBatch, hrowEarly, hrowPhase⟩ := h.uploads id other hid hlookup
    exact ⟨row, hrow, hrowBatch, hrowEarly, hrowPhase.spares (.same rfl rfl) hid⟩
  released hstrict id other hupload hother := by
    by_cases hid : id = jobId
    · subst hid
      exact hreleased hstrict other hother
    · have hnot : id ∉ s.uploads.erase jobId := hupload
      rw [AList.mem_erase, not_and] at hnot
      exact h.released hstrict id other hid (hnot hid) hother

/-! ### The steps of one upload -/

section Steps

variable {upload : Upload} {job : JobRow} {path : RelativePath} {now : ℕ}

/-- A failure that has nothing staged left may come at any time. -/
theorem SoundBut.fails (h : s.SoundBut limits strict jobId)
    (hjob : s.db.jobs.lookup jobId = some job) (hbatch : job.batchId = upload.batchId)
    (isFinal : Bool) (error : Error) :
    (s.goOn jobId upload (.failing none isFinal error)).Sound limits strict :=
  h.goOn hjob hbatch (fun hearly => by simp [UploadPhase.isEarly] at hearly) trivial

theorem SoundBut.failsWith (h : s.SoundBut limits strict jobId)
    (hjob : s.db.jobs.lookup jobId = some job) (hbatch : job.batchId = upload.batchId)
    (howner : s.owners.lookup path = some jobId) (hcovers : s.Covers job path)
    (isFinal : Bool) (error : Error) :
    (s.goOn jobId upload (.failing (some path) isFinal error)).Sound limits strict :=
  h.goOn hjob hbatch (fun hearly => by simp [UploadPhase.isEarly] at hearly) ⟨howner, hcovers⟩

theorem SoundBut.stagingFails (h : s.SoundBut limits strict jobId)
    (hjob : s.db.jobs.lookup jobId = some job) (hbatch : job.batchId = upload.batchId)
    (howner : s.owners.lookup path = some jobId) (removal : Option Error) (error : Error) :
    (s.stagingFails jobId upload path removal error).Sound limits strict := by
  have hkept : (s.removeFile path removal).db.jobs.lookup jobId = some job := by
    rw [Uploading.removeFile]
    split_ifs <;> exact hjob
  exact (h.removeFile howner removal).fails hkept hbatch false error

/-- What a reservation that was made leaves behind. -/
theorem SoundBut.reserved (h : s.SoundBut limits strict jobId) {db : Database}
    (hreserve : Transaction.outcome (reserveBatchUpload jobId size limits.batch now) s.db = .ok db)
    (hjob : s.db.jobs.lookup jobId = some job) :
    ∃ job', db.jobs.lookup jobId = some job' ∧ job'.batchId = job.batchId ∧
      job'.status = .uploading ∧ job'.uploadSizeBytes = size ∧
      SoundBut limits strict jobId { s with db } := by
  obtain ⟨other, job', hchanges, hfits, hsize, hstatus, hstatus', hstaged⟩ :=
    reserveBatchUpload_ok hreserve
  cases hjob.symm.trans hchanges.before
  have hnone : job'.stagedFilePath = none :=
    hstaged.trans ((h.rows jobId job hjob).uploading hstatus)
  refine ⟨job', ?_, hchanges.batchId, hstatus', hsize, h.statement hchanges ?_ (fun _ => hnone) ?_⟩
  · rw [hchanges.lookup, if_pos rfl]
  · exact hchanges.limit_of_fits (.inr (by rw [hsize]; exact hfits)) h.limit
  · intro path hpath
    simp [hnone] at hpath

variable (h : s.Sound limits strict) (hupload : s.uploads.lookup jobId = some upload)
  {reserved size : ℤ}
include h hupload

theorem Sound.reserve (hphase : upload.phase = .reserving) (fault : Option Error) (now : ℕ) :
    (s.reserve limits jobId upload fault now).Sound limits strict := by
  obtain ⟨job, hjob, hbatch, hearly, -⟩ := h.uploads jobId upload hupload
  have hstatus := hearly (by rw [hphase]; rfl)
  rw [Uploading.reserve]
  split_ifs with hnone
  · refine (h.but jobId).goOn hjob hbatch (fun _ => hstatus) fun hsome => ?_
    have hsome : upload.batchId.isSome = true := hsome
    rw [Option.isNone_iff_eq_none.mp hnone] at hsome
    simp at hsome
  · cases hsize : limits.uploadReservationSize upload.contentLength with
    | error error => exact (h.but jobId).fails hjob hbatch false error
    | ok size =>
      have hmax : max upload.contentLength 0 = size := by
        rw [UploadLimits.uploadReservationSize] at hsize
        cases hlength : limits.validateUploadLength upload.contentLength with
        | error error => simp [hlength, Except.map] at hsize
        | ok _ => simpa [hlength, Except.map] using hsize
      simp only [afterStatement]
      cases hreserve : attempt fault (reserveBatchUpload jobId size limits.batch now) s.db with
      | error error => exact (h.but jobId).fails hjob hbatch false error
      | ok db =>
        obtain ⟨-, hreserve⟩ := attempt_ok hreserve
        obtain ⟨job', hjob', hbatch', hstatus', hsize', hsound⟩ :=
          (h.but jobId).reserved hreserve hjob
        refine hsound.goOn hjob' (hbatch'.trans hbatch) (fun _ => hstatus') fun _ _ => ?_
        show upload.contentLength ≤ _
        omega

theorem Sound.create (hphase : upload.phase = .creating) {fault : Option Error}
    (hstep : s.create limits jobId upload path fault = some t) : t.Sound limits strict := by
  obtain ⟨job, hjob, hbatch, hearly, hphaseOk⟩ := h.uploads jobId upload hupload
  rw [hphase] at hearly hphaseOk
  have hstatus := hearly rfl
  unfold Uploading.create at hstep
  cases hlength : limits.validateUploadLength upload.contentLength with
  | error error =>
    simp only [hlength] at hstep
    cases hstep
    exact (h.but jobId).fails hjob hbatch false error
  | ok _ =>
  cases fault with
  | some error =>
    simp only [hlength] at hstep
    cases hstep
    exact (h.but jobId).fails hjob hbatch false error
  | none =>
    simp only [hlength] at hstep
    split_ifs at hstep with hnew
    cases hstep
    have hne : ∀ other id, s.owners.lookup other = some id → other ≠ path := by
      rintro other id hother rfl
      exact hnew (AList.lookup_isSome.mp (by rw [hother]; rfl))
    have hsound : SoundBut limits strict jobId { s with
        files := s.files.insert path 0, owners := s.owners.insert path jobId } := by
      refine (h.but jobId).files ⟨fun other id hother _ => ?_, fun other id hother => ?_⟩ ?_
      · exact AList.lookup_insert_ne (hne other id hother)
      · exact (AList.lookup_insert_ne (hne other id hother)).trans hother
      · intro row hrow staged hstaged hsome size hsize
        obtain ⟨howner, hcovers⟩ := (h.rows jobId row hrow).staged staged hstaged
        have hsize : AList.lookup staged (s.files.insert path 0) = some size := hsize
        rw [AList.lookup_insert_ne (hne staged jobId howner)] at hsize
        exact hcovers hsome size hsize
    refine hsound.goOn hjob hbatch (fun _ => hstatus) ⟨AList.lookup_insert _, 0,
      AList.lookup_insert _, fun hsome => ?_⟩
    have hnonneg := (h.rows jobId job hjob).nonneg
    split_ifs with hdeclared
    · exact ⟨hdeclared, hphaseOk hsome hdeclared⟩
    · exact ⟨rfl, hnonneg⟩

theorem Sound.chunk {length : ℕ} (hphase : upload.phase = .reading path reserved)
    (hsize : s.files.lookup path = some size)
    (hbound : upload.contentLength < 0 ∨ size + length ≤ upload.contentLength)
    (fault removal : Option Error) (now : ℕ) :
    (s.chunk limits jobId upload path reserved length size fault removal now).Sound limits
      strict := by
  obtain ⟨job, hjob, hbatch, hearly, hphaseOk⟩ := h.uploads jobId upload hupload
  rw [hphase] at hearly hphaseOk
  have hstatus := hearly rfl
  obtain ⟨howner, other, hother, hfits⟩ := hphaseOk
  cases hsize.symm.trans hother
  rw [Uploading.chunk]
  split_ifs with hreserving
  · simp only [Upload.isReserving, Bool.and_eq_true, decide_eq_true_eq] at hreserving
    obtain ⟨⟨hsome, hundeclared⟩, -⟩ := hreserving
    have hread := hfits hsome
    rw [if_neg (by omega)] at hread
    simp only
    cases hreserve : attempt fault
        (reserveBatchUpload jobId (reserved + length) limits.batch now) s.db with
    | error error => exact (h.but jobId).stagingFails hjob hbatch howner removal _
    | ok db =>
      obtain ⟨-, hreserve⟩ := attempt_ok hreserve
      obtain ⟨job', hjob', hbatch', hstatus', hsize', hsound⟩ :=
        (h.but jobId).reserved hreserve hjob
      refine hsound.goOn hjob' (hbatch'.trans hbatch) (fun _ => hstatus')
        ⟨howner, size, hsize, ?_⟩
      show Fits upload job' (reserved + length) (size + length)
      intro _
      rw [if_neg (by omega)]
      omega
  · refine (h.but jobId).goOn hjob hbatch (fun _ => hstatus) ⟨howner, size, hsize, ?_⟩
    show Fits upload job reserved (size + length)
    intro hsome
    have hread := hfits hsome
    split_ifs at hread ⊢ with hdeclared
    · omega
    · -- An undeclared chunk that is not reserved is empty.
      have hempty : length = 0 := by
        by_contra hne
        refine hreserving ?_
        simp [Upload.isReserving, hsome, hne]
        omega
      omega

theorem Sound.write {length : ℕ} (hphase : upload.phase = .writing path reserved length)
    (hsize : s.files.lookup path = some size) (fault removal : Option Error) :
    (s.write limits jobId upload path reserved length size fault removal).Sound limits strict := by
  obtain ⟨job, hjob, hbatch, hearly, hphaseOk⟩ := h.uploads jobId upload hupload
  rw [hphase] at hearly hphaseOk
  have hstatus := hearly rfl
  obtain ⟨howner, other, hother, hfits⟩ := hphaseOk
  cases hsize.symm.trans hother
  simp only [Uploading.write]
  split_ifs
  · exact (h.but jobId).stagingFails hjob hbatch howner removal _
  · cases fault with
    | some error => exact (h.but jobId).stagingFails hjob hbatch howner removal _
    | none =>
      have hspares : s.Spares { s with files := s.files.insert path (size + length) } jobId := by
        refine ⟨fun staged id howned hid => ?_, fun _ _ howned => howned⟩
        refine AList.lookup_insert_ne ?_
        rintro rfl
        exact hid (Option.some.inj (howned.symm.trans howner))
      have hsound : SoundBut limits strict jobId
          { s with files := s.files.insert path (size + length) } := by
        refine (h.but jobId).files hspares fun row hrow staged hstaged hsome written hwritten => ?_
        cases hjob.symm.trans hrow
        have hwritten : AList.lookup staged (s.files.insert path (size + length)) =
          some written := hwritten
        rw [Table.lookup_insert_eq] at hwritten
        split_ifs at hwritten
        · cases hwritten
          exact hfits.le (hbatch ▸ hsome)
        · exact ((h.rows jobId job hjob).staged staged hstaged).2 hsome written hwritten
      exact hsound.goOn hjob hbatch (fun _ => hstatus)
        ⟨howner, size + length, AList.lookup_insert _, hfits⟩

theorem Sound.breakOff {reserved : ℤ} (hphase : upload.phase = .reading path reserved)
    (removal : Option Error) (error : Error) :
    (s.stagingFails jobId upload path removal error).Sound limits strict := by
  obtain ⟨job, hjob, hbatch, -, hphaseOk⟩ := h.uploads jobId upload hupload
  rw [hphase] at hphaseOk
  exact (h.but jobId).stagingFails hjob hbatch hphaseOk.1 removal error

theorem Sound.finish (hphase : upload.phase = .reading path reserved)
    (hsize : s.files.lookup path = some size) (fault removal : Option Error) :
    (s.finish jobId upload path size fault removal).Sound limits strict := by
  obtain ⟨job, hjob, hbatch, hearly, hphaseOk⟩ := h.uploads jobId upload hupload
  rw [hphase] at hearly hphaseOk
  obtain ⟨howner, other, hother, hfits⟩ := hphaseOk
  cases hsize.symm.trans hother
  rw [Uploading.finish]
  split_ifs
  · exact (h.but jobId).stagingFails hjob hbatch howner removal _
  · refine (h.but jobId).goOn hjob hbatch (fun _ => hearly rfl)
      ⟨howner, AList.lookup_isSome.mp (by rw [hsize]; rfl), fun hsome written hwritten => ?_⟩
    cases hsize.symm.trans hwritten
    exact hfits.le (hbatch ▸ hsome)

theorem Sound.reserveStaged (hphase : upload.phase = .staged path)
    (hsize : s.files.lookup path = some size) (fault : Option Error) (now : ℕ) :
    (s.reserveStaged limits jobId upload path size fault now).Sound limits strict := by
  obtain ⟨job, hjob, hbatch, hearly, hphaseOk⟩ := h.uploads jobId upload hupload
  rw [hphase] at hearly hphaseOk
  have hstatus := hearly rfl
  obtain ⟨howner, -, hcovers⟩ := hphaseOk
  rw [Uploading.reserveStaged]
  split_ifs with hnone
  · refine (h.but jobId).goOn hjob hbatch (fun _ => hstatus) ⟨howner, size, hsize, fun hsome => ?_⟩
    have hsome : upload.batchId.isSome = true := hsome
    rw [Option.isNone_iff_eq_none.mp hnone] at hsome
    simp at hsome
  · simp only [afterStatement]
    cases hreserve : attempt fault (reserveBatchUpload jobId size limits.batch now) s.db with
    | error error => exact (h.but jobId).failsWith hjob hbatch howner hcovers false error
    | ok db =>
      obtain ⟨-, hreserve⟩ := attempt_ok hreserve
      obtain ⟨job', hjob', hbatch', hstatus', hsize', hsound⟩ :=
        (h.but jobId).reserved hreserve hjob
      exact hsound.goOn hjob' (hbatch'.trans hbatch) (fun _ => hstatus')
        ⟨howner, size, hsize, fun _ => hsize'⟩

omit h hupload in
/-- The reservation of a validated upload is the size of its file. -/
theorem Covers.ofValidating (hsize : s.files.lookup path = some size)
    (hbatch : job.batchId = upload.batchId)
    (hreserved : upload.batchId.isSome → job.uploadSizeBytes = size) : s.Covers job path := by
  intro hsome written hwritten
  cases hsize.symm.trans hwritten
  exact Int.le_of_eq (hreserved (hbatch ▸ hsome)).symm

theorem Sound.reject (hphase : upload.phase = .validating path) (error : Error) :
    (s.goOn jobId upload (.failing (some path) false error)).Sound limits strict := by
  obtain ⟨job, hjob, hbatch, -, hphaseOk⟩ := h.uploads jobId upload hupload
  rw [hphase] at hphaseOk
  obtain ⟨howner, size, hsize, hreserved⟩ := hphaseOk
  exact (h.but jobId).failsWith hjob hbatch howner (.ofValidating hsize hbatch hreserved) false
    error

omit h hupload in
/-- When the stored Preview cannot be told, the upload ends only if it is stored. -/
theorem SoundBut.recoverPreviewFailure (h : s.SoundBut limits strict jobId)
    (hjob : s.db.jobs.lookup jobId = some job) (hbatch : job.batchId = upload.batchId)
    (howner : s.owners.lookup path = some jobId) (hcovers : s.Covers job path)
    (hstored : job.status = .awaitingConfirmation → s.RowReleased job) (error : Error)
    (reread : Option Error) (isCancelled : Bool) :
    (s.recoverPreviewFailure jobId upload path error reread isCancelled).Sound limits strict := by
  simp only [Uploading.recoverPreviewFailure]
  by_cases hlarge : error.is .batchTooLarge = true
  · rw [if_pos hlarge]
    exact h.failsWith hjob hbatch howner hcovers true error
  rw [if_neg hlarge]
  by_cases hawaiting : (reread.isNone &&
      (s.db.jobs.lookup jobId).any (·.status = .awaitingConfirmation)) = true
  · rw [if_pos hawaiting]
    refine h.endUpload fun _ row hrow => ?_
    cases hjob.symm.trans hrow
    simp only [hjob, Option.any_some, Bool.and_eq_true, decide_eq_true_eq] at hawaiting
    exact hstored hawaiting.2
  · rw [if_neg hawaiting]
    exact h.failsWith hjob hbatch howner hcovers false _

theorem Sound.storePreview (hphase : upload.phase = .validating path)
    (hsize : s.files.lookup path = some size) (contentSha256 : String)
    (fault lost reread : Option Error) (isCancelled : Bool) (now : ℕ) :
    (s.storePreview limits jobId upload path size contentSha256 fault lost reread isCancelled
      now).Sound limits strict := by
  obtain ⟨job, hjob, hbatch, hearly, hphaseOk⟩ := h.uploads jobId upload hupload
  rw [hphase] at hearly hphaseOk
  have hstatus := hearly rfl
  obtain ⟨howner, other, hother, hreserved⟩ := hphaseOk
  cases hsize.symm.trans hother
  have hcovers : s.Covers job path := .ofValidating hsize hbatch hreserved
  simp only [Uploading.storePreview]
  cases hmark : attempt fault
      (Harmony.ManagedImport.markPreview jobId path contentSha256 size limits.batch now) s.db with
  | error error =>
    refine (h.but jobId).recoverPreviewFailure hjob hbatch howner hcovers
      (fun hawaiting => ?_) error
      reread isCancelled
    simp [hstatus] at hawaiting
  | ok db =>
    obtain ⟨-, hmark⟩ := attempt_ok hmark
    obtain ⟨row, job', hchanges, hfits, hsize', hstatus', hstaged⟩ := markPreview_ok hmark
    cases hjob.symm.trans hchanges.before
    have hjob' : db.jobs.lookup jobId = some job' := by rw [hchanges.lookup, if_pos rfl]
    have hcovers' : Covers { s with db } job' path := by
      intro _ written hwritten
      cases hsize.symm.trans hwritten
      exact Int.le_of_eq hsize'.symm
    have hsound : SoundBut limits strict jobId { s with db } := by
      refine (h.but jobId).statement hchanges ?_ (fun huploading => ?_) fun staged hpath => ?_
      · exact hchanges.limit_of_fits (by rw [hsize']; exact hfits) h.limit
      · simp [hstatus'] at huploading
      · cases hstaged.symm.trans hpath
        exact ⟨howner, hcovers'⟩
    -- The file is there, so nothing has to be given back.
    have hreleased : RowReleased { s with db } job' := by
      intro _ _ _ hgone
      exact absurd (AList.lookup_isSome.mp (by rw [hsize]; rfl)) (hgone path hstaged)
    cases lost with
    | none =>
      refine hsound.endUpload fun _ row hrow => ?_
      cases hjob'.symm.trans hrow
      exact hreleased
    | some error =>
      exact hsound.recoverPreviewFailure hjob' (hchanges.batchId.trans hbatch) howner hcovers'
        (fun _ => hreleased) error reread isCancelled

theorem Sound.storeDuplicate (hphase : upload.phase = .validating path)
    (hsize : s.files.lookup path = some size) (contentSha256 trackId : String)
    (fault : Option Error) (now : ℕ) :
    (s.afterStatement jobId upload
      (attempt fault (markExactDuplicate jobId path contentSha256 trackId size now) s.db)
      (.removing path) (some path)).Sound limits strict := by
  obtain ⟨job, hjob, hbatch, -, hphaseOk⟩ := h.uploads jobId upload hupload
  rw [hphase] at hphaseOk
  obtain ⟨howner, other, hother, hreserved⟩ := hphaseOk
  cases hsize.symm.trans hother
  simp only [afterStatement]
  cases hmark : attempt fault
      (markExactDuplicate jobId path contentSha256 trackId size now) s.db with
  | error error =>
    exact (h.but jobId).failsWith hjob hbatch howner (.ofValidating hsize hbatch hreserved) false
      error
  | ok db =>
    obtain ⟨-, hmark⟩ := attempt_ok hmark
    obtain ⟨row, job', hchanges, hsize', hstatus', hstaged⟩ := markExactDuplicate_ok hmark
    cases hjob.symm.trans hchanges.before
    have hsound : SoundBut limits strict jobId { s with db } := by
      refine (h.but jobId).statement hchanges ?_ (fun huploading => ?_) fun staged hpath => ?_
      · cases hrow : job.batchId with
        | none => exact hchanges.limit_of_fits (.inl hrow) h.limit
        | some batchId =>
          refine hchanges.limit_of_le ?_ h.limit
          have hkept := hreserved (by rw [← hbatch, hrow]; rfl)
          omega
      · simp [hstatus'] at huploading
      · cases hstaged.symm.trans hpath
        refine ⟨howner, fun _ written hwritten => ?_⟩
        cases hsize.symm.trans hwritten
        exact Int.le_of_eq hsize'.symm
    refine hsound.goOn (by rw [hchanges.lookup, if_pos rfl]) (hchanges.batchId.trans hbatch)
      (fun hearly => by simp [UploadPhase.isEarly] at hearly) ⟨howner, ?_, hstaged, hstatus'⟩
    exact AList.lookup_isSome.mp (by rw [hsize]; rfl)

theorem Sound.remove (hphase : upload.phase = .removing path) (removal : Option Error) :
    (if removal.isSome then s.endUpload jobId
      else (s.removeFile path none).goOn jobId upload .clearing).Sound limits strict := by
  obtain ⟨job, hjob, hbatch, -, hphaseOk⟩ := h.uploads jobId upload hupload
  rw [hphase] at hphaseOk
  obtain ⟨howner, hfile, hstaged, hstatus⟩ := hphaseOk
  split_ifs
  · refine (h.but jobId).endUpload fun _ row hrow _ _ _ hgone => ?_
    cases hjob.symm.trans hrow
    exact absurd hfile (hgone path hstaged)
  · exact ((h.but jobId).removeFile howner none).goOn hjob hbatch
      (fun hearly => by simp [UploadPhase.isEarly] at hearly) ⟨by rw [hstaged]; rfl, hstatus⟩

/-- The reservation of an Exact Duplicate is given back, unless the statement fails. -/
theorem Sound.clear (hphase : upload.phase = .clearing) (fault : Option Error) (now : ℕ)
    (hfault : strict → fault = none) :
    (match attempt fault (clearStagedFile jobId now) s.db with
      | .ok db => { s with db }.endUpload jobId
      | .error _ => s.endUpload jobId).Sound limits strict := by
  obtain ⟨job, hjob, hbatch, -, hphaseOk⟩ := h.uploads jobId upload hupload
  rw [hphase] at hphaseOk
  obtain ⟨hstaged, hstatus⟩ := hphaseOk
  cases hclear : attempt fault (clearStagedFile jobId now) s.db with
  | ok db =>
    obtain ⟨-, hclear⟩ := attempt_ok hclear
    obtain ⟨row, job', hchanges, hsize', hstaged'⟩ := clearStagedFile_ok hclear
    have hnonneg := (h.rows jobId row hchanges.before).nonneg
    have hsound : SoundBut limits strict jobId { s with db } :=
      (h.but jobId).statement hchanges (hchanges.limit_of_le (by omega) h.limit)
        (fun _ => hstaged') fun staged hpath => by simp [hstaged'] at hpath
    refine hsound.endUpload fun _ row hrow _ _ _ _ => ?_
    have hjob' : db.jobs.lookup jobId = some row := hrow
    rw [hchanges.lookup, if_pos rfl] at hjob'
    cases hjob'
    exact hsize'
  | error error =>
    refine (h.but jobId).endUpload fun hstrict => ?_
    obtain rfl := hfault hstrict
    have hmatches : ∃ db', Transaction.outcome (clearStagedFile jobId now) s.db = .ok db' :=
      JobUpdate.run_of_guard hjob hstaged (by simp [JobRow.isValid, hstatus])
    obtain ⟨db', hok⟩ := hmatches
    simp [attempt, hok] at hclear

theorem Sound.discard {path : Option RelativePath} {isFinal : Bool} {error : Error}
    (hphase : upload.phase = .failing path isFinal error) (isCancelled : Bool)
    (removal : Option Error) :
    (s.discard jobId upload path isFinal error isCancelled removal).Sound limits strict := by
  obtain ⟨job, hjob, hbatch, -, hphaseOk⟩ := h.uploads jobId upload hupload
  rw [hphase] at hphaseOk
  cases path with
  | none =>
    simp only [Uploading.discard]
    split_ifs with hsome
    · exact (h.but jobId).goOn hjob hbatch
        (fun hearly => by simp [UploadPhase.isEarly] at hearly) trivial
    · refine (h.but jobId).endUpload fun _ row hrow batchId hrowBatch => ?_
      cases hjob.symm.trans hrow
      simp [← hbatch, hrowBatch] at hsome
  | some path =>
    have hkept : (s.removeFile path removal).db.jobs.lookup jobId = some job := by
      rw [Uploading.removeFile]
      split_ifs <;> exact hjob
    exact ((h.but jobId).removeFile hphaseOk.1 removal).goOn hkept hbatch
      (fun hearly => by simp [UploadPhase.isEarly] at hearly) trivial

end Steps

/-- The step gives back what a failed upload has reserved: it marks an upload as
interrupted, or there is nothing to give back; and the statement does not fail. -/
def Releases (s : Uploading) : UploadEvent → Prop
  | .mark jobId fault _ => ∀ job ∈ s.db.jobs.lookup jobId, ∀ upload ∈ s.uploads.lookup jobId,
    job.uploadSizeBytes = 0 ∨
      fault = none ∧ job.status = .uploading ∧ upload.phase.isInterrupted = true
  | .clear _ fault _ => fault = none
  | _ => True

instance (s : Uploading) (event : UploadEvent) : Decidable (s.Releases event) := by
  cases event <;> unfold Releases <;> infer_instance

theorem Sound.mark {isRetryable : Bool} {field : String} {error : Error} (h : s.Sound limits strict)
    (hupload : s.uploads.lookup jobId = some upload)
    (hphase : upload.phase = .marking isRetryable field error) (fault : Option Error) (now : ℕ)
    (hreleases : strict → s.Releases (.mark jobId fault now)) :
    (s.mark jobId isRetryable field error fault now).Sound limits strict := by
  obtain ⟨job, hjob, hbatch, -, -⟩ := h.uploads jobId upload hupload
  have hnonneg := (h.rows jobId job hjob).nonneg
  let statement := if isRetryable then markUploadInterrupted jobId now
    else markFailed jobId (failureDetails error).1 field (failureDetails error).2 now
  have hspec : ∀ db, Transaction.outcome statement s.db = .ok db →
      ∃ row job', Changes s.db db jobId row job' ∧ job'.stagedFilePath = none ∧
        (job'.uploadSizeBytes = 0 ∨ isRetryable = false ∧
          job'.uploadSizeBytes = row.uploadSizeBytes) := by
    intro db hok
    cases isRetryable with
    | true =>
      obtain ⟨row, job', hchanges, hsize, hstaged⟩ := markUploadInterrupted_ok hok
      exact ⟨row, job', hchanges, hstaged, .inl hsize⟩
    | false =>
      obtain ⟨row, job', hchanges, hsize, hstaged⟩ := markFailed_ok hok
      exact ⟨row, job', hchanges, hstaged, .inr ⟨rfl, hsize⟩⟩
  show (match attempt fault statement s.db with
    | .ok db => endUpload { s with db } jobId
    | .error _ => s.endUpload jobId).Sound limits strict
  cases hmark : attempt fault statement s.db with
  | ok db =>
    obtain ⟨-, hok⟩ := attempt_ok hmark
    obtain ⟨row, job', hchanges, hstaged, hsize⟩ := hspec db hok
    cases hjob.symm.trans hchanges.before
    have hsound : SoundBut limits strict jobId { s with db } := by
      refine (h.but jobId).statement hchanges (hchanges.limit_of_le ?_ h.limit)
        (fun _ => hstaged) fun staged hpath => by simp [hstaged] at hpath
      omega
    refine hsound.endUpload fun hstrict other hother _ _ _ _ => ?_
    have hjob' : db.jobs.lookup jobId = some other := hother
    rw [hchanges.lookup, if_pos rfl] at hjob'
    cases hjob'
    rcases hsize with hzero | ⟨hfinal, hsame⟩
    · exact hzero
    · rcases hreleases hstrict job hjob upload hupload with hzero | ⟨-, -, hinterrupted⟩
      · exact hsame.trans hzero
      · rw [hphase, UploadPhase.isInterrupted, hfinal] at hinterrupted
        simp at hinterrupted
  | error _ =>
    refine (h.but jobId).endUpload fun hstrict row hrow batchId hrowBatch _ _ => ?_
    cases hjob.symm.trans hrow
    rcases hreleases hstrict job hjob upload hupload with hzero | ⟨rfl, hstatus, hinterrupted⟩
    · exact hzero
    · rw [hphase, UploadPhase.isInterrupted] at hinterrupted
      obtain rfl := hinterrupted
      have hmatches : ∃ db', Transaction.outcome (markUploadInterrupted jobId now) s.db = .ok db' :=
        JobUpdate.run_of_guard hjob (by simp [hstatus, hrowBatch])
          (by simp [JobRow.isValid, hstatus])
      obtain ⟨db', hok⟩ := hmatches
      simp [attempt, statement, hok] at hmark

end Uploading

end Harmony.ManagedImport
