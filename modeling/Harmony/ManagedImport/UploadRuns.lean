/-
# Runs of uploads

Any interleaving of uploads keeps the reservations of a Batch within its limit and
the staged bytes within the reservations. What failed uploads had reserved is given
back in the runs in which each of them is marked as interrupted, or had reserved
nothing. Only then is an upload that fits beside the others always taken.
-/

import Harmony.ManagedImport.Reservations

namespace Harmony.ManagedImport

/-! ### New Batches and Jobs -/

section Statements

variable {db db' : Database} {jobId batchId : String} {now : ℕ}

theorem createBatch_ok (h : Transaction.outcome (createBatch batchId now) db = .ok db') :
    batchId ∉ db.batches ∧
      db' = { db with batches := db.batches.insert batchId ⟨.uploading, 1, now⟩ } := by
  obtain ⟨_, hrun⟩ := Transaction.outcome_eq_ok.mp h
  simp only [createBatch, Transaction.run_bind_ok, Transaction.run_get_ok, Tx.run_constraint_ok,
    Transaction.run_modify_ok, decide_eq_true_eq] at hrun
  obtain ⟨_, _, ⟨rfl, rfl⟩, _, _, ⟨hnew, rfl⟩, rfl⟩ := hrun
  exact ⟨hnew, rfl⟩

/-- A new Job has nothing staged and nothing reserved. -/
theorem createJob_ok (h : Transaction.outcome (createJob jobId batchId now) db = .ok db') :
    jobId ∉ db.jobs ∧ batchId ∈ db.batches ∧ ∃ job : JobRow, job.batchId = some batchId ∧
      job.stagedFilePath = none ∧ job.uploadSizeBytes = 0 ∧
      db' = { db with
        jobs := db.jobs.insert jobId job
        batches := db.batches.modify batchId BatchRow.revise } := by
  obtain ⟨_, hrun⟩ := Transaction.outcome_eq_ok.mp h
  simp only [createJob, Transaction.run_bind_ok, Transaction.run_get_ok,
    Transaction.run_fromOption_ok, Tx.run_requireOne_ok, Tx.run_constraint_ok,
    Transaction.run_modify_ok, decide_eq_true_eq] at hrun
  obtain ⟨_, _, ⟨rfl, rfl⟩, batch, _, ⟨hbatch, rfl⟩, _, _, ⟨-, rfl⟩, _, _, ⟨hnew, rfl⟩, rfl⟩ := hrun
  exact ⟨hnew, AList.lookup_isSome.mp (by rw [hbatch]; rfl), _, rfl, rfl, rfl, rfl⟩

end Statements

theorem getUploadingJob_ok {db : Database} {jobId : String} {job : JobRow}
    (h : getUploadingJob db jobId = .ok job) :
    db.jobs.lookup jobId = some job ∧ job.status = .uploading := by
  unfold getUploadingJob at h
  cases hjob : db.jobs.lookup jobId with
  | none => simp [hjob] at h
  | some row =>
    simp only [hjob] at h
    split_ifs at h with hstatus
    have hstatus : row.status = .uploading := by simpa using hstatus
    cases hbatch : row.batchId with
    | none =>
      simp only [hbatch, Except.ok.injEq] at h
      exact ⟨by rw [h], h ▸ hstatus⟩
    | some batchId =>
      simp only [hbatch] at h
      cases hlookup : db.batches.lookup batchId with
      | none => simp [hlookup] at h
      | some batch =>
        simp only [hlookup] at h
        split_ifs at h
        cases h
        exact ⟨rfl, hstatus⟩

namespace Uploading

variable {limits : UploadLimits} {strict : Prop} {s t : Uploading} {jobId batchId : String}

theorem Sound.createBatch (h : s.Sound limits strict) {db : Database} {now : ℕ}
    (hcreate : Transaction.outcome (createBatch batchId now) s.db = .ok db) :
    Sound limits strict { s with db } := by
  obtain ⟨hnew, rfl⟩ := createBatch_ok hcreate
  refine ⟨h.limit, fun id job hjob => ?_, fun id upload hupload => ?_,
    fun hstrict id job hupload hjob other hother htakes hgone => ?_⟩
  · have hrow := h.rows id job hjob
    exact ⟨hrow.nonneg, fun other hother => (AList.mem_insert _).mpr
      (.inr (hrow.batch other hother)),
      hrow.uploading, hrow.staged⟩
  · obtain ⟨job, hjob, hbatch, hearly, hphase⟩ := h.uploads id upload hupload
    exact ⟨job, hjob, hbatch, hearly, hphase⟩
  · -- No Job is in the new Batch yet.
    have hne : other ≠ batchId := by
      rintro rfl
      exact hnew ((h.rows id job hjob).batch _ hother)
    refine h.released hstrict id job hupload hjob other hother ?_ hgone
    obtain ⟨batch, hbatch, hstatus⟩ := htakes
    have hbatch : AList.lookup other (s.db.batches.insert batchId ⟨.uploading, 1, now⟩) =
      some batch := hbatch
    rw [AList.lookup_insert_ne hne] at hbatch
    exact ⟨batch, hbatch, hstatus⟩

theorem Sound.createJob (h : s.Sound limits strict) {db : Database} {now : ℕ}
    (hcreate : Transaction.outcome (createJob jobId batchId now) s.db = .ok db) :
    Sound limits strict { s with db } := by
  obtain ⟨hnew, hmem, job, hbatch, hstaged, hsize, rfl⟩ := createJob_ok hcreate
  let after : Database := { s.db with
    jobs := s.db.jobs.insert jobId job, batches := s.db.batches.modify batchId BatchRow.revise }
  have hbatches : ∀ id, (id ∈ after.batches ↔ id ∈ s.db.batches) ∧
      (after.TakesUploads id ↔ s.db.TakesUploads id) := takesUploads_revise rfl
  have hlookup : ∀ id row, AList.lookup id (s.db.jobs.insert jobId job) = some row →
      id = jobId ∧ row = job ∨ id ≠ jobId ∧ s.db.jobs.lookup id = some row := by
    intro id row hrow
    rw [Table.lookup_insert_eq] at hrow
    split_ifs at hrow with hid
    · exact .inl ⟨hid, (Option.some.inj hrow).symm⟩
    · exact .inr ⟨hid, hrow⟩
  constructor
  case limit =>
    intro other
    have hsum := Table.sum_insert (fun (_ : String) (job : JobRow) =>
      if job.batchId = some other then job.uploadSizeBytes else 0) (r := job) hnew
    have hbefore := h.limit other
    simp only [hsize, ite_self] at hsum
    simp only [Database.reserved] at hbefore ⊢
    omega
  case rows =>
    intro id row hrow
    rcases hlookup id row hrow with ⟨rfl, rfl⟩ | ⟨-, hrow⟩
    · refine ⟨by omega, fun other hother => (hbatches other).1.mpr ?_, fun _ => hstaged,
        fun path hpath => by simp [hstaged] at hpath⟩
      cases hbatch.symm.trans hother
      exact hmem
    · have hrowOk := h.rows id row hrow
      exact ⟨hrowOk.nonneg, fun other hother => (hbatches other).1.mpr (hrowOk.batch other hother),
        hrowOk.uploading, hrowOk.staged⟩
  case uploads =>
    intro id upload hupload
    obtain ⟨row, hrow, hrowBatch, hearly, hphase⟩ := h.uploads id upload hupload
    have hid : id ≠ jobId := by
      rintro rfl
      exact hnew (AList.lookup_isSome.mp (by rw [hrow]; rfl))
    exact ⟨row, (AList.lookup_insert_ne hid).trans hrow, hrowBatch, hearly,
      hphase.spares (.same rfl rfl) hid⟩
  case released =>
    intro hstrict id row hupload hrow other hother htakes hgone
    rcases hlookup id row hrow with ⟨rfl, rfl⟩ | ⟨-, hrow⟩
    · exact hsize
    · exact h.released hstrict id row hupload hrow other hother ((hbatches other).2.mp htakes) hgone

theorem Sound.start (h : s.Sound limits strict) {contentLength : ℤ} {badFilename : Option Error}
    (hstep : s.start jobId contentLength badFilename = some t) : t.Sound limits strict := by
  unfold Uploading.start at hstep
  cases hidle : s.uploads.lookup jobId with
  | some upload => simp [hidle] at hstep
  | none =>
  cases hjob : getUploadingJob s.db jobId with
  | error error =>
    simp only [hidle, hjob, Option.some.injEq] at hstep
    exact hstep ▸ h
  | ok job =>
  obtain ⟨hlookup, hstatus⟩ := getUploadingJob_ok hjob
  cases badFilename with
  | none =>
    simp only [hidle, hjob, Option.some.injEq] at hstep
    rw [← hstep]
    exact (h.but jobId).goOn hlookup rfl (fun _ => hstatus) trivial
  | some error =>
    simp only [hidle, hjob] at hstep
    split_ifs at hstep
    · cases hstep
      exact (h.but jobId).goOn hlookup rfl (fun _ => hstatus) trivial
    · exact Option.some.inj hstep ▸ h

/-! ### A whole run -/

theorem Init.sound (h : Init limits s) : s.Sound limits strict := by
  refine ⟨h.limit.2, fun id job hjob => ?_, fun id upload hupload => ?_,
    fun _ id job _ hjob batchId hbatch htakes => ?_⟩
  · obtain ⟨hstaged, hnonneg⟩ := h.rows id job hjob
    refine ⟨hnonneg, fun batchId hbatch => ?_, fun _ => hstaged, fun path hpath => ?_⟩
    · obtain ⟨batch, hlookup, -⟩ := h.batches id job batchId hjob hbatch
      exact AList.lookup_isSome.mp (by rw [hlookup]; rfl)
    · simp [hstaged] at hpath
  · rw [h.uploads] at hupload
    simp at hupload
  · -- A restart leaves completed Batches only.
    obtain ⟨batch, hlookup, hcompleted⟩ := h.batches id job batchId hjob hbatch
    obtain ⟨other, hother, huploading⟩ := htakes
    cases hlookup.symm.trans hother
    simp [hcompleted] at huploading

theorem Sound.step (h : s.Sound limits strict) {event : UploadEvent}
    (hreleases : strict → s.Releases event) (hstep : Step limits s event t) :
    t.Sound limits strict := by
  unfold Step perform at hstep
  cases event with
  | createBatch batchId now =>
    simp only at hstep
    cases hcreate : Transaction.outcome (ManagedImport.createBatch batchId now) s.db with
    | error error => simp only [hcreate, Option.some.injEq] at hstep; exact hstep ▸ h
    | ok db =>
      simp only [hcreate, Option.some.injEq] at hstep
      exact hstep ▸ h.createBatch hcreate
  | createJob jobId batchId now =>
    simp only at hstep
    cases hcreate : Transaction.outcome (ManagedImport.createJob jobId batchId now) s.db with
    | error error => simp only [hcreate, Option.some.injEq] at hstep; exact hstep ▸ h
    | ok db =>
      simp only [hcreate, Option.some.injEq] at hstep
      exact hstep ▸ h.createJob hcreate
  | start jobId contentLength badFilename => exact h.start hstep
  | reserve jobId fault now =>
    obtain ⟨upload, hupload, hstep⟩ := Option.bind_eq_some_iff.mp hstep
    cases hphase : upload.phase <;> simp only [hphase, reduceCtorEq, Option.some.injEq] at hstep
    rw [← hstep]
    exact h.reserve hupload hphase fault now
  | create jobId path fault =>
    obtain ⟨upload, hupload, hstep⟩ := Option.bind_eq_some_iff.mp hstep
    cases hphase : upload.phase <;> simp only [hphase, reduceCtorEq] at hstep
    exact h.create hupload hphase hstep
  | chunk jobId length fault removal now =>
    obtain ⟨upload, hupload, hstep⟩ := Option.bind_eq_some_iff.mp hstep
    cases hphase : upload.phase <;> simp only [hphase, reduceCtorEq] at hstep
    obtain ⟨size, hsize, hstep⟩ := Option.bind_eq_some_iff.mp hstep
    split_ifs at hstep with hbound
    cases hstep
    exact h.chunk hupload hphase hsize hbound fault removal now
  | write jobId fault removal =>
    obtain ⟨upload, hupload, hstep⟩ := Option.bind_eq_some_iff.mp hstep
    cases hphase : upload.phase <;> simp only [hphase, reduceCtorEq] at hstep
    obtain ⟨size, hsize, hstep⟩ := Option.bind_eq_some_iff.mp hstep
    cases hstep
    exact h.write hupload hphase hsize fault removal
  | breakOff jobId error removal =>
    obtain ⟨upload, hupload, hstep⟩ := Option.bind_eq_some_iff.mp hstep
    cases hphase : upload.phase <;> simp only [hphase, reduceCtorEq] at hstep
    obtain ⟨size, hsize, hstep⟩ := Option.bind_eq_some_iff.mp hstep
    cases hstep
    exact h.breakOff hupload hphase removal _
  | finish jobId fault removal =>
    obtain ⟨upload, hupload, hstep⟩ := Option.bind_eq_some_iff.mp hstep
    cases hphase : upload.phase <;> simp only [hphase, reduceCtorEq] at hstep
    obtain ⟨size, hsize, hstep⟩ := Option.bind_eq_some_iff.mp hstep
    cases hstep
    exact h.finish hupload hphase hsize fault removal
  | reserveStaged jobId fault now =>
    obtain ⟨upload, hupload, hstep⟩ := Option.bind_eq_some_iff.mp hstep
    cases hphase : upload.phase <;> simp only [hphase, reduceCtorEq] at hstep
    obtain ⟨size, hsize, hstep⟩ := Option.bind_eq_some_iff.mp hstep
    cases hstep
    exact h.reserveStaged hupload hphase hsize fault now
  | reject jobId error =>
    obtain ⟨upload, hupload, hstep⟩ := Option.bind_eq_some_iff.mp hstep
    cases hphase : upload.phase <;> simp only [hphase, reduceCtorEq, Option.some.injEq] at hstep
    rw [← hstep]
    exact h.reject hupload hphase error
  | markPreview jobId contentSha256 fault lost reread isCancelled now =>
    obtain ⟨upload, hupload, hstep⟩ := Option.bind_eq_some_iff.mp hstep
    cases hphase : upload.phase <;> simp only [hphase, reduceCtorEq] at hstep
    obtain ⟨size, hsize, hstep⟩ := Option.bind_eq_some_iff.mp hstep
    cases hstep
    exact h.storePreview hupload hphase hsize contentSha256 fault lost reread isCancelled now
  | markExactDuplicate jobId contentSha256 trackId fault now =>
    obtain ⟨upload, hupload, hstep⟩ := Option.bind_eq_some_iff.mp hstep
    cases hphase : upload.phase <;> simp only [hphase, reduceCtorEq] at hstep
    obtain ⟨size, hsize, hstep⟩ := Option.bind_eq_some_iff.mp hstep
    cases hstep
    exact h.storeDuplicate hupload hphase hsize contentSha256 trackId fault now
  | remove jobId removal =>
    obtain ⟨upload, hupload, hstep⟩ := Option.bind_eq_some_iff.mp hstep
    cases hphase : upload.phase <;> simp only [hphase, reduceCtorEq] at hstep
    have hremove := h.remove hupload hphase removal
    split_ifs at hstep hremove <;> exact Option.some.inj hstep ▸ hremove
  | clear jobId fault now =>
    obtain ⟨upload, hupload, hstep⟩ := Option.bind_eq_some_iff.mp hstep
    cases hphase : upload.phase <;> simp only [hphase, reduceCtorEq] at hstep
    have hclear := h.clear hupload hphase fault now fun hstrict => hreleases hstrict
    cases hcleared : attempt fault (clearStagedFile jobId now) s.db <;>
      simp only [hcleared, Option.some.injEq] at hstep hclear <;> exact hstep ▸ hclear
  | discard jobId isCancelled removal =>
    obtain ⟨upload, hupload, hstep⟩ := Option.bind_eq_some_iff.mp hstep
    cases hphase : upload.phase <;> simp only [hphase, reduceCtorEq, Option.some.injEq] at hstep
    rw [← hstep]
    exact h.discard hupload hphase isCancelled removal
  | mark jobId fault now =>
    obtain ⟨upload, hupload, hstep⟩ := Option.bind_eq_some_iff.mp hstep
    cases hphase : upload.phase <;> simp only [hphase, reduceCtorEq, Option.some.injEq] at hstep
    rw [← hstep]
    exact h.mark hupload hphase fault now hreleases

/-! ### What the reservations promise -/

def KeepsLimit (limits : UploadLimits) (s : Uploading) : Prop :=
  ∀ batchId, s.db.reserved batchId ≤ limits.batch

/-- The file holds the bytes staged for a Job: the Job names it or its upload fills it. -/
def StagedFor (s : Uploading) (jobId : String) (job : JobRow) (path : RelativePath) : Prop :=
  job.stagedFilePath = some path ∨
    ∃ upload, s.uploads.lookup jobId = some upload ∧ upload.phase.stagingFile = some path

/-- Every byte staged for a Job of a Batch lies inside what that Job has reserved. -/
def StagesReserved (s : Uploading) : Prop :=
  ∀ jobId job path size, s.db.jobs.lookup jobId = some job → job.batchId.isSome →
    s.StagedFor jobId job path → s.files.lookup path = some size → size ≤ job.uploadSizeBytes

/-- No upload of the Job is under way and no file is staged for it. -/
def HoldsNothing (s : Uploading) (jobId : String) (job : JobRow) : Prop :=
  jobId ∉ s.uploads ∧ ∀ path, job.stagedFilePath = some path → path ∉ s.files

instance (s : Uploading) (jobId : String) (job : JobRow) : Decidable (s.HoldsNothing jobId job) :=
  decidable_of_iff (jobId ∉ s.uploads ∧ ∀ path ∈ job.stagedFilePath, path ∉ s.files) Iff.rfl

/-- A Job of a Batch taking uploads reserves nothing once its staged file is gone. -/
def FailedReserveNothing (s : Uploading) : Prop :=
  ∀ jobId job batchId, s.db.jobs.lookup jobId = some job → job.batchId = some batchId →
    s.db.TakesUploads batchId → s.HoldsNothing jobId job → job.uploadSizeBytes = 0

/-- What the other Jobs of a Batch have reserved for uploads under way and staged files. -/
def heldBySiblings (s : Uploading) (jobId batchId : String) : ℤ :=
  s.db.jobs.sumExcept jobId fun id job =>
    if job.batchId = some batchId ∧ ¬ s.HoldsNothing id job then job.uploadSizeBytes else 0

/-- An upload that fits beside the others is taken. -/
def AdmitsWhatFits (limits : UploadLimits) (s : Uploading) : Prop :=
  ∀ jobId job batchId size now, s.db.jobs.lookup jobId = some job → job.status = .uploading →
    job.batchId = some batchId → s.db.TakesUploads batchId → 0 ≤ size →
    size + s.heldBySiblings jobId batchId ≤ limits.batch →
    ∃ db, Transaction.outcome (reserveBatchUpload jobId size limits.batch now) s.db = .ok db

/-- In every phase the bytes staged so far are reserved. -/
theorem PhaseOk.covers {upload : Upload} {job : JobRow} {phase : UploadPhase} {path : RelativePath}
    (h : s.PhaseOk jobId upload job phase) (hrow : s.RowOk jobId job)
    (hbatch : job.batchId = upload.batchId) (hfile : phase.stagingFile = some path) :
    s.Covers job path := by
  intro hsome size hsize
  have hsome' : upload.batchId.isSome = true := hbatch ▸ hsome
  cases phase with
  | reserving | creating | clearing | marking => simp [UploadPhase.stagingFile] at hfile
  | reading staging reserved =>
    cases hfile
    obtain ⟨-, written, hwritten, hfits⟩ := h
    cases hsize.symm.trans hwritten
    exact hfits.le hsome'
  | writing staging reserved length =>
    -- The chunk is reserved before it is written.
    cases hfile
    obtain ⟨-, written, hwritten, hfits⟩ := h
    cases hsize.symm.trans hwritten
    have hle := hfits.le hsome'
    omega
  | staged staging =>
    cases hfile
    exact h.2.2 hsome size hsize
  | validating staging =>
    cases hfile
    obtain ⟨-, written, hwritten, hreserved⟩ := h
    cases hsize.symm.trans hwritten
    exact Int.le_of_eq (hreserved hsome').symm
  | removing staging =>
    obtain rfl := Option.some.inj hfile
    exact (hrow.staged staging h.2.2.1).2 hsome size hsize
  | failing staging isFinal error =>
    cases staging with
    | none => simp [UploadPhase.stagingFile] at hfile
    | some staging =>
      cases hfile
      exact h.2 hsome size hsize

theorem Sound.stagesReserved (h : s.Sound limits strict) : s.StagesReserved := by
  intro jobId job path size hjob hbatch hstaged hsize
  have hrow := h.rows jobId job hjob
  rcases hstaged with hstaged | ⟨upload, hupload, hfile⟩
  · exact (hrow.staged path hstaged).2 hbatch size hsize
  · obtain ⟨other, hother, hotherBatch, -, hphase⟩ := h.uploads jobId upload hupload
    cases hjob.symm.trans hother
    exact hphase.covers hrow hotherBatch hfile hbatch size hsize

theorem Sound.failedReserveNothing (h : s.Sound limits True) : s.FailedReserveNothing :=
  fun jobId job batchId hjob hbatch htakes ⟨hidle, hgone⟩ =>
    h.released trivial jobId job hidle hjob batchId hbatch htakes hgone

/-- Where failed uploads reserve nothing, what is held is all that is reserved. -/
theorem FailedReserveNothing.reservedBySiblings (h : s.FailedReserveNothing)
    (htakes : s.db.TakesUploads batchId) (jobId : String) :
    s.db.reservedBySiblings jobId (some batchId) = s.heldBySiblings jobId batchId := by
  rw [Database.reservedBySiblings, heldBySiblings, Table.sumExcept, Table.sumExcept]
  refine Table.sum_congr fun id job hjob => ?_
  by_cases hid : id = jobId
  · rw [if_pos hid, if_pos hid]
  rw [if_neg hid, if_neg hid]
  by_cases hbatch : job.batchId = some batchId
  · by_cases hnothing : s.HoldsNothing id job
    · rw [if_pos hbatch, if_neg fun hheld => hheld.2 hnothing]
      exact h id job batchId hjob hbatch htakes hnothing
    · rw [if_pos hbatch, if_pos ⟨hbatch, hnothing⟩]
  · rw [if_neg hbatch, if_neg fun hheld => hbatch hheld.1]

theorem FailedReserveNothing.admitsWhatFits (h : s.FailedReserveNothing) :
    s.AdmitsWhatFits limits := by
  intro jobId job batchId size now hjob hstatus hbatch htakes hsize hfits
  refine JobUpdate.run_of_guard hjob ?_ ?_
  · rw [← h.reservedBySiblings htakes] at hfits
    simp [hstatus, hbatch, fitsBatch, hfits]
  · simp [JobRow.isValid, hstatus, hsize]

/-- What uploads lead to when each step gives back what a failed upload has reserved. -/
def ReachableReleasing (limits : UploadLimits) : Uploading → Prop :=
  Transition.Reachable (Init limits) fun s event t => Step limits s event t ∧ s.Releases event

theorem batch_reservations (limits : UploadLimits) :
    (∀ s, Reachable limits s → s.KeepsLimit limits ∧ s.StagesReserved) ∧
    (∀ s, ReachableReleasing limits s → s.FailedReserveNothing ∧ s.AdmitsWhatFits limits) := by
  constructor
  · intro s hreachable
    have hsound : s.Sound limits False := hreachable.invariant (fun _ => Init.sound)
      fun _ _ _ hsound hstep => hsound.step False.elim hstep
    exact ⟨hsound.limit, hsound.stagesReserved⟩
  · intro s hreachable
    have hsound : s.Sound limits True := hreachable.invariant (fun _ => Init.sound)
      fun _ _ _ hsound hstep => hsound.step (fun _ => hstep.2) hstep.1
    exact ⟨hsound.failedReserveNothing, hsound.failedReserveNothing.admitsWhatFits⟩

/-! ### A rejected file -/

def tenBytes : UploadLimits := ⟨10, 10⟩

def restarted : Uploading := ⟨Database.empty, ∅, ∅, ∅⟩

theorem restarted_init : Init tenBytes restarted where
  files := rfl
  owners := rfl
  uploads := rfl
  rows jobId job hjob := by simp [restarted, Database.empty] at hjob
  batches jobId job batchId hjob := by simp [restarted, Database.empty] at hjob
  limit := ⟨by decide, fun batchId => by
    show (0 : ℤ) ≤ 10
    decide⟩

/-- Two Jobs of one Batch; eight bytes for the first are reserved and staged. -/
def stageEight : List UploadEvent :=
  [.createBatch "batch" 1, .createJob "first" "batch" 1, .createJob "second" "batch" 1,
    .start "first" 8 none, .reserve "first" none 2, .create "first" ["first.upload"] none,
    .chunk "first" 8 none none 2, .write "first" none none]

/-- Validation rejects them. -/
def rejectEight : List UploadEvent :=
  stageEight ++ [.finish "first" none none, .reserveStaged "first" none 2,
    .reject "first" (.new "not an audio file"), .discard "first" false none, .mark "first" none 3]

/-- The client goes away. -/
def interruptEight : List UploadEvent :=
  stageEight ++ [.breakOff "first" (.sentinel .uploadInterrupted) none,
    .discard "first" false none, .mark "first" none 3]

/-- A rejected file of eight bytes leaves no room for five others. -/
theorem rejected_upload_keeps_reservation : ∃ s : Uploading, s.Reachable tenBytes ∧
    ¬ s.FailedReserveNothing ∧ ¬ s.AdmitsWhatFits tenBytes := by
  have hchecked : (rejectEight.foldlM (perform tenBytes) restarted).any (fun s =>
      (s.db.jobs.lookup "second").any (fun job =>
        job.status = .uploading && job.batchId = some "batch") &&
      (s.db.batches.lookup "batch").any (fun batch => batch.status = .uploading) &&
      decide (s.heldBySiblings "second" "batch" = 0) &&
      !(Transaction.outcome (reserveBatchUpload "second" 5 10 4) s.db).isOk) = true := by
    decide +kernel
  cases hrun : rejectEight.foldlM (perform tenBytes) restarted with
  | none => simp [hrun] at hchecked
  | some s =>
  simp only [hrun, Option.any_some, Bool.and_eq_true, decide_eq_true_eq, Option.any_eq_true,
    Bool.not_eq_true'] at hchecked
  obtain ⟨⟨⟨⟨job, hjob, hstatus, hbatch⟩, htakes⟩, hheld⟩, hrefused⟩ := hchecked
  have hadmits : ¬ s.AdmitsWhatFits tenBytes := by
    intro hadmits
    obtain ⟨db, hdb⟩ := hadmits "second" job "batch" 5 4 hjob hstatus hbatch htakes (by decide)
      (by rw [hheld]; decide)
    have hdb : Transaction.outcome (reserveBatchUpload "second" 5 10 4) s.db = .ok db := hdb
    simp [hdb, Except.isOk, Except.toBool] at hrefused
  exact ⟨s, (Transition.Reachable.start restarted_init).run (.of_option hrun),
    fun hnothing => hadmits hnothing.admitsWhatFits, hadmits⟩

/-- One step, if it gives back what a failed upload has reserved. -/
def performReleasing (limits : UploadLimits) (s : Uploading) (event : UploadEvent) :
    Option Uploading :=
  if s.Releases event then s.perform limits event else none

/-- An interrupted file of eight bytes leaves room for ten others. -/
theorem interrupted_upload_admits : ∃ s : Uploading, s.ReachableReleasing tenBytes ∧
    s.FailedReserveNothing ∧
    ∃ db, Transaction.outcome (reserveBatchUpload "second" 10 10 4) s.db = .ok db := by
  have hchecked : (interruptEight.foldlM (performReleasing tenBytes) restarted).any (fun s =>
      (s.db.jobs.lookup "second").any (fun job =>
        job.status = .uploading && job.batchId = some "batch") &&
      (s.db.batches.lookup "batch").any (fun batch => batch.status = .uploading) &&
      decide (s.heldBySiblings "second" "batch" = 0)) = true := by
    decide +kernel
  cases hrun : interruptEight.foldlM (performReleasing tenBytes) restarted with
  | none => simp [hrun] at hchecked
  | some s =>
  simp only [hrun, Option.any_some, Bool.and_eq_true, decide_eq_true_eq, Option.any_eq_true]
    at hchecked
  obtain ⟨⟨⟨job, hjob, hstatus, hbatch⟩, htakes⟩, hheld⟩ := hchecked
  have hreachable : s.ReachableReleasing tenBytes := by
    exact (Transition.Reachable.start restarted_init).run
      ((Transition.Run.of_guarded hrun).mono fun _ _ _ => And.symm)
  obtain ⟨hnothing, hadmits⟩ := (batch_reservations tenBytes).2 s hreachable
  exact ⟨s, hreachable, hnothing, hadmits "second" job "batch" 10 4 hjob hstatus hbatch htakes
    (by decide) (by rw [hheld]; decide)⟩

end Uploading

end Harmony.ManagedImport
