/-
# A confirmed Batch has a consistent plan

What the checks of a Batch establish, said of the plans that are stored: a Batch whose
files are planned has one plan for each file that stays chosen, and any two of them agree.
A Track of an unfinished commit holds its position like any other Track that is not
missing, so a plan may name it although nobody sees it.
-/

import Harmony.ManagedImport.PlannedBatch

namespace Harmony.ManagedImport

/-- A file of the Batch with the plan that is stored for it. -/
structure HasPlan (preview : String → Option PreviewFile) (db : Database) (id : String)
    (file : PreviewFile) (plan : ImportPlan) : Prop where
  preview : preview id = some file
  stored : storedPlan db id = some plan

/-- What the plans of a Batch agree on, for the files that stay chosen. -/
structure Consistent (P : Platform) (preview : String → Option PreviewFile) (db : Database)
    (batchId : String) (jobs : List (String × JobRow)) (selected : List String)
    (confirmation : PlanDecisions) (remaining : List String) (after : Database) : Prop where
  among : ∀ id ∈ remaining, id ∈ selected ∧ id ∈ jobs.map Prod.fst
  bytes : ∀ entry ∈ jobs, ∀ other ∈ jobs, entry.1 ∈ remaining → other.1 ∈ remaining →
    entry.2.contentSha256 = other.2.contentSha256 → entry.1 = other.1
  planned : ∀ entry ∈ jobs, entry.1 ∈ remaining → entry.2.status = .awaitingConfirmation ∧
    ∃ file plan, HasPlan preview after entry.1 file plan ∧ plan.skipExact = false ∧
      IsChoice batchId (previewAlbumKey P file) (db.matchAlbums (previewAlbumKey P file))
        plan.albumKey ∧
      PlansTrack P db file
        (confirmation.duplicateDecisions.find? fun decision => decision.jobId = entry.1) plan
  positions : ∀ id ∈ remaining, ∀ other ∈ remaining, ∀ file plan file' plan',
    HasPlan preview after id file plan → HasPlan preview after other file' plan' →
    plan.albumKey = plan'.albumKey → file.discNo = file'.discNo → file.trackNo = file'.trackNo →
    id = other
  discs : ∀ id ∈ remaining, ∀ other ∈ remaining, ∀ file plan file' plan',
    HasPlan preview after id file plan → HasPlan preview after other file' plan' →
    plan'.albumKey = plan.albumKey → file.isMultiDisc = true → file'.hasDiscNumber = true
  dropped : ∀ id ∈ selected, id ∉ remaining → storedPlan after id = some .skipped ∧
    ∃ entry ∈ jobs, entry.1 = id ∧ ∃ other ∈ jobs, other.1 ∈ remaining ∧
      other.2.contentSha256 = entry.2.contentSha256
  others : ∀ id, id ∉ selected → storedPlan after id = storedPlan db id

section Consistency

variable {P : Platform} {preview : String → Option PreviewFile} {db after : Database}
  {batchId : String} {jobs : List (String × JobRow)} {selected : List String}
  {confirmation : PlanDecisions} {planning : Planning} {done : List PlannedFile}

/-- What the loop knows of the plans holds of the plans that are stored. -/
theorem LoopInv.consistent (hids : (jobs.map Prod.fst).Nodup)
    (hknown : ∀ id ∈ selected, id ∈ jobs.map Prod.fst)
    (h : LoopInv P db preview batchId selected confirmation.duplicateDecisions jobs planning done)
    (hvalid : validatePlannedDiscNumbers preview jobs planning.plans = .ok ())
    (hstored : ∀ id plan, (id, plan) ∈ planning.plans → storedPlan after id = some plan)
    (hothers : ∀ id, id ∉ planning.plans.map Prod.fst → storedPlan after id = storedPlan db id) :
    Consistent P preview db batchId jobs selected confirmation planning.selected after := by
  have hplans : (planning.plans.map Prod.fst).Nodup := h.ids.nodup hids
  -- each file that stays chosen is one that the loop has planned
  have hfind : ∀ id ∈ planning.selected, ∃ planned ∈ done, planned.id = id ∧
      ∀ file plan, HasPlan preview after id file plan →
        file = planned.file ∧ plan = planned.plan := by
    intro id hid
    obtain ⟨entry, hentry, rfl⟩ := List.mem_map.mp (hknown id (h.among id hid))
    obtain ⟨planned, hplanned, hplannedId, -⟩ := h.complete entry hentry hid
    obtain ⟨hsound, -, -, hplan⟩ := h.sound planned hplanned
    refine ⟨planned, hplanned, hplannedId, fun file plan hhas => ⟨?_, ?_⟩⟩
    · exact Option.some.inj ((hplannedId ▸ hhas.preview).symm.trans hsound.preview)
    · exact Option.some.inj ((hplannedId ▸ hhas.stored).symm.trans (hstored _ _ hplan))
  refine ⟨fun id hid => ⟨h.among id hid, hknown id (h.among id hid)⟩, ?_, ?_, ?_, ?_, ?_, ?_⟩
  · intro entry hentry other hother hkept hkept' hsame
    obtain ⟨planned, hplanned, hid, hjob⟩ := h.complete entry hentry hkept
    obtain ⟨planned', hplanned', hid', hjob'⟩ := h.complete other hother hkept'
    have hhashes : (done.map fun planned => planned.job.contentSha256).Nodup := by
      rw [← h.hashes_eq]
      exact h.hashes
    have heq : planned = planned' := List.inj_on_of_nodup_map hhashes hplanned hplanned'
      (by rw [hjob, hjob', hsame])
    rw [← hid, ← hid', heq]
  · intro entry hentry hkept
    obtain ⟨planned, hplanned, hid, hjob⟩ := h.complete entry hentry hkept
    obtain ⟨hsound, -, -, hplan⟩ := h.sound planned hplanned
    rw [← hid, ← hjob]
    exact ⟨hsound.awaiting, planned.file, planned.plan,
      ⟨hsound.preview, hstored _ _ hplan⟩, hsound.kept, hsound.choice, hsound.track⟩
  · intro id hid other hother file plan file' plan' hhas hhas' hkey hdisc htrack
    obtain ⟨planned, hplanned, hplannedId, hunique⟩ := hfind id hid
    obtain ⟨planned', hplanned', hplannedId', hunique'⟩ := hfind other hother
    obtain ⟨rfl, rfl⟩ := hunique file plan hhas
    obtain ⟨rfl, rfl⟩ := hunique' file' plan' hhas'
    have hpositions : (done.map fun planned => positionText planned.plan planned.file).Nodup := by
      rw [← h.positions_eq]
      exact h.positions
    have heq : planned = planned' := List.inj_on_of_nodup_map hpositions hplanned hplanned'
      (by rw [positionText, positionText, hkey, hdisc, htrack])
    rw [← hplannedId, ← hplannedId', heq]
  · intro id hid other hother file plan file' plan' hhas hhas' hkey hmulti
    obtain ⟨planned, hplanned, rfl, hunique⟩ := hfind id hid
    obtain ⟨planned', hplanned', rfl, hunique'⟩ := hfind other hother
    obtain ⟨rfl, rfl⟩ := hunique file plan hhas
    obtain ⟨rfl, rfl⟩ := hunique' file' plan' hhas'
    obtain ⟨hsound, hentry, -, hplan⟩ := h.sound planned hplanned
    obtain ⟨hsound', hentry', -, hplan'⟩ := h.sound planned' hplanned'
    exact validatePlannedDiscNumbers_eq_ok hvalid hentry hentry'
      (lookup_of_mem_nodup hplans hplan) (lookup_of_mem_nodup hplans hplan') hsound.kept
      hsound'.kept hsound.preview hsound'.preview hkey hmulti
  · intro id hid hgone
    obtain ⟨entry, hentry, hentryId, hplan, hhash⟩ := h.dropped id hid hgone
    rw [h.hashes_eq] at hhash
    obtain ⟨planned, hplanned, hsame⟩ := List.mem_map.mp hhash
    obtain ⟨-, hseen, hkept, -⟩ := h.sound planned hplanned
    exact ⟨hstored id _ hplan, entry, hentry, hentryId, (planned.id, planned.job), hseen,
      hkept, hsame⟩
  · intro id hid
    exact hothers id fun hmem => hid (h.chosen id hmem)

end Consistency

/-- A Batch whose plans are stored has consistent plans, and when anything fails nothing is
stored. The files that were read with the Batch are those of its Jobs as long as the Batch
has not been revised, and the hashes of its Album keys tell these apart. -/
theorem batch_plans_consistent (P : Platform) (preview : String → Option PreviewFile)
    (artworks : String → String → List ArtworkOption) (db : Database) (batch : Batch)
    (jobs : List (String × JobRow)) (selected : List String) (confirmation : PlanDecisions)
    (hids : (jobs.map Prod.fst).Nodup)
    (hfiles : ∀ current, db.batches.lookup batch.id = some current →
      current.revision = batch.row.revision → batch.files = jobs.map (batchFileFromJob preview))
    (hhash : KeysHashApart P batch.files) :
    (∀ remaining after, planAndStore P preview artworks db batch jobs selected confirmation =
        (.ok remaining, after) →
      Consistent P preview db batch.id jobs selected confirmation remaining after) ∧
    ∀ e after, planAndStore P preview artworks db batch jobs selected confirmation =
      (.error e, after) → after = db := by
  rw [planAndStore]
  cases hplanned : planBatch P preview artworks db batch jobs selected confirmation with
  | error e =>
    refine ⟨fun remaining after h => ?_, fun e' after h => ?_⟩
    · cases (Prod.mk.inj h).1
    · exact (Prod.mk.inj h).2.symm
  | ok planning =>
    dsimp only
    cases hsaved : Database.saveImportPlans batch.id batch.row planning.plans db with
    | error e =>
      refine ⟨fun remaining after h => ?_, fun e' after h => ?_⟩
      · cases (Prod.mk.inj h).1
      · exact (Prod.mk.inj h).2.symm
    | ok result =>
      obtain ⟨⟨⟩, stored⟩ := result
      refine ⟨fun remaining after h => ?_, fun e' after h => ?_⟩
      · obtain ⟨hremaining, rfl⟩ := Prod.mk.inj h
        cases hremaining
        -- that the plans were stored says that the Batch has not been revised
        obtain ⟨current, hcurrent, hrevision⟩ := saveImportPlans_revision hsaved
        have hread := hfiles current hcurrent hrevision
        obtain ⟨hknown, ⟨done, hloop⟩, hvalid⟩ := planBatch_eq_ok hids hread hhash hplanned
        obtain ⟨hstored, hothers⟩ := saveImportPlans_ok (hloop.ids.nodup hids) hsaved
        exact hloop.consistent hids hknown hvalid hstored hothers
      · cases (Prod.mk.inj h).1

/-! ### A Track of an unfinished commit -/

def heldFile : PreviewFile where
  title := "Song"
  artists := ["Artist"]
  albumArtists := ["Artist"]
  album := "Album"
  genres := []
  year := 0
  hasDiscNumber := true
  trackNo := 1
  trackTotal := 0
  discNo := 1
  discTotal := 0

def heldJob : JobRow where
  status := .awaitingConfirmation
  revision := 2
  batchId := some "batch"
  batchPosition := 0
  stagedFilePath := some [".staging", ".import-1.upload"]
  contentSha256 := "1"
  trackId := none
  errorCode := ""
  errorField := ""
  errorReason := ""
  outcome := none
  selected := true
  replaceTrackId := none
  importPlan := none
  uploadSizeBytes := 1
  updatedAt := 0

/-- A file of another Album. -/
def otherFile : PreviewFile := { heldFile with title := "Other", album := "Other Album" }

def otherJob : JobRow := { heldJob with
  batchPosition := 1
  stagedFilePath := some [".staging", ".import-2.upload"]
  contentSha256 := "2" }

def heldPreview (id : String) : Option PreviewFile :=
  some (if id = "job" then heldFile else otherFile)

def heldJobs : List (String × JobRow) := [("job", heldJob), ("other", otherJob)]

def heldBatch : Batch where
  id := "batch"
  row := ⟨.uploading, 2, 0⟩
  files := heldJobs.map (batchFileFromJob heldPreview)

/-- A Track that a commit has written and not published yet. -/
def heldTrack : TrackRow where
  albumId := "album"
  title := "Song"
  titleSort := "Song"
  artistName := "Artist"
  trackNo := 1
  durationMs := 1
  format := "flac"
  sizeBytes := 1
  filePath := ["library"]
  fileMtime := 0
  genre := ""
  sampleRateHz := 1
  bitDepth := none
  discNo := 1
  trackTotal := none
  discTotal := none
  channelCount := 2
  bitrateBps := 1
  codec := ""
  container := ""
  replaygainTrackGainDb := none
  replaygainTrackPeak := none
  replaygainAlbumGainDb := none
  replaygainAlbumPeak := none
  identityKey := ""
  lyrics := ""
  revision := 1
  isMissing := false
  isPendingCommit := true

def heldDatabase : Database := { Database.empty with
  albums := Database.empty.albums.insert "album"
    ⟨"artist", "Album", "Album", none, none, [], "Artist\x1fAlbum"⟩
  tracks := Database.empty.tracks.insert "track" heldTrack
  jobs := (Database.empty.jobs.insert "job" heldJob).insert "other" otherJob
  batches := Database.empty.batches.insert "batch" ⟨.uploading, 2, 0⟩ }

/-- The caller confirms the replacement of that Track. -/
def heldDecisions : PlanDecisions := ⟨[], [⟨"job", "replace_existing", "track", 1⟩]⟩

def heldPlan : ImportPlan := ⟨1, false, "Artist\x1fAlbum", "", "replace_existing", "track"⟩

def otherPlan : ImportPlan := ⟨0, false, "Artist\x1fOther Album", "", "", ""⟩

def heldAfter : Database := { heldDatabase with
  jobs := (heldDatabase.jobs.modify "job" fun job => { job with
    importPlan := some heldPlan
    replaceTrackId := some "track" }).modify "other" fun job => { job with
    importPlan := some otherPlan
    replaceTrackId := none } }

theorem planAndStore_held :
    planAndStore plainPlatform heldPreview (fun _ _ => []) heldDatabase heldBatch heldJobs
      ["job", "other"] heldDecisions = (.ok ["job", "other"], heldAfter) := by
  have hplanned : planBatch plainPlatform heldPreview (fun _ _ => []) heldDatabase heldBatch
      heldJobs ["job", "other"] heldDecisions =
        .ok ⟨["job", "other"], [("job", heldPlan), ("other", otherPlan)],
          ["Artist\x1fOther Album\x1f1\x1f1", "Artist\x1fAlbum\x1f1\x1f1"], ["2", "1"]⟩ := by
    decide +kernel
  have hsaved : Database.saveImportPlans heldBatch.id heldBatch.row
      [("job", heldPlan), ("other", otherPlan)] heldDatabase = .ok ((), heldAfter) := rfl
  rw [planAndStore, hplanned]
  dsimp only
  rw [hsaved]

theorem keysHashApart_held : KeysHashApart plainPlatform heldBatch.files := by
  intro file hfile other hother
  change file ∈ [heldFile, otherFile] at hfile
  change other ∈ [heldFile, otherFile] at hother
  simp only [List.mem_cons, List.not_mem_nil, or_false] at hfile hother
  rcases hfile with rfl | rfl <;> rcases hother with rfl | rfl <;> decide +kernel

theorem batch_plans_consistent_held :
    Consistent plainPlatform heldPreview heldDatabase "batch" heldJobs ["job", "other"]
      heldDecisions ["job", "other"] heldAfter :=
  (batch_plans_consistent plainPlatform heldPreview (fun _ _ => []) heldDatabase heldBatch heldJobs
    ["job", "other"] heldDecisions (by decide) (fun _ _ _ => rfl) keysHashApart_held).1 _ _
    planAndStore_held

/-- A plan may replace a Track that is not visible, since an unfinished commit wrote it. -/
theorem hidden_track_planned :
    ¬∀ (preview : String → Option PreviewFile) (artworks : String → String → List ArtworkOption)
      (db : Database) (batch : Batch) (jobs : List (String × JobRow)) (selected : List String)
      (confirmation : PlanDecisions), (jobs.map Prod.fst).Nodup →
      (∀ current, db.batches.lookup batch.id = some current →
        current.revision = batch.row.revision → batch.files = jobs.map (batchFileFromJob preview)) →
      KeysHashApart plainPlatform batch.files →
      ∀ remaining after, planAndStore plainPlatform preview artworks db batch jobs selected
        confirmation = (.ok remaining, after) →
      ∀ id ∈ remaining, ∀ plan, storedPlan after id = some plan → plan.targetId ≠ "" →
        ∃ row, db.tracks.lookup plan.targetId = some row ∧ row.isVisible = true := by
  intro hall
  obtain ⟨row, hlookup, hvisible⟩ := hall heldPreview (fun _ _ => []) heldDatabase heldBatch
    heldJobs ["job", "other"] heldDecisions (by decide) (fun _ _ _ => rfl) keysHashApart_held
    _ _ planAndStore_held "job" List.mem_cons_self heldPlan rfl (by decide)
  have hrow : heldDatabase.tracks.lookup heldPlan.targetId = some heldTrack :=
    AList.lookup_insert _
  cases hrow.symm.trans hlookup
  exact absurd hvisible (by decide)

end Harmony.ManagedImport
