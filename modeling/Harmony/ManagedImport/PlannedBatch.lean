/-
# What the plans of a Batch agree on

The plans that are stored for a Batch are consistent: no two files carry the same bytes or
go to one position, a file goes to an Album of its own tags, and it replaces the one Track
at its position or finds the position free. The loop over the Jobs keeps an invariant for
the Jobs it has been through, and storing the plans stores all of them or none.
-/

import Harmony.Library.Traversal
import Harmony.ManagedImport.BatchPlans

namespace Harmony.ManagedImport

open Transaction

/-! ### Positions -/

/-- The row of a Track at the position of the file in the Album with the key. Every Track has
an id. -/
structure IsAt (db : Database) (albumKey : String) (file : PreviewFile) (id : String)
    (row : TrackRow) : Prop where
  lookup : db.tracks.lookup id = some row
  id_ne : id ≠ ""
  present : row.isMissing = false
  album : ∃ album, db.albums.lookup row.albumId = some album ∧ album.identityKey = albumKey
  disc : row.discNo = file.discNo
  track : row.trackNo = file.trackNo

section Positions

variable {P : Platform} {db : Database} {file : PreviewFile} {albumKey : String}

theorem mem_positionCandidates (hkey : albumKey ≠ "") {candidate : PositionCandidate} :
    candidate ∈ db.positionCandidates P (metadataFromPreview file albumKey) "" ↔
      ∃ row, IsAt db albumKey file candidate.trackId row ∧
        candidate = ⟨candidate.trackId, row.title, row.revision⟩ := by
  have hidentity : albumIdentityKey P (metadataFromPreview file albumKey) = albumKey := if_pos hkey
  simp only [Database.positionCandidates, List.mem_insertionSort, List.mem_map, hidentity]
  constructor
  · rintro ⟨⟨id, row⟩, hmem, rfl⟩
    obtain ⟨hentry, hthere⟩ := List.mem_filter.mp hmem
    obtain ⟨hmissing, hid, halbum, hdisc, htrack⟩ := of_decide_eq_true hthere
    obtain ⟨album, hlookup, hsame⟩ := (Option.any_eq_true _ _).mp halbum
    exact ⟨row, ⟨AList.mem_lookup_iff.mpr hentry, hid, by simpa using hmissing,
      ⟨album, hlookup, of_decide_eq_true hsame⟩, hdisc, htrack⟩, rfl⟩
  · rintro ⟨row, hat, hcandidate⟩
    refine ⟨⟨candidate.trackId, row⟩, List.mem_filter.mpr
      ⟨AList.mem_lookup_iff.mp hat.lookup, ?_⟩, hcandidate.symm⟩
    obtain ⟨album, hlookup, hsame⟩ := hat.album
    refine decide_eq_true ⟨by simpa using hat.present, hat.id_ne, ?_, hat.disc, hat.track⟩
    exact (Option.any_eq_true _ _).mpr ⟨album, hlookup, decide_eq_true hsame⟩

/-- What a plan says about the Track at the position: there is none, or the plan replaces the
only one, whose title agrees and which the caller confirmed at its revision. -/
inductive PlansTrack (P : Platform) (db : Database) (file : PreviewFile)
    (decision : Option DuplicateDecision) (plan : ImportPlan) : Prop
  | free (hnone : ∀ id row, ¬IsAt db plan.albumKey file id row) (haction : plan.action = "")
      (htarget : plan.targetId = "")
  | replaces (row : TrackRow) (confirmed : DuplicateDecision)
      (hat : IsAt db plan.albumKey file plan.targetId row)
      (honly : ∀ id other, IsAt db plan.albumKey file id other → id = plan.targetId)
      (htitle : normalizeIdentity P row.title = normalizeIdentity P file.title)
      (hrevision : plan.targetRevision = row.revision)
      (hdecision : decision = some confirmed) (haction : confirmed.action = replaceExisting)
      (htarget : confirmed.trackId = plan.targetId)
      (hconfirmed : confirmed.targetRevision = plan.targetRevision)

theorem planTrack_eq_ok {albumPlan plan : ImportPlan} {decision : Option DuplicateDecision}
    (hkey : albumPlan.albumKey ≠ "") (haction : albumPlan.action = "")
    (htarget : albumPlan.targetId = "")
    (h : planTrack P db file albumPlan decision = .ok plan) :
    plan.albumKey = albumPlan.albumKey ∧ plan.skipExact = albumPlan.skipExact ∧
      plan.artworkId = albumPlan.artworkId ∧ PlansTrack P db file decision plan := by
  have hmem := @mem_positionCandidates P db file albumPlan.albumKey hkey
  rw [planTrack] at h
  split at h
  · rename_i hnone
    rw [hnone] at hmem
    split_ifs at h
    cases h
    refine ⟨rfl, rfl, rfl, .free (fun id row hat => ?_) haction htarget⟩
    exact List.not_mem_nil ((@hmem ⟨id, row.title, row.revision⟩).mpr ⟨row, hat, rfl⟩)
  · rename_i candidate hsingle
    rw [hsingle] at hmem
    dsimp only at h
    split_ifs at h with htitle hconfirmed
    cases h
    obtain ⟨row, hat, hcandidate⟩ := hmem.mp List.mem_cons_self
    simp only [not_or, not_not] at hconfirmed htitle
    obtain ⟨hreplace, htrack, hrevision⟩ := hconfirmed
    -- no decision is a decision for nothing
    have hdecision : decision = some (decision.getD .default) := by
      cases decision with
      | none => exact absurd hreplace (by decide)
      | some confirmed => rfl
    have hrow : candidate.title = row.title ∧ candidate.revision = row.revision := by
      rw [hcandidate]
      exact ⟨rfl, rfl⟩
    refine ⟨rfl, rfl, rfl, .replaces row (decision.getD .default) hat
      (fun id other hother => ?_) ?_ ?_
      hdecision hreplace htrack hrevision⟩
    · have hcandidates := (@hmem ⟨id, other.title, other.revision⟩).mpr ⟨other, hother, rfl⟩
      exact congrArg PositionCandidate.trackId (List.mem_singleton.mp hcandidates)
    · rw [← hrow.1]
      exact htitle
    · exact hrow.2
  · cases h

end Positions

/-! ### The plans of Albums -/

section Albums

variable {P : Platform} {db : Database} {artworks : String → String → List ArtworkOption}
  {batchId : String} {files : List BatchFile} {albumDecisions : List AlbumDecision}

theorem albumKeyOf_ne_empty (credits : List String) (album : String) :
    albumKeyOf P credits album ≠ "" := by
  intro h
  have hlength := congrArg String.length h
  rw [albumKeyOf, String.length_append, String.length_append] at hlength
  have hunit : "\x1f".length = 1 := by decide
  have hempty : "".length = 0 := by decide
  omega

theorem IsChoice.ne_empty {file : PreviewFile} {key : String}
    (h : IsChoice batchId (previewAlbumKey P file) (db.matchAlbums (previewAlbumKey P file)) key) :
    key ≠ "" := by
  have hbase : previewAlbumKey P file ≠ "" := albumKeyOf_ne_empty _ _
  have hlonger : ∀ rest, previewAlbumKey P file ++ rest ≠ "" := by
    intro rest h
    have hlength := congrArg String.length h
    rw [String.length_append] at hlength
    have hempty : "".length = 0 := by decide
    exact hbase (String.length_eq_zero_iff.mp (by omega))
  rcases h with rfl | rfl | ⟨found, hfound, rfl⟩
  · exact hbase
  · exact hlonger _
  · obtain ⟨row, -, hrow, hfound⟩ := Database.mem_matchAlbums.mp hfound
    rw [hfound]
    rcases hrow with hkey | hstart
    · change row.identityKey ≠ ""
      rw [hkey]
      exact hbase
    · rintro (hempty : row.identityKey = "")
      have hnothing : ∀ n, sqliteSubstr "" n = "" := by
        intro n
        rw [sqliteSubstr, String.toList_empty, List.takeWhile_nil, List.take_nil]
      rw [hempty, hnothing] at hstart
      exact hlonger _ hstart.symm

theorem exists_mem_firstOfAlbums {seen : List String} {previews : List PreviewFile}
    {file : PreviewFile} (hmem : file ∈ previews) (hseen : albumPreviewKey P file ∉ seen) :
    ∃ first ∈ firstOfAlbums P seen previews, albumPreviewKey P first = albumPreviewKey P file := by
  induction previews generalizing seen with
  | nil => cases hmem
  | cons head rest ih =>
    rw [firstOfAlbums]
    by_cases hhead : albumPreviewKey P head = albumPreviewKey P file
    · rw [if_neg (hhead ▸ hseen)]
      exact ⟨head, List.mem_cons_self, hhead⟩
    · have hrest : file ∈ rest := by
        rcases List.mem_cons.mp hmem with rfl | hrest
        · exact absurd rfl hhead
        · exact hrest
      by_cases hold : albumPreviewKey P head ∈ seen
      · rw [if_pos hold]
        exact ih hrest hseen
      · rw [if_neg hold]
        have hnext : albumPreviewKey P file ∉ albumPreviewKey P head :: seen :=
          List.not_mem_cons_of_ne_of_not_mem (fun h => hhead h.symm) hseen
        obtain ⟨first, hfirst, hkey⟩ := ih hrest hnext
        exact ⟨first, List.mem_cons_of_mem _ hfirst, hkey⟩

theorem mem_of_mem_firstOfAlbums {seen : List String} {previews : List PreviewFile}
    {file : PreviewFile} (h : file ∈ firstOfAlbums P seen previews) : file ∈ previews := by
  induction previews generalizing seen with
  | nil => cases h
  | cons head rest ih =>
    rw [firstOfAlbums] at h
    split_ifs at h
    · exact List.mem_cons_of_mem _ (ih h)
    · rcases List.mem_cons.mp h with rfl | hrest
      · exact List.mem_cons_self
      · exact List.mem_cons_of_mem _ (ih hrest)

/-- No two files of the Batch have different Album keys with the same hash. -/
def KeysHashApart (P : Platform) (files : List BatchFile) : Prop :=
  ∀ file ∈ files.filterMap BatchFile.preview, ∀ other ∈ files.filterMap BatchFile.preview,
    albumPreviewKey P file = albumPreviewKey P other →
      previewAlbumKey P file = previewAlbumKey P other

theorem mem_previews_of_accepted {file : PreviewFile} (h : file ∈ acceptedPreviews files) :
    file ∈ files.filterMap BatchFile.preview := by
  obtain ⟨entry, hentry, hpreview⟩ := List.mem_filterMap.mp h
  split_ifs at hpreview
  exact List.mem_filterMap.mpr ⟨entry, hentry, hpreview⟩

/-- The entries of a traversal are found under their keys. -/
theorem lookup_of_mapM {albums : List AlbumPreview} {plan : AlbumPreview → Except Error ImportPlan}
    {plans : List (String × ImportPlan)}
    (h : albums.mapM (fun album => (plan album).map fun made => (album.key, made)) = .ok plans)
    {key : String} (hkey : ∃ album ∈ albums, album.key = key) :
    ∃ album ∈ albums, album.key = key ∧ ∃ made, plan album = .ok made ∧
      plans.lookup key = some made := by
  have hpairs := Traversal.forall₂_of_mapM h
  clear h
  induction hpairs with
  | nil =>
    obtain ⟨album, hmem, -⟩ := hkey
    cases hmem
  | @cons first entry albums plans hfirst _ ih =>
    obtain ⟨made, hmade, rfl⟩ : ∃ made, plan first = .ok made ∧ (first.key, made) = entry := by
      cases hplan : plan first with
      | error e =>
        rw [hplan] at hfirst
        cases hfirst
      | ok made =>
        rw [hplan] at hfirst
        exact ⟨made, rfl, Except.ok.inj hfirst⟩
    by_cases hhead : first.key = key
    · refine ⟨first, List.mem_cons_self, hhead, made, hmade, ?_⟩
      rw [List.lookup_cons, hhead, beq_self_eq_true]
    · obtain ⟨album, hmem, halbum⟩ := hkey
      have hrest : album ∈ albums := by
        rcases List.mem_cons.mp hmem with rfl | hrest
        · exact absurd halbum hhead
        · exact hrest
      obtain ⟨later, hlater, hlaterKey, made', hmade', hlookup⟩ := ih ⟨album, hrest, halbum⟩
      refine ⟨later, List.mem_cons_of_mem _ hlater, hlaterKey, made', hmade', ?_⟩
      have hne : (key == first.key) = false := beq_eq_false_iff_ne.mpr fun h => hhead h.symm
      rw [List.lookup_cons, hne]
      exact hlookup

/-- The plan for an accepted file names an Album of its own tags. -/
theorem resolveAlbumPlans_lookup {albums : List (String × ImportPlan)} {file : PreviewFile}
    (hhash : KeysHashApart P files) (hfile : file ∈ acceptedPreviews files)
    (h : resolveAlbumPlans P db artworks batchId files albumDecisions = .ok albums) :
    ∃ plan, albums.lookup (albumPreviewKey P file) = some plan ∧
      IsChoice batchId (previewAlbumKey P file) (db.matchAlbums (previewAlbumKey P file))
        plan.albumKey ∧
      ∃ artworkId, plan = { ImportPlan.unplanned with
        albumKey := plan.albumKey
        artworkId := artworkId } := by
  rw [resolveAlbumPlans] at h
  split_ifs at h
  obtain ⟨first, hfirst, hfirstKey⟩ := @exists_mem_firstOfAlbums P [] _ _ hfile List.not_mem_nil
  have halbum : ∃ album ∈ populateAlbumPreviews P db artworks batchId files,
      album.key = albumPreviewKey P file :=
    ⟨_, List.mem_map_of_mem hfirst, hfirstKey⟩
  obtain ⟨album, hmem, halbumKey, plan, hplan, hlookup⟩ := lookup_of_mapM h halbum
  obtain ⟨previewed, hpreviewed, rfl⟩ := List.mem_map.mp hmem
  have hin := mem_previews_of_accepted (mem_of_mem_firstOfAlbums hpreviewed)
  have hown := mem_previews_of_accepted hfile
  have hsame := hhash _ hin _ hown halbumKey
  -- the base key is that of the first file with this preview key
  have hbase : baseKeyOf P files (albumPreviewKey P previewed) = previewAlbumKey P file := by
    rw [baseKeyOf]
    cases hfound : (files.filterMap BatchFile.preview).find? fun other =>
        albumPreviewKey P other = albumPreviewKey P previewed with
    | none =>
      have hnone := List.find?_eq_none.mp hfound previewed hin
      exact absurd (decide_eq_true rfl) hnone
    | some other =>
      have hfind := List.find?_some hfound
      have hkey : albumPreviewKey P other = albumPreviewKey P previewed := of_decide_eq_true hfind
      exact hhash _ (List.mem_of_find?_eq_some hfound) _ hown (hkey.trans halbumKey)
  obtain ⟨hchoice, hplain⟩ := resolveAlbumPlan_eq_ok hplan
  change IsChoice batchId (baseKeyOf P files (albumPreviewKey P previewed))
    (db.matchAlbums (previewAlbumKey P previewed)) plan.albumKey at hchoice
  rw [hbase, hsame] at hchoice
  exact ⟨plan, hlookup, hchoice, hplain⟩

end Albums

/-! ### The loop over the Jobs -/

/-- A file that stays chosen, with its plan. -/
structure PlannedFile where
  id : String
  job : JobRow
  file : PreviewFile
  plan : ImportPlan

section Loop

variable (P : Platform) (db : Database) (preview : String → Option PreviewFile)
  (batchId : String) (selected : List String) (decisions : List DuplicateDecision)

/-- What the plan of a file says. -/
structure PlannedFile.Sound (planned : PlannedFile) : Prop where
  preview : preview planned.id = some planned.file
  awaiting : planned.job.status = .awaitingConfirmation
  kept : planned.plan.skipExact = false
  choice : IsChoice batchId (previewAlbumKey P planned.file)
    (db.matchAlbums (previewAlbumKey P planned.file)) planned.plan.albumKey
  track : PlansTrack P db planned.file (decisions.find? (·.jobId = planned.id)) planned.plan

/-- What the loop knows once it has been through some Jobs. -/
structure LoopInv (seen : List (String × JobRow)) (planning : Planning)
    (done : List PlannedFile) : Prop where
  among : ∀ id ∈ planning.selected, id ∈ selected
  hashes_eq : planning.hashes = done.map (·.job.contentSha256)
  hashes : planning.hashes.Nodup
  positions_eq : planning.positions = done.map fun planned => positionText planned.plan planned.file
  positions : planning.positions.Nodup
  sound : ∀ planned ∈ done, planned.Sound P db preview batchId decisions ∧
    (planned.id, planned.job) ∈ seen ∧ planned.id ∈ planning.selected ∧
      (planned.id, planned.plan) ∈ planning.plans
  complete : ∀ entry ∈ seen, entry.1 ∈ planning.selected →
    ∃ planned ∈ done, planned.id = entry.1 ∧ planned.job = entry.2
  dropped : ∀ id ∈ selected, id ∉ planning.selected → ∃ entry ∈ seen, entry.1 = id ∧
    (id, ImportPlan.skipped) ∈ planning.plans ∧ entry.2.contentSha256 ∈ planning.hashes
  ids : (planning.plans.map Prod.fst).Sublist (seen.map Prod.fst)
  chosen : ∀ id ∈ planning.plans.map Prod.fst, id ∈ selected

variable {P db preview batchId selected decisions} {albums : List (String × ImportPlan)}

/-- The plan that an accepted file's Album has. -/
def HasAlbumPlan (P : Platform) (db : Database) (batchId : String)
    (albums : List (String × ImportPlan)) (file : PreviewFile) : Prop :=
  ∃ plan, albums.lookup (albumPreviewKey P file) = some plan ∧
    IsChoice batchId (previewAlbumKey P file) (db.matchAlbums (previewAlbumKey P file))
      plan.albumKey ∧
    ∃ artworkId, plan = { ImportPlan.unplanned with
      albumKey := plan.albumKey
      artworkId := artworkId }

section Rounds

variable {seen : List (String × JobRow)} {planning after : Planning} {done : List PlannedFile}
  {entry : String × JobRow}

/-- A Job that is not chosen changes nothing. -/
theorem LoopInv.skip (h : LoopInv P db preview batchId selected decisions seen planning done)
    (hnot : entry.1 ∉ planning.selected) :
    LoopInv P db preview batchId selected decisions (seen ++ [entry]) planning done where
  among := h.among
  hashes_eq := h.hashes_eq
  hashes := h.hashes
  positions_eq := h.positions_eq
  positions := h.positions
  sound planned hplanned := by
    obtain ⟨hsound, hseen, hrest⟩ := h.sound planned hplanned
    exact ⟨hsound, List.mem_append_left _ hseen, hrest⟩
  complete other hother hselected := by
    rcases List.mem_append.mp hother with hold | hnew
    · exact h.complete other hold hselected
    · rw [List.mem_singleton.mp hnew] at hselected
      exact absurd hselected hnot
  dropped id hid hgone := by
    obtain ⟨other, hother, hrest⟩ := h.dropped id hid hgone
    exact ⟨other, List.mem_append_left _ hother, hrest⟩
  ids := by
    rw [List.map_append]
    exact h.ids.trans (List.sublist_append_left _ _)
  chosen := h.chosen

theorem ids_append (h : LoopInv P db preview batchId selected decisions seen planning done)
    (plan : ImportPlan) :
    ((planning.plans ++ [(entry.1, plan)]).map Prod.fst).Sublist
      ((seen ++ [entry]).map Prod.fst) := by
  rw [List.map_append, List.map_append]
  exact h.ids.append (List.Sublist.refl _)

theorem chosen_append (h : LoopInv P db preview batchId selected decisions seen planning done)
    (hselected : entry.1 ∈ planning.selected) (plan : ImportPlan) :
    ∀ id ∈ (planning.plans ++ [(entry.1, plan)]).map Prod.fst, id ∈ selected := by
  intro id hid
  rw [List.map_append] at hid
  rcases List.mem_append.mp hid with hold | hnew
  · exact h.chosen id hold
  · rw [List.mem_singleton.mp hnew]
    exact h.among _ hselected

/-- A copy of an earlier file is dropped. -/
theorem LoopInv.drop (h : LoopInv P db preview batchId selected decisions seen planning done)
    (hselected : entry.1 ∈ planning.selected) (hnew : entry.1 ∉ seen.map Prod.fst)
    (hhash : entry.2.contentSha256 ∈ planning.hashes) :
    LoopInv P db preview batchId selected decisions (seen ++ [entry])
      { planning with
        selected := planning.selected.filter (· ≠ entry.1)
        plans := planning.plans ++ [(entry.1, .skipped)] } done where
  among id hid := h.among id (List.mem_of_mem_filter hid)
  hashes_eq := h.hashes_eq
  hashes := h.hashes
  positions_eq := h.positions_eq
  positions := h.positions
  sound planned hplanned := by
    obtain ⟨hsound, hseen, hkept, hplan⟩ := h.sound planned hplanned
    have hne : planned.id ≠ entry.1 :=
      fun heq => hnew (heq ▸ List.mem_map_of_mem hseen)
    exact ⟨hsound, List.mem_append_left _ hseen,
      List.mem_filter.mpr ⟨hkept, decide_eq_true hne⟩, List.mem_append_left _ hplan⟩
  complete other hother hkept := by
    obtain ⟨hold, hne⟩ := List.mem_filter.mp hkept
    rcases List.mem_append.mp hother with hseen | hlast
    · exact h.complete other hseen hold
    · rw [List.mem_singleton.mp hlast] at hne
      exact absurd rfl (of_decide_eq_true hne)
  dropped id hid hgone := by
    by_cases hentry : id = entry.1
    · subst hentry
      exact ⟨entry, List.mem_append_right _ List.mem_cons_self, rfl,
        List.mem_append_right _ List.mem_cons_self, hhash⟩
    · have hold : id ∉ planning.selected :=
        fun hmem => hgone (List.mem_filter.mpr ⟨hmem, decide_eq_true hentry⟩)
      obtain ⟨other, hother, hotherId, hplan, hhashes⟩ := h.dropped id hid hold
      exact ⟨other, List.mem_append_left _ hother, hotherId, List.mem_append_left _ hplan, hhashes⟩
  ids := ids_append h _
  chosen := chosen_append h hselected _

/-- A file that gets its plan. -/
theorem LoopInv.plan (h : LoopInv P db preview batchId selected decisions seen planning done)
    {file : PreviewFile} {plan : ImportPlan} (hselected : entry.1 ∈ planning.selected)
    (hsound : PlannedFile.Sound P db preview batchId decisions ⟨entry.1, entry.2, file, plan⟩)
    (hhash : entry.2.contentSha256 ∉ planning.hashes)
    (hposition : positionText plan file ∉ planning.positions) :
    LoopInv P db preview batchId selected decisions (seen ++ [entry])
      { selected := planning.selected
        plans := planning.plans ++ [(entry.1, plan)]
        positions := positionText plan file :: planning.positions
        hashes := entry.2.contentSha256 :: planning.hashes }
      (⟨entry.1, entry.2, file, plan⟩ :: done) where
  among := h.among
  hashes_eq := by rw [List.map_cons, h.hashes_eq]
  hashes := List.nodup_cons.mpr ⟨hhash, h.hashes⟩
  positions_eq := by rw [List.map_cons, h.positions_eq]
  positions := List.nodup_cons.mpr ⟨hposition, h.positions⟩
  sound planned hplanned := by
    have hlast : entry ∈ seen ++ [entry] := List.mem_append_right _ List.mem_cons_self
    rcases List.mem_cons.mp hplanned with rfl | hold
    · exact ⟨hsound, hlast, hselected, List.mem_append_right _ List.mem_cons_self⟩
    · obtain ⟨hsound', hseen, hselected', hplan⟩ := h.sound planned hold
      exact ⟨hsound', List.mem_append_left _ hseen, hselected', List.mem_append_left _ hplan⟩
  complete other hother hselected' := by
    rcases List.mem_append.mp hother with hseen | hlast
    · obtain ⟨planned, hplanned, hrest⟩ := h.complete other hseen hselected'
      exact ⟨planned, List.mem_cons_of_mem _ hplanned, hrest⟩
    · rw [List.mem_singleton.mp hlast]
      exact ⟨_, List.mem_cons_self, rfl, rfl⟩
  dropped id hid hgone := by
    obtain ⟨other, hother, hotherId, hplan, hhashes⟩ := h.dropped id hid hgone
    exact ⟨other, List.mem_append_left _ hother, hotherId, List.mem_append_left _ hplan,
      List.mem_cons_of_mem _ hhashes⟩
  ids := ids_append h _
  chosen := chosen_append h hselected _

/-- One round of the loop. -/
theorem LoopInv.planJob (h : LoopInv P db preview batchId selected decisions seen planning done)
    (hnew : entry.1 ∉ seen.map Prod.fst)
    (halbums : entry.1 ∈ selected → entry.2.status = .awaitingConfirmation →
      ∀ file, preview entry.1 = some file → HasAlbumPlan P db batchId albums file)
    (hrun : planJob P db preview albums decisions planning entry = .ok after) :
    ∃ done', LoopInv P db preview batchId selected decisions (seen ++ [entry]) after done' := by
  obtain ⟨jobId, job⟩ := entry
  simp only [Harmony.ManagedImport.planJob] at hrun
  by_cases hselected : jobId ∈ planning.selected
  case neg =>
    rw [if_pos hselected] at hrun
    cases hrun
    exact ⟨done, h.skip hselected⟩
  rw [if_neg (not_not.mpr hselected)] at hrun
  by_cases hstatus : job.status = .awaitingConfirmation
  case neg =>
    rw [if_pos hstatus] at hrun
    cases hrun
  rw [if_neg (not_not.mpr hstatus)] at hrun
  by_cases hhash : job.contentSha256 ∈ planning.hashes
  · rw [if_pos hhash] at hrun
    cases hrun
    exact ⟨done, h.drop hselected hnew hhash⟩
  rw [if_neg hhash] at hrun
  cases hfile : preview jobId with
  | none =>
    rw [decodeStoredPreview, hfile] at hrun
    cases hrun
  | some file =>
    obtain ⟨albumPlan, hlookup, hchoice, artworkId, hplain⟩ :=
      halbums (h.among _ hselected) hstatus file hfile
    have hdecode : decodeStoredPreview preview jobId = .ok file := by
      rw [decodeStoredPreview, hfile]
    rw [hdecode] at hrun
    change (if _ then _ else _) = _ at hrun
    rw [hlookup, Option.getD_some] at hrun
    by_cases hposition : positionText albumPlan file ∈ planning.positions
    · rw [if_pos hposition] at hrun
      cases hrun
    rw [if_neg hposition] at hrun
    cases hplan : planTrack P db file albumPlan (decisions.find? (·.jobId = jobId)) with
    | error e =>
      rw [hplan] at hrun
      cases hrun
    | ok plan =>
      rw [hplan] at hrun
      cases hrun
      have haction : albumPlan.action = "" := by rw [hplain]; rfl
      have htarget : albumPlan.targetId = "" := by rw [hplain]; rfl
      have hkept : albumPlan.skipExact = false := by rw [hplain]; rfl
      obtain ⟨hkey, hskip, -, htrack⟩ := planTrack_eq_ok hchoice.ne_empty haction htarget hplan
      -- planning the Track leaves the position as it was checked
      have htext : positionText albumPlan file = positionText plan file := by
        rw [positionText, positionText, hkey]
      rw [htext] at hposition ⊢
      refine ⟨_, h.plan hselected ?_ hhash hposition⟩
      exact ⟨hfile, hstatus, hskip.trans hkept, hkey ▸ hchoice, htrack⟩

end Rounds

theorem loopInv_start : LoopInv P db preview batchId selected decisions []
    ⟨selected, [], [], []⟩ [] where
  among _ := id
  hashes_eq := rfl
  hashes := List.nodup_nil
  positions_eq := rfl
  positions := List.nodup_nil
  sound _ hplanned := absurd hplanned List.not_mem_nil
  complete _ hentry := absurd hentry List.not_mem_nil
  dropped _ hid hgone := absurd hid hgone
  ids := List.Sublist.refl _
  chosen _ hid := absurd hid List.not_mem_nil

/-- The whole loop, by induction along the Jobs that are left. -/
theorem LoopInv.foldlM {jobs seen : List (String × JobRow)} {planning after : Planning}
    {done : List PlannedFile}
    (h : LoopInv P db preview batchId selected decisions seen planning done)
    (hids : ((seen ++ jobs).map Prod.fst).Nodup)
    (halbums : ∀ entry ∈ jobs, entry.1 ∈ selected → entry.2.status = .awaitingConfirmation →
      ∀ file, preview entry.1 = some file → HasAlbumPlan P db batchId albums file)
    (hrun : jobs.foldlM (Harmony.ManagedImport.planJob P db preview albums decisions) planning =
      .ok after) :
    ∃ done', LoopInv P db preview batchId selected decisions (seen ++ jobs) after done' := by
  induction jobs generalizing seen planning done with
  | nil =>
    cases hrun
    rw [List.append_nil]
    exact ⟨done, h⟩
  | cons entry jobs ih =>
    obtain ⟨hentry, hrest⟩ := List.forall_mem_cons.mp halbums
    rw [List.foldlM_cons] at hrun
    cases hstep : Harmony.ManagedImport.planJob P db preview albums decisions planning entry with
    | error e =>
      rw [hstep] at hrun
      cases hrun
    | ok next =>
      rw [hstep] at hrun
      have hnew : entry.1 ∉ seen.map Prod.fst := by
        rw [List.map_append, List.map_cons] at hids
        exact fun hmem => (List.nodup_append.mp hids).2.2 _ hmem _ List.mem_cons_self rfl
      obtain ⟨done', hnext⟩ := h.planJob hnew hentry hstep
      rw [← List.singleton_append, ← List.append_assoc] at hids ⊢
      exact ih hnext hids hrest hrun

end Loop

/-! ### The checks around the loop -/

theorem lookup_of_mem_nodup {α : Type} {entries : List (String × α)} {key : String} {value : α}
    (hkeys : (entries.map Prod.fst).Nodup) (hmem : (key, value) ∈ entries) :
    entries.lookup key = some value := by
  induction entries with
  | nil => cases hmem
  | cons head rest ih =>
    rw [List.map_cons, List.nodup_cons] at hkeys
    rcases List.mem_cons.mp hmem with rfl | hrest
    · rw [List.lookup_cons, beq_self_eq_true]
    · have hne : key ≠ head.1 := by
        rintro rfl
        exact hkeys.1 (List.mem_map.mpr ⟨_, hrest, rfl⟩)
      rw [List.lookup_cons, beq_eq_false_iff_ne.mpr hne]
      exact ih hkeys.2 hrest

section Checks

variable {P : Platform} {db : Database} {preview : String → Option PreviewFile}
  {artworks : String → String → List ArtworkOption} {batch : Batch}
  {jobs : List (String × JobRow)} {selected : List String} {confirmation : PlanDecisions}
  {planning : Planning}

/-- In an Album with several discs every planned file says on which disc it is. -/
theorem validatePlannedDiscNumbers_eq_ok {plans : List (String × ImportPlan)}
    (h : validatePlannedDiscNumbers preview jobs plans = .ok ())
    {entry other : String × JobRow} (hentry : entry ∈ jobs) (hother : other ∈ jobs)
    {plan plan' : ImportPlan} {file file' : PreviewFile}
    (hplan : plans.lookup entry.1 = some plan) (hplan' : plans.lookup other.1 = some plan')
    (hkept : plan.skipExact = false) (hkept' : plan'.skipExact = false)
    (hfile : preview entry.1 = some file) (hfile' : preview other.1 = some file')
    (hkey : plan'.albumKey = plan.albumKey) (hmulti : file.isMultiDisc = true) :
    file'.hasDiscNumber = true := by
  rw [validatePlannedDiscNumbers] at h
  cases hfiles : plannedFiles preview jobs plans with
  | error e =>
    rw [hfiles] at h
    cases h
  | ok files =>
    rw [hfiles] at h
    change (if _ then _ else _) = _ at h
    have hlisted : ∀ {entry : String × JobRow} {plan : ImportPlan} {file : PreviewFile},
        entry ∈ jobs → plans.lookup entry.1 = some plan → plan.skipExact = false →
        preview entry.1 = some file → (plan.albumKey, file) ∈ files := by
      intro entry plan file hentry hplan hkept hfile
      have hplanned : (plan.albumKey, entry.1) ∈ jobs.filterMap fun entry =>
          ((plans.lookup entry.1).filter fun plan => !plan.skipExact).map fun plan =>
            (plan.albumKey, entry.1) := by
        refine List.mem_filterMap.mpr ⟨entry, hentry, ?_⟩
        rw [hplan, Option.filter_some, if_pos (by rw [hkept]; rfl)]
        rfl
      obtain ⟨listed, hmem, hdecoded⟩ := Traversal.exists_output_of_mapM hfiles _ hplanned
      rw [decodeStoredPreview, hfile] at hdecoded
      cases hdecoded
      exact hmem
    by_contra hmissing
    rw [if_pos] at h
    · cases h
    refine List.any_eq_true.mpr ⟨_, hlisted hentry hplan hkept hfile, decide_eq_true ⟨hmulti, ?_⟩⟩
    refine List.any_eq_true.mpr ⟨_, hlisted hother hplan' hkept' hfile', ?_⟩
    exact decide_eq_true ⟨hkey, by rw [Bool.eq_false_iff.mpr hmissing]; rfl⟩

/-- Whatever is planned has been through the loop and the checks after it. -/
theorem planBatch_eq_ok (hids : (jobs.map Prod.fst).Nodup)
    (hfiles : batch.files = jobs.map (batchFileFromJob preview))
    (hhash : KeysHashApart P batch.files)
    (h : planBatch P preview artworks db batch jobs selected confirmation = .ok planning) :
    (∀ id ∈ selected, id ∈ jobs.map Prod.fst) ∧
    (∃ done, LoopInv P db preview batch.id selected confirmation.duplicateDecisions jobs planning
      done) ∧
    validatePlannedDiscNumbers preview jobs planning.plans = .ok () := by
  rw [planBatch] at h
  cases halbums : resolveAlbumPlans P db artworks batch.id
      (batch.files.filter fun file => file.jobId ∈ selected) confirmation.albumDecisions with
  | error e =>
    rw [halbums] at h
    cases h
  | ok albums =>
    rw [halbums] at h
    change (planSelected P preview db jobs selected confirmation albums).bind _ = _ at h
    cases hplanned : planSelected P preview db jobs selected confirmation albums with
    | error e =>
      rw [hplanned] at h
      cases h
    | ok loop =>
      rw [hplanned] at h
      change (validatePlannedDiscNumbers preview jobs loop.plans).bind _ = _ at h
      cases hvalid : validatePlannedDiscNumbers preview jobs loop.plans with
      | error e =>
        rw [hvalid] at h
        cases h
      | ok u =>
        rw [hvalid] at h
        cases h
        rw [planSelected] at hplanned
        split_ifs at hplanned with hknown
        have hselected : ∀ id ∈ selected, id ∈ jobs.map Prod.fst := by
          intro id hid
          by_contra hnot
          exact hknown (List.any_eq_true.mpr ⟨id, hid, decide_eq_true hnot⟩)
        refine ⟨hselected, ?_, hvalid⟩
        refine loopInv_start.foldlM hids (fun entry hentry hid hstatus file hfile => ?_) hplanned
        refine resolveAlbumPlans_lookup (fun file hmem other hmem' => ?_) ?_ halbums
        · exact hhash file ((List.filter_sublist.filterMap _).subset hmem) other
            ((List.filter_sublist.filterMap _).subset hmem')
        · refine List.mem_filterMap.mpr ⟨batchFileFromJob preview entry, ?_, ?_⟩
          · rw [hfiles]
            exact List.mem_filter.mpr ⟨List.mem_map_of_mem hentry, decide_eq_true hid⟩
          · rw [batchFileFromJob, if_pos hstatus]
            exact hfile

end Checks

/-! ### Storing the plans -/

/-- The plan that is stored for a Job. -/
def storedPlan (db : Database) (jobId : String) : Option ImportPlan :=
  (db.jobs.lookup jobId).bind JobRow.importPlan

section Storing

variable {batchId : String} {row : BatchRow} {plans : List (String × ImportPlan)}
  {db after : Database}

theorem run_updateJob_ok {jobId : String} {guard : JobRow → Bool} {f : JobRow → JobRow} {a : Unit} :
    Database.updateJob jobId guard f db = .ok (a, after) ↔
      (db.jobs.lookup jobId).any guard = true ∧
        { db with jobs := db.jobs.modify jobId f } = after := by
  simp only [Database.updateJob, run_bind_ok, run_get_ok, Tx.run_requireOne_ok, run_modify_ok]
  constructor
  · rintro ⟨_, _, ⟨rfl, rfl⟩, _, _, ⟨hguard, rfl⟩, hafter⟩
    exact ⟨hguard, hafter⟩
  · rintro ⟨hguard, hafter⟩
    exact ⟨db, db, ⟨rfl, rfl⟩, (), db, ⟨hguard, rfl⟩, hafter⟩

/-- Plans are stored only while the Batch is at the revision they were made at. -/
theorem saveImportPlans_revision
    (h : Database.saveImportPlans batchId row plans db = .ok ((), after)) :
    ∃ current, db.batches.lookup batchId = some current ∧ current.revision = row.revision := by
  simp only [Database.saveImportPlans, run_bind_ok, run_get_ok, run_fromOption_ok,
    run_require_ok] at h
  obtain ⟨_, _, ⟨rfl, rfl⟩, current, _, ⟨hcurrent, rfl⟩, _, _, ⟨hrevision, rfl⟩, -⟩ := h
  exact ⟨current, Option.eq_some_of_filter_eq_some hcurrent, of_decide_eq_true hrevision⟩

/-- Each plan is stored for its own Job, and no other Job gets one. -/
theorem saveImportPlans_ok (hids : (plans.map Prod.fst).Nodup)
    (h : Database.saveImportPlans batchId row plans db = .ok ((), after)) :
    (∀ id plan, (id, plan) ∈ plans → storedPlan after id = some plan) ∧
    ∀ id, id ∉ plans.map Prod.fst → storedPlan after id = storedPlan db id := by
  simp only [Database.saveImportPlans, run_bind_ok, run_get_ok, run_fromOption_ok,
    run_require_ok] at h
  obtain ⟨_, _, ⟨rfl, rfl⟩, _, _, ⟨-, rfl⟩, _, _, ⟨-, rfl⟩, hloop⟩ := h
  refine forEach_preserves (P := fun seen s => (seen.map Prod.fst).Nodup →
      (∀ id plan, (id, plan) ∈ seen → storedPlan s id = some plan) ∧
        ∀ id, id ∉ seen.map Prod.fst → storedPlan s id = storedPlan db id)
    (fun seen entry s t ih hstep hnodup => ?_)
    (fun _ => ⟨fun _ _ hmem => absurd hmem List.not_mem_nil, fun _ _ => rfl⟩) hloop hids
  rw [List.map_append, List.nodup_append] at hnodup
  obtain ⟨hplans, hothers⟩ := ih hnodup.1
  obtain ⟨hguard, rfl⟩ := run_updateJob_ok.mp hstep
  obtain ⟨job, hjob, -⟩ := (Option.any_eq_true _ _).mp hguard
  have hlookup : ∀ id, id ≠ entry.1 → storedPlan { s with
      jobs := s.jobs.modify entry.1 fun job => { job with
        importPlan := some entry.2
        replaceTrackId := if entry.2.targetId = "" then none else some entry.2.targetId } } id =
      storedPlan s id := by
    intro id hne
    rw [storedPlan, storedPlan, Table.lookup_modify, if_neg hne]
  constructor
  · intro id plan hmem
    rcases List.mem_append.mp hmem with hold | hnew
    · have hne : id ≠ entry.1 := by
        rintro rfl
        exact hnodup.2.2 _ (List.mem_map.mpr ⟨_, hold, rfl⟩) _ List.mem_cons_self rfl
      exact (hlookup id hne).trans (hplans id plan hold)
    · obtain rfl := List.mem_singleton.mp hnew
      rw [storedPlan, Table.lookup_modify, if_pos rfl, hjob]
      rfl
  · intro id hnot
    rw [List.map_append, List.mem_append, not_or] at hnot
    have hne : id ≠ entry.1 := fun heq => hnot.2 (heq ▸ List.mem_cons_self)
    exact (hlookup id hne).trans (hothers id hnot.1)

end Storing

end Harmony.ManagedImport
