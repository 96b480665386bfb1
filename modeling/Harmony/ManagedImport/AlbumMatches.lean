/-
# The Albums that match

A library that imports have built holds Albums under the keys of the files that created
them and of separate editions of these. What a key finds are the Albums of its own
Album Artists and title, by induction along the imports. A file that is imported on its
own as a separate edition gets the suffix of an edition twice; without such a file every
key that is found is the key itself or the key with the suffix of one Batch.
-/

import Harmony.ManagedImport.AlbumKeys

namespace Harmony.ManagedImport

open Transaction Relation

/-! ### Matching by the start of a key -/

section Matching

theorem exists_of_sqliteSubstr {text start : String} {n : ℕ} (h : sqliteSubstr text n = start) :
    ∃ rest : String, text = start ++ rest := by
  have hstart : start.toList <+: text.toList := by
    rw [← h, sqliteSubstr, String.toList_ofList]
    exact (List.take_prefix _ _).trans (List.takeWhile_prefix _)
  obtain ⟨rest, hrest⟩ := hstart
  refine ⟨String.ofList rest, String.toList_inj.mp ?_⟩
  rw [String.toList_append, String.toList_ofList, hrest]

theorem sqliteSubstr_append {start : String} (rest : String) (h : '\x00' ∉ start.toList) :
    sqliteSubstr (start ++ rest) (sqliteLength start) = start := by
  have hall : ∀ c ∈ start.toList, decide (c ≠ '\x00') = true := by
    intro c hc
    refine decide_eq_true ?_
    rintro rfl
    exact h hc
  have hlength : sqliteLength start = start.toList.length := by
    rw [sqliteLength, List.takeWhile_eq_self_iff.mpr hall]
  refine String.toList_inj.mp ?_
  rw [sqliteSubstr, String.toList_ofList, hlength, String.toList_append,
    List.takeWhile_append_of_pos hall, List.take_left]

variable {P : Platform} {tags : AlbumTags} {db : Database} {id : String}

theorem AlbumTags.Accepted.nul_not_mem_key (hP : NoNewControls P) (h : tags.Accepted P) :
    '\x00' ∉ (tags.key P).toList := by
  rw [AlbumTags.key_toList, List.mem_append, List.mem_cons]
  have hcredits : '\x00' ∉
      ['\x1e'].intercalate ((normalizeCredits P tags.albumArtists).map String.toList) :=
    not_mem_credits (h.plain_credits hP) (by decide) (by decide)
  have halbum := not_mem_of_plain (h.plain_album hP) (c := '\x00') (by decide)
  exact not_or.mpr ⟨hcredits, not_or.mpr ⟨by decide, halbum⟩⟩

/-- The Albums under the key and under the key of an edition. -/
theorem id_mem_matchAlbums_iff (hP : NoNewControls P) (h : tags.Accepted P) :
    id ∈ (db.matchAlbums (tags.key P)).map AlbumMatch.id ↔ ∃ row, db.albums.lookup id = some row ∧
      (row.identityKey = tags.key P ∨
        ∃ edition, row.identityKey = tags.key P ++ editionSuffix edition) := by
  rw [List.mem_map]
  constructor
  · rintro ⟨found, hfound, rfl⟩
    obtain ⟨row, hlookup, hkey, -⟩ := Database.mem_matchAlbums.mp hfound
    refine ⟨row, hlookup, hkey.imp_right fun hstart => ?_⟩
    obtain ⟨edition, hedition⟩ := exists_of_sqliteSubstr hstart
    exact ⟨edition, by rw [hedition, editionSuffix, String.append_assoc]⟩
  · rintro ⟨row, hlookup, hkey⟩
    have hmark : '\x00' ∉ editionMark.toList := by decide +kernel
    have hnul : '\x00' ∉ (tags.key P ++ editionMark).toList := by
      rw [String.toList_append, List.mem_append]
      exact not_or.mpr ⟨h.nul_not_mem_key hP, hmark⟩
    refine ⟨⟨id, row.year.getD 0, (db.albumArtwork.lookup id).isSome, row.identityKey⟩, ?_, rfl⟩
    refine Database.mem_matchAlbums.mpr ⟨row, hlookup, hkey.imp_right ?_, rfl⟩
    rintro ⟨edition, hedition⟩
    rw [hedition, editionSuffix, ← String.append_assoc]
    exact sqliteSubstr_append edition hnul

end Matching

/-! ### Imports -/

/-- The metadata of a file with the Album that its Job's plan names. -/
def plannedMetadata (job : JobRow) (metadata : NormalizedMetadata) : NormalizedMetadata :=
  let plan := decodeImportPlan job
  if plan.albumKey = "" then metadata else { metadata with albumIdentityKey := plan.albumKey }

/-- The key under which `confirm_awaiting_job` commits a file. -/
def committedAlbumKey (P : Platform) (jobId : String) (job : JobRow) (metadata : NormalizedMetadata)
    (separate : Bool) : String :=
  let metadata := if separate then
      { metadata with albumIdentityKey := separateAlbumIdentityKey P jobId job metadata }
    else metadata
  if separate then separateAlbumIdentityKey P jobId job metadata else albumIdentityKey P metadata

/-- A library in the course of its imports, with the plans that were made for files and the
tags of the file that created each Album. -/
structure Imports where
  db : Database
  plans : List (AlbumTags × ImportPlan)
  origin : String → Option AlbumTags

namespace Imports

def empty : Imports := ⟨.empty, [], fun _ => none⟩

/-- What happens to a library: a file is planned, a file is imported, perhaps on its own as
a separate edition, or something else that creates no Album and leaves the keys alone. -/
inductive Event
  | planned
  | imported (separate : Bool)
  | kept
  deriving DecidableEq

variable (P : Platform)

inductive Step : Event → Imports → Imports → Prop
  | planned {s : Imports} {tags : AlbumTags} {batchId : String} {artworks : List ArtworkOption}
      {decision : AlbumDecision} {plan : ImportPlan} (haccepted : tags.Accepted P)
      (hbatch : IsUuidText batchId)
      (hplan : resolveAlbumPlan batchId (tags.key P)
        ⟨tags.key P, s.db.matchAlbums (tags.key P), artworks⟩ decision = .ok plan) :
      Step .planned s { s with plans := (tags, plan) :: s.plans }
  | imported {s : Imports} {db : Database} {data : CommitData} {artistIds : List (String × String)}
      {jobId : String} {job : JobRow} {metadata : NormalizedMetadata} (separate : Bool)
      (hinspected : metadata.albumIdentityKey = "")
      (haccepted : AlbumTags.Accepted P ⟨metadata.albumArtists, metadata.album⟩)
      (hplan : ∀ plan ∈ job.importPlan, (⟨metadata.albumArtists, metadata.album⟩, plan) ∈ s.plans)
      -- only a Job outside a Batch is confirmed as a separate edition, and it has no plan
      (hseparate : separate = true → job.batchId = none ∧ job.importPlan = none)
      (hkey : data.albumKey =
        committedAlbumKey P jobId job (plannedMetadata job metadata) separate)
      (hrun : upsertAlbumFor P data artistIds s.db = .ok ((), db)) :
      Step (.imported separate) s
        { s with
          db := db
          origin := fun id =>
            if id = data.identity.albumId ∧ id ∉ s.db.albums then
              some ⟨metadata.albumArtists, metadata.album⟩
            else s.origin id }
  | kept {s : Imports} {db : Database}
      (hkept : ∀ id row, db.albums.lookup id = some row →
        ∃ before, s.db.albums.lookup id = some before ∧ before.identityKey = row.identityKey) :
      Step .kept s { s with db := db }

/-- What imports can make of an empty library. -/
def Built (s : Imports) : Prop :=
  ReflTransGen (fun s t => ∃ event, Step P event s t) empty s

/-- The same, without a file that is imported on its own as a separate edition. -/
def BuiltByBatches (s : Imports) : Prop :=
  ReflTransGen (fun s t => ∃ event, event ≠ .imported true ∧ Step P event s t) empty s

end Imports

/-! ### The keys of Albums -/

/-- The key of the tags, or of one of the editions of their Album. -/
def IsKeyOf (P : Platform) (editions : String → Prop) (tags : AlbumTags) (key : String) : Prop :=
  key = tags.key P ∨ ∃ edition, editions edition ∧ key = tags.key P ++ editionSuffix edition

section Keys

variable {P : Platform} {editions others : String → Prop} {tags tags' : AlbumTags} {key : String}

theorem IsKeyOf.exists_end (h : IsKeyOf P editions tags key) : ∃ rest, IsKeyEnd rest ∧
    key.toList = (tags.key P).toList ++ rest ∧
      (rest = [] ∨ ∃ edition, editions edition ∧ rest = (editionSuffix edition).toList) := by
  rcases h with rfl | ⟨edition, hedition, rfl⟩
  · exact ⟨[], .inl rfl, (List.append_nil _).symm, .inl rfl⟩
  · refine ⟨(editionSuffix edition).toList, .inr ?_, String.toList_append,
      .inr ⟨edition, hedition, rfl⟩⟩
    rw [editionSuffix, String.toList_append]
    rfl

/-- A key belongs to the tags of one Album only. -/
theorem IsKeyOf.sameAlbum (hP : NoNewControls P) (haccepted : tags.Accepted P)
    (haccepted' : tags'.Accepted P) (h : IsKeyOf P editions tags key)
    (h' : IsKeyOf P others tags' key) : tags.SameAlbum P tags' := by
  obtain ⟨rest, hrest, hkey, -⟩ := h.exists_end
  obtain ⟨rest', hrest', hkey', -⟩ := h'.exists_end
  exact (key_append_inj hP haccepted haccepted' hrest hrest' (hkey.symm.trans hkey')).1

/-- What is a key of the same Album is a key of these tags. -/
theorem IsKeyOf.of_sameAlbum (h : IsKeyOf P editions tags' key) (hsame : tags.SameAlbum P tags') :
    IsKeyOf P editions tags key := by
  rw [IsKeyOf, hsame.key_eq]
  exact h

/-- The suffix comes with a text that is not empty. -/
theorem append_editionSuffix_ne (key edition : String) : key ++ editionSuffix edition ≠ "" := by
  intro h
  have hlist := congrArg String.toList h
  rw [String.toList_append, editionSuffix, String.toList_append] at hlist
  have hlength := congrArg List.length hlist
  rw [List.length_append, List.length_append] at hlength
  have hmark : editionMark.toList.length = 24 := by decide +kernel
  rw [hmark] at hlength
  simp at hlength

variable {jobId : String} {job : JobRow} {metadata : NormalizedMetadata}

/-- The key of a file of a Batch, or of one that is no separate edition. -/
theorem isKeyOf_committedAlbumKey (hinspected : metadata.albumIdentityKey = "")
    (hplan : ∀ plan ∈ job.importPlan,
      IsKeyOf P editions ⟨metadata.albumArtists, metadata.album⟩ plan.albumKey) :
    IsKeyOf P editions ⟨metadata.albumArtists, metadata.album⟩
      (committedAlbumKey P jobId job (plannedMetadata job metadata) false) := by
  rw [committedAlbumKey, if_neg Bool.false_ne_true, if_neg Bool.false_ne_true, plannedMetadata,
    decodeImportPlan]
  cases hjob : job.importPlan with
  | none =>
    have hnone : ImportPlan.unplanned.albumKey = "" := rfl
    rw [Option.getD_none, if_pos hnone, albumIdentityKey, if_neg (not_not.mpr hinspected)]
    exact .inl rfl
  | some plan =>
    rw [Option.getD_some]
    by_cases hempty : plan.albumKey = ""
    · rw [if_pos hempty, albumIdentityKey, if_neg (not_not.mpr hinspected)]
      exact .inl rfl
    · rw [if_neg hempty, albumIdentityKey, if_pos hempty]
      exact hplan plan hjob

/-- A separate edition of a file on its own: the suffix is added twice. -/
theorem committedAlbumKey_separate (hinspected : metadata.albumIdentityKey = "")
    (hbatch : job.batchId = none) (hplan : job.importPlan = none) :
    committedAlbumKey P jobId job (plannedMetadata job metadata) true =
      AlbumTags.key P ⟨metadata.albumArtists, metadata.album⟩ ++
        editionSuffix (jobId ++ editionSuffix jobId) := by
  have hplanned : plannedMetadata job metadata = metadata := by
    have hnone : ImportPlan.unplanned.albumKey = "" := rfl
    rw [plannedMetadata, decodeImportPlan, hplan, Option.getD_none, if_pos hnone]
  have hfirst : separateAlbumIdentityKey P jobId job metadata =
      AlbumTags.key P ⟨metadata.albumArtists, metadata.album⟩ ++ editionSuffix jobId := by
    rw [separateAlbumIdentityKey, albumIdentityKey, if_neg (not_not.mpr hinspected), hbatch,
      Option.getD_none, String.append_assoc]
    rfl
  have hne := append_editionSuffix_ne
    (AlbumTags.key P ⟨metadata.albumArtists, metadata.album⟩) jobId
  rw [hplanned, committedAlbumKey, if_pos rfl, if_pos rfl, hfirst, separateAlbumIdentityKey,
    albumIdentityKey, if_pos hne, hbatch, Option.getD_none]
  simp only [editionSuffix, editionMark, String.append_assoc]

end Keys

/-! ### What imports keep -/

namespace Imports

/-- Every plan and every Album has a key of its file's tags. -/
structure Known (P : Platform) (editions : String → Prop) (s : Imports) : Prop where
  plans : ∀ tags plan, (tags, plan) ∈ s.plans →
    tags.Accepted P ∧ IsKeyOf P editions tags plan.albumKey
  albums : ∀ id row, s.db.albums.lookup id = some row → ∃ tags, s.origin id = some tags ∧
    tags.Accepted P ∧ IsKeyOf P editions tags row.identityKey

section Known

variable {P : Platform} {editions : String → Prop} {s t : Imports} {event : Event}

theorem known_empty : Known P editions empty :=
  ⟨nofun, fun id row h => by rw [empty, Database.empty, AList.lookup_empty] at h; cases h⟩

/-- An Album that the key finds is one of the tags' Album. -/
theorem Known.key_of_found (hP : NoNewControls P) (hknown : s.Known P editions) {tags : AlbumTags}
    (haccepted : tags.Accepted P) {found : AlbumMatch}
    (hfound : found ∈ s.db.matchAlbums (tags.key P)) :
    IsKeyOf P editions tags found.identityKey := by
  have hid := List.mem_map_of_mem (f := AlbumMatch.id) hfound
  obtain ⟨row, hlookup, hkey⟩ := (id_mem_matchAlbums_iff hP haccepted).mp hid
  obtain ⟨row', hlookup', -, hrow⟩ := Database.mem_matchAlbums.mp hfound
  have hsame : row' = row := Option.some.inj (hlookup'.symm.trans hlookup)
  have hidentity : found.identityKey = row.identityKey := by
    rw [hrow, hsame]
  obtain ⟨tags', -, haccepted', hkey'⟩ := hknown.albums found.id row hlookup
  have hfoundKey : IsKeyOf P (fun _ => True) tags row.identityKey :=
    hkey.imp_right fun ⟨edition, hedition⟩ => ⟨edition, trivial, hedition⟩
  rw [hidentity]
  exact hkey'.of_sameAlbum (hfoundKey.sameAlbum hP haccepted haccepted' hkey')

/-- What `upsert_album_for` does to the Albums. -/
theorem upsertAlbumFor_albums {data : CommitData} {ids : List (String × String)} {db db' : Database}
    (h : upsertAlbumFor P data ids db = .ok ((), db')) : db' = db ∨
      (data.identity.albumId ∉ db.albums ∧ ∃ row, row.identityKey = data.albumKey ∧
        db'.albums = db.albums.insert data.identity.albumId row) := by
  simp only [upsertAlbumFor, run_bind_ok, run_get_ok] at h
  obtain ⟨_, _, ⟨rfl, rfl⟩, hrun⟩ := h
  cases hfound : db.albumIdOf data.albumKey with
  | some existing =>
    simp only [hfound, run_require_ok] at hrun
    exact .inl hrun.2.symm
  | none =>
    simp only [hfound, run_bind_ok, Tx.run_indexed_ok, Tx.run_constraint_ok, run_modify_ok] at hrun
    obtain ⟨_, _, ⟨-, rfl⟩, artistId, _, ⟨-, rfl⟩, _, _, ⟨hnew, rfl⟩, _, _, ⟨-, rfl⟩, rfl⟩ := hrun
    exact .inr ⟨of_decide_eq_true hnew, albumRow P data artistId, rfl, rfl⟩

/-- An import keeps the keys known, as long as its own key is one. -/
theorem Known.imported (hknown : s.Known P editions) {data : CommitData}
    {ids : List (String × String)}
    {db : Database} {tags : AlbumTags} (haccepted : tags.Accepted P)
    (hkey : IsKeyOf P editions tags data.albumKey)
    (hrun : upsertAlbumFor P data ids s.db = .ok ((), db)) :
    Known P editions { s with
      db := db
      origin := fun id =>
        if id = data.identity.albumId ∧ id ∉ s.db.albums then some tags else s.origin id } := by
  have hbefore : ∀ id row, s.db.albums.lookup id = some row →
      (if id = data.identity.albumId ∧ id ∉ s.db.albums then some tags else s.origin id) =
        s.origin id := by
    intro id row hlookup
    have hmem : id ∈ s.db.albums := AList.lookup_isSome.mp (by rw [hlookup]; rfl)
    exact if_neg fun h => h.2 hmem
  refine ⟨hknown.plans, fun id row hlookup => ?_⟩
  rcases upsertAlbumFor_albums hrun with rfl | ⟨hnew, created, hcreated, halbums⟩
  · obtain ⟨tags', horigin, hknown'⟩ := hknown.albums id row hlookup
    exact ⟨tags', (hbefore id row hlookup).trans horigin, hknown'⟩
  · change db.albums.lookup id = some row at hlookup
    rw [halbums] at hlookup
    by_cases hid : id = data.identity.albumId
    · subst hid
      rw [AList.lookup_insert] at hlookup
      cases hlookup
      exact ⟨tags, if_pos ⟨rfl, hnew⟩, haccepted, hcreated ▸ hkey⟩
    · rw [AList.lookup_insert_ne hid] at hlookup
      obtain ⟨tags', horigin, hknown'⟩ := hknown.albums id row hlookup
      exact ⟨tags', (hbefore id row hlookup).trans horigin, hknown'⟩

/-- A step keeps the keys known: the editions are those of Batches, and if the step is a file
on its own as a separate edition, any. -/
theorem Known.step (hP : NoNewControls P) (hbatches : ∀ id, IsUuidText id → editions id)
    (hfiles : event = .imported true → ∀ id, editions id) (hknown : s.Known P editions)
    (hstep : Step P event s t) : t.Known P editions := by
  cases hstep with
  | planned haccepted hbatch hplan =>
    refine ⟨fun tags plan hmem => ?_, hknown.albums⟩
    rcases List.mem_cons.mp hmem with hnew | hold
    · cases hnew
      refine ⟨haccepted, ?_⟩
      rcases (resolveAlbumPlan_eq_ok hplan).1 with hbase | hedition | ⟨found, hfound, hkey⟩
      · exact .inl hbase
      · exact .inr ⟨_, hbatches _ hbatch, hedition⟩
      · rw [hkey]
        exact hknown.key_of_found hP haccepted hfound
    · exact hknown.plans tags plan hold
  | @imported _ _ data _ jobId job metadata separate hinspected haccepted hplan
      hseparate hkey hrun =>
    refine hknown.imported haccepted ?_ hrun
    rw [hkey]
    cases separate with
    | false =>
      refine isKeyOf_committedAlbumKey hinspected fun plan hjob => ?_
      exact (hknown.plans _ plan (hplan plan hjob)).2
    | true =>
      obtain ⟨hbatch, hnone⟩ := hseparate rfl
      rw [committedAlbumKey_separate hinspected hbatch hnone]
      exact .inr ⟨_, hfiles rfl _, rfl⟩
  | kept hkept =>
    refine ⟨hknown.plans, fun id row hlookup => ?_⟩
    obtain ⟨before, hbefore, hkey⟩ := hkept id row hlookup
    rw [← hkey]
    exact hknown.albums id before hbefore

theorem Built.known (hP : NoNewControls P) (h : Built P s) : s.Known P fun _ => True := by
  induction h with
  | refl => exact known_empty
  | tail _ hstep ih =>
    obtain ⟨event, hstep⟩ := hstep
    exact ih.step hP (fun _ _ => trivial) (fun _ _ => trivial) hstep

theorem BuiltByBatches.known (hP : NoNewControls P) (h : BuiltByBatches P s) :
    s.Known P IsUuidText := by
  induction h with
  | refl => exact known_empty
  | tail _ hstep ih =>
    obtain ⟨event, hfile, hstep⟩ := hstep
    exact ih.step hP (fun _ => id) (fun hevent => absurd hevent hfile) hstep

/-- A key finds the Albums under the key itself, and under the key with the suffix of a Batch. -/
def MatchesExactly (P : Platform) (s : Imports) : Prop :=
  ∀ tags : AlbumTags, tags.Accepted P → ∀ id,
    id ∈ (s.db.matchAlbums (tags.key P)).map AlbumMatch.id ↔
      ∃ row, s.db.albums.lookup id = some row ∧ (row.identityKey = tags.key P ∨
        ∃ batchId, IsUuidText batchId ∧ row.identityKey = tags.key P ++ editionSuffix batchId)

/-- A key finds the Albums that were created from files of the same Album Artists and title. -/
def FindsOwnAlbums (P : Platform) (s : Imports) : Prop :=
  ∀ tags : AlbumTags, tags.Accepted P → ∀ id,
    id ∈ (s.db.matchAlbums (tags.key P)).map AlbumMatch.id ↔
      ∃ row origin, s.db.albums.lookup id = some row ∧ s.origin id = some origin ∧
        tags.SameAlbum P origin

/-- In any library that imports have built the Albums found are those of the tags. -/
theorem Known.findsOwnAlbums (hP : NoNewControls P) (hknown : s.Known P editions) :
    s.FindsOwnAlbums P := by
  intro tags haccepted id
  rw [id_mem_matchAlbums_iff hP haccepted]
  constructor
  · rintro ⟨row, hlookup, hkey⟩
    obtain ⟨origin, horigin, haccepted', hkey'⟩ := hknown.albums id row hlookup
    have hfound : IsKeyOf P (fun _ => True) tags row.identityKey :=
      hkey.imp_right fun ⟨edition, hedition⟩ => ⟨edition, trivial, hedition⟩
    exact ⟨row, origin, hlookup, horigin, hfound.sameAlbum hP haccepted haccepted' hkey'⟩
  · rintro ⟨row, origin, hlookup, horigin, hsame⟩
    obtain ⟨origin', horigin', -, hkey⟩ := hknown.albums id row hlookup
    cases horigin.symm.trans horigin'
    refine ⟨row, hlookup, (hkey.of_sameAlbum hsame).imp_right ?_⟩
    rintro ⟨edition, -, hedition⟩
    exact ⟨edition, hedition⟩

theorem Known.matchesExactly (hP : NoNewControls P) (hknown : s.Known P IsUuidText) :
    s.MatchesExactly P := by
  intro tags haccepted id
  rw [id_mem_matchAlbums_iff hP haccepted]
  constructor
  · rintro ⟨row, hlookup, hkey⟩
    obtain ⟨origin, -, haccepted', hkey'⟩ := hknown.albums id row hlookup
    have hfound : IsKeyOf P (fun _ => True) tags row.identityKey :=
      hkey.imp_right fun ⟨edition, hedition⟩ => ⟨edition, trivial, hedition⟩
    have hsame := hfound.sameAlbum hP haccepted haccepted' hkey'
    exact ⟨row, hlookup, hkey'.of_sameAlbum hsame⟩
  · rintro ⟨row, hlookup, hkey⟩
    refine ⟨row, hlookup, hkey.imp_right ?_⟩
    rintro ⟨batchId, -, hedition⟩
    exact ⟨batchId, hedition⟩

end Known

end Imports

/-- Two accepted files have one key exactly when they name the same Album Artists and title;
a library built by imports finds by a key the Albums of these; and without a file that was
imported on its own as a separate edition they stand under the key, or under the key with
the suffix of a Batch. -/
theorem album_keys_unambiguous (P : Platform) (hP : NoNewControls P) :
    (∀ tags tags' : AlbumTags, tags.Accepted P → tags'.Accepted P →
      (tags.key P = tags'.key P ↔ tags.SameAlbum P tags')) ∧
    (∀ s, Imports.Built P s → s.FindsOwnAlbums P) ∧
    ∀ s, Imports.BuiltByBatches P s → s.MatchesExactly P := by
  refine ⟨fun _ _ => key_eq_iff hP, ?_, ?_⟩
  · intro s hbuilt
    exact (hbuilt.known hP).findsOwnAlbums hP
  · intro s hbuilt
    exact (hbuilt.known hP).matchesExactly hP

/-! ### A file on its own -/

def aloneMetadata : NormalizedMetadata where
  albumIdentityKey := ""
  title := "Song"
  artists := ["Artist"]
  albumArtists := ["Artist"]
  album := "Album"
  trackPosition := ⟨1, 0⟩
  discPosition := ⟨1, 0⟩
  genres := []
  year := 0
  replayGain := ⟨none, none, none, none⟩
  lyrics := ""

def aloneJob : JobRow where
  status := .awaitingConfirmation
  revision := 2
  batchId := none
  batchPosition := 0
  stagedFilePath := some [".staging", ".import-1.upload"]
  contentSha256 := "1"
  trackId := none
  errorCode := ""
  errorField := ""
  errorReason := ""
  outcome := none
  selected := true
  replaceTrackId := none
  importPlan := none
  uploadSizeBytes := 1
  updatedAt := 0

def aloneId : String := "00000000-0000-4000-8000-000000000001"

/-- The file of the Job, as it is committed. -/
def aloneData (separate : Bool) : CommitData where
  identity := ⟨"artist", "album", "track", [], ""⟩
  placement := ⟨[], [], [], false⟩
  inspection := ⟨aloneMetadata, ⟨"", 0, 0, [], ""⟩, ⟨"flac", "flac", "flac", 1, 1, 2, 16, 1⟩, "1"⟩
  albumKey := committedAlbumKey plainPlatform aloneId aloneJob
    (plannedMetadata aloneJob aloneMetadata) separate

/-- A library that knows the Artist. -/
def aloneBefore : Database :=
  { Database.empty with
    artists := Database.empty.artists.insert "artist" ⟨"Artist", "Artist", "Artist"⟩ }

def aloneAfter (separate : Bool) : Database :=
  { aloneBefore with
    albums := aloneBefore.albums.insert "album"
      (albumRow plainPlatform (aloneData separate) "artist") }

def aloneTags : AlbumTags := ⟨["Artist"], "Album"⟩

def aloneImports (separate : Bool) : Imports where
  db := aloneAfter separate
  plans := []
  origin id := if id = "album" ∧ id ∉ aloneBefore.albums then some aloneTags else none

theorem noNewControls_plain : NoNewControls plainPlatform := ⟨fun _ => id, fun _ => id⟩

theorem accepted_aloneTags : aloneTags.Accepted plainPlatform where
  credits := by decide
  artists artist hartist := by
    rw [List.mem_singleton.mp hartist]
    exact ⟨"Artist", by decide +kernel⟩
  album := ⟨"Album", by decide +kernel⟩

/-- The same Artist with a guest. -/
def guestTags : AlbumTags := ⟨["Artist", "Guest"], "Album"⟩

theorem accepted_guestTags : guestTags.Accepted plainPlatform where
  credits := by decide
  artists := by
    simp only [guestTags, List.forall_mem_cons, List.not_mem_nil, false_implies, implies_true]
    exact ⟨⟨"Artist", by decide +kernel⟩, ⟨"Guest", by decide +kernel⟩, trivial⟩
  album := ⟨"Album", by decide +kernel⟩

theorem upsert_alone (separate : Bool) :
    upsertAlbumFor plainPlatform (aloneData separate) [("Artist", "artist")] aloneBefore =
      .ok ((), aloneAfter separate) := by
  have hname : normalizeIdentity plainPlatform "Artist" = "Artist" := by decide +kernel
  simp only [upsertAlbumFor, run_bind_ok, run_get_ok]
  refine ⟨_, _, ⟨rfl, rfl⟩, ?_⟩
  have hnone : aloneBefore.albumIdOf (aloneData separate).albumKey = none := rfl
  simp only [hnone, run_bind_ok, Tx.run_indexed_ok, Tx.run_constraint_ok, run_modify_ok]
  refine ⟨"Artist", _, ⟨rfl, rfl⟩, "artist", _, ⟨?_, rfl⟩, (), _, ⟨?_, rfl⟩, (), _, ⟨?_, rfl⟩, rfl⟩
  · rw [hname]
    rfl
  · rfl
  · decide +kernel

/-- The two steps: the Artist gets known, and the file is imported. -/
theorem steps_alone (separate : Bool) :
    Imports.Step plainPlatform .kept .empty ⟨aloneBefore, [], fun _ => none⟩ ∧
      Imports.Step plainPlatform (.imported separate) ⟨aloneBefore, [], fun _ => none⟩
        (aloneImports separate) := by
  constructor
  · refine .kept fun id row hlookup => ?_
    change (Database.empty.albums).lookup id = some row at hlookup
    rw [Database.empty, AList.lookup_empty] at hlookup
    cases hlookup
  · exact @Imports.Step.imported plainPlatform ⟨aloneBefore, [], fun _ => none⟩
      (aloneAfter separate) (aloneData separate) [("Artist", "artist")] aloneId aloneJob
      aloneMetadata separate rfl accepted_aloneTags (fun _ hplan => by cases hplan)
      (fun _ => ⟨rfl, rfl⟩) rfl (upsert_alone separate)

theorem built_alone : Imports.Built plainPlatform (aloneImports true) :=
  .tail (.tail .refl ⟨_, (steps_alone true).1⟩) ⟨_, (steps_alone true).2⟩

theorem builtByBatches_alone : Imports.BuiltByBatches plainPlatform (aloneImports false) :=
  .tail (.tail .refl ⟨_, by decide, (steps_alone false).1⟩) ⟨_, by decide, (steps_alone false).2⟩

theorem album_keys_unambiguous_alone :
    (aloneTags.key plainPlatform = guestTags.key plainPlatform ↔
      aloneTags.SameAlbum plainPlatform guestTags) ∧
    aloneTags.key plainPlatform ≠ guestTags.key plainPlatform ∧
    (aloneImports true).FindsOwnAlbums plainPlatform ∧
    (aloneImports false).MatchesExactly plainPlatform := by
  obtain ⟨hkeys, hown, hexact⟩ := album_keys_unambiguous plainPlatform noNewControls_plain
  refine ⟨hkeys aloneTags guestTags accepted_aloneTags accepted_guestTags, by decide +kernel, ?_,
    ?_⟩
  · exact hown _ built_alone
  · exact hexact _ builtByBatches_alone

/-- The Album of a separate edition of a file on its own is found, and its key is neither the
one asked for nor that key with the suffix of one edition. -/
theorem separate_file_matched :
    ¬∀ s, Imports.Built plainPlatform s → s.MatchesExactly plainPlatform := by
  intro hall
  have hkey : (aloneData true).albumKey =
      aloneTags.key plainPlatform ++ editionSuffix (aloneId ++ editionSuffix aloneId) :=
    committedAlbumKey_separate rfl rfl rfl
  have hlookup : (aloneImports true).db.albums.lookup "album" =
      some (albumRow plainPlatform (aloneData true) "artist") := AList.lookup_insert _
  have hmatched := (id_mem_matchAlbums_iff noNewControls_plain accepted_aloneTags).mpr
    ⟨_, hlookup, .inr ⟨_, hkey⟩⟩
  obtain ⟨row, hrow, hsuffix⟩ :=
    (hall _ built_alone aloneTags accepted_aloneTags "album").mp hmatched
  cases hlookup.symm.trans hrow
  change (aloneData true).albumKey = _ ∨ ∃ batchId, _ ∧ (aloneData true).albumKey = _ at hsuffix
  rw [hkey] at hsuffix
  rcases hsuffix with hnone | ⟨batchId, hbatch, hedition⟩
  · have hlength := congrArg String.length hnone
    rw [String.length_append] at hlength
    have hlong : (editionSuffix (aloneId ++ editionSuffix aloneId)).length = 120 := by
      decide +kernel
    omega
  · -- two ids and a mark are longer than one id
    have hlength := congrArg String.length hedition
    rw [String.length_append, String.length_append] at hlength
    have hlong : (editionSuffix (aloneId ++ editionSuffix aloneId)).length = 120 := by
      decide +kernel
    have hshort : (editionSuffix batchId).length = 60 := by
      rw [editionSuffix, String.length_append, hbatch.length]
      decide +kernel
    omega

end Harmony.ManagedImport
