/-
# A Track Replacement that is undone restores the previous files

Beside the moves of files, placing may create a file for the artwork. The undo
removes it when its creation is journaled, so the undo restores the files unless the
course of events leaves a file that the journal does not know of: `CutOff` says when
it does.
-/

import Harmony.ManagedImport.Adoption
import Harmony.ManagedImport.Journals
import Harmony.ManagedImport.SwapStages

namespace Harmony.ManagedImport

open Crash Crash.Program FileTree

/-! ### Creating the artwork -/

/-- The contents with a file under a path, or as they are. -/
def withFile (path : RelativePath) (e : Contents) : Option Bytes → Contents
  | none => e
  | some content => Function.update e path (some (.file content))

/-- The journal holds the plan, and whether it knows of a created file. -/
def Journaled (placement : ReplacementPlacement) (journalId : String) (known : Bool)
    (s : Server) : Prop :=
  ∃ row, s.db.replacementJournals.lookup journalId = some row ∧ row.phase = .prepared ∧
    replacementPlacementFromJournal row = { placement with artworkCreated := known }

/-- The process dies between the creation of the artwork file and its journaling, or
the journaling fails and the file is not removed again. -/
def CutCreation (fate : Step → Fate) : Prop :=
  fate .createArtwork = .done ∧ (fate .markArtworkCreated = .dies 0 ∨
    fate .markArtworkCreated = .fails 0 ∧ fate .removeNewArtwork ≠ .done)

/-- What an attempt to journal the creation leaves of the course of events. -/
def MarkLeft {α : Type} (fate : Step → Fate) (known : Bool) : Exit Error α → Prop
  | .returned _ => known = true ∧ fate .markArtworkCreated ≠ .fails 0 ∧
      fate .markArtworkCreated ≠ .dies 0
  | .failed _ => known = true ∧ fate .markArtworkCreated ≠ .fails 0 ∧
      fate .markArtworkCreated ≠ .dies 0 ∨ known = false ∧ fate .markArtworkCreated = .fails 0
  | .died => known = true ∧ fate .markArtworkCreated ≠ .fails 0 ∧
      fate .markArtworkCreated ≠ .dies 0 ∨ known = false ∧ fate .markArtworkCreated = .dies 0

section Create

variable (P : Platform) {placement : ReplacementPlacement} {journalId : String} {s : Server}
  {fate : Step → Fate} {path : RelativePath} {c : Contents} {allowed : Step → Fate → Prop}
  {expected : String}

/-- The callback that journals the creation. -/
def journalArtworkCreated (journalId : String) : Act Unit :=
  transaction .markArtworkCreated (Database.markReplacementArtworkCreated journalId)

theorem journalArtworkCreated_leaves (h : Journaled placement journalId false s) :
    Ensures (Follows fate) (journalArtworkCreated journalId) (fun exit t =>
      t.files = s.files ∧ ∃ known, Journaled placement journalId known t ∧
        MarkLeft fate known exit) s := by
  obtain ⟨row, hrow, hphase, hplacement⟩ := h
  let journals := s.db.replacementJournals.modify journalId fun row =>
    { row with isArtworkCreated := true }
  let db := { s.db with replacementJournals := journals }
  have hrun : Database.markReplacementArtworkCreated journalId s.db = .ok ((), db) := by
    simp only [Database.markReplacementArtworkCreated, Database.updateReplacementJournal,
      Transaction.run_bind_ok, Transaction.run_get_ok, Tx.run_requireOne_ok,
      Transaction.run_modify_ok]
    exact ⟨_, _, ⟨rfl, rfl⟩, (), s.db, ⟨by simp [hrow, hphase], rfl⟩, rfl⟩
  have hknown : Journaled placement journalId true { s with db := db } := by
    refine ⟨{ row with isArtworkCreated := true }, ?_, hphase, ?_⟩
    · show db.replacementJournals.lookup journalId = _
      simp [db, journals, hrow]
    · have hpaths := congrArg (fun p : ReplacementPlacement => { p with artworkCreated := true })
        hplacement
      exact hpaths
  have hunknown : Journaled placement journalId false s := ⟨row, hrow, hphase, hplacement⟩
  refine .perform ?_ ?_ ?_ ?_
  · intro hfate a t ht
    obtain rfl : _ = t := by simpa [Effect.acknowledged, hrun] using ht
    have hdone : fate .markArtworkCreated = .done := hfate.symm
    exact ⟨rfl, true, hknown, rfl, by simp [hdone], by simp [hdone]⟩
  · intro _ err herr
    simp [Effect.acknowledged, hrun] at herr
  · intro n hfate
    have hfails : fate .markArtworkCreated = .fails n := hfate.symm
    cases n with
    | zero => exact ⟨rfl, false, hunknown, .inr ⟨rfl, hfails⟩⟩
    | succ n =>
      refine ⟨by simp [Effect.acknowledged, hrun], true, ?_, .inl ⟨rfl, by simp [hfails],
        by simp [hfails]⟩⟩
      simpa [Effect.acknowledged, hrun] using hknown
  · intro n hfate
    have hdies : fate .markArtworkCreated = .dies n := hfate.symm
    cases n with
    | zero => exact ⟨rfl, false, hunknown, .inr ⟨rfl, hdies⟩⟩
    | succ n =>
      refine ⟨by simp [Effect.acknowledged, hrun], true, ?_, .inl ⟨rfl, by simp [hdies],
        by simp [hdies]⟩⟩
      simpa [Effect.acknowledged, hrun] using hknown

/-- Writing only changes the content of the file. -/
theorem writeAll_leaves {l : Step} {data content : Bytes}
    (h : s.files.entry = withFile path c (some content)) :
    Ensures allowed (writeAll l path data) (fun _ t => t.db = s.db ∧
      ∃ content, t.files.entry = withFile path c (some content)) s := by
  have hwritten : ∀ bytes files, s.files.write path bytes = .ok files →
      files.entry = withFile path c (some bytes) := by
    intro bytes files hfiles
    rw [write_eq_ok hfiles, h]
    funext p
    simp only [withFile, Function.update_apply]
    split_ifs <;> rfl
  refine .perform ?_ ?_ ?_ ?_
  · intro _ a t hrun
    cases hfiles : s.files.write path data with
    | error e => simp [hfiles] at hrun
    | ok files =>
      obtain rfl : _ = t := by simpa [hfiles] using hrun
      exact ⟨rfl, data, hwritten data files hfiles⟩
  · exact fun _ err _ => ⟨rfl, content, h⟩
  -- what is written when the write fails or the process dies
  all_goals
    intro n _
    cases hfiles : s.files.write path (data.take n) with
    | ok files =>
      simp only [hfiles]
      exact ⟨trivial, _, hwritten _ files hfiles⟩
    | error e =>
      simp only [hfiles]
      exact ⟨trivial, content, h⟩

/-- Looking at the files changes nothing. -/
theorem lookAt_leaves {α : Type} {l : Step} {operation : String}
    {f : FileTree String Bytes → Except Error α} :
    Ensures allowed (lookAt l operation f) (fun _ t => t = s) s :=
  ensures_lookAt (fun _ _ => rfl) (fun _ => rfl) rfl

theorem fillArtwork_leaves {data : Bytes} (hs : s.files.entry = withFile path c (some []))
    (h : Journaled placement journalId false s) :
    Ensures (Follows fate) (fillArtwork P path data expected (journalArtworkCreated journalId))
      (fun exit t => (∃ content, t.files.entry = withFile path c (some content)) ∧
        ∃ known, Journaled placement journalId known t ∧ MarkLeft fate known exit) s := by
  refine .seq (journalArtworkCreated_leaves h) ?_ ?_ ?_
  · rintro _ t ⟨hfiles, known, hknown, hmark⟩
    have ht : t.files.entry = withFile path c (some []) := by rw [hfiles, hs]
    refine .seq (writeAll_leaves ht) ?_ ?_ ?_
    · rintro _ u ⟨hdb, content, hu⟩
      refine lookAt_leaves.mono ?_
      rintro exit v rfl
      have hknown' : Journaled placement journalId known v := by rwa [Journaled, hdb]
      refine ⟨⟨content, hu⟩, known, hknown', ?_⟩
      cases exit with
      | returned _ => exact hmark
      | failed _ => exact .inl hmark
      | died => exact .inl hmark
    · rintro _ u ⟨hdb, hu⟩
      exact ⟨hu, known, by rwa [Journaled, hdb], .inl hmark⟩
    · rintro u ⟨hdb, hu⟩
      exact ⟨hu, known, by rwa [Journaled, hdb], .inl hmark⟩
  · rintro _ t ⟨hfiles, known, hknown, hmark⟩
    exact ⟨⟨[], by rw [hfiles, hs]⟩, known, hknown, hmark⟩
  · rintro t ⟨hfiles, known, hknown, hmark⟩
    exact ⟨⟨[], by rw [hfiles, hs]⟩, known, hknown, hmark⟩

/-- What an attempt to create a file for the artwork leaves. -/
structure ArtworkLeft (placement : ReplacementPlacement) (journalId : String)
    (path : RelativePath) (c : Contents) (fate : Step → Fate) (t : Server) (x : Option Bytes)
    (known : Bool) : Prop where
  files : t.files.entry = withFile path c x
  journal : Journaled placement journalId known t
  free : x ≠ none ∨ known = true → c path = none
  cut : x ≠ none ∧ known = false ↔ c path = none ∧ CutCreation fate

theorem verifyMatchingArtwork_leaves :
    Ensures allowed (verifyMatchingArtwork P path expected) (fun _ t => t = s) s := by
  refine .handle lookAt_leaves ?_ ?_ fun _ ht => ht
  · rintro _ t rfl
    exact .pure rfl
  · rintro _ t rfl
    exact .fail rfl

/-- Creating the artwork leaves a file that the journal does not know of only when the
creation is cut off. -/
theorem writeRootedArtwork_leaves {data : Bytes} (hs : s.files.entry = c)
    (hparent : s.files.isDirectory path.dropLast = true) (hpath : path ≠ [])
    (h : Journaled placement journalId false s) :
    Ensures (Follows fate)
      (writeRootedArtwork P path data expected (journalArtworkCreated journalId))
      (fun _ t => ∃ x known, ArtworkLeft placement journalId path c fate t x known) s := by
  have hnothing : fate .createArtwork ≠ .done ∨ c path ≠ none →
      ArtworkLeft placement journalId path c fate s none false := by
    intro hne
    refine ⟨hs, h, by simp, ?_⟩
    simp only [ne_eq, not_true_eq_false, false_and, false_iff, not_and]
    rintro hfree ⟨hdone, -⟩
    exact hne.elim (fun hne => hne hdone) fun hne => hne hfree
  have hcreate : Ensures (Follows fate) (createExclusively path) (fun exit t =>
      match exit with
      | .returned true => fate .createArtwork = .done ∧ c path = none ∧ t.db = s.db ∧
          t.files.entry = withFile path c (some [])
      | .returned false => c path ≠ none ∧ t = s
      | _ => fate .createArtwork ≠ .done ∧ t = s) s := by
    refine .perform ?_ ?_ ?_ ?_
    · intro hfate a t hrun
      cases hfiles : s.files.createNew path [] with
      | ok files =>
        obtain ⟨rfl, rfl⟩ : true = a ∧ _ = t := by simpa [Effect.atomic, hfiles] using hrun
        obtain ⟨hfree, hentry⟩ := createNew_eq_ok hfiles
        refine ⟨hfate.symm, hs ▸ hfree, rfl, ?_⟩
        show files.entry = _
        rw [hentry, hs]
        rfl
      | error e =>
        cases e with
        | alreadyExists =>
          obtain ⟨rfl, rfl⟩ : false = a ∧ s = t := by simpa [Effect.atomic, hfiles] using hrun
          exact ⟨hs ▸ createNew_alreadyExists hfiles, rfl⟩
        | notFound => simp [Effect.atomic, hfiles] at hrun
        | notADirectory => simp [Effect.atomic, hfiles] at hrun
        | isADirectory => simp [Effect.atomic, hfiles] at hrun
        | directoryNotEmpty => simp [Effect.atomic, hfiles] at hrun
    · intro _ err hrun
      cases hentry : s.files.entry path with
      | some e => simp [Effect.atomic, createNew, hentry] at hrun
      | none =>
        obtain ⟨files, hfiles⟩ : ∃ files, s.files.createNew path [] = .ok files :=
          createNew_isOk hentry hparent hpath
        simp [Effect.atomic, hfiles] at hrun
    · intro n hfate
      have hfails : fate .createArtwork = .fails n := hfate.symm
      exact ⟨by simp [hfails], rfl⟩
    · intro n hfate
      have hdies : fate .createArtwork = .dies n := hfate.symm
      exact ⟨by simp [hdies], rfl⟩
  refine .seq hcreate ?_ ?_ ?_
  · rintro (_ | _) t ht
    · obtain ⟨hsome, rfl⟩ := ht
      refine .seq (verifyMatchingArtwork_leaves P) ?_ ?_ ?_
      · rintro _ u rfl
        exact .pure ⟨none, false, hnothing (.inr hsome)⟩
      · rintro _ u rfl
        exact ⟨none, false, hnothing (.inr hsome)⟩
      · rintro u rfl
        exact ⟨none, false, hnothing (.inr hsome)⟩
    · obtain ⟨hdone, hfree, hdb, ht⟩ := ht
      -- The file is created: everything turns on its journaling.
      have hknown : ∀ u x, u.files.entry = withFile path c x →
        Journaled placement journalId true u →
          fate .markArtworkCreated ≠ .fails 0 → fate .markArtworkCreated ≠ .dies 0 →
          ArtworkLeft placement journalId path c fate u x true := by
        intro u x hu hjournal hfails hdies
        refine ⟨hu, hjournal, fun _ => hfree, ?_⟩
        simp [CutCreation, hfails, hdies]
      have hfill : Ensures (Follows fate)
          (fillArtwork P path data expected (journalArtworkCreated journalId)) _ t :=
        fillArtwork_leaves P ht (by rwa [Journaled, hdb])
      refine .handle hfill ?_ ?_ ?_
      · rintro _ u ⟨⟨content, hu⟩, known, hjournal, rfl, hfails, hdies⟩
        exact .pure ⟨some content, true, hknown u _ hu hjournal hfails hdies⟩
      · rintro e u ⟨⟨content, hu⟩, known, hjournal, hmark⟩
        have hremove : Ensures (Follows fate)
            (removeRootedFile .removeNewArtwork path "Canonical Album Artwork") (fun _ v =>
              v.db = u.db ∧ (fate .removeNewArtwork = .done ∧ v.files.entry = withFile path c none ∨
                fate .removeNewArtwork ≠ .done ∧ v.files.entry = withFile path c (some content)))
            u := by
          have hfile : u.files.entry path = some (.file content) := by rw [hu]; simp [withFile]
          obtain ⟨files, hfiles⟩ := discard_isOk hfile
          have hgone : files.entry = withFile path c none := by
            rw [(discard_eq_ok hfiles).2, hu]
            funext p
            simp only [withFile, Function.update_apply]
            split_ifs with heq
            · rw [heq, hfree]
            · rfl
          refine .perform ?_ ?_ ?_ ?_
          · intro hfate a v hrun
            obtain rfl : _ = v := by simpa [Effect.atomic, hfiles] using hrun
            exact ⟨rfl, .inl ⟨hfate.symm, hgone⟩⟩
          · intro _ err hrun
            simp [Effect.atomic, hfiles] at hrun
          · intro n hfate
            have hfails : fate .removeNewArtwork = .fails n := hfate.symm
            exact ⟨rfl, .inr ⟨by simp [hfails], hu⟩⟩
          · intro n hfate
            have hdies : fate .removeNewArtwork = .dies n := hfate.symm
            exact ⟨rfl, .inr ⟨by simp [hdies], hu⟩⟩
        have hleft : ∀ v, v.db = u.db ∧
            (fate .removeNewArtwork = .done ∧ v.files.entry = withFile path c none ∨
              fate .removeNewArtwork ≠ .done ∧ v.files.entry = withFile path c (some content)) →
            ∃ x known, ArtworkLeft placement journalId path c fate v x known := by
          rintro v ⟨hdbv, hv⟩
          have hjournal' : Journaled placement journalId known v := by rwa [Journaled, hdbv]
          rcases hmark with ⟨rfl, hfails, hdies⟩ | ⟨rfl, hfails⟩
          · rcases hv with ⟨-, hv⟩ | ⟨-, hv⟩
            · exact ⟨_, true, hknown v _ hv hjournal' hfails hdies⟩
            · exact ⟨_, true, hknown v _ hv hjournal' hfails hdies⟩
          · rcases hv with ⟨hremoved, hv⟩ | ⟨hremoved, hv⟩
            · refine ⟨none, false, hv, hjournal', by simp, ?_⟩
              simp [CutCreation, hfails, hremoved]
            · refine ⟨some content, false, hv, hjournal', fun _ => hfree, ?_⟩
              simp [CutCreation, hfails, hremoved, hdone, hfree]
        refine .handleFailure hremove ?_ ?_ ?_
        · exact fun _ v hv => .fail (hleft v hv)
        · exact fun _ v hv => .fail (hleft v hv)
        · exact hleft
      · rintro u ⟨⟨content, hu⟩, known, hjournal, hmark⟩
        rcases hmark with ⟨rfl, hfails, hdies⟩ | ⟨rfl, hdies⟩
        · exact ⟨some content, true, hknown u _ hu hjournal hfails hdies⟩
        · refine ⟨some content, false, hu, hjournal, fun _ => hfree, ?_⟩
          simp [CutCreation, hdies, hdone, hfree]
  · rintro _ t ⟨hne, rfl⟩
    exact ⟨none, false, hnothing (.inl hne)⟩
  · rintro t ⟨hne, rfl⟩
    exact ⟨none, false, hnothing (.inl hne)⟩

end Create

/-! ### Placing -/

/-- Placing creates a file for the artwork in two of the modes. -/
def CreatesArtwork (placement : ReplacementPlacement) : Prop :=
  placement.artworkMode = .create ∨ placement.artworkMode = .replace

/-- The course of events leaves an artwork file that the journal does not know of. -/
def CutOff (placement : ReplacementPlacement) (s : Server) (fate : Step → Fate) : Prop :=
  (CreatesArtwork placement ∧ s.files.entry (createdArtwork placement) = none) ∧
    (∃ upload, s.files.entry placement.staged = some (.file upload)) ∧
    fate .ensureDirectory = .done ∧ fate .placeAudio = .done ∧ CutCreation fate

section Place

variable {placement : ReplacementPlacement} {directory : RelativePath}

theorem ReplacementPlan.kindOf_createdArtwork (plan : ReplacementPlan placement directory)
    (h : CreatesArtwork placement) :
    kindOf (createdArtwork placement) = .pendingArtwork ∨
      kindOf (createdArtwork placement) = .cover := by
  unfold createdArtwork
  rcases h with hmode | hmode
  · exact .inr (by simpa [hmode] using (plan.artwork (by simp [hmode])).1)
  · exact .inl (by simpa [hmode] using (plan.replace hmode).1)

theorem ReplacementPlan.createdArtwork_parent (plan : ReplacementPlan placement directory)
    (h : CreatesArtwork placement) : (createdArtwork placement).dropLast = directory := by
  unfold createdArtwork
  rcases h with hmode | hmode
  · simpa [hmode] using (plan.artwork (by simp [hmode])).2
  · simpa [hmode] using (plan.replace hmode).2.2.2.1

/-- What lies in a directory of an Album is not on the way to one. -/
theorem ReplacementPlan.not_prefix (plan : ReplacementPlan placement directory)
    {p : RelativePath} (hp : p.dropLast.length = 3) : ¬p <+: placement.audio.dropLast := by
  intro hpre
  have hlength := hpre.length_le
  rw [plan.audio_parent, plan.album.length] at hlength
  rw [List.length_dropLast] at hp
  omega

theorem Layout.grows {t t' : FileTree String Bytes} (h : Layout placement t.entry)
    (plan : ReplacementPlan placement directory)
    (hgrows : Grows placement.audio.dropLast t t') : Layout placement t'.entry := by
  have hstay : ∀ p, p.dropLast.length = 3 → t'.entry p = t.entry p :=
    fun p hp => hgrows.entry_of_not_prefix (plan.not_prefix hp)
  have halbum := plan.album.length
  refine ⟨?_, ?_, ?_, ?_, ?_⟩
  · intro p content hp hentry
    rw [← file_eq_some, hgrows.file, file_eq_some] at hentry
    exact h.clear p content hp hentry
  · rw [hstay _ (by rw [plan.retiredAudio_parent, List.length_dropLast,
      plan.previousAudio_length]), h.retiredAudio]
  · rw [hstay _ (by rw [plan.pendingAudio_parent, halbum]), h.pendingAudio]
  · exact h.audio.imp_right fun hfree => by
      rw [hstay _ (by rw [plan.audio_parent, halbum]), hfree]
  · intro hmode
    obtain ⟨-, -, -, -, hretired, -⟩ := plan.replace hmode
    obtain ⟨hfree, hcanonical⟩ := h.artwork hmode
    refine ⟨by rw [hstay _ (by rw [hretired, halbum]), hfree], hcanonical.imp_right fun hnone => ?_⟩
    rw [hstay _ (by rw [(plan.artwork (by simp [hmode])).2, halbum]), hnone]

theorem Layout.withFile {e : Contents} {x : Option Bytes} (h : Layout placement e)
    (plan : ReplacementPlan placement directory) (hx : x ≠ none → CreatesArtwork placement) :
    Layout placement (withFile (createdArtwork placement) e x) := by
  cases x with
  | none => exact h
  | some content =>
    have hcreates := hx (by simp)
    have hkind := plan.kindOf_createdArtwork hcreates
    have hstay : ∀ p, kindOf p ≠ .pendingArtwork → kindOf p ≠ .cover →
        ManagedImport.withFile (createdArtwork placement) e (some content) p = e p := by
      intro p hpending hcover
      refine Function.update_of_ne ?_ _ _
      rintro rfl
      exact hkind.elim hpending hcover
    refine ⟨?_, ?_, ?_, ?_, ?_⟩
    · intro p bytes hp
      have hne : p ≠ createdArtwork placement := by
        rintro rfl
        refine plan.not_prefix ?_ hp
        rw [plan.createdArtwork_parent hcreates, plan.album.length]
      rw [ManagedImport.withFile, Function.update_of_ne hne]
      exact h.clear p bytes hp
    · rw [hstay _ (by simp [plan.retiredAudio]) (by simp [plan.retiredAudio]), h.retiredAudio]
    · rw [hstay _ (by simp [plan.pendingAudio]) (by simp [plan.pendingAudio]), h.pendingAudio]
    · exact h.audio.imp_right fun hfree => by
        rw [hstay _ (by simp [plan.audio]) (by simp [plan.audio]), hfree]
    · intro hmode
      obtain ⟨hpending, hretired, -⟩ := plan.replace hmode
      obtain ⟨hfree, hcanonical⟩ := h.artwork hmode
      refine ⟨by rw [hstay _ (by simp [hretired]) (by simp [hretired]), hfree],
        hcanonical.imp_right fun hnone => ?_⟩
      have hne : placement.artwork ≠ createdArtwork placement := by
        have hcover := (plan.artwork (by simp [hmode])).1
        apply ne_of_kindOf
        simp [createdArtwork, hmode, hcover, hpending]
      rw [ManagedImport.withFile, Function.update_of_ne hne, hnone]

/-- What placing leaves: directories on the way, the upload staged or pending, and
perhaps a file for the artwork. -/
structure PlaceLeft (placement : ReplacementPlacement) (journalId : String) (s : Server)
    (fate : Step → Fate) (base : FileTree String Bytes) (placed : Bool) (x : Option Bytes)
    (known : Bool) (t : Server) : Prop where
  grows : Grows placement.audio.dropLast s.files base
  files : t.files.entry =
    placedAt placement (withFile (createdArtwork placement) base.entry x) placed
  journal : Journaled placement journalId known t
  staged : placed = true → ∃ upload, base.entry placement.staged = some (.file upload)
  created : x ≠ none ∨ known = true →
    CreatesArtwork placement ∧ base.entry (createdArtwork placement) = none
  cut : x ≠ none ∧ known = false ↔ CutOff placement s fate

section Run

variable (P : Platform) {inspection : MediaInspection} {identity : CommitIdentity}
  {journalId : String} {s t : Server} {fate : Step → Fate} {base : FileTree String Bytes}

theorem placeReplacementArtwork_leaves (plan : ReplacementPlan placement directory)
    (hparent : t.files.isDirectory directory = true)
    (h : Journaled placement journalId false t) :
    Ensures (Follows fate) (placeReplacementArtwork P inspection identity placement
        (journalArtworkCreated journalId)) (fun _ u => ∃ x known,
      u.files.entry = withFile (createdArtwork placement) t.files.entry x ∧
      Journaled placement journalId known u ∧
      (x ≠ none ∨ known = true → CreatesArtwork placement ∧
        t.files.entry (createdArtwork placement) = none) ∧
      (x ≠ none ∧ known = false ↔ (CreatesArtwork placement ∧
        t.files.entry (createdArtwork placement) = none) ∧ CutCreation fate)) t := by
  have hnothing : ¬CreatesArtwork placement → ∃ x known,
      t.files.entry = withFile (createdArtwork placement) t.files.entry x ∧
      Journaled placement journalId known t ∧
      (x ≠ none ∨ known = true → CreatesArtwork placement ∧
        t.files.entry (createdArtwork placement) = none) ∧
      (x ≠ none ∧ known = false ↔ (CreatesArtwork placement ∧
        t.files.entry (createdArtwork placement) = none) ∧ CutCreation fate) :=
    fun hnot => ⟨none, false, rfl, h, by simp, by simp [hnot]⟩
  have hwrite : CreatesArtwork placement → Ensures (Follows fate)
      (writeRootedArtwork P (createdArtwork placement) inspection.albumArtwork.data
        inspection.albumArtwork.sha256 (journalArtworkCreated journalId)) (fun _ u => ∃ x known,
      u.files.entry = withFile (createdArtwork placement) t.files.entry x ∧
      Journaled placement journalId known u ∧
      (x ≠ none ∨ known = true → CreatesArtwork placement ∧
        t.files.entry (createdArtwork placement) = none) ∧
      (x ≠ none ∧ known = false ↔ (CreatesArtwork placement ∧
        t.files.entry (createdArtwork placement) = none) ∧ CutCreation fate)) t := by
    intro hcreates
    have hpath : createdArtwork placement ≠ [] := by
      rcases plan.kindOf_createdArtwork hcreates with hkind | hkind
      · exact ne_nil_of_kindOf (by simp [hkind])
      · exact ne_nil_of_kindOf (by simp [hkind])
    refine (writeRootedArtwork_leaves P rfl ?_ hpath h).mono ?_
    · rw [plan.createdArtwork_parent hcreates, hparent]
    · rintro exit u ⟨x, known, hleft⟩
      exact ⟨x, known, hleft.files, hleft.journal, fun hx => ⟨hcreates, hleft.free hx⟩, by
        simpa [hcreates] using hleft.cut⟩
  unfold placeReplacementArtwork
  cases hmode : placement.artworkMode with
  | none => exact .pure (hnothing (by simp [CreatesArtwork, hmode]))
  | existing =>
    have hnot := hnothing (by simp [CreatesArtwork, hmode])
    refine .handle lookAt_leaves ?_ ?_ ?_
    · rintro _ u rfl
      exact .pure hnot
    · rintro _ u rfl
      exact .fail hnot
    · rintro u rfl
      exact hnot
  | create => simpa [createdArtwork, hmode] using hwrite (.inl hmode)
  | replace => simpa [createdArtwork, hmode] using hwrite (.inr hmode)

/-- Whatever becomes of placing, it leaves the upload staged or pending, and a file
that the journal does not know of only when it is cut off. -/
theorem placeReplacement_leaves (plan : ReplacementPlan placement directory)
    (hlayout : Layout placement s.files.entry) (h : Journaled placement journalId false s) :
    Ensures (Follows fate) (placeReplacement P inspection identity placement
        (journalArtworkCreated journalId)) (fun exit t => ∃ base placed x known,
      PlaceLeft placement journalId s fate base placed x known t ∧
        ∀ returned, exit = .returned returned → placed = true ∧ ∃ created,
          returned = { placement with artworkCreated := created }) s := by
  -- Before the upload is moved.
  have hstart : ∀ (t : Server) (base : FileTree String Bytes),
      Grows placement.audio.dropLast s.files base → t.db = s.db → t.files.entry = base.entry →
      ¬CutOff placement s fate →
      PlaceLeft placement journalId s fate base false none false t := by
    intro t base hgrows hdb hfiles hcut
    exact ⟨hgrows, hfiles, by rwa [Journaled, hdb], by simp, by simp, by simp [hcut]⟩
  have hdirectories : Ensures (Follows fate)
      (ensureDirectory .ensureDirectory placement.audio.dropLast) (fun exit t =>
        t.db = s.db ∧ Grows placement.audio.dropLast s.files t.files ∧
        (match exit with
          | .returned _ => fate .ensureDirectory = .done ∧ t.files.isDirectory directory = true
          | _ => fate .ensureDirectory ≠ .done)) s := by
    refine .perform ?_ ?_ ?_ ?_
    · intro hfate a t hrun
      obtain ⟨files, hfiles, hdir⟩ : ∃ files,
          s.files.makeDirectories placement.audio.dropLast = .ok files ∧
          files.isDirectory placement.audio.dropLast = true := makeDirectories_isOk hlayout.clear
      obtain rfl : _ = t := by simpa [hfiles] using hrun
      exact ⟨rfl, makeDirectories_grows hfiles, hfate.symm, plan.audio_parent ▸ hdir⟩
    · intro _ err hrun
      obtain ⟨files, hfiles, -⟩ : ∃ files,
          s.files.makeDirectories placement.audio.dropLast = .ok files ∧
          files.isDirectory placement.audio.dropLast = true := makeDirectories_isOk hlayout.clear
      simp [hfiles] at hrun
    · intro n hfate
      have hfails : fate .ensureDirectory = .fails n := hfate.symm
      exact ⟨rfl, makeSomeDirectories_grows n, by simp [hfails]⟩
    · intro n hfate
      have hdies : fate .ensureDirectory = .dies n := hfate.symm
      exact ⟨rfl, makeSomeDirectories_grows n, by simp [hdies]⟩
  refine .seq hdirectories ?_ ?_ ?_
  rotate_left
  · rintro e t ⟨hdb, hgrows, hfate⟩
    exact ⟨t.files, false, none, false, hstart t t.files hgrows hdb rfl fun hcut =>
      hfate hcut.2.2.1, by simp⟩
  · rintro t ⟨hdb, hgrows, hfate⟩
    exact ⟨t.files, false, none, false, hstart t t.files hgrows hdb rfl fun hcut =>
      hfate hcut.2.2.1, by simp⟩
  rintro _ t ⟨hdb, hgrows, hensured, hdir⟩
  have hlayoutT := hlayout.grows plan hgrows
  have hne : placement.staged ≠ placement.pendingAudio :=
    ne_of_kindOf (by simp [plan.kindOf_staged, plan.pendingAudio])
  have hplaceAudio : Ensures (Follows fate)
      (rename .placeAudio "place replacement Managed Track on pending path" placement.staged
        placement.pendingAudio) (fun exit u => u.db = s.db ∧
        (match exit with
          | .returned _ => fate .placeAudio = .done ∧
              u.files.entry = placedAt placement t.files.entry true ∧
              ∃ upload, t.files.entry placement.staged = some (.file upload)
          | _ => u.files.entry = t.files.entry ∧ ¬CutOff placement s fate)) t := by
    refine .perform ?_ ?_ ?_ ?_
    · intro hfate a u hrun
      cases hfiles : t.files.rename placement.staged placement.pendingAudio with
      | error e => simp [Effect.atomic, hfiles] at hrun
      | ok files =>
        obtain rfl : _ = u := by simpa [Effect.atomic, hfiles] using hrun
        obtain ⟨hupload, -, hmoved⟩ := rename_eq_ok hfiles
        exact ⟨hdb, hfate.symm, hmoved, hupload⟩
    · intro _ err hrun
      refine ⟨hdb, rfl, ?_⟩
      rintro ⟨-, ⟨upload, hupload⟩, -⟩
      have hnot : t.files.isDirectory placement.pendingAudio = false := by
        rw [Bool.eq_false_iff, Ne, isDirectory_iff]
        have hnil := ne_nil_of_kindOf (p := placement.pendingAudio) (by simp [plan.pendingAudio])
        simp [hnil, hlayoutT.pendingAudio]
      obtain ⟨files, hfiles⟩ := rename_isOk (hgrows.entry_of_some hupload)
        (plan.pendingAudio_parent ▸ hdir) hnot
      simp [Effect.atomic, hfiles] at hrun
    · intro n hfate
      have hfails : fate .placeAudio = .fails n := hfate.symm
      exact ⟨hdb, rfl, fun hcut => absurd hcut.2.2.2.1 (by simp [hfails])⟩
    · intro n hfate
      have hdies : fate .placeAudio = .dies n := hfate.symm
      exact ⟨hdb, rfl, fun hcut => absurd hcut.2.2.2.1 (by simp [hdies])⟩
  refine .seq hplaceAudio ?_ ?_ ?_
  rotate_left
  · rintro e u ⟨hdbu, hu, hcut⟩
    exact ⟨t.files, false, none, false, hstart u t.files hgrows hdbu hu hcut, by simp⟩
  · rintro u ⟨hdbu, hu, hcut⟩
    exact ⟨t.files, false, none, false, hstart u t.files hgrows hdbu hu hcut, by simp⟩
  rintro _ u ⟨hdbu, hmoved, hu, hupload⟩
  -- The directories and the path of the artwork are as before the move.
  have hparent : u.files.isDirectory directory = true := by
    rw [isDirectory_iff] at hdir ⊢
    refine hdir.imp_right fun hentry => ?_
    rw [hu]
    refine (moved_of_ne ?_ ?_).trans hentry
    · rintro rfl
      obtain ⟨upload, hfile⟩ := hupload
      simp [hfile] at hentry
    · rintro rfl
      simp [hlayoutT.pendingAudio] at hentry
  have hartwork : CreatesArtwork placement →
      u.files.entry (createdArtwork placement) = t.files.entry (createdArtwork placement) := by
    intro hcreates
    rw [hu]
    rcases plan.kindOf_createdArtwork hcreates with hkind | hkind
    · exact moved_of_ne (ne_of_kindOf (by simp [hkind, plan.kindOf_staged]))
        (ne_of_kindOf (by simp [hkind, plan.pendingAudio]))
    · exact moved_of_ne (ne_of_kindOf (by simp [hkind, plan.kindOf_staged]))
        (ne_of_kindOf (by simp [hkind, plan.pendingAudio]))
  have hinitial : CreatesArtwork placement →
      t.files.entry (createdArtwork placement) = s.files.entry (createdArtwork placement) := by
    intro hcreates
    refine hgrows.entry_of_not_prefix (plan.not_prefix ?_)
    rw [plan.createdArtwork_parent hcreates, plan.album.length]
  have huploadS : ∃ upload, s.files.entry placement.staged = some (.file upload) := by
    obtain ⟨upload, hfile⟩ := hupload
    rw [← file_eq_some, hgrows.file, file_eq_some] at hfile
    exact ⟨upload, hfile⟩
  have hleft : ∀ v x known,
      v.files.entry = withFile (createdArtwork placement) u.files.entry x →
      Journaled placement journalId known v →
      (x ≠ none ∨ known = true → CreatesArtwork placement ∧
        u.files.entry (createdArtwork placement) = none) →
      (x ≠ none ∧ known = false ↔ (CreatesArtwork placement ∧
        u.files.entry (createdArtwork placement) = none) ∧ CutCreation fate) →
      PlaceLeft placement journalId s fate t.files true x known v := by
    intro v x known hv hjournal hcreated hcut
    refine ⟨hgrows, ?_, hjournal, fun _ => hupload, ?_, hcut.trans ?_⟩
    · rw [hv, hu]
      cases x with
      | none => rfl
      | some content =>
        obtain ⟨hcreates, -⟩ := hcreated (.inl (by simp))
        refine (moved_update ?_ ?_).symm
        · rcases plan.kindOf_createdArtwork hcreates with hkind | hkind
          · exact ne_of_kindOf (by simp [hkind, plan.kindOf_staged])
          · exact ne_of_kindOf (by simp [hkind, plan.kindOf_staged])
        · rcases plan.kindOf_createdArtwork hcreates with hkind | hkind
          · exact ne_of_kindOf (by simp [hkind, plan.pendingAudio])
          · exact ne_of_kindOf (by simp [hkind, plan.pendingAudio])
    · intro hx
      obtain ⟨hcreates, hfree⟩ := hcreated hx
      exact ⟨hcreates, (hartwork hcreates).symm.trans hfree⟩
    · constructor
      · rintro ⟨⟨hcreates, hfree⟩, hcreation⟩
        exact ⟨⟨hcreates, (hinitial hcreates).symm.trans ((hartwork hcreates).symm.trans hfree)⟩,
          huploadS, hensured, hmoved, hcreation⟩
      · rintro ⟨⟨hcreates, hfree⟩, -, -, -, hcreation⟩
        exact ⟨⟨hcreates, (hartwork hcreates).trans ((hinitial hcreates).trans hfree)⟩, hcreation⟩
  have hunmarked : Journaled placement journalId false u := by rwa [Journaled, hdbu]
  have hprepare : Ensures (Follows fate) (placeReplacementArtwork P inspection identity placement
      (journalArtworkCreated journalId)) _ u :=
    placeReplacementArtwork_leaves P plan hparent hunmarked
  refine .handle hprepare ?_ ?_ ?_
  · rintro created v ⟨x, known, hv, hjournal, hcreated, hcut⟩
    refine .pure ⟨t.files, true, x, known, hleft v x known hv hjournal hcreated hcut, ?_⟩
    rintro _ hreturned
    obtain rfl := Exit.returned.inj hreturned
    exact ⟨rfl, created, rfl⟩
  · rintro e v ⟨x, known, hv, hjournal, hcreated, hcut⟩
    have hplaced := hleft v x known hv hjournal hcreated hcut
    have hrestore : Ensures (Follows fate)
        (restoreRootedFile .restoreStaged placement.pendingAudio placement.staged)
        (fun _ w => ∃ placed, PlaceLeft placement journalId s fate t.files placed x known w) v := by
      refine ensures_restoreRootedFile ?_ (fun _ => ⟨true, hplaced⟩) ⟨true, hplaced⟩
      intro files hrename
      refine ⟨false, hgrows, ?_, hjournal, by simp, hplaced.created, hplaced.cut⟩
      show files.entry = _
      rw [(rename_eq_ok hrename).2.2, hplaced.files]
      exact moved_back (hlayoutT.withFile plan fun hx => (hplaced.created (.inl hx)).1).pendingAudio
    refine .handleFailure hrestore ?_ ?_ ?_
    · rintro _ w ⟨placed, hw⟩
      exact .fail ⟨t.files, placed, x, known, hw, by simp⟩
    · rintro _ w ⟨placed, hw⟩
      exact .fail ⟨t.files, placed, x, known, hw, by simp⟩
    · rintro w ⟨placed, hw⟩
      exact ⟨t.files, placed, x, known, hw, by simp⟩
  · rintro v ⟨x, known, hv, hjournal, hcreated, hcut⟩
    exact ⟨t.files, true, x, known, hleft v x known hv hjournal hcreated hcut, by simp⟩

end Run

end Place

/-! ### The undo of a cut-off replacement -/

/-- The file effects of a Track Replacement up to its swap. -/
def placeThenSwap (P : Platform) (inspection : MediaInspection) (identity : CommitIdentity)
    (placement : ReplacementPlacement) (journalId : String) : Act Unit := do
  let placed ← placeReplacement P inspection identity placement (journalArtworkCreated journalId)
  swapReplacement placed

/-- The undo as recovery runs it: over the placement that the journal holds. -/
def rollbackJournaled (journalId : String) : Act Unit := do
  let journal ← query fun db =>
    match db.replacementJournals.lookup journalId with
    | none => .error (.sentinel .notFound)
    | some journal => .ok journal
  rollbackReplacement (replacementPlacementFromJournal journal)

/-- A run whose steps have these fates. -/
def fated (fate : Step → Fate) (s : Server) : World Step Server := ⟨s, fun l _ => fate l⟩

theorem allowed_fated (fate : Step → Fate) : Allowed (Follows fate) fun l _ => fate l :=
  fun _ _ => rfl

/-- After the course of events, the undo succeeds and the files are those from before
the placing. -/
def RollbackRestores (P : Platform) (inspection : MediaInspection) (identity : CommitIdentity)
    (placement : ReplacementPlacement) (journalId : String) (s : Server) (fate : Step → Fate) :
    Prop :=
  let left := (placeThenSwap P inspection identity placement journalId (fated fate s)).2.state
  let undone := rollbackJournaled journalId (fated (fun _ => .done) left)
  undone.1 = .returned () ∧ undone.2.state.files.file = s.files.file

section Restores

variable (P : Platform) {inspection : MediaInspection} {identity : CommitIdentity}
  {placement : ReplacementPlacement} {directory : RelativePath} {journalId : String}
  {s : Server} {fate : Step → Fate}

/-- What placing and swapping leave: an arrangement over the directories that were
made and the file that was perhaps created. -/
theorem placeThenSwap_leaves (plan : ReplacementPlan placement directory)
    (hlayout : Layout placement s.files.entry) (h : Journaled placement journalId false s)
    (hundo : ∀ n, fate .undoSwapAudio ≠ .fails n) :
    Ensures (Follows fate) (placeThenSwap P inspection identity placement journalId)
      (fun _ t => ∃ base placed x known audio artwork u,
        PlaceLeft placement journalId s fate base placed x known u ∧ t.db = u.db ∧
        t.files.entry = arranged placement (withFile (createdArtwork placement) base.entry x)
          placed audio artwork ∧
        Arrangement placement (withFile (createdArtwork placement) base.entry x) placed audio
          artwork) s := by
  -- Before the swap nothing but the upload is moved.
  have hunswapped : ∀ base placed x known u,
      PlaceLeft placement journalId s fate base placed x known u →
      Arrangement placement (withFile (createdArtwork placement) base.entry x) placed .before
        .before := by
    intro base placed x known u hu
    refine ⟨fun hplaced => ?_, fun _ => ⟨rfl, rfl⟩, trivial, trivial, by simp⟩
    obtain ⟨upload, hupload⟩ := hu.staged hplaced
    refine ⟨upload, ?_⟩
    cases x with
    | none => exact hupload
    | some content =>
      have hkind := plan.kindOf_createdArtwork (hu.created (.inl (by simp))).1
      refine (Function.update_of_ne ?_ _ _).trans hupload
      rcases hkind with hkind | hkind
      · exact ne_of_kindOf (by simp [hkind, plan.kindOf_staged])
      · exact ne_of_kindOf (by simp [hkind, plan.kindOf_staged])
  refine .seq (placeReplacement_leaves P plan hlayout h) ?_ ?_ ?_
  · rintro _ u ⟨base, placed, x, known, hu, hreturned⟩
    obtain ⟨rfl, created, rfl⟩ := hreturned _ rfl
    have hbase := (hlayout.grows plan hu.grows).withFile plan (x := x)
      fun hx => (hu.created (.inl hx)).1
    have hstart : SwapLeft placement (withFile (createdArtwork placement) base.entry x) u u .before
        .before := ⟨rfl, hu.files, hunswapped base true x known u hu⟩
    refine (swapReplacement_leaves plan hbase hundo hstart).mono ?_
    rintro _ t ⟨audio, artwork, hdb, hfiles, hstage⟩
    exact ⟨base, true, x, known, audio, artwork, u, hu, hdb, hfiles, hstage⟩
  · rintro e u ⟨base, placed, x, known, hu, -⟩
    exact ⟨base, placed, x, known, .before, .before, u, hu, rfl, hu.files,
      hunswapped base placed x known u hu⟩
  · rintro u ⟨base, placed, x, known, hu, -⟩
    exact ⟨base, placed, x, known, .before, .before, u, hu, rfl, hu.files,
      hunswapped base placed x known u hu⟩

/-- From what is left, the undo leads to the files from before, with the created file
if the journal does not know of it. -/
theorem rollbackJournaled_leaves {t u : Server} {base : FileTree String Bytes} {placed : Bool}
    {x : Option Bytes} {known : Bool} {audio artwork : SwapStage}
    (plan : ReplacementPlan placement directory) (hlayout : Layout placement s.files.entry)
    (hu : PlaceLeft placement journalId s fate base placed x known u) (hdb : t.db = u.db)
    (hfiles : t.files.entry = arranged placement
      (withFile (createdArtwork placement) base.entry x) placed audio artwork)
    (hstage : Arrangement placement (withFile (createdArtwork placement) base.entry x) placed
      audio artwork) :
    Ensures NoFaults (rollbackJournaled journalId) (fun exit v => exit = .returned () ∧
      v.files.file = fileOf (if known then base.entry
        else withFile (createdArtwork placement) base.entry x)) t := by
  obtain ⟨row, hrow, -, hplacement⟩ := hu.journal
  have hread : Ensures NoFaults (query fun db =>
      match db.replacementJournals.lookup journalId with
      | none => .error (.sentinel .notFound)
      | some journal => .ok journal) (fun exit v => exit = .returned row ∧ v = t) t := by
    refine .perform ?_ ?_ ?_ ?_
    · intro _ a v hrun
      obtain ⟨rfl, rfl⟩ : row = a ∧ t = v := by
        simpa [Effect.atomic, Except.map, hdb, hrow] using hrun
      exact ⟨rfl, rfl⟩
    · intro _ err hrun
      simp [Effect.atomic, Except.map, hdb, hrow] at hrun
    · intro _ hfate
      cases hfate
    · intro _ hfate
      cases hfate
  refine .seq hread ?_ (by simp) (by simp)
  rintro _ v ⟨hjournal, rfl⟩
  obtain rfl := Exit.returned.inj hjournal
  have hbase := (hlayout.grows plan hu.grows).withFile plan (x := x)
    fun hx => (hu.created (.inl hx)).1
  have hstaging : withFile (createdArtwork placement) base.entry x [staging] = some .directory ∨
      placed = false := by
    cases placed with
    | false => exact .inr rfl
    | true =>
      obtain ⟨upload, hupload⟩ := hu.staged rfl
      have hdirectory := isDirectory_parent hupload
      rw [plan.staged, isDirectory_iff] at hdirectory
      refine .inl ?_
      cases x with
      | none => exact hdirectory.resolve_left (by simp)
      | some content =>
        refine (Function.update_of_ne ?_ _ _).trans (hdirectory.resolve_left (by simp))
        have hstagingKind : kindOf [staging] = .staged := by decide
        rcases plan.kindOf_createdArtwork (hu.created (.inl (by simp))).1 with hkind | hkind
        · exact ne_of_kindOf (by simp [hkind, hstagingKind])
        · exact ne_of_kindOf (by simp [hkind, hstagingKind])
  have hnotDirectory : known = true →
      withFile (createdArtwork placement) base.entry x (createdArtwork placement) ≠
        some .directory := by
    intro hknown
    cases x with
    | none => simp [withFile, (hu.created (.inr hknown)).2]
    | some content => simp [withFile]
  rw [hplacement]
  refine (rollbackReplacement_restores plan hbase hstage hstaging hnotDirectory hfiles).mono ?_
  rintro exit w ⟨hexit, -, hw⟩
  refine ⟨hexit, hw.trans (congrArg fileOf ?_)⟩
  cases known with
  | false => rfl
  | true =>
    have hfree := (hu.created (.inr rfl)).2
    funext p
    cases x with
    | none =>
      simp only [if_true, withFile, Function.update_apply]
      split_ifs with heq
      · rw [heq, hfree]
      · rfl
    | some content =>
      simp only [if_true, withFile, Function.update_apply]
      split_ifs with heq
      · rw [heq, hfree]
      · rfl

/-- The undo restores the files from before the placing, unless the process dies
between the creation of the artwork file and its journaling, or the journaling fails
and the file stays. -/
theorem rollback_restores_iff {staged : RelativePath} {target : Target}
    (hid : IsUuid identity.trackId) (hstaged : staged.dropLast = [staging])
    (htarget : IsTrackPath target.relativePath)
    (hplan : planReplacementPlacement inspection identity staged target = .ok placement)
    (hlayout : Layout placement s.files.entry) (hjournal : Journaled placement journalId false s)
    (hundo : ∀ n, fate .undoSwapAudio ≠ .fails n) :
    RollbackRestores P inspection identity placement journalId s fate ↔
      ¬CutOff placement s fate := by
  obtain ⟨directory, plan⟩ := planReplacementPlacement_eq_ok hid hstaged htarget hplan
  have hplaced : Ensures (Follows fate) (placeThenSwap P inspection identity placement journalId)
      _ s := placeThenSwap_leaves P plan hlayout hjournal hundo
  obtain ⟨base, placed, x, known, audio, artwork, u, hu, hdb, hfiles, hstage⟩ :=
    (hplaced _ (allowed_fated fate)).1
  obtain ⟨hreturned, hrestored⟩ := (rollbackJournaled_leaves plan hlayout hu hdb hfiles hstage
    _ (fun _ _ => rfl)).1
  have hbase : fileOf base.entry = s.files.file := by
    rw [← file_eq_fileOf, hu.grows.file]
  constructor
  · rintro ⟨-, hsame⟩ hcut
    obtain ⟨hx, rfl⟩ := hu.cut.mpr hcut
    obtain ⟨content, rfl⟩ := Option.ne_none_iff_exists'.mp hx
    have hthere := congrFun (hrestored.symm.trans hsame) (createdArtwork placement)
    simp [withFile, fileOf, FileTree.file, hcut.1.2] at hthere
  · intro hcut
    refine ⟨hreturned, hrestored.trans ?_⟩
    cases known with
    | true => exact hbase
    | false =>
      cases x with
      | none => exact hbase
      | some content => exact absurd (hu.cut.mp ⟨by simp, rfl⟩) hcut

end Restores

/-! ### A Track that gets a cover -/

def coverTrackId : String := "00000000-0000-4000-8000-000000000000"

def coverInspection : MediaInspection where
  metadata := songMetadata ""
  albumArtwork := ⟨"image/png", 1, 1, [7], plainPlatform.sha256Hex [7]⟩
  audio := ⟨"flac", "flac", "flac", 1000, 44100, 2, 16, 800⟩
  fileSha256 := "new"

def coverIdentity : CommitIdentity := ⟨"artist", "album", coverTrackId, [], ""⟩

def coverTarget : Target where
  row := ⟨coverTrackId, "album", 1, 1, ["library", "artist", "album", "01-01-song.flac"], "old", 1,
    [], "", true⟩
  relativePath := ["library", "artist", "album", "01-01-song.flac"]
  queues := []

def coverPlacement : ReplacementPlacement where
  artworkMode := .create
  staged := [".staging", ".import-1.upload"]
  pendingAudio := ["library", "artist-artist", "album-album",
    ".replacement-00000000-0000-4000-8000-000000000000.flac"]
  audio := ["library", "artist-artist", "album-album",
    "01-01-song-00000000-0000-4000-8000-000000000000.flac"]
  previousAudio := ["library", "artist", "album", "01-01-song.flac"]
  retiredAudio := ["library", "artist", "album",
    ".retired-00000000-0000-4000-8000-000000000000.flac"]
  pendingArtwork := []
  artwork := ["library", "artist-artist", "album-album", "cover.png"]
  previousArtwork := []
  retiredArtwork := []
  artworkCreated := false

def coverJournal : ReplacementJournalRow where
  jobId := "job"
  trackId := coverTrackId
  phase := .prepared
  stagedFilePath := coverPlacement.staged
  pendingAudioPath := coverPlacement.pendingAudio
  audioFilePath := coverPlacement.audio
  previousAudioPath := coverPlacement.previousAudio
  retiredAudioPath := coverPlacement.retiredAudio
  audioSha256 := "new"
  previousAudioSha256 := "old"
  artworkMode := .create
  pendingArtworkPath := []
  artworkFilePath := coverPlacement.artwork
  previousArtworkPath := []
  retiredArtworkPath := []
  artworkSha256 := coverInspection.albumArtwork.sha256
  previousArtworkSha256 := ""
  isArtworkCreated := false
  previousAlbumId := "album"
  recoveryReason := ""

/-- The tree of some files, with their directories. -/
def filesOf (files : List (RelativePath × Bytes)) : FileTree String Bytes :=
  files.foldl (fun t file => ((t.makeDirectories file.1.dropLast).bind fun t =>
    t.hold file.1 file.2).toOption.getD t) .empty

def coverServer : Server where
  db := { Database.empty with
    replacementJournals := Database.empty.replacementJournals.insert "journal" coverJournal }
  files := filesOf [(coverPlacement.previousAudio, [1]), (coverPlacement.staged, [2])]

theorem coverServer_journaled : Journaled coverPlacement "journal" false coverServer :=
  ⟨coverJournal, by decide +kernel, rfl, rfl⟩

theorem coverServer_layout : Layout coverPlacement coverServer.files.entry where
  clear p content hp hentry := by
    have hnone : ∀ q ∈ coverPlacement.audio.dropLast.inits, coverServer.files.file q = none := by
      decide +kernel
    have hp' := hnone p ((List.mem_inits _ _).mpr hp)
    rw [file_eq_some.mpr hentry] at hp'
    cases hp'
  retiredAudio := by decide +kernel
  pendingAudio := by decide +kernel
  audio := .inr (by decide +kernel)
  artwork hmode := by cases hmode

theorem coverPlacement_planned :
    planReplacementPlacement coverInspection coverIdentity coverPlacement.staged coverTarget =
      .ok coverPlacement := by
  decide +kernel

theorem cover_rollback_restores :
    RollbackRestores plainPlatform coverInspection coverIdentity coverPlacement "journal"
      coverServer (fun _ => .done) := by
  have htarget : IsTrackPath coverTarget.relativePath :=
    ⟨rfl, rfl, '0', "1-01-song.flac".toList, by decide, .inl (by decide)⟩
  refine (rollback_restores_iff plainPlatform (by decide) rfl htarget coverPlacement_planned
    coverServer_layout coverServer_journaled (by simp)).mpr ?_
  rintro ⟨-, -, -, -, -, hmark | ⟨hmark, -⟩⟩
  · cases hmark
  · cases hmark

/-- The process dies once the new cover is created and before the journal says so. -/
def diesBeforeMark : Step → Fate
  | .markArtworkCreated => .dies 0
  | _ => .done

/-- The undo leaves the new cover, empty, at its canonical path. -/
theorem cover_remains_after_rollback :
    planReplacementPlacement coverInspection coverIdentity coverPlacement.staged coverTarget =
        .ok coverPlacement ∧
      Layout coverPlacement coverServer.files.entry ∧
      Journaled coverPlacement "journal" false coverServer ∧
      ¬RollbackRestores plainPlatform coverInspection coverIdentity coverPlacement "journal"
        coverServer diesBeforeMark := by
  refine ⟨coverPlacement_planned, coverServer_layout, coverServer_journaled, ?_⟩
  rintro ⟨-, hfiles⟩
  have hleft : (rollbackJournaled "journal" (fated (fun _ => .done)
      (placeThenSwap plainPlatform coverInspection coverIdentity coverPlacement "journal"
        (fated diesBeforeMark coverServer)).2.state)).2.state.files.file coverPlacement.artwork =
      some [] := by decide +kernel
  rw [hfiles] at hleft
  exact absurd hleft (by decide +kernel)

end Harmony.ManagedImport
