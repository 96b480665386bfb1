/-
# The arrangements of a Track Replacement

Placing and swapping pass through few arrangements of the files: the upload is
staged or pending; of the audio, and of the artwork, nothing is moved, the previous
file is retired, or the new one is in its place. Whatever becomes of a swap, it
leaves one of them, and from each of them the undo leads back.
-/

import Harmony.ManagedImport.ReplacementStorage

namespace Harmony.ManagedImport

open Crash Crash.Program FileTree

abbrev Contents := RelativePath → Option (Entry Bytes)

/-! ### One swap -/

/-- How far the swap of one file is. -/
inductive SwapStage
  | before
  | retired
  | swapped
  deriving DecidableEq

/-- The four paths of a swap, with what keeps its moves apart. -/
structure SwapPaths (e : Contents) (retired previous canonical pending : RelativePath) : Prop where
  retired_free : e retired = none
  canonical_free : canonical = previous ∨ e canonical = none
  retired_ne_previous : retired ≠ previous
  retired_ne_canonical : retired ≠ canonical
  retired_ne_pending : retired ≠ pending
  pending_ne_previous : pending ≠ previous
  pending_ne_canonical : pending ≠ canonical
  previous_sibling : previous.dropLast = retired.dropLast
  pending_sibling : pending.dropLast = canonical.dropLast
  previous_ne_nil : previous ≠ []
  pending_ne_nil : pending ≠ []

/-- The files at a stage of a swap. -/
def swapAt (retired previous canonical pending : RelativePath) (e : Contents) :
    SwapStage → Contents
  | .before => e
  | .retired => moved e previous retired
  | .swapped => moved (moved e previous retired) pending canonical

/-- What was moved are files. -/
def SwapStage.MovesFiles (previous pending : RelativePath) (e : Contents) : SwapStage → Prop
  | .before => True
  | .retired => ∃ content, e previous = some (.file content)
  | .swapped => (∃ content, e previous = some (.file content)) ∧
      ∃ content, e pending = some (.file content)

/-! ### Undoing without faults -/

/-- No effect fails and the process lives. -/
def NoFaults : Step → Fate → Prop := fun _ fate => fate = .done

section Undo

variable {s : Server} {source target retired previous canonical pending : RelativePath}

theorem ensures_isPresent {l : Step} {operation : String} {path : RelativePath} :
    Ensures NoFaults (isPresent l operation path)
      (fun exit t => exit = .returned (s.files.entry path).isSome ∧ t = s) s :=
  ensures_lookAt_done (fun _ h => h) rfl ⟨rfl, rfl⟩

theorem ensures_resultOf_none {failures : List (Option Error)} {allowed : Step → Fate → Prop}
    (h : Error.join failures = none) :
    Ensures allowed (resultOf failures) (fun exit t => exit = .returned () ∧ t = s) s := by
  rw [resultOf, h]
  exact .pure ⟨rfl, rfl⟩

theorem restoreIfPresent_absent (h : s.files.entry source = none) :
    Ensures NoFaults (restoreIfPresent source target)
      (fun exit t => exit = .returned () ∧ t = s) s := by
  refine .seq ensures_isPresent ?_ (by simp) (by simp)
  rintro present t ⟨hpresent, rfl⟩
  obtain rfl : present = false := by simpa [h] using hpresent
  exact .pure ⟨rfl, rfl⟩

theorem restoreIfPresent_moves {files : FileTree String Bytes}
    (hrename : s.files.rename source target = .ok files) (htarget : s.files.entry target = none) :
    Ensures NoFaults (restoreIfPresent source target)
      (fun exit t => exit = .returned () ∧ t = { s with files := files }) s := by
  obtain ⟨⟨content, hsource⟩, -, -⟩ := rename_eq_ok hrename
  refine .seq ensures_isPresent ?_ (by simp) (by simp)
  rintro present t ⟨hpresent, rfl⟩
  obtain rfl : present = true := by simpa [hsource] using hpresent
  refine .handle ensures_isPresent ?_ (by simp) (by simp)
  rintro blocked t ⟨hblocked, rfl⟩
  obtain rfl : blocked = false := by simpa [htarget] using hblocked
  show Ensures NoFaults (onFiles .rollbackFile _ fun files => files.rename source target) _ t
  exact ensures_onFiles_done (fun _ h => h) hrename ⟨rfl, rfl⟩

/-- The undo of a swap leads back from each of its stages. -/
theorem undoRetiredSwap_restores {e : Contents} {stage : SwapStage}
    (hpaths : SwapPaths e retired previous canonical pending)
    (hfiles : stage.MovesFiles previous pending e)
    (hs : s.files.entry = swapAt retired previous canonical pending e stage) :
    Ensures NoFaults (undoRetiredSwap retired previous canonical pending)
      (fun exit t => exit = .returned () ∧ t.db = s.db ∧ t.files.entry = e) s := by
  have hp := hpaths
  -- The last part of the undo, once the canonical path is clear.
  have hretire : ∀ (t : Server) (content : Bytes), e previous = some (.file content) →
      t.db = s.db → t.files.entry = moved e previous retired →
      Ensures NoFaults (do
        let restored ← failureOf (restoreIfPresent retired previous)
        resultOf [none, restored])
        (fun exit u => exit = .returned () ∧ u.db = s.db ∧ u.files.entry = e) t := by
    intro t content hprevious hdb ht
    have hretired : t.files.entry retired = some (.file content) := by
      rw [ht, moved_target, hprevious]
    have hfree : t.files.entry previous = none := by
      rw [ht, moved_source hp.retired_ne_previous.symm]
    obtain ⟨files, hrename, hentry⟩ :=
      rename_sibling hretired hp.previous_sibling hfree hp.previous_ne_nil
    refine .handleFailure (restoreIfPresent_moves hrename hfree) ?_ (by simp) (by simp)
    rintro _ u ⟨-, rfl⟩
    refine (ensures_resultOf_none rfl).mono ?_
    rintro exit u ⟨hexit, rfl⟩
    refine ⟨hexit, hdb, ?_⟩
    rw [hentry, ht, moved_back hp.retired_free]
  refine .seq ensures_isPresent ?_ (by simp) (by simp)
  rintro present t ⟨hpresent, rfl⟩
  cases stage with
  | before =>
    obtain rfl : present = false := by simpa [hs, swapAt, hp.retired_free] using hpresent
    exact .pure ⟨rfl, rfl, hs⟩
  | retired =>
    obtain ⟨content, hprevious⟩ := hfiles
    have hentry : t.files.entry = moved e previous retired := hs
    obtain rfl : present = true := by simpa [hentry, moved_target, hprevious] using hpresent
    have hcanonical : t.files.entry canonical = none := by
      rcases hp.canonical_free with rfl | hfree
      · rw [hentry, moved_source hp.retired_ne_previous.symm]
      · rw [hentry, moved_of_ne _ hp.retired_ne_canonical.symm, hfree]
        rintro rfl
        simp [hprevious] at hfree
    refine .handleFailure (restoreIfPresent_absent hcanonical) ?_ (by simp) (by simp)
    rintro _ u ⟨-, rfl⟩
    exact hretire u content hprevious rfl hentry
  | swapped =>
    obtain ⟨⟨content, hprevious⟩, new, hpending⟩ := hfiles
    have hentry : t.files.entry = moved (moved e previous retired) pending canonical := hs
    have hnew : moved e previous retired pending = some (.file new) := by
      rw [moved_of_ne hp.pending_ne_previous hp.retired_ne_pending.symm, hpending]
    have hfree : moved e previous retired canonical = none := by
      rcases hp.canonical_free with rfl | hfree
      · rw [moved_source hp.retired_ne_previous.symm]
      · rw [moved_of_ne _ hp.retired_ne_canonical.symm, hfree]
        rintro rfl
        simp [hprevious] at hfree
    have hretired : t.files.entry retired = some (.file content) := by
      rw [hentry, moved_of_ne hp.retired_ne_pending hp.retired_ne_canonical,
        moved_target, hprevious]
    obtain rfl : present = true := by simpa [hretired] using hpresent
    have hcanonical : t.files.entry canonical = some (.file new) := by
      rw [hentry, moved_target, hnew]
    have hpendingFree : t.files.entry pending = none := by
      rw [hentry, moved_source hp.pending_ne_canonical]
    obtain ⟨files, hrename, hback⟩ :=
      rename_sibling hcanonical hp.pending_sibling hpendingFree hp.pending_ne_nil
    refine .handleFailure (restoreIfPresent_moves hrename hpendingFree) ?_ (by simp) (by simp)
    rintro _ u ⟨-, rfl⟩
    refine hretire _ content hprevious rfl ?_
    rw [hback, hentry, moved_back hfree]

end Undo

/-! ### Both swaps -/

/-- The files of some contents. -/
def fileOf (e : Contents) (path : RelativePath) : Option Bytes :=
  match e path with
  | some (.file content) => some content
  | _ => none

theorem file_eq_fileOf (files : FileTree String Bytes) : files.file = fileOf files.entry := by
  funext path
  unfold FileTree.file fileOf
  cases files.entry path with
  | none => rfl
  | some e => cases e <;> rfl

/-- The files while a Track Replacement is placed and swapped, over contents in which
nothing is moved yet. -/
def placedAt (placement : ReplacementPlacement) (b : Contents) (placed : Bool) : Contents :=
  if placed then moved b placement.staged placement.pendingAudio else b

def audioAt (placement : ReplacementPlacement) (b : Contents) (placed : Bool)
    (audio : SwapStage) : Contents :=
  swapAt placement.retiredAudio placement.previousAudio placement.audio placement.pendingAudio
    (placedAt placement b placed) audio

def arranged (placement : ReplacementPlacement) (b : Contents) (placed : Bool)
    (audio artwork : SwapStage) : Contents :=
  swapAt placement.retiredArtwork placement.previousArtwork placement.artwork
    placement.pendingArtwork (audioAt placement b placed audio) artwork

/-- The contents that a Track Replacement starts from: nothing is in the way of the
directories it makes and of the names it uses. -/
structure Layout (placement : ReplacementPlacement) (b : Contents) : Prop where
  clear : ∀ p content, p <+: placement.audio.dropLast → b p ≠ some (.file content)
  retiredAudio : b placement.retiredAudio = none
  pendingAudio : b placement.pendingAudio = none
  audio : placement.audio = placement.previousAudio ∨ b placement.audio = none
  artwork : placement.artworkMode = .replace → b placement.retiredArtwork = none ∧
    (placement.artwork = placement.previousArtwork ∨ b placement.artwork = none)

section Arrangements

variable {placement : ReplacementPlacement} {directory : RelativePath} {b : Contents}
  {placed : Bool} {audio artwork : SwapStage}

theorem ReplacementPlan.kindOf_staged (plan : ReplacementPlan placement directory) :
    kindOf placement.staged = .staged := by
  have hparent := plan.staged
  have hhead : placement.staged.head? = some staging := by
    cases hpath : placement.staged with
    | nil => simp [hpath] at hparent
    | cons first rest =>
      cases rest with
      | nil => simp [hpath] at hparent
      | cons second rest =>
        rw [hpath] at hparent
        simpa using (List.cons.inj hparent).1
  simp [kindOf, hhead]

theorem ne_of_kindOf {p q : RelativePath} (h : kindOf p ≠ kindOf q) : p ≠ q :=
  fun heq => h (congrArg kindOf heq)

theorem ne_nil_of_kindOf {p : RelativePath} (h : kindOf p ≠ .track) : p ≠ [] := by
  rintro rfl
  exact h (by decide)

/-- What the audio paths do not name is as it was. -/
theorem audioAt_of_kindOf (plan : ReplacementPlan placement directory) {p : RelativePath}
    (hp : kindOf p = .pendingArtwork ∨ kindOf p = .retiredArtwork ∨ kindOf p = .cover) :
    audioAt placement b placed audio p = b p := by
  have hkind : ∀ q : RelativePath, kindOf q = .staged ∨ kindOf q = .pendingAudio ∨
      kindOf q = .retiredAudio ∨ kindOf q = .track → p ≠ q := by
    intro q hq
    apply ne_of_kindOf
    rcases hp with hp | hp | hp <;> rcases hq with hq | hq | hq | hq <;> simp [hp, hq]
  have hstaged := hkind _ (.inl plan.kindOf_staged)
  have hpending := hkind _ (.inr (.inl plan.pendingAudio))
  have hretired := hkind _ (.inr (.inr (.inl plan.retiredAudio)))
  have hprevious := hkind _ (.inr (.inr (.inr plan.previousAudio)))
  have haudio := hkind _ (.inr (.inr (.inr plan.audio)))
  have hplaced : placedAt placement b placed p = b p := by
    cases placed with
    | false => rfl
    | true => exact moved_of_ne hstaged hpending
  unfold audioAt
  cases audio with
  | before => exact hplaced
  | retired => exact (moved_of_ne hprevious hretired).trans hplaced
  | swapped =>
    exact (moved_of_ne hpending haudio).trans ((moved_of_ne hprevious hretired).trans hplaced)

/-- The audio paths keep the moves of the audio apart. -/
theorem Layout.audioPaths (hlayout : Layout placement b)
    (plan : ReplacementPlan placement directory) :
    SwapPaths (placedAt placement b placed) placement.retiredAudio placement.previousAudio
      placement.audio placement.pendingAudio where
  retired_free := by
    unfold placedAt
    split_ifs
    · rw [moved_of_ne, hlayout.retiredAudio]
      · exact ne_of_kindOf (by simp [plan.retiredAudio, plan.kindOf_staged])
      · exact ne_of_kindOf (by simp [plan.retiredAudio, plan.pendingAudio])
    · exact hlayout.retiredAudio
  canonical_free := hlayout.audio.imp_right fun hfree => by
    unfold placedAt
    split_ifs
    · rw [moved_of_ne, hfree]
      · exact ne_of_kindOf (by simp [plan.audio, plan.kindOf_staged])
      · exact ne_of_kindOf (by simp [plan.audio, plan.pendingAudio])
    · exact hfree
  retired_ne_previous := ne_of_kindOf (by simp [plan.retiredAudio, plan.previousAudio])
  retired_ne_canonical := ne_of_kindOf (by simp [plan.retiredAudio, plan.audio])
  retired_ne_pending := ne_of_kindOf (by simp [plan.retiredAudio, plan.pendingAudio])
  pending_ne_previous := ne_of_kindOf (by simp [plan.pendingAudio, plan.previousAudio])
  pending_ne_canonical := ne_of_kindOf (by simp [plan.pendingAudio, plan.audio])
  previous_sibling := plan.retiredAudio_parent.symm
  pending_sibling := plan.pendingAudio_parent.trans plan.audio_parent.symm
  previous_ne_nil := by
    intro hnil
    have hlength := plan.previousAudio_length
    simp [hnil] at hlength
  pending_ne_nil := ne_nil_of_kindOf (by simp [plan.pendingAudio])

theorem Layout.artworkPaths (hlayout : Layout placement b)
    (plan : ReplacementPlan placement directory) (hmode : placement.artworkMode = .replace) :
    SwapPaths (audioAt placement b placed audio) placement.retiredArtwork
      placement.previousArtwork placement.artwork placement.pendingArtwork := by
  obtain ⟨hpending, hretired, hprevious, hpendingDir, hretiredDir, hpreviousDir⟩ :=
    plan.replace hmode
  obtain ⟨hcover, hcoverDir⟩ := plan.artwork (by simp [hmode])
  obtain ⟨hfree, hcanonical⟩ := hlayout.artwork hmode
  exact
    { retired_free := by rw [audioAt_of_kindOf plan (.inr (.inl hretired)), hfree]
      canonical_free := hcanonical.imp_right fun h => by
        rw [audioAt_of_kindOf plan (.inr (.inr hcover)), h]
      retired_ne_previous := ne_of_kindOf (by simp [hretired, hprevious])
      retired_ne_canonical := ne_of_kindOf (by simp [hretired, hcover])
      retired_ne_pending := ne_of_kindOf (by simp [hretired, hpending])
      pending_ne_previous := ne_of_kindOf (by simp [hpending, hprevious])
      pending_ne_canonical := ne_of_kindOf (by simp [hpending, hcover])
      previous_sibling := hpreviousDir.trans hretiredDir.symm
      pending_sibling := hpendingDir.trans hcoverDir.symm
      previous_ne_nil := ne_nil_of_kindOf (by simp [hprevious])
      pending_ne_nil := ne_nil_of_kindOf (by simp [hpending]) }

end Arrangements

/-- An arrangement that placing and swapping can leave: what was moved are files, the
swaps follow on the placing, and the artwork is swapped in one mode only. -/
structure Arrangement (placement : ReplacementPlacement) (b : Contents) (placed : Bool)
    (audio artwork : SwapStage) : Prop where
  staged : placed = true → ∃ content, b placement.staged = some (.file content)
  unplaced : placed = false → audio = .before ∧ artwork = .before
  movesAudio : audio.MovesFiles placement.previousAudio placement.pendingAudio
    (placedAt placement b placed)
  movesArtwork : artwork.MovesFiles placement.previousArtwork placement.pendingArtwork
    (audioAt placement b placed audio)
  replace : artwork ≠ .before → placement.artworkMode = .replace

/-! ### The whole undo -/

section Rollback

variable {placement : ReplacementPlacement} {directory : RelativePath} {b : Contents}
  {placed : Bool} {audio artwork : SwapStage} {s : Server} {created : Bool}

theorem ensures_failureIf {condition : Bool} {x : Act Unit} {k : Option Error → Act Unit}
    {R : Server → Prop} {Q : Exit Error Unit → Server → Prop}
    (htrue : condition = true → Ensures NoFaults x (fun exit t => exit = .returned () ∧ R t) s)
    (hfalse : condition = false → R s) (hrest : ∀ t, R t → Ensures NoFaults (k none) Q t) :
    Ensures NoFaults (failureIf condition x >>= k) Q s := by
  cases condition with
  | true =>
    refine .handleFailure (htrue rfl) ?_ (by simp) (by simp)
    rintro _ t ⟨-, ht⟩
    exact hrest t ht
  | false => exact hrest s (hfalse rfl)

/-- Removes a file, or nothing. -/
theorem ensures_removeRootedFile {l : Step} {path : RelativePath} {description : String}
    (h : s.files.entry path ≠ some .directory) :
    Ensures NoFaults (removeRootedFile l path description) (fun exit t => exit = .returned () ∧
      t.db = s.db ∧ t.files.entry = Function.update s.files.entry path none) s := by
  cases hentry : s.files.entry path with
  | none =>
    refine ensures_onFiles_done (fun _ h => h) (?_ : _ = Except.ok s.files) ⟨rfl, rfl, ?_⟩
    · rw [discard_of_none hentry]
    · funext p
      rw [Function.update_apply]
      split_ifs with heq
      · rw [heq, hentry]
      · rfl
  | some e =>
    cases e with
    | directory => exact absurd hentry h
    | file content =>
      obtain ⟨files, hfiles⟩ := discard_isOk hentry
      refine ensures_onFiles_done (fun _ h => h) (?_ : _ = Except.ok files) ⟨rfl, rfl, ?_⟩
      · rw [hfiles]
      · exact (discard_eq_ok hfiles).2

theorem ensures_removeEmptyDirectories {l : Step} {path boundary : RelativePath}
    (h : s.files.Clear path) :
    Ensures NoFaults (removeEmptyDirectoriesUnder l path boundary)
      (fun exit t => exit = .returned () ∧ t.db = s.db ∧ t.files.file = s.files.file) s := by
  obtain ⟨files, hfiles⟩ : ∃ files, pruneSome boundary path.length s.files path = .ok files :=
    pruneSome_isOk h
  refine .perform ?_ ?_ ?_ ?_
  · intro _ a t hrun
    obtain rfl : _ = t := by simpa [prune, hfiles] using hrun
    exact ⟨rfl, rfl, (pruneSome_shrinks hfiles).file⟩
  · intro _ err hrun
    simp [prune, hfiles] at hrun
  · intro _ h
    cases h
  · intro _ h
    cases h

/-- The upload goes back to staging, where it came from. -/
theorem restoreStaged_restores (plan : ReplacementPlan placement directory)
    (hlayout : Layout placement b) (hstage : Arrangement placement b placed audio artwork)
    (hstaging : b [staging] = some .directory ∨ placed = false)
    (hs : s.files.entry = placedAt placement b placed) :
    Ensures NoFaults (restoreIfPresent placement.pendingAudio placement.staged)
      (fun exit t => exit = .returned () ∧ t.db = s.db ∧ t.files.entry = b) s := by
  have hne : placement.staged ≠ placement.pendingAudio :=
    ne_of_kindOf (by simp [plan.kindOf_staged, plan.pendingAudio])
  cases placed with
  | false =>
    have hentry : s.files.entry = b := hs
    refine (restoreIfPresent_absent (by rw [hentry, hlayout.pendingAudio])).mono ?_
    rintro exit t ⟨hexit, rfl⟩
    exact ⟨hexit, rfl, hentry⟩
  | true =>
    obtain ⟨content, hcontent⟩ := hstage.staged rfl
    have hentry : s.files.entry = moved b placement.staged placement.pendingAudio := hs
    have hpending : s.files.entry placement.pendingAudio = some (.file content) := by
      rw [hentry, moved_target, hcontent]
    have hfree : s.files.entry placement.staged = none := by rw [hentry, moved_source hne]
    have hdirectory : s.files.isDirectory placement.staged.dropLast = true := by
      rw [plan.staged, isDirectory_iff, hentry, moved_of_ne]
      · exact .inr (hstaging.resolve_right (by simp))
      · rintro heq
        have hparent := plan.staged
        rw [← heq] at hparent
        simp at hparent
      · exact ne_of_kindOf (by rw [plan.pendingAudio]; decide)
    have hnot : s.files.isDirectory placement.staged = false := by
      rw [Bool.eq_false_iff, Ne, isDirectory_iff]
      have hnil := ne_nil_of_kindOf (p := placement.staged) (by simp [plan.kindOf_staged])
      simp [hnil, hfree]
    obtain ⟨files, hrename⟩ := rename_isOk hpending hdirectory hnot
    refine (restoreIfPresent_moves hrename hfree).mono ?_
    rintro exit t ⟨hexit, rfl⟩
    refine ⟨hexit, rfl, ?_⟩
    show files.entry = b
    rw [(rename_eq_ok hrename).2.2, hentry, moved_back hlayout.pendingAudio]

/-- From every arrangement the undo leads back to the contents before any move, less
the file that was journaled as created. -/
theorem rollbackReplacement_restores (plan : ReplacementPlan placement directory)
    (hlayout : Layout placement b) (hstage : Arrangement placement b placed audio artwork)
    (hstaging : b [staging] = some .directory ∨ placed = false)
    (hcreated : created = true → b (createdArtwork placement) ≠ some .directory)
    (hs : s.files.entry = arranged placement b placed audio artwork) :
    Ensures NoFaults (rollbackReplacement { placement with artworkCreated := created })
      (fun exit t => exit = .returned () ∧ t.db = s.db ∧ t.files.file =
        fileOf (if created then Function.update b (createdArtwork placement) none else b)) s := by
  -- The artwork's swap is undone first, then the audio's.
  refine ensures_failureIf (R := fun t => t.db = s.db ∧
    t.files.entry = audioAt placement b placed audio) ?_ ?_ ?_
  · intro hmode
    exact undoRetiredSwap_restores (hlayout.artworkPaths plan (by simpa using hmode))
      hstage.movesArtwork hs
  · intro hmode
    have hbefore : artwork = .before := by
      by_contra hne
      have hnot : placement.artworkMode ≠ .replace := by simpa using hmode
      exact hnot (hstage.replace hne)
    rw [hbefore] at hs
    exact ⟨rfl, hs⟩
  rintro t₁ ⟨hdb₁, hs₁⟩
  have hswapped := undoRetiredSwap_restores (hlayout.audioPaths plan) hstage.movesAudio hs₁
  refine .handleFailure hswapped ?_ (by simp) (by simp)
  rintro _ t₂ ⟨-, hdb₂, hs₂⟩
  have hpending := restoreStaged_restores plan hlayout hstage hstaging hs₂
  refine .handleFailure hpending ?_ (by simp) (by simp)
  rintro _ t₃ ⟨-, hdb₃, hs₃⟩
  -- Then the created file goes, and with it the directories that are left empty.
  refine ensures_failureIf (R := fun t => t.db = s.db ∧ t.files.entry =
    if created then Function.update b (createdArtwork placement) none else b) ?_ ?_ ?_
  · intro hc
    obtain rfl : created = true := hc
    refine (ensures_removeRootedFile (by rw [hs₃]; exact hcreated rfl)).mono ?_
    rintro exit t ⟨hexit, hdb, hentry⟩
    refine ⟨hexit, hdb.trans (hdb₃.trans (hdb₂.trans hdb₁)), ?_⟩
    rw [hentry, hs₃]
    rfl
  · intro hc
    obtain rfl : created = false := hc
    exact ⟨hdb₃.trans (hdb₂.trans hdb₁), by simpa using hs₃⟩
  rintro t₄ ⟨hdb₄, hs₄⟩
  have hclear : t₄.files.Clear placement.audio.dropLast := by
    intro p content hp hentry
    rw [hs₄] at hentry
    split_ifs at hentry
    · rw [Function.update_apply] at hentry
      split_ifs at hentry
      exact hlayout.clear p content hp hentry
    · exact hlayout.clear p content hp hentry
  refine .handleFailure (ensures_removeEmptyDirectories hclear) ?_ (by simp) (by simp)
  rintro _ t₅ ⟨-, hdb₅, hs₅⟩
  refine (ensures_resultOf_none rfl).mono ?_
  rintro exit t ⟨hexit, rfl⟩
  refine ⟨hexit, hdb₅.trans hdb₄, ?_⟩
  rw [hs₅, file_eq_fileOf, hs₄]

end Rollback

/-! ### What a course of events leaves behind -/

/-- The course of events, one fate for each step. -/
def Follows (fate : Step → Fate) : Step → Fate → Prop := fun l f => f = fate l

section Swap

variable {placement : ReplacementPlacement} {directory : RelativePath} {b : Contents}
  {audio artwork : SwapStage} {s t : Server} {fate : Step → Fate}

/-- The files are arranged in one of the ways of a swap, and the database is as it was. -/
def SwapLeft (placement : ReplacementPlacement) (b : Contents) (s t : Server)
    (audio artwork : SwapStage) : Prop :=
  t.db = s.db ∧ t.files.entry = arranged placement b true audio artwork ∧
    Arrangement placement b true audio artwork

/-- What moved of the artwork does not depend on the audio. -/
theorem Arrangement.withAudio (plan : ReplacementPlan placement directory)
    (hstage : Arrangement placement b true audio artwork) {other : SwapStage}
    (hmoves : other.MovesFiles placement.previousAudio placement.pendingAudio
      (placedAt placement b true)) : Arrangement placement b true other artwork where
  staged := hstage.staged
  unplaced h := by cases h
  movesAudio := hmoves
  movesArtwork := by
    have hartwork := hstage.movesArtwork
    cases artwork with
    | before => trivial
    | retired =>
      obtain ⟨-, -, hprevious, -⟩ := plan.replace (hstage.replace (by simp))
      obtain ⟨content, hcontent⟩ := hartwork
      rw [audioAt_of_kindOf plan (.inr (.inr hprevious))] at hcontent
      exact ⟨content, by rw [audioAt_of_kindOf plan (.inr (.inr hprevious)), hcontent]⟩
    | swapped =>
      obtain ⟨hpending, -, hprevious, -⟩ := plan.replace (hstage.replace (by simp))
      obtain ⟨⟨content, hcontent⟩, new, hnew⟩ := hartwork
      rw [audioAt_of_kindOf plan (.inr (.inr hprevious))] at hcontent
      rw [audioAt_of_kindOf plan (.inl hpending)] at hnew
      exact ⟨⟨content, by rw [audioAt_of_kindOf plan (.inr (.inr hprevious)), hcontent]⟩,
        new, by rw [audioAt_of_kindOf plan (.inl hpending), hnew]⟩
  replace := hstage.replace

/-- Moves of audio files and of retired artwork do not meet. -/
theorem moved_retiredArtwork (plan : ReplacementPlan placement directory)
    (hmode : placement.artworkMode = .replace) {e : Contents} {p q : RelativePath}
    (hp : kindOf p = .pendingAudio ∨ kindOf p = .retiredAudio ∨ kindOf p = .track)
    (hq : kindOf q = .pendingAudio ∨ kindOf q = .retiredAudio ∨ kindOf q = .track) :
    moved (moved e placement.previousArtwork placement.retiredArtwork) p q =
      moved (moved e p q) placement.previousArtwork placement.retiredArtwork := by
  obtain ⟨-, hretired, hprevious, -⟩ := plan.replace hmode
  apply moved_comm
  · apply ne_of_kindOf
    rcases hp with hp | hp | hp <;> simp [hp, hprevious]
  · apply ne_of_kindOf
    rcases hq with hq | hq | hq <;> simp [hq, hprevious]
  · apply ne_of_kindOf
    rcases hp with hp | hp | hp <;> simp [hp, hretired]
  · apply ne_of_kindOf
    rcases hq with hq | hq | hq <;> simp [hq, hretired]

/-- The retired audio goes back to its place. -/
theorem moved_unretire (hlayout : Layout placement b) (plan : ReplacementPlan placement directory) :
    moved (audioAt placement b true .retired) placement.retiredAudio placement.previousAudio =
      audioAt placement b true .before :=
  moved_back (hlayout.audioPaths plan).retired_free

/-- The swapped audio goes back to its pending path. -/
theorem moved_unswap (hlayout : Layout placement b) (plan : ReplacementPlan placement directory)
    (hmoves : SwapStage.swapped.MovesFiles placement.previousAudio placement.pendingAudio
      (placedAt placement b true)) :
    moved (audioAt placement b true .swapped) placement.audio placement.pendingAudio =
      audioAt placement b true .retired := by
  have hpaths : SwapPaths (placedAt placement b true) placement.retiredAudio
      placement.previousAudio placement.audio placement.pendingAudio := hlayout.audioPaths plan
  refine moved_back ?_
  rcases hpaths.canonical_free with heq | hfree
  · rw [heq, moved_source hpaths.retired_ne_previous.symm]
  · rw [moved_of_ne _ hpaths.retired_ne_canonical.symm, hfree]
    intro heq
    obtain ⟨⟨content, hcontent⟩, -⟩ := hmoves
    rw [heq, hcontent] at hfree
    cases hfree

/-- The undo in place of a swap of the audio, with the artwork retired or not. -/
theorem undoAudioSwap_leaves (plan : ReplacementPlan placement directory)
    (hlayout : Layout placement b) (hundo : ∀ n, fate .undoSwapAudio ≠ .fails n)
    (hartwork : artwork ≠ .swapped) (h : SwapLeft placement b s t .swapped artwork) :
    Ensures (Follows fate) (undoAudioSwap placement)
      (fun _ u => ∃ audio, SwapLeft placement b s u audio artwork) t := by
  obtain ⟨hdb, hentry, hstage⟩ := h
  have hpaths : SwapPaths (placedAt placement b true) placement.retiredAudio
      placement.previousAudio placement.audio placement.pendingAudio := hlayout.audioPaths plan
  -- Moves of audio are made beneath those of the artwork.
  have hbeneath : ∀ {e : Contents} {p q : RelativePath},
      (kindOf p = .pendingAudio ∨ kindOf p = .retiredAudio ∨ kindOf p = .track) →
      (kindOf q = .pendingAudio ∨ kindOf q = .retiredAudio ∨ kindOf q = .track) →
      moved (swapAt placement.retiredArtwork placement.previousArtwork placement.artwork
        placement.pendingArtwork e artwork) p q =
      swapAt placement.retiredArtwork placement.previousArtwork placement.artwork
        placement.pendingArtwork (moved e p q) artwork := by
    intro e p q hp hq
    cases artwork with
    | before => rfl
    | retired => exact moved_retiredArtwork plan (hstage.replace (by simp)) hp hq
    | swapped => exact absurd rfl hartwork
  have hretired : Arrangement placement b true .retired artwork :=
    hstage.withAudio plan hstage.movesAudio.1
  have hbefore : Arrangement placement b true .before artwork := hstage.withAudio plan trivial
  -- The new file can go back to its pending path.
  have hback : ∃ files, t.files.rename placement.audio placement.pendingAudio = .ok files := by
    obtain ⟨-, new, hnew⟩ := hstage.movesAudio
    have hstay : ∀ p, (kindOf p = .pendingAudio ∨ kindOf p = .retiredAudio ∨ kindOf p = .track) →
        t.files.entry p = audioAt placement b true .swapped p := by
      intro p hp
      rw [hentry]
      cases artwork with
      | before => rfl
      | retired =>
        obtain ⟨-, hretired, hprevious, -⟩ := plan.replace (hstage.replace (by simp))
        refine moved_of_ne (ne_of_kindOf ?_) (ne_of_kindOf ?_)
        · rcases hp with hp | hp | hp <;> simp [hp, hprevious]
        · rcases hp with hp | hp | hp <;> simp [hp, hretired]
      | swapped => exact absurd rfl hartwork
    have haudio : t.files.entry placement.audio = some (.file new) := by
      rw [hstay _ (.inr (.inr plan.audio)), audioAt, swapAt, moved_target,
        moved_of_ne hpaths.pending_ne_previous hpaths.retired_ne_pending.symm, hnew]
    have hfree : t.files.entry placement.pendingAudio = none := by
      rw [hstay _ (.inl plan.pendingAudio), audioAt, swapAt,
        moved_source hpaths.pending_ne_canonical]
    obtain ⟨files, hrename, -⟩ :=
      rename_sibling haudio hpaths.pending_sibling hfree hpaths.pending_ne_nil
    exact ⟨files, hrename⟩
  have hmoved : ∀ files, t.files.rename placement.audio placement.pendingAudio = .ok files →
      SwapLeft placement b s { t with files := files } .retired artwork := by
    intro files hrename
    refine ⟨hdb, ?_, hretired⟩
    show files.entry = _
    rw [(rename_eq_ok hrename).2.2, hentry, arranged,
      hbeneath (.inr (.inr plan.audio)) (.inl plan.pendingAudio), moved_unswap hlayout plan
        hstage.movesAudio]
    rfl
  have hpending : Ensures (Follows fate)
      (restoreRootedFile .undoSwapAudio placement.audio placement.pendingAudio)
      (fun exit u => match exit with
        | .returned _ => SwapLeft placement b s u .retired artwork
        | .failed _ => False
        | .died => SwapLeft placement b s u .swapped artwork) t := by
    refine .perform ?_ ?_ ?_ ?_
    · intro _ a u hrun
      obtain ⟨files, hrename⟩ := hback
      obtain rfl : _ = u := by simpa [Effect.atomic, hrename] using hrun
      exact hmoved files hrename
    · intro _ err hrun
      obtain ⟨files, hrename⟩ := hback
      simp [Effect.atomic, hrename] at hrun
    · intro n hfate
      exact absurd hfate.symm (hundo n)
    · intro _ _
      exact ⟨hdb, hentry, hstage⟩
  refine .handleFailure hpending ?_ ?_ ?_
  · rintro _ u ⟨hdbu, hu, hstageu⟩
    have hrestored : Ensures (Follows fate)
        (restoreRootedFile .undoRetireAudio placement.retiredAudio placement.previousAudio)
        (fun _ v => ∃ audio, SwapLeft placement b s v audio artwork) u := by
      refine ensures_restoreRootedFile ?_ ?_ ?_
      · intro files hrename
        refine ⟨.before, hdbu, ?_, hbefore⟩
        show files.entry = _
        rw [(rename_eq_ok hrename).2.2, hu, arranged,
          hbeneath (.inr (.inl plan.retiredAudio)) (.inr (.inr plan.previousAudio)),
          moved_unretire hlayout plan]
        rfl
      · exact fun _ => ⟨.retired, hdbu, hu, hstageu⟩
      · exact ⟨.retired, hdbu, hu, hstageu⟩
    have hresult : ∀ failures v, (∃ audio, SwapLeft placement b s v audio artwork) →
        Ensures (Follows fate) (resultOf failures)
          (fun _ w => ∃ audio, SwapLeft placement b s w audio artwork) v := by
      intro failures v hv
      unfold resultOf
      split
      · exact .pure hv
      · exact .fail hv
    exact .handleFailure hrestored (fun _ v hv => hresult _ v hv) (fun _ v hv => hresult _ v hv)
      fun v hv => hv
  · exact fun _ _ hfalse => hfalse.elim
  · exact fun u hu => ⟨.swapped, hu⟩

/-- Whatever becomes of a swap, it leaves one of its arrangements, provided that the
undo in place can move the new file off the canonical path. -/
theorem swapReplacement_leaves (plan : ReplacementPlan placement directory)
    (hlayout : Layout placement b) (hundo : ∀ n, fate .undoSwapAudio ≠ .fails n)
    (h : SwapLeft placement b s t .before .before) :
    Ensures (Follows fate) (swapReplacement placement)
      (fun _ u => ∃ audio artwork, SwapLeft placement b s u audio artwork) t := by
  obtain ⟨hdb, hentry, hstage⟩ := h
  -- Retire the previous audio.
  have hretire : Ensures (Follows fate)
      (rename .retireAudio "retire previous Managed Track" placement.previousAudio
        placement.retiredAudio)
      (fun exit u => match exit with
        | .returned _ => SwapLeft placement b s u .retired .before
        | _ => SwapLeft placement b s u .before .before) t := by
    refine ensures_rename ?_ (fun _ => ⟨hdb, hentry, hstage⟩) ⟨hdb, hentry, hstage⟩
    intro files hrename
    obtain ⟨⟨content, hcontent⟩, -, hmoved⟩ := rename_eq_ok hrename
    rw [hentry] at hcontent
    refine ⟨hdb, ?_, hstage.withAudio plan ⟨content, hcontent⟩⟩
    show files.entry = _
    rw [hmoved, hentry]
    rfl
  refine .seq hretire ?_ (fun _ u hu => ⟨_, _, hu⟩) fun u hu => ⟨_, _, hu⟩
  rintro _ u ⟨hdbu, hu, hstageu⟩
  -- Move the pending audio to its canonical path.
  have hswap : Ensures (Follows fate)
      (rename .swapAudio "place replacement Managed Track at Canonical Library Path"
        placement.pendingAudio placement.audio)
      (fun exit v => match exit with
        | .returned _ => SwapLeft placement b s v .swapped .before
        | _ => SwapLeft placement b s v .retired .before) u := by
    refine ensures_rename ?_ (fun _ => ⟨hdbu, hu, hstageu⟩) ⟨hdbu, hu, hstageu⟩
    intro files hrename
    obtain ⟨⟨content, hcontent⟩, -, hmoved⟩ := rename_eq_ok hrename
    have hpaths : SwapPaths (placedAt placement b true) placement.retiredAudio
        placement.previousAudio placement.audio placement.pendingAudio := hlayout.audioPaths plan
    have hpending : placedAt placement b true placement.pendingAudio = some (.file content) := by
      rw [hu] at hcontent
      exact (moved_of_ne hpaths.pending_ne_previous hpaths.retired_ne_pending.symm).symm.trans
        hcontent
    refine ⟨hdbu, ?_, hstageu.withAudio plan ⟨hstageu.movesAudio, content, hpending⟩⟩
    show files.entry = _
    rw [hmoved, hu]
    rfl
  refine .handle hswap ?_ ?_ fun v hv => ⟨_, _, hv⟩
  · rintro _ v ⟨hdbv, hv, hstagev⟩
    show Ensures (Follows fate)
      (if placement.artworkMode = .replace then swapReplacementArtwork placement else pure ()) _ v
    split_ifs with hmode
    swap
    · exact .pure ⟨_, _, hdbv, hv, hstagev⟩
    -- The artwork: retire, then swap, each with its undo in place.
    have hretireArtwork : Ensures (Follows fate)
        (rename .retireArtwork "retire previous Album Artwork" placement.previousArtwork
          placement.retiredArtwork)
        (fun exit w => match exit with
          | .returned _ => SwapLeft placement b s w .swapped .retired
          | _ => SwapLeft placement b s w .swapped .before) v := by
      refine ensures_rename ?_ (fun _ => ⟨hdbv, hv, hstagev⟩) ⟨hdbv, hv, hstagev⟩
      intro files hrename
      obtain ⟨⟨content, hcontent⟩, -, hmoved⟩ := rename_eq_ok hrename
      rw [hv] at hcontent
      refine ⟨hdbv, ?_, hstagev.staged, by simp, hstagev.movesAudio, ⟨content, hcontent⟩,
        fun _ => hmode⟩
      show files.entry = _
      rw [hmoved, hv]
      rfl
    refine .handle hretireArtwork ?_ ?_ fun w hw => ⟨_, _, hw⟩
    · rintro _ w ⟨hdbw, hw, hstagew⟩
      have hswapArtwork : Ensures (Follows fate)
          (rename .swapArtwork "place replacement Album Artwork" placement.pendingArtwork
            placement.artwork)
          (fun exit x => match exit with
            | .returned _ => SwapLeft placement b s x .swapped .swapped
            | _ => SwapLeft placement b s x .swapped .retired) w := by
        refine ensures_rename ?_ (fun _ => ⟨hdbw, hw, hstagew⟩) ⟨hdbw, hw, hstagew⟩
        intro files hrename
        obtain ⟨⟨content, hcontent⟩, -, hmoved⟩ := rename_eq_ok hrename
        have hpaths : SwapPaths (audioAt placement b true .swapped) placement.retiredArtwork
            placement.previousArtwork placement.artwork placement.pendingArtwork :=
          hlayout.artworkPaths plan hmode
        rw [hw] at hcontent
        have hpending : audioAt placement b true .swapped placement.pendingArtwork =
            some (.file content) :=
          (moved_of_ne hpaths.pending_ne_previous hpaths.retired_ne_pending.symm).symm.trans
            hcontent
        refine ⟨hdbw, ?_, hstagew.staged, by simp, hstagew.movesAudio,
          ⟨hstagew.movesArtwork, content, hpending⟩, fun _ => hmode⟩
        show files.entry = _
        rw [hmoved, hw]
        rfl
      refine .handle hswapArtwork (fun _ x hx => .pure ⟨_, _, hx⟩) ?_ fun x hx => ⟨_, _, hx⟩
      rintro e x ⟨hdbx, hx, hstagex⟩
      have hrestore : Ensures (Follows fate)
          (restoreRootedFile .restoreRetiredArtwork placement.retiredArtwork
            placement.previousArtwork)
          (fun _ y => ∃ artwork, artwork ≠ .swapped ∧
            SwapLeft placement b s y .swapped artwork) x := by
        refine ensures_restoreRootedFile ?_ (fun _ => ⟨.retired, by simp, hdbx, hx, hstagex⟩)
          ⟨.retired, by simp, hdbx, hx, hstagex⟩
        intro files hrename
        refine ⟨.before, by simp, hdbx, ?_, hstagex.staged, by simp, hstagex.movesAudio, trivial,
          by simp⟩
        show files.entry = _
        rw [(rename_eq_ok hrename).2.2, hx]
        exact moved_back (hlayout.artworkPaths plan hmode).retired_free
      have hundone : ∀ restored y, (∃ artwork, artwork ≠ .swapped ∧
          SwapLeft placement b s y .swapped artwork) →
          Ensures (Follows fate) (do
            let undone ← failureOf (undoAudioSwap placement)
            (fail (e.also [restored, undone]) : Act Unit))
            (fun _ u => ∃ audio artwork, SwapLeft placement b s u audio artwork) y := by
        rintro restored y ⟨artwork, hne, hy⟩
        refine .handleFailure (undoAudioSwap_leaves plan hlayout hundo hne hy) ?_ ?_ ?_
        · rintro _ z ⟨audio, hz⟩
          exact .fail ⟨audio, artwork, hz⟩
        · rintro _ z ⟨audio, hz⟩
          exact .fail ⟨audio, artwork, hz⟩
        · rintro z ⟨audio, hz⟩
          exact ⟨audio, artwork, hz⟩
      exact .handleFailure hrestore (fun _ y hy => hundone _ y hy) (fun _ y hy => hundone _ y hy)
        fun y ⟨artwork, _, hy⟩ => ⟨_, artwork, hy⟩
    · rintro e w hw
      refine .handleFailure (undoAudioSwap_leaves plan hlayout hundo (by simp) hw) ?_ ?_ ?_
      · rintro _ z ⟨audio, hz⟩
        exact .fail ⟨audio, _, hz⟩
      · rintro _ z ⟨audio, hz⟩
        exact .fail ⟨audio, _, hz⟩
      · rintro z ⟨audio, hz⟩
        exact ⟨audio, _, hz⟩
  · -- The pending audio did not move: put the previous one back.
    rintro e v ⟨hdbv, hv, hstagev⟩
    have hrestore : Ensures (Follows fate)
        (restoreRootedFile .restoreRetiredAudio placement.retiredAudio placement.previousAudio)
        (fun _ w => ∃ audio, SwapLeft placement b s w audio .before) v := by
      refine ensures_restoreRootedFile ?_ (fun _ => ⟨_, hdbv, hv, hstagev⟩) ⟨_, hdbv, hv, hstagev⟩
      intro files hrename
      refine ⟨.before, hdbv, ?_, hstagev.withAudio plan trivial⟩
      show files.entry = _
      rw [(rename_eq_ok hrename).2.2, hv]
      exact moved_unretire hlayout plan
    refine .handleFailure hrestore ?_ ?_ ?_
    · rintro _ w ⟨audio, hw⟩
      exact .fail ⟨audio, _, hw⟩
    · rintro _ w ⟨audio, hw⟩
      exact .fail ⟨audio, _, hw⟩
    · rintro w ⟨audio, hw⟩
      exact ⟨audio, _, hw⟩

end Swap

end Harmony.ManagedImport
