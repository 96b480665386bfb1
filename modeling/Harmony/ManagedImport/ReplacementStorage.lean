/-
# The files of a Track Replacement

The upload first goes to a pending path beside the canonical one, and so does new
artwork for an Album that has some. The swap retires the previous file, moves the
pending one to its canonical path, and does the same for the artwork. The undo
judges from the files alone: a retired file proves that its swap has started.
-/

import Harmony.ManagedImport.Storage

namespace Harmony.ManagedImport

open Crash Crash.Program

/-! ### Placing -/

section Place

variable (P : Platform) (inspection : MediaInspection) (identity : CommitIdentity)

/-- Prepares the artwork; whether a file was created for it. -/
def placeReplacementArtwork (placement : ReplacementPlacement) (artworkCreated : Act Unit) :
    Act Bool :=
  let artwork := inspection.albumArtwork
  match placement.artworkMode with
  | .none => pure false
  | .existing => do
    match ← attempt (verifyRootedFileHash P .verifyExistingArtwork placement.artwork
        identity.existingArtworkSha256) with
    | .ok _ => pure false
    | .error e => fail (e.context "verify existing Album Artwork")
  | .replace =>
    writeRootedArtwork P placement.pendingArtwork artwork.data artwork.sha256 artworkCreated
  | .create => writeRootedArtwork P placement.artwork artwork.data artwork.sha256 artworkCreated

/-- Moves the upload onto its pending path and prepares the artwork without touching
the previous managed file. -/
def placeReplacement (placement : ReplacementPlacement) (artworkCreated : Act Unit) :
    Act ReplacementPlacement := do
  ensureDirectory .ensureDirectory placement.audio.dropLast
  rename .placeAudio "place replacement Managed Track on pending path" placement.staged
    placement.pendingAudio
  match ← attempt (placeReplacementArtwork P inspection identity placement artworkCreated) with
  | .ok created => pure { placement with artworkCreated := created }
  | .error e => do
    let restored ← failureOf
      (restoreRootedFile .restoreStaged placement.pendingAudio placement.staged)
    fail (e.also [restored])

end Place

/-! ### Swapping -/

def undoAudioSwap (placement : ReplacementPlacement) : Act Unit := do
  let pending ← failureOf
    (restoreRootedFile .undoSwapAudio placement.audio placement.pendingAudio)
  let previous ← failureOf
    (restoreRootedFile .undoRetireAudio placement.retiredAudio placement.previousAudio)
  resultOf [pending, previous]

/-- Puts new artwork in the place of the previous one; a failure also takes the swap
of the audio back. -/
def swapReplacementArtwork (placement : ReplacementPlacement) : Act Unit := do
  match ← attempt (rename .retireArtwork "retire previous Album Artwork" placement.previousArtwork
      placement.retiredArtwork) with
  | .error e => do
    let undone ← failureOf (undoAudioSwap placement)
    fail (e.also [undone])
  | .ok _ =>
    match ← attempt (rename .swapArtwork "place replacement Album Artwork"
        placement.pendingArtwork placement.artwork) with
    | .error e => do
      let restored ← failureOf (restoreRootedFile .restoreRetiredArtwork placement.retiredArtwork
        placement.previousArtwork)
      let undone ← failureOf (undoAudioSwap placement)
      fail (e.also [restored, undone])
    | .ok _ => pure ()

/-- Retires the previous file and moves the verified replacement onto its canonical
path. -/
def swapReplacement (placement : ReplacementPlacement) : Act Unit := do
  rename .retireAudio "retire previous Managed Track" placement.previousAudio
    placement.retiredAudio
  match ← attempt (rename .swapAudio "place replacement Managed Track at Canonical Library Path"
      placement.pendingAudio placement.audio) with
  | .error e => do
    let restored ← failureOf (restoreRootedFile .restoreRetiredAudio placement.retiredAudio
      placement.previousAudio)
    fail (e.also [restored])
  | .ok _ =>
    if placement.artworkMode = .replace then swapReplacementArtwork placement else pure ()

/-! ### Undoing -/

def restoreIfPresent (source target : RelativePath) : Act Unit := do
  let present ← isPresent .inspectRollback s!"inspect {quoted source} before restore" source
  if present then
    match ← attempt (isPresent .inspectRollback s!"inspect {quoted target}" target) with
    | .ok true => fail (.wrap .unsafeStoragePath s!"restore target {quoted target} already exists")
    | _ => restoreRootedFile .rollbackFile source target
  else pure ()

/-- Moves canonical files back only when the retired copy proves the swap started;
before it the canonical path may hold the previous file. -/
def undoRetiredSwap (retired previous canonical pending : RelativePath) : Act Unit := do
  let present ← isPresent .inspectRollback
    s!"inspect retired Managed Storage file {quoted retired}" retired
  if present then do
    let moved ← failureOf (restoreIfPresent canonical pending)
    let restored ← failureOf (restoreIfPresent retired previous)
    resultOf [moved, restored]
  else pure ()

/-- The artwork file that placing may create. -/
def createdArtwork (placement : ReplacementPlacement) : RelativePath :=
  if placement.artworkMode = .replace then placement.pendingArtwork else placement.artwork

/-- Restores the previous file and returns the replacement to staging, judging from
the files rather than the journaled phase. -/
def rollbackReplacement (placement : ReplacementPlacement) : Act Unit := do
  let artworkSwap ← failureIf (placement.artworkMode = .replace)
    (undoRetiredSwap placement.retiredArtwork placement.previousArtwork placement.artwork
      placement.pendingArtwork)
  let audioSwap ← failureOf
    (undoRetiredSwap placement.retiredAudio placement.previousAudio placement.audio
      placement.pendingAudio)
  let pending ← failureOf (restoreIfPresent placement.pendingAudio placement.staged)
  let artwork ← failureIf placement.artworkCreated
    (removeRootedFile .removeArtwork (createdArtwork placement)
      "uncommitted replacement Album Artwork")
  let directories ← failureOf (removeEmptyDirectoriesUnder .removeDirectories
    placement.audio.dropLast [canonicalLibraryRoot])
  resultOf [artworkSwap, audioSwap, pending, artwork, directories]

/-! ### Completing -/

def replacementPlacementFromJournal (journal : ReplacementJournalRow) : ReplacementPlacement where
  artworkMode := journal.artworkMode
  staged := journal.stagedFilePath
  pendingAudio := journal.pendingAudioPath
  audio := journal.audioFilePath
  previousAudio := journal.previousAudioPath
  retiredAudio := journal.retiredAudioPath
  pendingArtwork := journal.pendingArtworkPath
  artwork := journal.artworkFilePath
  previousArtwork := journal.previousArtworkPath
  retiredArtwork := journal.retiredArtworkPath
  artworkCreated := journal.isArtworkCreated

end Harmony.ManagedImport
