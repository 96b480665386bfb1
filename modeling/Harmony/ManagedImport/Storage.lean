/-
# Placing the artwork of a commit

For a new Album the artwork is created beside its files. It is created empty, then its creation
is journaled, then it is written: an existing file must match.

Symbolic links and the checks against them are left out, as are permissions.
-/

import Harmony.ManagedImport.Effects
import Harmony.ManagedImport.Placement

namespace Harmony.ManagedImport

open Crash Crash.Program

/-- Runs only under a condition, for the failure. -/
def failureIf (condition : Bool) (x : Act Unit) : Act (Option Error) :=
  if condition then failureOf x else pure none

/-! ### Album Artwork -/

section Artwork

variable (P : Platform)

/-- An existing file must be the artwork of the selected Album. -/
def verifyMatchingArtwork (path : RelativePath) (expected : String) : Act Unit := do
  match ← attempt (verifyRootedFileHash P .verifyExistingArtwork path expected) with
  | .ok _ => pure ()
  | .error e => fail (.invalid ⟨"album_artwork_conflict", "artwork",
      "canonical Album Artwork differs from the selected Album"⟩ e.message)

/-- Creates an empty file, exclusively; `false` when something is there. -/
def createExclusively (path : RelativePath) : Act Bool :=
  perform .createArtwork (.atomic (fun s =>
    match s.files.createNew path [] with
    | .ok files => .ok (true, { s with files := files })
    | .error .alreadyExists => .ok (false, s)
    | .error e => .error (io "create canonical Album Artwork" e))
    (ioFault "create canonical Album Artwork"))

/-- Journals the creation of the artwork, writes it and reads it back. -/
def fillArtwork (path : RelativePath) (data : Bytes) (expected : String)
    (artworkCreated : Act Unit) : Act Unit := do
  artworkCreated
  writeAll .writeArtwork path data
  verifyRootedFileHash P .verifyNewArtwork path expected

/-- Creates the artwork exclusively; an existing file must match. Returns whether
this call created it. -/
def writeRootedArtwork (path : RelativePath) (data : Bytes) (expected : String)
    (artworkCreated : Act Unit) : Act Bool := do
  let created ← createExclusively path
  if created then
    match ← attempt (fillArtwork P path data expected artworkCreated) with
    | .ok _ => pure true
    | .error e => do
      let removed ← failureOf (removeRootedFile .removeNewArtwork path "Canonical Album Artwork")
      fail (e.also [removed])
  else do
    verifyMatchingArtwork P path expected
    pure false

end Artwork

end Harmony.ManagedImport
