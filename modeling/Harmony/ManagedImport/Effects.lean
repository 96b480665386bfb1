/-
# The effects of Managed Import

Managed Import works on a library database and on the files of Managed Storage.
It advances them by effects that are durable one by one: a file operation, or a
transaction of the database. Every effect has a step of its own, so that a course
of events can say what becomes of each.

A file operation is done whole or not at all, but for the loops over directories
and the writing of a file, which can stop part of the way. A transaction can be
reported as failed although it was committed.
-/

import Harmony.Library.Crash
import Harmony.Library.FileTree
import Harmony.ManagedImport.CommitData

namespace Harmony.ManagedImport

open Crash Crash.Program

/-- The library and the files. -/
structure Server where
  db : Database
  files : FileTree String Bytes

/-- The places where Managed Import performs an effect. -/
inductive Step
  /- placing an upload -/
  | ensureDirectory
  | verifyExistingArtwork
  | inspectArtwork
  | placeAudio
  | createArtwork
  | markArtworkCreated
  | writeArtwork
  | verifyNewArtwork
  | removeNewArtwork
  | restoreStaged
  /- swapping a Track Replacement -/
  | verifyPlacement
  | retireAudio
  | swapAudio
  | restoreRetiredAudio
  | retireArtwork
  | swapArtwork
  | restoreRetiredArtwork
  | undoSwapAudio
  | undoRetireAudio
  /- undoing and completing -/
  | inspectRollback
  | rollbackFile
  | removeArtwork
  | removeDirectories
  | removeManagedFile
  | removeStaged
  | listStaged
  /- confirming -/
  | checkCancel
  | inspectStaged
  | inspectManaged
  | preflight
  /- the database -/
  | readLibrary
  | createJournal
  | advanceJournal
  | writeLibrary
  | publish
  | closeJournal
  | recordReason
  | rollbackLibrary
  | changeJobs
  deriving DecidableEq

abbrev Act (α : Type) := Program Step Server Error α

/-! ### Failures of effects -/

def ioMessage : IoError → String
  | .notFound => "No such file or directory (os error 2)"
  | .alreadyExists => "File exists (os error 17)"
  | .notADirectory => "Not a directory (os error 20)"
  | .isADirectory => "Is a directory (os error 21)"
  | .directoryNotEmpty => "Directory not empty (os error 39)"

def io (operation : String) (e : IoError) : Error := .new s!"{operation}: {ioMessage e}"

/-- A failure of the disk. -/
def ioFault (operation : String) : Error := .new s!"{operation}: Input/output error (os error 5)"

def quoted (path : RelativePath) : String := s!"\"{showPath path}\""

/-- `result_of` of the failures that were collected. -/
def resultOf (failures : List (Option Error)) : Act Unit :=
  match Error.join failures with
  | none => pure ()
  | some e => fail e

/-! ### File operations -/

section Files

/-- A file operation that is done whole or not at all. -/
def onFiles (l : Step) (operation : String)
    (f : FileTree String Bytes → Except IoError (FileTree String Bytes)) : Act Unit :=
  perform l (.atomic (fun s =>
    match f s.files with
    | .ok files => .ok ((), { s with files := files })
    | .error e => .error (io operation e)) (ioFault operation))

/-- Looks at the files. -/
def lookAt {α : Type} (l : Step) (operation : String)
    (f : FileTree String Bytes → Except Error α) : Act α :=
  perform l (.atomic (fun s => (f s.files).map fun a => (a, s)) (ioFault operation))

def rename (l : Step) (operation : String) (source target : RelativePath) : Act Unit :=
  onFiles l operation fun files => files.rename source target

def restoreRootedFile (l : Step) (source target : RelativePath) : Act Unit :=
  rename l
    s!"restore Managed Import staging file from {quoted source} to {quoted target}" source target

/-- Removes a file; one that is gone is removed. -/
def removeRootedFile (l : Step) (path : RelativePath) (description : String) : Act Unit :=
  onFiles l s!"remove {description} {quoted path}" fun files =>
    match files.discard path with
    | .error .notFound => .ok files
    | result => result

/-- Whether something is there; `symlink_metadata` with a missing file told apart. -/
def isPresent (l : Step) (operation : String) (path : RelativePath) : Act Bool :=
  lookAt l operation fun files => .ok (files.entry path).isSome

/-- Hashes a file and compares. -/
def verifyRootedFileHash (P : Platform) (l : Step) (path : RelativePath) (expected : String) :
    Act Unit :=
  lookAt l "hash Managed Storage file" fun files =>
    match files.entry path with
    | none => .error (io s!"inspect Managed Storage path {quoted path}" .notFound)
    | some .directory => .error (io "hash Managed Storage file" .isADirectory)
    | some (.file content) =>
      let actual := P.sha256Hex content
      if actual = expected then .ok ()
      else .error (.new s!"verify Managed Storage file hash: got {actual}, want {expected}")

/-- Creates each missing directory of a path. -/
def ensureDirectory (l : Step) (path : RelativePath) : Act Unit :=
  perform l
    { run := fun s =>
        match s.files.makeDirectories path with
        | .ok files => .ok ((), { s with files := files })
        | .error e => .error (io s!"create Managed Storage directory {quoted path}" e)
      part := fun n s => { s with files := s.files.makeSomeDirectories path n }
      fault := ioFault s!"create Managed Storage directory {quoted path}" }

/-- Writes the content of a file that was created empty. -/
def writeAll (l : Step) (path : RelativePath) (data : Bytes) : Act Unit :=
  perform l
    { run := fun s =>
        match s.files.write path data with
        | .ok files => .ok ((), { s with files := files })
        | .error e => .error (io "write Album Artwork" e)
      part := fun n s =>
        match s.files.write path (data.take n) with
        | .ok files => { s with files := files }
        | .error _ => s
      fault := ioFault "write Album Artwork" }

/-- Removes every empty directory from `directory` upwards, stopping at the root or
at `boundary`. -/
def removeEmptyDirectoriesUnder (l : Step) (directory boundary : RelativePath) : Act Unit :=
  perform l
    { run := fun s =>
        match s.files.prune boundary directory with
        | .ok files => .ok ((), { s with files := files })
        | .error e =>
          .error (io s!"open Managed Storage directory {quoted directory} for cleanup" e)
      part := fun n s =>
        match FileTree.pruneSome boundary (min n directory.length) s.files directory with
        | .ok files => { s with files := files }
        | .error _ => s
      fault := ioFault s!"remove empty Managed Storage directory {quoted directory}" }

end Files

/-! ### Transactions -/

/-- Runs a transaction on the database. -/
def transaction {α : Type} (l : Step) (x : Tx α) : Act α :=
  perform l (.acknowledged (fun s =>
    match x s.db with
    | .ok (a, db) => .ok (a, { s with db := db })
    | .error e => .error e) (.new "database is unavailable"))

/-- Reads the database. -/
def query {α : Type} (f : Database → Except Error α) : Act α :=
  perform .readLibrary (.atomic (fun s => (f s.db).map fun a => (a, s))
    (.new "database is unavailable"))

/-! ### What an effect ensures -/

section Rules

variable {α : Type} {allowed : Step → Fate → Prop} {s : Server} {l : Step} {operation : String}
  {Q : Exit Error Unit → Server → Prop}

theorem ensures_onFiles {f : FileTree String Bytes → Except IoError (FileTree String Bytes)}
    (hdone : ∀ files, f s.files = .ok files → Q (.returned ()) { s with files := files })
    (hfailed : ∀ e, Q (.failed e) s) (hdied : Q .died s) :
    Ensures allowed (onFiles l operation f) Q s := by
  refine .perform ?_ ?_ ?_ ?_
  · intro _ a t hrun
    cases hf : f s.files with
    | error e => simp [Effect.atomic, hf] at hrun
    | ok files =>
      obtain rfl : _ = t := by simpa [Effect.atomic, hf] using hrun
      exact hdone files hf
  · intro _ err _
    exact hfailed err
  · intro _ _
    exact hfailed _
  · intro _ _
    exact hdied

theorem ensures_rename {source target : RelativePath}
    (hdone : ∀ files, s.files.rename source target = .ok files →
      Q (.returned ()) { s with files := files })
    (hfailed : ∀ e, Q (.failed e) s) (hdied : Q .died s) :
    Ensures allowed (rename l operation source target) Q s :=
  ensures_onFiles hdone hfailed hdied

theorem ensures_restoreRootedFile {source target : RelativePath}
   
    (hdone : ∀ files, s.files.rename source target = .ok files →
      Q (.returned ()) { s with files := files })
    (hfailed : ∀ e, Q (.failed e) s) (hdied : Q .died s) :
    Ensures allowed (restoreRootedFile l source target) Q s :=
  ensures_onFiles hdone hfailed hdied

/-- A file operation that meets no fault. -/
theorem ensures_onFiles_done {f : FileTree String Bytes → Except IoError (FileTree String Bytes)}
    (hfate : ∀ fate, allowed l fate → fate = .done) {files : FileTree String Bytes}
    (hf : f s.files = .ok files) (hdone : Q (.returned ()) { s with files := files }) :
    Ensures allowed (onFiles l operation f) Q s := by
  refine .perform ?_ ?_ ?_ ?_
  · intro _ a t hrun
    obtain rfl : _ = t := by simpa [Effect.atomic, hf] using hrun
    exact hdone
  · intro _ err hrun
    simp [Effect.atomic, hf] at hrun
  · intro _ h
    cases hfate _ h
  · intro _ h
    cases hfate _ h

theorem ensures_lookAt {f : FileTree String Bytes → Except Error α}
    {Q : Exit Error α → Server → Prop}
    (hdone : ∀ a, f s.files = .ok a → Q (.returned a) s)
    (hfailed : ∀ e, Q (.failed e) s) (hdied : Q .died s) :
    Ensures allowed (lookAt l operation f) Q s := by
  refine .perform ?_ ?_ ?_ ?_
  · intro _ a t hrun
    cases hf : f s.files with
    | error e => simp [Effect.atomic, hf, Except.map] at hrun
    | ok b =>
      obtain ⟨rfl, rfl⟩ : b = a ∧ s = t := by simpa [Effect.atomic, hf, Except.map] using hrun
      exact hdone b hf
  · intro _ err _
    exact hfailed err
  · intro _ _
    exact hfailed _
  · intro _ _
    exact hdied

theorem ensures_lookAt_done {f : FileTree String Bytes → Except Error α}
    {Q : Exit Error α → Server → Prop} (hfate : ∀ fate, allowed l fate → fate = .done) {a : α}
    (hf : f s.files = .ok a) (hdone : Q (.returned a) s) :
    Ensures allowed (lookAt l operation f) Q s := by
  refine .perform ?_ ?_ ?_ ?_
  · intro _ b t hrun
    obtain ⟨rfl, rfl⟩ : a = b ∧ s = t := by simpa [Effect.atomic, hf, Except.map] using hrun
    exact hdone
  · intro _ err hrun
    simp [Effect.atomic, hf, Except.map] at hrun
  · intro _ h
    cases hfate _ h
  · intro _ h
    cases hfate _ h

end Rules

end Harmony.ManagedImport
