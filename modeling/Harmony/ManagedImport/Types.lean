/-
# What Managed Import reads, writes and reports

The data that the parts of Managed Import share: its failures, what a Media
Inspection says about a file, the identity keys under which Artists, Albums and
Genres are found again, and the rows a commit places files for.

Paths are lists of components beneath the root of Managed Storage. The Unicode
tables, the hash and the random ids come from outside and are parameters.
-/

import Mathlib.Data.Int.Notation
import Mathlib.Data.List.Basic

namespace Harmony.ManagedImport

/-! ### Failures -/

inductive Sentinel
  | notFound
  | invalidState
  | revisionConflict
  | exactDuplicate
  | uploadTooLarge
  | batchTooLarge
  | uploadInterrupted
  | invalidUpload
  | insufficientStorage
  | unsafeStoragePath
  | trackNotFound
  | albumNotFound
  | notManagedTrack
  | deletionConflict
  | replacementConflict
  | notReplacementJob
  | replacementRequired
  | cancelled
  deriving DecidableEq

def Sentinel.message : Sentinel → String
  | notFound => "managed import job not found"
  | invalidState => "managed import job is not awaiting this operation"
  | revisionConflict => "managed import revision conflict"
  | exactDuplicate => "managed import file exactly duplicates a committed Track"
  | uploadTooLarge => "managed import file exceeds upload limit"
  | batchTooLarge => "managed import batch exceeds upload limit"
  | uploadInterrupted => "managed import upload was interrupted"
  | invalidUpload => "managed import upload is invalid"
  | insufficientStorage => "managed storage capacity is insufficient"
  | unsafeStoragePath => "managed storage path is unsafe"
  | trackNotFound => "track not found"
  | albumNotFound => "album not found"
  | notManagedTrack => "track is not managed"
  | deletionConflict => "permanent track deletion preview changed"
  | replacementConflict => "track replacement preview changed"
  | notReplacementJob => "managed import job does not replace a track"
  | replacementRequired => "managed import job requires track replacement confirmation"
  | cancelled => "context canceled"

/-- A rule that people can act on was broken. -/
structure ValidationError where
  code : String
  field : String
  reason : String
  deriving DecidableEq

/-- A failure, with every sentinel of the failures joined into it. -/
structure Error where
  sentinels : List Sentinel
  validation : Option ValidationError
  message : String
  deriving DecidableEq

namespace Error

def new (message : String) : Error := ⟨[], none, message⟩

def sentinel (s : Sentinel) : Error := ⟨[s], none, s.message⟩

def wrap (s : Sentinel) (detail : String) : Error := ⟨[s], none, s!"{s.message}: {detail}"⟩

def invalid (validation : ValidationError) (message : String) : Error :=
  ⟨[], some validation, message⟩

def context (e : Error) (operation : String) : Error :=
  { e with message := s!"{operation}: {e.message}" }

/-- One failure after another, joined. -/
def and (e later : Error) : Error where
  sentinels := e.sentinels ++ later.sentinels
  validation := e.validation.or later.validation
  message := s!"{e.message}\n{later.message}"

/-- The failures that are there, joined; `none` when there is none. -/
def join (parts : List (Option Error)) : Option Error :=
  parts.foldl (fun joined part =>
    match joined, part with
    | none, part => part
    | some e, none => some e
    | some e, some later => some (e.and later)) none

/-- A failure with those that follow it. -/
def also (e : Error) (parts : List (Option Error)) : Error :=
  parts.reduceOption.foldl Error.and e

def is (e : Error) (s : Sentinel) : Bool := s ∈ e.sentinels

end Error

/-! ### The world outside -/

abbrev Bytes := List UInt8

/-- The components of a path beneath the root of Managed Storage; none where the
source has an empty path. -/
abbrev RelativePath := List String

/-- An `f64`, carried as its bits. -/
abbrev F64 := UInt64

/-- What the program takes from Unicode, SHA-256, the file system's clock and its
random ids. -/
structure Platform where
  nfc : String → String
  defaultCaseFoldStr : String → String
  sha256Hex : Bytes → String
  /-- The modification time of a file, in seconds. -/
  mtime : RelativePath → ℤ
  /-- The ids that `uuid` draws, in order. -/
  uuid : ℕ → String
  /-- Random ids never repeat. -/
  uuid_injective : Function.Injective uuid

/-- A platform for texts that are their own normal form: ids count up in unary, and
a hash spells its bytes out. -/
def plainPlatform : Platform where
  nfc := id
  defaultCaseFoldStr := id
  sha256Hex bytes := String.ofList (bytes.map fun b => Char.ofNat b.toNat)
  mtime _ := 0
  uuid n := String.ofList (List.replicate n 'i')
  uuid_injective m n h := by
    have hlist := String.ofList_injective h
    simpa using congrArg List.length hlist

/-! ### Media Inspection -/

structure ReplayGain where
  trackGainDb : Option F64
  trackPeak : Option F64
  albumGainDb : Option F64
  albumPeak : Option F64

structure MediaPosition where
  number : ℤ
  total : ℤ

structure NormalizedMetadata where
  /-- Overrides the Album identity derived from the credits and title. -/
  albumIdentityKey : String
  title : String
  artists : List String
  albumArtists : List String
  album : String
  trackPosition : MediaPosition
  discPosition : MediaPosition
  genres : List String
  year : ℤ
  replayGain : ReplayGain
  /-- Unsynchronised lyrics; empty when absent. -/
  lyrics : String

structure AlbumArtwork where
  mimeType : String
  width : ℤ
  height : ℤ
  data : Bytes
  /-- Empty when the file carries no artwork. -/
  sha256 : String

structure TechnicalAudio where
  format : String
  container : String
  codec : String
  durationMs : ℤ
  sampleRateHz : ℤ
  channelCount : ℤ
  bitDepth : ℤ
  bitrateKbps : ℤ

structure MediaInspection where
  metadata : NormalizedMetadata
  albumArtwork : AlbumArtwork
  audio : TechnicalAudio
  fileSha256 : String

/-! ### Identity keys -/

section Identity

variable (P : Platform)

/-- The Unicode property `White_Space`. -/
def isWhiteSpace (c : Char) : Bool :=
  (0x9 ≤ c.val ∧ c.val ≤ 0xd) ∨ c.val = 0x20 ∨ c.val = 0x85 ∨ c.val = 0xa0 ∨ c.val = 0x1680 ∨
    (0x2000 ≤ c.val ∧ c.val ≤ 0x200a) ∨ c.val = 0x2028 ∨ c.val = 0x2029 ∨ c.val = 0x202f ∨
    c.val = 0x205f ∨ c.val = 0x3000

/-- Whitespace at the ends dropped, and each run of it inside made one space. -/
def collapseWhitespace (value : String) : String :=
  " ".intercalate (((value.toList.splitOnP isWhiteSpace).filter (· ≠ [])).map String.ofList)

/-- NFC, whitespace collapsed, then Unicode case folding. -/
def normalizeIdentity (value : String) : String :=
  P.defaultCaseFoldStr (collapseWhitespace (P.nfc value))

def normalizeCredits (credits : List String) : List String :=
  credits.map (normalizeIdentity P)

def albumKeyOf (albumArtists : List String) (album : String) : String :=
  "\x1e".intercalate (normalizeCredits P albumArtists) ++ "\x1f" ++ normalizeIdentity P album

def albumIdentityKey (metadata : NormalizedMetadata) : String :=
  if metadata.albumIdentityKey ≠ "" then metadata.albumIdentityKey
  else albumKeyOf P metadata.albumArtists metadata.album

def trackIdentityKey (metadata : NormalizedMetadata) : String :=
  s!"{metadata.discPosition.number}\x1f{metadata.trackPosition.number}\x1f" ++
    normalizeIdentity P metadata.title

end Identity

/-! ### What a commit works on -/

/-- The rows a commit places files for. -/
structure CommitIdentity where
  albumArtistId : String
  albumId : String
  trackId : String
  existingArtworkPath : RelativePath
  existingArtworkSha256 : String

/-- The files of a commit. -/
structure PlacedFiles where
  audioPath : RelativePath
  artworkPath : RelativePath
  stagedPath : RelativePath
  artworkCreated : Bool
  deriving DecidableEq

inductive ReplacementArtworkMode
  | none
  | existing
  | create
  | replace
  deriving DecidableEq

/-- Every path a Track Replacement touches. -/
structure ReplacementPlacement where
  artworkMode : ReplacementArtworkMode
  staged : RelativePath
  pendingAudio : RelativePath
  audio : RelativePath
  previousAudio : RelativePath
  retiredAudio : RelativePath
  pendingArtwork : RelativePath
  artwork : RelativePath
  previousArtwork : RelativePath
  retiredArtwork : RelativePath
  artworkCreated : Bool
  deriving DecidableEq

def positive (value : ℤ) : Option ℤ := if 0 < value then some value else none

end Harmony.ManagedImport
