/-
# Failures of an inspection

Independent failures are joined in the order of the checks, so that people see every field
that has to change. The reason they see leaves the internal details of the message out.
-/

import Harmony.Library.Chars

namespace Harmony.Inspect

inductive Code
  | fileRead
  | unsupportedFormat
  | invalidMetadata
  | missingArtwork
  | invalidArtwork
  | audioDecode
  | validationCancelled
  deriving DecidableEq

def Code.publicReason (code : Code) (message : String) : String :=
  match code with
  | .invalidMetadata =>
    match Chars.splitOnce ": ".toList message.toList with
    | some (reason, _) => String.ofList reason
    | none => message
  | .missingArtwork => message
  | .fileRead => "file could not be read"
  | .unsupportedFormat => "file container or audio codec is not supported"
  | .invalidArtwork => "embedded artwork is invalid"
  | .audioDecode => "audio stream failed full decode"
  | .validationCancelled => "validation failed"

structure InspectionError where
  code : Code
  field : String
  reason : String
  message : String
  deriving DecidableEq

inductive Leaf
  | inspection (error : InspectionError)
  /-- A failure outside the import profile. -/
  | other (message : String)
  deriving DecidableEq

/-- Independent failures in the order of the checks. -/
structure Failure where
  leaves : List Leaf
  deriving DecidableEq

def error (code : Code) (field message : String) : Failure :=
  ⟨[.inspection ⟨code, field, code.publicReason message, message⟩]⟩

def audioError (message : String) : Failure := error .audioDecode "audio" message

def fileError (message : String) : Failure := error .fileRead "file" message

def cancelled : Failure := error .validationCancelled "validation" "context canceled"

namespace Failure

def isEmpty (failure : Failure) : Bool := failure.leaves.isEmpty

/-- The failures of every part, in order. -/
def join (parts : List (Option Failure)) : Failure :=
  ⟨parts.flatMap fun part => (part.map leaves).getD []⟩

def intoResult (failure : Failure) : Except Failure Unit :=
  if failure.isEmpty then .ok () else .error failure

end Failure

/-- The failure of a result. -/
def errOf {α : Type} : Except Failure α → Option Failure
  | .ok _ => none
  | .error failure => some failure

end Harmony.Inspect
