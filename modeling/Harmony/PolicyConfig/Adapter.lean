/-
# Forcing the rate of a Windows endpoint

The adapter changes the formats of the default output and keeps what they were in a file,
from the first change until they are back. Every policy call and every change of the file
is an effect that can fail or be cut off by a kill; a file is rewritten by truncating it
and then writing it.

Which output is the default, which endpoints are active and what Windows makes of a
format is found anew by every call. The formats that an endpoint had at first are kept
beside the program, and no step reads them.
-/

import Harmony.Library.Crash
import Harmony.Library.Table
import Harmony.PolicyConfig.Formats

namespace Harmony.PolicyConfig

open Crash Crash.Program

/-! ### The machine -/

structure Endpoint where
  formats : Formats
  original : Formats

/-- What a call finds. -/
structure Surroundings where
  default : Option String
  isActive : String → Bool
  supports : String → WaveFormat → Bool
  /-- The formats of an endpoint that has the first and is given the second. -/
  takes : String → Formats → Formats → Formats

inductive SavedFile
  | absent
  /-- Truncated, and not yet written. -/
  | truncated
  /-- Not what the adapter writes. -/
  | unreadable
  | saved (entries : List SavedFormats)
  deriving DecidableEq

structure Machine where
  surroundings : ℕ → Surroundings
  /-- How many calls were made. -/
  calls : ℕ
  endpoints : Table String Endpoint
  file : SavedFile
  /-- Whether the client runs. -/
  isRunning : Bool
  stderr : List String

inductive Label
  | com
  | policyConfig
  | defaultDevice
  | deviceState
  | deviceFormat
  | mixFormat
  | formatSupport
  | setDeviceFormat
  | createDirectory
  | truncate
  | write
  | removeFile
  | rename
  deriving DecidableEq

abbrev Act (α : Type) := Program Label Machine String α

namespace Machine

def here (m : Machine) : Surroundings := m.surroundings m.calls

def tick (m : Machine) : Machine := { m with calls := m.calls + 1 }

/-- What the file says. -/
def load (m : Machine) : Except String (List OriginalFormats) :=
  match m.file with
  | .absent => .ok []
  | .truncated => .error "EOF while parsing a value"
  | .unreadable => .error "expected value"
  | .saved entries =>
    match entries.mapM OriginalFormats.fromSaved with
    | some originals => .ok originals
    | none => .error "invalid saved format"

end Machine

/-! ### Calls -/

/-- A call of Windows, which finds the next surroundings. -/
def call {α : Type} (l : Label) (fault : String) (f : Machine → Except String (α × Machine)) :
    Act α :=
  perform l
    { run := fun m => (f m).map fun result => (result.1, result.2.tick)
      part := fun _ m => m.tick
      fault := fault }

/-- One that only reads. -/
def ask {α : Type} (l : Label) (fault : String) (f : Machine → Except String α) : Act α :=
  call l fault fun m => (f m).map fun a => (a, m)

def eprintln (message : String) : Act Unit :=
  update fun m => { m with stderr := message :: m.stderr }

def enterCom : Act Unit := ask .com "COM could not be initialized." fun _ => .ok ()

def unavailableMessage : String :=
  "Adaptive is not available on this Windows version: its audio policy interface could " ++
    "not be opened. Use Exclusive for bit-perfect playback."

def policyConfig : Act Unit := ask .policyConfig unavailableMessage fun _ => .ok ()

def defaultRenderDevice : Act String :=
  ask .defaultDevice "Adaptive could not find the default output" fun m =>
    match m.here.default with
    | some id => .ok id
    | none => .error "Adaptive could not find the default output: Element not found."

/-- An endpoint that cannot be asked is not active. -/
def isDeviceActive (id : String) : Act Bool := do
  let state ← attempt (ask .deviceState "Element not found." fun m => .ok (m.here.isActive id))
  match state with
  | .ok active => pure active
  | .error _ => pure false

def readEndpoint (m : Machine) (id : String) : Except String Endpoint :=
  match m.endpoints.lookup id with
  | some endpoint => .ok endpoint
  | none => .error "Element not found."

def deviceFormats (id : String) : Act Formats := do
  let device ← ask .deviceFormat "The output device format could not be read" fun m =>
    (readEndpoint m id).map (·.formats.device)
  let mix ← ask .mixFormat "The output mix format could not be read" fun m =>
    (readEndpoint m id).map (·.formats.mix)
  pure ⟨device, mix⟩

/-- Windows may accept the formats and keep others. -/
def setDeviceFormats (id : String) (formats : Formats) : Act Unit :=
  call .setDeviceFormat "The output device format could not be changed" fun m =>
    (readEndpoint m id).map fun _ =>
      ((), { m with
        endpoints := m.endpoints.modify id fun endpoint =>
          { endpoint with formats := m.here.takes id endpoint.formats formats } })

def deviceSupports (id : String) (format : WaveFormat) : Act Bool :=
  ask .formatSupport "The output device formats could not be checked" fun m =>
    .ok (m.here.supports id format)

def verifyDeviceFormats (id : String) (formats : Formats) : Act Unit := do
  let current ← deviceFormats id
  if current = formats then pure ()
  else fail (s!"Windows kept the output at {current.device.sampleRateHz} Hz " ++
    s!"instead of {formats.device.sampleRateHz} Hz.")

/-- Writes the formats only when the endpoint does not have them already. -/
def setDeviceFormatsIfChanged (id : String) (formats : Formats) : Act Unit := do
  let current ← deviceFormats id
  if current = formats then pure ()
  else do
    setDeviceFormats id formats
    verifyDeviceFormats id formats

/-! ### The file -/

/-- A change of the file, done or not done. -/
def changeFile (l : Label) (fault : String) (file : SavedFile) : Act Unit :=
  perform l (.atomic (fun m => .ok ((), { m with file })) fault)

/-- Writes the endpoints still waiting for their formats; none removes the file. -/
def store (originals : List OriginalFormats) : Act Unit := do
  if originals = [] then changeFile .removeFile "could not remove the saved formats" .absent
  else do
    perform .createDirectory (.atomic (fun m => .ok ((), m)) "could not create the directory")
    changeFile .truncate "Adaptive could not save the original output format" .truncated
    changeFile .write "Adaptive could not save the original output format"
      (.saved (originals.map OriginalFormats.toSaved))

/-- Restores every endpoint of the list that is present: those that still wait, and the
first failure. -/
def restoreEach : List OriginalFormats → Act (List OriginalFormats × Option String)
  | [] => pure ([], none)
  | original :: rest => do
    let active ← isDeviceActive original.deviceId
    if active then do
      eprintln "Adaptive restoring the original output format."
      let failure ←
        failureOf (setDeviceFormatsIfChanged original.deviceId original.formats)
      let (pending, firstError) ← restoreEach rest
      match failure with
      | none => pure (pending, firstError)
      | some error => pure (original :: pending, some error)
    else do
      eprintln
        "Adaptive keeps the original format of an absent output device until it returns."
      let (pending, firstError) ← restoreEach rest
      pure (original :: pending, firstError)

/-- Restores every saved endpoint that is present and saves the rest again, with those
that are to be kept. -/
def restorePresent (originals keep : List OriginalFormats) : Act (List OriginalFormats) := do
  let (pending, firstError) ← restoreEach originals
  store (pending ++ keep)
  match firstError with
  | some error => fail error
  | none => pure pending

/-- A file that cannot be read is set aside instead of failing. -/
def setAside (error : String) : Act Unit := do
  eprintln s!"Adaptive set aside an unreadable saved output format ({error})."
  let renamed ← attempt (changeFile .rename "access denied" .absent)
  match renamed with
  | .ok _ => pure ()
  | .error error => eprintln s!"Adaptive could not set the unreadable file aside: {error}"

/-- Puts back the formats of every saved endpoint that is present. -/
def restoreSaved : Act Unit := do
  let m ← get
  match m.load with
  | .error error => setAside error
  | .ok [] => pure ()
  | .ok originals => do
    enterCom
    policyConfig
    let _ ← restorePresent originals []
    pure ()

/-! ### The commands -/

/-- The formats that the hardware runs at: the original ones where it does not support the
rate, which Windows resamples to. -/
def target (original : OriginalFormats) (rateHz : UInt32) (supported : Bool) : Formats :=
  if supported then original.formats.withSampleRate rateHz else original.formats

/-- The saved original formats of the endpoint, or those it has now. -/
def originalOf (id : String) : List OriginalFormats → Act OriginalFormats
  | original :: _ => pure original
  | [] => do
    let formats ← deviceFormats id
    pure ⟨id, formats⟩

def force (rateHz : UInt32) : Act Unit := do
  let id ← defaultRenderDevice
  let m ← get
  match m.load with
  | .error error => fail error
  | .ok originals => do
    let saved ← restorePresent (originals.filter fun original => original.deviceId ≠ id)
      (originals.filter fun original => original.deviceId = id)
    let original ← originalOf id (originals.filter fun original => original.deviceId = id)
    -- Saved before anything changes.
    store (saved ++ [original])
    let supported ← deviceSupports id (original.formats.device.withSampleRate rateHz)
    setDeviceFormatsIfChanged id (target original rateHz supported)

def setForcedRateHz : Option UInt32 → Act Unit
  | some rateHz => do
    enterCom
    policyConfig
    force rateHz
  | none => restoreSaved

/-- A start goes on when the saved formats could not be restored. -/
def start : Act Unit := do
  let failure ← failureOf restoreSaved
  match failure with
  | none => pure ()
  | some error =>
    eprintln s!"Adaptive could not restore a saved output format at start: {error}"

/-! ### Runs of the client -/

inductive Event
  | start (fates : Label → ℕ → Fate)
  | setForcedRateHz (rateHz : Option UInt32) (fates : Label → ℕ → Fate)
  /-- The process is killed between two commands. -/
  | kill

def Machine.kill (m : Machine) : Machine := { m with isRunning := false }

def runCommand (program : Act Unit) (fates : Label → ℕ → Fate) (m : Machine) : Machine :=
  match program ⟨m, fates⟩ with
  | (.died, w) => w.state.kill
  | (_, w) => w.state

namespace Machine

def perform (m : Machine) : Event → Option Machine
  | .start fates =>
    if m.isRunning then none
    else some (runCommand PolicyConfig.start fates { m with isRunning := true })
  | .setForcedRateHz rateHz fates =>
    if m.isRunning then some (runCommand (PolicyConfig.setForcedRateHz rateHz) fates m) else none
  | .kill => some m.kill

end Machine

end Harmony.PolicyConfig
