/-
# Handing the volume to the output device

A bit-perfect Output Mode keeps mpv at full volume, so the listener's attenuation
moves onto the device and comes back afterwards. The level is in three places: the
processing settings, the device, and a record of what the device carries. They change
one after the other, and the process may die between any two effects.

Volumes and gains are factors, and the gain is relative to where the device was. The
step that the hardware takes for a volume is a parameter, and so is the factor by which
what it took may differ. A raw card has its own volume back when PipeWire takes the card
back, not before. Two levels are kept beside the program, and no step reads them: the
loudest that the listener chose, and the slider's value times the level handed off.
-/

import Mathlib.Algebra.Order.Field.Basic
import Harmony.Library.Crash

namespace Harmony.DeviceVolume

open Crash Crash.Program

inductive ProcessingProfile
  | direct
  | processed
  deriving DecidableEq

/-- Of the processing, what a change of the volume reads or sets. -/
structure ProcessingState (K : Type) where
  profile : ProcessingProfile
  softwareVolume : K
  isReplayGainOn : Bool
  isEqualizerEnabled : Bool
  deriving DecidableEq

inductive VolumeRoute
  | systemSink
  | alsaCard (card : ℕ)
  deriving DecidableEq

/-- Attenuation moved from mpv onto the output device, and the software volume it
replaced. -/
structure DeviceAttenuation (K : Type) where
  route : VolumeRoute
  applied : K
  softwareVolume : K
  target : Option String
  deriving DecidableEq

inductive RecordedRoute
  | systemSink
  | alsaCard
  deriving DecidableEq

/-- A hand-off as it stands on the device. -/
structure DeviceAttenuationRecord (K : Type) where
  route : RecordedRoute
  target : Option String
  applied : K
  softwareVolume : K
  listenerLevelRestored : Bool
  deriving DecidableEq

inductive RecordFile (K : Type)
  | absent
  | unreadable
  | saved (record : DeviceAttenuationRecord K)
  deriving DecidableEq

/-- What the running process holds. -/
structure Core (K : Type) where
  processing : ProcessingState K
  /-- mpv's volume, while mpv runs. -/
  mpv : Option K
  attenuation : Option (DeviceAttenuation K)
  /-- Whether it holds a raw card. -/
  holdsCard : Bool
  deriving DecidableEq

structure Desktop (K : Type) where
  gain : K
  /-- The gains that a raw card can be set to. -/
  lowest : K
  highest : K
  isPresent : Bool
  sinkName : String
  settings : ProcessingState K
  record : RecordFile K
  core : Option (Core K)
  stderr : List String
  /-- The loudest level that the listener chose. -/
  chosen : K
  /-- The slider's value times the level handed off. -/
  wanted : K
  /-- Whether it was ever louder than that. -/
  wasLouder : Bool
  deriving DecidableEq

/-! ### Effects -/

inductive Command
  | handOff
  | slide
  | giveBack
  | release
  | recover
  /-- A recovery after the listener's level was restored. -/
  | retry
  deriving DecidableEq

inductive Part
  | changeDevice
  | undoPartial
  | resolveTarget
  | record
  | load
  | read
  | save
  | apply
  | restore
  | rollbackSave
  | rollbackApply
  | saveAlone
  | undo
  | clear
  | keep
  | releaseCard
  deriving DecidableEq

abbrev Label := Command × Part

abbrev Act (K α : Type) := Program Label (Desktop K) String α

section Model

variable {K : Type} [Field K] [LinearOrder K]

namespace Desktop

/-- Notes when mpv and the device together are louder than was chosen. -/
def watch (d : Desktop K) : Desktop K :=
  { d with wasLouder := d.wasLouder ||
      d.core.any fun core => core.mpv.any fun volume => d.chosen < volume * d.gain }

def withCore (d : Desktop K) (f : Core K → Core K) : Desktop K := { d with core := d.core.map f }

def withProcessing (d : Desktop K) (processing : ProcessingState K) : Desktop K :=
  d.withCore fun core => { core with processing }

/-- The level handed off, as the process has it. -/
def handed (d : Desktop K) : K :=
  match d.core.bind (·.attenuation) with
  | some attenuation => attenuation.softwareVolume
  | none => 1

/-- PipeWire takes a raw card back, and restores its volume. -/
def release (d : Desktop K) : Desktop K :=
  { d.withCore fun core => { core with holdsCard := false } with
    gain := if d.core.any (·.holdsCard) then 1 else d.gain }

/-- The process is gone, and a raw card with it. -/
def kill (d : Desktop K) : Desktop K := { d.release with core := none }

/-- The gain that a raw card takes for a factor. -/
def cardGain (d : Desktop K) (factor : K) : K := max d.lowest (min (d.gain * factor) d.highest)

/-- The change that the route's device makes of a factor, smaller where it hits its limit. -/
def taken (d : Desktop K) (route : VolumeRoute) (factor : K) : K :=
  match route with
  | .systemSink => factor
  | .alsaCard _ => d.cardGain factor / d.gain

end Desktop

/-- An effect, after which the loudness is looked at. -/
def act {α : Type} (l : Label) (effect : Effect (Desktop K) String α) : Act K α :=
  perform l
    { run := fun d => (effect.run d).map fun result => (result.1, result.2.watch)
      part := fun progress d => (effect.part progress d).watch
      fault := effect.fault }

/-- A change of what is held in memory. -/
def change (f : Desktop K → Desktop K) : Act K Unit := update fun d => (f d).watch

def eprintln (message : String) : Act K Unit :=
  update fun d => { d with stderr := message :: d.stderr }

/-! ### Processing settings -/

/-- The slider's value times the level handed off, where the command is one of those
that change either. -/
def note (c : Command) : Act K Unit :=
  match c with
  | .handOff | .slide => change fun d =>
      { d with
        wanted := match d.core with
          | some core => core.processing.softwareVolume * d.handed
          | none => d.wanted }
  | _ => pure ()

/-- Writes the settings file: a temporary one that is renamed. -/
def persistState (l : Label) (state : ProcessingState K) : Act K Unit :=
  act l (.atomic (fun d => .ok ((), { d with settings := state }))
    "Failed to finalize Processing Profile settings")

/-- The change is persisted, then held. -/
def commit (c : Command) (p : Part) (f : ProcessingState K → ProcessingState K) : Act K Unit := do
  let d ← get
  match d.core with
  | none => pure ()
  | some core => do
    persistState (c, p) (f core.processing)
    change (·.withProcessing (f core.processing))
    note c

def clearActiveProcessing (state : ProcessingState K) : ProcessingState K :=
  { state with softwareVolume := 1, isReplayGainOn := false, isEqualizerEnabled := false }

/-- The state that `set_profile` leaves. -/
def withProfile (profile : ProcessingProfile) (state : ProcessingState K) : ProcessingState K :=
  if profile = .direct then clearActiveProcessing { state with profile } else { state with profile }

/-- The state that `set_software_volume` leaves. Software volume requires the Processed
Profile. -/
def withVolume (value : K) (state : ProcessingState K) : ProcessingState K :=
  let volume := max 0 (min value 1)
  { state with
    softwareVolume := volume
    profile := if state.profile = .direct ∧ volume ≠ 1 then .processed else state.profile }

/-! ### mpv -/

/-- Sets mpv's volume and reads back what it applied. -/
def applyProcessing (l : Label) (state : ProcessingState K) : Act K (ProcessingState K) :=
  act l (.acknowledged (fun d =>
      match d.core.bind (·.mpv) with
      | none => .error "Native mpv is not running."
      | some _ => .ok (state, d.withCore fun core =>
          { core with mpv := some state.softwareVolume }))
    "Native mpv did not apply the Processing Profile.")

/-- Prints a failure, when there is one. -/
def report (describe : String → String) : Option String → Act K Unit
  | none => pure ()
  | some error => eprintln (describe error)

/-- Goes back to the state before, in memory, in the file and in mpv. -/
def rollbackProcessing (c : Command) (previous : ProcessingState K) : Act K Unit := do
  change (·.withProcessing previous)
  let saved ← failureOf (do
    persistState (c, .rollbackSave) previous
    note c)
  report (fun error => s!"Processing Profile rollback persistence failed: {error}") saved
  let applied ← attempt (applyProcessing (c, .rollbackApply) previous)
  report (fun error => s!"Native mpv Processing Profile rollback failed: {error}")
    (errorOf applied)

/-- Goes back after a failure, which is then the command's. -/
def rollBackAndFail (c : Command) (previous : ProcessingState K) (error : String) :
    Act K Unit := do
  rollbackProcessing c previous
  fail error

/-- Changes the processing, then mpv, then holds what mpv applied. -/
def updateProcessingLocked (c : Command) (f : ProcessingState K → ProcessingState K) :
    Act K Unit := do
  let d ← get
  match d.core with
  | none => fail "Processing Profile state is unavailable."
  | some core => do
    commit c .save f
    let applied ← attempt (applyProcessing (c, .apply) (f core.processing))
    match applied with
    | .error error => rollBackAndFail c core.processing error
    | .ok state => do
      let restored ← failureOf (do
        persistState (c, .restore) state
        change (·.withProcessing state))
      match restored with
      | some error => rollBackAndFail c core.processing error
      | none => pure ()

/-- A change of the slider. -/
def setVolume (value : K) : Act K Unit := do
  change fun d => { d with chosen := max d.chosen (max 0 (min value 1) * d.handed) }
  updateProcessingLocked .slide (withVolume value)
  change fun d => { d with chosen := max 0 (min value 1) * d.handed }

/-! ### The device -/

/-- Changes the route's volume and returns the change that the device made. -/
def changeDb (l : Label) (route : VolumeRoute) (factor : K) : Act K K :=
  act l (.acknowledged (fun d =>
      if d.isPresent = false then .error "The output device is absent."
      else
        match route with
        | .systemSink => .ok (d.taken route factor, { d with gain := d.gain * factor })
        | .alsaCard _ => .ok (d.taken route factor, { d with gain := d.cardGain factor }))
    "The output device volume could not be set.")

/-- Gives the target back what a hand-off took from it. -/
def undoHandOffOn (l : Label) (route : RecordedRoute) (applied : K) : Act K Bool :=
  match route with
  | .alsaCard => pure true
  | .systemSink => act l (.acknowledged (fun d =>
      if d.isPresent then .ok (true, { d with gain := d.gain * applied⁻¹ }) else .ok (false, d))
    "The system output volume could not be set.")

def undoRecordedHandOff (l : Label) (record : DeviceAttenuationRecord K) : Act K Bool :=
  match record.target with
  | some _ => undoHandOffOn l record.route record.applied
  | none => pure true

/-- The sink that a hand-off attenuates. -/
def handOffTarget (route : VolumeRoute) : Act K (Option String) :=
  act (.handOff, .resolveTarget) (.atomic (fun d =>
      match route with
      | .systemSink => .ok (some d.sinkName, d)
      | .alsaCard _ => .ok (none, d))
    "The system output could not be resolved.")

/-! ### The record -/

def recordedRoute : VolumeRoute → RecordedRoute
  | .systemSink => .systemSink
  | .alsaCard _ => .alsaCard

/-- The file is emptied first; a failure is only printed. -/
def writeDeviceAttenuationRecord (l : Label) (record : DeviceAttenuationRecord K) :
    Act K Unit := do
  let failure ← failureOf (act l
    { run := fun d => .ok ((), { d with record := .saved record })
      part := fun progress d =>
        match progress with
        | 0 => d
        | 1 => { d with record := .unreadable }
        | _ => { d with record := .saved record }
      fault := "No space left on device (os error 28)" })
  report (fun error => s!"Output volume hand-off could not be recorded: {error}") failure

def saveDeviceAttenuationRecord (l : Label) (attenuation : DeviceAttenuation K)
    (listenerLevelRestored : Bool) : Act K Unit :=
  writeDeviceAttenuationRecord l
    { route := recordedRoute attenuation.route, target := attenuation.target
      applied := attenuation.applied, softwareVolume := attenuation.softwareVolume
      listenerLevelRestored }

def clearDeviceAttenuationRecord (l : Label) : Act K Unit := do
  let failure ← failureOf (act l (.atomic (fun d => .ok ((), { d with record := .absent }))
    "Permission denied (os error 13)"))
  report (fun error => s!"Output volume hand-off record could not be cleared: {error}") failure

/-! ### Handing off and returning -/

/-- The step that the hardware takes for a volume, and the factor by which what the device
took may differ from it. -/
structure Rounding (K : Type) [Field K] [LinearOrder K] where
  step : K → K
  tolerance : K
  step_pos : ∀ volume, 0 < volume → 0 < step volume
  step_le_one : ∀ volume, volume ≤ 1 → step volume ≤ 1
  one_le : 1 ≤ tolerance

abbrev Rounding.Accepts (rounding : Rounding K) (applied wanted : K) : Prop :=
  applied ≤ wanted * rounding.tolerance ∧ wanted ≤ applied * rounding.tolerance

/-- What mpv's processing becomes once the device has the volume. -/
def handedOff (state : ProcessingState K) : ProcessingState K :=
  if !state.isEqualizerEnabled && !state.isReplayGainOn then withProfile .direct state
  else withVolume 1 state

/-- The device has taken the volume: that is recorded, and mpv goes to full volume or
stays where it is. -/
def settleHandOff (attenuation : DeviceAttenuation K) (target : Except String (Option String)) :
    Act K Unit := do
  change (·.withCore fun core => { core with attenuation := some attenuation })
  match target with
  | .ok _ => saveDeviceAttenuationRecord (.handOff, .record) attenuation false
  | .error error => eprintln s!"Output volume hand-off could not be recorded: {error}"
  note .handOff
  let followed ← failureOf (updateProcessingLocked .handOff handedOff)
  report (fun error => s!"mpv volume could not follow the output hand-off: {error}") followed

/-- Moves the software attenuation onto the device. When the device cannot take all
of it, mpv keeps its volume. -/
def handOffVolumeToDevice (rounding : Rounding K) (route : VolumeRoute) : Act K Unit := do
  change (·.withCore fun core => { core with holdsCard := route ≠ .systemSink })
  let d ← get
  match d.core with
  | none => pure ()
  | some core =>
    let softwareVolume := core.processing.softwareVolume
    if ¬(0 < softwareVolume ∧ softwareVolume < 1) then pure ()
    else do
      let wanted := rounding.step softwareVolume
      let changed ← attempt (changeDb (.handOff, .changeDevice) route wanted)
      match changed with
      | .error error =>
        eprintln s!"Output volume hand-off failed; mpv keeps its volume: {error}"
      | .ok applied =>
        if ¬rounding.Accepts applied wanted then do
          let undone ← attempt (changeDb (.handOff, .undoPartial) route applied⁻¹)
          report (fun error => s!"Partial output volume hand-off could not be undone: {error}")
            (errorOf undone)
        else do
          let target ← attempt (handOffTarget route)
          settleHandOff { route, applied, softwareVolume, target := target.toOption.join } target

/-- Where returning a hand-off goes. -/
inductive DeviceReturn
  | nothing
  | named
  | currentDefault

def deviceReturn (route : VolumeRoute) (target : Option String) : DeviceReturn :=
  match route, target with
  | .alsaCard _, _ => .nothing
  | .systemSink, some _ => .named
  | .systemSink, none => .currentDefault

/-- The software volume that keeps the level heard while the device carried the
entry. -/
def returnedVolume (current entry : K) : K := current * entry

/-- mpv is lowered, or the settings alone when it is already gone. -/
def restoreListenerLevel (volume : K) : Act K Unit := do
  let updated ← failureOf (updateProcessingLocked .giveBack (withVolume volume))
  match updated with
  | none => pure ()
  | some error => do
    eprintln s!"mpv volume could not be restored: {error}"
    let saved ← failureOf (commit .giveBack .saveAlone (withVolume volume))
    report (fun error => s!"Software volume could not be saved: {error}") saved

/-- Gives the device back what was taken. A raw card needs nothing: its own volume comes
back when it is released. -/
def returnToDevice (attenuation : DeviceAttenuation K) : Act K Bool :=
  match deviceReturn attenuation.route attenuation.target with
  | .nothing => pure true
  | .named => undoHandOffOn (.giveBack, .undo) .systemSink attenuation.applied
  | .currentDefault => do
    let _ ← changeDb (.giveBack, .undo) .systemSink attenuation.applied⁻¹
    pure true

/-- The record goes, or stays for the next start to retry the device alone. -/
def settleReturn (attenuation : DeviceAttenuation K) : Except String Bool → Act K Unit
  | .ok true => clearDeviceAttenuationRecord (.giveBack, .clear)
  | .ok false => do
    eprintln "System output volume stays recorded until its absent output returns."
    saveDeviceAttenuationRecord (.giveBack, .keep) attenuation true
  | .error error => do
    eprintln s!"System output volume could not be restored: {error}"
    saveDeviceAttenuationRecord (.giveBack, .keep) attenuation true

/-- Undoes a hand-off: mpv first, then the device, so the level only ever dips. -/
def returnDeviceVolume : Act K Unit := do
  let d ← get
  match d.core with
  | none => pure ()
  | some core =>
    match core.attenuation with
    | none => pure ()
    | some attenuation => do
      change (·.withCore fun core => { core with attenuation := none })
      restoreListenerLevel
        (returnedVolume core.processing.softwareVolume attenuation.softwareVolume)
      let restored ← attempt (returnToDevice attenuation)
      settleReturn attenuation restored

/-- The system output is configured, for which a raw card is given up. -/
def releaseCard : Act K Unit :=
  act (.release, .releaseCard) (.acknowledged (fun d => .ok ((), d.release))
    "Exclusive Output could not restore the active audio card.")

/-! ### Recovery -/

def undoneMessage : String := "Output volume hand-off left by the previous run was undone."

/-- The record file's text, when it can be read. -/
def readRecord : Act K (RecordFile K) :=
  act (.recover, .read) (.atomic (fun d =>
      match d.record with
      | .absent => .error "No such file or directory (os error 2)"
      | file => .ok (file, d))
    "Input/output error (os error 5)")

/-- The listener's level comes back first, unless it is back already. -/
def restoreRecordedLevel (record : DeviceAttenuationRecord K) : Act K Unit := do
  let d ← get
  match d.core with
  | none => pure ()
  | some core =>
    if record.listenerLevelRestored then pure ()
    else do
      let saved ← failureOf (commit .recover .saveAlone
        (withVolume (returnedVolume core.processing.softwareVolume record.softwareVolume)))
      report
        (fun error => s!"Software volume could not be restored after a hand-off: {error}") saved

/-- The record stays for the next start's retry of the device, which must leave mpv
alone. -/
def keepRecord (record : DeviceAttenuationRecord K) : Act K Unit :=
  if record.listenerLevelRestored then pure ()
  else writeDeviceAttenuationRecord (.recover, .keep) { record with listenerLevelRestored := true }

def settleRecovery (c : Command) (record : DeviceAttenuationRecord K) :
    Except String Bool → Act K Unit
  | .ok true => do
    eprintln undoneMessage
    clearDeviceAttenuationRecord (c, .clear)
  | .ok false => do
    eprintln "Output volume hand-off left on an absent output is kept until it returns."
    keepRecord record
  | .error error => do
    eprintln s!"Output volume hand-off could not be undone: {error}"
    keepRecord record

/-- The command that a record's recovery is. -/
def recoveryOf (record : DeviceAttenuationRecord K) : Command :=
  if record.listenerLevelRestored then .retry else .recover

/-- Undoes a hand-off that a killed client left on the device. -/
def recoverLeftDeviceAttenuation : Act K Unit := do
  let read ← attempt readRecord
  match read with
  | .error _ | .ok .absent => pure ()
  | .ok .unreadable => do
    eprintln "Output volume hand-off record is unreadable"
    clearDeviceAttenuationRecord (.recover, .clear)
  | .ok (.saved record) => do
    restoreRecordedLevel record
    let undone ← attempt (undoRecordedHandOff (recoveryOf record, .undo) record)
    settleRecovery (recoveryOf record) record undone

/-- A start: the settings are loaded, a hand-off that was left is undone, and mpv
starts at the volume. -/
def start : Act K Unit := do
  act (.recover, .load) (.atomic (fun d =>
      .ok ((), { d with core := some ⟨d.settings, none, none, false⟩ }))
    "Failed to read Processing Profile settings")
  recoverLeftDeviceAttenuation
  change (·.withCore fun core => { core with mpv := some core.processing.softwareVolume })

/-! ### Runs -/

inductive Event (K : Type)
  | handOff (route : VolumeRoute)
  | slide (value : K)
  | giveBack
  /-- The output is System Output again. -/
  | release
  | kill
  | start
  /-- The device is plugged in or unplugged. -/
  | plug (isPresent : Bool)

/-- A command runs to its end, or the process dies in it. -/
def runCommand (program : Act K Unit) (fates : Label → ℕ → Fate) (d : Desktop K) : Desktop K :=
  match program ⟨d, fates⟩ with
  | (.died, w) => w.state.kill
  | (_, w) => w.state

/-- One event, with the fates of its effects. A hand-off is begun by a process that
carries none, and one to the system's sink once the card is released. -/
def perform (rounding : Rounding K) (d : Desktop K) (event : Event K × (Label → ℕ → Fate)) :
    Option (Desktop K) :=
  match event.1, d.core with
  | .handOff route, some core =>
    if core.attenuation = none ∧ (route = .systemSink → core.holdsCard = false) then
      some (runCommand (handOffVolumeToDevice rounding route) event.2 d)
    else none
  | .slide value, some _ => some (runCommand (setVolume value) event.2 d)
  | .giveBack, some _ => some (runCommand returnDeviceVolume event.2 d)
  | .release, some _ => some (runCommand releaseCard event.2 d)
  | .kill, some _ => some d.kill
  | .start, none => some (runCommand start event.2 d)
  | .plug isPresent, _ => some { d with isPresent }
  | _, _ => none

end Model

end Harmony.DeviceVolume
