/-
# Processing Profile settings

What the player does to the sound: the profile, the software volume, ReplayGain and the
equalizer, with the volume that each output was last used at. The settings are kept in
memory and in a file; every operation saves them before or after it changes what is in
memory. A number of the settings is rational here, and an argument that is not finite is
`none`.
-/

import Harmony.Player.Session
import Mathlib.Data.Fin.VecNotation
import Mathlib.Data.Fintype.Basic
import Mathlib.Data.Finmap

namespace Harmony.Processing

open Player (OutputMode ReplayGainMode EffectiveReplayGainMode)

inductive ProcessingProfile
  | direct
  | processed
  deriving DecidableEq

inductive EqualizerPreset
  | flat
  | bassBoost
  | vocal
  | trebleBoost
  | custom
  deriving DecidableEq

structure EqualizerState where
  isEnabled : Bool
  preset : EqualizerPreset
  gainsDb : Fin 10 → ℚ

structure ProcessingState where
  profile : ProcessingProfile
  softwareVolume : ℚ
  replayGainMode : ReplayGainMode
  effectiveReplayGainMode : EffectiveReplayGainMode
  replayGainPreference : Option ReplayGainMode
  equalizer : EqualizerState
  effectiveAudioFilters : List String
  transitionNotice : Option String

/-- The last software volume of each output. -/
abbrev Volumes : Type := Finmap fun _ : String => ℚ

structure PersistedProcessingSettings where
  outputMode : OutputMode
  selectedOutputDeviceId : Option String
  volumeByOutputDevice : Volumes
  profile : ProcessingProfile
  softwareVolume : ℚ
  replayGainMode : ReplayGainMode
  replayGainPreference : Option ReplayGainMode
  equalizer : EqualizerState

structure ProcessingController where
  outputMode : OutputMode
  selectedOutputDeviceId : Option String
  volumeByOutputDevice : Volumes
  state : ProcessingState

structure ProcessingSnapshot where
  state : ProcessingState
  volumeByOutputDevice : Volumes

def outputVolumeKey (outputMode : OutputMode) (deviceId : Option String) : String :=
  match outputMode, deviceId with
  | .directAlsa, some deviceId => s!"alsa:{deviceId}"
  | _, _ => "system"

def flatEqualizer : EqualizerState := ⟨false, .flat, fun _ => 0⟩

def defaultState : ProcessingState where
  profile := .direct
  softwareVolume := 1
  replayGainMode := .off
  effectiveReplayGainMode := .off
  replayGainPreference := none
  equalizer := flatEqualizer
  effectiveAudioFilters := []
  transitionNotice := none

def presetGains : EqualizerPreset → Fin 10 → ℚ
  | .flat | .custom => fun _ => 0
  | .bassBoost => ![5, 4, 3, 3 / 2, 0, 0, 0, 0, 0, 0]
  | .vocal => ![-2, -1, 0, 3 / 2, 3, 3, 2, 1, 0, -1]
  | .trebleBoost => ![0, 0, 0, 0, 0, 1 / 2, 3 / 2, 3, 4, 5]

/-! ### The file -/

/-- The JSON library, for settings. -/
structure Serde (J : Type) where
  toString : PersistedProcessingSettings → J
  fromStr : J → Except String PersistedProcessingSettings

namespace PersistedProcessingSettings

/-- The settings are the same, with every number read again. -/
structure ReadBack (reread : ℚ → ℚ) (settings settings' : PersistedProcessingSettings) : Prop where
  same : settings' = { settings with
    volumeByOutputDevice := settings'.volumeByOutputDevice
    softwareVolume := reread settings.softwareVolume
    equalizer := { settings.equalizer with gainsDb := reread ∘ settings.equalizer.gainsDb } }
  volumes : ∀ key, settings'.volumeByOutputDevice.lookup key =
    (settings.volumeByOutputDevice.lookup key).map reread

def fromState (state : ProcessingState) (outputMode : OutputMode)
    (selectedOutputDeviceId : Option String) (volumeByOutputDevice : Volumes) :
    PersistedProcessingSettings where
  outputMode
  selectedOutputDeviceId
  volumeByOutputDevice
  profile := state.profile
  softwareVolume := state.softwareVolume
  replayGainMode := state.replayGainMode
  replayGainPreference := state.replayGainPreference
  equalizer := state.equalizer

/-- The controller of settings that were read. -/
def controller (settings : PersistedProcessingSettings) : ProcessingController where
  outputMode := settings.outputMode
  selectedOutputDeviceId := settings.selectedOutputDeviceId
  volumeByOutputDevice := settings.volumeByOutputDevice
  state :=
    { profile := settings.profile
      softwareVolume := settings.softwareVolume
      replayGainMode := settings.replayGainMode
      effectiveReplayGainMode := if settings.replayGainMode = .off then .off else .unknown
      replayGainPreference := settings.replayGainPreference
      equalizer := settings.equalizer
      effectiveAudioFilters := []
      transitionNotice := none }

end PersistedProcessingSettings

/-- What the library says of itself: it reads what it wrote, but for the last digit of a
number. A number between two whole ones, up to twelve, is read as one between them. -/
structure Serde.Documented {J : Type} (serde : Serde J) (reread : ℚ → ℚ) : Prop where
  reads : ∀ settings, ∃ settings', serde.fromStr (serde.toString settings) = .ok settings' ∧
    settings.ReadBack reread settings'
  between : ∀ (x : ℚ) (low high : ℤ), -12 ≤ low → high ≤ 12 → low ≤ x → x ≤ high →
    low ≤ reread x ∧ reread x ≤ high

section File

variable {J : Type} (serde : Serde J)

def stateFromJson (text : J) : Except String ProcessingController :=
  match serde.fromStr text with
  | .error error => .error s!"Failed to parse Processing Profile settings: {error}"
  | .ok settings => .ok settings.controller

/-- The controller of a file, the default one where there is none. -/
def openStored (stored : Option J) : Except String ProcessingController :=
  match stored with
  | some text => stateFromJson serde text
  | none => .ok ⟨.system, none, ∅, defaultState⟩

/-- The controller and its file. -/
structure Desktop (J : Type) where
  controller : ProcessingController
  stored : Option J

/-- What an operation does, where it stops with an error included. -/
abbrev Act (J : Type) : Type → Type := ExceptT String (StateM (Desktop J))

/-- How it ends, and what is left. -/
def Act.on {J α : Type} (act : Act J α) (d : Desktop J) : Except String α × Desktop J :=
  (ExceptT.run act).run d

def read : Act J ProcessingController := do
  let d ← get
  return d.controller

def change (f : ProcessingController → ProcessingController) : Act J Unit :=
  modify fun d => { d with controller := f d.controller }

/-- How the next save ends; one that fails leaves the file. -/
abbrev Saving : Type := Except String Unit

variable (saving : Saving)

def persistSettings (state : ProcessingState) (outputMode : OutputMode)
    (selectedOutputDeviceId : Option String) : Act J Unit := do
  let controller ← read
  let settings := PersistedProcessingSettings.fromState state outputMode selectedOutputDeviceId
    controller.volumeByOutputDevice
  match saving with
  | .error error => throw error
  | .ok () => modify fun d => { d with stored := some (serde.toString settings) }

def persistState (state : ProcessingState) : Act J Unit := do
  let controller ← read
  persistSettings serde saving state controller.outputMode controller.selectedOutputDeviceId

def commit (update : ProcessingState → Except String ProcessingState) : Act J Unit := do
  let controller ← read
  let candidate ← ExceptT.mk (pure (update controller.state))
  persistState serde saving candidate
  change fun controller => { controller with state := candidate }

/-! ### The operations -/

def setOutputMode (outputMode : OutputMode) : Act J Unit := do
  let controller ← read
  persistSettings serde saving controller.state outputMode controller.selectedOutputDeviceId
  change fun controller => { controller with outputMode }

def selectOutputDevice (deviceId : String) : Act J Unit := do
  let controller ← read
  persistSettings serde saving controller.state controller.outputMode (some deviceId)
  change fun controller => { controller with selectedOutputDeviceId := some deviceId }

def selectDirectAlsaOutput (deviceId : String) : Act J Unit := do
  let controller ← read
  persistSettings serde saving controller.state .directAlsa (some deviceId)
  change fun controller =>
    { controller with outputMode := .directAlsa, selectedOutputDeviceId := some deviceId }

def transitionToProcessed (isTransition : Bool) (notice : String) (state : ProcessingState) :
    ProcessingState :=
  if isTransition then { state with profile := .processed, transitionNotice := some notice }
  else { state with transitionNotice := none }

def clearActiveProcessing (state : ProcessingState) : ProcessingState :=
  { state with
    softwareVolume := 1
    replayGainMode := .off
    effectiveReplayGainMode := .off
    equalizer := flatEqualizer }

def withProfile (profile : ProcessingProfile) (state : ProcessingState) : ProcessingState :=
  let state := { state with profile, transitionNotice := none }
  if profile = .direct then clearActiveProcessing state else state

def setProfile (profile : ProcessingProfile) : Act J Unit :=
  commit serde saving fun state => .ok (withProfile profile state)

/-- A number moved into bounds; zero for one that is not finite. -/
def clamped (low high : ℚ) (value : Option ℚ) : ℚ :=
  match value with
  | some value => max low (min value high)
  | none => 0

def withSoftwareVolume (volume : ℚ) (state : ProcessingState) : ProcessingState :=
  transitionToProcessed (state.profile = .direct ∧ volume ≠ 1)
    "Software volume requires the Processed Profile." { state with softwareVolume := volume }

/-- The volumes with the one of an output as it was remembered before. -/
def Volumes.putBack (volumes : Volumes) (key : String) (previous : Option ℚ) : Volumes :=
  match previous with
  | some previous => volumes.insert key previous
  | none => volumes.erase key

/-- The volume is remembered before it is committed, and forgotten again if that fails. -/
def setSoftwareVolume (value : Option ℚ) : Act J Unit := do
  let controller ← read
  let volume := clamped 0 1 value
  let key := outputVolumeKey controller.outputMode controller.selectedOutputDeviceId
  let previous := controller.volumeByOutputDevice.lookup key
  change fun controller =>
    { controller with volumeByOutputDevice := controller.volumeByOutputDevice.insert key volume }
  tryCatch (commit serde saving fun state => .ok (withSoftwareVolume volume state)) fun error => do
    change fun controller =>
      { controller with
        volumeByOutputDevice := Volumes.putBack controller.volumeByOutputDevice key previous }
    throw error

def withoutReplayGain (state : ProcessingState) : ProcessingState :=
  { state with replayGainMode := .off, effectiveReplayGainMode := .off, transitionNotice := none }

def disableReplayGain : Act J Unit :=
  commit serde saving fun state => .ok (withoutReplayGain state)

def withReplayGain (mode : ReplayGainMode) (state : ProcessingState) : ProcessingState :=
  transitionToProcessed (state.profile = .direct) "ReplayGain requires the Processed Profile."
    { state with
      replayGainMode := mode
      effectiveReplayGainMode := .unknown
      replayGainPreference := some mode }

def enableReplayGain (mode : ReplayGainMode) : Act J Unit :=
  if mode = .off then disableReplayGain serde saving
  else commit serde saving fun state => .ok (withReplayGain mode state)

def withEqualizerPreset (preset : EqualizerPreset) (state : ProcessingState) : ProcessingState :=
  let isEnabled := decide (preset ≠ .flat)
  transitionToProcessed (state.profile = .direct ∧ isEnabled)
    "Equalizer changes require the Processed Profile."
    { state with equalizer := ⟨isEnabled, preset, presetGains preset⟩ }

def applyEqualizerPreset (preset : EqualizerPreset) : Act J Unit :=
  commit serde saving fun state => .ok (withEqualizerPreset preset state)

def withEqualizerGain (index : ℕ) (value : Option ℚ) (state : ProcessingState) :
    Except String ProcessingState :=
  if h : index < 10 then
    .ok (transitionToProcessed (state.profile = .direct)
      "Equalizer changes require the Processed Profile."
      { state with
        equalizer :=
          ⟨true, .custom, Function.update state.equalizer.gainsDb ⟨index, h⟩
            (clamped (-12) 12 value)⟩ })
  else .error s!"Equalizer band index {index} is out of range."

def setEqualizerGain (index : ℕ) (value : Option ℚ) : Act J Unit :=
  commit serde saving (withEqualizerGain index value)

def restore (state : ProcessingState) : Act J Unit := do
  persistState serde saving state
  change fun controller => { controller with state }

def ProcessingController.snapshot (controller : ProcessingController) : ProcessingSnapshot :=
  ⟨controller.state, controller.volumeByOutputDevice⟩

/-- The snapshot is in memory before it is saved. -/
def restoreSnapshot (snapshot : ProcessingSnapshot) : Act J Unit := do
  change fun controller =>
    { controller with
      state := snapshot.state, volumeByOutputDevice := snapshot.volumeByOutputDevice }
  persistState serde saving snapshot.state

end File

end Harmony.Processing
