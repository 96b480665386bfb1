/-
# mpv and what else a command can call

mpv is a process with a current file, a playlist behind it and its settings. Each call
of it can fail, and a call that is reported as failed may have been done. What
becomes of a call is an input of the step that makes it, looked up under where it is
made and what it asks for.

A call holds the process's lock, so all that it asks of mpv is one step.
-/

import Harmony.Library.Alone
import Harmony.Player.Session

namespace Harmony.Player

open Thread

/-! ### Calls -/

/-- What becomes of a call. One that is reported as failed may have been done. -/
inductive Fate
  | done
  | fails (isDone : Bool)

/-- What is asked of mpv, of the system's rate control or of the cleanup marker. -/
inductive Call
  | load
  | append
  | stop
  | setPaused (isPaused : Bool)
  | seek
  | setVolume
  | setSpeed
  | setGapless
  | disableAudio
  | acquire
  | audioDevice
  | enableAudio
  /-- The same, on the way back to the system output. -/
  | restoreDisableAudio
  | restoreAudioDevice
  | release
  | restoreEnableAudio
  | observeFormat
  | replayGain
  | audioFilters
  | start
  | ensureAvailable
  | setForcedRate
  | readMarker
  | markRequired
  | clearMarker
  | listDevices
  deriving DecidableEq

/-- Where in the code a call is made. -/
inductive Site
  | restorePaused
  | fade
  | play
  | sourceRate
  | resetAfterFailure
  | disableAdaptive
  | pause
  | restoreVolume
  | stop
  | seek
  | processing
  | enableAdaptive
  | adaptiveSystemOutput
  | adaptiveRate
  | selectDevice
  | directOutput
  | observeDirect
  | restoreDirect
  | restoreSystem
  | safeSystem
  | systemOutput
  | pauseAfterFailure
  | refreshDevices
  | playbackRate
  | gapless
  | appendNext
  | reconnect
  | decoderRate
  | decoderReset
  | hotplug
  | advance
  | advanceRate
  | advanceReset
  | stopAppended
  | errorReset
  | directError
  | recoveryReset
  | restart
  | recoveryRate
  | failedRestartReset
  | teardown
  | startup
  deriving DecidableEq

abbrev Fates := Site → Call → Fate

/-! ### mpv -/

/-- What mpv reports. -/
inductive MpvEvent
  | time (seconds : ℚ)
  | duration (seconds : ℚ)
  | paused (isPaused : Bool)
  /-- The format that it decodes, with its rate. -/
  | decoder (rateHz : Option ℕ)
  | ended
  | error (message : String)
  /-- The client's own, behind all that was reported before the load. -/
  | loadBoundary (loadRevision : ℕ)
  | exitedUnexpectedly (message : String)

structure MpvReport where
  event : MpvEvent
  /-- The load that it is about. The client does not read it. -/
  load : ℕ

structure MpvProcess where
  isRunning : Bool
  /-- The file that mpv plays, and what it goes on to. -/
  current : Option String
  playlist : List String
  /-- The entry that was appended, as the client remembers it. -/
  appended : Option String
  isPaused : Bool
  /-- Where the current file was started. -/
  startSeconds : ℚ
  volume : ℚ
  speed : ℚ
  isGapless : Bool
  replayGain : ReplayGainMode
  audioFilters : List String
  /-- The device, where it is not mpv's own choice. -/
  audioDevice : Option String
  isAudioEnabled : Bool
  /-- The lease on the system's audio card is held. -/
  isExclusive : Bool
  /-- How many loads it has accepted with a boundary. -/
  loads : ℕ
  /-- What it has reported and the client has not yet handled, oldest first. -/
  reports : List MpvReport

/-- mpv as the client launches it. -/
def MpvProcess.launched : MpvProcess where
  isRunning := true
  current := none
  playlist := []
  appended := none
  isPaused := false
  startSeconds := 0
  volume := defaultVolume
  speed := 1
  isGapless := true
  replayGain := .off
  audioFilters := []
  audioDevice := none
  isAudioEnabled := true
  isExclusive := false
  loads := 0
  reports := []

/-- What one hold of the process's lock does. -/
def ProcessCall (α : Type) := (Call → Fate) → MpvProcess → Except String α × MpvProcess

namespace ProcessCall

variable {α β : Type}

instance : Monad ProcessCall where
  pure a _ p := (.ok a, p)
  bind x f fates p :=
    match x fates p with
    | (.ok a, p') => f a fates p'
    | (.error e, p') => (.error e, p')

section Bind

variable {x : ProcessCall α} {f : α → ProcessCall β} {fates : Call → Fate} {p q : MpvProcess}

theorem bind_of_ok {a : α} (h : x fates p = (.ok a, q)) : (x >>= f) fates p = f a fates q := by
  change (match x fates p with
    | (.ok a, p') => f a fates p'
    | (.error e, p') => (.error e, p')) = _
  rw [h]

theorem bind_of_error {e : String} (h : x fates p = (.error e, q)) :
    (x >>= f) fates p = (.error e, q) := by
  change (match x fates p with
    | (.ok a, p') => f a fates p'
    | (.error e, p') => (.error e, p')) = _
  rw [h]

end Bind

/-- Runs the call and catches its failure. -/
def attempt (x : ProcessCall α) : ProcessCall (Except String α) := fun fates p =>
  (.ok (x fates p).1, (x fates p).2)

def ofExcept (x : Except String α) : ProcessCall α := fun _ p => (x, p)

/-- One command of mpv's IPC. -/
def command (call : Call) (effect : MpvProcess → MpvProcess) : ProcessCall Unit := fun fates p =>
  if p.isRunning = false then (.error "Native mpv process is not running.", p)
  else
    match fates call with
    | .done => (.ok (), effect p)
    | .fails isDone =>
      (.error "Native mpv command timed out.", if isDone then effect p else p)

/-- What only the client remembers. -/
def remember (f : MpvProcess → MpvProcess) : ProcessCall Unit := fun _ p => (.ok (), f p)

/-- `loadfile replace` and `stop` drop mpv's whole playlist, appended entry included. -/
def clearAppended : ProcessCall Unit := remember fun p => { p with appended := none }

def loadAt (url : String) (seconds : ℚ) : ProcessCall Unit := do
  clearAppended
  command .load fun p => { p with current := some url, playlist := [], startSeconds := seconds }

def load (url : String) : ProcessCall Unit := loadAt url 0

/-- A load that is accepted leaves its boundary in the reports. -/
def loadWithEventBoundary (url : String) (loadRevision : ℕ) : ProcessCall Unit := do
  load url
  remember fun p =>
    { p with
      loads := p.loads + 1
      reports := p.reports ++ [⟨.loadBoundary loadRevision, p.loads + 1⟩] }

def append (url : String) : ProcessCall Unit := do
  command .append fun p => { p with playlist := p.playlist ++ [url] }
  remember fun p => { p with appended := some url }

def appended : ProcessCall (Option String) := fun _ p => (.ok p.appended, p)

def takeAppended : ProcessCall (Option String) := fun _ p =>
  (.ok p.appended, { p with appended := none })

def setPaused (isPaused : Bool) : ProcessCall Unit :=
  command (.setPaused isPaused) fun p => { p with isPaused }

def seek : ProcessCall Unit := command .seek id

def setVolume (volume : ℚ) : ProcessCall Unit := command .setVolume fun p => { p with volume }

def setSpeed (speed : ℚ) : ProcessCall Unit := command .setSpeed fun p => { p with speed }

def setGapless (isGapless : Bool) : ProcessCall Unit :=
  command .setGapless fun p => { p with isGapless }

def stop : ProcessCall Unit := do
  clearAppended
  command .stop fun p => { p with current := none, playlist := [] }

/-- Takes the lease or gives it up, where that is not done yet; mpv has no part in it. One
that cannot be given up is still held. -/
def setExclusive (call : Call) (isExclusive : Bool) : ProcessCall Unit := fun fates p =>
  if p.isExclusive = isExclusive then (.ok (), p)
  else
    match fates call with
    | .done => (.ok (), { p with isExclusive })
    | .fails _ => (.error "Exclusive Output could not change the audio card.", p)

/-- Its device plays no part while the lease is held. -/
def acquire : ProcessCall Unit := setExclusive .acquire true

def release : ProcessCall Unit := setExclusive .release false

/-- Every step is tried; the first failure is returned. Leaving mpv's exclusive mode is
a step of Windows only. -/
def restoreSystemOutput : ProcessCall Unit := do
  let disabled ← attempt (command .restoreDisableAudio fun p => { p with isAudioEnabled := false })
  let device ← attempt (command .restoreAudioDevice fun p => { p with audioDevice := none })
  let released ← attempt release
  let enabled ← attempt (command .restoreEnableAudio fun p => { p with isAudioEnabled := true })
  ofExcept disabled
  ofExcept device
  ofExcept released
  ofExcept enabled

inductive OutputConfiguration
  | system
  | directAlsa (deviceId : String)

/-- A failure to open the device goes back to the system output. -/
def restoreAfter (error : String) : ProcessCall Unit := do
  let restored ← attempt restoreSystemOutput
  match restored with
  | .ok () => ofExcept (.error error)
  | .error restoreError =>
    ofExcept (.error s!"{error} System Output cleanup also failed: {restoreError}")

def openDirect (deviceId : String) : ProcessCall Unit := do
  command .audioDevice fun p => { p with audioDevice := some s!"alsa/{deviceId}" }
  command .enableAudio fun p => { p with isAudioEnabled := true }

def configureOutput : OutputConfiguration → ProcessCall Unit
  | .system => restoreSystemOutput
  | .directAlsa deviceId => do
    command .disableAudio fun p => { p with isAudioEnabled := false }
    let acquired ← attempt acquire
    match acquired with
    | .error error => restoreAfter error
    | .ok () => do
      let opened ← attempt (openDirect deviceId)
      match opened with
      | .error error => restoreAfter error
      | .ok () => pure ()

/-- Whether mpv reports the format that it puts out. -/
def observeOutputFormat : ProcessCall Unit := command .observeFormat id

structure ProcessingConfiguration where
  volume : ℚ
  replayGainMode : ReplayGainMode
  audioFilters : List String

/-- Sets the processing, and reads back what mpv applied. -/
def applyProcessing (configuration : ProcessingConfiguration) :
    ProcessCall ProcessingConfiguration := do
  command .setVolume fun p => { p with volume := configuration.volume }
  command .replayGain fun p => { p with replayGain := configuration.replayGainMode }
  command .audioFilters fun p => { p with audioFilters := configuration.audioFilters }
  fun _ p => (.ok ⟨p.volume, p.replayGain, p.audioFilters⟩, p)

end ProcessCall

end Harmony.Player
