/-
# The commands of the listener

Playing and pausing, the Queue, the processing and the output. Each command takes the
locks one after the other, so what it reads first may have changed when it comes to use it.
-/

import Harmony.Player.Controller

namespace Harmony.Player

open Thread

/-! ### Playing -/

/-- The rate of the source, where the output follows it. -/
def applyAdaptiveSourceRate (source : Source) : Act Unit := do
  let current ← state
  if current.outputMode ≠ .adaptiveSystemRate then pure ()
  else AdaptiveSystemRate.applySourceSampleRate .sourceRate source.sampleRateHz

def resetAdaptiveAfterFailure : Act Unit := do
  let _ ← (AdaptiveSystemRate.resetForRecovery .resetAfterFailure).attempt
  pure ()

/-- The revision of the load, where there is one. -/
def startPlayback (source : Source) (shouldLoad : Bool) : Act (Option ℕ) := do
  if shouldLoad = false then do
    withProcess .play (.setPaused false)
    pure none
  else do
    let url ← Thread.ofExcept source.playbackUrl
    let loadRevision ← nextLoadRevision
    withProcess .play do
      .loadWithEventBoundary url loadRevision
      .setPaused false
    pure (some loadRevision)

def alignQueueToSource (source : Source) : Act Unit :=
  changeQueue (·.alignToSource source)

def publishStartedLoad : Option ℕ → Act Unit
  | none => pure ()
  | some loadRevision => publishLoadRevision loadRevision

/-- What follows the start of playback. -/
def publishPlaying (source : Source) (isNewSource shouldFadeIn : Bool) (loadRevision : Option ℕ) :
    Act PlaybackSessionState := do
  let playing ← update (·.updatePlayingState source isNewSource)
  publishStartedLoad loadRevision
  alignQueueToSource source
  markPlayerStable
  if shouldFadeIn then do
    fadeIn
    pure playing
  else pure playing

/-- The source starts, after the rate that it needs has been set. -/
def playSource (source : Source) (isNewSource shouldFadeIn : Bool) : Act PlaybackSessionState := do
  let started ← (startPlayback source isNewSource).attempt
  match started with
  | .error _ => do
    resetAdaptiveAfterFailure
    failNative
  | .ok loadRevision => publishPlaying source isNewSource shouldFadeIn loadRevision

def prepareFadeIn (shouldFadeIn : Bool) : Act Unit := do
  if shouldFadeIn = false then pure ()
  else do
    let _ ← (withProcess .fade (.setVolume 0)).attempt
    pure ()

/-- Without a source the current one goes on; where it has ended it is loaded again. -/
def play (source : Option Source) : Act PlaybackSessionState := do
  advanceCommandRevision
  let current ← state
  match source.or current.source with
  | none => pure current
  | some nextSource => do
    let isNewSource := source.isSome || current.status = .ended
    let fadeMs ← reading (·.transitionFadeMs)
    let shouldFadeIn := !isNewSource && current.status = .paused && 0 < fadeMs
    prepareFadeIn shouldFadeIn
    if isNewSource then do
      let prepared ← (applyAdaptiveSourceRate nextSource).attempt
      match prepared with
      | .error _ => do
        resetAdaptiveAfterFailure
        failNative
      | .ok () => playSource nextSource isNewSource shouldFadeIn
    else playSource nextSource isNewSource shouldFadeIn

def pause : Act PlaybackSessionState := do
  advanceCommandRevision
  let current ← state
  if current.source = none then state
  else do
    fadeOut
    let paused ← (withProcess .pause (.setPaused true)).attempt
    restoreVolume
    match paused with
    | .error _ => failNative
    | .ok () => update fun state => { state with status := .paused }

def stop : Act PlaybackSessionState := do
  advanceCommandRevision
  fadeOut
  let stopped ← (withProcess .stop .stop).attempt
  restoreVolume
  match stopped with
  | .error _ => failNative
  | .ok () =>
    update fun state =>
      { state with
        source := none
        processing := { state.processing with
          effectiveReplayGainMode := effectiveReplayGainMode state.processing.replayGainMode none }
        status := .idle
        currentTime := 0
        duration := 0
        error := none }

def togglePlay : Act PlaybackSessionState := do
  let current ← state
  if current.status.isActive then pause else play none

def seek (seconds : ℚ) : Act PlaybackSessionState := do
  if seconds < 0 then fail "Playback seek position must be a non-negative finite number."
  else do
    let sought ← (withProcess .seek .seek).attempt
    match sought with
    | .error _ => failNative
    | .ok () => update fun state => { state with currentTime := seconds }

/-- mpv's own process is made to play the snapshot. -/
def applySnapshotToProcess (snapshot : PlaybackSessionSnapshot) (shouldResume : Bool)
    (playbackRate : ℚ) : ProcessCall Unit := do
  .setPaused true
  .setVolume snapshot.volume
  .setSpeed playbackRate
  match snapshot.source with
  | none => pure ()
  | some source => do
    let url ← .ofExcept source.playbackUrl
    .loadAt url snapshot.playheadSeconds
    if shouldResume then .setPaused false else pure ()

def restorePaused (snapshot : PlaybackSessionSnapshot) : Act PlaybackSessionState := do
  advanceCommandRevision
  let current ← state
  let applied ← (withProcess .restorePaused
    (applySnapshotToProcess snapshot false current.playbackRate)).attempt
  match applied with
  | .error _ => failNative
  | .ok () => do
    let restored ← update (·.restoreSnapshotState snapshot)
    markPlayerStable
    pure restored

/-! ### The Queue -/

def navigateTo (source : Source) : Act PlaybackSessionState := do
  fadeOut
  let result ← (play (some source)).attempt
  match result with
  | .ok played => do
    fadeIn
    pure played
  | .error error => do
    restoreVolume
    Thread.fail error

def navigate (direction : QueueDirection) : Act PlaybackSessionState := do
  let current ← state
  let source ← reading (·.queue.adjacentSource direction (current.repeatMode = .loop))
  match source with
  | some source => navigateTo source
  | none => state

def previous : Act PlaybackSessionState := navigate .previous

def next : Act PlaybackSessionState := navigate .next

def toggleShuffle (random : ℕ → Option ℕ) : Act PlaybackSessionState := do
  let toggled ← update fun state => { state with shuffleEnabled := !state.shuffleEnabled }
  if toggled.shuffleEnabled then do
    shuffleQueue random
    pure toggled
  else do
    changeQueue fun queue => .ok queue.resetOrder
    pure toggled

/-- The synced queue; a failure after the sync keeps it. -/
def syncQueue (random : ℕ → Option ℕ) (current : PlaybackSessionState) (sources : List Source)
    (currentIndex : Option ℕ) (queue : PlaybackQueueContext) :
    Except String Unit × PlaybackQueueContext :=
  match queue.sync sources currentIndex with
  | .error error => (.error error, queue)
  | .ok synced =>
    let aligned : Except String PlaybackQueueContext :=
      match current.source.filter (·.isTrack) with
      | none => .ok synced
      | some source => synced.alignToSource source
    match aligned with
    | .error error => (.error error, synced)
    | .ok aligned =>
      if current.shuffleEnabled then
        match (aligned.shuffle random).2 with
        | none => (.ok (), (aligned.shuffle random).1)
        | some error => (.error error, (aligned.shuffle random).1)
      else (.ok (), aligned)

def syncQueueContext (random : ℕ → Option ℕ) (sources : List Source) (currentIndex : Option ℕ) :
    Act PlaybackSessionState := do
  let current ← state
  withQueue (syncQueue random current sources currentIndex)
  state

def cycleRepeatMode : Act PlaybackSessionState :=
  update fun state =>
    { state with
      repeatMode :=
        match state.repeatMode with
        | .off => .once
        | .once => .loop
        | .loop => .off }

def setStopAfterCurrent (isEnabled : Bool) : Act PlaybackSessionState :=
  update fun state => { state with stopAfterCurrent := isEnabled }

/-! ### The settings of mpv -/

def minPlaybackRate : ℚ := 1 / 2

def maxPlaybackRate : ℚ := 2

def setPlaybackRate (rate : ℚ) : Act PlaybackSessionState := do
  if rate < minPlaybackRate ∨ maxPlaybackRate < rate then
    fail "Playback speed must be between 0.5 and 2."
  else do
    let result ← (withProcess .playbackRate (.setSpeed rate)).attempt
    match result with
    | .error _ => failNative
    | .ok () => update fun state => { state with playbackRate := rate }

def setGapless (isEnabled : Bool) : Act PlaybackSessionState := do
  let result ← (withProcess .gapless (.setGapless isEnabled)).attempt
  match result with
  | .error _ => failNative
  | .ok () => update fun state => { state with isGapless := isEnabled }

def setTransitionFadeMs (milliseconds : ℕ) : Act PlaybackSessionState := do
  Thread.step fun p => ((), { p with transitionFadeMs := min milliseconds maxTransitionFadeMs })
  state

def applyProcessing (configuration : ProcessCall.ProcessingConfiguration) :
    Act PlaybackSessionState := do
  let result ← (withProcess .processing (.applyProcessing configuration)).attempt
  match result with
  | .error _ => failNative
  | .ok applied =>
    let softwareVolume := max 0 (min applied.volume 1)
    update fun state =>
      { state with
        volume := softwareVolume
        processing :=
          { softwareVolume := softwareVolume
            replayGainMode := applied.replayGainMode
            effectiveReplayGainMode :=
              effectiveReplayGainMode applied.replayGainMode state.source
            isEqualizerEnabled := !applied.audioFilters.isEmpty
            effectiveAudioFilters := applied.audioFilters } }

/-! ### The output -/

def disableAdaptiveMessage : String :=
  "Adaptive System Rate could not be disabled. Restart the Desktop Client."

def disableAdaptiveSystemRate : Act Unit := do
  let disabled ← (AdaptiveSystemRate.disable .disableAdaptive).attempt
  match disabled with
  | .error _ => Thread.fail disableAdaptiveMessage
  | .ok () => pure ()

def enableAdaptiveMessage : String :=
  "Adaptive System Rate could not be enabled because its cleanup safeguard " ++
    "could not be saved. Check Desktop Client storage permissions and try again."

def enableAdaptiveController : Act Unit := do
  AdaptiveSystemRate.ensureAvailable .enableAdaptive
  let enabled ← (AdaptiveSystemRate.enable .enableAdaptive).attempt
  match enabled with
  | .error _ => Thread.fail enableAdaptiveMessage
  | .ok () => pure ()

def configureSystemOutput (site : Site) : Act Unit :=
  withProcess site (.configureOutput .system)

def failAdaptiveSetup : Act PlaybackSessionState := do
  disableAdaptiveSystemRate
  failNative

def enableAdaptiveSystemRate : Act PlaybackSessionState := do
  let current ← state
  enableAdaptiveController
  let configured ← (configureSystemOutput .adaptiveSystemOutput).attempt
  match configured with
  | .error _ => failAdaptiveSetup
  | .ok () => do
    let applied ← (AdaptiveSystemRate.applySourceSampleRate .adaptiveRate
      (current.source.bind (·.sampleRateHz))).attempt
    match applied with
    | .error _ => failAdaptiveSetup
    | .ok () => update (·.publishAdaptiveSystemOutput)

def pauseAfterOutputFailure : Act Unit := do
  let _ ← (withProcess .pauseAfterFailure (.setPaused true)).attempt
  pure ()

def publishAvailableOutputDevices (devices : List OutputDevice) : Act PlaybackSessionState :=
  update fun state =>
    { state with
      availableOutputDevices := devices
      outputDeviceIssue :=
        if state.outputDeviceIssue.any (·.code = .disconnected) then none
        else state.outputDeviceIssue }

/-- The state once the device of the output is gone. -/
def publishDisconnected (devices : List OutputDevice) (disconnected : OutputDevice) :
    Act PlaybackSessionState :=
  update fun state =>
    { state with
      availableOutputDevices := devices
      status := if state.source.isSome then .paused else state.status
      outputDeviceIssue := some (disconnectedDeviceIssue disconnected) }

def refreshOutputDevices : Act PlaybackSessionState := do
  let refreshed ← OutputDeviceCatalog.refresh .refreshDevices
  match refreshed.disconnected with
  | none => publishAvailableOutputDevices refreshed.devices
  | some disconnected => do
    let current ← state
    if current.outputMode ≠ .directAlsa then
      update fun state => { state with availableOutputDevices := refreshed.devices }
    else do
      pauseAfterOutputFailure
      publishDisconnected refreshed.devices disconnected

def configureDirectOutput (site : Site) (device : OutputDevice) : Act Unit :=
  withProcess site (.configureOutput (.directAlsa device.id))

/-- Whether mpv reports the format of its output before the deadline. -/
def observeDirectOutputIfReady (hasSource : Bool) : Act Unit := do
  if hasSource = false then pure ()
  else withProcess .observeDirect .observeOutputFormat

def restoreSafeSystemOutput : Act OutputMode := do
  let _ ← (configureSystemOutput .safeSystem).attempt
  pure .system

def restoreAdaptiveOutputRoute : Act OutputMode := do
  let enabled ← enableAdaptiveSystemRate.attempt
  match enabled with
  | .ok _ => pure .adaptiveSystemRate
  | .error _ => restoreSafeSystemOutput

def restoredOr (result : Except String Unit) (mode : OutputMode) : Act OutputMode :=
  match result with
  | .ok () => pure mode
  | .error _ => restoreSafeSystemOutput

def restoreDirectOutput (device : Option OutputDevice) : Act Unit :=
  match device with
  | none => Thread.fail "Previous Direct ALSA Output Device is unavailable."
  | some device => configureDirectOutput .restoreDirect device

/-- Back to the output that was, or else to the system's. -/
def restoreOutputRoute (before : PlaybackSessionState) : Act OutputMode := do
  match before.outputMode with
  | .directAlsa => do
    let restored ← (restoreDirectOutput before.selectedOutputDevice).attempt
    restoredOr restored .directAlsa
  | .adaptiveSystemRate => restoreAdaptiveOutputRoute
  | .system => do
    let restored ← (configureSystemOutput .restoreSystem).attempt
    restoredOr restored .system

def handleDirectOutputFailure (before : PlaybackSessionState) (attempted : OutputDevice) :
    Act PlaybackSessionState := do
  let restoredMode ← restoreOutputRoute before
  pauseAfterOutputFailure
  update fun state =>
    { state with
      outputMode := restoredMode
      selectedOutputDevice :=
        if restoredMode = .directAlsa then before.selectedOutputDevice else some attempted
      status := if state.source.isSome then .paused else state.status
      outputDeviceIssue := some (busyOrUnsupportedDeviceIssue attempted) }

def publishDirectOutput (device : OutputDevice) : Act PlaybackSessionState :=
  update fun state =>
    { state with
      outputMode := .directAlsa
      selectedOutputDevice := some device
      outputDeviceIssue := none }

/-- The device is opened, and probed where something plays. -/
def openDirectOutput (device : OutputDevice) (hasSource : Bool) : Act Unit := do
  configureDirectOutput .directOutput device
  observeDirectOutputIfReady hasSource

def selectDirectAlsaOutput (deviceId : String) : Act PlaybackSessionState := do
  let before ← state
  let device ← OutputDeviceCatalog.select .selectDevice deviceId
  disableAdaptiveSystemRate
  let opened ← (openDirectOutput device before.source.isSome).attempt
  match opened with
  | .error _ => handleDirectOutputFailure before device
  | .ok () => publishDirectOutput device

def restoreAdaptiveAfterSystemFailure (previousMode : OutputMode) : Act Unit := do
  if previousMode ≠ .adaptiveSystemRate then pure ()
  else do
    let _ ← enableAdaptiveSystemRate.attempt
    pure ()

def fallbackToSystemOutput : Act PlaybackSessionState := do
  let before ← state
  disableAdaptiveSystemRate
  let configured ← (configureSystemOutput .systemOutput).attempt
  match configured with
  | .error _ => do
    restoreAdaptiveAfterSystemFailure before.outputMode
    failNative
  | .ok () => update (·.publishSystemOutput)

/-! ### The end of the player -/

def shutdownPlayer : Act Unit := do
  advanceCommandRevision
  .step fun p => ((), { p with process := { p.process with isRunning := false, current := none } })

def shutdown : Act Unit := do
  disableAdaptiveSystemRate
  shutdownPlayer

/-- mpv is shut down even where the rate could not be reset. -/
def shutdownAfter : Except String Unit → Act Unit
  | .error _ => shutdownPlayer
  | .ok () => pure ()

/-- The controller of the rate ends last. -/
def drop : Act Unit := do
  let result ← shutdown.attempt
  shutdownAfter result
  AdaptiveSystemRate.teardown .teardown

end Harmony.Player
