/-
# The event thread

It handles what mpv reports, one report after the other, and between two of them it
polls the reconnect of a live stream and the plugged devices. mpv goes on to the
appended entry by itself; the handling of the end of a file finds out what that means.
-/

import Harmony.Player.Commands

namespace Harmony.Player

open Thread

def adaptiveCleanupFailedMessage : String :=
  "Playback stopped, but Adaptive System Rate could not reset the system audio rate. " ++
    "Restart the Desktop Client."

/-! ### The rate of what is decoded -/

def publishAdaptiveDecoderFailure : Act Unit := do
  let _ ← update fun state =>
    ({ state with outputMode := .system }).setErrorState
      "Adaptive System Rate could not follow this source. System Output was restored."
  pure ()

def applyAdaptiveDecoderRateInner (rateHz : Option ℕ) : Act Unit := do
  let current ← state
  if current.outputMode ≠ .adaptiveSystemRate then pure ()
  else AdaptiveSystemRate.applySourceSampleRate .decoderRate rateHz

def applyAdaptiveDecoderRate (rateHz : Option ℕ) : Act Unit := do
  let applied ← (applyAdaptiveDecoderRateInner rateHz).attempt
  match applied with
  | .ok () => pure ()
  | .error _ => do
    let _ ← (AdaptiveSystemRate.resetForRecovery .decoderReset).attempt
    publishAdaptiveDecoderFailure

def applyAdaptiveRateForEvent (source : Source) : Act Unit := do
  let current ← state
  if current.outputMode ≠ .adaptiveSystemRate then pure ()
  else AdaptiveSystemRate.applySourceSampleRate .advanceRate source.sampleRateHz

def resetAdaptiveAfterEventFailure (site : Site) : Act Unit := do
  let current ← state
  if current.outputMode ≠ .adaptiveSystemRate then pure ()
  else AdaptiveSystemRate.resetForRecovery site

/-! ### The plugged devices -/

def publishHotplugDevices (devices : List OutputDevice) : Act Unit := do
  let current ← state
  if current.availableOutputDevices = devices then pure ()
  else do
    let _ ← update fun state => { state with availableOutputDevices := devices }
    pure ()

def pauseDisconnectedOutput (devices : List OutputDevice) (disconnected : OutputDevice) :
    Act Unit := do
  let _ ← (withProcess .hotplug (.setPaused true)).attempt
  let _ ← publishDisconnected devices disconnected
  pure ()

def observeDirectOutputDevices : Act Unit := do
  let observed ← (OutputDeviceCatalog.refresh .hotplug).attempt
  match observed with
  | .error _ => pure ()
  | .ok refreshed =>
    match refreshed.disconnected with
    | some disconnected => pauseDisconnectedOutput refreshed.devices disconnected
    | none => publishHotplugDevices refreshed.devices

/-- A disconnected device is observed once. -/
def refreshDirectOutputDevice : Act Unit := do
  let current ← state
  if current.outputMode = .directAlsa ∧
      ¬current.outputDeviceIssue.any (·.code = .disconnected) then
    observeDirectOutputDevices
  else pure ()

/-! ### The end of a file -/

def gaplessAppendLeadSeconds : ℚ := 10

/-- Whether the next source should be with mpv already. -/
def PlaybackSessionState.shouldAppend (state : PlaybackSessionState) (seconds : ℚ) : Bool :=
  0 < state.duration && state.duration - seconds ≤ gaplessAppendLeadSeconds &&
    state.status = .playing && !state.stopAfterCurrent && state.repeatMode ≠ .once &&
    state.source.any (!·.isLive)

/-- Nothing is appended behind an entry that already is. -/
def appendOnce (url : String) : ProcessCall Unit := do
  let appended ← .appended
  if appended.isSome then pure () else .append url

def appendNextSourceNearEnd (seconds : ℚ) : Act Unit := do
  let current ← state
  if current.shouldAppend seconds = false then pure ()
  else do
    let nextSource ← reading (·.queue.adjacentSource .next (current.repeatMode = .loop))
    match nextSource.bind fun source => source.playbackUrl.toOption with
    | none => pure ()
    | some url => do
      let _ ← (withProcess .appendNext (appendOnce url)).attempt
      pure ()

def stopAppendedSource (appended : Option String) : Act Unit := do
  if appended.isNone then pure ()
  else do
    let _ ← (withProcess .stopAppended .stop).attempt
    pure ()

def prepareAdvancedSourceRate (source : Source) : Act Unit := do
  let applied ← (applyAdaptiveRateForEvent source).attempt
  match applied with
  | .ok () => pure ()
  | .error error => do
    let reset ← (resetAdaptiveAfterEventFailure .advanceReset).attempt
    match reset with
    | .error _ => Thread.fail adaptiveCleanupFailedMessage
    | .ok () => Thread.fail error

def startAdvancedSource (source : Source) : Act Unit := do
  let url ← Thread.ofExcept source.playbackUrl
  withProcess .advance do
    .load url
    .setPaused false

def publishAdvancedSourceFailure : Act PlaybackSessionState := do
  let reset ← (resetAdaptiveAfterEventFailure .advanceReset).attempt
  match reset with
  | .error _ => update (·.setErrorState adaptiveCleanupFailedMessage)
  | .ok () => update (·.setErrorState playbackFailedMessage)

def alignAndPublishAdvancedSource (source : Source) : Act PlaybackSessionState := do
  alignQueueToSource source
  update (·.setPlayingSource source)

def loadAdvancedSource (source : Source) : Act PlaybackSessionState := do
  prepareAdvancedSourceRate source
  let started ← (startAdvancedSource source).attempt
  match started with
  | .error _ => publishAdvancedSourceFailure
  | .ok () => alignAndPublishAdvancedSource source

def publishEnded : Act PlaybackSessionState :=
  update fun state => { state with status := .ended }

/-- mpv is idle at the end of the file, so the source is loaded again. -/
def repeatCurrentSource : Act PlaybackSessionState := do
  let current ← state
  match current.source with
  | none => publishEnded
  | some source => do
    let repeated ← loadAdvancedSource source
    if repeated.status ≠ .playing then pure repeated
    else update fun state => { state with repeatMode := .off }

/-- The next source follows, on the appended entry where that is its file. -/
def advanceTo (appended : Option String) (source : Source) : Act PlaybackSessionState := do
  if appended.isSome ∧ appended = source.playbackUrl.toOption then do
    prepareAdvancedSourceRate source
    alignAndPublishAdvancedSource source
  else loadAdvancedSource source

def handleEndedEvent : Act PlaybackSessionState := do
  let current ← state
  let appended ← withProcess .advance .takeAppended
  if current.stopAfterCurrent then do
    stopAppendedSource appended
    update fun state => { state with stopAfterCurrent := false, status := .ended }
  else if current.repeatMode = .once ∧ ¬current.source.any (·.isExternalTrack) then
    repeatCurrentSource
  else do
    let nextSource ← reading (·.queue.adjacentSource .next (current.repeatMode = .loop))
    match nextSource with
    | some source => advanceTo appended source
    | none => do
      stopAppendedSource appended
      publishEnded

/-! ### A failure of mpv -/

def publishDirectMpvError (device : OutputDevice) : Act PlaybackSessionState := do
  withProcess .directError do
    .setPaused true
    .configureOutput .system
  update fun state =>
    { state with
      status := .paused
      outputMode := .system
      outputDeviceIssue := some (busyOrUnsupportedDeviceIssue device) }

def publishMpvError : Act PlaybackSessionState := do
  let current ← state
  match if current.outputMode = .directAlsa then current.selectedOutputDevice else none with
  | some device => publishDirectMpvError device
  | none => update (·.setErrorState playbackFailedMessage)

def handleMpvError : Act PlaybackSessionState := do
  let reset ← (resetAdaptiveAfterEventFailure .errorReset).attempt
  match reset with
  | .error _ => update (·.setErrorState adaptiveCleanupFailedMessage)
  | .ok () => publishMpvError

/-! ### The exit of mpv -/

structure RecoveryFailure where
  code : String
  message : String

namespace RecoveryFailure

def snapshotFailed : RecoveryFailure where
  code := "mpv-recovery-snapshot-failed"
  message := "Native playback could not preserve the interrupted session. " ++
    "Quit and reopen the Desktop Client to try again."

def restartFailed : RecoveryFailure where
  code := "mpv-restart-failed"
  message := "Native playback could not restart. Quit and reopen the Desktop Client to try again."

def crashLoop : RecoveryFailure where
  code := "mpv-crash-loop"
  message := "Native playback stopped after two consecutive mpv failures. " ++
    "Quit and reopen the Desktop Client to try again."

end RecoveryFailure

/-- A recovery fails with what it publishes. -/
abbrev Recovery (α : Type) := Thread PlaybackController Fates RecoveryFailure α

/-- A program whose failure is this failure of the recovery. -/
def orFailure {α : Type} (failure : RecoveryFailure) : Act α → Recovery α
  | .done a => .done a
  | .fail _ => .fail failure
  | .act run next => .act run fun b => orFailure failure (next b)

/-- A new mpv, which nobody else sees before it is set up. -/
def startProcess : Act MpvProcess := do
  let result ← Thread.atomically fun p (fates : Fates) =>
    match fates .restart .start with
    | .done => some (Except.ok MpvProcess.launched, p)
    | .fails _ => some (.error "Pinned mpv child could not start.", p)
  .ofExcept result

/-- What the new mpv is told before it takes the place of the old one. -/
def configureRestarted (isGapless : Bool) (playbackRate : ℚ) (snapshot : PlaybackSessionSnapshot)
    (shouldResume : Bool) : ProcessCall Unit := do
  .setGapless isGapless
  applySnapshotToProcess snapshot shouldResume playbackRate

/-- A call of an mpv that is not the controller's yet. -/
def withNewProcess (site : Site) (action : ProcessCall Unit) (process : MpvProcess) :
    Act MpvProcess := do
  let result ← Thread.atomically fun p (fates : Fates) =>
    let result := action (fates site) process
    some (result.1.map fun _ => result.2, p)
  .ofExcept result

def replaceProcess (process : MpvProcess) : Act Unit :=
  .step fun p => ((), { p with process })

def publishRestarted (snapshot : PlaybackSessionSnapshot) (shouldResume : Bool)
    (state : PlaybackSessionState) : PlaybackSessionState :=
  let restored := state.restoreSnapshotState snapshot
  if shouldResume ∧ restored.source.isSome then { restored with status := .playing } else restored

def finishPlayerRestart (snapshot : PlaybackSessionSnapshot) (shouldResume : Bool)
    (process : MpvProcess) : Act Unit := do
  let current ← state
  let configured ← withNewProcess .restart
    (configureRestarted current.isGapless current.playbackRate snapshot shouldResume) process
  replaceProcess configured
  let _ ← update (publishRestarted snapshot shouldResume)
  pure ()

/-- A restart that fails once the rate was forced again gives the rate up. -/
def resetReappliedRateAfterFailedRestart (x : Act Unit) : Act Unit := do
  let result ← x.attempt
  match result with
  | .ok () => pure ()
  | .error error => do
    let _ ← (AdaptiveSystemRate.resetForRecovery .failedRestartReset).attempt
    Thread.fail error

def restartPlayer (snapshot : PlaybackSessionSnapshot) (shouldResume : Bool) : Act Unit := do
  let process ← startProcess
  AdaptiveSystemRate.applySourceSampleRate .recoveryRate (snapshot.source.bind (·.sampleRateHz))
  resetReappliedRateAfterFailedRestart (finishPlayerRestart snapshot shouldResume process)

/-- Whether this exit is recovered from. -/
def unexpectedPlayerExit : Recovery Bool :=
  .step fun p =>
    (p.lifecycle.unexpectedPlayerExit.1, { p with lifecycle := p.lifecycle.unexpectedPlayerExit.2 })

def tryRecoverAfterPlayerExit : Recovery Unit := do
  let current ← orFailure .restartFailed state
  let snapshot ← orFailure .snapshotFailed
    (Thread.ofExcept (PlaybackSessionSnapshot.ofState current))
  orFailure .restartFailed (AdaptiveSystemRate.resetForRecovery .recoveryReset)
  let isRecoverable ← unexpectedPlayerExit
  if isRecoverable then
    orFailure .restartFailed (restartPlayer snapshot current.status.isActive)
  else Thread.fail .crashLoop

/-- A program whose failure is handled. -/
def orElse {ε : Type} (x : Thread PlaybackController Fates ε Unit) (handle : ε → Act Unit) :
    Act Unit :=
  match x with
  | .done () => .done ()
  | .fail e => handle e
  | .act run next => .act run fun b => orElse (next b) handle

def recoverAfterPlayerExit : Act Unit :=
  orElse tryRecoverAfterPlayerExit fun failure => do
    let _ ← update fun state =>
      { state with status := .error, error := some ⟨failure.code, failure.message⟩ }
    pure ()

/-! ### The reports -/

/-- Playback is stable when something is decoded or time passes. -/
def MpvEvent.isStable : MpvEvent → Bool
  | .decoder _ => true
  | .time seconds => 0 ≤ seconds
  | _ => false

/-- mpv reports the format, where the output is a device. -/
def observeReadyDirectFormat : Act Unit := do
  let current ← state
  if current.outputMode ≠ .directAlsa then pure ()
  else do
    let _ ← (withProcess .observeDirect .observeOutputFormat).attempt
    pure ()

/-- What an event does to the session. An event that it does not use changes nothing. -/
def reduceMpvEvent (event : MpvEvent) : Act Unit := do
  match event with
  | .time seconds =>
    if 0 ≤ seconds then do
      let _ ← update fun state => { state with currentTime := seconds }
      pure ()
    else pure ()
  | .duration seconds =>
    if 0 < seconds then do
      let _ ← update fun state => { state with duration := seconds }
      pure ()
    else pure ()
  | .paused isPaused => do
    let _ ← update (·.updatePausedState isPaused)
    pure ()
  | .decoder _ => observeReadyDirectFormat
  | .ended => do
    let _ ← handleEndedEvent
    pure ()
  | .error _ => do
    let _ ← handleMpvError
    pure ()
  | .loadBoundary _ | .exitedUnexpectedly _ => pure ()

/-- The lifecycle is stable once a stable event is handled without a failure. -/
def processMpvEvent (event : MpvEvent) : Act Unit := do
  let result ← (reduceMpvEvent event).attempt
  match result with
  | .error _ => pure ()
  | .ok () => if event.isStable then markPlayerStable else pure ()

/-- What an event does before the session takes it in. -/
def prepareForEvent : MpvEvent → Act Unit
  | .time seconds => appendNextSourceNearEnd seconds
  | .decoder rateHz => applyAdaptiveDecoderRate rateHz
  | _ => pure ()

/-! ### The reconnect of a live stream -/

def liveReconnectDelaySteps : List ℕ := [1, 2, 4, 8, 15]

def liveReconnectReadinessTimeoutMs : ℕ := 10000

def liveReconnectStabilityResetMs : ℕ := 30000

def liveReconnectDelayMs (attempt : ℕ) : ℕ :=
  1000 * liveReconnectDelaySteps.getD (min attempt (liveReconnectDelaySteps.length - 1)) 0

namespace LiveReconnectState

def scheduleNext (now : ℕ) (live : LiveReconnectState) : LiveReconnectState :=
  { live with
    retryAt := some (now + liveReconnectDelayMs live.attempt)
    readinessDeadline := none
    stabilityDeadline := none
    attempt := live.attempt + 1 }

def armStability (now : ℕ) (live : LiveReconnectState) : LiveReconnectState :=
  if 0 < live.attempt ∧ live.stabilityDeadline = none then
    { live with stabilityDeadline := some (now + liveReconnectStabilityResetMs) }
  else live

/-- The stream plays: it is armed for the next interruption. -/
def arm (now : ℕ) (source : Option Source) (commandRevision : ℕ) (live : LiveReconnectState) :
    LiveReconnectState :=
  armStability now
    { live with
      armedSource := source
      commandRevision := commandRevision
      retryAt := none
      readinessDeadline := none }

/-- The attempts are counted anew once the stability period has passed. -/
def updateStability (now : ℕ) (live : LiveReconnectState) : LiveReconnectState :=
  if live.stabilityDeadline.any (· ≤ now) then
    { live with attempt := 0, stabilityDeadline := none }
  else live

def scheduleExpiredReadiness (now : ℕ) (live : LiveReconnectState) : LiveReconnectState :=
  if live.readinessDeadline.any (· ≤ now) then live.scheduleNext now else live

def isDue (now : ℕ) (live : LiveReconnectState) : Bool := live.retryAt.any (· ≤ now)

end LiveReconnectState

def updateLive (f : ℕ → LiveReconnectState → LiveReconnectState) : Act Unit :=
  .step fun p => ((), { p with liveReconnect := f p.now p.liveReconnect })

def resetLive : Act Unit := updateLive fun _ _ => .default

/-- A command since the stream was armed forgets the reconnect. -/
def forgetOverruled : Act Unit := do
  let live ← reading (·.liveReconnect)
  if live.armedSource = none then pure ()
  else do
    let revision ← reading (·.commandRevision)
    if revision ≠ live.commandRevision then resetLive else pure ()

def handleLoadBoundary (loadRevision : ℕ) : Act Unit := do
  let newest ← reading (·.loadRevision)
  if newest ≠ loadRevision then pure ()
  else do
    forgetOverruled
    updateLive fun _ live => { live with acceptedLoadRevision := some loadRevision }

def armLive (current : PlaybackSessionState) : Act Unit := do
  let revision ← reading (·.commandRevision)
  updateLive fun now live => live.arm now current.source revision
  if current.status = .reconnecting then do
    let _ ← update fun state => { state with status := .playing, error := none }
    pure ()
  else pure ()

def handleLiveStableEvent : Act Unit := do
  let loadRevision ← reading (·.loadRevision)
  let live ← reading (·.liveReconnect)
  if live.acceptedLoadRevision ≠ some loadRevision then pure ()
  else do
    let published ← reading (·.publishedLoadRevision)
    if published ≠ loadRevision then pure ()
    else do
      let current ← state
      if current.status.isActive ∧ current.source.any (·.isLive) then armLive current
      else resetLive

/-- The state's lock is kept while the revision is read. -/
def shouldReconnect (p : PlaybackController) : Bool :=
  p.state.status.isActive && p.state.source = p.liveReconnect.armedSource &&
    p.state.source.any (·.isLive) && p.commandRevision = p.liveReconnect.commandRevision

/-- Whether the interruption is a reconnect's to mend. -/
def startLiveReconnect : Act Bool := do
  let should ← reading shouldReconnect
  if should = false then pure false
  else do
    updateLive fun now live => if live.retryAt = none then live.scheduleNext now else live
    let _ ← update fun state => { state with status := .reconnecting, error := none }
    pure true

/-- The process's lock is kept from the second look at the revision on. -/
def reconnectLiveSource : Act Unit := do
  let live ← reading (·.liveReconnect)
  let revision ← reading (·.commandRevision)
  if revision ≠ live.commandRevision then Thread.fail "playback source changed before reconnect"
  else
    match live.armedSource with
    | none => Thread.fail "live playback source is unavailable"
    | some source => do
      let url ← Thread.ofExcept source.playbackUrl
      let revision ← reading (·.commandRevision)
      if revision ≠ live.commandRevision then
        Thread.fail "playback source changed while reconnect was waiting"
      else do
        let loadRevision ← nextLoadRevision
        withProcess .reconnect do
          .loadWithEventBoundary url loadRevision
          .setPaused false
        publishLoadRevision loadRevision

def runLiveReconnectAttempt : Act Unit := do
  updateLive fun _ live => { live with retryAt := none }
  let result ← reconnectLiveSource.attempt
  match result with
  | .error _ => updateLive fun now live => live.scheduleNext now
  | .ok () =>
    updateLive fun now live =>
      { live with readinessDeadline := some (now + liveReconnectReadinessTimeoutMs) }

/-- What is due of a reconnect that is still wanted. -/
def continueLiveReconnect (current : PlaybackSessionState) : Act Unit := do
  if current.status = .playing then updateLive fun now live => live.updateStability now
  else do
    updateLive fun now live => live.scheduleExpiredReadiness now
    let isDue ← reading fun p => p.liveReconnect.isDue p.now
    if isDue then runLiveReconnectAttempt else pure ()

def pollLiveReconnect : Act Unit := do
  let live ← reading (·.liveReconnect)
  if live.armedSource = none then pure ()
  else do
    let current ← state
    let revision ← reading (·.commandRevision)
    if current.source = live.armedSource ∧ revision = live.commandRevision ∧
        current.status.isActive then
      continueLiveReconnect current
    else resetLive

/-! ### One report -/

def MpvEvent.isInterruption : MpvEvent → Bool
  | .ended | .error _ => true
  | _ => false

def handleStable (event : MpvEvent) : Act Unit :=
  if event.isStable then handleLiveStableEvent else pure ()

def handleInterruption (event : MpvEvent) : Act Bool :=
  if event.isInterruption then startLiveReconnect else pure false

def dispatchRegularPlaybackEvent (event : MpvEvent) : Act Unit := do
  handleStable event
  let isReconnecting ← handleInterruption event
  if isReconnecting then pure ()
  else do
    prepareForEvent event
    processMpvEvent event

def dispatchPlaybackEvent (event : MpvEvent) : Act Unit :=
  match event with
  | .exitedUnexpectedly _ => recoverAfterPlayerExit
  | .loadBoundary loadRevision => handleLoadBoundary loadRevision
  | event => dispatchRegularPlaybackEvent event

end Harmony.Player
