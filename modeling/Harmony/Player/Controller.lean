/-
# The Playback Controller and its parts

The commands of the listener and the handling of what mpv reports are programs of steps.
A step is one hold of a lock, or one call of what is outside: mpv, the system's rate
control and the cleanup marker. The controller of the system's rate keeps its lock over its
calls, which are steps of their own because the process can be killed between two of them.
-/

import Harmony.Player.Process

namespace Harmony.Player

open Thread

structure OutputDeviceCatalog where
  devices : List OutputDevice
  /-- The device that it watches for disconnection. -/
  selected : Option OutputDevice

structure AdaptiveSystemRateState where
  isEnabled : Bool
  /-- What the controller remembers to have forced. -/
  forcedRateHz : Option ℕ

def AdaptiveSystemRateState.default : AdaptiveSystemRateState := ⟨false, none⟩

/-- What the event thread remembers of a live stream. The times are in milliseconds. -/
structure LiveReconnectState where
  armedSource : Option Source
  commandRevision : ℕ
  attempt : ℕ
  retryAt : Option ℕ
  readinessDeadline : Option ℕ
  stabilityDeadline : Option ℕ
  acceptedLoadRevision : Option ℕ

def LiveReconnectState.default : LiveReconnectState := ⟨none, 0, 0, none, none, none, none⟩

/-- The controller with its event thread, and what is outside. -/
structure PlaybackController where
  state : PlaybackSessionState
  queue : PlaybackQueueContext
  process : MpvProcess
  outputDevices : OutputDeviceCatalog
  adaptiveSystemRate : AdaptiveSystemRateState
  lifecycle : PlaybackLifecycle
  commandRevision : ℕ
  loadRevision : ℕ
  publishedLoadRevision : ℕ
  transitionFadeMs : ℕ
  liveReconnect : LiveReconnectState
  now : ℕ
  /-- The rate that the system is forced to. -/
  forcedRate : Option ℕ
  /-- Whether the cleanup marker is on disk. -/
  isMarked : Bool
  /-- The raw devices that are there to be listed. -/
  plugged : List OutputDevice

/-- A controller that has just started, over what is outside. -/
def PlaybackController.started (forcedRate : Option ℕ) (isMarked : Bool)
    (plugged : List OutputDevice) :
    PlaybackController where
  state := .default
  queue := .empty
  process := .launched
  outputDevices := ⟨[], none⟩
  adaptiveSystemRate := .default
  lifecycle := ⟨.foreground, false⟩
  commandRevision := 0
  loadRevision := 0
  publishedLoadRevision := 0
  transitionFadeMs := 0
  liveReconnect := .default
  now := 0
  forcedRate := forcedRate
  isMarked := isMarked
  plugged := plugged

/-- A program of the player's steps. The input of a step says what becomes of its calls. -/
abbrev Act (α : Type) := Thread PlaybackController Fates String α

/-! ### Steps -/

def reading {α : Type} (f : PlaybackController → α) : Act α := .step fun p => (f p, p)

def state : Act PlaybackSessionState := reading (·.state)

/-- Changes the published state and returns it. -/
def update (change : PlaybackSessionState → PlaybackSessionState) : Act PlaybackSessionState :=
  .step fun p => (change p.state, { p with state := change p.state })

/-- One hold of the process's lock. -/
def withProcess {α : Type} (site : Site) (action : ProcessCall α) : Act α := do
  let result ← Thread.atomically fun p fates =>
    let result := action (fates site) p.process
    some (result.1, { p with process := result.2 })
  .ofExcept result

/-- One call of what is outside. -/
def outside (site : Site) (call : Call) (error : String)
    (effect : PlaybackController → PlaybackController) : Act Unit := do
  let result ← Thread.atomically fun p fates =>
    match fates site call with
    | .done => some (Except.ok (), effect p)
    | .fails isDone => some (.error error, if isDone then effect p else p)
  .ofExcept result

def withQueue {α : Type}
    (change : PlaybackQueueContext → Except String α × PlaybackQueueContext) : Act α := do
  let result ← Thread.step fun p => ((change p.queue).1, { p with queue := (change p.queue).2 })
  .ofExcept result

/-- A change of the queue that keeps it where it fails. -/
def changeQueue (change : PlaybackQueueContext → Except String PlaybackQueueContext) : Act Unit :=
  withQueue fun queue =>
    match change queue with
    | .ok queue' => (.ok (), queue')
    | .error error => (.error error, queue)

def shuffleQueue (random : ℕ → Option ℕ) : Act Unit :=
  withQueue fun queue =>
    match (queue.shuffle random).2 with
    | none => (.ok (), (queue.shuffle random).1)
    | some error => (.error error, (queue.shuffle random).1)

def advanceCommandRevision : Act Unit :=
  .step fun p => ((), { p with commandRevision := p.commandRevision + 1 })

def nextLoadRevision : Act ℕ :=
  .step fun p => (p.loadRevision + 1, { p with loadRevision := p.loadRevision + 1 })

def publishLoadRevision (loadRevision : ℕ) : Act Unit :=
  .step fun p => ((), { p with publishedLoadRevision := loadRevision })

def markPlayerStable : Act Unit :=
  .step fun p => ((), { p with lifecycle := p.lifecycle.playerStabilized })

def playbackFailedMessage : String := "Playback failed. Check the source and try again."

/-- Publishes the failure and fails with it. -/
def fail {α : Type} (message : String) : Act α := do
  let _ ← update (·.setErrorState message)
  Thread.fail message

/-- A failure whose details go to the log only. -/
def failNative {α : Type} : Act α := fail playbackFailedMessage

/-! ### The controller of the system's rate -/

namespace AdaptiveSystemRate

def setForcedRateHz (site : Site) (rateHz : Option ℕ) : Act Unit :=
  outside site .setForcedRate "PipeWire force-rate command failed."
    fun p => { p with forcedRate := rateHz }

def remember (f : AdaptiveSystemRateState → AdaptiveSystemRateState) : Act Unit :=
  .step fun p => ((), { p with adaptiveSystemRate := f p.adaptiveSystemRate })

/-- A marker that could not be cleared is still there. -/
def clearMarker (site : Site) : Act Unit := do
  let result ← Thread.atomically fun p (fates : Fates) =>
    match fates site .clearMarker with
    | .done => some (Except.ok (), { p with isMarked := false })
    | .fails _ => some (.error "Adaptive cleanup marker could not be removed.", p)
  .ofExcept result

def ensureAvailable (site : Site) : Act Unit :=
  outside site .ensureAvailable "Adaptive System Rate is unavailable on this system." id

def enable (site : Site) : Act Unit := do
  outside site .markRequired "Adaptive cleanup marker could not be saved."
    fun p => { p with isMarked := true }
  remember fun state => { state with isEnabled := true }

def applySourceSampleRate (site : Site) (rateHz : Option ℕ) : Act Unit := do
  let controller ← reading (·.adaptiveSystemRate)
  if controller.isEnabled = false then pure ()
  else do
    setForcedRateHz site (rateHz.filter (0 < ·))
    remember fun state => { state with forcedRateHz := rateHz.filter (0 < ·) }

def resetForceRate (site : Site) : Act Unit := do
  setForcedRateHz site none
  remember fun state => { state with forcedRateHz := none }

def disable (site : Site) : Act Unit := do
  let controller ← reading (·.adaptiveSystemRate)
  if controller.isEnabled = false ∧ controller.forcedRateHz = none then pure ()
  else do
    resetForceRate site
    clearMarker site
    remember fun _ => .default

def resetForRecovery (site : Site) : Act Unit := do
  let controller ← reading (·.adaptiveSystemRate)
  if controller.isEnabled = false ∧ controller.forcedRateHz = none then pure ()
  else resetForceRate site

def isRequired (site : Site) : Act Bool := do
  let result ← Thread.atomically fun p (fates : Fates) =>
    match fates site .readMarker with
    | .done => some (Except.ok p.isMarked, p)
    | .fails _ => some (.error "Adaptive cleanup marker could not be inspected.", p)
  .ofExcept result

/-- What a start of the client does before anything else. It does not start where this fails. -/
def recoverStartupIfMarked (site : Site) : Act Unit := do
  let isRequired ← isRequired site
  if isRequired then do
    setForcedRateHz site none
    clearMarker site
  else pure ()

/-- The end of the controller, on a normal exit. -/
def teardown (site : Site) : Act Unit := do
  let controller ← reading (·.adaptiveSystemRate)
  if controller.isEnabled = false ∧ controller.forcedRateHz = none then pure ()
  else do
    let reset ← (setForcedRateHz site none).attempt
    match reset with
    | .error _ => pure ()
    | .ok () => do
      let _ ← (clearMarker site).attempt
      pure ()

end AdaptiveSystemRate

/-! ### The devices -/

namespace OutputDeviceCatalog

/-- A number of a card or a device: 32 bits, where a plus sign may stand before it. -/
def isU32 (text : List Char) : Bool :=
  let digits := if text.head? = some '+' then text.tail else text
  digits ≠ [] && digits.all Char.isDigit &&
    digits.foldl (fun value c => value * 10 + (c.toNat - '0'.toNat)) 0 < 2 ^ 32

def isRawHardwareId (deviceId : String) : Bool :=
  if "hw:".toList.isPrefixOf deviceId.toList then
    match (deviceId.toList.drop 3).splitOn ',' with
    | [card, device] => isU32 card && isU32 device
    | _ => false
  else false

/-- What a refresh finds. -/
structure Refreshed where
  devices : List OutputDevice
  disconnected : Option OutputDevice

def enumerationFailedMessage : String :=
  "Raw ALSA Output Devices could not be listed. Check the local ALSA setup and try again."

def notRawHardwareMessage : String :=
  "Choose a raw ALSA hardware device from the available Output Device list."

def unavailableMessage : String :=
  "The selected raw ALSA Output Device is unavailable. " ++
    "Refresh the device list and choose another device."

def refresh (site : Site) : Act Refreshed := do
  let result ← Thread.atomically fun p (fates : Fates) =>
    match fates site .listDevices with
    | .fails _ => some (Except.error enumerationFailedMessage, p)
    | .done =>
      let disconnected := p.outputDevices.selected.filter fun selected =>
        !p.plugged.any fun device => device.id = selected.id
      some (.ok ⟨p.plugged, disconnected⟩,
        { p with outputDevices := { p.outputDevices with devices := p.plugged } })
  .ofExcept result

def select (site : Site) (deviceId : String) : Act OutputDevice := do
  let result ← Thread.atomically fun p (fates : Fates) =>
    if isRawHardwareId deviceId = false then some (Except.error notRawHardwareMessage, p)
    else
      match fates site .listDevices with
      | .fails _ => some (.error enumerationFailedMessage, p)
      | .done =>
        match p.plugged.find? (·.id = deviceId) with
        | none =>
          some (.error unavailableMessage,
            { p with outputDevices := { p.outputDevices with devices := p.plugged } })
        | some device => some (.ok device, { p with outputDevices := ⟨p.plugged, some device⟩ })
  .ofExcept result

end OutputDeviceCatalog

def busyOrUnsupportedDeviceIssue (device : OutputDevice) : OutputDeviceIssue where
  code := .busyOrUnsupported
  message := s!"{device.name} is busy or does not support this source format. " ++
    "Select Normal Output to continue through the system output."

def disconnectedDeviceIssue (device : OutputDevice) : OutputDeviceIssue where
  code := .disconnected
  message := s!"{device.name} disconnected. " ++
    "Select Normal Output to continue through the active system output."

/-! ### The volume ramps -/

def transitionFadeStepMs : ℕ := 20

def maxTransitionFadeMs : ℕ := 2000

/-- The volumes of a ramp. -/
def rampSteps (first last : ℚ) (fadeMs : ℕ) : List ℚ :=
  let steps := max (fadeMs / transitionFadeStepMs) 1
  (List.range steps).map fun step => first + (last - first) * ((step + 1 : ℕ) / (steps : ℚ))

/-- A step that fails ends the ramp. -/
def rampVolume : List ℚ → Act Unit
  | [] => pure ()
  | volume :: rest => do
    let result ← (withProcess .fade (.setVolume volume)).attempt
    match result with
    | .error _ => pure ()
    | .ok () => rampVolume rest

/-- The volume and the length of a fade, where one should run. -/
def activeFade : Act (Option (ℚ × ℕ)) := do
  let fadeMs ← reading (·.transitionFadeMs)
  if fadeMs = 0 then pure none
  else do
    let current ← state
    if current.status.isActive = false then pure none else pure (some (current.volume, fadeMs))

def fadeOut : Act Unit := do
  let fade ← activeFade
  match fade with
  | none => pure ()
  | some (volume, fadeMs) => rampVolume (rampSteps volume 0 fadeMs)

def fadeIn : Act Unit := do
  let fade ← activeFade
  match fade with
  | none => pure ()
  | some (volume, fadeMs) => rampVolume (rampSteps 0 volume fadeMs)

def restoreVolume : Act Unit := do
  let fadeMs ← reading (·.transitionFadeMs)
  if fadeMs = 0 then pure ()
  else do
    let current ← state
    let _ ← (withProcess .restoreVolume (.setVolume current.volume)).attempt
    pure ()

end Harmony.Player
