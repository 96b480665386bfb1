/-
# The Playback Session

What the desktop player publishes: the source, the status, the output, what mpv is set
to, and the order in which the Queue plays. A Playback Source is JSON; what the player
reads of it is in the fields, what it does not read is in `others`.
-/

import Mathlib.Algebra.Order.Ring.Rat

namespace Harmony.Player

/-- What a source parses to. -/
structure ParsedSource where
  /-- The Queue item's id, or the id of what it plays. -/
  identity : String
  playbackUrl : String
  durationMs : Option ℚ
  deriving DecidableEq

/-- A Playback Source. -/
structure Source where
  type : String
  /-- The parsed source, or why it does not parse. -/
  parsed : Except String ParsedSource
  sampleRateHz : Option ℕ
  hasTrackGain : Bool
  hasAlbumGain : Bool
  others : String
  deriving DecidableEq

namespace Source

def isLive (source : Source) : Bool :=
  source.type = "radio-station" || source.type = "catalog-preview"

def isExternalTrack (source : Source) : Bool := source.type = "external-track"

def isTrack (source : Source) : Bool := source.type = "track"

/-- The URL to load. -/
def playbackUrl (source : Source) : Except String String :=
  match source.parsed with
  | .error error => .error s!"Playback Source is invalid: {error}"
  | .ok parsed =>
    if parsed.playbackUrl = "" then .error "Playback Source URL is missing."
    else .ok parsed.playbackUrl

/-- The duration in seconds, zero where none is known. -/
def trackDuration (source : Source) : ℚ :=
  match source.parsed with
  | .error _ => 0
  | .ok parsed =>
    if source.isLive then 0
    else
      match parsed.durationMs with
      | some duration => if 0 < duration then duration / 1000 else 0
      | none => 0

/-- Whether the mpv file is this source's. -/
def IsFile (source : Source) (url : String) : Prop := source.playbackUrl = .ok url

end Source

/-! ### The state -/

inductive PlaybackStatus
  | idle
  | playing
  | reconnecting
  | paused
  | ended
  | error
  deriving DecidableEq

def PlaybackStatus.isActive : PlaybackStatus → Bool
  | .playing | .reconnecting => true
  | _ => false

inductive RepeatMode
  | off
  | once
  | loop
  deriving DecidableEq

inductive OutputMode
  | system
  | directAlsa
  | adaptiveSystemRate
  deriving DecidableEq

inductive ReplayGainMode
  | off
  | track
  | album
  deriving DecidableEq

inductive EffectiveReplayGainMode
  | off
  | track
  | album
  | trackFallback
  | unavailable
  | unknown

structure OutputDevice where
  id : String
  name : String
  deriving DecidableEq

inductive OutputDeviceIssueCode
  | busyOrUnsupported
  | disconnected
  deriving DecidableEq

structure OutputDeviceIssue where
  code : OutputDeviceIssueCode
  message : String

structure PlaybackStateError where
  code : String
  message : String

structure ProcessingState where
  softwareVolume : ℚ
  replayGainMode : ReplayGainMode
  effectiveReplayGainMode : EffectiveReplayGainMode
  isEqualizerEnabled : Bool
  effectiveAudioFilters : List String

def effectiveReplayGainMode (mode : ReplayGainMode) (source : Option Source) :
    EffectiveReplayGainMode :=
  let trackGain := source.any (·.hasTrackGain)
  let albumGain := source.any (·.hasAlbumGain)
  match mode with
  | .off => .off
  | .track => if trackGain then .track else .unavailable
  | .album => if albumGain then .album else if trackGain then .trackFallback else .unavailable

structure PlaybackSessionState where
  source : Option Source
  outputMode : OutputMode
  availableOutputDevices : List OutputDevice
  selectedOutputDevice : Option OutputDevice
  outputDeviceIssue : Option OutputDeviceIssue
  status : PlaybackStatus
  currentTime : ℚ
  duration : ℚ
  volume : ℚ
  playbackRate : ℚ
  /-- The end-of-file handler stops instead of advancing, and clears it. -/
  stopAfterCurrent : Bool
  isGapless : Bool
  shuffleEnabled : Bool
  repeatMode : RepeatMode
  error : Option PlaybackStateError
  processing : ProcessingState

def defaultVolume : ℚ := 4 / 5

/-- The state of a player that has just started. -/
def PlaybackSessionState.default : PlaybackSessionState where
  source := none
  outputMode := .system
  availableOutputDevices := []
  selectedOutputDevice := none
  outputDeviceIssue := none
  status := .idle
  currentTime := 0
  duration := 0
  volume := defaultVolume
  playbackRate := 1
  stopAfterCurrent := false
  isGapless := true
  shuffleEnabled := false
  repeatMode := .off
  error := none
  processing := ⟨1, .off, .off, false, []⟩

namespace PlaybackSessionState

def setErrorState (message : String) (state : PlaybackSessionState) : PlaybackSessionState :=
  { state with status := .error, error := some ⟨"playback-failed", message⟩ }

def setPlayingSource (source : Source) (state : PlaybackSessionState) : PlaybackSessionState :=
  { state with
    duration := source.trackDuration
    processing := { state.processing with
      effectiveReplayGainMode :=
        effectiveReplayGainMode state.processing.replayGainMode (some source) }
    source := some source
    status := .playing
    currentTime := 0
    error := none }

def updatePlayingState (source : Source) (isNewSource : Bool) (state : PlaybackSessionState) :
    PlaybackSessionState :=
  if isNewSource then state.setPlayingSource source
  else { state with source := some source, status := .playing, error := none }

def updatePausedState (isPaused : Bool) (state : PlaybackSessionState) : PlaybackSessionState :=
  if state.source.isSome ∧ state.status ≠ .ended then
    { state with status := if isPaused then .paused else .playing }
  else state

def publishSystemOutput (state : PlaybackSessionState) : PlaybackSessionState :=
  { state with outputMode := .system, outputDeviceIssue := none }

def publishAdaptiveSystemOutput (state : PlaybackSessionState) : PlaybackSessionState :=
  { state with outputMode := .adaptiveSystemRate, outputDeviceIssue := none }

end PlaybackSessionState

/-! ### The order of the Queue -/

inductive QueueDirection
  | previous
  | next

structure PlaybackQueueContext where
  sources : List Source
  order : List ℕ
  currentIndex : Option ℕ

namespace PlaybackQueueContext

def empty : PlaybackQueueContext := ⟨[], [], none⟩

def resetOrder (queue : PlaybackQueueContext) : PlaybackQueueContext :=
  { queue with order := List.range queue.sources.length }

/-- The first failure to parse, of the sources. -/
def parseAll (sources : List Source) : Except String Unit :=
  sources.forM fun source =>
    match source.parsed with
    | .error error => .error s!"Playback Source is invalid: {error}"
    | .ok _ => .ok ()

def sync (queue : PlaybackQueueContext) (sources : List Source) (currentIndex : Option ℕ) :
    Except String PlaybackQueueContext :=
  if currentIndex.any fun index => sources.length ≤ index then
    .error "Playback Queue current index is out of range."
  else do
    parseAll sources
    pure { queue with sources, currentIndex, order := List.range sources.length }

/-- The position of the first source of this identity. -/
def indexOf (identity : String) : List Source → ℕ → Except String (Option ℕ)
  | [], _ => .ok none
  | candidate :: rest, index =>
    match candidate.parsed with
    | .error error => .error s!"Playback Source is invalid: {error}"
    | .ok parsed =>
      if parsed.identity = identity then .ok (some index) else indexOf identity rest (index + 1)

def alignToSource (queue : PlaybackQueueContext) (source : Source) :
    Except String PlaybackQueueContext :=
  match source.parsed with
  | .error error => .error s!"Playback Source is invalid: {error}"
  | .ok parsed => do
    let currentIndex ← indexOf parsed.identity queue.sources 0
    pure { queue with currentIndex }

/-- Two places of the order change. -/
def swap (order : List ℕ) (i j : ℕ) : List ℕ :=
  (order.set i (order.getD j 0)).set j (order.getD i 0)

def avoidSequentialSuccessor (queue : PlaybackQueueContext) : PlaybackQueueContext :=
  match queue.currentIndex with
  | none => queue
  | some current =>
    match queue.order.findIdx? (· = current) with
    | none => queue
    | some position =>
      let order := queue.order.rotateLeft position
      { queue with
        order :=
          if 2 < order.length ∧ order.getD 1 0 = (current + 1) % order.length then swap order 1 2
          else order }

/-- A shuffle with these random numbers; where one cannot be drawn it stops. -/
def shuffleFrom (random : ℕ → Option ℕ) : List ℕ → List ℕ → Except (List ℕ) (List ℕ)
  | order, [] => .ok order
  | order, index :: rest =>
    match random index with
    | none => .error order
    | some drawn => shuffleFrom random (swap order index (drawn % (index + 1))) rest

/-- The queue afterwards, and the failure if there is one. -/
def shuffle (random : ℕ → Option ℕ) (queue : PlaybackQueueContext) :
    PlaybackQueueContext × Option String :=
  let fresh := queue.resetOrder
  match shuffleFrom random fresh.order
      ((List.range fresh.order.length).reverse.filter (1 ≤ ·)) with
  | .error order =>
    ({ fresh with order }, some "Playback Queue shuffle could not be generated.")
  | .ok order => (avoidSequentialSuccessor { fresh with order }, none)

def adjacentSource (queue : PlaybackQueueContext) (direction : QueueDirection)
    (shouldWrap : Bool) : Option Source :=
  match queue.currentIndex with
  | none => none
  | some current =>
    match queue.order.findIdx? (· = current) with
    | none => none
    | some position =>
      let nextPosition :=
        match direction with
        | .previous =>
          if 0 < position then some (position - 1)
          else if shouldWrap ∧ 0 < queue.order.length then some (queue.order.length - 1)
          else none
        | .next =>
          if position + 1 < queue.order.length then some (position + 1)
          else if shouldWrap ∧ queue.order ≠ [] then some 0
          else none
      match nextPosition with
      | none => none
      | some next => queue.order[next]?.bind (queue.sources[·]?)

end PlaybackQueueContext

/-! ### The lifecycle and the snapshot -/

inductive PlaybackLifecycleState
  | foreground
  | background
  | recovering
  | failed
  | quitting
  deriving DecidableEq

structure PlaybackLifecycle where
  state : PlaybackLifecycleState
  hasRecoveryAttempted : Bool

/-- What a restart of the player keeps of the session. -/
structure PlaybackSessionSnapshot where
  source : Option Source
  playheadSeconds : ℚ
  volume : ℚ
  shuffleEnabled : Bool
  repeatMode : RepeatMode

namespace PlaybackSessionSnapshot

def validate (playheadSeconds volume : ℚ) : Except String Unit :=
  if playheadSeconds < 0 then
    .error "Playback Session Snapshot playhead must be a non-negative finite number."
  else if volume < 0 ∨ 1 < volume then
    .error "Playback Session Snapshot volume must be between zero and one."
  else .ok ()

/-- The snapshot of a published state. -/
def ofState (state : PlaybackSessionState) : Except String PlaybackSessionSnapshot := do
  validate state.currentTime state.volume
  pure
    { source := state.source, playheadSeconds := state.currentTime, volume := state.volume
      shuffleEnabled := state.shuffleEnabled, repeatMode := state.repeatMode }

end PlaybackSessionSnapshot

namespace PlaybackLifecycle

def playerStabilized (lifecycle : PlaybackLifecycle) : PlaybackLifecycle where
  hasRecoveryAttempted := false
  state := if lifecycle.state = .recovering then .foreground else lifecycle.state

/-- Whether an exit of mpv is recovered from, and the lifecycle afterwards. -/
def unexpectedPlayerExit (lifecycle : PlaybackLifecycle) : Bool × PlaybackLifecycle :=
  if lifecycle.hasRecoveryAttempted then (false, { lifecycle with state := .failed })
  else (true, ⟨.recovering, true⟩)

end PlaybackLifecycle

/-- What the session is after a restart from a snapshot. -/
def PlaybackSessionState.restoreSnapshotState (snapshot : PlaybackSessionSnapshot)
    (state : PlaybackSessionState) : PlaybackSessionState :=
  { state with
    source := snapshot.source
    status := if snapshot.source.isSome then .paused else .idle
    currentTime := snapshot.playheadSeconds
    duration := (snapshot.source.map Source.trackDuration).getD 0
    volume := snapshot.volume
    shuffleEnabled := snapshot.shuffleEnabled
    repeatMode := snapshot.repeatMode
    processing := { state.processing with
      effectiveReplayGainMode :=
        effectiveReplayGainMode state.processing.replayGainMode snapshot.source }
    error := none }

end Harmony.Player
