/-
# The browser's playback engine

The web client's engine over one media element: the state it shows, the element with
the source it holds, the calls of `play` and the reconnect attempts that wait for a
promise, and three timers. An async function runs to its next `await` in one step.
What its promise settles to is an event; the rest of the function is a microtask,
which runs at some later point but before any media event or timer.
-/

import Mathlib.Data.List.Basic

namespace Harmony.BrowserEngine

/-! ### Data -/

inductive SourceType
  | track
  | radioStation
  | catalogPreview
  | externalTrack
  deriving DecidableEq

/-- A source; `isHls` is what `isHlsStream` says of its URL. -/
structure PlaybackSource where
  type : SourceType
  playbackUrl : String
  isHls : Bool
  deriving DecidableEq

inductive PlaybackStatus
  | idle
  | playing
  | reconnecting
  | paused
  | ended
  | error
  deriving DecidableEq

inductive RepeatMode
  | off
  | once
  | loop
  deriving DecidableEq

structure PlaybackError where
  code : String
  message : String

def isLiveSource : Option PlaybackSource → Bool
  | some source => source.type == .radioStation || source.type == .catalogPreview
  | none => false

/-- Where an async function stands that opens a source and plays it: it waits for the
HLS library, knows the library, has opened the source, waits for `media.play()`, or
knows how that went. -/
inductive Stage
  | loading
  | loaded (library : Except String Bool)
  | opened
  | starting
  | settled (outcome : Except String Unit)

namespace Stage

/-- Its promise has settled, so the rest of the function runs as a microtask. -/
def runnable : Stage → Bool
  | loading | starting => false
  | loaded _ | opened | settled _ => true

/-- `media.play()` is still to be called. -/
def early : Stage → Bool
  | loading | loaded _ | opened => true
  | starting | settled _ => false

/-- The element rejects the promise of `media.play()`. -/
def reject (message : String) : Stage → Stage
  | starting => settled (.error message)
  | stage => stage

/-- The element resolves the promise of `media.play()`. -/
def resolve : Stage → Stage
  | starting => settled (.ok ())
  | stage => stage

end Stage

/-- A call of `play` in flight, with the number of the choice it belongs to. -/
structure PlayCall where
  source : Option PlaybackSource
  choice : ℕ
  stage : Stage

/-- A call of `reconnectLiveSource` in flight, with the number of commands there were
when it was scheduled. -/
structure Attempt where
  source : PlaybackSource
  sourceRevision : ℕ
  commands : ℕ
  stage : Stage

structure ReconnectTimer where
  source : PlaybackSource
  sourceRevision : ℕ
  delay : ℕ
  commands : ℕ

/-- The element; `src` is the source whose URL the attribute holds. -/
structure Media where
  src : Option PlaybackSource
  paused : Bool

structure Engine where
  source : Option PlaybackSource
  status : PlaybackStatus
  error : Option PlaybackError
  stopAfterCurrent : Bool
  repeatMode : RepeatMode
  media : Media
  /-- The source of the HLS instance attached to the element. -/
  hls : Option PlaybackSource
  /-- The HLS library once it is known, and whether it is supported. -/
  hlsFactory : Option Bool
  reconnectTimer : Option ReconnectTimer
  stallTimer : Bool
  stabilityTimer : Bool
  reconnectAttempt : ℕ
  sourceRevision : ℕ
  hasStartedLivePlayback : Bool
  isReconnectAttemptRunning : Bool
  plays : List PlayCall
  attempts : List Attempt
  -- What follows only records the run: no branch of the engine reads it.
  /-- The sources chosen so far. -/
  choices : ℕ
  /-- The calls of `play`, `pause` and `stop` so far. -/
  commands : ℕ
  /-- The listener's last command was `pause` or `stop`. -/
  silenced : Bool
  /-- A live source that had played was interrupted and has not played since, with no
  command since. -/
  interrupted : Bool
  /-- The element has given up on what it holds. -/
  failed : Bool
  /-- The delays of the attempts since the last command or 30 stable seconds. -/
  delays : List ℕ

namespace Engine

/-- The engine as it is built, before or after the HLS library is known. -/
def new (hlsFactory : Option Bool) : Engine where
  source := none
  status := .idle
  error := none
  stopAfterCurrent := false
  repeatMode := .off
  media := { src := none, paused := true }
  hls := none
  hlsFactory := hlsFactory
  reconnectTimer := none
  stallTimer := false
  stabilityTimer := false
  reconnectAttempt := 0
  sourceRevision := 0
  hasStartedLivePlayback := false
  isReconnectAttemptRunning := false
  plays := []
  attempts := []
  choices := 0
  commands := 0
  silenced := false
  interrupted := false
  failed := false
  delays := []

variable (e : Engine)

/-- What the element plays: the HLS instance attached to it, else its attribute. -/
def content : Option PlaybackSource :=
  e.hls <|> e.media.src

/-- No microtask waits, so the browser may go on to its next task. -/
def quiet : Bool :=
  e.plays.all (!·.stage.runnable) && e.attempts.all (!·.stage.runnable)

/-! ### The element -/

/-- Pending promises of `media.play()` are rejected. -/
def rejectStarting (message : String) : Engine :=
  { e with
    plays := e.plays.map fun call => { call with stage := call.stage.reject message }
    attempts := e.attempts.map fun call => { call with stage := call.stage.reject message } }

/-- Pending promises of `media.play()` are resolved. -/
def resolveStarting : Engine :=
  { e with
    plays := e.plays.map fun call => { call with stage := call.stage.resolve }
    attempts := e.attempts.map fun call => { call with stage := call.stage.resolve } }

/-- `media.pause()`. -/
def pauseMedia : Engine :=
  { e.rejectStarting "The play() request was interrupted by a call to pause()" with
    media := { e.media with paused := true } }

/-- `destroyHls`, `removeAttribute("src")` and `media.load()`. -/
def unload : Engine :=
  { e.rejectStarting "The play() request was interrupted by a new load request" with
    hls := none
    media := { src := none, paused := true }
    failed := false }

/-- The element stops at its end. -/
def endMedia : Engine :=
  { e.rejectStarting "The operation was aborted" with
    media := { e.media with paused := true }
    failed := true }

/-- The call of `media.play()`, before its promise settles. -/
def startMedia : Engine :=
  { e with media := { e.media with paused := false } }

/-! ### Opening a source -/

/-- The end of `setMediaSource` for HLS, with the library known. -/
def attachHls (source : PlaybackSource) : Engine :=
  if e.hlsFactory = some true then
    { e with hls := some source }
  else
    { e with media := { e.media with src := some source } }

/-- `setMediaSource` up to its first `await`, and where its caller then stands. -/
def setMediaSource (source : PlaybackSource) : Engine × Stage :=
  let e := e.unload
  if source.isHls then
    match e.hlsFactory with
    | none => (e, .loading)
    | some _ => (e.attachHls source, .opened)
  else
    ({ e with media := { e.media with src := some source } }, .opened)

/-! ### Timers -/

def LIVE_RECONNECT_DELAYS_MS : List ℕ := [1000, 2000, 4000, 8000, 15000]

def reconnectDelay (reconnectAttempt : ℕ) : ℕ :=
  LIVE_RECONNECT_DELAYS_MS.getD (min reconnectAttempt (LIVE_RECONNECT_DELAYS_MS.length - 1)) 0

def cancelLiveReconnect : Engine :=
  { e with
    reconnectTimer := none
    stallTimer := false
    stabilityTimer := false
    reconnectAttempt := 0
    delays := [] }

def scheduleLiveReconnect : Engine :=
  match e.source with
  | none => e
  | some source =>
    if e.reconnectTimer.isSome || e.isReconnectAttemptRunning || !isLiveSource e.source then
      e
    else
      { e with
        stabilityTimer := false
        reconnectTimer := some {
          source
          sourceRevision := e.sourceRevision
          delay := reconnectDelay e.reconnectAttempt
          commands := e.commands }
        reconnectAttempt := e.reconnectAttempt + 1
        status := .reconnecting
        error := none
        delays := e.delays ++ [reconnectDelay e.reconnectAttempt] }

/-- Whether a scheduled reconnect still is what the state shows. -/
def isCurrent (source : PlaybackSource) (sourceRevision : ℕ) : Bool :=
  e.sourceRevision == sourceRevision && e.source == some source && e.status == .reconnecting

/-- The reconnect timer's callback: `reconnectLiveSource` up to its first `await`. -/
def reconnectLiveSource (timer : ReconnectTimer) : Engine :=
  let e := { e with reconnectTimer := none }
  if e.isCurrent timer.source timer.sourceRevision then
    let (e, stage) := { e with isReconnectAttemptRunning := true }.setMediaSource timer.source
    { e with
      attempts := e.attempts ++ [{
        source := timer.source
        sourceRevision := timer.sourceRevision
        commands := timer.commands
        stage }] }
  else
    e

/-! ### Commands -/

/-- `play` up to its first `await`. -/
def play (source : Option PlaybackSource) : Engine :=
  match source with
  | some source =>
    let e := e.cancelLiveReconnect
    let e := { e with
      sourceRevision := e.sourceRevision + 1
      hasStartedLivePlayback := false
      source := some source
      status := .paused
      error := none
      choices := e.choices + 1 }
    let (e, stage) := e.setMediaSource source
    { e with plays := e.plays ++ [{ source := some source, choice := e.choices, stage }] }
  | none =>
    if e.source.isNone then
      e
    else
      { e.startMedia with
        plays := e.plays ++ [{ source := none, choice := e.choices, stage := .starting }] }

def pause : Engine :=
  let e := e.cancelLiveReconnect
  let e := { e with sourceRevision := e.sourceRevision + 1 }
  let e := e.pauseMedia
  if e.source.isSome then { e with status := .paused } else e

def stop : Engine :=
  let e := e.cancelLiveReconnect
  let e := { e with sourceRevision := e.sourceRevision + 1 }
  let e := e.pauseMedia
  let e := e.unload
  { e with source := none, status := .idle, error := none }

def cycleRepeatMode : Engine :=
  { e with
    repeatMode :=
      match e.repeatMode with
      | .off => .once
      | .once => .loop
      | .loop => .off }

/-! ### Microtasks -/

/-- The rest of `play` once the promise it waits for has settled. -/
def continuePlay (i : ℕ) : Option Engine :=
  e.plays[i]?.bind fun call =>
    match call.stage, call.source with
    | .loaded (.ok supported), some source =>
      let e := { e with hlsFactory := some supported }.attachHls source
      some { e with plays := e.plays.set i { call with stage := .opened } }
    | .loaded (.error message), _ =>
      some { e with plays := e.plays.set i { call with stage := .settled (.error message) } }
    | .opened, _ =>
      let e := e.startMedia
      some { e with plays := e.plays.set i { call with stage := .starting } }
    | .settled (.ok ()), _ =>
      some { e with plays := e.plays.eraseIdx i, status := .playing, error := none }
    | .settled (.error message), _ =>
      some { e with
        plays := e.plays.eraseIdx i
        status := .error
        error := some { code := "playback-failed", message } }
    | _, _ => none

/-- The rest of `reconnectLiveSource` once the promise it waits for has settled. -/
def continueAttempt (i : ℕ) : Option Engine :=
  e.attempts[i]?.bind fun attempt =>
    match attempt.stage with
    | .loaded (.ok supported) =>
      let e := { e with hlsFactory := some supported }.attachHls attempt.source
      some { e with attempts := e.attempts.set i { attempt with stage := .opened } }
    | .loaded (.error message) =>
      some { e with
        attempts := e.attempts.set i { attempt with stage := .settled (.error message) } }
    | .opened =>
      if e.isCurrent attempt.source attempt.sourceRevision then
        let e := e.startMedia
        some { e with attempts := e.attempts.set i { attempt with stage := .starting } }
      else
        some { e with attempts := e.attempts.eraseIdx i, isReconnectAttemptRunning := false }
    | .settled (.ok ()) =>
      some { e with attempts := e.attempts.eraseIdx i, isReconnectAttemptRunning := false }
    | .settled (.error _) =>
      let shouldRetry := e.isCurrent attempt.source attempt.sourceRevision
      let e := { e with attempts := e.attempts.eraseIdx i, isReconnectAttemptRunning := false }
      some (if shouldRetry then e.scheduleLiveReconnect else e)
    | _ => none

/-! ### Media events -/

def handleTimeUpdate : Engine :=
  if isLiveSource e.source then { e with stallTimer := false } else e

def handlePlay : Engine :=
  if e.status = .reconnecting then e else { e with status := .playing }

def handlePlaying : Engine :=
  let e := { e with
    stallTimer := false
    hasStartedLivePlayback := isLiveSource e.source || e.hasStartedLivePlayback
    status := .playing }
  if e.reconnectAttempt > 0 then { e with stabilityTimer := true } else e

def handlePause : Engine :=
  if e.status = .ended then e else { e with status := .paused }

def handleEnded : Engine :=
  if isLiveSource e.source && e.hasStartedLivePlayback then
    e.scheduleLiveReconnect
  else if e.stopAfterCurrent then
    { e with status := .paused, stopAfterCurrent := false }
  else if e.source.all (·.type != .externalTrack) && e.repeatMode != .off then
    let repeatMode := if e.repeatMode = .once then .off else e.repeatMode
    { e with status := .playing, repeatMode }.play none
  else
    { e with status := .ended }

def handleMediaError : Engine :=
  if e.isReconnectAttemptRunning then
    e
  else if isLiveSource e.source && e.hasStartedLivePlayback then
    e.scheduleLiveReconnect
  else
    { e with
      status := .error
      error := some { code := "playback-failed", message := "Playback failed" } }

def handleStalled : Engine :=
  if e.stallTimer || !isLiveSource e.source || !e.hasStartedLivePlayback then
    e
  else
    { e with stallTimer := true }

end Engine

/-! ### Events -/

/-- What can happen: commands, promises that settle, microtasks, media events and
timers. A call in flight is named by its place. -/
inductive Event
  | play (source : Option PlaybackSource)
  | pause
  | stop
  | setStopAfterCurrent (enabled : Bool)
  | cycleRepeatMode
  | playLoads (i : ℕ) (library : Except String Bool)
  | attemptLoads (i : ℕ) (library : Except String Bool)
  | playSettles (i : ℕ) (outcome : Except String Unit)
  | attemptRejects (i : ℕ) (message : String)
  | continuePlay (i : ℕ)
  | continueAttempt (i : ℕ)
  | mediaPlay
  | mediaPlaying
  | mediaPause
  | mediaEnded
  | mediaError
  | mediaBreaks
  | fatalHlsError
  | mediaStalled
  | mediaTimeUpdate
  | reconnectTimer
  | stallTimer
  | stabilityTimer

namespace Engine

variable (e : Engine)

/-- A task of the browser, which waits for the microtasks. -/
def task (possible : Bool) (handled : Engine) : Option Engine :=
  if e.quiet && possible then some handled else none

/-- The last command was to play. -/
def commanded (silenced : Bool) : Engine :=
  { e with commands := e.commands + 1, silenced, interrupted := false }

/-- A live source that has played is interrupted. -/
def interrupt : Engine :=
  { e with
    interrupted := e.interrupted || (isLiveSource e.source && e.hasStartedLivePlayback) }

/-- One event. The element reports nothing without a source. It resolves the promises
of `media.play()` as it starts to play, and rejects them when it supports no source. An
error of a source that it had begun to play (`mediaBreaks`) leaves them pending, as an HLS
instance does that gives up. -/
def perform : Event → Option Engine
  | .play source =>
    if source.isNone && e.source.isNone then some e
    else some ((e.commanded false).play source)
  | .pause => some (e.commanded true).pause
  | .stop => some (e.commanded true).stop
  | .setStopAfterCurrent enabled => some { e with stopAfterCurrent := enabled }
  | .cycleRepeatMode => some e.cycleRepeatMode
  | .playLoads i library =>
    e.plays[i]?.bind fun call =>
      match call.stage with
      | .loading => some { e with plays := e.plays.set i { call with stage := .loaded library } }
      | _ => none
  | .attemptLoads i library =>
    e.attempts[i]?.bind fun attempt =>
      match attempt.stage with
      | .loading =>
        some { e with attempts := e.attempts.set i { attempt with stage := .loaded library } }
      | _ => none
  | .playSettles i outcome =>
    e.plays[i]?.bind fun call =>
      match call.stage with
      | .starting => some { e with plays := e.plays.set i { call with stage := .settled outcome } }
      | _ => none
  | .attemptRejects i message =>
    e.attempts[i]?.bind fun attempt =>
      match attempt.stage with
      | .starting =>
        some { e with
          attempts := e.attempts.set i { attempt with stage := .settled (.error message) } }
      | _ => none
  | .continuePlay i => e.continuePlay i
  | .continueAttempt i => e.continueAttempt i
  | .mediaPlay => e.task e.content.isSome e.handlePlay
  | .mediaPlaying =>
    e.task e.content.isSome { e.handlePlaying.resolveStarting with interrupted := false }
  | .mediaPause => e.task e.content.isSome e.handlePause
  | .mediaEnded => e.task e.content.isSome e.interrupt.endMedia.handleEnded
  | .mediaError =>
    e.task e.content.isSome
      (e.interrupt.handleMediaError.rejectStarting "The element has no supported sources")
  | .mediaBreaks =>
    e.task e.content.isSome { e.interrupt with failed := true }.handleMediaError
  | .fatalHlsError =>
    e.task e.hls.isSome { e.interrupt with failed := true }.handleMediaError
  | .mediaStalled => e.task e.content.isSome e.handleStalled
  | .mediaTimeUpdate => e.task e.content.isSome e.handleTimeUpdate
  | .reconnectTimer =>
    e.reconnectTimer.bind fun timer => e.task true (e.reconnectLiveSource timer)
  | .stallTimer =>
    e.task e.stallTimer
      { e.interrupt with stallTimer := false, failed := true }.scheduleLiveReconnect
  | .stabilityTimer =>
    e.task e.stabilityTimer { e with stabilityTimer := false, reconnectAttempt := 0, delays := [] }

end Engine

end Harmony.BrowserEngine
