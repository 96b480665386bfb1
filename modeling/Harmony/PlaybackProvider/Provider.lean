/-
# The listener's playback choices

The web client's playback provider outside a Room: the Queue as it was last applied,
the counter that every choice raises, and the calls of the provider's functions that
wait for an answer. A function runs to its next `await` in one step; what it waits for
is answered by an event. The desktop's engine is given the Queue as its context, the
browser's engine asks the provider for the neighbour of the current item instead.

What the engine has been told is kept as a list, newest first, each command under the
number of the choice it was given for.
-/

import Mathlib.Algebra.Order.Ring.Rat
import Mathlib.Data.List.Basic

namespace Harmony.PlaybackProvider

/-! ### Data -/

structure Track where
  id : String
  albumId : String
  deriving DecidableEq

structure QueueItem where
  id : String
  trackId : String
  track : Track
  deriving DecidableEq

structure RadioStation where
  id : String
  streamUrl : String

structure RadioSearchResult where
  stationUuid : String
  streamUrl : String

structure ExternalTrack where
  id : String
  hasArtwork : Bool

inductive PlaybackSource
  | track (track : Track) (playbackUrl queueItemId artworkUrl : String)
  | radioStation (station : RadioStation) (playbackUrl sourceUrl : String)
  | catalogPreview (result : RadioSearchResult) (playbackUrl sourceUrl : String)
  | externalTrack (externalTrack : ExternalTrack) (playbackUrl sourceUrl : String)
      (artworkUrl : Option String)

inductive Direction
  | previous
  | next

/-- What makes an engine load or stop something. -/
inductive EngineCommand
  | play (source : PlaybackSource)
  | navigate (direction : Direction)
  | stop

/-- The URLs of the Music Server. -/
structure PlaybackApi where
  getStreamUrl : String → String
  getAlbumCoverUrl : String → ℕ → String
  getRadioStationStreamUrl : String → String
  getRadioCatalogPreviewStreamUrl : String → String
  getExternalStreamUrl : String → String
  getExternalTrackArtworkUrl : String → String

/-- What the provider is built over; `syncsQueueContext` says that the engine takes
the Queue as its context. -/
structure Host where
  api : PlaybackApi
  syncsQueueContext : Bool

namespace Host

variable (host : Host)

def trackSource (item : QueueItem) : PlaybackSource :=
  .track item.track (host.api.getStreamUrl item.trackId) item.id
    (host.api.getAlbumCoverUrl item.track.albumId 512)

def stationSource (station : RadioStation) : PlaybackSource :=
  .radioStation station (host.api.getRadioStationStreamUrl station.id) station.streamUrl

def previewSource (result : RadioSearchResult) : PlaybackSource :=
  .catalogPreview result (host.api.getRadioCatalogPreviewStreamUrl result.stationUuid)
    result.streamUrl

def externalSource (track : ExternalTrack) (streamPath : String) : PlaybackSource :=
  let streamUrl := host.api.getExternalStreamUrl streamPath
  .externalTrack track streamUrl streamUrl
    (if track.hasArtwork then some (host.api.getExternalTrackArtworkUrl track.id) else none)

end Host

/-- Past this point Previous restarts the Track instead of going back one. -/
def previousRestartsAfterSeconds : ℚ := 30

/-! ### Calls in flight -/

inductive QueueWrite
  | replace (trackIds : List String)
  | append

/-- A write is sent, after a conflict the Queue is read, and the write is sent again. -/
inductive Attempt
  | first
  | reread
  | retry
  deriving DecidableEq

/-- What a call waits for: a request of the Queue under its number, the engine's
answer to the Queue context, or the resolve of an External Track. -/
inductive Stage
  | writing (trackId : String) (write : QueueWrite) (attempt : Attempt) (order : ℕ)
  | syncing (item : QueueItem)
  | resolving (track : ExternalTrack) (intent : ℕ)

/-- A call in flight, with the number of the choice it was made for. -/
structure Call where
  choice : ℕ
  stage : Stage

/-- A command the engine was given, with the number of the choice it was given for. -/
structure Given where
  choice : ℕ
  command : EngineCommand

/-- What a choice selects. -/
inductive Wanted
  | track (trackId : String)
  | external (track : ExternalTrack)
  | command (command : EngineCommand)

/-- The command is what was wanted. -/
def Wanted.isMet (host : Host) : Wanted → EngineCommand → Prop
  | .track trackId, .play source => ∃ item : QueueItem,
    (item.track.id = trackId ∨ item.trackId = trackId) ∧ source = host.trackSource item
  | .external externalTrack, .play source =>
    ∃ streamPath, source = host.externalSource externalTrack streamPath
  | .command wanted, given => given = wanted
  | _, _ => False

/-! ### The provider -/

structure Provider where
  playbackIntent : ℕ
  queue : List QueueItem
  nextQueueRequest : ℕ
  latestAppliedRequest : ℕ
  currentQueueItemId : Option String
  calls : List Call
  /-- The numbers of other requests of the Queue that are on their way. -/
  requests : List ℕ
  told : List Given
  -- What follows only records the run: no function of the provider reads it.
  /-- The choices made so far. -/
  choices : ℕ
  /-- What the newest choice selects. -/
  wanted : Option Wanted
  /-- A request of the newest choice has failed, or there was nothing to play. -/
  failed : Bool

inductive Choice
  | playTrack (trackId : String) (queueTrackIds : Option (List String))
  | playQueueIndex (index : ℕ)
  | playRadioStation (station : RadioStation)
  | playRadioCatalogPreview (result : RadioSearchResult)
  | playExternalTrack (track : ExternalTrack)
  | navigatePrevious (currentTime : ℚ)
  | navigateNext
  | stopPlayback

inductive QueueAnswer
  | queue (items : List QueueItem)
  | conflict
  | failed
  deriving DecidableEq

inductive Event
  | choose (choice : Choice)
  /-- The request of the Queue that a call waits for is answered. -/
  | answered (index : ℕ) (answer : QueueAnswer)
  | synced (index : ℕ) (succeeds : Bool)
  /-- An External Track is resolved to the path of its stream, or is not. -/
  | resolved (index : ℕ) (streamPath : Option String)
  /-- Something else requests the Queue. -/
  | queueRequested
  | queueAnswered (order : ℕ) (items : Option (List QueueItem))
  /-- The session names the Queue item that it plays. -/
  | session (queueItemId : String)

namespace Provider

def new : Provider where
  playbackIntent := 0
  queue := []
  nextQueueRequest := 0
  latestAppliedRequest := 0
  currentQueueItemId := none
  calls := []
  requests := []
  told := []
  choices := 0
  wanted := none
  failed := false

variable (host : Host) (p : Provider)

def beginPlaybackIntent : Provider :=
  { p with playbackIntent := p.playbackIntent + 1 }

def applyQueue (items : List QueueItem) (requestOrder : ℕ) : Provider :=
  if requestOrder < p.latestAppliedRequest then p
  else { p with queue := items, latestAppliedRequest := requestOrder }

/-- Another choice is made. -/
def chosen (wanted : Wanted) : Provider :=
  { p with choices := p.choices + 1, wanted := some wanted, failed := false }

/-- The engine is given a command. -/
def tell (choice : ℕ) (command : EngineCommand) : Provider :=
  { p with told := ⟨choice, command⟩ :: p.told }

/-- A call reaches its next `await`. -/
def await (choice : ℕ) (stage : Stage) : Provider :=
  { p with calls := p.calls ++ [⟨choice, stage⟩] }

/-- A call ends without a command. -/
def giveUp (choice : ℕ) : Provider :=
  { p with failed := p.failed || choice == p.choices }

/-- `runQueueRequest` numbers a request and sends it. -/
def request (choice : ℕ) (trackId : String) (write : QueueWrite) (attempt : Attempt) :
    Provider :=
  let order := p.nextQueueRequest + 1
  { p with nextQueueRequest := order }.await choice (.writing trackId write attempt order)

def playQueueItemInternal (choice : ℕ) (item : QueueItem) (activeQueue : List QueueItem) :
    Provider :=
  if activeQueue.any (·.id = item.id) then
    let p := { p.beginPlaybackIntent with currentQueueItemId := some item.id }
    if host.syncsQueueContext then p.await choice (.syncing item)
    else p.tell choice (.play (host.trackSource item))
  else p.giveUp choice

def playTrackInternal (choice : ℕ) (trackId : String) (activeQueue : List QueueItem) :
    Provider :=
  match activeQueue.find? fun entry => entry.track.id = trackId ∨ entry.trackId = trackId with
  | some item => p.playQueueItemInternal host choice item activeQueue
  | none => p.giveUp choice

/-- The rest of `playTrack` once the Queue was replaced. -/
def playTrackIn (choice : ℕ) (trackId : String) (nextQueue : List QueueItem) : Provider :=
  if nextQueue.any (·.track.id = trackId) then
    p.playTrackInternal host choice trackId nextQueue
  else p.request choice trackId .append .first

/-- The rest of `playTrack` after a write of the Queue. -/
def written (choice : ℕ) (trackId : String) (write : QueueWrite) (data : List QueueItem) :
    Provider :=
  match write with
  | .replace _ => p.playTrackIn host choice trackId data
  | .append => p.playTrackInternal host choice trackId data

/-- The item beside the current one. -/
def neighbour (direction : Direction) : Option QueueItem := do
  let currentIndex ← p.queue.findIdx? fun item => some item.id = p.currentQueueItemId
  match direction with
  | .previous => if currentIndex = 0 then none else p.queue[currentIndex - 1]?
  | .next => p.queue[currentIndex + 1]?

/-- `previous` and `next`: the desktop's engine moves in its context, the browser's
tells its listeners, and the provider's listener plays the neighbour. -/
def navigate (direction : Direction) : Provider :=
  if host.syncsQueueContext then
    let p := (p.chosen (.command (.navigate direction))).beginPlaybackIntent
    p.tell p.choices (.navigate direction)
  else
    match p.neighbour direction with
    | some item =>
      let p := (p.chosen (.command (.play (host.trackSource item)))).beginPlaybackIntent
      p.playQueueItemInternal host p.choices item p.queue
    | none =>
      let p := (p.chosen (.command (.navigate direction))).beginPlaybackIntent
      p.giveUp p.choices

def choose : Choice → Provider
  | .playTrack trackId queueTrackIds =>
    let p := (p.chosen (.track trackId)).beginPlaybackIntent
    match queueTrackIds with
    | some trackIds => p.request p.choices trackId (.replace trackIds) .first
    | none => p.playTrackIn host p.choices trackId p.queue
  | .playQueueIndex index =>
    match p.queue[index]? with
    | some item =>
      let p := p.chosen (.command (.play (host.trackSource item)))
      p.playQueueItemInternal host p.choices item p.queue
    | none => p
  | .playRadioStation station =>
    let command := .play (host.stationSource station)
    let p := (p.chosen (.command command)).beginPlaybackIntent
    p.tell p.choices command
  | .playRadioCatalogPreview result =>
    let command := .play (host.previewSource result)
    let p := (p.chosen (.command command)).beginPlaybackIntent
    p.tell p.choices command
  | .playExternalTrack track =>
    let p := (p.chosen (.external track)).beginPlaybackIntent
    p.await p.choices (.resolving track p.playbackIntent)
  -- The engine only seeks to the start: nothing is chosen.
  | .navigatePrevious currentTime =>
    if previousRestartsAfterSeconds < currentTime then p else p.navigate host .previous
  | .navigateNext => p.navigate host .next
  | .stopPlayback =>
    let p := (p.chosen (.command .stop)).beginPlaybackIntent
    p.tell p.choices .stop

/-- What a call does once the request of the Queue it waits for is answered: a first
attempt reads the Queue after a conflict, any other error is passed on. -/
def continueWrite (call : Call) (answer : QueueAnswer) : Option Provider :=
  match call.stage with
  | .writing trackId write attempt order =>
    match attempt, answer with
    | .reread, .queue items =>
      some ((p.applyQueue items order).request call.choice trackId write .retry)
    | _, .queue items =>
      some ((p.applyQueue items order).written host call.choice trackId write items)
    | .first, .conflict => some (p.request call.choice trackId write .reread)
    | _, _ => some (p.giveUp call.choice)
  | _ => none

/-- The rest of `playQueueItemInternal` after the Queue context. -/
def continueSync (call : Call) (succeeds : Bool) : Option Provider :=
  match call.stage with
  | .syncing item =>
    if succeeds then some (p.tell call.choice (.play (host.trackSource item)))
    else some (p.giveUp call.choice)
  | _ => none

/-- The rest of `playExternalTrack`: a newer choice wins, and this one is dropped. -/
def continueResolve (call : Call) (streamPath : Option String) : Option Provider :=
  match call.stage with
  | .resolving track intent =>
    match streamPath with
    | some streamPath =>
      if p.playbackIntent = intent then
        some (p.tell call.choice (.play (host.externalSource track streamPath)))
      else some p
    | none => some (p.giveUp call.choice)
  | _ => none

/-- A call goes on from its `await`. -/
def resume (index : ℕ) (rest : Provider → Call → Option Provider) : Option Provider := do
  let call ← p.calls[index]?
  rest { p with calls := p.calls.eraseIdx index } call

def perform : Event → Option Provider
  | .choose choice => some (p.choose host choice)
  | .answered index answer => p.resume index fun p call => p.continueWrite host call answer
  | .synced index succeeds => p.resume index fun p call => p.continueSync host call succeeds
  | .resolved index streamPath =>
    p.resume index fun p call => p.continueResolve host call streamPath
  | .queueRequested =>
    let order := p.nextQueueRequest + 1
    some { p with nextQueueRequest := order, requests := order :: p.requests }
  | .queueAnswered order items =>
    if order ∈ p.requests then
      let p := { p with requests := p.requests.erase order }
      match items with
      | some items => some (p.applyQueue items order)
      | none => some p
    else none
  | .session queueItemId => some { p with currentQueueItemId := some queueItemId }

def Step (p : Provider) (event : Event) (p' : Provider) : Prop :=
  p.perform host event = some p'

end Provider

end Harmony.PlaybackProvider
