/-
# One client's copy of the queue

A client keeps the queue it was last given and asks again when an event names a
revision it does not have. Its requests are numbered in the order in which they are
issued, and a response is applied unless one of a later request was. A mutation is
sent with the revision the client has; after a conflict the queue is read once more
and, where the intent is clear, the mutation is sent once more.

A step is one step of the server for anyone, or what the client does at one await.
Responses and events reach the client in any order. An event may also be replaced by
a later one that is still on its way.
-/

import Harmony.Playback.Delivery

namespace Harmony.Playback

/-! ### The client -/

/-- The refs of `useSynchronizedQueue`. The client has no use for the event sequence
of the queue it was given. -/
structure SynchronizedQueue where
  queue : Snapshot
  latestEventSequence : Option ℕ
  pendingEventSequences : List ℕ
  nextQueueRequest : ℕ
  latestAppliedRequest : ℕ
  queueConflict : Option String

namespace SynchronizedQueue

def applyQueue (client : SynchronizedQueue) (data : Snapshot) (requestOrder : ℕ) :
    SynchronizedQueue :=
  if requestOrder < client.latestAppliedRequest then client
  else { client with queue := data, latestAppliedRequest := requestOrder }

/-- The event was settled: a refresh for it has come back. -/
def settle (client : SynchronizedQueue) (sequence : ℕ) : SynchronizedQueue :=
  { client with
    latestEventSequence :=
      if client.latestEventSequence.all fun latest => latest < sequence then some sequence
      else client.latestEventSequence
    pendingEventSequences := client.pendingEventSequences.filter (· ≠ sequence) }

end SynchronizedQueue

/-! ### Its requests -/

inductive QueueOperation
  | append (trackId source : String)
  | replace (trackIds : List String) (source : String) (retryOnConflict : Bool)
  | remove (itemId : String)
  | clear (afterItemId : String)
  | reorder (itemIds : List String)
  deriving DecidableEq

namespace QueueOperation

def mutation : QueueOperation → Mutation
  | append trackId source => .append trackId source
  | replace trackIds source _ => .replace trackIds source
  | remove itemId => .remove itemId
  | clear afterItemId => .clear afterItemId
  | reorder itemIds => .reorder itemIds

/-- Whether the mutation is sent again after a conflict. -/
def isRetried (operation : QueueOperation) (current : Snapshot) : Bool :=
  match operation with
  | append .. => true
  | replace _ _ retryOnConflict => retryOnConflict
  | remove itemId => current.items.any (·.id = itemId)
  | clear _ | reorder _ => false

/-- What the user is told when it is not. -/
def conflict : QueueOperation → Option String
  | append .. | remove _ => none
  | replace .. =>
    some "Queue changed in another Playback Client. Review replacement and try again."
  | clear _ => some "Queue changed in another Playback Client. Review the queue and try again."
  | reorder _ => some "Queue changed in another Playback Client. Review order and try again."

end QueueOperation

/-- What a request is for. -/
inductive Purpose
  | refresh
  /-- The refresh for the event of this sequence. -/
  | invalidated (sequence : ℕ)
  | operation (operation : QueueOperation)
  /-- The read after a conflict. -/
  | reread (operation : QueueOperation)
  | retry (operation : QueueOperation)
  deriving DecidableEq

/-- A read with its answer, or a mutation under the number the server has for it. -/
inductive Exchange
  | read (answer : Option Snapshot)
  | mutation (id : ℕ)

structure PendingQueueRequest where
  order : ℕ
  purpose : Purpose
  exchange : Exchange

inductive Connection
  | away
  /-- Listens to publications; the first event is still to be read. -/
  | subscribed
  | streaming
  deriving DecidableEq

/-! ### Every order -/

/-- The server and one client of a user. `responses` are what the server answers its
mutations with, `arriving` the events on their way, and `failed` says that some
request of the client has failed. -/
structure Synchronizing where
  userId : String
  server : Server
  client : SynchronizedQueue
  requests : List PendingQueueRequest
  responses : Table ℕ Snapshot
  connection : Connection
  arriving : List Invalidation
  failed : Bool

inductive SynchronizingEvent
  | server (step : Step)
  /-- The server answers a read. -/
  | read (index : ℕ)
  | refresh
  /-- `id` is the server's number for the request. -/
  | operate (operation : QueueOperation) (id : ℕ)
  /-- `id` is the number of the mutation sent again, if one is. -/
  | deliver (index id : ℕ)
  | lose (index : ℕ)
  | connect
  | first
  | disconnect
  | event (index : ℕ)
  | overtake (index : ℕ)

namespace Synchronizing

/-- The queue as the server answers with it. -/
def latest (s : Synchronizing) : Snapshot := s.server.store.shownQueue s.userId

/-- `runQueueRequest` numbers a request and sends it. -/
def send (s : Synchronizing) (purpose : Purpose) (exchange : Exchange) : Synchronizing :=
  let order := s.client.nextQueueRequest + 1
  { s with
    client := { s.client with nextQueueRequest := order }
    requests := s.requests ++ [⟨order, purpose, exchange⟩] }

def sendMutation (s : Synchronizing) (purpose : Purpose) (operation : QueueOperation)
    (revision : String) (id : ℕ) : Option Synchronizing := do
  let server ← s.server.perform (.submit id ⟨s.userId, revision, operation.mutation, none⟩)
  return { s with server }.send purpose (.mutation id)

/-- A step of the server; a publication answers its request and tells the streams. -/
def serve (s : Synchronizing) (step : Step) : Option Synchronizing := do
  let server ← s.server.perform step
  match step with
  | .publish id =>
    match s.server.requests.lookup id with
    | some ⟨call, .fetched queue⟩ =>
      let isTold := call.userId = s.userId ∧ s.connection ≠ .away
      return { s with
        server
        responses := s.responses.insert id queue
        arriving := if isTold then queue.invalidation :: s.arriving else s.arriving }
    | _ => return { s with server }
  | _ => return { s with server }

/-- What a request was answered with. -/
def answer (s : Synchronizing) (exchange : Exchange) : Option (Except QueueError Snapshot) :=
  match exchange with
  | .read answer => answer.map .ok
  | .mutation id => do
    let request ← s.server.requests.lookup id
    match request.phase with
    | .answered (.ok ()) => (s.responses.lookup id).map .ok
    | .answered (.error error) => some (.error error)
    | _ => none

/-- The request fails for good. -/
def fail (s : Synchronizing) (pending : PendingQueueRequest) : Synchronizing :=
  let client := match pending.purpose with
    | .invalidated sequence =>
      { s.client with
        pendingEventSequences := s.client.pendingEventSequences.filter (· ≠ sequence) }
    | _ => s.client
  { s with client, failed := true }

/-- The request succeeds: its queue is applied, and whoever waits for it goes on. -/
def succeed (s : Synchronizing) (pending : PendingQueueRequest) (data : Snapshot) (id : ℕ) :
    Option Synchronizing :=
  let client := s.client.applyQueue data pending.order
  match pending.purpose with
  | .refresh => some { s with client }
  | .invalidated sequence => some { s with client := client.settle sequence }
  | .operation _ | .retry _ => some { s with client := { client with queueConflict := none } }
  | .reread operation =>
    if operation.isRetried data then
      { s with client }.sendMutation (.retry operation) operation data.revision id
    else some { s with client := { client with queueConflict := operation.conflict } }

/-- A conflict of a first attempt is read up on; every other error is passed on. -/
def refuse (s : Synchronizing) (pending : PendingQueueRequest) (error : QueueError) :
    Synchronizing :=
  match pending.purpose, error with
  | .operation operation, .revisionConflict => s.send (.reread operation) (.read none)
  | _, _ => s.fail pending

/-- The listener of the event subscription. -/
def onEvent (s : Synchronizing) (event : Invalidation) : Synchronizing :=
  let sequence := event.number
  if s.client.latestEventSequence.any fun latest => sequence ≤ latest then s
  else if sequence ∈ s.client.pendingEventSequences then s
  else if event.revision = s.client.queue.revision then
    { s with client := { s.client with latestEventSequence := some sequence } }
  else
    let pendingEventSequences := sequence :: s.client.pendingEventSequences
    { s with client := { s.client with pendingEventSequences } }.send (.invalidated sequence)
      (.read none)

def perform (s : Synchronizing) : SynchronizingEvent → Option Synchronizing
  | .server step => s.serve step
  | .read index => do
    let pending ← s.requests[index]?
    match pending.exchange with
    | .read none =>
      let answered := { pending with exchange := .read (some s.latest) }
      return { s with requests := s.requests.set index answered }
    | _ => none
  | .refresh => some (s.send .refresh (.read none))
  | .operate operation id =>
    s.sendMutation (.operation operation) operation s.client.queue.revision id
  | .deliver index id => do
    let pending ← s.requests[index]?
    let answer ← s.answer pending.exchange
    let rest := { s with requests := s.requests.eraseIdx index }
    match answer with
    | .ok data => rest.succeed pending data id
    | .error error => return rest.refuse pending error
  | .lose index => do
    let pending ← s.requests[index]?
    return { s with requests := s.requests.eraseIdx index }.fail pending
  | .connect => if s.connection = .away then some { s with connection := .subscribed } else none
  | .first =>
    if s.connection = .subscribed then
      some { s with connection := .streaming, arriving := s.latest.invalidation :: s.arriving }
    else none
  | .disconnect => some { s with connection := .away, arriving := [] }
  | .event index => do
    let event ← s.arriving[index]?
    return { s with arriving := s.arriving.eraseIdx index }.onEvent event
  | .overtake index => do
    let event ← s.arriving[index]?
    let arriving := s.arriving.eraseIdx index
    if arriving.any fun later => event.number ≤ later.number then return { s with arriving }
    else none

def Step (s : Synchronizing) (event : SynchronizingEvent) (t : Synchronizing) : Prop :=
  s.perform event = some t

/-- A client that has just sent its initial read, to a server that any requests have
led to. -/
def Init (s : Synchronizing) : Prop :=
  s.server.Reachable ∧ s.client = ⟨⟨[], "0", "0"⟩, none, [], 1, 0, none⟩ ∧
    s.requests = [⟨1, .refresh, .read none⟩] ∧ s.responses = ∅ ∧ s.connection = .away ∧
    s.arriving = [] ∧ s.failed = false

def Reachable : Synchronizing → Prop := Transition.Reachable Init Step

/-- No request of the user and no event is under way. -/
structure Quiet (s : Synchronizing) : Prop where
  server : s.server.isQuiet s.userId
  requests : s.requests = []
  connection : s.connection = .streaming
  arriving : s.arriving = []

/-- Once nothing is under way and nothing has failed, the client has the latest queue. -/
def Converges (s : Synchronizing) : Prop :=
  s.Quiet → s.failed = false → s.client.queue = s.latest

end Synchronizing

end Harmony.Playback
