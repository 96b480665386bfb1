/-
# The Room one client follows

A client learns of the Rooms from what reaches it: replies to its requests, the
frames of its event stream or of its polling, and the end of either. Each of these
may be late, and while the stream is down some of them never come. The client keeps
the newest revision it has seen and ignores snapshots below it; which Room a
snapshot is of is not in it.

A step is one operation on the service by anyone, one request of this client
handled, or one thing that reaches the client. What the client does with the Player
is left out.
-/

import Harmony.ListenTogether.EventStream

namespace Harmony.ListenTogether

/-! ### The provider -/

inductive ListenTogetherRole
  | loading
  | owner
  | guest
  | none
  deriving DecidableEq

inductive ListenTogetherEnding
  | closed
  | left
  deriving DecidableEq

/-- What a client is sent of a Room. The client sees only `state`. -/
structure Snapshot where
  generation : ℕ
  state : RoomState
  deriving DecidableEq

/-- Clients ignore snapshots older than the newest they have seen. -/
def isStaleSnapshot (room : RoomState) (newestRevision : Option ℕ) : Bool :=
  newestRevision.any fun newest => room.revision < newest

/-- The refs of `ListenTogetherProvider`. -/
structure Provider where
  role : ListenTogetherRole
  isAvailable : Bool
  room : Option Snapshot
  newestRevision : Option ℕ
  ending : Option ListenTogetherEnding

namespace Provider

def adoptRoom (provider : Provider) (next : Snapshot) : Provider :=
  if isStaleSnapshot next.state provider.newestRevision then provider
  else
    -- The Invite Link comes only in some of the Owner's responses.
    let inviteUrl := next.state.inviteUrl <|> provider.room.bind (·.state.inviteUrl)
    { provider with
      newestRevision := some next.state.revision
      room := some { next with state := { next.state with inviteUrl := inviteUrl } } }

def endRoom (provider : Provider) (reason : ListenTogetherEnding) : Provider :=
  match provider.room with
  | none => provider
  | some _ =>
    { provider with
      room := none, newestRevision := none, ending := some reason
      role := if provider.role = .guest then .none else provider.role }

/-- The Room it shows, as the service numbers it. -/
def shown (provider : Provider) : Option ℕ := provider.room.map (·.generation)

end Provider

/-! ### Requests -/

/-- What a request is for, with what its reply needs. -/
inductive Request
  | boot (role : ListenTogetherRole) (isAvailable : Bool)
  | recheck
  /-- The read of an event subscription after its stream dropped. -/
  | reconnect (subscription : ℕ)
  | poll (subscription : ℕ)
  | openRoom
  /-- The read after another client had opened the Room. -/
  | openedRoom
  | command (command : Command)
  | closeRoom
  /-- `generation` is the Room that was left. -/
  | leaveRoom (generation : Option ℕ)
  | joinRoom (token : String) (currentSession : Option String)
  deriving DecidableEq

inductive Answer
  | room (snapshot : Snapshot)
  | done
  | refused (error : RoomError)
  /-- No answer, or one that is no part of the contract. -/
  | failed
  deriving DecidableEq

/-- The status with which an error is answered. -/
def RoomError.status : RoomError → ℕ
  | .disabled | .notFound | .inviteInvalid => 404
  | .alreadyOpen | .full => 409
  | .sessionEnded => 401
  | .rateLimited => 429
  | .badCommand _ | .unknownTrack => 400
  | .library _ => 500

/-- A Room read or command refused because the Room or this session is over. -/
def RoomError.isListenTogetherRoomGone (error : RoomError) : Bool :=
  error.status = 401 || error.status = 404

def Answer.isGone : Answer → Bool
  | .refused error => error.isListenTogetherRoomGone
  | _ => false

/-- A command is handled in two halves. -/
inductive Progress
  | sent
  | taken (command : ValidCommand)
  | answered (answer : Answer)

structure PendingRequest where
  request : Request
  client : Client
  progress : Progress

/-- The reply with the Room it is about. -/
def answerOf (reply : Except RoomError RoomState) (service : Service) : Answer :=
  match reply, service.room with
  | .ok state, some room => .room ⟨room.generation, state⟩
  | .ok _, none => .failed
  | .error error, _ => .refused error

/-- What the server draws and finds while it handles a request. -/
structure Handling where
  clock : Clock
  opening : Service.Opening
  sessionToken : String
  tracks : Except RoomError Unit

namespace Service

/-- Handles a request up to the next await. The Owner's listener has no joining and
leaving, that of the Guests no opening and closing. -/
def handle (service : Service) (hashes : Hashes) (pending : PendingRequest)
    (handling : Handling) : Option (Progress × Service) :=
  let refuse error := some (.answered (.refused error), service)
  match pending.progress with
  | .answered _ => none
  | .taken command => do
    let (reply, service) ← service.finishCommand handling.clock pending.client command.val
    return (.answered (answerOf reply service), service)
  | .sent =>
    match pending.request, pending.client with
    | .boot .., client | .recheck, client | .reconnect _, client | .poll _, client
    | .openedRoom, client =>
      let (reply, service) := service.roomView handling.clock client
      some (.answered (answerOf reply service), service)
    | .command command, client =>
      match service.takeCommand handling.clock client with
      | (.error error, service) => some (.answered (.refused error), service)
      | (.ok (), service) =>
        match hvalid : command.validate with
        | .error message => some (.answered (.refused (.badCommand message)), service)
        | .ok () =>
          match handling.tracks with
          | .error error => some (.answered (.refused error), service)
          | .ok () => some (.taken ⟨command, hvalid⟩, service)
    | .openRoom, .owner =>
      let (reply, service) := service.openRoom hashes handling.clock handling.opening
      some (.answered (answerOf reply service), service)
    | .closeRoom, .owner =>
      let (reply, service) := service.close handling.clock
      match reply with
      | .ok () => some (.answered .done, service)
      | .error error => some (.answered (.refused error), service)
    | .leaveRoom _, .guest session =>
      let (reply, service) := service.leave handling.clock session
      match reply with
      | .ok () => some (.answered .done, service)
      | .error error => some (.answered (.refused error), service)
    | .joinRoom token currentSession, .guest _ =>
      let (reply, service) :=
        service.join hashes handling.clock token currentSession handling.sessionToken
      some (.answered (answerOf (reply.map (·.state)) service), service)
    | .openRoom, .guest _ | .closeRoom, .guest _ | .leaveRoom _, .owner | .joinRoom .., .owner =>
      refuse .notFound

/-- What the event streams of the Room of this generation were sent. -/
def feedOf (service : Service) (generation : ℕ) : List Feed :=
  match service.roomOf generation with
  | some room => room.channels.feed
  | none => ((service.ended.lookup generation).map (·.feed)).getD []

end Service

/-! ### The event subscription -/

inductive RoomEventsMode
  | stream
  | poll

/-- Where `streamRoom` or `pollRoom` stands. -/
inductive SubscriptionPhase
  | connecting
  | streaming (generation : ℕ) (inviteUrl : Option String)
  | disconnected
  /-- Reads the Room State before it connects again. -/
  | reading
  /-- Reads the Room State; `revision` is what the last read had. -/
  | polling (revision : Option ℕ)
  | pausing (revision : Option ℕ)
  | over
  deriving DecidableEq

/-- What React last rendered with. -/
structure Rendered where
  role : ListenTogetherRole
  isAvailable : Bool
  hasRoom : Bool

def Provider.rendered (provider : Provider) : Rendered :=
  ⟨provider.role, provider.isAvailable, provider.room.isSome⟩

/-! ### Every order -/

/-- An adopted snapshot's Room, and whether it was still open. -/
structure RoomAdoption where
  generation : ℕ
  wasOpen : Bool

/-- The service and one client. `received` are the Rooms of which the client has got
a snapshot and that it has not left since, `adopted` is what it adopted, newest first. -/
structure Following where
  service : Service
  provider : Provider
  mode : RoomEventsMode
  rendered : Rendered
  isBooting : Bool
  subscription : Option (ℕ × SubscriptionPhase)
  nextSubscription : ℕ
  requests : List PendingRequest
  received : List ℕ
  adopted : List RoomAdoption

inductive FollowEvent
  /-- Any operation on the service by anyone else. -/
  | serve (event : ServiceEvent)
  /-- The session and the health answer come; the Room is read next, if it may be. -/
  | boot (role : ListenTogetherRole) (isAvailable : Bool) (client : Client)
  | recheck (client : Client)
  | openRoom (client : Client)
  | command (command : Command) (client : Client)
  | closeRoom (client : Client)
  | leaveRoom (client : Client)
  | joinRoom (token : String) (currentSession : Option String) (client : Client)
  | handle (index : ℕ) (handling : Handling)
  /-- The request or its answer is lost. -/
  | lose (index : ℕ)
  | deliver (index : ℕ)
  /-- React renders and runs the effects whose dependencies changed. -/
  | render (client : Client)
  | connect (clock : Clock) (client : Client)
  | frame (entry : Feed)
  | disconnect
  /-- The delay of the subscription is over. -/
  | wake (client : Client)

/-- What a step brings to the client. -/
inductive Arrival
  | nothing
  | snapshot (next : Snapshot)
  /-- A poll read the revision it had read before, and hands nothing on. -/
  | unchanged (next : Snapshot)
  | joined (next : Snapshot)
  | ended (reason : ListenTogetherEnding)

namespace Following

def send (s : Following) (request : Request) (client : Client) : Following :=
  { s with requests := s.requests ++ [⟨request, client, .sent⟩] }

def inPhase (s : Following) (id : ℕ) (phase : SubscriptionPhase) : Following :=
  { s with subscription := some (id, phase) }

/-- What a reply to `request` brings, after what its handler does first. -/
def reply (s : Following) (request : Request) (client : Client) (answer : Answer) :
    Arrival × Following :=
  match request with
  | .boot role isAvailable =>
    let s := { s with provider := { s.provider with role, isAvailable } }
    match answer with
    | .room next => (.snapshot next, s)
    | _ => (.nothing, s)
  | .recheck =>
    let s := { s with provider := { s.provider with isAvailable := true } }
    match answer with
    | .room next => (.snapshot next, s)
    | _ => (.nothing, s)
  | .reconnect id =>
    -- An aborted subscription hands nothing on.
    if s.subscription ≠ some (id, .reading) then (.nothing, s)
    else
      match answer with
      | .room next => (.snapshot next, s.inPhase id .connecting)
      | answer =>
        if answer.isGone then (.ended .closed, s.inPhase id .over)
        else (.nothing, s.inPhase id .connecting)
  | .poll id =>
    match s.subscription with
    | some (current, .polling revision) =>
      if current ≠ id then (.nothing, s)
      else
        match answer with
        | .room next =>
          let s := s.inPhase id (.pausing (some next.state.revision))
          if some next.state.revision ≠ revision then (.snapshot next, s) else (.unchanged next, s)
        | answer =>
          if answer.isGone then (.ended .closed, s.inPhase id .over)
          else (.nothing, s.inPhase id (.pausing revision))
    | _ => (.nothing, s)
  | .openRoom =>
    match answer with
    | .room next => (.snapshot next, s)
    | .refused error =>
      if error.status = 409 then (.nothing, s.send .openedRoom client) else (.nothing, s)
    | _ => (.nothing, s)
  | .openedRoom =>
    match answer with
    | .room next => (.snapshot next, s)
    | _ => (.nothing, s)
  | .command _ =>
    match answer with
    | .room next => (.snapshot next, s)
    | answer => (if answer.isGone then .ended .closed else .nothing, s)
  | .closeRoom =>
    (if answer = .done || answer.isGone then .ended .closed else .nothing, s)
  | .leaveRoom generation =>
    if answer = .done || answer.isGone then
      (.ended .left, { s with received := s.received.filter fun g => some g ≠ generation })
    else (.nothing, s)
  | .joinRoom _ _ =>
    match answer with
    | .room next => (.joined next, s)
    | _ => (.nothing, s)

/-- Rechecks that an earlier render began are cancelled. -/
def renew (s : Following) : Following :=
  let now := s.provider.rendered
  if now.role = s.rendered.role ∧ now.isAvailable = s.rendered.isAvailable then
    { s with rendered := now }
  else { s with rendered := now, requests := s.requests.filter (·.request ≠ .recheck) }

/-- The event subscription begins and ends with having a Room. -/
def resubscribe (s : Following) (client : Client) : Following :=
  if s.rendered.hasRoom = s.subscription.isSome then s
  else if s.rendered.hasRoom then
    let id := s.nextSubscription
    let subscribe phase := { s with subscription := some (id, phase), nextSubscription := id + 1 }
    match s.mode with
    | .stream => subscribe .connecting
    | .poll => (subscribe (.polling none)).send (.poll id) client
  else { s with subscription := none }

/-- What a step does before anything reaches the client, and what then does. -/
def bring (hashes : Hashes) (s : Following) : FollowEvent → Option (Arrival × Following)
  | .serve event => (s.service.perform hashes event).map fun service =>
      (.nothing, { s with service })
  | .boot role isAvailable client =>
    if s.isBooting then
      let s := { s with isBooting := false }
      if role = .guest ∨ (role = .owner ∧ isAvailable) then
        some (.nothing, s.send (.boot role isAvailable) client)
      else some (.nothing, { s with provider := { s.provider with role, isAvailable } })
    else none
  | .recheck client =>
    if s.rendered.role = .owner ∧ s.rendered.isAvailable = false then
      some (.nothing, s.send .recheck client)
    else none
  | .openRoom client =>
    let provider := { s.provider with ending := none, newestRevision := none }
    some (.nothing, { s with provider }.send .openRoom client)
  | .command command client => some (.nothing, s.send (.command command) client)
  | .closeRoom client => some (.nothing, s.send .closeRoom client)
  | .leaveRoom client => some (.nothing, s.send (.leaveRoom s.provider.shown) client)
  | .joinRoom token currentSession client =>
    some (.nothing, s.send (.joinRoom token currentSession) client)
  | .handle index handling => do
    let pending ← s.requests[index]?
    let (progress, service) ← s.service.handle hashes pending handling
    return (.nothing, { s with
      service, requests := s.requests.set index { pending with progress } })
  | .lose index => do
    let pending ← s.requests[index]?
    let lost : PendingRequest := { pending with progress := .answered .failed }
    return (.nothing, { s with requests := s.requests.set index lost })
  | .deliver index => do
    let pending ← s.requests[index]?
    match pending.progress with
    | .answered answer =>
      return { s with requests := s.requests.eraseIdx index }.reply pending.request pending.client
        answer
    | _ => none
  | .render client => some (.nothing, s.renew.resubscribe client)
  | .connect clock client =>
    match s.subscription with
    | some (id, .connecting) =>
      match s.service.subscribe clock client with
      | (.ok subscription, service) =>
        some (.nothing, { s with service }.inPhase id
          (.streaming subscription.generation subscription.inviteUrl))
      | (.error _, service) => some (.nothing, { s with service }.inPhase id .disconnected)
    | _ => none
  | .frame entry =>
    match s.subscription with
    | some (id, .streaming generation inviteUrl) =>
      if entry ∈ s.service.feedOf generation then
        match entry with
        | .state room => some (.snapshot ⟨generation, frameData room inviteUrl⟩, s)
        | .closed => some (.ended .closed, s.inPhase id .over)
      else none
    | _ => none
  | .disconnect =>
    match s.subscription with
    | some (id, .connecting) | some (id, .streaming _ _) =>
      some (.nothing, s.inPhase id .disconnected)
    | _ => none
  | .wake client =>
    match s.subscription with
    | some (id, .disconnected) =>
        some (.nothing, (s.inPhase id .reading).send (.reconnect id) client)
    | some (id, .pausing revision) =>
      some (.nothing, (s.inPhase id (.polling revision)).send (.poll id) client)
    | _ => none

/-- Whether the Room of this generation is open. -/
def IsOpen (s : Following) (generation : ℕ) : Prop := (s.service.roomOf generation).isSome = true

instance (s : Following) (generation : ℕ) : Decidable (s.IsOpen generation) :=
  inferInstanceAs (Decidable (_ = true))

/-- `adoptRoom` is called with a snapshot that was received. -/
def adopt (s : Following) (next : Snapshot) : Following :=
  let adopted := if isStaleSnapshot next.state s.provider.newestRevision then s.adopted
    else ⟨next.generation, s.IsOpen next.generation⟩ :: s.adopted
  { s with
    provider := s.provider.adoptRoom next
    received := next.generation :: s.received
    adopted }

def arrive (s : Following) : Arrival → Following
  | .nothing => s
  | .snapshot next => s.adopt next
  | .unchanged next => { s with received := next.generation :: s.received }
  | .joined next =>
    let provider := { s.provider with newestRevision := none, role := .guest, ending := none }
    { s with provider }.adopt next
  | .ended reason => { s with provider := s.provider.endRoom reason }

def perform (hashes : Hashes) (s : Following) (event : FollowEvent) : Option Following :=
  (s.bring hashes event).map fun (arrival, s) => s.arrive arrival

def Step (hashes : Hashes) (s : Following) (event : FollowEvent) (t : Following) : Prop :=
  s.perform hashes event = some t

/-- A client starts at any time. -/
def Init (hashes : Hashes) (s : Following) : Prop :=
  s.service.Reachable hashes ∧ s.provider = ⟨.loading, false, none, none, none⟩ ∧
    s.rendered = s.provider.rendered ∧ s.isBooting = true ∧ s.subscription = none ∧
    s.requests = [] ∧ s.received = [] ∧ s.adopted = []

def Reachable (hashes : Hashes) : Following → Prop :=
  Transition.Reachable (Init hashes) (Step hashes)

end Following

end Harmony.ListenTogether
