/-
# The Listen Together service

One Room at a time: who is in it, what it plays and when it ends. Every
operation takes the Room's lock, which first closes a Room that has expired, and
never holds it across a wait, so an operation is one function from the service
to its reply and the service after it. A command is two of them, since the
library is read between taking the command from its budget and applying it.

Clock readings and random tokens are arguments. The hashes are a parameter: the
service only compares what they return. A panic is `none`.
-/

import Harmony.Library.Table
import Harmony.ListenTogether.Limits
import Harmony.ListenTogether.RoomState

namespace Harmony.ListenTogether

/-! ### Data -/

/-- The keyed and the plain hash. -/
structure Hashes where
  /-- Sessions are filed under this hash of their cookie. -/
  sessionKey : String → String
  /-- The MAC of a token under a key. -/
  inviteMac : String → String → List UInt8

inductive RoomError
  | disabled
  | alreadyOpen
  | notFound
  | inviteInvalid
  | full
  | sessionEnded
  | rateLimited
  | badCommand (message : String)
  | unknownTrack
  | library (message : String)
  deriving DecidableEq

/-- How long things last, in nanoseconds. -/
structure Timings where
  /-- A Room closes itself after this long. -/
  roomLifetime : ℕ
  /-- A Guest with no open event stream for this long loses their place. -/
  guestGrace : ℕ

/-- What one operation reads from the clocks: the instant at which it takes the
lock, a later one inside, and the server time. -/
structure Clock where
  lockedAt : Instant
  now : Instant
  nowMs : ℤ

/-- What the event stream carries: a snapshot, or the Room's end. -/
inductive Feed
  | state (room : RoomState)
  | closed
  deriving DecidableEq

/-- A Guest session as a request holds it. -/
structure GuestSession where
  key : String

/-- Who sent a command. -/
inductive Client
  | owner
  | guest (session : GuestSession)

/-- A joined Guest: the cookie's value and the Room as a Guest sees it. -/
structure Joined where
  sessionToken : String
  state : RoomState

/-- What a Guest's event stream gives back when it is dropped. -/
structure Presence where
  generation : ℕ
  key : String
  deriving DecidableEq

/-- One event stream of the Room with this generation. -/
structure Subscription where
  generation : ℕ
  inviteUrl : Option String
  presence : Option Presence

/-- A place among a Guest's audio streams, given back when dropped. -/
structure AudioStreamSlot where
  generation : ℕ
  key : String
  id : ℕ
  deriving DecidableEq

structure AudioStream where
  id : ℕ
  /-- The request path, which names the Track. -/
  target : String
  deriving DecidableEq

structure Guest where
  openStreams : ℕ
  /-- When the last stream ended; the join counts as the first such moment. -/
  disconnectedAt : Instant
  commands : TokenBucket
  reads : ReadBudgets
  /-- Oldest first. -/
  audioStreams : List AudioStream

def Guest.new (now : Instant) : Guest where
  openStreams := 0
  disconnectedAt := now
  commands := .new commandsRate now
  reads := .new now
  audioStreams := []

/-- The channels that outlive a Room: what its event streams were sent, newest
first, and the sessions whose revocation signal has turned true. -/
structure Channels where
  feed : List Feed
  revoked : List String

structure Room where
  generation : ℕ
  state : RoomState
  closesAt : Instant
  inviteUrl : String
  inviteKey : String
  inviteTag : List UInt8
  /-- Guests by the hash of their session cookie. -/
  guests : Table String Guest
  ownerCommands : TokenBucket
  channels : Channels

/-- The `ListenTogether` service. -/
structure Service where
  /-- The start of the Invite Link, unset when not configured. -/
  publicOrigin : Option String
  maxGuests : ℕ
  timings : Timings
  nextGeneration : ℕ
  nextAudioStream : ℕ
  /-- Outlives every Room, and is spent even when none is open. -/
  joins : TokenBucket
  room : Option Room
  /-- The channels of the Rooms that have ended, by generation. -/
  ended : List (ℕ × Channels)

/-! ### The Room -/

namespace Room

def publish (room : Room) : Room :=
  { room with channels.feed := .state room.state :: room.channels.feed }

def revoke (room : Room) (keys : List String) : Room :=
  { room with channels.revoked := keys ++ room.channels.revoked }

/-- Records how many Guests there are and tells every event stream. -/
def publishGuestCount (room : Room) : Room :=
  { room with state := room.state.setGuestCount room.guests.size }.publish

def ownerView (room : Room) : RoomState := { room.state with inviteUrl := some room.inviteUrl }

def view (room : Room) : Client → RoomState
  | .owner => room.ownerView
  | .guest _ => room.state

def require (room : Room) : Client → Except RoomError Unit
  | .guest session =>
    if (room.guests.lookup session.key).isSome then .ok () else .error .sessionEnded
  | .owner => .ok ()

/-- A bucket that refuses is refilled all the same. -/
def takeCommand (room : Room) (client : Client) (now : Instant) : Except RoomError Unit × Room :=
  match client with
  | .owner =>
    let (allowed, bucket) := room.ownerCommands.take now
    (if allowed then .ok () else .error .rateLimited, { room with ownerCommands := bucket })
  | .guest session =>
    match room.guests.lookup session.key with
    | none => (.error .sessionEnded, room)
    | some guest =>
      let (allowed, bucket) := guest.commands.take now
      (if allowed then .ok () else .error .rateLimited,
        { room with guests := room.guests.modify session.key ({ · with commands := bucket }) })

def inviteMatches (room : Room) (hashes : Hashes) (token : String) : Bool :=
  hashes.inviteMac room.inviteKey token == room.inviteTag

/-- Tells every event stream, then ends the Guest sessions. -/
def close (room : Room) : Channels where
  feed := .closed :: room.channels.feed
  revoked := room.guests.keys ++ room.channels.revoked

/-- Whether the Guest has an open event stream or lost the last one recently. -/
def guestStays (grace : ℕ) (now : Instant) (guest : Guest) : Bool :=
  guest.openStreams > 0 || now - guest.disconnectedAt < grace

/-- The sessions of the Guests gone too long. -/
def goneGuests (room : Room) (grace : ℕ) (now : Instant) : List String :=
  (room.guests.filter fun _ guest => !guestStays grace now guest).keys

end Room

/-! ### The operations -/

namespace Service

def new (publicOrigin : Option String) (maxGuests : ℕ) (timings : Timings) (now : Instant) :
    Service where
  publicOrigin := publicOrigin
  maxGuests := maxGuests
  timings := timings
  nextGeneration := 1
  nextAudioStream := 1
  joins := .new joinsRate now
  room := none
  ended := []

/-- Closes the Room: its channels outlive it. -/
def endRoom (service : Service) (room : Room) : Service :=
  { service with room := none, ended := (room.generation, room.close) :: service.ended }

/-- The Room's lock, with an expired Room already closed. -/
def lock (service : Service) (now : Instant) : Service :=
  match service.room with
  | some room => if room.closesAt ≤ now then service.endRoom room else service
  | none => service

/-- What opening a Room draws: the Invite Link's token, the key of its MAC, and
the end of the Room as the clients see it. -/
structure Opening where
  token : String
  inviteKey : String
  expiresAt : String

/-- The Room that `openRoom` opens. -/
def newRoom (hashes : Hashes) (service : Service) (publicOrigin : String) (clock : Clock)
    (opening : Opening) : Room :=
  let state := RoomState.new service.maxGuests opening.expiresAt clock.nowMs
  { generation := service.nextGeneration
    state := state
    closesAt := clock.now + service.timings.roomLifetime
    inviteUrl := publicOrigin ++ "/join#" ++ opening.token
    inviteKey := opening.inviteKey
    inviteTag := hashes.inviteMac opening.inviteKey opening.token
    guests := ∅
    ownerCommands := .new commandsRate clock.now
    channels := ⟨[.state state], []⟩ }

def openRoom (service : Service) (hashes : Hashes) (clock : Clock) (opening : Opening) :
    Except RoomError RoomState × Service :=
  match service.publicOrigin with
  | none => (.error .disabled, service)
  | some publicOrigin =>
    let service := service.lock clock.lockedAt
    match service.room with
    | some _ => (.error .alreadyOpen, service)
    | none =>
      let room := newRoom hashes service publicOrigin clock opening
      (.ok room.ownerView,
        { service with nextGeneration := service.nextGeneration + 1, room := some room })

/-- Revokes the Invite Link and every Guest session at once. -/
def close (service : Service) (clock : Clock) : Except RoomError Unit × Service :=
  let service := service.lock clock.lockedAt
  match service.room with
  | none => (.error .notFound, service)
  | some room => (.ok (), service.endRoom room)

/-- Runs `action` on the open Room. -/
def withRoom {α : Type} (service : Service) (clock : Clock)
    (action : Room → Except RoomError α × Room) : Except RoomError α × Service :=
  let service := service.lock clock.lockedAt
  match service.room with
  | none => (.error .notFound, service)
  | some room =>
    let (reply, room) := action room
    (reply, { service with room := some room })

def roomView (service : Service) (clock : Clock) (client : Client) :
    Except RoomError RoomState × Service :=
  service.withRoom clock fun room => (room.require client |>.map fun _ => room.view client, room)

/-- One join attempt from anyone, valid or not. -/
def takeJoin (service : Service) (clock : Clock) : Except RoomError Unit × Service :=
  let (allowed, bucket) := service.joins.take clock.now
  (if allowed then .ok () else .error .rateLimited, { service with joins := bucket })

/-- Spends one of the Guest's reads. -/
def takeRead (service : Service) (clock : Clock) (session : GuestSession) (budget : Budget) :
    Except RoomError Unit × Service :=
  service.withRoom clock fun room =>
    match room.guests.lookup session.key with
    | none => (.error .sessionEnded, room)
    | some guest =>
      let (allowed, reads) := guest.reads.take budget clock.now
      (if allowed then .ok () else .error .rateLimited,
        { room with guests := room.guests.modify session.key ({ · with reads := reads }) })

/-- At the limit a new request for a Track already streaming replaces that
Track's oldest stream; `none` when there is no such stream. -/
def makeWay (streams : List AudioStream) (target : String) : Option (List AudioStream) :=
  if streams.length ≥ maxAudioStreams then
    if streams.any (·.target == target) then some (streams.eraseP (·.target == target)) else none
  else some streams

def openAudioStream (service : Service) (clock : Clock) (session : GuestSession)
    (target : String) : Except RoomError AudioStreamSlot × Service :=
  let service := service.lock clock.lockedAt
  match service.room with
  | none => (.error .notFound, service)
  | some room =>
    match room.guests.lookup session.key with
    | none => (.error .sessionEnded, service)
    | some guest =>
      match makeWay guest.audioStreams target with
      | none => (.error .rateLimited, service)
      | some streams =>
        let id := service.nextAudioStream
        let streams := streams ++ [⟨id, target⟩]
        let guests := room.guests.modify session.key ({ · with audioStreams := streams })
        (.ok ⟨room.generation, session.key, id⟩,
          { service with nextAudioStream := id + 1, room := some { room with guests := guests } })

/-- Changes the Guest under `key` in the Room of this generation, if both are
still there. -/
def updateGuest (service : Service) (clock : Clock) (generation : ℕ) (key : String)
    (change : Guest → Guest) : Service :=
  let service := service.lock clock.lockedAt
  match service.room with
  | none => service
  | some room =>
    if room.generation = generation ∧ (room.guests.lookup key).isSome then
      { service with room := some { room with guests := room.guests.modify key change } }
    else service

def dropAudioStream (id : ℕ) (guest : Guest) : Guest :=
  { guest with audioStreams := guest.audioStreams.filter (·.id != id) }

/-- The drop of an audio slot. -/
def audioStreamEnded (service : Service) (clock : Clock) (slot : AudioStreamSlot) : Service :=
  service.updateGuest clock slot.generation slot.key (dropAudioStream slot.id)

def dropStream (now : Instant) (guest : Guest) : Guest :=
  let openStreams := guest.openStreams - 1
  { guest with
    openStreams := openStreams
    disconnectedAt := if openStreams = 0 then now else guest.disconnectedAt }

/-- The drop of a Guest's event stream. -/
def streamEnded (service : Service) (clock : Clock) (presence : Presence) : Service :=
  service.updateGuest clock presence.generation presence.key (dropStream clock.now)

/-- Files a new Guest under the hash of the session token. -/
def admitGuest (hashes : Hashes) (room : Room) (now : Instant) (sessionToken : String) : Room :=
  { room with
    guests := room.guests.insert (hashes.sessionKey sessionToken) (.new now) }.publishGuestCount

/-- Whether the cookie stands for a Guest of this Room. -/
def isCurrent (hashes : Hashes) (room : Room) (sessionToken : String) : Bool :=
  (room.guests.lookup (hashes.sessionKey sessionToken)).isSome

/-- What `join` does to the open Room. -/
def joinRoom (room : Room) (hashes : Hashes) (clock : Clock) (token : String)
    (currentSession : Option String) (drawn : String) : Except RoomError Joined × Room :=
  if room.inviteMatches hashes token then
    match currentSession.filter (isCurrent hashes room) with
    | some current => (.ok ⟨current, room.state⟩, room)
    | none =>
      if room.guests.size ≥ room.state.maxGuests then (.error .full, room)
      else
        let room := admitGuest hashes room clock.now drawn
        (.ok ⟨drawn, room.state⟩, room)
  else (.error .inviteInvalid, room)

/-- Exchanges an invite token for a Guest session. A browser that already holds
a live session keeps it; otherwise `drawn` is the new session's token. -/
def join (service : Service) (hashes : Hashes) (clock : Clock) (token : String)
    (currentSession : Option String) (drawn : String) : Except RoomError Joined × Service :=
  let (reply, service) := service.withRoom clock fun room =>
    joinRoom room hashes clock token currentSession drawn
  (reply.mapError fun error => if error = .notFound then .inviteInvalid else error, service)

/-- The live session a cookie's value stands for. -/
def authenticate (service : Service) (hashes : Hashes) (clock : Clock) (sessionToken : String) :
    Option GuestSession × Service :=
  let key := hashes.sessionKey sessionToken
  let service := service.lock clock.lockedAt
  (service.room.bind fun room => (room.guests.lookup key).map fun _ => ⟨key⟩, service)

def leaveRoom (room : Room) (key : String) : Room :=
  ({ room with guests := room.guests.erase key }.revoke [key]).publishGuestCount

/-- Frees the Guest's place at once. -/
def leave (service : Service) (clock : Clock) (session : GuestSession) :
    Except RoomError Unit × Service :=
  service.withRoom clock fun room =>
    match room.guests.lookup session.key with
    | none => (.error .sessionEnded, room)
    | some _ => (.ok (), leaveRoom room session.key)

/-- The first half of a command: the limit comes before the library reads. -/
def takeCommand (service : Service) (clock : Clock) (client : Client) :
    Except RoomError Unit × Service :=
  service.withRoom clock fun room => room.takeCommand client clock.now

/-- What the library says about one Track. -/
inductive TrackLookup
  | found
  | notFound
  | failed (message : String)

/-- Only library Tracks enter a Room. The Tracks are asked for once each, in the
order in which a hash set gives them. -/
def requireTracks (lookup : String → TrackLookup) : List String → Except RoomError Unit
  | [] => .ok ()
  | trackId :: rest =>
    match lookup trackId with
    | .found => requireTracks lookup rest
    | .notFound => .error .unknownTrack
    | .failed message => .error (.library message)

/-- The library read of a command: only new Queues have Tracks to ask for. -/
def requireCommandTracks (lookup : String → TrackLookup) (order : List String → List String) :
    Command → Except RoomError Unit
  | .playTracks trackIds _ => requireTracks lookup (order trackIds.dedup)
  | _ => .ok ()

/-- The second half of a command: the session or the Room may have ended during
the library read. -/
def finishCommand (service : Service) (clock : Clock) (client : Client) (command : Command) :
    Option (Except RoomError RoomState × Service) :=
  let service := service.lock clock.lockedAt
  match service.room with
  | none => some (.error .notFound, service)
  | some room =>
    match room.require client with
    | .error error => some (.error error, service)
    | .ok () => do
      let (changed, state) ← room.state.apply command clock.nowMs
      let room := { room with state := state }
      let room := if changed then room.publish else room
      return (.ok (room.view client), { service with room := some room })

/-- A whole command. Between its halves the service goes on: `between` is the
service after whatever else happened, from the service after the first half. -/
def command (service : Service) (client : Client) (command : Command)
    (takenAt : Clock) (lookup : String → TrackLookup) (order : List String → List String)
    (between : Service → Service) (finishedAt : Clock) :
    Option (Except RoomError RoomState × Service) :=
  match service.takeCommand takenAt client with
  | (.error error, service) => some (.error error, service)
  | (.ok (), service) =>
    match command.validate with
    | .error message => some (.error (.badCommand message), service)
    | .ok () =>
      match requireCommandTracks lookup order command with
      | .error error => some (.error error, between service)
      | .ok () => (between service).finishCommand finishedAt client command

def subscribe (service : Service) (clock : Clock) (client : Client) :
    Except RoomError Subscription × Service :=
  service.withRoom clock fun room =>
    match room.require client with
    | .error error => (.error error, room)
    | .ok () =>
      match client with
      | .owner => (.ok ⟨room.generation, some room.inviteUrl, none⟩, room)
      | .guest session =>
        let guests := room.guests.modify session.key fun guest =>
          { guest with openStreams := guest.openStreams + 1 }
        (.ok ⟨room.generation, none, some ⟨room.generation, session.key⟩⟩,
          { room with guests := guests })

/-- Removes the Guests gone too long from a Room. -/
def sweepRoom (timings : Timings) (now : Instant) (room : Room) : Room :=
  let stays := room.guests.filter fun _ guest => Room.guestStays timings.guestGrace now guest
  let swept := { room with guests := stays }.revoke (room.goneGuests timings.guestGrace now)
  if stays.size ≠ room.guests.size then swept.publishGuestCount else swept

/-- Closes an expired Room and removes Guests gone too long. Returns whether the
Room is still there. -/
def sweep (service : Service) (clock : Clock) (generation : ℕ) : Bool × Service :=
  let service := service.lock clock.lockedAt
  match service.room with
  | none => (false, service)
  | some room =>
    if room.generation = generation then
      (true, { service with room := some (sweepRoom service.timings clock.now room) })
    else (false, service)

end Service

/-! ### Every order of operations -/

/-- One operation on the service, with the arguments its caller gives. -/
inductive ServiceEvent
  | openRoom (clock : Clock) (opening : Service.Opening)
  | close (clock : Clock)
  | roomView (clock : Clock) (client : Client)
  | takeJoin (clock : Clock)
  | takeRead (clock : Clock) (session : GuestSession) (budget : Budget)
  | openAudioStream (clock : Clock) (session : GuestSession) (target : String)
  | audioStreamEnded (clock : Clock) (slot : AudioStreamSlot)
  | join (clock : Clock) (token : String) (currentSession : Option String) (drawn : String)
  | authenticate (clock : Clock) (sessionToken : String)
  | leave (clock : Clock) (session : GuestSession)
  | takeCommand (clock : Clock) (client : Client)
  | finishCommand (clock : Clock) (client : Client) (command : ValidCommand)
  | subscribe (clock : Clock) (client : Client)
  | streamEnded (clock : Clock) (presence : Presence)
  | sweep (clock : Clock) (generation : ℕ)

/-- Where the event finishes a command, its Tracks are in the library. -/
def ServiceEvent.Stocked (library : Set String) : ServiceEvent → Prop
  | .finishCommand _ _ command => ∀ trackIds index, command.val = .playTracks trackIds index →
      ∀ trackId ∈ trackIds, trackId ∈ library
  | _ => True

namespace Service

/-- The service after one operation; `none` when it panics. -/
def perform (service : Service) (hashes : Hashes) : ServiceEvent → Option Service
  | .openRoom clock opening => some (service.openRoom hashes clock opening).2
  | .close clock => some (service.close clock).2
  | .roomView clock client => some (service.roomView clock client).2
  | .takeJoin clock => some (service.takeJoin clock).2
  | .takeRead clock session budget => some (service.takeRead clock session budget).2
  | .openAudioStream clock session target => some (service.openAudioStream clock session target).2
  | .audioStreamEnded clock slot => some (service.audioStreamEnded clock slot)
  | .join clock token currentSession drawn =>
    some (service.join hashes clock token currentSession drawn).2
  | .authenticate clock sessionToken => some (service.authenticate hashes clock sessionToken).2
  | .leave clock session => some (service.leave clock session).2
  | .takeCommand clock client => some (service.takeCommand clock client).2
  | .finishCommand clock client command =>
    (service.finishCommand clock client command.val).map Prod.snd
  | .subscribe clock client => some (service.subscribe clock client).2
  | .streamEnded clock presence => some (service.streamEnded clock presence)
  | .sweep clock generation => some (service.sweep clock generation).2

/-- One step of the service under any operation. -/
def Step (hashes : Hashes) (service : Service) (event : ServiceEvent) (next : Service) : Prop :=
  service.perform hashes event = some next

/-- The service as it starts. -/
def Init (service : Service) : Prop :=
  ∃ publicOrigin maxGuests timings now, service = new publicOrigin maxGuests timings now

/-- What any operations of any clients, in any order, lead to. -/
def Reachable (hashes : Hashes) : Service → Prop :=
  Transition.Reachable Init (Step hashes)

/-! ### Only library Tracks enter a Room -/

def StockedStep (hashes : Hashes) (library : Set String) (service : Service) (event : ServiceEvent)
    (next : Service) : Prop :=
  Step hashes service event next ∧ event.Stocked library

theorem found_of_requireTracks {lookup : String → TrackLookup} {trackIds : List String}
    (h : requireTracks lookup trackIds = .ok ()) :
    ∀ trackId ∈ trackIds, lookup trackId = .found := by
  induction trackIds with
  | nil => simp
  | cons first rest ih =>
    rw [requireTracks] at h
    cases hlookup : lookup first with
    | found => exact List.forall_mem_cons.mpr ⟨hlookup, ih (by rwa [hlookup] at h)⟩
    | notFound => simp [hlookup] at h
    | failed message => simp [hlookup] at h

/-- A whole command is its two halves with whatever operations happened during
the library read, which has found the Tracks. -/
theorem command_run {hashes : Hashes} {library : Set String} {service next : Service}
    {client : Client} {command : Command} {takenAt finishedAt : Clock}
    {lookup : String → TrackLookup} {order : List String → List String}
    {between : Service → Service} {reply : Except RoomError RoomState}
    (hbetween : ∀ s : Service, ∃ events,
      Transition.Run (StockedStep hashes library) s events (between s))
    (hfound : ∀ trackId, lookup trackId = .found → trackId ∈ library)
    (horder : ∀ trackIds, trackIds ⊆ order trackIds.dedup)
    (hcommand : service.command client command takenAt lookup order between finishedAt =
      some (reply, next)) :
    ∃ events, Transition.Run (StockedStep hashes library) service events next := by
  rw [Service.command] at hcommand
  have htake : StockedStep hashes library service (.takeCommand takenAt client)
      (service.takeCommand takenAt client).2 := ⟨rfl, trivial⟩
  rcases htaken : service.takeCommand takenAt client with ⟨taken | _, middle⟩
  · rw [htaken] at hcommand htake
    cases hcommand
    exact ⟨_, .cons htake (.nil _)⟩
  rw [htaken] at hcommand htake
  cases hvalid : command.validate with
  | error message =>
    simp only [hvalid] at hcommand
    cases hcommand
    exact ⟨_, .cons htake (.nil _)⟩
  | ok _ =>
    simp only [hvalid] at hcommand
    obtain ⟨events, hrun⟩ := hbetween middle
    cases htracks : requireCommandTracks lookup order command with
    | error error =>
      simp only [htracks] at hcommand
      cases hcommand
      exact ⟨_, .cons htake hrun⟩
    | ok _ =>
      simp only [htracks] at hcommand
      have hfinish : StockedStep hashes library (between middle)
          (.finishCommand finishedAt client ⟨command, hvalid⟩) next := by
        refine ⟨by simp [Step, perform, hcommand], ?_⟩
        rintro trackIds index rfl trackId htrack
        exact hfound _ (found_of_requireTracks htracks _ (horder _ htrack))
      exact ⟨_, (Transition.Run.cons htake hrun).append (.cons hfinish (.nil _))⟩

end Service

end Harmony.ListenTogether
