/-
# What one subscriber's event stream emits

An operation holds the Room's lock while it sends on the Room's channels, one send
after the other; a stream takes no lock, so it may be polled between any two of
them. Receivers therefore see less than the Room's lock protects: here stand the
service, the sends its last operation has still to make, what receivers of one
Room see, and one stream of that Room with the frames it has emitted. A poll
checks the session's end first, the feed second and the keep-alive last.

Closing sends the end of the feed before it ends the sessions; leaving and
sweeping end the session before they publish. That order is all that keeps a
Guest who left from one more snapshot, and a Guest of a closed Room from a stream
that just stops.
-/

import Harmony.Library.Watch
import Harmony.ListenTogether.Sessions

namespace Harmony.ListenTogether

open Service

/-! ### Frames -/

/-- What a client is sent: an event, or a comment that keeps the connection. -/
inductive Frame
  | roomState (id : ℕ) (data : RoomState)
  | roomClosed
  | keepAlive
  deriving DecidableEq

namespace Frame

def revision : Frame → Option ℕ
  | roomState id _ => some id
  | _ => none

def data : Frame → Option RoomState
  | roomState _ data => some data
  | _ => none

end Frame

/-- The snapshot in a frame; only the Owner's carries the Invite Link. -/
def frameData (state : RoomState) (inviteUrl : Option String) : RoomState :=
  match inviteUrl with
  | some inviteUrl => { state with inviteUrl := some inviteUrl }
  | none => state

/-- A frame, and whether the stream ends after it. -/
def frame (feed : Feed) (inviteUrl : Option String) : Frame × Bool :=
  match feed with
  | .closed => (.roomClosed, true)
  | .state state => (.roomState state.revision (frameData state inviteUrl), false)

/-! ### What receivers see -/

/-- The Room's feed, and the sessions whose revocation has turned true since the
subscription. A session's sender is dropped only after that, so a receiver that
waits for either waits for the value. -/
structure Receivers where
  feed : Watch.Channel Feed
  revoked : List String

/-- One send, or the drop of the feed's sender with its Room. -/
inductive Signal
  | feed (entry : Feed)
  | revoke (key : String)
  | drop

namespace Receivers

def receive (told : Receivers) : Signal → Receivers
  | .feed entry => { told with feed := told.feed.send entry }
  | .revoke key => { told with revoked := key :: told.revoked }
  | .drop => { told with feed := told.feed.dropSender }

def receiveAll (told : Receivers) (signals : List Signal) : Receivers :=
  signals.foldl receive told

end Receivers

/-- What was put in front of a list, oldest first. -/
def added {α : Type} (before after : List α) : List α :=
  (after.take (after.length - before.length)).reverse

/-- An operation on an open Room ends sessions first and publishes then. -/
def Room.signals (room next : Room) : List Signal :=
  (added room.channels.revoked next.channels.revoked).map .revoke ++
    (added room.channels.feed next.channels.feed).map .feed

/-- Closing tells every event stream first. -/
def Room.closeSignals (room : Room) : List Signal :=
  .feed .closed :: (room.guests.keys.map .revoke ++ [.drop])

namespace Service

/-- The Room of this generation, while it is open. -/
def roomOf (service : Service) (generation : ℕ) : Option Room :=
  service.room.filter (·.generation = generation)

/-- What an operation sends on the channels of the Room of this generation. -/
def signals (generation : ℕ) (service next : Service) : List Signal :=
  match service.roomOf generation, next.roomOf generation with
  | none, _ => []
  | some room, some room' => room.signals room'
  | some room, none => room.closeSignals

end Service

/-! ### The stream -/

/-- `revoked` is the session whose end the stream waits for; the Owner has none. -/
structure EventStream where
  inviteUrl : Option String
  seen : ℕ
  revoked : Option String

inductive Poll (α : Type)
  | ready (value : α)
  | pending

namespace EventStream

def sessionEnded (stream : EventStream) (told : Receivers) : Bool :=
  stream.revoked.any fun key => key ∈ told.revoked

/-- The next frame, or `none` when the session ended with the Room open. A snapshot
waiting in the channel loses to a revocation. -/
def next (stream : EventStream) (told : Receivers) (keepAliveDue : Bool) :
    Poll (Option (Frame × Bool)) × EventStream :=
  if stream.sessionEnded told then
    match told.feed.newest with
    | .closed => (.ready (some (frame .closed none)), stream)
    | .state _ => (.ready none, stream)
  else
    match told.feed.changed stream.seen with
    | .closed => (.ready (some (frame .closed none)), stream)
    | .changed =>
      (.ready (some (frame told.feed.newest stream.inviteUrl)),
        { stream with seen := told.feed.version })
    | .pending =>
      if keepAliveDue then (.ready (some (.keepAlive, false)), stream) else (.pending, stream)

end EventStream

/-- The response's body: the current snapshot, then whatever the stream yields. -/
structure Body where
  first : Option Frame
  later : Option EventStream

namespace Body

/-- `none` is the end of the body. -/
def poll (body : Body) (told : Receivers) (keepAliveDue : Bool) : Poll (Option Frame) × Body :=
  match body.first with
  | some first => (.ready (some first), { body with first := none })
  | none =>
    match body.later with
    | none => (.ready none, body)
    | some stream =>
      match stream.next told keepAliveDue with
      | (.pending, stream) => (.pending, ⟨none, some stream⟩)
      | (.ready none, _) => (.ready none, ⟨none, none⟩)
      | (.ready (some (chunk, ended)), stream) =>
        (.ready (some chunk), ⟨none, if ended then none else some stream⟩)

/-- Nothing more comes. -/
def Ended (body : Body) : Prop := body.first = none ∧ body.later = none

end Body

/-- The current snapshot first, then each later one. -/
def eventStream (told : Receivers) (subscription : Subscription) : Body :=
  let (first, ended) := frame told.feed.newest subscription.inviteUrl
  let stream : EventStream :=
    { inviteUrl := subscription.inviteUrl
      seen := told.feed.version
      revoked := subscription.presence.map (·.key) }
  ⟨some first, if ended then none else some stream⟩

/-! ### Every interleaving -/

/-- The service, the sends of its last operation that are still to come, what
receivers of the subscribed Room see, and the stream with its frames, newest first.
`left` records that the Guest's session ended while the Room was open. -/
structure Streaming where
  service : Service
  subscription : Subscription
  told : Receivers
  sending : List Signal
  left : Bool
  body : Option Body
  frames : List Frame

inductive StreamEvent
  /-- An operation on the service, which waits for the lock. -/
  | operate (event : ServiceEvent)
  | send
  /-- The subscribed request builds its response. -/
  | respond
  | poll (keepAliveDue : Bool)

def StreamEvent.isPoll : StreamEvent → Bool
  | .poll _ => true
  | _ => false

/-- The response is built or the stream polled, and nothing else happens. -/
def StreamEvent.isQuiet : StreamEvent → Bool
  | .respond | .poll _ => true
  | _ => false

namespace Streaming

def session (s : Streaming) : Option String := s.subscription.presence.map (·.key)

def room (s : Streaming) : Option Room := s.service.roomOf s.subscription.generation

/-- Whether the session is no Guest's of the open Room. -/
def isOut (s : Streaming) : Bool :=
  s.room.any fun room => s.session.any fun key => key ∉ room.guests

def operate (s : Streaming) (next : Service) : Streaming :=
  let after := { s with
    service := next
    sending := signals s.subscription.generation s.service next }
  { after with left := s.left || after.isOut }

def perform (hashes : Hashes) (s : Streaming) : StreamEvent → Option Streaming
  | .operate event =>
    match s.sending with
    | [] => (s.service.perform hashes event).map s.operate
    | _ :: _ => none
  | .send =>
    match s.sending with
    | [] => none
    | signal :: rest => some { s with told := s.told.receive signal, sending := rest }
  | .respond =>
    match s.body with
    | none => some { s with body := some (eventStream s.told s.subscription) }
    | some _ => none
  | .poll keepAliveDue =>
    s.body.map fun body =>
      match body.poll s.told keepAliveDue with
      | (.ready (some chunk), body) => { s with body := some body, frames := chunk :: s.frames }
      | (_, body) => { s with body := some body }

def Step (hashes : Hashes) (s : Streaming) (event : StreamEvent) (t : Streaming) : Prop :=
  s.perform hashes event = some t

/-- A client has just subscribed to the Room that is open, after any operations. A
subscribed Guest's own sender has not turned true. -/
def Init (hashes : Hashes) (s : Streaming) : Prop :=
  ∃ (service : Service) (clock : Clock) (client : Client) (room : Room), service.Reachable hashes ∧
    service.subscribe clock client = (.ok s.subscription, s.service) ∧
    s.service.room = some room ∧
    s.told.feed.values = room.channels.feed ∧ s.told.feed.alive = true ∧
    s.told.revoked = [] ∧
    s.sending = [] ∧ s.left = false ∧ s.body = none ∧ s.frames = []

def Reachable (hashes : Hashes) : Streaming → Prop :=
  Transition.Reachable (Init hashes) (Step hashes)

/-- The session has ended, as far as its receivers know. -/
def Revoked (s : Streaming) : Prop := ∃ key, s.session = some key ∧ key ∈ s.told.revoked

/-- The end of the Room has been sent. -/
def Closed (s : Streaming) : Prop := s.told.feed.newest = .closed

/-- The body has been read to its end. -/
def Ended (s : Streaming) : Prop := ∃ body, s.body = some body ∧ body.Ended

def revisions (s : Streaming) : List ℕ := s.frames.filterMap Frame.revision

/-- The snapshots emitted after the initial frame. -/
def laterSnapshots (s : Streaming) : List RoomState := s.frames.dropLast.filterMap Frame.data

end Streaming

/-! ### What one operation sends -/

/-- What an operation on an open Room puts in front of its channels: at most the
new state, and the sessions that end with it. -/
structure Room.Tells (room next : Room) : Prop where
  generation : next.generation = room.generation
  feed : next.channels.feed = room.channels.feed ∨
    next.channels.feed = .state next.state :: room.channels.feed
  revoked : ∃ keys, next.channels.revoked = keys ++ room.channels.revoked ∧
    (∀ key ∈ keys, key ∉ next.guests) ∧ ∀ key ∈ room.guests, key ∉ next.guests → key ∈ keys

namespace Room.Tells

variable {room next : Room}

/-- Nobody's session ends. -/
theorem ofKept (hgeneration : next.generation = room.generation)
    (hfeed : next.channels.feed = room.channels.feed ∨
      next.channels.feed = .state next.state :: room.channels.feed)
    (hrevoked : next.channels.revoked = room.channels.revoked)
    (hguests : ∀ key ∈ room.guests, key ∈ next.guests) : room.Tells next where
  generation := hgeneration
  feed := hfeed
  revoked := ⟨[], hrevoked, by simp, fun key hkey hgone => absurd (hguests key hkey) hgone⟩

theorem modify (room : Room) (key : String) (change : Guest → Guest) :
    room.Tells { room with guests := room.guests.modify key change } := by
  refine .ofKept rfl (.inl rfl) rfl fun key' hkey => ?_
  rw [← AList.lookup_isSome, Table.lookup_modify]
  rw [← AList.lookup_isSome] at hkey
  split_ifs
  · rwa [Option.isSome_map]
  · exact hkey

theorem leaveRoom (room : Room) (key : String) : room.Tells (leaveRoom room key) where
  generation := rfl
  feed := .inr rfl
  revoked := by
    refine ⟨[key], rfl, ?_, ?_⟩
    · rintro _ hmem hguest
      obtain rfl := List.mem_singleton.mp hmem
      exact (AList.mem_erase.mp hguest).1 rfl
    · intro key' hguest hgone
      by_contra hother
      refine hgone (AList.mem_erase.mpr ⟨?_, hguest⟩)
      rintro rfl
      exact hother List.mem_cons_self

theorem sweepRoom (timings : Timings) (now : Instant) (room : Room) :
    room.Tells (sweepRoom timings now room) := by
  let stays := room.guests.filter fun _ guest => guestStays timings.guestGrace now guest
  have hgone : ∀ key, key ∈ room.goneGuests timings.guestGrace now ↔
      key ∈ room.guests ∧ key ∉ stays := by
    intro key
    rw [goneGuests, ← AList.mem_keys, ← AList.lookup_isSome, ← AList.lookup_isSome,
      ← AList.lookup_isSome, Table.lookup_filter, Table.lookup_filter]
    cases room.guests.lookup key with
    | none => simp
    | some guest => by_cases hstays : guestStays timings.guestGrace now guest <;> simp [hstays]
  have hrevoked : ∃ keys, room.goneGuests timings.guestGrace now ++ room.channels.revoked =
      keys ++ room.channels.revoked ∧ (∀ key ∈ keys, key ∉ stays) ∧
      ∀ key ∈ room.guests, key ∉ stays → key ∈ keys :=
    ⟨_, rfl, fun key hkey => ((hgone key).mp hkey).2, fun key hin hout =>
      (hgone key).mpr ⟨hin, hout⟩⟩
  rw [Service.sweepRoom]
  split_ifs
  · exact ⟨rfl, .inr rfl, hrevoked⟩
  · exact ⟨rfl, .inl rfl, hrevoked⟩

end Room.Tells

theorem roomStep_tells {hashes : Hashes} {timings : Timings} {event : ServiceEvent}
    {room next : Room} (hstep : RoomStep hashes timings event room next) : room.Tells next := by
  cases hstep with
  | ownerCommand clock => exact .ofKept rfl (.inl rfl) rfl fun _ => id
  | guestCommand clock session guest hguest => exact .modify room _ _
  | takeRead clock session budget guest hguest => exact .modify room _ _
  | openAudioStream clock session target guest hguest streams hway id => exact .modify room _ _
  | audioStreamEnded clock slot hgeneration => exact .modify room _ _
  | subscribe clock session => exact .modify room _ _
  | streamEnded clock presence hgeneration => exact .modify room _ _
  | join clock token currentSession drawn hplace =>
    refine .ofKept rfl (.inr rfl) rfl fun key hkey => ?_
    exact (AList.mem_insert room.guests).mpr (.inr hkey)
  | leave clock session => exact .leaveRoom room session.key
  | finishCommand clock client command changed state happly =>
    cases changed with
    | false => exact .ofKept rfl (.inl rfl) rfl fun _ => id
    | true => exact .ofKept rfl (.inr rfl) rfl fun _ => id
  | sweep clock => exact .sweepRoom timings clock.now room

/-! ### The followed Room -/

namespace Service

variable {hashes : Hashes} {service next : Service} {event : ServiceEvent} {generation : ℕ}

theorem roomOf_eq_some {room : Room} : service.roomOf generation = some room ↔
    service.room = some room ∧ room.generation = generation := by
  simp [roomOf, Option.filter_eq_some_iff]

theorem roomOf_of_room_none (h : service.room = none) : service.roomOf generation = none := by
  simp [roomOf, h]

/-- The Room of this generation stays open and tells what an operation tells, or it
is open no more. -/
def Follows (generation : ℕ) (service next : Service) : Prop :=
  next.roomOf generation = none ∨ ∃ room room', service.roomOf generation = some room ∧
    next.roomOf generation = some room' ∧ room.Tells room'

theorem Follows.same (hroom : next.room = service.room) : Follows generation service next := by
  cases hbefore : service.roomOf generation with
  | none => exact .inl (by rw [← hbefore, roomOf, roomOf, hroom])
  | some room =>
    refine .inr ⟨room, room, hbefore, by rw [← hbefore, roomOf, roomOf, hroom], ?_⟩
    exact .ofKept rfl (.inl rfl) rfl fun _ => id

theorem serviceStep_follows (hstep : ServiceStep hashes service event next)
    (hgeneration : generation < service.nextGeneration) :
    service.nextGeneration ≤ next.nextGeneration ∧ Follows generation service next := by
  cases hstep with
  | kept event joins => exact ⟨le_rfl, .same rfl⟩
  | opened clock opening publicOrigin hroom =>
    refine ⟨Nat.le_succ _, .inl ?_⟩
    simp [roomOf, newRoom, hgeneration.ne']
  | closed clock room hroom => exact ⟨le_rfl, .inl (roomOf_of_room_none rfl)⟩
  | room event room after nextAudioStream hroom hstep =>
    have htells := roomStep_tells hstep
    refine ⟨le_rfl, ?_⟩
    by_cases hfollowed : room.generation = generation
    · exact .inr ⟨room, after, roomOf_eq_some.mpr ⟨hroom, hfollowed⟩,
        roomOf_eq_some.mpr ⟨rfl, htells.generation.trans hfollowed⟩, htells⟩
    · left
      simp [roomOf, htells.generation, hfollowed]

/-- An expired Room may be closed before the operation looks at it. -/
theorem step_follows (hstep : Step hashes service event next)
    (hgeneration : generation < service.nextGeneration) :
    service.nextGeneration ≤ next.nextGeneration ∧ Follows generation service next := by
  obtain ⟨locked, rfl | ⟨now, rfl⟩, hlocked⟩ := step_spec hstep
  · exact serviceStep_follows hlocked hgeneration
  · have hkeeps : (service.lock now).nextGeneration = service.nextGeneration := by
      rw [lock]
      split
      · split_ifs <;> rfl
      · rfl
    obtain ⟨hmono, hfollows⟩ := serviceStep_follows hlocked (hkeeps ▸ hgeneration)
    refine ⟨hkeeps ▸ hmono, ?_⟩
    rcases hfollows with hnone | ⟨room, room', hroom, hroom', htells⟩
    · exact .inl hnone
    · refine .inr ⟨room, room', ?_, hroom', htells⟩
      obtain ⟨hopen, hfollowed⟩ := roomOf_eq_some.mp hroom
      rcases room_lock service now with hsame | hexpired
      · exact roomOf_eq_some.mpr ⟨hsame ▸ hopen, hfollowed⟩
      · simp [hexpired] at hopen

/-- A Room is numbered below the next one, and while it is open its feed has no
end. -/
structure OpenRooms (service : Service) : Prop where
  generation : ∀ room, service.room = some room → room.generation < service.nextGeneration
  feed : ∀ room, service.room = some room → Feed.closed ∉ room.channels.feed

theorem OpenRooms.of_none (h : service.room = none) : service.OpenRooms where
  generation room hroom := by simp [h] at hroom
  feed room hroom := by simp [h] at hroom

theorem Reachable.openRooms (h : service.Reachable hashes) : service.OpenRooms := by
  refine Transition.Reachable.invariant ?_ ?_ h
  · rintro _ ⟨publicOrigin, maxGuests, timings, now, rfl⟩
    exact .of_none rfl
  · intro before event after hbefore hstep
    have hlock : ∀ now, (before.lock now).OpenRooms := by
      intro now
      rw [lock]
      split
      · split_ifs
        · exact .of_none rfl
        · exact hbefore
      · exact hbefore
    have hserviceStep : ∀ locked : Service, locked.OpenRooms →
        ServiceStep hashes locked event after → after.OpenRooms := by
      intro locked hlocked hserviceStep
      cases hserviceStep with
      | kept event joins => exact ⟨hlocked.generation, hlocked.feed⟩
      | opened clock opening publicOrigin hroom =>
        constructor <;> rintro _ ⟨rfl⟩
        · exact Nat.lt_succ_self _
        · simp [newRoom]
      | closed clock room hroom => exact .of_none rfl
      | room event room next nextAudioStream hroom hroomStep =>
        have htells := roomStep_tells hroomStep
        constructor <;> rintro _ ⟨rfl⟩
        · exact htells.generation ▸ hlocked.generation room hroom
        · have hopen := hlocked.feed room hroom
          rcases htells.feed with hsame | hstate
          · rwa [hsame]
          · rw [hstate]
            simpa using hopen
    obtain ⟨locked, rfl | ⟨now, rfl⟩, hlocked⟩ := step_spec hstep
    · exact hserviceStep _ hbefore hlocked
    · exact hserviceStep _ (hlock now) hlocked

end Service

end Harmony.ListenTogether
