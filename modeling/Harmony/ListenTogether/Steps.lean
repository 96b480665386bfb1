/-
# What one operation can do

Every operation first closes an expired Room and then does one of a few things
to the Room that is open. This is said once here, for all operations: whatever
holds of the service is shown for these few cases.
-/

import Harmony.ListenTogether.Service

namespace Harmony.ListenTogether

open Service

/-! ### The open Room -/

/-- What an operation does to the open Room when it does not leave it alone. -/
inductive RoomStep (hashes : Hashes) (timings : Timings) : ServiceEvent → Room → Room → Prop
  | ownerCommand {room : Room} (clock : Clock) :
      RoomStep hashes timings (.takeCommand clock .owner) room
        { room with ownerCommands := (room.ownerCommands.take clock.now).2 }
  | guestCommand {room : Room} (clock : Clock) (session : GuestSession) (guest : Guest)
      (hguest : room.guests.lookup session.key = some guest) :
      RoomStep hashes timings (.takeCommand clock (.guest session)) room
        { room with
          guests := room.guests.modify session.key
            ({ · with commands := (guest.commands.take clock.now).2 }) }
  | takeRead {room : Room} (clock : Clock) (session : GuestSession) (budget : Budget)
      (guest : Guest) (hguest : room.guests.lookup session.key = some guest) :
      RoomStep hashes timings (.takeRead clock session budget) room
        { room with
          guests := room.guests.modify session.key
            ({ · with reads := (guest.reads.take budget clock.now).2 }) }
  | openAudioStream {room : Room} (clock : Clock) (session : GuestSession) (target : String)
      (guest : Guest) (hguest : room.guests.lookup session.key = some guest)
      (streams : List AudioStream) (hway : makeWay guest.audioStreams target = some streams)
      (id : ℕ) :
      RoomStep hashes timings (.openAudioStream clock session target) room
        { room with
          guests := room.guests.modify session.key
            ({ · with audioStreams := streams ++ [⟨id, target⟩] }) }
  | audioStreamEnded {room : Room} (clock : Clock) (slot : AudioStreamSlot)
      (hgeneration : room.generation = slot.generation) :
      RoomStep hashes timings (.audioStreamEnded clock slot) room
        { room with
          guests := room.guests.modify slot.key (dropAudioStream slot.id) }
  | subscribe {room : Room} (clock : Clock) (session : GuestSession) :
      RoomStep hashes timings (.subscribe clock (.guest session)) room
        { room with
          guests := room.guests.modify session.key
            fun guest => { guest with openStreams := guest.openStreams + 1 } }
  | streamEnded {room : Room} (clock : Clock) (presence : Presence)
      (hgeneration : room.generation = presence.generation) :
      RoomStep hashes timings (.streamEnded clock presence) room
        { room with
          guests := room.guests.modify presence.key (dropStream clock.now) }
  | join {room : Room} (clock : Clock) (token : String) (currentSession : Option String)
      (drawn : String) (hplace : room.guests.size < room.state.maxGuests) :
      RoomStep hashes timings (.join clock token currentSession drawn) room
        (admitGuest hashes room clock.now drawn)
  | leave {room : Room} (clock : Clock) (session : GuestSession) :
      RoomStep hashes timings (.leave clock session) room (leaveRoom room session.key)
  | finishCommand {room : Room} (clock : Clock) (client : Client) (command : ValidCommand)
      (changed : Bool) (state : RoomState)
      (happly : room.state.apply command.val clock.nowMs = some (changed, state)) :
      RoomStep hashes timings (.finishCommand clock client command) room
        (if changed then { room with state := state }.publish else { room with state := state })
  | sweep {room : Room} (clock : Clock) :
      RoomStep hashes timings (.sweep clock room.generation) room
        (sweepRoom timings clock.now room)

/-! ### The service -/

/-- What an operation does to the service once an expired Room is closed. -/
inductive ServiceStep (hashes : Hashes) (service : Service) : ServiceEvent → Service → Prop
  /-- At most the join budget is drawn on. -/
  | kept (event : ServiceEvent) (joins : TokenBucket) :
      ServiceStep hashes service event { service with joins := joins }
  | opened (clock : Clock) (opening : Opening) (publicOrigin : String)
      (hroom : service.room = none) :
      ServiceStep hashes service (.openRoom clock opening)
        { service with
          nextGeneration := service.nextGeneration + 1
          room := some (newRoom hashes service publicOrigin clock opening) }
  | closed (clock : Clock) (room : Room) (hroom : service.room = some room) :
      ServiceStep hashes service (.close clock) (service.endRoom room)
  | room (event : ServiceEvent) (room next : Room) (nextAudioStream : ℕ)
      (hroom : service.room = some room) (hstep : RoomStep hashes service.timings event room next) :
      ServiceStep hashes service event
        { service with nextAudioStream := nextAudioStream, room := some next }

namespace ServiceStep

variable {hashes : Hashes} {service : Service} {event : ServiceEvent} {room : Room}

theorem same (service : Service) (event : ServiceEvent) :
    ServiceStep hashes service event service :=
  .kept event service.joins

/-- An action that leaves the open Room alone. -/
theorem sameRoom (event : ServiceEvent) (hroom : service.room = some room) :
    ServiceStep hashes service event { service with room := some room } := by
  rw [← hroom]
  exact .same service event

theorem ofRoom {next : Room} (hroom : service.room = some room)
    (hstep : RoomStep hashes service.timings event room next) :
    ServiceStep hashes service event { service with room := some next } :=
  .room event room next service.nextAudioStream hroom hstep

/-- An action on the open Room that leaves it alone or takes one of its steps. -/
theorem ofWithRoom {α : Type} {clock : Clock} {action : Room → Except RoomError α × Room}
    (haction : ∀ room : Room, (action room).2 = room ∨
      RoomStep hashes (service.lock clock.lockedAt).timings event room (action room).2) :
    ServiceStep hashes (service.lock clock.lockedAt) event (service.withRoom clock action).2 := by
  simp only [withRoom]
  cases hroom : (service.lock clock.lockedAt).room with
  | none => exact .same _ event
  | some room =>
    rcases haction room with hsame | hstep
    · simp only [hsame]
      exact .sameRoom event hroom
    · exact .ofRoom hroom hstep

theorem ofUpdateGuest {clock : Clock} {generation : ℕ} {key : String} {change : Guest → Guest}
    (hstep : ∀ room : Room, room.generation = generation →
      RoomStep hashes (service.lock clock.lockedAt).timings event room
        { room with guests := room.guests.modify key change }) :
    ServiceStep hashes (service.lock clock.lockedAt) event
      (service.updateGuest clock generation key change) := by
  simp only [updateGuest]
  cases hroom : (service.lock clock.lockedAt).room with
  | none => exact .same _ event
  | some room =>
    dsimp only
    split_ifs with hguest
    · exact .ofRoom hroom (hstep room hguest.1)
    · exact .same _ event

end ServiceStep

namespace Service

variable {hashes : Hashes} {service next : Service} {event : ServiceEvent}

theorem openRoom_step (service : Service) (clock : Clock) (opening : Opening) :
    ServiceStep hashes service (.openRoom clock opening)
        (service.openRoom hashes clock opening).2 ∨
      ServiceStep hashes (service.lock clock.lockedAt) (.openRoom clock opening)
        (service.openRoom hashes clock opening).2 := by
  rw [openRoom]
  cases service.publicOrigin with
  | none => exact .inl (.same service _)
  | some publicOrigin =>
    refine .inr ?_
    cases hroom : (service.lock clock.lockedAt).room with
    | some room =>
      simp only [hroom]
      exact .same _ _
    | none =>
      simp only [hroom]
      exact .opened clock opening publicOrigin hroom

theorem close_step (service : Service) (clock : Clock) :
    ServiceStep hashes (service.lock clock.lockedAt) (.close clock) (service.close clock).2 := by
  simp only [close]
  cases hroom : (service.lock clock.lockedAt).room with
  | none => exact .same _ _
  | some room => exact .closed clock room hroom

theorem takeRead_step (service : Service) (clock : Clock) (session : GuestSession)
    (budget : Budget) :
    ServiceStep hashes (service.lock clock.lockedAt) (.takeRead clock session budget)
      (service.takeRead clock session budget).2 := by
  refine .ofWithRoom fun room => ?_
  cases hguest : room.guests.lookup session.key with
  | none => exact .inl rfl
  | some guest => exact .inr (.takeRead clock session budget guest hguest)

theorem takeCommand_step (service : Service) (clock : Clock) (client : Client) :
    ServiceStep hashes (service.lock clock.lockedAt) (.takeCommand clock client)
      (service.takeCommand clock client).2 := by
  refine .ofWithRoom fun room => ?_
  cases client with
  | owner => exact .inr (.ownerCommand clock)
  | guest session =>
    rw [Room.takeCommand]
    cases hguest : room.guests.lookup session.key with
    | none => exact .inl rfl
    | some guest => exact .inr (.guestCommand clock session guest hguest)

theorem subscribe_step (service : Service) (clock : Clock) (client : Client) :
    ServiceStep hashes (service.lock clock.lockedAt) (.subscribe clock client)
      (service.subscribe clock client).2 := by
  refine .ofWithRoom fun room => ?_
  cases room.require client with
  | error error => exact .inl rfl
  | ok _ =>
    cases client with
    | owner => exact .inl rfl
    | guest session => exact .inr (.subscribe clock session)

theorem openAudioStream_step (service : Service) (clock : Clock) (session : GuestSession)
    (target : String) :
    ServiceStep hashes (service.lock clock.lockedAt) (.openAudioStream clock session target)
      (service.openAudioStream clock session target).2 := by
  simp only [openAudioStream]
  cases hroom : (service.lock clock.lockedAt).room with
  | none => exact .same _ _
  | some room =>
    dsimp only
    cases hguest : room.guests.lookup session.key with
    | none => exact .same _ _
    | some guest =>
      dsimp only
      cases hway : makeWay guest.audioStreams target with
      | none => exact .same _ _
      | some streams =>
        exact .room _ room _ _ hroom
          (.openAudioStream clock session target guest hguest streams hway _)

theorem joinRoom_step (room : Room) (timings : Timings) (clock : Clock) (token : String)
    (currentSession : Option String) (drawn : String) :
    (joinRoom room hashes clock token currentSession drawn).2 = room ∨
      RoomStep hashes timings (.join clock token currentSession drawn) room
        (joinRoom room hashes clock token currentSession drawn).2 := by
  rw [joinRoom]
  by_cases hinvite : room.inviteMatches hashes token = true
  · rw [if_pos hinvite]
    cases currentSession.filter (isCurrent hashes room) with
    | some current => exact .inl rfl
    | none =>
      by_cases hfull : room.guests.size ≥ room.state.maxGuests
      · exact .inl (by simp only [if_pos hfull])
      · simp only [if_neg hfull]
        exact .inr (.join clock token currentSession drawn (not_le.mp hfull))
  · rw [if_neg hinvite]
    exact .inl rfl

theorem join_step (service : Service) (clock : Clock) (token : String)
    (currentSession : Option String) (drawn : String) :
    ServiceStep hashes (service.lock clock.lockedAt) (.join clock token currentSession drawn)
      (service.join hashes clock token currentSession drawn).2 :=
  .ofWithRoom fun room => joinRoom_step room _ clock token currentSession drawn

theorem leave_step (service : Service) (clock : Clock) (session : GuestSession) :
    ServiceStep hashes (service.lock clock.lockedAt) (.leave clock session)
      (service.leave clock session).2 := by
  refine .ofWithRoom fun room => ?_
  cases room.guests.lookup session.key with
  | none => exact .inl rfl
  | some guest => exact .inr (.leave clock session)

theorem finishCommand_step {reply : Except RoomError RoomState} (clock : Clock) (client : Client)
    (command : ValidCommand)
    (hfinish : service.finishCommand clock client command.val = some (reply, next)) :
    ServiceStep hashes (service.lock clock.lockedAt)
      (.finishCommand clock client command) next := by
  simp only [finishCommand] at hfinish
  cases hroom : (service.lock clock.lockedAt).room with
  | none =>
    simp only [hroom] at hfinish
    cases hfinish
    exact .same _ _
  | some room =>
    simp only [hroom] at hfinish
    cases hrequire : room.require client with
    | error error =>
      simp only [hrequire] at hfinish
      cases hfinish
      exact .same _ _
    | ok _ =>
      simp only [hrequire] at hfinish
      obtain ⟨⟨changed, state⟩, happly, heq⟩ := Option.bind_eq_some_iff.mp hfinish
      cases heq
      exact .ofRoom hroom (.finishCommand clock client command changed state happly)

theorem sweep_step (service : Service) (clock : Clock) (generation : ℕ) :
    ServiceStep hashes (service.lock clock.lockedAt) (.sweep clock generation)
      (service.sweep clock generation).2 := by
  simp only [sweep]
  cases hroom : (service.lock clock.lockedAt).room with
  | none => exact .same _ _
  | some room =>
    dsimp only
    split_ifs with hgeneration
    · subst hgeneration
      exact .ofRoom hroom (.sweep clock)
    · exact .same _ _

/-- Any operation closes an expired Room, if it looks at the Room at all, and
then takes one of the steps above. -/
theorem step_spec (hstep : Step hashes service event next) :
    ∃ locked, (locked = service ∨ ∃ now, locked = service.lock now) ∧
      ServiceStep hashes locked event next := by
  cases event with
  | openRoom clock opening =>
    cases hstep
    rcases openRoom_step service clock opening with hkept | hlocked
    · exact ⟨service, .inl rfl, hkept⟩
    · exact ⟨_, .inr ⟨clock.lockedAt, rfl⟩, hlocked⟩
  | takeJoin clock =>
    cases hstep
    exact ⟨service, .inl rfl, .kept _ _⟩
  | finishCommand clock client command =>
    obtain ⟨⟨reply, after⟩, hfinish, rfl⟩ := Option.map_eq_some_iff.mp hstep
    exact ⟨_, .inr ⟨clock.lockedAt, rfl⟩, finishCommand_step clock client command hfinish⟩
  | close clock =>
    cases hstep
    exact ⟨_, .inr ⟨clock.lockedAt, rfl⟩, close_step service clock⟩
  | roomView clock client =>
    cases hstep
    exact ⟨_, .inr ⟨clock.lockedAt, rfl⟩, .ofWithRoom fun room => .inl rfl⟩
  | takeRead clock session budget =>
    cases hstep
    exact ⟨_, .inr ⟨clock.lockedAt, rfl⟩, takeRead_step service clock session budget⟩
  | openAudioStream clock session target =>
    cases hstep
    exact ⟨_, .inr ⟨clock.lockedAt, rfl⟩, openAudioStream_step service clock session target⟩
  | audioStreamEnded clock slot =>
    cases hstep
    exact ⟨_, .inr ⟨clock.lockedAt, rfl⟩,
      .ofUpdateGuest fun _ => .audioStreamEnded clock slot⟩
  | join clock token currentSession drawn =>
    cases hstep
    exact ⟨_, .inr ⟨clock.lockedAt, rfl⟩, join_step service clock token currentSession drawn⟩
  | authenticate clock sessionToken =>
    cases hstep
    exact ⟨_, .inr ⟨clock.lockedAt, rfl⟩, .same _ _⟩
  | leave clock session =>
    cases hstep
    exact ⟨_, .inr ⟨clock.lockedAt, rfl⟩, leave_step service clock session⟩
  | takeCommand clock client =>
    cases hstep
    exact ⟨_, .inr ⟨clock.lockedAt, rfl⟩, takeCommand_step service clock client⟩
  | subscribe clock client =>
    cases hstep
    exact ⟨_, .inr ⟨clock.lockedAt, rfl⟩, subscribe_step service clock client⟩
  | streamEnded clock presence =>
    cases hstep
    exact ⟨_, .inr ⟨clock.lockedAt, rfl⟩,
      .ofUpdateGuest fun _ => .streamEnded clock presence⟩
  | sweep clock generation =>
    cases hstep
    exact ⟨_, .inr ⟨clock.lockedAt, rfl⟩, sweep_step service clock generation⟩

end Service

end Harmony.ListenTogether
