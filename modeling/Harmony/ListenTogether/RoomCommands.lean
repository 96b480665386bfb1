/-
# Playing a Track in a Room

A client builds one command from the snapshot it holds and the list the Track was chosen
in. The server checks the command without looking at either, and applies it to whatever
the Room has become. What the client built passes the check, and the Room then plays the
chosen Track. Only Tracks that the library has enter a Room.
-/

import Harmony.ListenTogether.Sessions
import Mathlib.Data.List.Dedup

namespace Harmony.ListenTogether

/-! ### The client's command -/

namespace RoomCommands

/-- The contract's limit on one playTracks command, as the client has it. -/
def maxRoomQueueTracks : ℕ := 500

/-- A list longer than a Room Queue holds keeps what follows the Track. -/
def windowFrom (trackIds : List String) (index : ℕ) : Command :=
  if trackIds.length ≤ maxRoomQueueTracks then .playTracks trackIds index
  else .playTracks ((trackIds.drop index).take maxRoomQueueTracks) 0

/-- A Track missing from its context goes first, so the second call always knows its
index. -/
def playContext (trackId : String) (trackIds : List String) (knownIndex : Option ℕ) : Command :=
  match knownIndex.or (trackIds.idxOf? trackId) with
  | some index => windowFrom trackIds index
  | none => windowFrom (trackId :: trackIds) 0

/-- The command for playing a library Track in a Room: with a context it becomes the Room
Queue; alone, the Track plays next in the Room Queue, or from its place there. -/
def playTrackCommand (room : RoomState) (trackId : String) (queueTrackIds : Option (List String)) :
    Command :=
  match queueTrackIds with
  | some queue => playContext trackId queue none
  | none =>
    match room.trackIds.idxOf? trackId with
    | some queuedIndex => .playTracks room.trackIds queuedIndex
    | none =>
      let insertAt := (room.currentIndex.map (· + 1)).getD 0
      -- As `splice`, which inserts at the end when the place is past it.
      let trackIds := room.trackIds.take insertAt ++ trackId :: room.trackIds.drop insertAt
      playContext trackId trackIds (some insertAt)

/-- The command starts this Track, and nothing the server checks speaks against it. -/
structure Plays (command : Command) (trackId : String) : Prop where
  valid : command.validate = .ok ()
  starts : ∃ trackIds index, command = .playTracks trackIds index ∧ trackIds[index]? = some trackId

variable {trackId : String} {trackIds : List String} {index : ℕ}

theorem plays_of_getElem (hlength : trackIds.length ≤ ListenTogether.maxRoomQueueTracks)
    (htrack : trackIds[index]? = some trackId) : Plays (.playTracks trackIds index) trackId where
  valid := Command.validate_playTracks.mpr ⟨hlength, (List.getElem?_eq_some_iff.mp htrack).1⟩
  starts := ⟨trackIds, index, rfl, htrack⟩

/-- Client and server agree on the limit, and a window that begins with the Track has it
at its start. -/
theorem windowFrom_plays (htrack : trackIds[index]? = some trackId) :
    Plays (windowFrom trackIds index) trackId := by
  rw [windowFrom]
  by_cases hfits : trackIds.length ≤ maxRoomQueueTracks
  · rw [if_pos hfits]
    exact plays_of_getElem hfits htrack
  · rw [if_neg hfits]
    apply plays_of_getElem
    · exact (List.length_take_le _ _)
    · rw [List.getElem?_take_of_lt (by decide), List.getElem?_drop, Nat.add_zero]
      exact htrack

theorem getElem_of_idxOf (hindex : trackIds.idxOf? trackId = some index) :
    trackIds[index]? = some trackId := by
  obtain ⟨hlt, hsame, -⟩ := List.idxOf?_eq_some_iff.mp hindex
  rw [List.getElem?_eq_getElem hlt]
  simpa using hsame

theorem playContext_plays (trackId : String) (trackIds : List String) :
    Plays (playContext trackId trackIds none) trackId := by
  rw [playContext, Option.none_or]
  cases hindex : trackIds.idxOf? trackId with
  | some index => exact windowFrom_plays (getElem_of_idxOf hindex)
  | none => exact windowFrom_plays List.getElem?_cons_zero

theorem playContext_known_plays (hknown : trackIds[index]? = some trackId) :
    Plays (playContext trackId trackIds (some index)) trackId := by
  rw [playContext, Option.some_or]
  exact windowFrom_plays hknown

/-- Inserted behind the current Track, the Track is at the place it was inserted at. -/
theorem getElem_inserted (hindex : index ≤ trackIds.length) :
    (trackIds.take index ++ trackId :: trackIds.drop index)[index]? = some trackId := by
  have hlength : (trackIds.take index).length = index := List.length_take_of_le hindex
  rw [List.getElem?_append_right hlength.le, hlength, Nat.sub_self]
  exact List.getElem?_cons_zero

end RoomCommands

namespace RoomState

variable {room next : RoomState}

/-! ### The server's Room -/

/-- What every Room State satisfies; its Queue is no longer than a command may carry. -/
structure Invariant (room : RoomState) : Prop where
  wellFormed : room.WellFormed
  queue : room.trackIds.length ≤ maxRoomQueueTracks

theorem skip_trackIds {direction : SkipDirection} {fromTrackId : Option String}
    {fromIndex : Option ℕ} {nowMs : ℤ} {changed : Bool}
    (hskip : room.skip direction fromTrackId fromIndex nowMs = some (changed, next)) :
    next.trackIds = room.trackIds := by
  rw [skip] at hskip
  cases hcurrent : room.currentIndex with
  | none =>
    simp only [hcurrent] at hskip
    cases hskip
    rfl
  | some index =>
    simp only [hcurrent] at hskip
    obtain ⟨stale, -, hskip⟩ := Option.bind_eq_some_iff.mp hskip
    -- A stale report, both ends of the Queue and both directions.
    cases stale with
    | true =>
      cases hskip
      rfl
    | false =>
      cases direction with
      | previous =>
        cases hskip
        rfl
      | next =>
        simp only [Bool.false_eq_true, if_false] at hskip
        split_ifs at hskip
        · cases hskip
          rfl
        · cases hskip
          rfl
        · cases hskip
          rfl

/-- Only a new Queue changes the Queue. -/
theorem change_trackIds {command : Command} {nowMs : ℤ} {changed : Bool}
    (hchange : room.change command nowMs = some (changed, next)) :
    next.trackIds = room.trackIds ∨ ∃ index, command = .playTracks next.trackIds index := by
  cases command with
  | playTracks trackIds index =>
    cases hchange
    exact .inr ⟨index, rfl⟩
  | skip direction fromTrackId fromIndex => exact .inl (skip_trackIds hchange)
  | resume =>
    simp only [change] at hchange
    split_ifs at hchange <;> cases hchange <;>
      exact .inl rfl
  | pause =>
    simp only [change] at hchange
    split_ifs at hchange <;> cases hchange <;>
      exact .inl rfl
  | seek positionMs =>
    simp only [change] at hchange
    split_ifs at hchange <;> cases hchange <;>
      exact .inl rfl
  | setLyricsOpen isOpen =>
    simp only [change] at hchange
    split_ifs at hchange <;> cases hchange <;>
      exact .inl rfl

theorem Invariant.step {event : Event} (h : room.Invariant) (hstep : Step room event next) :
    next.Invariant where
  wellFormed := hstep.wellFormed h.wellFormed
  queue := by
    cases hstep with
    | setGuestCount guestCount => exact h.queue
    | @command _ command nowMs changed happly =>
      obtain ⟨⟨changed', after⟩, hchange, heq⟩ := Option.bind_eq_some_iff.mp happly
      obtain ⟨rfl, rfl⟩ := Prod.mk.inj (Option.some.inj heq)
      have hqueue : (if changed' then after.raiseRevision else after).trackIds =
          after.trackIds := by
        cases changed' with
        | false => rfl
        | true => rfl
      rw [hqueue]
      rcases change_trackIds hchange with hsame | ⟨index, hcommand⟩
      · rw [hsame]
        exact h.queue
      · have hvalid := command.property
        rw [hcommand] at hvalid
        exact (Command.validate_playTracks.mp hvalid).1

theorem Reachable.holds (h : room.Reachable) : room.Invariant := by
  refine Transition.Reachable.invariant ?_ (fun _ _ _ hroom hstep => hroom.step hstep) h
  rintro _ ⟨maxGuests, expiresAt, nowMs, rfl⟩
  exact ⟨wellFormed_new maxGuests expiresAt nowMs, Nat.zero_le _⟩

end RoomState

namespace RoomCommands

variable {room : RoomState} {trackId : String}

theorem playTrackCommand_plays (h : room.Invariant) (trackId : String)
    (queueTrackIds : Option (List String)) :
    Plays (playTrackCommand room trackId queueTrackIds) trackId := by
  cases queueTrackIds with
  | some queue => exact playContext_plays trackId queue
  | none =>
    simp only [playTrackCommand]
    cases hqueued : room.trackIds.idxOf? trackId with
    | some queuedIndex => exact plays_of_getElem h.queue (getElem_of_idxOf hqueued)
    | none =>
      apply playContext_known_plays
      apply getElem_inserted
      cases hcurrent : room.currentIndex with
      | none => exact Nat.zero_le _
      | some index => exact h.wellFormed.index_lt index hcurrent

/-- Applied to any Room, a command that plays the Track makes it the current one. -/
theorem Plays.apply {command : Command} (h : Plays command trackId) (server : RoomState)
    (nowMs : ℤ) : ∃ next index, server.apply command nowMs = some (true, next) ∧
      next.currentIndex = some index ∧ next.trackIds[index]? = some trackId ∧
      next.playing = true := by
  obtain ⟨trackIds, index, rfl, htrack⟩ := h.starts
  exact ⟨_, index, rfl, rfl, htrack, rfl⟩

/-- Whatever list a Track was chosen in, the command built from any snapshot of a Room
passes the check, and whatever the Room has become meanwhile, it plays the Track then. -/
theorem play_request_accepted :
    (∀ room : RoomState, room.Reachable → room.Invariant) ∧
    ∀ (room : RoomState), room.Invariant →
      ∀ (trackId : String) (queueTrackIds : Option (List String)),
        (playTrackCommand room trackId queueTrackIds).validate = .ok () ∧
        ∀ (server : RoomState) (nowMs : ℤ), ∃ next index,
          server.apply (playTrackCommand room trackId queueTrackIds) nowMs = some (true, next) ∧
          next.currentIndex = some index ∧ next.trackIds[index]? = some trackId ∧
          next.playing = true := by
  constructor
  · intro room hreachable
    exact hreachable.holds
  · intro room hroom trackId queueTrackIds
    have hplays := playTrackCommand_plays hroom trackId queueTrackIds
    exact ⟨hplays.valid, hplays.apply⟩

/-- A lone Track goes behind the one that plays. -/
theorem startedRoom_plays : (Command.playTracks ["a", "c", "b"] 1).validate = .ok () :=
  (play_request_accepted.2 RoomState.startedRoom
    (play_request_accepted.1 _ RoomState.startedRoom_reachable) "c" none).1

end RoomCommands

/-! ### Tracks that enter a Room -/

/-- Every Track in the Queue is in the library. -/
def Service.Stocked (library : Set String) (service : Service) : Prop :=
  ∀ room, service.room = some room → ∀ trackId ∈ room.state.trackIds, trackId ∈ library

variable {hashes : Hashes} {library : Set String} {service next : Service} {event : ServiceEvent}

theorem RoomStep.stocked {timings : Timings} {room room' : Room}
    (h : RoomStep hashes timings event room room') (hevent : event.Stocked library)
    (hroom : ∀ trackId ∈ room.state.trackIds, trackId ∈ library) :
    ∀ trackId ∈ room'.state.trackIds, trackId ∈ library := by
  cases h with
  | finishCommand clock client command changed state happly =>
    obtain ⟨⟨changed', state'⟩, hchange, heq⟩ := Option.bind_eq_some_iff.mp happly
    obtain ⟨rfl, rfl⟩ := Prod.mk.inj (Option.some.inj heq)
    have hqueue : ∀ trackId ∈ state'.trackIds, trackId ∈ library := by
      rcases RoomState.change_trackIds hchange with hsame | ⟨index, hplay⟩
      · exact hsame ▸ hroom
      · exact hevent _ index hplay
    cases changed' <;> exact hqueue
  | sweep clock =>
    rw [Service.sweepRoom]
    split_ifs <;> exact hroom
  | _ => exact hroom

theorem ServiceStep.stocked (h : ServiceStep hashes service event next)
    (hevent : event.Stocked library) (hservice : service.Stocked library) :
    next.Stocked library := by
  cases h with
  | kept event joins => exact hservice
  | opened clock opening publicOrigin hnone =>
    rintro _ ⟨rfl⟩
    simp [Service.newRoom, RoomState.new]
  | closed clock room hroom => exact fun _ hopen => by cases hopen
  | room event room next nextAudioStream hroom hstep =>
    rintro _ ⟨rfl⟩
    exact hstep.stocked hevent (hservice room hroom)

/-- Whatever operations and commands are interleaved with a command, every Track in the Room
after it is one that the library has found. -/
theorem Service.only_library_tracks_enter {client : Client} {command : Command}
    {takenAt finishedAt : Clock} {lookup : String → TrackLookup}
    {order : List String → List String} {between : Service → Service}
    {reply : Except RoomError RoomState}
    (h : Transition.Reachable Init (StockedStep hashes library) service)
    (hbetween : ∀ s : Service, ∃ events,
      Transition.Run (StockedStep hashes library) s events (between s))
    (hfound : ∀ trackId, lookup trackId = .found → trackId ∈ library)
    (horder : ∀ trackIds, trackIds ⊆ order trackIds.dedup)
    (hcommand : service.command client command takenAt lookup order between finishedAt =
      some (reply, next)) :
    Transition.Reachable Init (StockedStep hashes library) next ∧ next.Stocked library := by
  obtain ⟨events, hrun⟩ := command_run hbetween hfound horder hcommand
  refine ⟨h.run hrun, Transition.Reachable.invariant ?_ ?_ (h.run hrun)⟩
  · rintro _ ⟨_, _, _, _, rfl⟩ room hroom
    cases hroom
  · rintro before event after hbefore ⟨hstep, hevent⟩
    obtain ⟨locked, rfl | ⟨now, rfl⟩, hlocked⟩ := step_spec hstep
    · exact hlocked.stocked hevent hbefore
    · refine hlocked.stocked hevent fun room hroom => ?_
      rcases room_lock before now with hsame | hnone
      · exact hbefore room (hsame ▸ hroom)
      · simp [hnone] at hroom

/-- The Owner plays a Track of the library in the Room of `joinedService`. -/
theorem Service.joinedService_stocked :
    ((joinedService.command .owner (.playTracks ["a"] 0) (clockAt 3)
      (fun id => if id = "a" then .found else .notFound) id id (clockAt 4)).get
        (by decide +kernel)).2.Stocked {"a"} := by
  have hreachable : Transition.Reachable Init (StockedStep plainHashes {"a"}) joinedService :=
    ⟨_, [.openRoom (clockAt 1) sampleOpening, .join (clockAt 2) "token" none "session"],
      ⟨some "https://music.example", 8, ⟨1000, 60⟩, 0, rfl⟩,
      .cons ⟨rfl, trivial⟩ (.cons ⟨rfl, trivial⟩ (.nil _))⟩
  exact (only_library_tracks_enter hreachable (fun s => ⟨[], .nil s⟩) (by simp)
    List.subset_dedup (Option.some_get _).symm).2

end Harmony.ListenTogether
