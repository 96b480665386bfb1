/-
# Who is in a Room, and what its streams were told

The Guests, the Room State and the feed of its event streams are changed by
different operations. They agree after every one of them: the Room State counts
the Guests, the feed's newest snapshot is the Room State, and each snapshot has
a greater revision than all before it. A revision therefore names one snapshot
of its Room, also after the Room has ended.
-/

import Harmony.ListenTogether.Steps

namespace Harmony.ListenTogether

/-! ### One Room -/

/-- A later entry of a feed has the greater revision; the end has none. -/
def Feed.Supersedes : Feed → Feed → Prop
  | .state newer, .state older => older.revision < newer.revision
  | _, _ => True

/-- Newest first, every entry supersedes all before it. -/
def OrderedFeed (feed : List Feed) : Prop := feed.Pairwise Feed.Supersedes

variable {feed : List Feed}

theorem OrderedFeed.closed (h : OrderedFeed feed) :
    OrderedFeed (.closed :: feed) :=
  List.Pairwise.cons (fun _ _ => trivial) h

/-- In an ordered feed a revision names one snapshot. -/
theorem OrderedFeed.snapshot_unique (h : OrderedFeed feed) {first second : RoomState}
    (hfirst : .state first ∈ feed) (hsecond : .state second ∈ feed)
    (hrevision : first.revision = second.revision) : first = second := by
  induction feed with
  | nil => simp at hfirst
  | cons entry feed ih =>
    obtain ⟨hnewer, hrest⟩ := List.pairwise_cons.mp h
    rcases List.mem_cons.mp hfirst with rfl | hfirstOlder
    · rcases List.mem_cons.mp hsecond with hsame | hsecondOlder
      · exact (Feed.state.inj hsame).symm
      · have hlt : second.revision < first.revision := hnewer _ hsecondOlder
        omega
    · rcases List.mem_cons.mp hsecond with rfl | hsecondOlder
      · have hlt : first.revision < second.revision := hnewer _ hfirstOlder
        omega
      · exact ih hrest hfirstOlder hsecondOlder

namespace Room

variable {room : Room} {next : Room}

/-- The Guests, the Room State and the feed agree. -/
structure Consistent (room : Room) : Prop where
  wellFormed : room.state.WellFormed
  guestCount : room.state.guestCount = room.guests.size
  limit : room.guests.size ≤ room.state.maxGuests
  noInvite : room.state.inviteUrl = none
  newest : ∃ older, room.channels.feed = .state room.state :: older
  ordered : OrderedFeed room.channels.feed

/-- What does not touch the Room State, the feed and the number of Guests keeps
a Room consistent. -/
theorem Consistent.congr (h : room.Consistent) (hstate : next.state = room.state)
    (hfeed : next.channels.feed = room.channels.feed)
    (hsize : next.guests.size = room.guests.size) : next.Consistent where
  wellFormed := by rw [hstate]; exact h.wellFormed
  guestCount := by rw [hstate, hsize]; exact h.guestCount
  limit := by rw [hstate, hsize]; exact h.limit
  noInvite := by rw [hstate]; exact h.noInvite
  newest := by rw [hstate, hfeed]; exact h.newest
  ordered := by rw [hfeed]; exact h.ordered

/-- A snapshot with a greater revision may be published. -/
theorem Consistent.publish (h : room.Consistent) (hfeed : next.channels.feed = room.channels.feed)
    (hrevision : room.state.revision < next.state.revision) (hwell : next.state.WellFormed)
    (hcount : next.state.guestCount = next.guests.size)
    (hlimit : next.guests.size ≤ next.state.maxGuests) (hinvite : next.state.inviteUrl = none) :
    next.publish.Consistent where
  wellFormed := hwell
  guestCount := hcount
  limit := hlimit
  noInvite := hinvite
  newest := ⟨_, rfl⟩
  ordered := by
    obtain ⟨older, hnewest⟩ := h.newest
    have hordered := h.ordered
    rw [hnewest] at hordered
    obtain ⟨hcurrent, -⟩ := List.pairwise_cons.mp hordered
    refine List.Pairwise.cons ?_ (by rw [hfeed]; exact h.ordered)
    intro entry hentry
    rw [hfeed, hnewest] at hentry
    rcases List.mem_cons.mp hentry with rfl | hentry
    · exact hrevision
    · cases entry with
      | closed => trivial
      | state old =>
        have hold : old.revision < room.state.revision := hcurrent _ hentry
        exact hold.trans hrevision

/-- Guests may come and go, up to the limit, when the count is published. -/
theorem Consistent.publishGuestCount (h : room.Consistent) (hstate : next.state = room.state)
    (hfeed : next.channels.feed = room.channels.feed)
    (hlimit : next.guests.size ≤ room.state.maxGuests) : next.publishGuestCount.Consistent := by
  refine Consistent.publish h hfeed ?_ ?_ rfl ?_ ?_
  · simp [RoomState.setGuestCount, RoomState.raiseRevision, hstate]
  · rw [hstate]
    exact h.wellFormed.setGuestCount _
  · rw [hstate]
    exact hlimit
  · rw [hstate]
    exact h.noInvite

/-- Changing one Guest in place keeps everything that is published. -/
theorem Consistent.modifyGuest (h : room.Consistent) (key : String) (change : Guest → Guest) :
    { room with guests := room.guests.modify key change }.Consistent :=
  h.congr rfl rfl (Table.size_modify change)

/-- What a command changed in the Room State is published. -/
theorem Consistent.apply {command : ValidCommand} {nowMs : ℤ} {changed : Bool} {state : RoomState}
    (h : room.Consistent) (happly : room.state.apply command.val nowMs = some (changed, state)) :
    (if changed then { room with state := state }.publish
      else { room with state := state }).Consistent ∧
      state.maxGuests = room.state.maxGuests := by
  obtain ⟨_, _, hsome, hout, hrevision⟩ := RoomState.apply_outcome h.wellFormed command nowMs
  cases happly.symm.trans hsome
  refine ⟨?_, hout.maxGuests⟩
  cases changed with
  | false => exact h.congr (hout.unchanged rfl) rfl rfl
  | true =>
    refine h.publish rfl ?_ hout.wellFormed ?_ ?_ ?_
    · simp [hrevision]
    · exact hout.guestCount.trans h.guestCount
    · exact h.limit.trans_eq hout.maxGuests.symm
    · exact hout.inviteUrl.trans h.noInvite

/-- A sweep publishes exactly when it removed a Guest. -/
theorem Consistent.sweepRoom (h : room.Consistent) (timings : Timings) (now : Instant) :
    (Service.sweepRoom timings now room).Consistent ∧
      (Service.sweepRoom timings now room).state.maxGuests = room.state.maxGuests := by
  simp only [Service.sweepRoom]
  split_ifs with hremoved
  · exact ⟨h.publishGuestCount rfl rfl ((Table.size_rewrite_le _).trans h.limit), rfl⟩
  · exact ⟨h.congr rfl rfl (not_ne_iff.mp hremoved), rfl⟩

/-- Every step of an open Room keeps it consistent and its limit. -/
theorem Consistent.step {hashes : Hashes} {timings : Timings} {event : ServiceEvent}
    (h : room.Consistent) (hstep : RoomStep hashes timings event room next) :
    next.Consistent ∧ next.state.maxGuests = room.state.maxGuests := by
  cases hstep with
  | ownerCommand clock => exact ⟨h.congr rfl rfl rfl, rfl⟩
  | guestCommand clock session guest hguest => exact ⟨h.modifyGuest _ _, rfl⟩
  | takeRead clock session budget guest hguest => exact ⟨h.modifyGuest _ _, rfl⟩
  | openAudioStream clock session target guest hguest streams hway id =>
    exact ⟨h.modifyGuest _ _, rfl⟩
  | audioStreamEnded clock slot hgeneration => exact ⟨h.modifyGuest _ _, rfl⟩
  | subscribe clock session => exact ⟨h.modifyGuest _ _, rfl⟩
  | streamEnded clock presence hgeneration => exact ⟨h.modifyGuest _ _, rfl⟩
  | join clock token currentSession drawn hplace =>
    refine ⟨h.publishGuestCount rfl rfl ?_, rfl⟩
    exact (Table.size_insert_le _ _ room.guests).trans hplace
  | leave clock session =>
    refine ⟨h.publishGuestCount rfl rfl ?_, rfl⟩
    exact (Table.size_erase_le session.key).trans h.limit
  | finishCommand clock client command changed state happly =>
    obtain ⟨hnext, hlimit⟩ := h.apply happly
    exact ⟨hnext, by cases changed <;> exact hlimit⟩
  | sweep clock => exact h.sweepRoom timings clock.now

end Room

/-! ### The service -/

namespace Service

variable {service : Service} {hashes : Hashes}

/-- The open Room is consistent, and the feeds of ended Rooms stay ordered. -/
structure Consistent (service : Service) : Prop where
  room : ∀ room, service.room = some room → room.Consistent
  limit : ∀ room, service.room = some room → room.state.maxGuests = service.maxGuests
  ended : ∀ entry ∈ service.ended, OrderedFeed entry.2.feed

theorem consistent_new (publicOrigin : Option String) (maxGuests : ℕ) (timings : Timings)
    (now : Instant) : (new publicOrigin maxGuests timings now).Consistent where
  room := by simp [new]
  limit := by simp [new]
  ended := by simp [new]

theorem Consistent.endRoom (h : service.Consistent) {room : Room}
    (hroom : service.room = some room) :
    (service.endRoom room).Consistent where
  room := by simp [Service.endRoom]
  limit := by simp [Service.endRoom]
  ended := by
    intro entry hentry
    rcases List.mem_cons.mp hentry with rfl | hentry
    · exact (h.room room hroom).ordered.closed
    · exact h.ended entry hentry

theorem Consistent.lock (h : service.Consistent) (now : Instant) :
    (service.lock now).Consistent := by
  rw [Service.lock]
  split
  · rename_i room hroom
    split_ifs
    · exact h.endRoom hroom
    · exact h
  · exact h

theorem Consistent.step {event : ServiceEvent} {next : Service} (h : service.Consistent)
    (hstep : ServiceStep hashes service event next) : next.Consistent := by
  cases hstep with
  | kept event joins => exact ⟨h.room, h.limit, h.ended⟩
  | opened clock opening publicOrigin hroom =>
    refine ⟨?_, ?_, h.ended⟩
    · rintro _ ⟨rfl⟩
      exact ⟨RoomState.wellFormed_new _ _ _, rfl, Nat.zero_le _, rfl, ⟨[], rfl⟩,
        List.pairwise_singleton _ _⟩
    · rintro _ ⟨rfl⟩
      rfl
  | closed clock room hroom => exact h.endRoom hroom
  | room event room next nextAudioStream hroom hstep =>
    obtain ⟨hnext, hlimit⟩ := (h.room room hroom).step hstep
    refine ⟨?_, ?_, h.ended⟩
    · rintro _ ⟨rfl⟩
      exact hnext
    · rintro _ ⟨rfl⟩
      exact hlimit.trans (h.limit room hroom)

/-- A command that passed validation returns: nothing panics. -/
theorem Consistent.perform_isSome (h : service.Consistent) (event : ServiceEvent) :
    (service.perform hashes event).isSome := by
  cases event with
  | finishCommand clock client command =>
    have hlocked := h.lock clock.lockedAt
    simp only [perform, finishCommand, Option.isSome_map]
    cases hroom : (service.lock clock.lockedAt).room with
    | none => rfl
    | some room =>
      dsimp only
      cases room.require client with
      | error error => rfl
      | ok _ =>
        obtain ⟨changed, state, happly, -⟩ :=
          RoomState.apply_outcome (hlocked.room room hroom).wellFormed command clock.nowMs
        simp only [happly]
        rfl
  | _ => rfl

theorem Reachable.consistent (h : service.Reachable hashes) : service.Consistent := by
  refine Transition.Reachable.invariant ?_ ?_ h
  · rintro _ ⟨publicOrigin, maxGuests, timings, now, rfl⟩
    exact consistent_new publicOrigin maxGuests timings now
  · intro before event after hbefore hstep
    obtain ⟨locked, rfl | ⟨now, rfl⟩, hlocked⟩ := step_spec hstep
    · exact hbefore.step hlocked
    · exact (hbefore.lock now).step hlocked

/-- The feeds of the open Room and of all Rooms before it. -/
def feeds (service : Service) : List (List Feed) :=
  (service.room.map fun room => room.channels.feed).toList ++
    service.ended.map fun entry => entry.2.feed

theorem Consistent.feed_ordered (h : service.Consistent) (hfeed : feed ∈ service.feeds) :
    OrderedFeed feed := by
  rcases List.mem_append.mp hfeed with hopen | hended
  · obtain ⟨room, hroom, rfl⟩ := Option.map_eq_some_iff.mp (Option.mem_toList.mp hopen)
    exact (h.room room hroom).ordered
  · obtain ⟨entry, hentry, rfl⟩ := List.mem_map.mp hended
    exact h.ended entry hentry

/-- Whatever operations ran in whatever order: an open Room counts its Guests,
keeps to its limit, and its feed's newest snapshot is its state, which is also
what a client is answered. In the feed of every Room each snapshot has a greater
revision than all before it, so a revision names one snapshot; and no operation
panics. -/
theorem reachable_membership (h : service.Reachable hashes) :
    (∀ room, service.room = some room →
      room.state.guestCount = room.guests.size ∧
      room.guests.size ≤ room.state.maxGuests ∧
      room.state.maxGuests = service.maxGuests ∧
      room.channels.feed.head? = some (.state room.state) ∧
      ∀ client, { room.view client with inviteUrl := none } = room.state) ∧
    (∀ feed ∈ service.feeds,
      feed.Pairwise Feed.Supersedes ∧
      ∀ first second, .state first ∈ feed → .state second ∈ feed →
        first.revision = second.revision → first = second) ∧
    ∀ event, (service.perform hashes event).isSome := by
  have hservice := h.consistent
  refine ⟨fun room hroom => ?_, fun feed hfeed => ?_, fun event => ?_⟩
  · have hmember := hservice.room room hroom
    obtain ⟨older, hnewest⟩ := hmember.newest
    refine ⟨hmember.guestCount, hmember.limit, hservice.limit room hroom, by rw [hnewest]; rfl, ?_⟩
    intro client
    have hinvite : { room.state with inviteUrl := none } = room.state := by
      rw [← hmember.noInvite]
    cases client with
    | owner => exact hinvite
    | guest session => exact hinvite
  · have hordered := hservice.feed_ordered hfeed
    exact ⟨hordered, fun _ _ => hordered.snapshot_unique⟩
  · exact hservice.perform_isSome event

/-- Hashes that keep what they hash. -/
def plainHashes : Hashes where
  sessionKey token := token
  inviteMac key token := key.toUTF8.data.toList ++ token.toUTF8.data.toList

def clockAt (now : ℕ) : Clock := ⟨now, now, now⟩

def sampleOpening : Opening := ⟨"token", "key", "2026-10-31T00:00:00Z"⟩

/-- A Room with one Guest. -/
def joinedService : Service :=
  (((new (some "https://music.example") 8 ⟨1000, 60⟩ 0).openRoom plainHashes (clockAt 1)
    sampleOpening).2.join plainHashes (clockAt 2) "token" none "session").2

theorem joinedService_reachable : joinedService.Reachable plainHashes :=
  ⟨_, [.openRoom (clockAt 1) sampleOpening, .join (clockAt 2) "token" none "session"],
    ⟨some "https://music.example", 8, ⟨1000, 60⟩, 0, rfl⟩, .cons rfl (.cons rfl (.nil _))⟩

theorem joinedService_membership :
    ∃ room, joinedService.room = some room ∧ room.state.guestCount = room.guests.size := by
  have hopen : joinedService.room.isSome = true := by decide
  obtain ⟨room, hroom⟩ := Option.isSome_iff_exists.mp hopen
  exact ⟨room, hroom, ((reachable_membership joinedService_reachable).1 room hroom).1⟩

end Service

end Harmony.ListenTogether
