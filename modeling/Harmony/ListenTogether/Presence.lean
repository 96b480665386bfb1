/-
# How long a Guest keeps their place

A Guest's place is kept while one of their event streams is open and for a grace
after. The service only counts: up when a stream subscribes, down in a destructor
that may run when the Guest, or the whole Room, is long gone. Beside the service
stand the streams that are still alive and the moments at which each session was
filed or lost a stream. The count is that of the streams alive, so a sweep keeps
exactly the Guests who have one or lost their last less than the grace ago.
-/

import Harmony.ListenTogether.Sessions

namespace Harmony.ListenTogether

open Service

/-! ### The streams that are alive -/

/-- The service, the Guests' event streams that have not been dropped, and the
moments at which a session joined or one of its streams ended, newest first. -/
structure Attended where
  service : Service
  streams : List Presence
  moments : List (Presence × Instant)

namespace Attended

/-- The last moment at which the session joined or lost a stream. -/
def quietSince (a : Attended) (presence : Presence) : Option Instant :=
  (a.moments.find? fun moment => moment.1 == presence).map Prod.snd

/-- A join under a newly drawn token is a moment of the session it files. -/
def noteJoin (hashes : Hashes) (a : Attended) (clock : Clock) (drawn : String) :
    Except RoomError Joined × Service → Attended
  | (.ok joined, service) =>
    let moments := if joined.sessionToken = drawn then
        (service.room.map fun room =>
          (⟨room.generation, hashes.sessionKey drawn⟩, clock.now)).toList ++ a.moments
      else a.moments
    { a with service, moments }
  | (.error _, service) => { a with service }

/-- A stream that subscribed is alive. -/
def noteSubscribe (a : Attended) : Except RoomError Subscription × Service → Attended
  | (.ok subscription, service) =>
    { a with service, streams := subscription.presence.toList ++ a.streams }
  | (.error _, service) => { a with service }

/-- One operation. A stream is dropped once. -/
def perform (hashes : Hashes) (a : Attended) : ServiceEvent → Option Attended
  | .join clock token currentSession drawn =>
    some (a.noteJoin hashes clock drawn (a.service.join hashes clock token currentSession drawn))
  | .subscribe clock client => some (a.noteSubscribe (a.service.subscribe clock client))
  | .streamEnded clock presence =>
    if presence ∈ a.streams then
      some
        { service := a.service.streamEnded clock presence
          streams := a.streams.erase presence
          moments := (presence, clock.now) :: a.moments }
    else none
  | event => (a.service.perform hashes event).map fun service => { a with service }

def Step (hashes : Hashes) (a : Attended) (event : ServiceEvent) (b : Attended) : Prop :=
  a.perform hashes event = some b

/-- The service as it starts, without a stream. -/
def Init (a : Attended) : Prop := Service.Init a.service ∧ a.streams = [] ∧ a.moments = []

/-! ### The count -/

/-- What one Guest's counters say. -/
structure CountsGuest (a : Attended) (presence : Presence) (guest : Guest) : Prop where
  count : guest.openStreams = a.streams.count presence
  quiet : guest.openStreams = 0 → a.quietSince presence = some guest.disconnectedAt

/-- The counters of the open Room, with the session keys drawn so far. -/
structure Counts (a : Attended) (drawn : List String) : Prop where
  guests : ∀ room key guest, a.service.room = some room → room.guests.lookup key = some guest →
    a.CountsGuest ⟨room.generation, key⟩ guest ∧ key ∈ drawn
  generation : ∀ room, a.service.room = some room → room.generation < a.service.nextGeneration
  streams : ∀ presence ∈ a.streams,
    presence.generation < a.service.nextGeneration ∧ presence.key ∈ drawn

end Attended

/-! ### Operations that keep every place as it is -/

/-- The Guest has the same counters. -/
def SameCounters (guest guest' : Guest) : Prop :=
  guest'.openStreams = guest.openStreams ∧ guest'.disconnectedAt = guest.disconnectedAt

/-- Every Guest of the second service was one of the first in the same Room, with
the same counters. -/
structure KeepsPlaces (service next : Service) : Prop where
  nextGeneration : service.nextGeneration ≤ next.nextGeneration
  generation : ∀ room', next.room = some room' → room'.generation < next.nextGeneration ∨
    ∃ room, service.room = some room ∧ room.generation = room'.generation
  guests : ∀ room' key guest', next.room = some room' → room'.guests.lookup key = some guest' →
    ∃ room guest, service.room = some room ∧ room.generation = room'.generation ∧
      room.guests.lookup key = some guest ∧ SameCounters guest guest'

variable {service next : Service}

theorem KeepsPlaces.of_room (hnext : next.nextGeneration = service.nextGeneration)
    (hroom : next.room = service.room) :
    KeepsPlaces service next where
  nextGeneration := hnext.ge
  generation room' h := .inr ⟨room', hroom ▸ h, rfl⟩
  guests room' _ guest' h hguest := ⟨room', guest', hroom ▸ h, rfl, hguest, rfl, rfl⟩

theorem KeepsPlaces.of_none (hnext : service.nextGeneration ≤ next.nextGeneration)
    (hroom : next.room = none) :
    KeepsPlaces service next where
  nextGeneration := hnext
  generation room' h := by simp [hroom] at h
  guests room' _ _ h := by simp [hroom] at h

theorem KeepsPlaces.trans {first second third : Service} (h : KeepsPlaces first second)
    (h' : KeepsPlaces second third) : KeepsPlaces first third where
  nextGeneration := h.nextGeneration.trans h'.nextGeneration
  generation room₃ h₃ := by
    rcases h'.generation room₃ h₃ with hlt | ⟨room₂, h₂, hgeneration⟩
    · exact .inl hlt
    · rcases h.generation room₂ h₂ with hlt | ⟨room₁, h₁, hgeneration'⟩
      · exact .inl (hgeneration ▸ hlt.trans_le h'.nextGeneration)
      · exact .inr ⟨room₁, h₁, hgeneration'.trans hgeneration⟩
  guests room₃ key guest₃ h₃ hguest₃ := by
    obtain ⟨room₂, guest₂, h₂, hgeneration, hguest₂, hcount, hquiet⟩ :=
      h'.guests room₃ key guest₃ h₃ hguest₃
    obtain ⟨room₁, guest₁, h₁, hgeneration', hguest₁, hcount', hquiet'⟩ :=
      h.guests room₂ key guest₂ h₂ hguest₂
    exact ⟨room₁, guest₁, h₁, hgeneration'.trans hgeneration, hguest₁, hcount.trans hcount',
      hquiet.trans hquiet'⟩

theorem lock_keepsPlaces (service : Service) (now : Instant) :
    KeepsPlaces service (service.lock now) := by
  rw [lock]
  split
  · split_ifs
    · exact .of_none le_rfl rfl
    · exact .of_room rfl rfl
  · exact .of_room rfl rfl

/-- The operations that count no stream and file no Guest. -/
def countsNothing : ServiceEvent → Bool
  | .join .. | .subscribe .. | .streamEnded .. => false
  | _ => true

theorem lookup_modify_sameCounters {guests : Table String Guest} {key key' : String}
    {change : Guest → Guest} {guest' : Guest}
    (h : (guests.modify key' change).lookup key = some guest')
    (hchange : ∀ guest, SameCounters guest (change guest)) :
    ∃ guest, guests.lookup key = some guest ∧ SameCounters guest guest' := by
  rw [Table.lookup_modify] at h
  split_ifs at h
  · obtain ⟨guest, hguest, rfl⟩ := Option.map_eq_some_iff.mp h
    exact ⟨guest, hguest, hchange guest⟩
  · exact ⟨guest', h, rfl, rfl⟩

variable {event : ServiceEvent}

/-- Such an operation leaves only Guests of before in a Room, with the same
counters. -/
theorem roomStep_sameCounters {hashes : Hashes} {timings : Timings} {room next : Room}
    (hstep : RoomStep hashes timings event room next) (hevent : countsNothing event = true) :
    next.generation = room.generation ∧
      ∀ key guest', next.guests.lookup key = some guest' →
        ∃ guest, room.guests.lookup key = some guest ∧ SameCounters guest guest' := by
  have hsame : ∀ key guest', room.guests.lookup key = some guest' →
      ∃ guest, room.guests.lookup key = some guest ∧ SameCounters guest guest' :=
    fun key guest' h => ⟨guest', h, rfl, rfl⟩
  cases hstep with
  | ownerCommand clock => exact ⟨rfl, hsame⟩
  | guestCommand clock session guest hguest =>
    exact ⟨rfl, fun _ _ h => lookup_modify_sameCounters h fun _ => ⟨rfl, rfl⟩⟩
  | takeRead clock session budget guest hguest =>
    exact ⟨rfl, fun _ _ h => lookup_modify_sameCounters h fun _ => ⟨rfl, rfl⟩⟩
  | openAudioStream clock session target guest hguest streams hway id =>
    exact ⟨rfl, fun _ _ h => lookup_modify_sameCounters h fun _ => ⟨rfl, rfl⟩⟩
  | audioStreamEnded clock slot hgeneration =>
    exact ⟨rfl, fun _ _ h => lookup_modify_sameCounters h fun _ => ⟨rfl, rfl⟩⟩
  | subscribe clock session => simp [countsNothing] at hevent
  | streamEnded clock presence hgeneration => simp [countsNothing] at hevent
  | join clock token currentSession drawn hplace => simp [countsNothing] at hevent
  | leave clock session =>
    refine ⟨rfl, fun key guest' h => ?_⟩
    have hlookup : AList.lookup key (room.guests.erase session.key) = some guest' := h
    rw [Table.lookup_erase_eq] at hlookup
    split_ifs at hlookup
    exact hsame key guest' hlookup
  | finishCommand clock client command changed state happly =>
    cases changed <;> exact ⟨rfl, hsame⟩
  | sweep clock =>
    have hstays : ∀ key guest',
        (room.guests.filter fun _ guest =>
          Room.guestStays timings.guestGrace clock.now guest).lookup key = some guest' →
        room.guests.lookup key = some guest' := by
      intro key guest' h
      rw [Table.lookup_filter, Option.filter_eq_some_iff] at h
      exact h.1
    rw [sweepRoom]
    split_ifs <;> exact ⟨rfl, fun key guest' h => hsame key guest' (hstays key guest' h)⟩

theorem serviceStep_keepsPlaces {hashes : Hashes} (hstep : ServiceStep hashes service event next)
    (hevent : countsNothing event = true) :
    KeepsPlaces service next := by
  cases hstep with
  | kept event joins => exact .of_room rfl rfl
  | opened clock opening publicOrigin hroom =>
    refine ⟨Nat.le_succ _, ?_, ?_⟩
    · rintro _ ⟨rfl⟩
      exact .inl (Nat.lt_succ_self _)
    · rintro _ key guest' ⟨rfl⟩ hguest
      simp [newRoom] at hguest
  | closed clock room hroom => exact .of_none le_rfl rfl
  | room event room after nextAudioStream hroom hstep =>
    obtain ⟨hgeneration, hguests⟩ := roomStep_sameCounters hstep hevent
    refine ⟨le_rfl, ?_, ?_⟩
    · rintro _ ⟨rfl⟩
      exact .inr ⟨room, hroom, hgeneration.symm⟩
    · rintro _ key guest' ⟨rfl⟩ hguest
      obtain ⟨guest, hbefore, hsame⟩ := hguests key guest' hguest
      exact ⟨room, guest, hroom, hgeneration.symm, hbefore, hsame⟩

theorem step_keepsPlaces {hashes : Hashes} (hstep : Service.Step hashes service event next)
    (hevent : countsNothing event = true) :
    KeepsPlaces service next := by
  obtain ⟨locked, rfl | ⟨now, rfl⟩, hlocked⟩ := step_spec hstep
  · exact serviceStep_keepsPlaces hlocked hevent
  · exact (lock_keepsPlaces service now).trans (serviceStep_keepsPlaces hlocked hevent)

/-! ### The count is kept -/

namespace Attended

variable {hashes : Hashes} {a b : Attended} {drawn : List String}

/-- Nothing happens to the streams. -/
theorem Counts.keeps (h : a.Counts drawn) {service : Service}
    (hkeeps : KeepsPlaces a.service service) : Counts { a with service } drawn where
  guests room' key guest' hroom' hguest' := by
    obtain ⟨room, guest, hroom, hgeneration, hguest, hcount, hquiet⟩ :=
      hkeeps.guests room' key guest' hroom' hguest'
    obtain ⟨hguestCounts, hdrawn⟩ := h.guests room key guest hroom hguest
    rw [hgeneration] at hguestCounts
    refine ⟨⟨hcount.trans hguestCounts.count, fun hnone => ?_⟩, hdrawn⟩
    rw [hquiet]
    exact hguestCounts.quiet (hcount ▸ hnone)
  generation room' hroom' := by
    rcases hkeeps.generation room' hroom' with hlt | ⟨room, hroom, hgeneration⟩
    · exact hlt
    · exact hgeneration ▸ (h.generation room hroom).trans_le hkeeps.nextGeneration
  streams presence hpresence := by
    obtain ⟨hlt, hdrawn⟩ := h.streams presence hpresence
    exact ⟨hlt.trans_le hkeeps.nextGeneration, hdrawn⟩

theorem Counts.mono (h : a.Counts drawn) {drawn' : List String} (hsubset : drawn ⊆ drawn') :
    a.Counts drawn' where
  guests room key guest hroom hguest :=
    ⟨(h.guests room key guest hroom hguest).1, hsubset (h.guests room key guest hroom hguest).2⟩
  generation := h.generation
  streams presence hpresence :=
    ⟨(h.streams presence hpresence).1, hsubset (h.streams presence hpresence).2⟩

theorem joinRoom_cases (hashes : Hashes) (room : Room) (clock : Clock) (token : String)
    (currentSession : Option String) (drawnToken : String) :
    (∃ e, joinRoom room hashes clock token currentSession drawnToken = (.error e, room)) ∨
    (∃ current, isCurrent hashes room current = true ∧
      joinRoom room hashes clock token currentSession drawnToken =
        (.ok ⟨current, room.state⟩, room)) ∨
    joinRoom room hashes clock token currentSession drawnToken =
      (.ok ⟨drawnToken, (admitGuest hashes room clock.now drawnToken).state⟩,
        admitGuest hashes room clock.now drawnToken) := by
  rw [joinRoom]
  by_cases hinvite : room.inviteMatches hashes token = true
  · rw [if_pos hinvite]
    cases hcurrent : currentSession.filter (isCurrent hashes room) with
    | some current =>
      exact .inr (.inl ⟨current, (Option.filter_eq_some_iff.mp hcurrent).2, rfl⟩)
    | none =>
      by_cases hfull : room.guests.size ≥ room.state.maxGuests
      · exact .inl ⟨.full, by simp only [if_pos hfull]⟩
      · exact .inr (.inr (by simp only [if_neg hfull]))
  · rw [if_neg hinvite]
    exact .inl ⟨.inviteInvalid, rfl⟩

theorem quietSince_cons (a : Attended) (presence other : Presence) (now : Instant)
    (service : Service) (streams : List Presence) :
    quietSince ⟨service, streams, (other, now) :: a.moments⟩ presence =
      if other = presence then some now else a.quietSince presence := by
  rw [quietSince, List.find?_cons]
  by_cases heq : other = presence
  · simp [heq]
  · simp [heq, beq_eq_false_iff_ne.mpr heq, quietSince]

/-- A newly filed Guest has no stream, whatever streams of other sessions and
other Rooms are still alive. -/
theorem Counts.admit (h : a.Counts drawn) {room : Room} {clock : Clock} {drawnToken : String}
    (hroom : a.service.room = some room) (hfresh : hashes.sessionKey drawnToken ∉ drawn) :
    Counts
      { service := { a.service with room := some (admitGuest hashes room clock.now drawnToken) }
        streams := a.streams
        moments := (⟨room.generation, hashes.sessionKey drawnToken⟩, clock.now) :: a.moments }
      (hashes.sessionKey drawnToken :: drawn) where
  guests room' key guest hroom' hguest := by
    cases hroom'
    have hlookup : AList.lookup key
        (room.guests.insert (hashes.sessionKey drawnToken) (Guest.new clock.now)) = some guest :=
      hguest
    rw [Table.lookup_insert_eq] at hlookup
    show CountsGuest _ ⟨room.generation, key⟩ guest ∧ _
    split_ifs at hlookup with hkey
    · cases hlookup
      subst hkey
      refine ⟨⟨?_, fun _ => ?_⟩, List.mem_cons_self⟩
      · refine (List.count_eq_zero.mpr fun hmem => hfresh ?_).symm
        exact (h.streams _ hmem).2
      · rw [quietSince_cons, if_pos rfl]
        rfl
    · obtain ⟨hcounts, hdrawn⟩ := h.guests room key guest hroom hlookup
      refine ⟨⟨hcounts.count, fun hnone => ?_⟩, List.mem_cons_of_mem _ hdrawn⟩
      rw [quietSince_cons, if_neg (by simpa using Ne.symm hkey)]
      exact hcounts.quiet hnone
  generation room' hroom' := by
    cases hroom'
    exact h.generation room hroom
  streams presence hpresence :=
    ⟨(h.streams presence hpresence).1, List.mem_cons_of_mem _ (h.streams presence hpresence).2⟩

theorem Counts.join (h : a.Counts drawn) (clock : Clock) (token : String)
    (currentSession : Option String) {drawnToken : String}
    (hfresh : hashes.sessionKey drawnToken ∉ drawn) :
    (a.noteJoin hashes clock drawnToken
      (a.service.join hashes clock token currentSession drawnToken)).Counts
      (hashes.sessionKey drawnToken :: drawn) := by
  have hlocked := h.keeps (lock_keepsPlaces a.service clock.lockedAt)
  have hunchanged := hlocked.mono (List.subset_cons_self (hashes.sessionKey drawnToken) drawn)
  simp only [Service.join, withRoom]
  cases hroom : (a.service.lock clock.lockedAt).room with
  | none => exact hunchanged
  | some room =>
    have hsame : { a.service.lock clock.lockedAt with room := some room } =
        a.service.lock clock.lockedAt := by rw [← hroom]
    rcases joinRoom_cases hashes room clock token currentSession drawnToken with
      ⟨e, hjoin⟩ | ⟨current, hcurrent, hjoin⟩ | hjoin
    · simp only [hjoin, hsame, noteJoin, Except.mapError]
      exact hunchanged
    · -- The cookie's session is a Guest already, so it is not the one just drawn.
      have hold : current ≠ drawnToken := by
        rintro rfl
        obtain ⟨guest, hguest⟩ := Option.isSome_iff_exists.mp hcurrent
        exact hfresh (hlocked.guests room _ guest hroom hguest).2
      simp only [hjoin, hsame, noteJoin, Except.mapError, if_neg hold]
      exact hunchanged
    · simp only [hjoin, noteJoin, Except.mapError]
      exact hlocked.admit hroom hfresh

/-- A Guest's stream counts from the moment it subscribed. -/
theorem Counts.count (h : a.Counts drawn) {room : Room} {key : String}
    (hroom : a.service.room = some room) (hguest : key ∈ room.guests) :
    Counts
      { service :=
          { a.service with
            room := some { room with
              guests := room.guests.modify key fun guest =>
                { guest with openStreams := guest.openStreams + 1 } } }
        streams := ⟨room.generation, key⟩ :: a.streams
        moments := a.moments } drawn where
  guests room' key' guest' hroom' hguest' := by
    cases hroom'
    show CountsGuest _ ⟨room.generation, key'⟩ guest' ∧ _
    rw [Table.lookup_modify] at hguest'
    split_ifs at hguest' with hkey
    · obtain ⟨guest, hlookup, rfl⟩ := Option.map_eq_some_iff.mp hguest'
      obtain ⟨hcounts, hdrawn⟩ := h.guests room key' guest hroom hlookup
      subst hkey
      refine ⟨⟨?_, fun hnone => absurd hnone (Nat.succ_ne_zero _)⟩, hdrawn⟩
      rw [List.count_cons_self, ← hcounts.count]
    · obtain ⟨hcounts, hdrawn⟩ := h.guests room key' guest' hroom hguest'
      refine ⟨⟨?_, hcounts.quiet⟩, hdrawn⟩
      rw [List.count_cons_of_ne (by simpa using Ne.symm hkey)]
      exact hcounts.count
  generation room' hroom' := by
    cases hroom'
    exact h.generation room hroom
  streams presence hpresence := by
    rcases List.mem_cons.mp hpresence with rfl | hold
    · obtain ⟨guest, hlookup⟩ := Option.isSome_iff_exists.mp (AList.lookup_isSome.mpr hguest)
      exact ⟨h.generation room hroom, (h.guests room key guest hroom hlookup).2⟩
    · exact h.streams presence hold

theorem Counts.subscribe (h : a.Counts drawn) (clock : Clock) (client : Client) :
    (a.noteSubscribe (a.service.subscribe clock client)).Counts drawn := by
  have hlocked := h.keeps (lock_keepsPlaces a.service clock.lockedAt)
  simp only [Service.subscribe, withRoom]
  cases hroom : (a.service.lock clock.lockedAt).room with
  | none => exact hlocked
  | some room =>
    have hsame : { a.service.lock clock.lockedAt with room := some room } =
        a.service.lock clock.lockedAt := by rw [← hroom]
    dsimp only
    cases hrequire : room.require client with
    | error e =>
      simp only [hsame, noteSubscribe]
      exact hlocked
    | ok _ =>
      cases client with
      | owner =>
        simp only [hsame, noteSubscribe]
        exact hlocked
      | guest session =>
        have hguest : session.key ∈ room.guests := by
          rw [← AList.lookup_isSome]
          by_contra hnone
          simp [Room.require, hnone] at hrequire
        exact hlocked.count hroom hguest

/-- What is left of the counters when a stream ends that no Guest counts. -/
theorem Counts.forget (h : a.Counts drawn) {presence : Presence} {now : Instant}
    (hnobody : ∀ room, a.service.room = some room → room.generation = presence.generation →
      presence.key ∉ room.guests) :
    Counts
      { service := a.service
        streams := a.streams.erase presence
        moments := (presence, now) :: a.moments } drawn where
  guests room key guest hroom hguest := by
    obtain ⟨hcounts, hdrawn⟩ := h.guests room key guest hroom hguest
    have hne : presence ≠ ⟨room.generation, key⟩ := by
      rintro rfl
      refine hnobody room hroom rfl ?_
      rw [← AList.lookup_isSome, hguest]
      rfl
    refine ⟨⟨?_, fun hnone => ?_⟩, hdrawn⟩
    · rw [List.count_erase_of_ne hne.symm]
      exact hcounts.count
    · rw [quietSince_cons, if_neg hne]
      exact hcounts.quiet hnone
  generation := h.generation
  streams other hother := h.streams other (List.mem_of_mem_erase hother)

/-- The end of a Guest's stream is counted once. -/
theorem Counts.uncount (h : a.Counts drawn) {room : Room} {key : String} {now : Instant}
    (hroom : a.service.room = some room) (hstream : ⟨room.generation, key⟩ ∈ a.streams) :
    Counts
      { service :=
          { a.service with
            room := some { room with guests := room.guests.modify key (dropStream now) } }
        streams := a.streams.erase ⟨room.generation, key⟩
        moments := (⟨room.generation, key⟩, now) :: a.moments } drawn where
  guests room' key' guest' hroom' hguest' := by
    cases hroom'
    show CountsGuest _ ⟨room.generation, key'⟩ guest' ∧ _
    rw [Table.lookup_modify] at hguest'
    split_ifs at hguest' with hkey
    · obtain ⟨guest, hlookup, rfl⟩ := Option.map_eq_some_iff.mp hguest'
      obtain ⟨hcounts, hdrawn⟩ := h.guests room key' guest hroom hlookup
      subst hkey
      refine ⟨⟨?_, fun hnone => ?_⟩, hdrawn⟩
      · rw [List.count_erase_self, ← hcounts.count]
        rfl
      · rw [quietSince_cons, if_pos rfl]
        exact congrArg some (if_pos hnone).symm
    · obtain ⟨hcounts, hdrawn⟩ := h.guests room key' guest' hroom hguest'
      have hne : (⟨room.generation, key⟩ : Presence) ≠ ⟨room.generation, key'⟩ := by
        simpa using Ne.symm hkey
      refine ⟨⟨?_, fun hnone => ?_⟩, hdrawn⟩
      · rw [List.count_erase_of_ne hne.symm]
        exact hcounts.count
      · rw [quietSince_cons, if_neg hne]
        exact hcounts.quiet hnone
  generation room' hroom' := by
    cases hroom'
    exact h.generation room hroom
  streams other hother := h.streams other (List.mem_of_mem_erase hother)

theorem Counts.streamEnded (h : a.Counts drawn) {clock : Clock} {presence : Presence}
    (hstream : presence ∈ a.streams) :
    Counts
      { service := a.service.streamEnded clock presence
        streams := a.streams.erase presence
        moments := (presence, clock.now) :: a.moments } drawn := by
  have hlocked := h.keeps (lock_keepsPlaces a.service clock.lockedAt)
  simp only [Service.streamEnded, updateGuest]
  cases hroom : (a.service.lock clock.lockedAt).room with
  | none =>
    refine hlocked.forget fun room hother => ?_
    rw [hroom] at hother
    cases hother
  | some room =>
    dsimp only
    split_ifs with hguest
    · obtain ⟨generation, key⟩ := presence
      obtain rfl : room.generation = generation := hguest.1
      exact hlocked.uncount hroom hstream
    · refine hlocked.forget fun other hother hgeneration hmem => hguest ?_
      cases hroom.symm.trans hother
      exact ⟨hgeneration, AList.lookup_isSome.mpr hmem⟩

theorem perform_countsNothing (hevent : countsNothing event = true) :
    a.perform hashes event =
      (a.service.perform hashes event).map fun service => { a with service } := by
  cases event with
  | join | subscribe | streamEnded => simp [countsNothing] at hevent
  | _ => rfl

/-- Every operation keeps the counters right, as long as a drawn token is none of
the ones before. -/
theorem Counts.perform (h : a.Counts drawn) (hstep : a.perform hashes event = some b)
    (hfresh : ∀ key ∈ drawnKeys hashes event, key ∉ drawn) :
    b.Counts (drawn ++ drawnKeys hashes event) := by
  have hrest : countsNothing event = true → b.Counts (drawn ++ drawnKeys hashes event) := by
    intro hevent
    rw [perform_countsNothing hevent] at hstep
    obtain ⟨service, hservice, rfl⟩ := Option.map_eq_some_iff.mp hstep
    exact (h.keeps (step_keepsPlaces hservice hevent)).mono (List.subset_append_left _ _)
  cases event with
  | join clock token currentSession drawnToken =>
    cases hstep
    refine (h.join clock token currentSession (hfresh _ List.mem_cons_self)).mono ?_
    simp [drawnKeys]
  | subscribe clock client =>
    cases hstep
    exact (h.subscribe clock client).mono (List.subset_append_left _ _)
  | streamEnded clock presence =>
    rw [Attended.perform] at hstep
    split_ifs at hstep with hstream
    cases hstep
    exact (h.streamEnded hstream).mono (List.subset_append_left _ _)
  | _ => exact hrest rfl

/-- By induction on a run: the counters are right after any operations that draw
distinct tokens. -/
theorem Counts.run {events : List ServiceEvent} (h : a.Counts drawn)
    (hrun : Transition.Run (Step hashes) a events b)
    (hfresh : (drawn ++ events.flatMap (drawnKeys hashes)).Nodup) :
    b.Counts (drawn ++ events.flatMap (drawnKeys hashes)) := by
  induction hrun generalizing drawn with
  | nil => simpa using h
  | @cons a c b event events hstep _ ih =>
    rw [List.flatMap_cons, ← List.append_assoc] at hfresh ⊢
    refine ih (h.perform hstep fun key hkey hold => ?_) hfresh
    have hdisjoint := List.disjoint_of_nodup_append (List.nodup_append.mp hfresh).1
    exact hdisjoint hold hkey

/-- Whatever operations ran in whatever order, with streams dropped long after
their Guest or their Room was gone: every Guest's count is that of their streams
that are still alive, and a sweep of an open Room keeps a Guest exactly when one
of them is, or when the last one ended (or the Guest joined) less than the grace
before it. Session tokens are taken not to repeat under their hash. -/
theorem presence_counted {start : Attended} {events : List ServiceEvent} (hinit : start.Init)
    (hrun : Transition.Run (Step hashes) start events a)
    (hfresh : (events.flatMap (drawnKeys hashes)).Nodup) {room : Room} {key : String}
    {guest : Guest} (hroom : a.service.room = some room)
    (hguest : room.guests.lookup key = some guest) :
    guest.openStreams = a.streams.count ⟨room.generation, key⟩ ∧
    ∀ clock, clock.lockedAt < room.closesAt →
      ((a.service.sweep clock room.generation).2.IsGuest key ↔
        ⟨room.generation, key⟩ ∈ a.streams ∨
        ∃ since, a.quietSince ⟨room.generation, key⟩ = some since ∧
          clock.now - since < a.service.timings.guestGrace) := by
  have hstart : start.Counts [] := by
    obtain ⟨⟨publicOrigin, maxGuests, timings, now, hservice⟩, hstreams, -⟩ := hinit
    have hnone : start.service.room = none := by rw [hservice]; rfl
    refine ⟨?_, ?_, ?_⟩
    · intro _ _ _ hsome
      rw [hnone] at hsome
      cases hsome
    · intro _ hsome
      rw [hnone] at hsome
      cases hsome
    · simp [hstreams]
  obtain ⟨hcounts, -⟩ := (hstart.run hrun hfresh).guests room key guest hroom hguest
  refine ⟨hcounts.count, fun clock hopen => ?_⟩
  have hlock : a.service.lock clock.lockedAt = a.service := by
    simp only [lock, hroom, if_neg (not_le.mpr hopen)]
  have hstays : (a.service.sweep clock room.generation).2.IsGuest key ↔
      Room.guestStays a.service.timings.guestGrace clock.now guest = true := by
    have hswept : (sweepRoom a.service.timings clock.now room).guests =
        room.guests.filter fun _ guest =>
          Room.guestStays a.service.timings.guestGrace clock.now guest := by
      rw [sweepRoom]
      split_ifs <;> rfl
    have hroom' : (a.service.sweep clock room.generation).2.room =
        some (sweepRoom a.service.timings clock.now room) := by
      simp only [sweep, hlock, hroom, if_true]
    rw [isGuest_iff hroom', hswept, ← AList.lookup_isSome, Table.lookup_filter, hguest]
    simp
  rw [hstays, Room.guestStays, Bool.or_eq_true, decide_eq_true_eq, decide_eq_true_eq, hcounts.count,
    gt_iff_lt, List.count_pos_iff]
  by_cases hstream : (⟨room.generation, key⟩ : Presence) ∈ a.streams
  · simp [hstream]
  · have hnone : guest.openStreams = 0 := by rw [hcounts.count, List.count_eq_zero.mpr hstream]
    simp [hstream, hcounts.quiet hnone]

/-- A Guest of the second Room subscribes; a stream of the first Room, whose Guest
is gone, is dropped afterwards. -/
def lateDropEvents : List ServiceEvent :=
  [.openRoom (clockAt 1) sampleOpening, .join (clockAt 2) "token" none "first",
    .subscribe (clockAt 3) (.guest ⟨"first"⟩), .close (clockAt 4),
    .openRoom (clockAt 5) sampleOpening, .join (clockAt 6) "token" (some "first") "second",
    .subscribe (clockAt 7) (.guest ⟨"second"⟩), .streamEnded (clockAt 8) ⟨1, "first"⟩]

def unattended : Attended := ⟨.new (some "https://music.example") 8 ⟨1000, 60⟩ 0, [], []⟩

def lateDropped : Attended :=
  (lateDropEvents.foldlM (perform plainHashes) unattended).getD unattended

/-- The Guest stays at a sweep long after the grace. -/
theorem late_drop_presence_counted :
    ∃ room guest, lateDropped.service.room = some room ∧
      room.guests.lookup "second" = some guest ∧
      guest.openStreams = lateDropped.streams.count ⟨room.generation, "second"⟩ ∧
      lateDropped.streams = [⟨2, "second"⟩] ∧
      (lateDropped.service.sweep (clockAt 500) room.generation).2.IsGuest "second" := by
  have hrun : Transition.Run (Step plainHashes) unattended lateDropEvents lateDropped := by
    have hsome : (lateDropEvents.foldlM (perform plainHashes) unattended).isSome = true := by
      decide +kernel
    obtain ⟨a, ha⟩ := Option.isSome_iff_exists.mp hsome
    rw [lateDropped, ha]
    exact .of_option ha
  have hinit : unattended.Init := ⟨⟨_, _, _, _, rfl⟩, rfl, rfl⟩
  have hopen : (lateDropped.service.room.bind fun room => room.guests.lookup "second").isSome := by
    decide +kernel
  obtain ⟨guest, hguest⟩ := Option.isSome_iff_exists.mp hopen
  obtain ⟨room, hroom, hguest⟩ := Option.bind_eq_some_iff.mp hguest
  have hcounted := presence_counted hinit hrun (by decide +kernel) hroom hguest
  have hroomIs : lateDropped.service.room.map (fun room => (room.generation, room.closesAt)) =
      some (2, 1005) := by decide +kernel
  have hstreams : lateDropped.streams = [⟨2, "second"⟩] := by decide +kernel
  rw [hroom, Option.map_some, Option.some.injEq, Prod.mk.injEq] at hroomIs
  refine ⟨room, guest, hroom, hguest, hcounted.1, hstreams, (hcounted.2 (clockAt 500) ?_).mpr ?_⟩
  · rw [hroomIs.2]
    decide
  · exact .inl (by simp [hstreams, hroomIs.1])

end Attended

end Harmony.ListenTogether
