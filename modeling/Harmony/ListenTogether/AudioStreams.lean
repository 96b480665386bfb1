/-
# A Guest's audio streams

A request for a Track's audio takes a place among its Guest's audio streams. The
place is given back when the response body is dropped, which may be long after
another request took the place, after the Guest left or after the Room ended. A
slot names its place by an identifier that no other slot has, so a late drop finds
its own place or none.
-/

import Harmony.ListenTogether.Sessions

namespace Harmony.ListenTogether

variable {target : String}

namespace Service

variable {hashes : Hashes} {service next : Service} {event : ServiceEvent} {key : String}

/-! ### One Guest's list -/

/-- The Guest under this key, with the generation of the open Room. -/
def guestOf (service : Service) (key : String) : Option (ℕ × Guest) :=
  service.room.bind fun room => (room.guests.lookup key).map (room.generation, ·)

/-- The slot's place is still there. -/
def Live (service : Service) (slot : AudioStreamSlot) : Prop :=
  ∃ guest, service.guestOf slot.key = some (slot.generation, guest) ∧
    slot.id ∈ guest.audioStreams.map (·.id)

/-- Room is made by dropping one stream of the Track, the oldest, and only at the
limit. -/
theorem makeWay_cases {streams kept : List AudioStream} (hway : makeWay streams target = some kept)
    :
    (streams.length < maxAudioStreams ∧ kept = streams) ∨
      ∃ before oldest after, streams = before ++ oldest :: after ∧ oldest.target = target ∧
        (∀ stream ∈ before, stream.target ≠ target) ∧ maxAudioStreams ≤ streams.length ∧
        kept = before ++ after := by
  rw [makeWay] at hway
  by_cases hfull : streams.length ≥ maxAudioStreams
  · rw [if_pos hfull] at hway
    by_cases htarget : (streams.any (·.target == target)) = true
    · rw [if_pos htarget] at hway
      cases hway
      obtain ⟨stream, hstream, hsame⟩ := List.any_eq_true.mp htarget
      obtain ⟨oldest, before, after, hbefore, holdest, hsplit, herased⟩ :=
        List.exists_of_eraseP (p := (·.target == target)) hstream hsame
      refine .inr ⟨before, oldest, after, hsplit, by simpa using holdest, ?_, hfull, herased⟩
      intro other hother
      simpa using hbefore other hother
    · rw [if_neg htarget] at hway
      cases hway
  · rw [if_neg hfull] at hway
    exact .inl ⟨not_le.mp hfull, (Option.some.inj hway).symm⟩

theorem makeWay_eq_none {streams : List AudioStream} :
    makeWay streams target = none ↔
      maxAudioStreams ≤ streams.length ∧ ∀ stream ∈ streams, stream.target ≠ target := by
  rw [makeWay]
  by_cases hfull : streams.length ≥ maxAudioStreams
  · by_cases htarget : (streams.any (·.target == target)) = true
    · rw [if_pos hfull, if_pos htarget]
      obtain ⟨stream, hstream, hsame⟩ := List.any_eq_true.mp htarget
      constructor
      · intro hnone
        cases hnone
      · intro hother
        exact absurd (by simpa using hsame) (hother.2 stream hstream)
    · rw [if_pos hfull, if_neg htarget]
      have hother : ∀ stream ∈ streams, stream.target ≠ target := by simpa using htarget
      exact ⟨fun _ => ⟨hfull, hother⟩, fun _ => rfl⟩
  · rw [if_neg hfull]
    constructor
    · intro hnone
      cases hnone
    · intro hother
      exact absurd hother.1 hfull

/-! ### Identifiers -/

@[simp]
theorem lock_nextAudioStream (service : Service) (now : Instant) :
    (service.lock now).nextAudioStream = service.nextAudioStream := by
  rw [lock]
  split
  · split_ifs <;> rfl
  · rfl

theorem withRoom_nextAudioStream {α : Type} (service : Service) (clock : Clock)
    (action : Room → Except RoomError α × Room) :
    (service.withRoom clock action).2.nextAudioStream = service.nextAudioStream := by
  simp only [withRoom]
  cases (service.lock clock.lockedAt).room with
  | none => exact lock_nextAudioStream service clock.lockedAt
  | some room => exact lock_nextAudioStream service clock.lockedAt

theorem updateGuest_nextAudioStream (service : Service) (clock : Clock) (generation : ℕ)
    (key : String) (change : Guest → Guest) :
    (service.updateGuest clock generation key change).nextAudioStream =
      service.nextAudioStream := by
  simp only [updateGuest]
  cases (service.lock clock.lockedAt).room with
  | none => exact lock_nextAudioStream service clock.lockedAt
  | some room =>
    dsimp only
    split_ifs
    · exact lock_nextAudioStream service clock.lockedAt
    · exact lock_nextAudioStream service clock.lockedAt

/-- Only an opening draws an identifier. -/
theorem nextAudioStream_of_step (hstep : Step hashes service event next)
    (hevent : ∀ clock session target, event ≠ .openAudioStream clock session target) :
    next.nextAudioStream = service.nextAudioStream := by
  cases event with
  | openAudioStream clock session target => exact absurd rfl (hevent clock session target)
  | openRoom clock opening =>
    cases hstep
    rw [openRoom]
    cases service.publicOrigin with
    | none => rfl
    | some publicOrigin =>
      dsimp only
      cases (service.lock clock.lockedAt).room with
      | some room => exact lock_nextAudioStream service clock.lockedAt
      | none => exact lock_nextAudioStream service clock.lockedAt
  | close clock =>
    cases hstep
    simp only [close]
    cases (service.lock clock.lockedAt).room with
    | none => exact lock_nextAudioStream service clock.lockedAt
    | some room => exact lock_nextAudioStream service clock.lockedAt
  | takeJoin clock =>
    cases hstep
    rfl
  | finishCommand clock client command =>
    obtain ⟨⟨reply, after⟩, hfinish, rfl⟩ := Option.map_eq_some_iff.mp hstep
    simp only [finishCommand] at hfinish
    cases hroom : (service.lock clock.lockedAt).room with
    | none =>
      simp only [hroom] at hfinish
      cases hfinish
      exact lock_nextAudioStream service clock.lockedAt
    | some room =>
      simp only [hroom] at hfinish
      cases hrequire : room.require client with
      | error error =>
        simp only [hrequire] at hfinish
        cases hfinish
        exact lock_nextAudioStream service clock.lockedAt
      | ok _ =>
        simp only [hrequire] at hfinish
        obtain ⟨changed, -, heq⟩ := Option.bind_eq_some_iff.mp hfinish
        cases heq
        exact lock_nextAudioStream service clock.lockedAt
  | authenticate clock sessionToken =>
    cases hstep
    exact lock_nextAudioStream service clock.lockedAt
  | sweep clock generation =>
    cases hstep
    simp only [sweep]
    cases (service.lock clock.lockedAt).room with
    | none => exact lock_nextAudioStream service clock.lockedAt
    | some room =>
      dsimp only
      split_ifs
      · exact lock_nextAudioStream service clock.lockedAt
      · exact lock_nextAudioStream service clock.lockedAt
  | audioStreamEnded clock slot =>
    cases hstep
    exact updateGuest_nextAudioStream service clock slot.generation slot.key _
  | streamEnded clock presence =>
    cases hstep
    exact updateGuest_nextAudioStream service clock presence.generation presence.key _
  | roomView clock client =>
    cases hstep
    exact withRoom_nextAudioStream service clock _
  | takeRead clock session budget =>
    cases hstep
    exact withRoom_nextAudioStream service clock _
  | join clock token currentSession drawn =>
    cases hstep
    exact withRoom_nextAudioStream service clock _
  | leave clock session =>
    cases hstep
    exact withRoom_nextAudioStream service clock _
  | takeCommand clock client =>
    cases hstep
    exact withRoom_nextAudioStream service clock _
  | subscribe clock client =>
    cases hstep
    exact withRoom_nextAudioStream service clock _

/-! ### What an operation does to the lists -/

/-- An operation that opens no stream adds to no Guest's list. -/
theorem audioStreams_of_roomStep {timings : Timings} {room after : Room} {guest : Guest}
    (hstep : RoomStep hashes timings event room after)
    (hevent : ∀ clock session target, event ≠ .openAudioStream clock session target)
    (hguest : after.guests.lookup key = some guest) :
    after.generation = room.generation ∧ (guest.audioStreams = [] ∨
      ∃ before, room.guests.lookup key = some before ∧
        guest.audioStreams.Sublist before.audioStreams) := by
  -- What keeps the list or shortens it, under whichever key.
  have hmodify : ∀ (changed : String) (change : Guest → Guest),
      (room.guests.modify changed change).lookup key = some guest →
      (∀ before : Guest, (change before).audioStreams.Sublist before.audioStreams) →
      guest.audioStreams = [] ∨ ∃ before, room.guests.lookup key = some before ∧
        guest.audioStreams.Sublist before.audioStreams := by
    intro changed change hlookup hchange
    rw [Table.lookup_modify] at hlookup
    by_cases hkey : key = changed
    · rw [if_pos hkey] at hlookup
      obtain ⟨before, hbefore, rfl⟩ := Option.map_eq_some_iff.mp hlookup
      exact .inr ⟨before, hbefore, hchange before⟩
    · rw [if_neg hkey] at hlookup
      exact .inr ⟨guest, hlookup, List.Sublist.refl _⟩
  cases hstep with
  | ownerCommand clock => exact ⟨rfl, .inr ⟨guest, hguest, List.Sublist.refl _⟩⟩
  | guestCommand clock session before hbefore =>
    exact ⟨rfl, hmodify session.key _ hguest fun _ => List.Sublist.refl _⟩
  | takeRead clock session budget before hbefore =>
    exact ⟨rfl, hmodify session.key _ hguest fun _ => List.Sublist.refl _⟩
  | openAudioStream clock session target before hbefore streams hway id =>
    exact absurd rfl (hevent clock session target)
  | audioStreamEnded clock slot hgeneration =>
    exact ⟨rfl, hmodify slot.key _ hguest fun _ => List.filter_sublist⟩
  | subscribe clock session =>
    exact ⟨rfl, hmodify session.key _ hguest fun _ => List.Sublist.refl _⟩
  | streamEnded clock presence hgeneration =>
    exact ⟨rfl, hmodify presence.key _ hguest fun _ => List.Sublist.refl _⟩
  | join clock token currentSession drawn hplace =>
    have hinsert : (AList.insert (hashes.sessionKey drawn) (Guest.new clock.now)
        room.guests).lookup key = some guest := hguest
    rw [Table.lookup_insert_eq] at hinsert
    refine ⟨rfl, ?_⟩
    by_cases hkey : key = hashes.sessionKey drawn
    · rw [if_pos hkey] at hinsert
      cases hinsert
      exact .inl rfl
    · rw [if_neg hkey] at hinsert
      exact .inr ⟨guest, hinsert, List.Sublist.refl _⟩
  | leave clock session =>
    have herase : (AList.erase session.key room.guests).lookup key = some guest := hguest
    rw [Table.lookup_erase_eq] at herase
    refine ⟨rfl, ?_⟩
    by_cases hkey : key = session.key
    · rw [if_pos hkey] at herase
      cases herase
    · rw [if_neg hkey] at herase
      exact .inr ⟨guest, herase, List.Sublist.refl _⟩
  | finishCommand clock client command changed state happly =>
    cases changed with
    | false => exact ⟨rfl, .inr ⟨guest, hguest, List.Sublist.refl _⟩⟩
    | true => exact ⟨rfl, .inr ⟨guest, hguest, List.Sublist.refl _⟩⟩
  | sweep clock =>
    have hswept : (sweepRoom timings clock.now room).generation = room.generation ∧
        (sweepRoom timings clock.now room).guests =
          room.guests.filter fun _ guest => Room.guestStays timings.guestGrace clock.now guest := by
      simp only [sweepRoom]
      split_ifs
      · exact ⟨rfl, rfl⟩
      · exact ⟨rfl, rfl⟩
    rw [hswept.2, Table.lookup_filter] at hguest
    obtain ⟨hbefore, -⟩ := Option.filter_eq_some_iff.mp hguest
    exact ⟨hswept.1, .inr ⟨guest, hbefore, List.Sublist.refl _⟩⟩

theorem guestOf_lock {now : Instant} {found : ℕ × Guest}
    (hfound : (service.lock now).guestOf key = some found) :
    service.guestOf key = some found := by
  rcases room_lock service now with hsame | hnone
  · rw [guestOf, hsame] at hfound
    exact hfound
  · rw [guestOf, hnone] at hfound
    cases hfound

theorem guestOf_of_serviceStep {generation : ℕ} {guest : Guest}
    (hstep : ServiceStep hashes service event next)
    (hevent : ∀ clock session target, event ≠ .openAudioStream clock session target)
    (hguest : next.guestOf key = some (generation, guest)) :
    guest.audioStreams = [] ∨ ∃ before, service.guestOf key = some (generation, before) ∧
      guest.audioStreams.Sublist before.audioStreams := by
  cases hstep with
  | kept event joins => exact .inr ⟨guest, hguest, List.Sublist.refl _⟩
  | opened clock opening publicOrigin hroom => cases hguest
  | closed clock room hroom => cases hguest
  | room event room after nextAudioStream hroom hroomStep =>
    obtain ⟨found, hfound, heq⟩ := Option.map_eq_some_iff.mp hguest
    cases heq
    obtain ⟨hgeneration, hlist⟩ := audioStreams_of_roomStep hroomStep hevent hfound
    rcases hlist with hempty | ⟨before, hbefore, hsub⟩
    · exact .inl hempty
    · refine .inr ⟨before, ?_, hsub⟩
      rw [guestOf, hroom, Option.bind_some, hbefore, Option.map_some, hgeneration]

theorem guestOf_of_step {generation : ℕ} {guest : Guest} (hstep : Step hashes service event next)
    (hevent : ∀ clock session target, event ≠ .openAudioStream clock session target)
    (hguest : next.guestOf key = some (generation, guest)) :
    guest.audioStreams = [] ∨ ∃ before, service.guestOf key = some (generation, before) ∧
      guest.audioStreams.Sublist before.audioStreams := by
  obtain ⟨locked, rfl | ⟨now, rfl⟩, hlocked⟩ := step_spec hstep
  · exact guestOf_of_serviceStep hlocked hevent hguest
  · rcases guestOf_of_serviceStep hlocked hevent hguest with hempty | ⟨before, hbefore, hsub⟩
    · exact .inl hempty
    · exact .inr ⟨before, guestOf_lock hbefore, hsub⟩

/-- What an opening finds and does: a place is added at the end, or there is none. -/
theorem openAudioStream_cases (service : Service) (clock : Clock) (session : GuestSession)
    (target : String) :
    (∃ generation guest kept,
      (service.lock clock.lockedAt).guestOf session.key = some (generation, guest) ∧
      makeWay guest.audioStreams target = some kept ∧
      (service.openAudioStream clock session target).1 =
        .ok ⟨generation, session.key, service.nextAudioStream⟩ ∧
      (service.openAudioStream clock session target).2.nextAudioStream =
        service.nextAudioStream + 1 ∧
      ∀ key, (service.openAudioStream clock session target).2.guestOf key =
        if key = session.key then some (generation,
          { guest with audioStreams := kept ++ [⟨service.nextAudioStream, target⟩] })
        else (service.lock clock.lockedAt).guestOf key) ∨
    (∃ generation guest,
      (service.lock clock.lockedAt).guestOf session.key = some (generation, guest) ∧
      makeWay guest.audioStreams target = none ∧
      service.openAudioStream clock session target =
        (.error .rateLimited, service.lock clock.lockedAt)) ∨
    ((service.lock clock.lockedAt).guestOf session.key = none ∧ ∃ error, error ≠ .rateLimited ∧
      service.openAudioStream clock session target =
        (.error error, service.lock clock.lockedAt)) := by
  simp only [openAudioStream]
  cases hroom : (service.lock clock.lockedAt).room with
  | none =>
    refine .inr (.inr ⟨?_, .notFound, by decide, rfl⟩)
    rw [guestOf, hroom, Option.bind_none]
  | some room =>
    have hlookup : ∀ key, (service.lock clock.lockedAt).guestOf key =
        (room.guests.lookup key).map (room.generation, ·) := by
      intro key
      rw [guestOf, hroom, Option.bind_some]
    dsimp only
    cases hguest : room.guests.lookup session.key with
    | none =>
      refine .inr (.inr ⟨?_, .sessionEnded, by decide, rfl⟩)
      rw [hlookup, hguest, Option.map_none]
    | some guest =>
      have hfound : (service.lock clock.lockedAt).guestOf session.key =
          some (room.generation, guest) := by
        rw [hlookup, hguest, Option.map_some]
      dsimp only
      cases hway : makeWay guest.audioStreams target with
      | none => exact .inr (.inl ⟨room.generation, guest, hfound, hway, rfl⟩)
      | some kept =>
        refine .inl ⟨room.generation, guest, kept, hfound, hway, ?_, ?_, ?_⟩
        · dsimp only
          rw [lock_nextAudioStream]
        · dsimp only
          rw [lock_nextAudioStream]
        · intro key
          dsimp only
          rw [guestOf, Option.bind_some, Table.lookup_modify, lock_nextAudioStream]
          by_cases hkey : key = session.key
          · rw [if_pos hkey, if_pos hkey, hkey, hguest]
            rfl
          · rw [if_neg hkey, if_neg hkey, hlookup]

/-- The drop of a slot shortens one list of one Room. -/
theorem audioStreamEnded_guestOf (service : Service) (clock : Clock) (slot : AudioStreamSlot)
    (key : String) : (service.audioStreamEnded clock slot).guestOf key =
      ((service.lock clock.lockedAt).guestOf key).map fun found =>
        if key = slot.key ∧ found.1 = slot.generation then
          (found.1, dropAudioStream slot.id found.2)
        else found := by
  simp only [audioStreamEnded, updateGuest]
  cases hroom : (service.lock clock.lockedAt).room with
  | none =>
    dsimp only
    rw [guestOf, hroom, Option.bind_none, Option.map_none]
  | some room =>
    have hlookup : (service.lock clock.lockedAt).guestOf key =
        (room.guests.lookup key).map (room.generation, ·) := by
      rw [guestOf, hroom, Option.bind_some]
    dsimp only
    rw [hlookup, Option.map_map]
    by_cases hfound : room.generation = slot.generation ∧
        (room.guests.lookup slot.key).isSome = true
    · rw [if_pos hfound, guestOf, Option.bind_some, Table.lookup_modify]
      by_cases hkey : key = slot.key
      · rw [if_pos hkey, Option.map_map]
        refine congrArg (Option.map · _) (funext fun guest => ?_)
        exact (if_pos ⟨hkey, hfound.1⟩).symm
      · rw [if_neg hkey]
        refine congrArg (Option.map · _) (funext fun guest => ?_)
        exact (if_neg fun h => hkey h.1).symm
    · rw [if_neg hfound, hlookup]
      cases hguest : room.guests.lookup key with
      | none => rfl
      | some guest =>
        refine congrArg some (if_neg ?_).symm
        rintro ⟨rfl, hgeneration⟩
        exact hfound ⟨hgeneration, by rw [hguest]; rfl⟩

end Service

/-! ### The slots given out -/

/-- The service and every slot it has given out, oldest first, with the Track asked for. -/
structure Slots where
  service : Service
  granted : List (AudioStreamSlot × String)

/-- The streams of one Guest: a few, each with a slot that was given out for it. -/
structure Held (granted : List (AudioStreamSlot × String)) (generation : ℕ) (key : String)
    (streams : List AudioStream) : Prop where
  bounded : streams.length ≤ maxAudioStreams
  increasing : (streams.map (·.id)).Pairwise (· < ·)
  granted : ∀ stream ∈ streams, (⟨generation, key, stream.id⟩, stream.target) ∈ granted

namespace Held

variable {granted more : List (AudioStreamSlot × String)} {generation : ℕ} {key : String}
  {streams kept : List AudioStream}

theorem nil : Held granted generation key [] where
  bounded := Nat.zero_le _
  increasing := List.Pairwise.nil
  granted stream hstream := by cases hstream

theorem sublist (h : Held granted generation key streams) (hsub : kept.Sublist streams) :
    Held granted generation key kept where
  bounded := hsub.length_le.trans h.bounded
  increasing := h.increasing.sublist (hsub.map _)
  granted stream hstream := h.granted stream (hsub.subset hstream)

theorem append (h : Held granted generation key streams) :
    Held (granted ++ more) generation key streams where
  bounded := h.bounded
  increasing := h.increasing
  granted stream hstream := List.mem_append_left _ (h.granted stream hstream)

/-- A place at the end, under an identifier above all before it. -/
theorem push (h : Held granted generation key kept) (hroom : kept.length < maxAudioStreams) {id : ℕ}
    (hfresh : ∀ stream ∈ kept, stream.id < id) :
    Held (granted ++ [(⟨generation, key, id⟩, target)]) generation key
      (kept ++ [⟨id, target⟩]) where
  bounded := by
    rw [List.length_append, List.length_singleton]
    exact hroom
  increasing := by
    rw [List.map_append, List.pairwise_append]
    refine ⟨h.increasing, List.pairwise_singleton _ _, ?_⟩
    intro older holder newer hnewer
    obtain ⟨stream, hstream, rfl⟩ := List.mem_map.mp holder
    obtain rfl := List.mem_singleton.mp hnewer
    exact hfresh stream hstream
  granted stream hstream := by
    rcases List.mem_append.mp hstream with hkept | hnew
    · exact List.mem_append_left _ (h.granted stream hkept)
    · obtain rfl := List.mem_singleton.mp hnew
      exact List.mem_append_right _ List.mem_cons_self

end Held

/-- At the limit one place is freed first, so there is one to give. -/
theorem makeWay_room {streams kept : List AudioStream}
    (hway : Service.makeWay streams target = some kept)
    (hbounded : streams.length ≤ maxAudioStreams) :
    kept.Sublist streams ∧ kept.length < maxAudioStreams := by
  rcases Service.makeWay_cases hway with ⟨hless, rfl⟩ | ⟨before, oldest, after, rfl, -, -, -, rfl⟩
  · exact ⟨List.Sublist.refl _, hless⟩
  · refine ⟨(List.Sublist.refl before).append (List.sublist_cons_self oldest after), ?_⟩
    rw [List.length_append, List.length_cons] at hbounded
    rw [List.length_append]
    omega

namespace Slots

variable {hashes : Hashes} {s next : Slots} {event : ServiceEvent}

/-- What an operation gives out. -/
def grant (service : Service) : ServiceEvent → List (AudioStreamSlot × String)
  | .openAudioStream clock session target =>
    match (service.openAudioStream clock session target).1 with
    | .ok slot => [(slot, target)]
    | .error _ => []
  | _ => []

/-- Any operation on the service; a slot is dropped at any time after it was given out,
or never. -/
def Step (hashes : Hashes) (s : Slots) (event : ServiceEvent) (next : Slots) : Prop :=
  s.service.Step hashes event next.service ∧ next.granted = s.granted ++ grant s.service event

def Init (s : Slots) : Prop := s.service.Init ∧ s.granted = []

def Reachable (hashes : Hashes) : Slots → Prop := Transition.Reachable Init (Step hashes)

/-- Slots carry increasing identifiers, and every Guest's streams have theirs. -/
structure Inv (s : Slots) : Prop where
  increasing : (s.granted.map (·.1.id)).Pairwise (· < ·)
  drawn : ∀ grant ∈ s.granted, grant.1.id < s.service.nextAudioStream
  held : ∀ key generation guest, s.service.guestOf key = some (generation, guest) →
    Held s.granted generation key guest.audioStreams

theorem Init.inv (h : s.Init) : s.Inv := by
  obtain ⟨⟨publicOrigin, maxGuests, timings, now, hservice⟩, hgranted⟩ := h
  constructor
  · rw [hgranted]
    exact List.Pairwise.nil
  · rw [hgranted]
    intro grant hgrant
    cases hgrant
  · intro key generation guest hguest
    rw [hservice] at hguest
    cases hguest

/-- An operation that gives no slot out keeps what is known of those given out. -/
theorem Inv.kept (h : s.Inv) (hgranted : next.granted = s.granted)
    (hid : next.service.nextAudioStream = s.service.nextAudioStream)
    (hguests : ∀ key generation guest, next.service.guestOf key = some (generation, guest) →
      guest.audioStreams = [] ∨ ∃ before, s.service.guestOf key = some (generation, before) ∧
        guest.audioStreams.Sublist before.audioStreams) : next.Inv where
  increasing := by
    rw [hgranted]
    exact h.increasing
  drawn := by
    rw [hgranted, hid]
    exact h.drawn
  held key generation guest hguest := by
    rw [hgranted]
    rcases hguests key generation guest hguest with hempty | ⟨before, hbefore, hsub⟩
    · rw [hempty]
      exact .nil
    · exact (h.held key generation before hbefore).sublist hsub

theorem Inv.openAudioStream {clock : Clock} {session : GuestSession}
    (h : s.Inv) (hservice : next.service = (s.service.openAudioStream clock session target).2)
    (hgranted : next.granted =
      s.granted ++ grant s.service (.openAudioStream clock session target)) : next.Inv := by
  have hlock : ∀ key generation guest,
      (s.service.lock clock.lockedAt).guestOf key = some (generation, guest) →
      guest.audioStreams = [] ∨ ∃ before, s.service.guestOf key = some (generation, before) ∧
        guest.audioStreams.Sublist before.audioStreams :=
    fun key generation guest hguest =>
      .inr ⟨guest, Service.guestOf_lock hguest, List.Sublist.refl _⟩
  rcases s.service.openAudioStream_cases clock session target with
    ⟨generation, guest, kept, hguest, hway, hreply, hid, hguests⟩ | ⟨_, _, -, -, hrefused⟩ |
      ⟨-, error, -, hrefused⟩
  · have hgrant : next.granted = s.granted ++
        [(⟨generation, session.key, s.service.nextAudioStream⟩, target)] := by
      rw [hgranted, grant, hreply]
    constructor
    · rw [hgrant, List.map_append, List.pairwise_append]
      refine ⟨h.increasing, List.pairwise_singleton _ _, ?_⟩
      intro older holder newer hnewer
      obtain ⟨grant, hgrant, rfl⟩ := List.mem_map.mp holder
      obtain rfl := List.mem_singleton.mp hnewer
      exact h.drawn grant hgrant
    · intro grant hmem
      rw [hservice, hid]
      rw [hgrant] at hmem
      rcases List.mem_append.mp hmem with hold | hnew
      · exact Nat.lt_succ_of_lt (h.drawn grant hold)
      · obtain rfl := List.mem_singleton.mp hnew
        exact Nat.lt_succ_self _
    · intro key generation' guest' hguest'
      rw [hservice, hguests] at hguest'
      rw [hgrant]
      by_cases hkey : key = session.key
      · rw [if_pos hkey] at hguest'
        cases hguest'
        rw [hkey]
        have hbefore := h.held _ _ _ (Service.guestOf_lock hguest)
        obtain ⟨hsub, hroom⟩ := makeWay_room hway hbefore.bounded
        refine (hbefore.sublist hsub).push hroom ?_
        intro stream hstream
        exact h.drawn _ (hbefore.granted stream (hsub.subset hstream))
      · rw [if_neg hkey] at hguest'
        exact (h.held _ _ _ (Service.guestOf_lock hguest')).append
  · have hgrant : next.granted = s.granted := by
      rw [hgranted, grant, hrefused, List.append_nil]
    rw [hrefused] at hservice
    refine h.kept hgrant ?_ ?_
    · rw [hservice, Service.lock_nextAudioStream]
    · rw [hservice]
      exact hlock
  · have hgrant : next.granted = s.granted := by
      rw [hgranted, grant, hrefused, List.append_nil]
    rw [hrefused] at hservice
    refine h.kept hgrant ?_ ?_
    · rw [hservice, Service.lock_nextAudioStream]
    · rw [hservice]
      exact hlock

theorem Inv.step (h : s.Inv) (hstep : Step hashes s event next) : next.Inv := by
  obtain ⟨hservice, hgranted⟩ := hstep
  by_cases hevent : ∃ clock session target, event = .openAudioStream clock session target
  · obtain ⟨clock, session, target, rfl⟩ := hevent
    exact h.openAudioStream (Option.some.inj hservice).symm hgranted
  · have hother : ∀ clock session target, event ≠ .openAudioStream clock session target :=
      fun clock session target heq => hevent ⟨clock, session, target, heq⟩
    have hgrant : grant s.service event = [] := by
      cases event <;> first | rfl | exact absurd rfl (hother _ _ _)
    rw [hgrant, List.append_nil] at hgranted
    exact h.kept hgranted (Service.nextAudioStream_of_step hservice hother)
      fun key generation guest hguest => Service.guestOf_of_step hservice hother hguest

theorem Reachable.inv (h : Reachable hashes s) : s.Inv :=
  Transition.Reachable.invariant (fun _ hinit => hinit.inv) (fun _ _ _ h hstep => h.step hstep) h

/-! ### A slot and its place -/

theorem Inv.granted_unique (h : s.Inv) {first second : AudioStreamSlot × String}
    (hfirst : first ∈ s.granted) (hsecond : second ∈ s.granted) (hid : first.1.id = second.1.id) :
    first = second := by
  have hnodup : (s.granted.map (·.1.id)).Nodup := h.increasing.imp fun hlt => hlt.ne
  exact List.inj_on_of_nodup_map hnodup hfirst hsecond hid

/-- The drop of a slot leaves the place of every other slot as it was. -/
theorem Inv.ended (h : s.Inv) (clock : Clock) {ended other : AudioStreamSlot × String}
    (hended : ended ∈ s.granted) (hother : other ∈ s.granted) (hdiffer : other ≠ ended) :
    (s.service.audioStreamEnded clock ended.1).Live other.1 ↔
      (s.service.lock clock.lockedAt).Live other.1 := by
  have hid : other.1.id ≠ ended.1.id := fun hsame =>
    hdiffer (h.granted_unique hother hended hsame)
  rw [Service.Live, Service.Live, Service.audioStreamEnded_guestOf]
  constructor
  · rintro ⟨guest, hguest, hmem⟩
    obtain ⟨⟨generation, before⟩, hbefore, heq⟩ := Option.map_eq_some_iff.mp hguest
    split_ifs at heq with hplace
    · cases heq
      obtain ⟨stream, hstream, hsame⟩ := List.mem_map.mp hmem
      exact ⟨before, hbefore, List.mem_map.mpr ⟨stream, (List.mem_filter.mp hstream).1, hsame⟩⟩
    · obtain ⟨rfl, rfl⟩ := Prod.mk.inj heq
      exact ⟨before, hbefore, hmem⟩
  · rintro ⟨guest, hguest, hmem⟩
    rw [hguest, Option.map_some]
    by_cases hplace : other.1.key = ended.1.key ∧ other.1.generation = ended.1.generation
    · obtain ⟨stream, hstream, hsame⟩ := List.mem_map.mp hmem
      refine ⟨Service.dropAudioStream ended.1.id guest, congrArg some (if_pos hplace), ?_⟩
      refine List.mem_map.mpr ⟨stream, List.mem_filter.mpr ⟨hstream, ?_⟩, hsame⟩
      rw [hsame]
      exact bne_iff_ne.mpr hid
    · exact ⟨guest, congrArg some (if_neg hplace), hmem⟩

/-- A dropped slot has no place. -/
theorem not_live_ended (service : Service) (clock : Clock) (slot : AudioStreamSlot) :
    ¬ (service.audioStreamEnded clock slot).Live slot := by
  rw [Service.Live, Service.audioStreamEnded_guestOf]
  rintro ⟨guest, hguest, hmem⟩
  obtain ⟨⟨generation, before⟩, -, heq⟩ := Option.map_eq_some_iff.mp hguest
  by_cases hgeneration : generation = slot.generation
  · rw [if_pos ⟨rfl, hgeneration⟩] at heq
    obtain ⟨-, rfl⟩ := Prod.mk.inj heq
    obtain ⟨stream, hstream, hsame⟩ := List.mem_map.mp hmem
    exact absurd hsame (by simpa using (List.mem_filter.mp hstream).2)
  · rw [if_neg fun h => hgeneration h.2] at heq
    exact hgeneration (Prod.mk.inj heq).1

/-- An opening leaves the place of every slot, save one at the limit: the Guest's oldest
stream of the same Track. -/
theorem Inv.opened (h : s.Inv) {clock : Clock} {session : GuestSession} {slot : AudioStreamSlot}
    (hslot : (s.service.openAudioStream clock session target).1 = .ok slot) :
    (s.service.openAudioStream clock session target).2.Live slot ∧
      (∀ other ∈ s.granted, other.1 ≠ slot) ∧
      ∀ other ∈ s.granted, (s.service.lock clock.lockedAt).Live other.1 →
        (s.service.openAudioStream clock session target).2.Live other.1 ∨
        (other.1.key = session.key ∧ other.2 = target ∧
          ∃ guest, (s.service.lock clock.lockedAt).guestOf session.key =
              some (other.1.generation, guest) ∧
            maxAudioStreams ≤ guest.audioStreams.length ∧
            ∀ stream ∈ guest.audioStreams, stream.target = target → other.1.id ≤ stream.id) := by
  rcases s.service.openAudioStream_cases clock session target with
    ⟨generation, guest, kept, hguest, hway, hreply, -, hguests⟩ | ⟨_, _, -, -, hrefused⟩ |
      ⟨-, error, -, hrefused⟩
  · rw [hreply] at hslot
    cases hslot
    have hheld := h.held _ _ _ (Service.guestOf_lock hguest)
    refine ⟨⟨_, (hguests session.key).trans (if_pos rfl), ?_⟩, ?_, ?_⟩
    · simp
    · intro other hother hsame
      have hdrawn := h.drawn other hother
      rw [hsame] at hdrawn
      exact absurd hdrawn (lt_irrefl _)
    · rintro other hother ⟨found, hfound, hmem⟩
      by_cases hkey : other.1.key = session.key
      · rw [hkey, hguest] at hfound
        obtain ⟨hgeneration, rfl⟩ := Prod.mk.inj (Option.some.inj hfound)
        obtain ⟨stream, hstream, hsame⟩ := List.mem_map.mp hmem
        by_cases hkept : stream ∈ kept
        · refine .inl
            ⟨_, (hguests other.1.key).trans ((if_pos hkey).trans (by rw [hgeneration])), ?_⟩
          exact List.mem_map.mpr ⟨stream, List.mem_append_left _ hkept, hsame⟩
        · -- Only the stream that made way is gone, and it is the oldest of its Track.
          rcases Service.makeWay_cases hway with ⟨-, rfl⟩ |
            ⟨before, oldest, after, hsplit, htarget, hbefore, hfull, rfl⟩
          · exact absurd hstream hkept
          · have holdest : stream = oldest := by
              rw [hsplit] at hstream
              rcases List.mem_append.mp hstream with hfront | hback
              · exact absurd (List.mem_append_left _ hfront) hkept
              · exact (List.mem_cons.mp hback).resolve_right fun hlater =>
                  hkept (List.mem_append_right _ hlater)
            have hgranted := hheld.granted stream hstream
            have hown : other = (⟨generation, session.key, stream.id⟩, stream.target) :=
              h.granted_unique hother hgranted hsame.symm
            refine .inr ⟨hkey, by rw [hown, holdest]; exact htarget, guest, ?_, hfull, ?_⟩
            · rw [hguest, hgeneration]
            · intro later hlater hlaterTarget
              have hincreasing := hheld.increasing
              rw [hsplit] at hlater
              rw [hsplit, List.map_append, List.map_cons, List.pairwise_append,
                List.pairwise_cons] at hincreasing
              rw [← hsame, holdest]
              rcases List.mem_append.mp hlater with hfront | hback
              · exact absurd hlaterTarget (hbefore later hfront)
              · rcases List.mem_cons.mp hback with rfl | hrest
                · exact le_rfl
                · exact (hincreasing.2.1.1 _ (List.mem_map_of_mem hrest)).le
      · exact .inl ⟨found, (hguests other.1.key).trans ((if_neg hkey).trans hfound), hmem⟩
  · rw [hrefused] at hslot
    cases hslot
  · rw [hrefused] at hslot
    cases hslot

/-- The limits of a Guest's audio streams. -/
structure Limited (s : Slots) : Prop where
  /-- No Guest holds more than the limit, and each stream has a slot given out for it. -/
  held : ∀ key generation guest, s.service.guestOf key = some (generation, guest) →
    guest.audioStreams.length ≤ maxAudioStreams ∧
      ∀ stream ∈ guest.audioStreams, (⟨generation, key, stream.id⟩, stream.target) ∈ s.granted
  /-- A Guest who already streams the Track gets a slot. -/
  served : ∀ clock session target generation guest,
    (s.service.lock clock.lockedAt).guestOf session.key = some (generation, guest) →
    (∃ stream ∈ guest.audioStreams, stream.target = target) →
    ∃ slot, (s.service.openAudioStream clock session target).1 = .ok slot
  /-- A new slot is like none before it and takes only the place of the Guest's oldest
  stream of its Track, at the limit. -/
  opened : ∀ clock session target slot,
    (s.service.openAudioStream clock session target).1 = .ok slot →
    (s.service.openAudioStream clock session target).2.Live slot ∧
      (∀ other ∈ s.granted, other.1 ≠ slot) ∧
      ∀ other ∈ s.granted, (s.service.lock clock.lockedAt).Live other.1 →
        (s.service.openAudioStream clock session target).2.Live other.1 ∨
        (other.1.key = session.key ∧ other.2 = target ∧
          ∃ guest, (s.service.lock clock.lockedAt).guestOf session.key =
              some (other.1.generation, guest) ∧
            maxAudioStreams ≤ guest.audioStreams.length ∧
            ∀ stream ∈ guest.audioStreams, stream.target = target → other.1.id ≤ stream.id)
  /-- A slot that is dropped, however late, gives up its own place and no other. -/
  ended : ∀ clock, ∀ slot ∈ s.granted,
    ¬ (s.service.audioStreamEnded clock slot.1).Live slot.1 ∧
      ∀ other ∈ s.granted, other ≠ slot →
        ((s.service.audioStreamEnded clock slot.1).Live other.1 ↔
          (s.service.lock clock.lockedAt).Live other.1)

/-- Whatever requests are opened and dropped in whatever order, and whatever else
happens meanwhile. -/
theorem audio_streams_limited (h : Reachable hashes s) : s.Limited where
  held key generation guest hguest :=
    ⟨(h.inv.held key generation guest hguest).bounded,
      (h.inv.held key generation guest hguest).granted⟩
  served := by
    intro clock session target generation guest hguest hstreams
    rcases s.service.openAudioStream_cases clock session target with
      ⟨_, _, _, -, -, hreply, -, -⟩ | ⟨_, other, hother, hway, -⟩ | ⟨hnone, -⟩
    · exact ⟨_, hreply⟩
    · cases hguest.symm.trans hother
      obtain ⟨stream, hstream, htarget⟩ := hstreams
      exact absurd htarget ((Service.makeWay_eq_none.mp hway).2 stream hstream)
    · rw [hnone] at hguest
      cases hguest
  opened clock session target slot hslot := h.inv.opened hslot
  ended clock slot hslot :=
    ⟨not_live_ended s.service clock slot.1,
      fun _ hother hdiffer => h.inv.ended clock hslot hother hdiffer⟩

theorem step_of_perform {service : Service} (h : s.service.perform hashes event = some service) :
    Step hashes s event ⟨service, s.granted ++ grant s.service event⟩ :=
  ⟨h, rfl⟩

/-- A seek: the Guest of `joinedService` asks for the Track again. -/
def seek (s : Slots) : Slots where
  service := (s.service.openAudioStream (Service.clockAt 3) ⟨"session"⟩ "/track").2
  granted := s.granted ++
    grant s.service (.openAudioStream (Service.clockAt 3) ⟨"session"⟩ "/track")

def seekingSlots : Slots := seek (seek (seek (seek (seek ⟨Service.joinedService, []⟩))))

/-- The first request's body is dropped after the fifth took its place. -/
theorem seekingSlots_limited :
    ((seekingSlots.service.audioStreamEnded (Service.clockAt 4) ⟨1, "session", 1⟩).Live
        ⟨1, "session", 5⟩ ↔
      (seekingSlots.service.lock 4).Live ⟨1, "session", 5⟩) := by
  have hopened : Transition.Run (Step Service.plainHashes)
      ⟨Service.new (some "https://music.example") 8 ⟨1000, 60⟩ 0, []⟩
      ([.openRoom (Service.clockAt 1) Service.sampleOpening,
          .join (Service.clockAt 2) "token" none "session"] ++
        (List.replicate 5 (.openAudioStream (Service.clockAt 3) ⟨"session"⟩ "/track")))
      seekingSlots := by
    exact .cons (step_of_perform rfl) (.cons (step_of_perform rfl) (.cons (step_of_perform rfl)
      (.cons (step_of_perform rfl) (.cons (step_of_perform rfl) (.cons (step_of_perform rfl)
        (.cons (step_of_perform rfl) (.nil _)))))))
  have hreachable : Reachable Service.plainHashes seekingSlots :=
    ⟨_, _, ⟨⟨_, _, _, _, rfl⟩, rfl⟩, hopened⟩
  exact ((audio_streams_limited hreachable).ended (Service.clockAt 4) (⟨1, "session", 1⟩, "/track")
    (by decide)).2 (⟨1, "session", 5⟩, "/track") (by decide) (by decide)

end Slots

end Harmony.ListenTogether
