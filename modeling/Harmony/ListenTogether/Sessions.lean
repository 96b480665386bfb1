/-
# The end of a Guest session

A request holds a Guest session while the lock is free, and event streams and
audio slots outlive the Room they belong to. So a session may have ended, and
another Room may be open, when its next step comes. Every such step finds no
Guest under the session's key. The key stays unused, since only a newly drawn
session token files a Guest and tokens do not repeat.
-/

import Harmony.ListenTogether.Membership

namespace Harmony.ListenTogether

namespace Service

variable {hashes : Hashes} {service next : Service} {key : String} {event : ServiceEvent}

/-! ### Who is a Guest -/

/-- The open Room has a Guest under this key. -/
def IsGuest (service : Service) (key : String) : Prop :=
  ∃ room, service.room = some room ∧ key ∈ room.guests

theorem isGuest_iff {room : Room} (hroom : service.room = some room) :
    service.IsGuest key ↔ key ∈ room.guests := by
  constructor
  · rintro ⟨other, hother, hguest⟩
    cases hroom.symm.trans hother
    exact hguest
  · intro hguest
    exact ⟨room, hroom, hguest⟩

/-- The keys of the session tokens that an operation may draw. -/
def drawnKeys (hashes : Hashes) : ServiceEvent → List String
  | .join _ _ _ drawn => [hashes.sessionKey drawn]
  | _ => []

theorem IsGuest.of_lock {now : Instant} (h : (service.lock now).IsGuest key) :
    service.IsGuest key := by
  rw [lock] at h
  split at h
  · split_ifs at h
    · obtain ⟨room, hroom, -⟩ := h
      cases hroom
    · exact h
  · exact h

/-- Only a join files a Guest, under the key of a newly drawn token. -/
theorem mem_of_roomStep {timings : Timings} {room after : Room}
    (hstep : RoomStep hashes timings event room after) (h : key ∈ after.guests) :
    key ∈ room.guests ∨ key ∈ drawnKeys hashes event := by
  cases hstep with
  | ownerCommand clock => exact .inl h
  | guestCommand clock session guest hguest => exact .inl (Table.mem_of_mem_rewrite _ _ h)
  | takeRead clock session budget guest hguest => exact .inl (Table.mem_of_mem_rewrite _ _ h)
  | openAudioStream clock session target guest hguest streams hway id =>
    exact .inl (Table.mem_of_mem_rewrite _ _ h)
  | audioStreamEnded clock slot hgeneration => exact .inl (Table.mem_of_mem_rewrite _ _ h)
  | subscribe clock session => exact .inl (Table.mem_of_mem_rewrite _ _ h)
  | streamEnded clock presence hgeneration => exact .inl (Table.mem_of_mem_rewrite _ _ h)
  | join clock token currentSession drawn hplace =>
    have hguest : key ∈ AList.insert (hashes.sessionKey drawn) (Guest.new clock.now)
        room.guests := h
    rcases (AList.mem_insert room.guests).mp hguest with rfl | hbefore
    · exact .inr List.mem_cons_self
    · exact .inl hbefore
  | leave clock session => exact .inl (AList.mem_erase.mp h).2
  | finishCommand clock client command changed state happly =>
    cases changed <;> exact .inl h
  | sweep clock =>
    simp only [sweepRoom] at h
    split_ifs at h <;> exact .inl (Table.mem_of_mem_rewrite _ _ h)

theorem IsGuest.of_serviceStep (hstep : ServiceStep hashes service event next)
    (h : next.IsGuest key) : service.IsGuest key ∨ key ∈ drawnKeys hashes event := by
  cases hstep with
  | kept event joins => exact .inl h
  | opened clock opening publicOrigin hroom =>
    exact absurd ((isGuest_iff rfl).mp h) (AList.notMem_empty key)
  | closed clock room hroom =>
    obtain ⟨other, hother, -⟩ := h
    cases hother
  | room event room after nextAudioStream hroom hstep =>
    rcases mem_of_roomStep hstep ((isGuest_iff rfl).mp h) with hbefore | hdrawn
    · exact .inl ((isGuest_iff hroom).mpr hbefore)
    · exact .inr hdrawn

theorem IsGuest.of_step (hstep : Step hashes service event next) (h : next.IsGuest key) :
    service.IsGuest key ∨ key ∈ drawnKeys hashes event := by
  obtain ⟨locked, rfl | ⟨now, rfl⟩, hlocked⟩ := step_spec hstep
  · exact h.of_serviceStep hlocked
  · rcases h.of_serviceStep hlocked with hbefore | hdrawn
    · exact .inl hbefore.of_lock
    · exact .inr hdrawn

/-- By induction on a run: its Guests were Guests before it, or joined in it. -/
theorem IsGuest.of_run {events : List ServiceEvent}
    (hrun : Transition.Run (Step hashes) service events next) (h : next.IsGuest key) :
    service.IsGuest key ∨ key ∈ events.flatMap (drawnKeys hashes) := by
  induction hrun with
  | nil => exact .inl h
  | cons hstep _ ih =>
    rcases ih h with hmiddle | hdrawn
    · rcases hmiddle.of_step hstep with hbefore | hdrawn
      · exact .inl hbefore
      · exact .inr (List.mem_append_left _ hdrawn)
    · exact .inr (List.mem_append_right _ hdrawn)

/-- An ended session is no Guest again, as long as tokens do not repeat. -/
theorem not_isGuest_of_ended {start live ended : Service}
    {before during after : List ServiceEvent} (hinit : Init start)
    (hbefore : Transition.Run (Step hashes) start before live) (hlive : live.IsGuest key)
    (hended : ¬ ended.IsGuest key) (hafter : Transition.Run (Step hashes) ended after next)
    (hfresh : ((before ++ during ++ after).flatMap (drawnKeys hashes)).Nodup) :
    ¬ next.IsGuest key := by
  intro hnext
  have hdrawnBefore : key ∈ before.flatMap (drawnKeys hashes) := by
    rcases hlive.of_run hbefore with hstart | hdrawn
    · obtain ⟨publicOrigin, maxGuests, timings, now, rfl⟩ := hinit
      obtain ⟨room, hroom, -⟩ := hstart
      cases hroom
    · exact hdrawn
  have hdrawnAfter : key ∈ after.flatMap (drawnKeys hashes) :=
    (hnext.of_run hafter).resolve_left hended
  rw [List.flatMap_append, List.flatMap_append] at hfresh
  exact List.disjoint_of_nodup_append hfresh (List.mem_append_left _ hdrawnBefore) hdrawnAfter

/-! ### What an ended session can still do -/

/-- The refusal of a request whose session is no Guest's. -/
def refusal (service : Service) : RoomError :=
  if service.room.isSome then .sessionEnded else .notFound

/-- Every step through the session fails or does nothing: at most it finds the
Room expired. -/
structure Inert (hashes : Hashes) (service : Service) (key : String) : Prop where
  takeCommand : ∀ clock, service.takeCommand clock (.guest ⟨key⟩) =
    (.error (service.lock clock.lockedAt).refusal, service.lock clock.lockedAt)
  finishCommand : ∀ clock command, service.finishCommand clock (.guest ⟨key⟩) command =
    some (.error (service.lock clock.lockedAt).refusal, service.lock clock.lockedAt)
  roomView : ∀ clock, service.roomView clock (.guest ⟨key⟩) =
    (.error (service.lock clock.lockedAt).refusal, service.lock clock.lockedAt)
  takeRead : ∀ clock budget, service.takeRead clock ⟨key⟩ budget =
    (.error (service.lock clock.lockedAt).refusal, service.lock clock.lockedAt)
  subscribe : ∀ clock, service.subscribe clock (.guest ⟨key⟩) =
    (.error (service.lock clock.lockedAt).refusal, service.lock clock.lockedAt)
  openAudioStream : ∀ clock target, service.openAudioStream clock ⟨key⟩ target =
    (.error (service.lock clock.lockedAt).refusal, service.lock clock.lockedAt)
  leave : ∀ clock, service.leave clock ⟨key⟩ =
    (.error (service.lock clock.lockedAt).refusal, service.lock clock.lockedAt)
  authenticate : ∀ clock token, hashes.sessionKey token = key →
    service.authenticate hashes clock token = (none, service.lock clock.lockedAt)
  streamEnded : ∀ clock generation, service.streamEnded clock ⟨generation, key⟩ =
    service.lock clock.lockedAt
  audioStreamEnded : ∀ clock generation id, service.audioStreamEnded clock ⟨generation, key, id⟩ =
    service.lock clock.lockedAt

theorem lookup_eq_none (h : ¬ service.IsGuest key) {now : Instant} {room : Room}
    (hroom : (service.lock now).room = some room) : room.guests.lookup key = none := by
  rw [AList.lookup_eq_none]
  intro hguest
  exact h (IsGuest.of_lock ((isGuest_iff hroom).mpr hguest))

theorem withRoom_refused {α : Type} {clock : Clock} {action : Room → Except RoomError α × Room}
    (haction : ∀ room, (service.lock clock.lockedAt).room = some room →
      action room = (.error .sessionEnded, room)) :
    service.withRoom clock action =
      (.error (service.lock clock.lockedAt).refusal, service.lock clock.lockedAt) := by
  simp only [withRoom, refusal]
  cases hroom : (service.lock clock.lockedAt).room with
  | none => rfl
  | some room =>
    simp only [haction room hroom, Option.isSome_some, if_true]
    rw [← hroom]

theorem require_refused {room : Room} (h : room.guests.lookup key = none) :
    room.require (.guest ⟨key⟩) = .error .sessionEnded := by
  simp [Room.require, h]

theorem updateGuest_refused (h : ¬ service.IsGuest key) (clock : Clock) (generation : ℕ)
    (change : Guest → Guest) :
    service.updateGuest clock generation key change = service.lock clock.lockedAt := by
  simp only [updateGuest]
  cases hroom : (service.lock clock.lockedAt).room with
  | none => rfl
  | some room => simp [lookup_eq_none h hroom]

theorem inert_of_not_isGuest (h : ¬ service.IsGuest key) : Inert hashes service key where
  takeCommand clock := withRoom_refused fun room hroom => by
    simp [Room.takeCommand, lookup_eq_none h hroom]
  finishCommand clock command := by
    simp only [finishCommand, refusal]
    cases hroom : (service.lock clock.lockedAt).room with
    | none => rfl
    | some room => simp [require_refused (lookup_eq_none h hroom)]
  roomView clock := withRoom_refused fun room hroom => by
    simp [require_refused (lookup_eq_none h hroom), Except.map]
  takeRead clock budget := withRoom_refused fun room hroom => by
    simp [lookup_eq_none h hroom]
  subscribe clock := withRoom_refused fun room hroom => by
    simp [require_refused (lookup_eq_none h hroom)]
  openAudioStream clock target := by
    simp only [openAudioStream, refusal]
    cases hroom : (service.lock clock.lockedAt).room with
    | none => rfl
    | some room => simp [lookup_eq_none h hroom]
  leave clock := withRoom_refused fun room hroom => by
    simp [lookup_eq_none h hroom]
  authenticate clock token htoken := by
    subst htoken
    simp only [authenticate]
    cases hroom : (service.lock clock.lockedAt).room with
    | none => rfl
    | some room => simp [lookup_eq_none h hroom]
  streamEnded clock generation := updateGuest_refused h clock generation _
  audioStreamEnded clock generation id := updateGuest_refused h clock generation _

theorem room_lock (service : Service) (now : Instant) :
    (service.lock now).room = service.room ∨ (service.lock now).room = none := by
  rw [lock]
  split
  · split_ifs
    · exact .inr rfl
    · exact .inl rfl
  · exact .inl rfl

/-- A session that ended, however it ended and whatever Rooms are opened since,
stays ended: each later step through it, also the drop of a stream or slot of
any Room, is refused or does nothing, and the Room then open is left as it is or
was found expired. Session tokens are taken not to repeat under their hash. -/
theorem ended_session_inert {start live ended : Service} {before during after : List ServiceEvent}
    (hinit : Init start) (hbefore : Transition.Run (Step hashes) start before live)
    (hlive : live.IsGuest key) (_hduring : Transition.Run (Step hashes) live during ended)
    (hended : ¬ ended.IsGuest key) (hafter : Transition.Run (Step hashes) ended after next)
    (hfresh : ((before ++ during ++ after).flatMap (drawnKeys hashes)).Nodup) :
    Inert hashes next key ∧
      ∀ now, (next.lock now).room = next.room ∨ (next.lock now).room = none := by
  have hnext := not_isGuest_of_ended hinit hbefore hlive hended hafter hfresh
  exact ⟨inert_of_not_isGuest hnext, room_lock next⟩

/-- The Guest of `joinedService` leaves, the Room is closed, another one is
opened and somebody else joins it. -/
theorem left_session_inert :
    ∃ later, Transition.Run (Step plainHashes) joinedService
        [.leave (clockAt 3) ⟨"session"⟩, .close (clockAt 4), .openRoom (clockAt 5) sampleOpening,
          .join (clockAt 6) "token" (some "session") "another"] later ∧
      later.streamEnded (clockAt 7) ⟨1, "session"⟩ = later.lock 7 := by
  have hjoined : Transition.Run (Step plainHashes)
      (new (some "https://music.example") 8 ⟨1000, 60⟩ 0)
      [.openRoom (clockAt 1) sampleOpening, .join (clockAt 2) "token" none "session"]
      joinedService := .cons rfl (.cons rfl (.nil _))
  have hleave : Transition.Run (Step plainHashes) joinedService
      [.leave (clockAt 3) ⟨"session"⟩] (joinedService.leave (clockAt 3) ⟨"session"⟩).2 :=
    .cons rfl (.nil _)
  have hlive : joinedService.IsGuest "session" := ⟨_, rfl, by decide⟩
  have hended : ¬ (joinedService.leave (clockAt 3) ⟨"session"⟩).2.IsGuest "session" := by
    rintro ⟨room, hroom, hguest⟩
    cases hroom
    revert hguest
    decide
  obtain ⟨later, hlater⟩ : ∃ later, Transition.Run (Step plainHashes)
      (joinedService.leave (clockAt 3) ⟨"session"⟩).2
      [.close (clockAt 4), .openRoom (clockAt 5) sampleOpening,
        .join (clockAt 6) "token" (some "session") "another"] later :=
    ⟨_, .cons rfl (.cons rfl (.cons rfl (.nil _)))⟩
  have hinert := ended_session_inert ⟨_, _, _, _, rfl⟩ hjoined hlive hleave hended hlater
    (by decide)
  exact ⟨later, hleave.append hlater, hinert.1.streamEnded (clockAt 7) 1⟩

end Service

end Harmony.ListenTogether
