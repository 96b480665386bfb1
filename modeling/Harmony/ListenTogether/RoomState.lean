/-
# The Room State and its commands

A Room State is one full snapshot of a Room: its Queue, the current place in
it, the playhead and how many Guests are in. A command is validated without
looking at the Room, then applied at a server time that the caller passes in.
Times are whatever the server clock says, so they may go backwards.

The Queue, the place, the playing flag and the playhead depend on each other.
Every command keeps them consistent, reports exactly whether it changed
something, and never reaches outside the Queue.
-/

import Mathlib.Tactic.Ring
import Harmony.Library.Transition

namespace Harmony.ListenTogether

/-! ### Signed 64-bit arithmetic that saturates -/

def i64Min : ℤ := -2 ^ 63

def i64Max : ℤ := 2 ^ 63 - 1

/-- The value an `i64` holds for an exact result. -/
def saturate (exact : ℤ) : ℤ := max i64Min (min i64Max exact)

def saturatingAdd (a b : ℤ) : ℤ := saturate (a + b)

def saturatingSub (a b : ℤ) : ℤ := saturate (a - b)

theorem saturate_nonneg {exact : ℤ} (h : 0 ≤ exact) : 0 ≤ saturate exact := by
  simp only [saturate, i64Min, i64Max]
  omega

theorem saturate_eq {exact : ℤ} (hmin : i64Min ≤ exact) (hmax : exact ≤ i64Max) :
    saturate exact = exact := by
  simp only [saturate]
  omega

/-! ### Commands -/

/-- A Room Queue holds at most this many Tracks. -/
def maxRoomQueueTracks : ℕ := 500

inductive SkipDirection
  | next
  | previous
  deriving DecidableEq

/-- The `ListenTogetherCommand` schema. -/
inductive Command
  | playTracks (trackIds : List String) (index : ℕ)
  | resume
  | pause
  | seek (positionMs : ℤ)
  | skip (direction : SkipDirection) (fromTrackId : Option String) (fromIndex : Option ℕ)
  | setLyricsOpen (isOpen : Bool)
  deriving DecidableEq

/-- What can be refused without looking at the Room or the library. -/
def Command.validate : Command → Except String Unit
  | .playTracks trackIds index =>
    if trackIds.isEmpty then .error "trackIds cannot be empty"
    else if trackIds.length > maxRoomQueueTracks then .error "trackIds holds too many Tracks"
    else if index ≥ trackIds.length then .error "index is outside trackIds"
    else .ok ()
  | .seek positionMs =>
    if positionMs < 0 then .error "positionMs cannot be negative" else .ok ()
  | _ => .ok ()

/-- A command that passed `validate`, the only kind a Room is given. -/
abbrev ValidCommand := { command : Command // command.validate = .ok () }

variable {index : ℕ}

theorem Command.validate_playTracks {trackIds : List String} :
    (Command.playTracks trackIds index).validate = .ok () ↔
      trackIds.length ≤ maxRoomQueueTracks ∧ index < trackIds.length := by
  simp only [Command.validate, List.isEmpty_iff]
  split_ifs with hempty hlong hindex
  · simp [hempty]
  · simp; omega
  · simp; omega
  · simp; omega

theorem Command.validate_seek {positionMs : ℤ} :
    (Command.seek positionMs).validate = .ok () ↔ 0 ≤ positionMs := by
  simp only [Command.validate]
  split_ifs with hneg
  · simp [hneg]
  · simp; omega

/-! ### The Room State -/

/-- One full snapshot, the `ListenTogetherRoom` schema. The revision is an `i64` that only
counts up from one; as many changes as it takes to overflow it are out of reach. -/
structure RoomState where
  revision : ℕ
  trackIds : List String
  currentIndex : Option ℕ
  playing : Bool
  positionMs : ℤ
  positionAtMs : ℤ
  lyricsOpen : Bool
  guestCount : ℕ
  maxGuests : ℕ
  expiresAt : String
  /-- Set only on a copy made for the Owner. -/
  inviteUrl : Option String
  deriving DecidableEq

namespace RoomState

def new (maxGuests : ℕ) (expiresAt : String) (nowMs : ℤ) : RoomState where
  revision := 1
  trackIds := []
  currentIndex := none
  playing := false
  positionMs := 0
  positionAtMs := nowMs
  lyricsOpen := false
  guestCount := 0
  maxGuests := maxGuests
  expiresAt := expiresAt
  inviteUrl := none

/-- The playhead at `nowMs`. Paused, it stays where it was. -/
def playhead (room : RoomState) (nowMs : ℤ) : ℤ :=
  if room.playing then
    saturatingAdd room.positionMs (max (saturatingSub nowMs room.positionAtMs) 0)
  else room.positionMs

def setPosition (room : RoomState) (positionMs nowMs : ℤ) : RoomState :=
  { room with positionMs := positionMs, positionAtMs := nowMs }

/-- Makes the Track at `index` current, from its start. -/
def startTrack (room : RoomState) (index : ℕ) (nowMs : ℤ) : RoomState :=
  { room with currentIndex := some index }.setPosition 0 nowMs

/-- Whether a Skip names another place than the current one; `none` when it
reads outside the Queue, which panics in the source. -/
def isStale (room : RoomState) (index : ℕ) (fromTrackId : Option String)
    (fromIndex : Option ℕ) : Option Bool := do
  let otherTrack ←
    match fromTrackId with
    | none => some false
    | some id => (room.trackIds[index]?).map fun trackId => trackId != id
  return otherTrack || fromIndex.any fun source => source != index

/-- The Room after a Skip and whether it changed; `none` when it panics. -/
def skip (room : RoomState) (direction : SkipDirection) (fromTrackId : Option String)
    (fromIndex : Option ℕ) (nowMs : ℤ) : Option (Bool × RoomState) :=
  match room.currentIndex with
  | none => some (false, room)
  | some index => do
    if ← room.isStale index fromTrackId fromIndex then return (false, room)
    match direction with
    | .next =>
      if index + 1 < room.trackIds.length then
        return (true, room.startTrack (index + 1) nowMs)
      else if room.playing || room.positionMs != 0 then
        -- Past the end the last Track stays current, stopped at its start.
        return (true, { room with playing := false }.setPosition 0 nowMs)
      else return (false, room)
    | .previous => return (true, room.startTrack (index - 1) nowMs)

/-- The fields a command writes, before the revision: the `match` in `apply`. -/
def change (room : RoomState) (command : Command) (nowMs : ℤ) : Option (Bool × RoomState) :=
  match command with
  | .playTracks trackIds index =>
    some (true, { ({ room with trackIds }.startTrack index nowMs) with playing := true })
  | .resume =>
    if room.currentIndex.isSome && !room.playing then
      -- The clock restarts here, so paused time does not count.
      some (true, { room with positionAtMs := nowMs, playing := true })
    else some (false, room)
  | .pause =>
    if room.playing then
      some (true, { room.setPosition (room.playhead nowMs) nowMs with playing := false })
    else some (false, room)
  | .seek positionMs =>
    if room.currentIndex.isSome then some (true, room.setPosition positionMs nowMs)
    else some (false, room)
  | .skip direction fromTrackId fromIndex => room.skip direction fromTrackId fromIndex nowMs
  | .setLyricsOpen isOpen =>
    if room.lyricsOpen != isOpen then some (true, { room with lyricsOpen := isOpen })
    else some (false, room)

def raiseRevision (room : RoomState) : RoomState := { room with revision := room.revision + 1 }

/-- Applies a validated command and raises the revision when it changed
anything. Returns whether it did; `none` when it panics. -/
def apply (room : RoomState) (command : Command) (nowMs : ℤ) : Option (Bool × RoomState) := do
  let (changed, next) ← room.change command nowMs
  return (changed, if changed then next.raiseRevision else next)

/-- Records a Guest joining or leaving. It changes the snapshot, so it raises
the revision like a command. -/
def setGuestCount (room : RoomState) (guestCount : ℕ) : RoomState :=
  { room with guestCount }.raiseRevision

end RoomState

namespace RoomState

/-! ### Each command, applied -/

section Applied

variable (room : RoomState) (nowMs : ℤ)

/-- The Room after a pause that took effect. -/
def paused : RoomState :=
  { room.setPosition (room.playhead nowMs) nowMs with playing := false }.raiseRevision

/-- The Room after a resume that took effect. -/
def resumed : RoomState := { room with positionAtMs := nowMs, playing := true }.raiseRevision

theorem apply_resume : room.apply .resume nowMs =
    if room.currentIndex.isSome && !room.playing then some (true, room.resumed nowMs)
    else some (false, room) := by
  rw [apply, change]
  split_ifs <;> rfl

theorem apply_pause : room.apply .pause nowMs =
    if room.playing then some (true, room.paused nowMs) else some (false, room) := by
  rw [apply, change]
  split_ifs <;> rfl

theorem apply_seek (positionMs : ℤ) : room.apply (.seek positionMs) nowMs =
    if room.currentIndex.isSome then some (true, (room.setPosition positionMs nowMs).raiseRevision)
    else some (false, room) := by
  rw [apply, change]
  split_ifs <;> rfl

theorem apply_setLyricsOpen (isOpen : Bool) : room.apply (.setLyricsOpen isOpen) nowMs =
    if room.lyricsOpen != isOpen then some (true, { room with lyricsOpen := isOpen }.raiseRevision)
    else some (false, room) := by
  rw [apply, change]
  split_ifs <;> rfl

end Applied

/-! ### What a Room always satisfies -/

/-- The Queue, the place in it, the playing flag and the playhead agree. -/
structure WellFormed (room : RoomState) : Prop where
  index_none : room.currentIndex = none ↔ room.trackIds = []
  index_lt : ∀ index, room.currentIndex = some index → index < room.trackIds.length
  silent : room.currentIndex = none → room.playing = false
  position_nonneg : 0 ≤ room.positionMs

/-- What a command leaves behind: a consistent Room, a truthful report of the
change, and the fields that only the Room's owner code writes. -/
structure Outcome (room : RoomState) (changed : Bool) (next : RoomState) : Prop where
  wellFormed : next.WellFormed
  unchanged : changed = false → next = room
  guestCount : next.guestCount = room.guestCount
  maxGuests : next.maxGuests = room.maxGuests
  inviteUrl : next.inviteUrl = room.inviteUrl

theorem wellFormed_new (maxGuests : ℕ) (expiresAt : String) (nowMs : ℤ) :
    (new maxGuests expiresAt nowMs).WellFormed where
  index_none := by simp [new]
  index_lt := by simp [new]
  silent := by simp [new]
  position_nonneg := by simp [new]

theorem playhead_nonneg {room : RoomState} (h : room.WellFormed) (nowMs : ℤ) :
    0 ≤ room.playhead nowMs := by
  rw [playhead]
  split_ifs
  · exact saturate_nonneg (add_nonneg h.position_nonneg (le_max_right _ _))
  · exact h.position_nonneg

namespace WellFormed

variable {room : RoomState}

/-- A Room with a place in a nonempty Queue may play from anywhere in it. -/
theorem of_place (hindex : room.currentIndex = some index) (hlt : index < room.trackIds.length)
    (hposition : 0 ≤ room.positionMs) :
    room.WellFormed where
  index_none := by
    have hqueue : room.trackIds ≠ [] := List.ne_nil_of_length_pos (Nat.zero_lt_of_lt hlt)
    simp [hindex, hqueue]
  index_lt := by simp [hindex, hlt]
  silent := by simp [hindex]
  position_nonneg := hposition

theorem place_of_playing (h : room.WellFormed) (hplaying : room.playing = true) :
    ∃ index, room.currentIndex = some index := by
  refine Option.ne_none_iff_exists'.mp fun hnone => ?_
  simp [h.silent hnone] at hplaying

end WellFormed

/-! ### What one command does -/

section Commands

variable {room : RoomState}

theorem Outcome.refl (h : room.WellFormed) : room.Outcome false room :=
  ⟨h, fun _ => rfl, rfl, rfl, rfl⟩

theorem startTrack_outcome (hlt : index < room.trackIds.length) (nowMs : ℤ) :
    room.Outcome true (room.startTrack index nowMs) :=
  ⟨.of_place rfl hlt le_rfl, by simp, rfl, rfl, rfl⟩

/-- A place inside the Queue can be compared with a report of it. -/
theorem isStale_isSome (hlt : index < room.trackIds.length) (fromTrackId : Option String)
    (fromIndex : Option ℕ) :
    ∃ stale, room.isStale index fromTrackId fromIndex = some stale := by
  cases fromTrackId with
  | none => exact ⟨_, rfl⟩
  | some id => exact ⟨_, by simp [isStale, List.getElem?_eq_getElem hlt]; rfl⟩

theorem skip_outcome (h : room.WellFormed) (direction : SkipDirection)
    (fromTrackId : Option String) (fromIndex : Option ℕ) (nowMs : ℤ) :
    ∃ changed next, room.skip direction fromTrackId fromIndex nowMs = some (changed, next) ∧
      room.Outcome changed next ∧ next.revision = room.revision := by
  cases hcurrent : room.currentIndex with
  | none => exact ⟨false, room, by simp [skip, hcurrent], .refl h, rfl⟩
  | some index =>
    have hlt := h.index_lt index hcurrent
    obtain ⟨stale, hstale⟩ := isStale_isSome hlt fromTrackId fromIndex
    cases stale with
    | true => exact ⟨false, room, by simp [skip, hcurrent, hstale], .refl h, rfl⟩
    | false =>
      cases direction with
      | previous =>
        exact ⟨true, room.startTrack (index - 1) nowMs, by simp [skip, hcurrent, hstale],
          startTrack_outcome (by omega) nowMs, rfl⟩
      | next =>
        by_cases hnext : index + 1 < room.trackIds.length
        · exact ⟨true, room.startTrack (index + 1) nowMs, by simp [skip, hcurrent, hstale, hnext],
            startTrack_outcome hnext nowMs, rfl⟩
        by_cases hmoves : (room.playing || room.positionMs != 0) = true
        · refine ⟨true, { room with playing := false }.setPosition 0 nowMs, ?_, ?_, rfl⟩
          · simp only [skip, hcurrent, hstale, hnext, hmoves]; rfl
          · exact ⟨.of_place hcurrent hlt le_rfl, by simp, rfl, rfl, rfl⟩
        · refine ⟨false, room, ?_, .refl h, rfl⟩
          simp only [skip, hcurrent, hstale, hnext, hmoves]; rfl

theorem change_outcome (h : room.WellFormed) (command : ValidCommand) (nowMs : ℤ) :
    ∃ changed next, room.change command nowMs = some (changed, next) ∧
      room.Outcome changed next ∧ next.revision = room.revision := by
  obtain ⟨command, hvalid⟩ := command
  cases command with
  | playTracks trackIds index =>
    have hlt := (Command.validate_playTracks.mp hvalid).2
    exact ⟨true, _, rfl, ⟨.of_place rfl hlt le_rfl, by simp, rfl, rfl, rfl⟩, rfl⟩
  | resume =>
    by_cases hresumes : (room.currentIndex.isSome && !room.playing) = true
    · obtain ⟨index, hcurrent⟩ := Option.isSome_iff_exists.mp (Bool.and_eq_true_iff.mp hresumes).1
      exact ⟨true, _, if_pos hresumes,
        ⟨.of_place hcurrent (h.index_lt index hcurrent) h.position_nonneg, by simp, rfl, rfl, rfl⟩,
        rfl⟩
    · exact ⟨false, room, if_neg hresumes, .refl h, rfl⟩
  | pause =>
    by_cases hplaying : room.playing = true
    · obtain ⟨index, hcurrent⟩ := h.place_of_playing hplaying
      exact ⟨true, _, if_pos hplaying,
        ⟨.of_place hcurrent (h.index_lt index hcurrent) (playhead_nonneg h nowMs),
          by simp, rfl, rfl, rfl⟩, rfl⟩
    · exact ⟨false, room, if_neg hplaying, .refl h, rfl⟩
  | seek positionMs =>
    by_cases hplace : room.currentIndex.isSome = true
    · obtain ⟨index, hcurrent⟩ := Option.isSome_iff_exists.mp hplace
      exact ⟨true, _, if_pos hplace,
        ⟨.of_place hcurrent (h.index_lt index hcurrent) (Command.validate_seek.mp hvalid),
          by simp, rfl, rfl, rfl⟩, rfl⟩
    · exact ⟨false, room, if_neg hplace, .refl h, rfl⟩
  | skip direction fromTrackId fromIndex =>
    exact skip_outcome h direction fromTrackId fromIndex nowMs
  | setLyricsOpen isOpen =>
    by_cases hmoves : (room.lyricsOpen != isOpen) = true
    · exact ⟨true, _, if_pos hmoves, ⟨⟨h.index_none, h.index_lt, h.silent, h.position_nonneg⟩,
        by simp, rfl, rfl, rfl⟩, rfl⟩
    · exact ⟨false, room, if_neg hmoves, .refl h, rfl⟩

theorem WellFormed.raiseRevision (h : room.WellFormed) : room.raiseRevision.WellFormed :=
  ⟨h.index_none, h.index_lt, h.silent, h.position_nonneg⟩

/-- A validated command never panics, and its report agrees with what it
wrote. -/
theorem apply_outcome (h : room.WellFormed) (command : ValidCommand) (nowMs : ℤ) :
    ∃ changed next, room.apply command nowMs = some (changed, next) ∧
      room.Outcome changed next ∧ next.revision = room.revision + changed.toNat := by
  obtain ⟨changed, next, hchange, hout, hrevision⟩ := change_outcome h command nowMs
  cases changed with
  | false => exact ⟨false, next, by simp [apply, hchange], hout, by simpa using hrevision⟩
  | true =>
    refine ⟨true, next.raiseRevision, by simp [apply, hchange], ?_, ?_⟩
    · exact ⟨hout.wellFormed.raiseRevision, by simp, hout.guestCount, hout.maxGuests,
        hout.inviteUrl⟩
    · simp [RoomState.raiseRevision, hrevision]

theorem WellFormed.setGuestCount (h : room.WellFormed) (guestCount : ℕ) :
    (room.setGuestCount guestCount).WellFormed :=
  ⟨h.index_none, h.index_lt, h.silent, h.position_nonneg⟩

end Commands

/-! ### Every Room a server can hold -/

/-- What the service may do to a Room State. -/
inductive Event
  | command (command : ValidCommand) (nowMs : ℤ)
  | setGuestCount (guestCount : ℕ)

inductive Step : RoomState → Event → RoomState → Prop
  | command {room next : RoomState} {command : ValidCommand} {nowMs : ℤ} {changed : Bool} :
      room.apply command nowMs = some (changed, next) → Step room (.command command nowMs) next
  | setGuestCount (room : RoomState) (guestCount : ℕ) :
      Step room (.setGuestCount guestCount) (room.setGuestCount guestCount)

/-- The Room States that commands and Guests lead to from a new Room. -/
def Reachable : RoomState → Prop :=
  Transition.Reachable
    (fun room => ∃ maxGuests expiresAt nowMs, room = new maxGuests expiresAt nowMs) Step

theorem Step.wellFormed {room next : RoomState} {event : Event} (hstep : Step room event next)
    (h : room.WellFormed) : next.WellFormed := by
  cases hstep with
  | @command _ command nowMs _ happly =>
    obtain ⟨changed, after, hafter, hout, _⟩ := apply_outcome h command nowMs
    rw [happly] at hafter
    cases hafter
    exact hout.wellFormed
  | setGuestCount guestCount => exact h.setGuestCount guestCount

theorem Reachable.wellFormed {room : RoomState} (h : room.Reachable) : room.WellFormed := by
  refine Transition.Reachable.invariant ?_ (fun _ _ _ hroom hstep => hstep.wellFormed hroom) h
  rintro _ ⟨maxGuests, expiresAt, nowMs, rfl⟩
  exact wellFormed_new maxGuests expiresAt nowMs

theorem Reachable.command {room next : RoomState} {changed : Bool} (h : room.Reachable)
    (command : ValidCommand) (nowMs : ℤ)
    (happly : room.apply command nowMs = some (changed, next)) : next.Reachable :=
  Transition.Reachable.run h (.cons (.command happly) (.nil next))

/-- Every reachable Room is consistent, and any validated command at any server
time neither panics nor misreports: it leaves the Room as it was, or raises
the revision by one. -/
theorem reachable_consistent {room : RoomState} (h : room.Reachable) :
    (room.currentIndex = none ↔ room.trackIds = []) ∧
    (∀ index, room.currentIndex = some index → index < room.trackIds.length) ∧
    (room.currentIndex = none → room.playing = false) ∧
    0 ≤ room.positionMs ∧
    ∀ (command : ValidCommand) (nowMs : ℤ),
      ∃ changed next, room.apply command nowMs = some (changed, next) ∧
        (changed = false → next = room) ∧
        (changed = true → next.revision = room.revision + 1) := by
  have hroom := h.wellFormed
  refine ⟨hroom.index_none, hroom.index_lt, hroom.silent, hroom.position_nonneg, ?_⟩
  intro command nowMs
  obtain ⟨changed, next, happly, hout, hrevision⟩ := apply_outcome hroom command nowMs
  exact ⟨changed, next, happly, hout.unchanged, fun hchanged => by simp [hrevision, hchanged]⟩

/-- A Room with two Tracks queued, playing the first. -/
def startedRoom : RoomState where
  revision := 2
  trackIds := ["a", "b"]
  currentIndex := some 0
  playing := true
  positionMs := 0
  positionAtMs := 1000
  lyricsOpen := false
  guestCount := 0
  maxGuests := 8
  expiresAt := "2026-10-31T00:00:00Z"
  inviteUrl := none

theorem startedRoom_reachable : startedRoom.Reachable := by
  have hnew : (new 8 "2026-10-31T00:00:00Z" 0).Reachable := .start ⟨_, _, _, rfl⟩
  have hplay : (new 8 "2026-10-31T00:00:00Z" 0).apply (.playTracks ["a", "b"] 0) 1000 =
      some (true, startedRoom) := by decide
  exact hnew.command ⟨.playTracks ["a", "b"] 0, by decide⟩ 1000 hplay

theorem startedRoom_consistent :
    startedRoom.Reachable ∧ 0 ≤ startedRoom.positionMs :=
  ⟨startedRoom_reachable, (reachable_consistent startedRoom_reachable).2.2.2.1⟩

end RoomState

end Harmony.ListenTogether
