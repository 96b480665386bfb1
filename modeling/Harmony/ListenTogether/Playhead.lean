/-
# The playhead on the server and on its clients

The server keeps the position as an anchor: where the playhead was at a server
time. Playing, the position grows with the clock from there; a pause freezes it
and a resume moves the anchor without moving the playhead. A client computes the
position itself, from the newest snapshot and its estimate of the server time.

On the server it is the time the Room spent playing, as long as the clock does not go
backwards past the anchor and nothing leaves the range of an `i64`. A client computes
with doubles: it arrives at the same number as long as none of its values is larger than
`2 ^ 53`, beyond which not every integer is one.
-/

import Harmony.ListenTogether.RoomState
import Mathlib.Tactic.NormNum

namespace Harmony.ListenTogether

open RoomState

/-! ### JavaScript numbers -/

/-- The double nearest to an integer, which has 53 significant bits; of two, the one with
an even last bit. -/
def toNumber (n : ℤ) : ℤ :=
  let unit : ℤ := 2 ^ (n.natAbs.log2 - 52)
  let rest := n % unit
  if 2 * rest < unit ∨ 2 * rest = unit ∧ n / unit % 2 = 0 then n - rest else n - rest + unit

/-- Up to there every integer is a double. -/
def IsSafe (n : ℤ) : Prop := n.natAbs ≤ 2 ^ 53

instance (n : ℤ) : Decidable (IsSafe n) := inferInstanceAs (Decidable (_ ≤ _))

theorem IsSafe.toNumber {n : ℤ} (h : IsSafe n) : toNumber n = n := by
  have hunit : (2 ^ (n.natAbs.log2 - 52) : ℤ) ∣ n := by
    rcases h.lt_or_eq with hlt | heq
    · have hlog : n.natAbs.log2 - 52 = 0 := by
        rcases eq_or_ne n.natAbs 0 with hzero | hne
        · rw [hzero]
          rfl
        · have hlog := (Nat.log2_lt hne).mpr hlt
          omega
      rw [hlog, pow_zero]
      exact one_dvd n
    · rw [heq, Nat.log2_two_pow, ← Int.dvd_natAbs, heq]
      norm_num
  have hrest : n % 2 ^ (n.natAbs.log2 - 52) = 0 := Int.emod_eq_zero_of_dvd hunit
  simp only [ListenTogether.toNumber, hrest]
  rw [if_pos (Or.inl (by positivity)), sub_zero]

/-- The position a client computes from a snapshot. The snapshot's times, the client's and
every result are JavaScript numbers. -/
def expectedPositionMs (room : RoomState) (serverNowMs : ℤ) : ℤ :=
  if !room.playing then toNumber room.positionMs
  else toNumber (toNumber room.positionMs +
    max 0 (toNumber (toNumber serverNowMs - toNumber room.positionAtMs)))

/-! ### Pausing and resuming over time -/

inductive Transport
  | pause
  | resume

def Transport.command : Transport → Command
  | .pause => .pause
  | .resume => .resume

/-- The Room after pauses and resumes at the given server times. -/
def afterTransport : RoomState → List (Transport × ℤ) → Option RoomState
  | room, [] => some room
  | room, (transport, nowMs) :: rest => do
    let (_, next) ← room.apply transport.command nowMs
    afterTransport next rest

/-- How long the Room plays between `startMs` and `endMs`. -/
def playingTime : RoomState → ℤ → List (Transport × ℤ) → ℤ → Option ℤ
  | room, startMs, [], endMs => some (if room.playing then endMs - startMs else 0)
  | room, startMs, (transport, nowMs) :: rest, endMs => do
    let (_, next) ← room.apply transport.command nowMs
    let later ← playingTime next nowMs rest endMs
    return (if room.playing then nowMs - startMs else 0) + later

namespace RoomState

variable {room : RoomState} {startMs nowMs : ℤ} {events : List (Transport × ℤ)} {endMs : ℤ}

/-- The playhead at `nowMs` is computed without saturating. -/
def ExactAt (room : RoomState) (nowMs : ℤ) : Prop :=
  room.playing = true →
    i64Min ≤ nowMs - room.positionAtMs ∧ nowMs - room.positionAtMs ≤ i64Max ∧
      room.positionMs + max (nowMs - room.positionAtMs) 0 ≤ i64Max

instance (room : RoomState) (nowMs : ℤ) : Decidable (room.ExactAt nowMs) :=
  inferInstanceAs (Decidable (_ → _))

/-- Nothing saturates at any command, nor at the end. -/
def NoSaturation : RoomState → List (Transport × ℤ) → ℤ → Prop
  | room, [], endMs => room.ExactAt endMs
  | room, (transport, nowMs) :: rest, endMs =>
    room.ExactAt nowMs ∧
      ∀ applied ∈ room.apply transport.command nowMs, NoSaturation applied.2 rest endMs

instance decidableNoSaturation : ∀ (room : RoomState) (events : List (Transport × ℤ)) (endMs : ℤ),
    Decidable (room.NoSaturation events endMs)
  | room, [], endMs => inferInstanceAs (Decidable (room.ExactAt endMs))
  | room, (transport, nowMs) :: rest, endMs =>
    have _later : ∀ next : RoomState, Decidable (next.NoSaturation rest endMs) :=
      fun next => decidableNoSaturation next rest endMs
    inferInstanceAs (Decidable (room.ExactAt nowMs ∧
      ∀ applied ∈ room.apply transport.command nowMs, NoSaturation applied.2 rest endMs))

theorem playhead_of_playing (hposition : 0 ≤ room.positionMs) (hexact : room.ExactAt nowMs)
    (hplaying : room.playing = true) :
    room.playhead nowMs = room.positionMs + max (nowMs - room.positionAtMs) 0 := by
  obtain ⟨hmin, hmax, htotal⟩ := hexact hplaying
  have hlow : i64Min ≤ room.positionMs + max (nowMs - room.positionAtMs) 0 := by
    simp only [i64Min]
    omega
  rw [playhead, if_pos hplaying, saturatingSub, saturate_eq hmin hmax, saturatingAdd,
    saturate_eq hlow htotal]

theorem playhead_of_paused (hpaused : room.playing = false) :
    room.playhead nowMs = room.positionMs := by
  simp [playhead, hpaused]

/-- No number that a client computes with from the snapshot is too large. -/
structure SafeAt (room : RoomState) (nowMs : ℤ) : Prop where
  position : IsSafe room.positionMs
  anchor : room.playing = true → IsSafe room.positionAtMs
  now : room.playing = true → IsSafe nowMs
  elapsed : room.playing = true → IsSafe (nowMs - room.positionAtMs)
  total : room.playing = true → IsSafe (room.positionMs + max 0 (nowMs - room.positionAtMs))

theorem SafeAt.exactAt (h : room.SafeAt nowMs) : room.ExactAt nowMs := by
  intro hplaying
  have helapsed := h.elapsed hplaying
  have htotal := h.total hplaying
  simp only [IsSafe, i64Min, i64Max] at *
  omega

/-- The client computes the server's playhead from the snapshot it holds, exactly. -/
theorem expectedPositionMs_eq_playhead (hposition : 0 ≤ room.positionMs)
    (hsafe : room.SafeAt nowMs) :
    expectedPositionMs room nowMs = room.playhead nowMs ∧ IsSafe (room.playhead nowMs) := by
  cases hplaying : room.playing with
  | false => simp [expectedPositionMs, playhead, hplaying, hsafe.position, hsafe.position.toNumber]
  | true =>
    rw [playhead_of_playing hposition hsafe.exactAt hplaying, max_comm]
    refine ⟨?_, hsafe.total hplaying⟩
    rw [expectedPositionMs, hplaying, Bool.not_true, if_neg Bool.false_ne_true,
      hsafe.position.toNumber, (hsafe.anchor hplaying).toNumber, (hsafe.now hplaying).toNumber,
      (hsafe.elapsed hplaying).toNumber, (hsafe.total hplaying).toNumber]

theorem ExactAt.mono (hexact : room.ExactAt nowMs) (hanchor : room.positionAtMs ≤ startMs)
    (hlater : startMs ≤ nowMs) : room.ExactAt startMs := by
  intro hplaying
  obtain ⟨hmin, hmax, htotal⟩ := hexact hplaying
  simp only [i64Min] at *
  omega

/-- Without a command in between, the playhead grows with the clock. -/
theorem playhead_add (hposition : 0 ≤ room.positionMs) (hexact : room.ExactAt nowMs)
    (hanchor : room.positionAtMs ≤ startMs) (hlater : startMs ≤ nowMs) :
    room.playhead nowMs =
      room.playhead startMs + if room.playing then nowMs - startMs else 0 := by
  cases hplaying : room.playing with
  | false => simp [playhead, hplaying]
  | true =>
    rw [playhead_of_playing hposition hexact hplaying,
      playhead_of_playing hposition (hexact.mono hanchor hlater) hplaying, if_pos rfl]
    omega

/-- A pause or a resume leaves the playhead where it is and the anchor at the
clock. -/
theorem apply_transport (h : room.WellFormed) (transport : Transport)
    (hanchor : room.positionAtMs ≤ nowMs) :
    ∃ changed next, room.apply transport.command nowMs = some (changed, next) ∧
      next.WellFormed ∧ next.positionAtMs ≤ nowMs ∧
      (next.ExactAt nowMs → next.playhead nowMs = room.playhead nowMs) := by
  have hvalid : transport.command.validate = .ok () := by cases transport <;> rfl
  obtain ⟨changed, next, happly, hout, -⟩ := apply_outcome h ⟨transport.command, hvalid⟩ nowMs
  refine ⟨changed, next, happly, hout.wellFormed, ?_⟩
  cases transport with
  | pause =>
    simp only [Transport.command, apply_pause] at happly
    split_ifs at happly with hplaying
    · cases happly
      exact ⟨le_rfl, fun _ => rfl⟩
    · cases happly
      exact ⟨hanchor, fun _ => rfl⟩
  | resume =>
    simp only [Transport.command, apply_resume] at happly
    split_ifs at happly with hresumes
    · cases happly
      refine ⟨le_rfl, fun hexact => ?_⟩
      have hpaused : room.playing = false := by simp_all
      have hstart : (room.resumed nowMs).playhead nowMs =
          room.positionMs + max (nowMs - nowMs) 0 :=
        playhead_of_playing hout.wellFormed.position_nonneg hexact rfl
      rw [hstart, playhead_of_paused hpaused]
      omega
    · cases happly
      exact ⟨hanchor, fun _ => rfl⟩

/-- The clock runs on from `startMs` through every command to `endMs`. -/
def InOrder (startMs : ℤ) (events : List (Transport × ℤ)) (endMs : ℤ) : Prop :=
  (startMs :: (events.map Prod.snd ++ [endMs])).IsChain (· ≤ ·)

theorem inOrder_nil : InOrder startMs [] endMs ↔ startMs ≤ endMs := by
  simp [InOrder]

theorem inOrder_cons {transport : Transport} :
    InOrder startMs ((transport, nowMs) :: events) endMs ↔
      startMs ≤ nowMs ∧ InOrder nowMs events endMs := by
  simp [InOrder]

theorem NoSaturation.start (hexact : room.NoSaturation events endMs)
    (hanchor : room.positionAtMs ≤ startMs) (horder : InOrder startMs events endMs) :
    room.ExactAt startMs := by
  cases events with
  | nil => exact ExactAt.mono hexact hanchor (inOrder_nil.mp horder)
  | cons event events => exact ExactAt.mono hexact.1 hanchor (inOrder_cons.mp horder).1

theorem playhead_after (h : room.WellFormed) (hanchor : room.positionAtMs ≤ startMs)
    (horder : InOrder startMs events endMs) (hexact : room.NoSaturation events endMs) :
    ∃ final total, afterTransport room events = some final ∧
      playingTime room startMs events endMs = some total ∧
      final.playhead endMs = room.playhead startMs + total ∧ final.WellFormed := by
  induction events generalizing room startMs with
  | nil =>
    exact ⟨room, _, rfl, rfl,
      playhead_add h.position_nonneg hexact hanchor (inOrder_nil.mp horder), h⟩
  | cons event events ih =>
    obtain ⟨transport, nowMs⟩ := event
    obtain ⟨hnow, hrest⟩ := inOrder_cons.mp horder
    obtain ⟨changed, next, happly, hnext, hnextAnchor, hkept⟩ :=
      apply_transport h transport (hanchor.trans hnow)
    have hlater := hexact.2 (changed, next) happly
    obtain ⟨final, total, hafter, htotal, hplayhead, hfinal⟩ :=
      ih hnext hnextAnchor hrest hlater
    refine ⟨final, (if room.playing then nowMs - startMs else 0) + total, ?_, ?_, ?_, hfinal⟩
    · simp [afterTransport, happly, hafter]
    · simp [playingTime, happly, htotal]
    · calc
        final.playhead endMs = room.playhead nowMs + total := by
          rw [hplayhead, hkept (hlater.start hnextAnchor hrest)]
        _ = room.playhead startMs + (if room.playing then nowMs - startMs else 0) + total := by
          rw [playhead_add h.position_nonneg hexact.1 hanchor hnow]
        _ = room.playhead startMs + ((if room.playing then nowMs - startMs else 0) + total) :=
          add_assoc _ _ _

/-- After any pauses and resumes at server times that do not go backwards, the
playhead is where it started plus the time the Room played. From the newest
snapshot a client computes the same playhead at every time, and a pause freezes
exactly that, where no number is too large for it. -/
theorem clients_agree_on_playhead (h : room.Reachable) (startMs : ℤ)
    (events : List (Transport × ℤ)) (endMs : ℤ) (hanchor : room.positionAtMs ≤ startMs)
    (horder : InOrder startMs events endMs) (hexact : room.NoSaturation events endMs) :
    ∃ final total, afterTransport room events = some final ∧
      playingTime room startMs events endMs = some total ∧
      final.playhead endMs = room.playhead startMs + total ∧
      ∀ atMs, final.SafeAt atMs →
        expectedPositionMs final atMs = final.playhead atMs ∧
        ∀ frozen, final.apply .pause atMs = some (true, frozen) →
          frozen.positionMs = expectedPositionMs final atMs ∧
          ∀ laterMs, expectedPositionMs frozen laterMs = frozen.positionMs ∧
            frozen.playhead laterMs = frozen.positionMs := by
  obtain ⟨final, total, hafter, htotal, hplayhead, hfinal⟩ :=
    playhead_after h.wellFormed hanchor horder hexact
  refine ⟨final, total, hafter, htotal, hplayhead, fun atMs hsafe => ?_⟩
  obtain ⟨hagree, hsmall⟩ := expectedPositionMs_eq_playhead hfinal.position_nonneg hsafe
  refine ⟨hagree, fun frozen hpause => ?_⟩
  rw [apply_pause] at hpause
  split_ifs at hpause
  · cases hpause
    exact ⟨hagree.symm, fun laterMs => ⟨hsmall.toNumber, rfl⟩⟩
  · exact absurd (Prod.mk.inj (Option.some.inj hpause)).1 Bool.false_ne_true

theorem clients_agree_on_startedRoom :
    ∃ final total, afterTransport startedRoom [(.pause, 4000), (.resume, 6000)] = some final ∧
      playingTime startedRoom 2000 [(.pause, 4000), (.resume, 6000)] 7000 = some total ∧
      final.playhead 7000 = startedRoom.playhead 2000 + total ∧
      expectedPositionMs final 7000 = final.playhead 7000 := by
  have hexact : startedRoom.NoSaturation [(.pause, 4000), (.resume, 6000)] 7000 := by decide
  obtain ⟨final, total, hafter, htotal, hplayhead, hclient⟩ :=
    clients_agree_on_playhead startedRoom_reachable 2000 [(.pause, 4000), (.resume, 6000)] 7000
      (by decide) (by simp [InOrder]) hexact
  have hroom : some final =
      some { startedRoom with revision := 4, positionMs := 3000, positionAtMs := 6000 } :=
    hafter.symm.trans (by decide)
  cases hroom
  have hsafe := hclient 7000 ⟨by decide, fun _ => by decide, fun _ => by decide,
    fun _ => by decide, fun _ => by decide⟩
  exact ⟨_, total, hafter, htotal, hplayhead, hsafe.1⟩

/-- The Room of before, paused and moved to a position that is no double. -/
def movedAfar : RoomState :=
  { startedRoom with revision := 4, playing := false, positionMs := 2 ^ 53 + 1 }

theorem movedAfar_reachable : movedAfar.Reachable := by
  have hpause : startedRoom.apply .pause 1000 =
      some (true, { startedRoom with revision := 3, playing := false }) := by decide
  have hseek : ({ startedRoom with revision := 3, playing := false } : RoomState).apply
      (.seek (2 ^ 53 + 1)) 1000 = some (true, movedAfar) := by decide
  have hpaused := startedRoom_reachable.command ⟨.pause, by decide⟩ 1000 hpause
  exact hpaused.command ⟨.seek (2 ^ 53 + 1), by decide⟩ 1000 hseek

/-- The client is a millisecond short there. -/
theorem client_rounds_large_position : ¬∀ room : RoomState, room.Reachable → ∀ nowMs,
    room.ExactAt nowMs → expectedPositionMs room nowMs = room.playhead nowMs := by
  intro h
  have hsame := h movedAfar movedAfar_reachable 1000 (by decide)
  exact absurd hsame (by decide +kernel)

end RoomState

end Harmony.ListenTogether
