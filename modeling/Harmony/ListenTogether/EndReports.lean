/-
# Reports of the end of a Track

Every client in a Room reports the end of the current Track with the same Skip,
naming the Track and its place in the Queue. Between the reports other commands
arrive in any order: pauses, resumes, seeks and the lyrics view.

While a later place exists, the first report moves the Room on and every other
one names a place the Room has left. At the last place the Room does not move:
the first report stops it at its start, and a later one changes it only after
somebody has resumed it or moved it off the start. The number of reports that
change the Room is therefore bounded by the number of those commands.
-/

import Harmony.ListenTogether.RoomState

namespace Harmony.ListenTogether

/-! ### Commands while a Track ends -/

/-- A command that clients send while the Track they report stays current. -/
inductive EndingCommand
  | report
  | pause
  | resume
  | seek (positionMs : ℕ)
  | setLyricsOpen (isOpen : Bool)
  deriving DecidableEq

namespace EndingCommand

/-- The report names the Track and its place, as every client sends it. -/
def command (trackId : String) (index : ℕ) : EndingCommand → Command
  | .report => .skip .next (some trackId) (some index)
  | .pause => .pause
  | .resume => .resume
  | .seek positionMs => .seek positionMs
  | .setLyricsOpen isOpen => .setLyricsOpen isOpen

theorem command_validate (trackId : String) (index : ℕ) (ending : EndingCommand) :
    (ending.command trackId index).validate = .ok () := by
  cases ending with
  | seek positionMs => exact Command.validate_seek.mpr (Int.natCast_nonneg positionMs)
  | _ => rfl

/-- Whether the command can bring a stopped Room off its start. -/
def restarts : EndingCommand → Bool
  | .resume => true
  | .seek positionMs => positionMs != 0
  | _ => false

end EndingCommand

/-- Applies the commands in order. Returns how many of the reports changed the
Room and the Room they lead to; `none` when one panics. -/
def reportsCounted (trackId : String) (index : ℕ) :
    RoomState → List (EndingCommand × ℤ) → Option (ℕ × RoomState)
  | room, [] => some (0, room)
  | room, (ending, nowMs) :: rest => do
    let (changed, next) ← room.apply (ending.command trackId index) nowMs
    let (counted, final) ← reportsCounted trackId index next rest
    return ((changed && ending == .report).toNat + counted, final)

/-! ### The reports that may still count -/

namespace RoomState

variable {room : RoomState} {trackId : String} {index : ℕ}

/-- The Room is at the reported place, or has moved on to the next one. -/
structure Ending (trackId : String) (index : ℕ) (room : RoomState) : Prop where
  wellFormed : room.WellFormed
  track : room.trackIds[index]? = some trackId
  place : room.currentIndex = some index ∨ room.currentIndex = some (index + 1)

/-- Stopped at its start, where a report finds nothing to change. -/
def isStopped (room : RoomState) : Bool := !room.playing && room.positionMs == 0

def hasNext (room : RoomState) (index : ℕ) : Bool := index + 1 < room.trackIds.length

/-- How many reports of `index` can still change the Room by themselves. -/
def pendingReports (index : ℕ) (room : RoomState) : ℕ :=
  if room.currentIndex = some index ∧ (room.hasNext index ∨ room.isStopped = false) then 1 else 0

theorem pendingReports_le_one : room.pendingReports index ≤ 1 := by
  rw [pendingReports]
  split_ifs <;> omega

theorem pendingReports_of_moved (hmoved : room.currentIndex = some (index + 1)) :
    room.pendingReports index = 0 := by
  simp [pendingReports, hmoved]

theorem pendingReports_of_next (hplace : room.currentIndex = some index)
    (hnext : room.hasNext index = true) : room.pendingReports index = 1 := by
  simp [pendingReports, hplace, hnext]

theorem pendingReports_of_last (hplace : room.currentIndex = some index)
    (hlast : room.hasNext index = false) :
    room.pendingReports index = (!room.isStopped).toNat := by
  cases hstopped : room.isStopped <;> simp [pendingReports, hplace, hlast, hstopped]

/-- A command that keeps the place pends no further report while a next place
exists, and none otherwise unless it brings a stopped Room off its start. -/
theorem pendingReports_of_kept {next : RoomState} {restarts : Bool} (index : ℕ)
    (hplace : next.currentIndex = room.currentIndex) (htracks : next.trackIds = room.trackIds)
    (hstopped : room.isStopped = true → restarts = false → next.isStopped = true) :
    next.pendingReports index ≤ room.pendingReports index + restarts.toNat ∧
      (room.hasNext index = true → next.pendingReports index ≤ room.pendingReports index) := by
  have hnext : next.hasNext index = room.hasNext index := by rw [hasNext, hasNext, htracks]
  by_cases hcurrent : room.currentIndex = some index
  · cases hhas : room.hasNext index with
    | true =>
      have hone := pendingReports_of_next hcurrent hhas
      have hle : next.pendingReports index ≤ 1 := pendingReports_le_one
      exact ⟨by omega, fun _ => by omega⟩
    | false =>
      rw [pendingReports_of_last hcurrent hhas,
        pendingReports_of_last (hplace.trans hcurrent) (hnext.trans hhas)]
      refine ⟨?_, fun h => absurd h Bool.false_ne_true⟩
      cases restarts with
      | true => exact le_add_left (Bool.toNat_le _)
      | false =>
        cases hroom : room.isStopped with
        | true => simp [hstopped hroom rfl]
        | false => simpa using Bool.toNat_le _
  · have hzero : next.pendingReports index = 0 := by simp [pendingReports, hplace, hcurrent]
    exact ⟨by omega, fun _ => by omega⟩

/-! ### What a report does -/

theorem isStale_report (h : room.Ending trackId index) {source : ℕ}
    (hsource : room.currentIndex = some source) :
    room.isStale source (some trackId) (some index) = some (source != index) := by
  have hlt := h.wellFormed.index_lt source hsource
  rcases h.place with hplace | hplace
  · obtain rfl : index = source := Option.some.inj (hplace.symm.trans hsource)
    simp [isStale, h.track]
  · obtain rfl : index + 1 = source := Option.some.inj (hplace.symm.trans hsource)
    have hsource : (index + 1 != index) = true := bne_iff_ne.mpr (by omega)
    have hreported : (index != index + 1) = true := bne_iff_ne.mpr (by omega)
    simp [isStale, List.getElem?_eq_getElem hlt, hsource, hreported]

/-- The first report of a place that is not the last moves the Room on. -/
theorem apply_report_next (h : room.Ending trackId index) (nowMs : ℤ)
    (hplace : room.currentIndex = some index) (hnext : room.hasNext index = true) :
    room.apply (EndingCommand.report.command trackId index) nowMs =
      some (true, (room.startTrack (index + 1) nowMs).raiseRevision) := by
  have hstale := isStale_report h hplace
  have hlt : index + 1 < room.trackIds.length := by simpa [hasNext] using hnext
  simp [EndingCommand.command, apply, change, skip, hplace, hstale, hlt]

/-- A report of the last place stops a Room that plays or is off its start. -/
theorem apply_report_last (h : room.Ending trackId index) (nowMs : ℤ)
    (hplace : room.currentIndex = some index) (hlast : room.hasNext index = false)
    (hstopped : room.isStopped = false) :
    room.apply (EndingCommand.report.command trackId index) nowMs =
      some (true, ({ room with playing := false }.setPosition 0 nowMs).raiseRevision) := by
  have hstale := isStale_report h hplace
  have hend : ¬ index + 1 < room.trackIds.length := by simpa [hasNext] using hlast
  have hmoves : room.playing = true ∨ room.positionMs ≠ 0 := by
    cases hplaying : room.playing <;> simp_all [isStopped]
  simp [EndingCommand.command, apply, change, skip, hplace, hstale, hend, hmoves]

theorem apply_report_stopped (h : room.Ending trackId index) (nowMs : ℤ)
    (hplace : room.currentIndex = some index) (hlast : room.hasNext index = false)
    (hstopped : room.isStopped = true) :
    room.apply (EndingCommand.report.command trackId index) nowMs = some (false, room) := by
  have hstale := isStale_report h hplace
  have hend : ¬ index + 1 < room.trackIds.length := by simpa [hasNext] using hlast
  have hstill : room.playing = false ∧ room.positionMs = 0 := by
    simpa [isStopped] using hstopped
  simp [EndingCommand.command, apply, change, skip, hplace, hstale, hend, hstill]

/-- A report of a place the Room has left changes nothing, also when the same
Track is queued again right after it. -/
theorem apply_report_moved (h : room.Ending trackId index) (nowMs : ℤ)
    (hmoved : room.currentIndex = some (index + 1)) :
    room.apply (EndingCommand.report.command trackId index) nowMs = some (false, room) := by
  have hstale := isStale_report h hmoved
  simp [EndingCommand.command, apply, change, skip, hmoved, hstale]

/-! ### One command while the Track ends -/

/-- What one such command leaves: still at the reported place or the next one,
never past the last, and each counted report uses up a pending one. -/
structure EndingStep (trackId : String) (index : ℕ) (room : RoomState) (command : EndingCommand)
    (changed : Bool) (next : RoomState) : Prop where
  ending : next.Ending trackId index
  tracks : next.trackIds = room.trackIds
  stays : room.hasNext index = false → next.currentIndex = room.currentIndex
  counted : (changed && command == .report).toNat + next.pendingReports index ≤
    room.pendingReports index + command.restarts.toNat
  counted_of_next : room.hasNext index = true →
    (changed && command == .report).toNat + next.pendingReports index ≤ room.pendingReports index

theorem EndingStep.refl (h : room.Ending trackId index) (command : EndingCommand) :
    EndingStep trackId index room command false room :=
  ⟨h, rfl, fun _ => rfl, by simp, fun _ => by simp⟩

theorem apply_report (h : room.Ending trackId index) (nowMs : ℤ) :
    ∃ changed next, room.apply (EndingCommand.report.command trackId index) nowMs =
        some (changed, next) ∧
      EndingStep trackId index room .report changed next := by
  rcases h.place with hplace | hmoved
  · have hlt := h.wellFormed.index_lt index hplace
    cases hnext : room.hasNext index with
    | true =>
      have hroom := pendingReports_of_next hplace hnext
      have hlater : (room.startTrack (index + 1) nowMs).raiseRevision.pendingReports index = 0 :=
        pendingReports_of_moved rfl
      refine ⟨true, _, apply_report_next h nowMs hplace hnext, ?_⟩
      have hbound : index + 1 < room.trackIds.length := by simpa [hasNext] using hnext
      refine ⟨⟨.of_place rfl hbound le_rfl, h.track, .inr rfl⟩, rfl, by simp [hnext], ?_, ?_⟩
      · simp [hroom, hlater]
      · simp [hroom, hlater]
    | false =>
      have hroom := pendingReports_of_last hplace hnext
      cases hstopped : room.isStopped with
      | true => exact ⟨false, room, apply_report_stopped h nowMs hplace hnext hstopped, .refl h _⟩
      | false =>
        have hlater : ({ room with playing := false }.setPosition 0
            nowMs).raiseRevision.pendingReports index = 0 :=
          pendingReports_of_last hplace hnext
        refine ⟨true, _, apply_report_last h nowMs hplace hnext hstopped, ?_⟩
        refine ⟨⟨.of_place hplace hlt le_rfl, h.track, .inl hplace⟩, rfl, fun _ => rfl, ?_, ?_⟩
        · simp [hroom, hstopped, hlater]
        · simp [hnext]
  · exact ⟨false, room, apply_report_moved h nowMs hmoved, .refl h _⟩

/-- A command other than the report keeps the place and counts as none. -/
theorem EndingStep.of_kept {next : RoomState} {command : EndingCommand} {changed : Bool}
    (h : room.Ending trackId index) (hother : command ≠ .report) (hwell : next.WellFormed)
    (htracks : next.trackIds = room.trackIds) (hplace : next.currentIndex = room.currentIndex)
    (hstopped : room.isStopped = true → command.restarts = false → next.isStopped = true) :
    EndingStep trackId index room command changed next := by
  have hkept := pendingReports_of_kept index hplace htracks hstopped
  have hnone : (changed && command == .report) = false := by simp [hother]
  refine ⟨⟨hwell, by rw [htracks]; exact h.track, by rw [hplace]; exact h.place⟩, htracks,
    fun _ => hplace, ?_, ?_⟩
  · simpa [hnone] using hkept.1
  · simpa [hnone] using hkept.2

theorem apply_ending (h : room.Ending trackId index) (command : EndingCommand) (nowMs : ℤ) :
    ∃ changed next, room.apply (command.command trackId index) nowMs = some (changed, next) ∧
      EndingStep trackId index room command changed next := by
  obtain ⟨changed, next, happly, hout, -⟩ :=
    apply_outcome h.wellFormed ⟨_, EndingCommand.command_validate trackId index command⟩ nowMs
  refine ⟨changed, next, happly, ?_⟩
  cases command with
  | report =>
    obtain ⟨_, _, hreport, hstep⟩ := apply_report h nowMs
    rw [happly] at hreport
    cases hreport
    exact hstep
  | pause =>
    simp only [EndingCommand.command, apply_pause] at happly
    split_ifs at happly with hplaying
    · cases happly
      refine .of_kept h (by decide) hout.wellFormed rfl rfl fun hstopped _ => ?_
      simp [isStopped, hplaying] at hstopped
    · cases happly
      exact .refl h _
  | resume =>
    simp only [EndingCommand.command, apply_resume] at happly
    split_ifs at happly with hresumes
    · cases happly
      exact .of_kept h (by decide) hout.wellFormed rfl rfl fun _ hrestarts => by
        simp [EndingCommand.restarts] at hrestarts
    · cases happly
      exact .refl h _
  | seek positionMs =>
    simp only [EndingCommand.command, apply_seek] at happly
    split_ifs at happly with hplace
    · cases happly
      refine .of_kept h (by simp) hout.wellFormed rfl rfl fun hstopped hrestarts => ?_
      have hstart : positionMs = 0 := by simpa [EndingCommand.restarts] using hrestarts
      simp_all [isStopped, setPosition, raiseRevision]
    · cases happly
      exact .refl h _
  | setLyricsOpen isOpen =>
    simp only [EndingCommand.command, apply_setLyricsOpen] at happly
    split_ifs at happly with hmoves
    · cases happly
      exact .of_kept h (by simp) hout.wellFormed rfl rfl fun hstopped _ => hstopped
    · cases happly
      exact .refl h _

end RoomState

/-! ### A whole run of reports -/

section Runs

open RoomState

variable {trackId : String} {index : ℕ}

def isReport (event : EndingCommand × ℤ) : Bool := event.1 == .report

def isRestart (event : EndingCommand × ℤ) : Bool := event.1.restarts

/-- What a run leaves, by induction on its commands: each step uses up the
reports it counts. -/
theorem reportsCounted_spec {room : RoomState} (h : room.Ending trackId index)
    (events : List (EndingCommand × ℤ)) :
    ∃ counted final, reportsCounted trackId index room events = some (counted, final) ∧
      final.Ending trackId index ∧ final.trackIds = room.trackIds ∧
      (room.hasNext index = false → final.currentIndex = room.currentIndex) ∧
      (room.hasNext index = true → counted ≤ room.pendingReports index) ∧
      counted ≤ room.pendingReports index + events.countP isRestart := by
  induction events generalizing room with
  | nil => exact ⟨0, room, rfl, h, rfl, fun _ => rfl, fun _ => Nat.zero_le _, Nat.zero_le _⟩
  | cons event events ih =>
    obtain ⟨command, nowMs⟩ := event
    obtain ⟨changed, next, happly, hstep⟩ := apply_ending h command nowMs
    obtain ⟨counted, final, hrest, hfinal, htracks, hstays, hnext, hcounted⟩ := ih hstep.ending
    have hhas : next.hasNext index = room.hasNext index := by
      rw [hasNext, hasNext, hstep.tracks]
    refine ⟨(changed && command == .report).toNat + counted, final, ?_, hfinal,
      htracks.trans hstep.tracks, ?_, ?_, ?_⟩
    · simp [reportsCounted, happly, hrest]
    · exact fun hlast => (hstays (hhas.trans hlast)).trans (hstep.stays hlast)
    · intro hmore
      have hone := hstep.counted_of_next hmore
      have hothers := hnext (hhas.trans hmore)
      omega
    · have hone := hstep.counted
      rw [List.countP_cons]
      have hrestart : (if isRestart (command, nowMs) = true then 1 else 0) =
          command.restarts.toNat := by
        rw [isRestart]
        cases command.restarts <;> rfl
      omega

theorem reportsCounted_append {room middle final : RoomState} {first second : ℕ}
    {events later : List (EndingCommand × ℤ)}
    (hfirst : reportsCounted trackId index room events = some (first, middle))
    (hsecond : reportsCounted trackId index middle later = some (second, final)) :
    reportsCounted trackId index room (events ++ later) = some (first + second, final) := by
  induction events generalizing room first with
  | nil =>
    cases hfirst
    simpa using hsecond
  | cons event events ih =>
    obtain ⟨command, nowMs⟩ := event
    simp only [reportsCounted, Option.bind_eq_bind, Option.bind_eq_some_iff] at hfirst
    obtain ⟨⟨changed, next⟩, happly, ⟨counted, after⟩, hrest, hsum⟩ := hfirst
    cases hsum
    simp [reportsCounted, happly, ih hrest, Nat.add_assoc]

/-- Only reports are counted. -/
theorem reportsCounted_eq_zero {room final : RoomState} {counted : ℕ}
    {events : List (EndingCommand × ℤ)} (hnone : ∀ event ∈ events, isReport event = false)
    (h : reportsCounted trackId index room events = some (counted, final)) : counted = 0 := by
  induction events generalizing room counted final with
  | nil => exact (Prod.mk.inj (Option.some.inj h)).1.symm
  | cons event events ih =>
    obtain ⟨command, nowMs⟩ := event
    simp only [reportsCounted, Option.bind_eq_bind, Option.bind_eq_some_iff] at h
    obtain ⟨⟨changed, next⟩, -, ⟨rest, after⟩, hrest, hsum⟩ := h
    have hother : (command == EndingCommand.report) = false := hnone _ List.mem_cons_self
    have hzero := ih (fun event hevent => hnone event (List.mem_cons_of_mem _ hevent)) hrest
    cases hsum
    simp [hother, hzero]

/-- The reports that count lie between the first and the last report, so only
the commands between these can let a further one count. -/
theorem reportsCounted_le_between {room final : RoomState} (h : room.Ending trackId index)
    {counted : ℕ} {before middle after : List (EndingCommand × ℤ)}
    (hrun : reportsCounted trackId index room (before ++ middle ++ after) = some (counted, final))
    (hbefore : ∀ event ∈ before, isReport event = false)
    (hafter : ∀ event ∈ after, isReport event = false) :
    counted ≤ 1 + middle.countP isRestart := by
  obtain ⟨first, atFirst, hfirst, hroomFirst, -⟩ := reportsCounted_spec h before
  obtain ⟨second, atLast, hsecond, hroomLast, -, -, -, hbound⟩ :=
    reportsCounted_spec hroomFirst middle
  obtain ⟨third, atEnd, hthird, -⟩ := reportsCounted_spec hroomLast after
  have hwhole := reportsCounted_append (reportsCounted_append hfirst hsecond) hthird
  cases hrun.symm.trans hwhole
  have hnoFirst := reportsCounted_eq_zero hbefore hfirst
  have hnoThird := reportsCounted_eq_zero hafter hthird
  have hpending : atFirst.pendingReports index ≤ 1 := pendingReports_le_one
  omega

/-- However many clients report the end of the current Track, and whatever is
paused, resumed, sought or shown in between, the Room goes at most one place
on. One report at most changes it, except that at the last place each Resume,
and each Seek off the start, between the reports lets one more count. -/
theorem endReports_bounded {room : RoomState} (h : room.Reachable) (trackId : String) (index : ℕ)
    (hplace : room.currentIndex = some index) (htrack : room.trackIds[index]? = some trackId)
    (events : List (EndingCommand × ℤ)) :
    ∃ counted final, reportsCounted trackId index room events = some (counted, final) ∧
      (final.currentIndex = some index ∨ final.currentIndex = some (index + 1)) ∧
      (index + 1 < room.trackIds.length → counted ≤ 1) ∧
      (¬ index + 1 < room.trackIds.length → final.currentIndex = some index) ∧
      ∀ before middle after, events = before ++ middle ++ after →
        (∀ event ∈ before, isReport event = false) →
        (∀ event ∈ after, isReport event = false) →
        counted ≤ 1 + middle.countP isRestart := by
  have hroom : room.Ending trackId index := ⟨h.wellFormed, htrack, .inl hplace⟩
  obtain ⟨counted, final, hrun, hfinal, -, hstays, hnext, -⟩ := reportsCounted_spec hroom events
  refine ⟨counted, final, hrun, hfinal.place, ?_, ?_, ?_⟩
  · intro hmore
    exact (hnext (by simpa [hasNext] using hmore)).trans pendingReports_le_one
  · intro hlast
    exact (hstays (by simpa [hasNext] using hlast)).trans hplace
  · rintro before middle after rfl hbefore hafter
    exact reportsCounted_le_between hroom hrun hbefore hafter

theorem endReports_bounded_startedRoom :
    ∃ counted final, reportsCounted "a" 0 startedRoom [(.report, 2000), (.report, 2010)] =
        some (counted, final) ∧ counted ≤ 1 := by
  obtain ⟨counted, final, hrun, -, hone, -⟩ :=
    endReports_bounded startedRoom_reachable "a" 0 rfl rfl
      [(.report, 2000), (.report, 2010)]
  exact ⟨counted, final, hrun, hone (by decide)⟩

/-- The last Track of a Room, resumed between two reports of its end, is
stopped twice. -/
theorem endReports_counted_twice :
    ¬ ∀ (room : RoomState) (trackId : String) (index : ℕ) (events : List (EndingCommand × ℤ)),
      room.Reachable → room.currentIndex = some index → room.trackIds[index]? = some trackId →
      ∀ counted final, reportsCounted trackId index room events = some (counted, final) →
        counted ≤ 1 := by
  intro hclaim
  have hskip : ∃ room, startedRoom.apply (.skip .next none none) 1500 = some (true, room) ∧
      room.currentIndex = some 1 ∧ room.trackIds[1]? = some "b" ∧
      ∃ final, reportsCounted "b" 1 room [(.report, 2000), (.resume, 3000), (.report, 4000)] =
        some (2, final) :=
    ⟨_, rfl, rfl, rfl, _, rfl⟩
  obtain ⟨room, hroom, hplace, htrack, final, hrun⟩ := hskip
  have hreachable := startedRoom_reachable.command ⟨.skip .next none none, by decide⟩ 1500 hroom
  have htwo := hclaim room "b" 1 _ hreachable hplace htrack 2 final hrun
  omega

end Runs

end Harmony.ListenTogether
