/-
# Live reconnects of the browser engine

An interrupted live source is loaded again after 1, 2, 4, 8 and then 15 seconds until
it plays. The engine drops an interruption that comes while a timer or an attempt is
pending, and drops the timer when the state no longer says reconnecting. As long as
the two do not come together, and no call of `play` is in flight meanwhile, a source
that was interrupted waits for a timer or an attempt that goes on.
-/

import Harmony.BrowserEngine.Showing

namespace Harmony.BrowserEngine

open Transition

namespace Engine

variable {e e' : Engine} {event : Event} {i : ℕ}

/-! ### What must not come together -/

/-- An interruption finds no call of `play` in flight, and where a timer or an attempt
is pending, the state says reconnecting. -/
def Alone (e : Engine) : Prop :=
  e.plays = [] ∧ (e.reconnectTimer ≠ none ∨ e.attempts ≠ [] → e.status = .reconnecting)

/-- An interruption that rejects no promise finds no attempt in flight either. While
the state says reconnecting, no call of `play` is in flight as the timer runs out, none
comes between an attempt's source and its `media.play()`, and the element reports no
pause. -/
def Steady (e : Engine) : Event → Prop
  | .play none => ∀ attempt ∈ e.attempts, attempt.stage ≠ .opened
  | .mediaPause => e.status ≠ .reconnecting
  | .mediaError => e.resumes = true → e.Alone
  | .mediaEnded | .mediaBreaks | .fatalHlsError | .stallTimer =>
    e.resumes = true → e.Alone ∧ e.attempts = []
  | .reconnectTimer => e.status = .reconnecting → e.plays = []
  | _ => True

def SteadyStep (e : Engine) (event : Event) (e' : Engine) : Prop :=
  e.Step event e' ∧ e.Steady event

/-- A timer is pending for the source the state shows, or an attempt at it that goes
on: it does not wait for an element that has given up. -/
def Waits (e : Engine) : Prop :=
  (∃ timer, e.reconnectTimer = some timer ∧ e.source = some timer.source ∧
    e.status = .reconnecting) ∨
  ∃ attempt ∈ e.attempts, e.source = some attempt.source ∧
    attempt.sourceRevision = e.sourceRevision ∧ (attempt.stage = .starting → e.failed = false)

def interruption : Event → Bool
  | .mediaEnded | .mediaError | .mediaBreaks | .fatalHlsError | .stallTimer => true
  | _ => false

/-- What a step should do about reconnects. -/
structure Recovers (e : Engine) (event : Event) (e' : Engine) : Prop where
  /-- An attempt opens the source the state shows, with no command since it was
  scheduled. -/
  loads : ∀ timer, event = .reconnectTimer → e.reconnectTimer = some timer →
    e.status = .reconnecting →
    e.source = some timer.source ∧ timer.commands = e.commands ∧
      e'.content = some timer.source
  /-- So it is when it calls `media.play()`. -/
  plays : ∀ i attempt, event = .continueAttempt i → e.attempts[i]? = some attempt →
    attempt.stage = .opened → e.isCurrent attempt.source attempt.sourceRevision = true →
    e.source = some attempt.source ∧ attempt.commands = e.commands ∧
      e.content = some attempt.source
  /-- A new timer waits the longer the more attempts there were. -/
  delays : ∀ timer, e.reconnectTimer = none → e'.reconnectTimer = some timer →
    timer.delay = [1000, 2000, 4000, 8000].getD e.delays.length 15000 ∧
      e'.delays = e.delays ++ [timer.delay]
  /-- No attempt at an earlier source is in flight when the source is interrupted. -/
  noticed : interruption event = true → ∀ attempt ∈ e.attempts,
    attempt.sourceRevision = e.sourceRevision
  waits : e'.interrupted = true → e'.Waits

/-! ### Delays -/

theorem reconnectDelay_eq (n : ℕ) :
    reconnectDelay n = [1000, 2000, 4000, 8000].getD n 15000 := by
  match n with
  | 0 | 1 | 2 | 3 => rfl
  | n + 4 =>
    have hlast : min (n + 4) (LIVE_RECONNECT_DELAYS_MS.length - 1) = 4 :=
      Nat.min_eq_right (Nat.le_add_left 4 n)
    rw [reconnectDelay, hlast]
    rfl

/-- A step leaves the timer, ends it or schedules the next. -/
def Schedules (e e' : Engine) : Prop :=
  e'.reconnectTimer = e.reconnectTimer ∨ e'.reconnectTimer = none ∨
    ∃ timer, e'.reconnectTimer = some timer ∧ timer.delay = reconnectDelay e.reconnectAttempt ∧
      e'.delays = e.delays ++ [timer.delay]

theorem schedules_scheduleLiveReconnect (e : Engine) : e.Schedules e.scheduleLiveReconnect := by
  rcases e.scheduleLiveReconnect_cases with ⟨heq, -⟩ | ⟨source, -, -, -, -, heq⟩
  · rw [heq]
    exact Or.inl rfl
  · rw [heq]
    exact Or.inr (Or.inr ⟨_, rfl, rfl, rfl⟩)

theorem schedules_play (e : Engine) (source : Option PlaybackSource) :
    e.Schedules (e.play source) := by
  cases source with
  | none =>
    rw [Engine.play]
    dsimp only
    split
    · exact Or.inl rfl
    · exact Or.inl rfl
  | some source =>
    obtain ⟨hls, src, stage, heq, -⟩ := e.play_some_cases source
    rw [heq]
    exact Or.inr (Or.inl rfl)

theorem schedules_handleEnded (e : Engine) : e.Schedules e.handleEnded := by
  rw [Engine.handleEnded]
  split
  · exact e.schedules_scheduleLiveReconnect
  · split
    · exact Or.inl rfl
    · split
      · exact schedules_play { e with status := .playing, repeatMode := _ } none
      · exact Or.inl rfl

theorem schedules_handleMediaError (e : Engine) : e.Schedules e.handleMediaError := by
  rw [Engine.handleMediaError]
  split
  · exact Or.inl rfl
  · split
    · exact e.schedules_scheduleLiveReconnect
    · exact Or.inl rfl

theorem Wired.schedules (hwired : e.Wired) (hstep : e.Step event e') :
    e.Schedules e' := by
  rw [Step] at hstep
  cases event with
  | play source =>
    rw [Engine.perform] at hstep
    split at hstep
    · cases hstep
      exact Or.inl rfl
    · cases hstep
      exact (e.commanded false).schedules_play source
  | pause =>
    cases hstep
    obtain ⟨status, heq⟩ := (e.commanded true).pause_eq
    rw [heq]
    exact Or.inr (Or.inl rfl)
  | stop =>
    cases hstep
    exact Or.inr (Or.inl rfl)
  | setStopAfterCurrent enabled =>
    cases hstep
    exact Or.inl rfl
  | cycleRepeatMode =>
    cases hstep
    exact Or.inl rfl
  | playLoads i library =>
    obtain ⟨call, -, hstep⟩ := Option.bind_eq_some_iff.mp hstep
    split at hstep
    · cases hstep
      exact Or.inl rfl
    · cases hstep
  | attemptLoads i library =>
    obtain ⟨attempt, -, hstep⟩ := Option.bind_eq_some_iff.mp hstep
    split at hstep
    · cases hstep
      exact Or.inl rfl
    · cases hstep
  | playSettles i outcome =>
    obtain ⟨call, -, hstep⟩ := Option.bind_eq_some_iff.mp hstep
    split at hstep
    · cases hstep
      exact Or.inl rfl
    · cases hstep
  | attemptRejects i message =>
    obtain ⟨attempt, -, hstep⟩ := Option.bind_eq_some_iff.mp hstep
    split at hstep
    · cases hstep
      exact Or.inl rfl
    · cases hstep
  | continuePlay i =>
    obtain ⟨call, -, hcontinues⟩ := continuePlay_cases hstep
    cases hcontinues with
    | attach supported source =>
      obtain ⟨hls, src, heq, -⟩ := attachHls_cases { e with hlsFactory := some supported } source
      rw [heq]
      exact Or.inl rfl
    | fail | start | succeed | throw => exact Or.inl rfl
  | continueAttempt i =>
    obtain ⟨attempt, -, hretries⟩ := hwired.continueAttempt_cases hstep
    cases hretries with
    | start | finish => exact Or.inl rfl
    | retry message => exact schedules_scheduleLiveReconnect { e with
        attempts := e.attempts.eraseIdx i, isReconnectAttemptRunning := false }
  | mediaPlay =>
    obtain ⟨-, -, rfl⟩ := task_cases hstep
    rw [handlePlay]
    split
    · exact Or.inl rfl
    · exact Or.inl rfl
  | mediaPlaying =>
    obtain ⟨-, -, rfl⟩ := task_cases hstep
    left
    rw [Engine.handlePlaying]
    dsimp only [Engine.resolveStarting]
    split
    · rfl
    · rfl
  | mediaPause =>
    obtain ⟨-, -, rfl⟩ := task_cases hstep
    rw [handlePause]
    split
    · exact Or.inl rfl
    · exact Or.inl rfl
  | mediaEnded =>
    obtain ⟨-, -, rfl⟩ := task_cases hstep
    exact e.interrupt.endMedia.schedules_handleEnded
  | mediaError =>
    obtain ⟨-, -, rfl⟩ := task_cases hstep
    exact e.interrupt.schedules_handleMediaError
  | mediaBreaks | fatalHlsError =>
    obtain ⟨-, -, rfl⟩ := task_cases hstep
    exact schedules_handleMediaError { e.interrupt with failed := true }
  | mediaStalled =>
    obtain ⟨-, -, rfl⟩ := task_cases hstep
    rw [Engine.handleStalled]
    split
    · exact Or.inl rfl
    · exact Or.inl rfl
  | mediaTimeUpdate =>
    obtain ⟨-, -, rfl⟩ := task_cases hstep
    rw [handleTimeUpdate]
    split
    · exact Or.inl rfl
    · exact Or.inl rfl
  | reconnectTimer =>
    obtain ⟨timer, htimer, hstep⟩ := Option.bind_eq_some_iff.mp hstep
    obtain ⟨-, -, rfl⟩ := task_cases hstep
    rcases hwired.reconnectLiveSource_cases htimer with ⟨-, heq⟩ | ⟨-, hls, src, -, heq⟩
    · rw [heq]
      exact Or.inr (Or.inl rfl)
    · rw [heq]
      exact Or.inr (Or.inl rfl)
  | stallTimer =>
    obtain ⟨-, -, rfl⟩ := task_cases hstep
    exact schedules_scheduleLiveReconnect
      { e.interrupt with stallTimer := false, failed := true }
  | stabilityTimer =>
    obtain ⟨-, -, rfl⟩ := task_cases hstep
    exact Or.inl rfl

/-- A new timer takes its delay from the table. -/
theorem Wired.new_timer (hwired : e.Wired) (hstep : e.Step event e') {timer : ReconnectTimer}
    (hnone : e.reconnectTimer = none) (htimer : e'.reconnectTimer = some timer) :
    timer.delay = [1000, 2000, 4000, 8000].getD e.delays.length 15000 ∧
      e'.delays = e.delays ++ [timer.delay] := by
  have hlength : e.delays.length = e.reconnectAttempt := by
    rw [hwired.delays, List.length_map, List.length_range]
  rcases hwired.schedules hstep with hkept | hended | ⟨scheduled, hscheduled, hdelay, hdelays⟩
  · rw [hkept, hnone] at htimer
    cases htimer
  · rw [hended] at htimer
    cases htimer
  · cases hscheduled.symm.trans htimer
    rw [hlength, ← reconnectDelay_eq]
    exact ⟨hdelay, hdelays⟩

/-! ### The invariant -/

structure Recovering (e : Engine) : Prop where
  /-- Where `play` was called since the timer was set, the call is in flight or has
  left its mark on the status. -/
  timer : ∀ timer, e.reconnectTimer = some timer →
    timer.commands = e.commands ∨ e.plays ≠ [] ∨ e.status ≠ .reconnecting
  /-- An attempt that has opened its source is alone with the element. -/
  opened : ∀ attempt ∈ e.attempts, attempt.stage = .opened →
    attempt.sourceRevision = e.sourceRevision →
    attempt.commands = e.commands ∧ e.content = some attempt.source ∧ e.plays = [] ∧
      e.failed = false
  /-- The element plays when it resolves an attempt's promise. -/
  resolved : ∀ attempt ∈ e.attempts, attempt.stage = .settled (.ok ()) → e.interrupted = false
  waits : e.interrupted = true → e.plays = [] ∧ e.status = .reconnecting ∧
    (e.reconnectTimer ≠ none ∨ ∃ attempt ∈ e.attempts,
      attempt.sourceRevision = e.sourceRevision ∧ (attempt.stage = .starting → e.failed = false))

theorem Recovering.new (hlsFactory : Option Bool) : (Engine.new hlsFactory).Recovering where
  timer timer h := by cases h
  opened attempt h := by cases h
  resolved attempt h := by cases h
  waits h := by cases h

/-- Between microtasks no attempt is out of date, has opened its source or knows how it
went. -/
theorem Wired.quiet_attempts (h : e.Wired) (hquiet : e.quiet = true) :
    ∀ attempt ∈ e.attempts, attempt.sourceRevision = e.sourceRevision ∧
      attempt.stage.runnable = false := by
  intro attempt hmem
  rw [quiet, Bool.and_eq_true] at hquiet
  have hwaits : attempt.stage.runnable = false := by
    have := List.all_eq_true.mp hquiet.2 attempt hmem
    exact Bool.not_eq_true' _ ▸ this
  refine ⟨?_, hwaits⟩
  by_contra hne
  rw [h.stale attempt hmem hne] at hwaits
  cases hwaits

/-- Events that leave the reconnects and what they rely on as they are. -/
theorem Recovering.frame (h : e.Recovering) (htimer : e'.reconnectTimer = e.reconnectTimer)
    (hcommands : e'.commands = e.commands) (hplays : e'.plays = e.plays)
    (hstatus : e'.status = .reconnecting ↔ e.status = .reconnecting)
    (hattempts : e'.attempts = e.attempts) (hrevision : e'.sourceRevision = e.sourceRevision)
    (hcontent : e'.content = e.content) (hfailed : e'.failed = e.failed)
    (hinterrupted : e'.interrupted = e.interrupted) : e'.Recovering where
  timer := by
    rw [htimer, hcommands, hplays, ne_eq, ne_eq, hstatus]
    exact h.timer
  opened := by
    rw [hattempts, hrevision, hcommands, hcontent, hplays, hfailed]
    exact h.opened
  resolved := by
    rw [hattempts, hinterrupted]
    exact h.resolved
  waits := by
    rw [hinterrupted, hplays, hstatus, htimer, hattempts, hrevision, hfailed]
    exact h.waits

/-- An interrupted source would be loaded again. -/
theorem Recovering.resumes (h : e.Recovering) (hwired : e.Wired)
    (hinterrupted : e.interrupted = true) : e.resumes = true := by
  obtain ⟨-, -, htimer | ⟨attempt, hmem, hrevision, -⟩⟩ := h.waits hinterrupted
  · obtain ⟨timer, htimer⟩ := Option.ne_none_iff_exists'.mp htimer
    obtain ⟨-, ⟨-, hstarted, hlive⟩, -⟩ := hwired.timer timer htimer
    exact Bool.and_eq_true_iff.mpr ⟨hlive, hstarted⟩
  · obtain ⟨-, hstarted, hlive⟩ := (hwired.attempts attempt hmem).2.2 hrevision
    exact Bool.and_eq_true_iff.mpr ⟨hlive, hstarted⟩

/-- What the invariant says is what a step should do. -/
theorem Recovering.waits_of (h : e.Recovering) (hwired : e.Wired)
    (hinterrupted : e.interrupted = true) : e.Waits := by
  obtain ⟨-, hstatus, htimer | ⟨attempt, hmem, hrevision, hgoes⟩⟩ := h.waits hinterrupted
  · obtain ⟨timer, htimer⟩ := Option.ne_none_iff_exists'.mp htimer
    exact Or.inl ⟨timer, htimer, (hwired.timer timer htimer).2.1.1, hstatus⟩
  · exact Or.inr ⟨attempt, hmem, ((hwired.attempts attempt hmem).2.2 hrevision).1, hrevision,
      hgoes⟩

/-! ### One step -/

/-- A command that ends every reconnect. -/
theorem Recovering.superseded (message : String) (hwired : e.Wired)
    (htimer : e'.reconnectTimer = none) (hrevision : e'.sourceRevision = e.sourceRevision + 1)
    (hattempts : e'.attempts = (e.rejectStarting message).attempts)
    (hinterrupted : e'.interrupted = false) : e'.Recovering where
  timer timer hset := by
    rw [htimer] at hset
    cases hset
  opened := by
    rw [hattempts, hrevision]
    intro attempt hmem _ heq
    have hle : attempt.sourceRevision ≤ e.sourceRevision :=
      ((hwired.rejectStarting message).attempts attempt hmem).2.1
    omega
  resolved _ _ _ := hinterrupted
  waits hset := by
    rw [hinterrupted] at hset
    cases hset

/-- A call of `play` in flight goes on: then nothing was interrupted since it came. -/
theorem Recovering.call {call : PlayCall} (h : e.Recovering) (hcall : e.plays[i]? = some call)
    (hplays : e'.plays ≠ [] ∨ e'.status ≠ .reconnecting) (hattempts : e'.attempts = e.attempts)
    (hrevision : e'.sourceRevision = e.sourceRevision)
    (hinterrupted : e'.interrupted = e.interrupted) : e'.Recovering := by
  have hsome : e.plays ≠ [] := List.ne_nil_of_mem (List.mem_of_getElem? hcall)
  have hnot : e.interrupted = false := by
    by_contra hset
    exact hsome (h.waits (Bool.not_eq_false _ |>.mp hset)).1
  exact {
    timer := fun _ _ => Or.inr hplays
    opened := by
      rw [hattempts, hrevision]
      intro attempt hmem hstage heq
      exact absurd (h.opened attempt hmem hstage heq).2.2.1 hsome
    resolved := fun _ _ _ => hinterrupted.trans hnot
    waits := fun hset => by
      rw [hinterrupted, hnot] at hset
      cases hset }

/-- Where nothing is pending, an interrupted live source gets its timer. -/
theorem scheduled_timer (hwired : e.Wired) (hresumes : e.resumes = true) (hnone : e.attempts = [])
    (hstatus : e.reconnectTimer ≠ none → e.status = .reconnecting) :
    e.scheduleLiveReconnect.reconnectTimer ≠ none ∧
      e.scheduleLiveReconnect.status = .reconnecting ∧
      (∀ timer, e.scheduleLiveReconnect.reconnectTimer = some timer →
        e.reconnectTimer = some timer ∨ timer.commands = e.commands) := by
  rcases e.scheduleLiveReconnect_cases with ⟨heq, hbusy⟩ | ⟨source, -, -, -, -, heq⟩
  · rw [heq]
    rcases hbusy with htimer | hrunning | hlive
    · exact ⟨htimer, hstatus htimer, fun _ h => Or.inl h⟩
    · exact absurd hnone (hwired.running.mp hrunning)
    · rw [resumes, hlive, Bool.false_and] at hresumes
      cases hresumes
  · rw [heq]
    refine ⟨Option.some_ne_none _, rfl, fun timer htimer => Or.inr ?_⟩
    cases htimer
    rfl

theorem scheduleLiveReconnect_keeps (e : Engine) :
    e.scheduleLiveReconnect.attempts = e.attempts ∧ e.scheduleLiveReconnect.plays = e.plays ∧
      e.scheduleLiveReconnect.commands = e.commands ∧
      e.scheduleLiveReconnect.interrupted = e.interrupted := by
  rcases e.scheduleLiveReconnect_cases with ⟨heq, -⟩ | ⟨source, -, -, -, -, heq⟩
  · rw [heq]
    exact ⟨rfl, rfl, rfl, rfl⟩
  · rw [heq]
    exact ⟨rfl, rfl, rfl, rfl⟩

/-- A live source that is interrupted with nothing in flight gets its timer. -/
theorem Recovering.scheduleLiveReconnect (hwired : e.Wired) (hresumes : e.resumes = true)
    (htimer : ∀ timer, e.reconnectTimer = some timer →
      timer.commands = e.commands ∨ e.plays ≠ [] ∨ e.status ≠ .reconnecting)
    (hplays : e.plays = []) (hnone : e.attempts = [])
    (hstatus : e.reconnectTimer ≠ none → e.status = .reconnecting) :
    e.scheduleLiveReconnect.Recovering := by
  obtain ⟨hset, hsays, hcommands⟩ := scheduled_timer hwired hresumes hnone hstatus
  obtain ⟨hattempts, hcalls, hcount, -⟩ := e.scheduleLiveReconnect_keeps
  exact {
    timer := by
      intro timer hscheduled
      rcases hcommands timer hscheduled with hold | hnew
      · have hshown := hstatus (by rw [hold]; exact Option.some_ne_none _)
        rw [hcount, hcalls]
        rcases htimer timer hold with hcounted | hcalled | hother
        · exact Or.inl hcounted
        · exact Or.inr (Or.inl hcalled)
        · exact absurd hshown hother
      · rw [hcount]
        exact Or.inl hnew
    opened := by
      rw [hattempts, hnone]
      exact fun _ hmem => by cases hmem
    resolved := by
      rw [hattempts, hnone]
      exact fun _ hmem => by cases hmem
    waits := by
      intro _
      rw [hcalls]
      exact ⟨hplays, hsays, Or.inl hset⟩ }

theorem set_ne_nil {call moved : PlayCall} (hcall : e.plays[i]? = some call) :
    e.plays.set i moved ≠ [] := by
  intro hnil
  have hlength := congrArg List.length hnil
  rw [List.length_set, List.length_nil] at hlength
  rw [List.eq_nil_of_length_eq_zero hlength] at hcall
  cases hcall

/-- The element rejects the promise an attempt waits for, and the attempt goes on. -/
theorem Recovering.rejected {attempt : Attempt} (h : e.Recovering) (hwired : e.Wired)
    (hattempt : e.attempts[i]? = some attempt) (message : String) :
    Recovering { e with
      attempts := e.attempts.set i { attempt with stage := .settled (.error message) } } := by
  obtain ⟨rfl, hone⟩ := hwired.attempts_eq hattempt
  have hset : e.attempts.set 0 { attempt with stage := .settled (.error message) } =
      [{ attempt with stage := .settled (.error message) }] := by rw [hone]; rfl
  rw [hset]
  exact {
    timer := h.timer
    opened := by
      intro moved hmoved hopened
      rw [List.mem_singleton.mp hmoved] at hopened
      cases hopened
    resolved := by
      intro moved hmoved hok
      rw [List.mem_singleton.mp hmoved] at hok
      cases hok
    waits := by
      intro hinterrupted
      obtain ⟨hplays, hstatus, htimer | ⟨found, hfound, hrevision, -⟩⟩ := h.waits hinterrupted
      · exact absurd (hwired.timer_none hone) htimer
      · rw [hone] at hfound
        rw [List.mem_singleton.mp hfound] at hrevision
        exact ⟨hplays, hstatus, Or.inr ⟨_, List.mem_singleton.mpr rfl, hrevision,
          fun hstage => by cases hstage⟩⟩ }

theorem Recovering.continuePlay (h : e.Recovering) (hstep : e.continuePlay i = some e') :
    e'.Recovering := by
  obtain ⟨call, hcall, hcontinues⟩ := continuePlay_cases hstep
  cases hcontinues with
  | attach supported source =>
    obtain ⟨hls, src, heq, -⟩ := attachHls_cases { e with hlsFactory := some supported } source
    rw [heq]
    exact h.call hcall (Or.inl (set_ne_nil hcall)) rfl rfl rfl
  | fail | start => exact h.call hcall (Or.inl (set_ne_nil hcall)) rfl rfl rfl
  | succeed =>
    exact h.call hcall (Or.inr fun hstatus : PlaybackStatus.playing = _ => by cases hstatus)
      rfl rfl rfl
  | throw =>
    exact h.call hcall (Or.inr fun hstatus : PlaybackStatus.error = _ => by cases hstatus)
      rfl rfl rfl

theorem Recovering.continueAttempt (h : e.Recovering) (hwired : e.Wired)
    (hstep : e.continueAttempt i = some e') : e'.Recovering := by
  obtain ⟨attempt, hattempt, hretries⟩ := hwired.continueAttempt_cases hstep
  obtain ⟨rfl, hattempts⟩ := hwired.attempts_eq hattempt
  have hmem := List.mem_of_getElem? hattempt
  have hnone := hwired.timer_none hattempts
  have herase : e.attempts.eraseIdx 0 = [] := by rw [hattempts]; rfl
  -- where the source is interrupted, the attempt is the one it waits for
  have hcurrent : e.interrupted = true → attempt.sourceRevision = e.sourceRevision := by
    intro hinterrupted
    obtain ⟨-, -, htimer | ⟨found, hfound, hrevision, -⟩⟩ := h.waits hinterrupted
    · exact absurd hnone htimer
    · rw [hattempts] at hfound
      rwa [List.mem_singleton.mp hfound] at hrevision
  cases hretries with
  | start hstage hcur =>
    obtain ⟨-, -, -, hfailed⟩ := h.opened attempt hmem hstage (current_revision hcur).1
    have hset : e.attempts.set 0 { attempt with stage := .starting } =
        [{ attempt with stage := .starting }] := by rw [hattempts]; rfl
    rw [hset]
    exact {
      timer := h.timer
      opened := by
        intro moved hmoved hopened
        rw [List.mem_singleton.mp hmoved] at hopened
        cases hopened
      resolved := by
        intro moved hmoved hsettled
        rw [List.mem_singleton.mp hmoved] at hsettled
        cases hsettled
      waits := by
        intro hinterrupted
        obtain ⟨hplays, hstatus, -⟩ := h.waits hinterrupted
        exact ⟨hplays, hstatus, Or.inr ⟨_, List.mem_singleton.mpr rfl, hcurrent hinterrupted,
          fun _ => hfailed⟩⟩ }
  | finish hends =>
    have hnot : e.interrupted = false := by
      by_contra hset
      have hinterrupted : e.interrupted = true := Bool.not_eq_false _ |>.mp hset
      rcases hends with hstale | hsettled
      · have hsource := (hwired.attempts attempt hmem).2.2 (hcurrent hinterrupted)
        rw [isCurrent, hcurrent hinterrupted, hsource.1, (h.waits hinterrupted).2.1] at hstale
        simp at hstale
      · exact hset (h.resolved attempt hmem hsettled)
    rw [herase]
    exact {
      timer := h.timer
      opened := fun _ hmoved => by cases hmoved
      resolved := fun _ hmoved => by cases hmoved
      waits := fun hset => by
        have hset : e.interrupted = true := hset
        rw [hnot] at hset
        cases hset }
  | retry message hstage hcur =>
    obtain ⟨hrevision, -, hstatus⟩ := current_revision hcur
    obtain ⟨-, hstarted, hlive⟩ := (hwired.attempts attempt hmem).2.2 hrevision
    have hfinished := hwired.finished hattempts
    have hresumes : e.resumes = true := Bool.and_eq_true_iff.mpr ⟨hlive, hstarted⟩
    rw [herase]
    obtain ⟨hset, hsays, hcommands⟩ := scheduled_timer hfinished hresumes rfl fun _ => hstatus
    obtain ⟨hcalls, hplays, hcount, hkept⟩ := scheduleLiveReconnect_keeps
      { e with attempts := [], isReconnectAttemptRunning := false }
    exact {
      timer := by
        intro timer htimer
        rcases hcommands timer htimer with hold | hnew
        · have hold : e.reconnectTimer = some timer := hold
          rw [hnone] at hold
          cases hold
        · rw [hcount]
          exact Or.inl hnew
      opened := by
        rw [hcalls]
        exact fun _ hmoved => by cases hmoved
      resolved := by
        rw [hcalls]
        exact fun _ hmoved => by cases hmoved
      waits := by
        intro hinterrupted
        rw [hkept] at hinterrupted
        rw [hplays]
        exact ⟨(h.waits hinterrupted).1, hsays, Or.inl hset⟩ }

theorem Recovering.reconnectLiveSource {timer : ReconnectTimer} (h : e.Recovering)
    (hwired : e.Wired) (htimer : e.reconnectTimer = some timer)
    (hcalm : e.status = .reconnecting → e.plays = []) :
    (e.reconnectLiveSource timer).Recovering := by
  have hnone := (hwired.timer timer htimer).2.2
  rcases hwired.reconnectLiveSource_cases htimer with
    ⟨hstatus, heq⟩ | ⟨hstatus, hls, src, hopens, heq⟩
  · rw [heq]
    exact {
      timer := fun _ hset => by cases hset
      opened := h.opened
      resolved := h.resolved
      waits := fun hinterrupted => absurd (h.waits hinterrupted).2.1 hstatus }
  · have hplays := hcalm hstatus
    have hcommands : timer.commands = e.commands := by
      rcases h.timer timer htimer with hcounted | hcalled | hother
      · exact hcounted
      · exact absurd hplays hcalled
      · exact absurd hstatus hother
    have hempty : e.unload.plays = [] := by
      rw [show e.unload.plays = e.plays.map _ from rfl, hplays, List.map_nil]
    rw [heq]
    exact {
      timer := fun _ hset => by cases hset
      opened := by
        intro attempt hmem _ _
        rw [List.mem_singleton.mp hmem]
        exact ⟨hcommands, hopens, hempty, rfl⟩
      resolved := by
        intro attempt hmem hsettled
        rw [List.mem_singleton.mp hmem] at hsettled
        cases hsettled
      waits := fun _ => ⟨hempty, hstatus, Or.inr ⟨_, List.mem_singleton.mpr rfl,
        (hwired.timer timer htimer).1, fun _ => rfl⟩⟩ }

/-- Where nothing is pending and nothing was interrupted. -/
theorem Recovering.idle (htimer : e.reconnectTimer = none) (hattempts : e.attempts = [])
    (hinterrupted : e.interrupted = false) : e.Recovering where
  timer timer hset := by
    rw [htimer] at hset
    cases hset
  opened := by
    rw [hattempts]
    exact fun _ hmem => by cases hmem
  resolved _ _ _ := hinterrupted
  waits hset := by
    rw [hinterrupted] at hset
    cases hset

/-- A source that is not live, or has not played, has no reconnects. -/
theorem Recovering.not_resumes (h : e.Recovering) (hwired : e.Wired) (hquiet : e.quiet = true)
    (hnot : e.resumes = false) :
    e.reconnectTimer = none ∧ e.attempts = [] ∧ e.interrupted = false := by
  have hnever : ∀ {source}, ¬ e.Reconnects source := by
    rintro source ⟨-, hstarted, hlive⟩
    have hresumes : e.resumes = true := Bool.and_eq_true_iff.mpr ⟨hlive, hstarted⟩
    exact absurd hresumes (Bool.eq_false_iff.mp hnot)
  refine ⟨?_, ?_, ?_⟩
  · by_contra hsome
    obtain ⟨timer, htimer⟩ := Option.ne_none_iff_exists'.mp hsome
    exact hnever (hwired.timer timer htimer).2.1
  · by_contra hsome
    obtain ⟨attempt, hmem⟩ := List.exists_mem_of_ne_nil _ hsome
    exact hnever ((hwired.attempts attempt hmem).2.2 (hwired.quiet_attempts hquiet attempt hmem).1)
  · by_contra hset
    rw [h.resumes hwired (Bool.not_eq_false _ |>.mp hset)] at hnot
    cases hnot

/-- The engine's answer to an interruption that finds nothing in flight. -/
theorem Recovering.interrupted {struck : Engine} (h : e.Recovering) (hwired : struck.Wired)
    (hcalm : e.Alone ∧ e.attempts = []) (hresumes : struck.resumes = true)
    (htimer : struck.reconnectTimer = e.reconnectTimer) (hcommands : struck.commands = e.commands)
    (hplays : struck.plays = e.plays) (hstatus : struck.status = e.status)
    (hattempts : struck.attempts = e.attempts) : struck.scheduleLiveReconnect.Recovering := by
  obtain ⟨⟨hcalls, hsays⟩, hnone⟩ := hcalm
  refine Recovering.scheduleLiveReconnect hwired hresumes ?_ ?_ ?_ ?_
  · rw [htimer, hcommands, hplays, hstatus]
    exact h.timer
  · rw [hplays, hcalls]
  · rw [hattempts, hnone]
  · rw [htimer, hstatus]
    exact fun hset => hsays (Or.inl hset)

theorem handleEnded_of_resumes (hresumes : e.resumes = true) :
    e.handleEnded = e.scheduleLiveReconnect := by
  rw [Engine.handleEnded]
  exact if_pos hresumes

theorem handleMediaError_of_resumes (hidle : e.isReconnectAttemptRunning = false)
    (hresumes : e.resumes = true) : e.handleMediaError = e.scheduleLiveReconnect := by
  rw [Engine.handleMediaError, if_neg (Bool.eq_false_iff.mp hidle)]
  exact if_pos hresumes

/-- The end of a source that is not live. -/
theorem Recovering.handleEnded_idle (hresumes : e.resumes = false)
    (htimer : e.reconnectTimer = none) (hattempts : e.attempts = [])
    (hinterrupted : e.interrupted = false) : e.handleEnded.Recovering := by
  rw [Engine.handleEnded]
  split
  · rename_i hlive
    exact absurd hlive (Bool.eq_false_iff.mp hresumes)
  · split
    · exact Recovering.idle htimer hattempts hinterrupted
    · split
      · dsimp only
        rw [Engine.play]
        dsimp only
        split
        · exact Recovering.idle htimer hattempts hinterrupted
        · exact Recovering.idle htimer hattempts hinterrupted
      · exact Recovering.idle htimer hattempts hinterrupted

theorem handleMediaError_keeps (hresumes : e.resumes = false) :
    e.handleMediaError.reconnectTimer = e.reconnectTimer ∧
      e.handleMediaError.attempts = e.attempts ∧
      e.handleMediaError.interrupted = e.interrupted := by
  rw [Engine.handleMediaError]
  split
  · exact ⟨rfl, rfl, rfl⟩
  · split
    · rename_i hlive
      exact absurd hlive (Bool.eq_false_iff.mp hresumes)
    · exact ⟨rfl, rfl, rfl⟩

/-- A source that does not reconnect is not recorded as interrupted. -/
theorem interrupt_eq (hinterrupted : e.interrupted = false) (hresumes : e.resumes = false) :
    e.interrupt.interrupted = false := by
  rw [show e.interrupt.interrupted = (e.interrupted || e.resumes) from rfl, hinterrupted, hresumes]
  rfl

theorem Recovering.mediaEnded (h : e.Recovering) (hwired : e.Wired) (hquiet : e.quiet = true)
    (hcalm : e.resumes = true → e.Alone ∧ e.attempts = []) :
    e.interrupt.endMedia.handleEnded.Recovering := by
  have hended : e.interrupt.endMedia.Wired :=
    (hwired.rejectStarting "The operation was aborted").frame (fun _ hc => hc) rfl rfl rfl id
      (fun _ ht => ht) rfl rfl rfl hwired.delays
  by_cases hresumes : e.resumes = true
  · obtain ⟨⟨hplays, -⟩, hattempts⟩ := hcalm hresumes
    rw [handleEnded_of_resumes (e := e.interrupt.endMedia) hresumes]
    refine h.interrupted hended (hcalm hresumes) hresumes rfl rfl ?_ rfl ?_
    · rw [show e.interrupt.endMedia.plays = e.plays.map _ from rfl, hplays, List.map_nil]
    · rw [show e.interrupt.endMedia.attempts = e.attempts.map _ from rfl, hattempts, List.map_nil]
  · have hnot : e.resumes = false := Bool.eq_false_iff.mpr hresumes
    obtain ⟨htimer, hattempts, hinterrupted⟩ := h.not_resumes hwired hquiet hnot
    refine Recovering.handleEnded_idle hnot htimer ?_ (interrupt_eq hinterrupted hnot)
    rw [show e.interrupt.endMedia.attempts = e.attempts.map _ from rfl, hattempts, List.map_nil]

theorem Recovering.fatalHlsError (h : e.Recovering) (hwired : e.Wired) (hquiet : e.quiet = true)
    (hcalm : e.resumes = true → e.Alone ∧ e.attempts = []) :
    (Engine.handleMediaError { e.interrupt with failed := true }).Recovering := by
  have hfailed : Wired { e.interrupt with failed := true } := hwired.keep rfl
  by_cases hresumes : e.resumes = true
  · obtain ⟨-, hattempts⟩ := hcalm hresumes
    have hidle : e.isReconnectAttemptRunning = false := by
      by_contra hrunning
      exact hwired.running.mp (Bool.not_eq_false _ |>.mp hrunning) hattempts
    have heq := handleMediaError_of_resumes (e := { e.interrupt with failed := true })
      hidle hresumes
    rw [heq]
    exact h.interrupted hfailed (hcalm hresumes) hresumes rfl rfl rfl rfl rfl
  · have hnot : e.resumes = false := Bool.eq_false_iff.mpr hresumes
    obtain ⟨htimer, hattempts, hinterrupted⟩ := h.not_resumes hwired hquiet hnot
    obtain ⟨hkeeps, hsame, hrecord⟩ :=
      handleMediaError_keeps (e := { e.interrupt with failed := true }) hnot
    exact Recovering.idle (hkeeps.trans htimer) (hsame.trans hattempts)
      (hrecord.trans (interrupt_eq hinterrupted hnot))

/-- Where no promise of `media.play()` is pending, there is none to reject. -/
theorem Recovering.rejectStarting (h : e.Recovering) (hplays : e.plays = [])
    (hattempts : e.attempts = []) (message : String) : (e.rejectStarting message).Recovering := by
  refine h.frame rfl rfl ?_ Iff.rfl ?_ rfl rfl rfl rfl
  · rw [show (e.rejectStarting message).plays = e.plays.map _ from rfl, hplays, List.map_nil]
  · rw [show (e.rejectStarting message).attempts = e.attempts.map _ from rfl, hattempts,
      List.map_nil]

/-- The element's own error rejects the promise an attempt waits for, so the attempt
goes on. -/
theorem Recovering.mediaError (h : e.Recovering) (hwired : e.Wired) (hquiet : e.quiet = true)
    (hcalm : e.resumes = true → e.Alone) (message : String) :
    (e.interrupt.handleMediaError.rejectStarting message).Recovering := by
  by_cases hresumes : e.resumes = true
  · obtain ⟨hplays, hsays⟩ := hcalm hresumes
    by_cases hattempts : e.attempts = []
    · have hidle : e.isReconnectAttemptRunning = false := by
        by_contra hrunning
        exact hwired.running.mp (Bool.not_eq_false _ |>.mp hrunning) hattempts
      have hinterrupt : e.interrupt.Wired := hwired.keep rfl
      rw [handleMediaError_of_resumes (e := e.interrupt) hidle hresumes]
      obtain ⟨hkeeps, hcalls, -⟩ := e.interrupt.scheduleLiveReconnect_keeps
      refine Recovering.rejectStarting ?_ (hcalls.trans hplays) (hkeeps.trans hattempts) message
      exact h.interrupted hinterrupt ⟨hcalm hresumes, hattempts⟩ hresumes rfl rfl rfl rfl rfl
    · have hrunning : e.interrupt.isReconnectAttemptRunning = true := hwired.running.mpr hattempts
      rw [Engine.handleMediaError, if_pos hrunning]
      obtain ⟨attempt, hmem⟩ := List.exists_mem_of_ne_nil _ hattempts
      obtain ⟨i, hi⟩ := List.mem_iff_getElem?.mp hmem
      obtain ⟨rfl, hone⟩ := hwired.attempts_eq hi
      obtain ⟨hrevision, hwaits⟩ := hwired.quiet_attempts hquiet attempt hmem
      have hready := (hwired.attempts attempt hmem).1
      have hsettled : attempt.stage.reject message = .settled (.error message) := by
        cases hstage : attempt.stage with
        | starting => rfl
        | loading | loaded =>
          rw [hstage] at hready
          cases hready
        | opened | settled =>
          rw [hstage] at hwaits
          cases hwaits
      have hrejected : (e.interrupt.rejectStarting message).attempts =
          [{ attempt with stage := .settled (.error message) }] := by
        rw [show (e.interrupt.rejectStarting message).attempts = e.attempts.map _ from rfl, hone,
          List.map_singleton, hsettled]
      have hnone : (e.interrupt.rejectStarting message).plays = [] := by
        rw [show (e.interrupt.rejectStarting message).plays = e.plays.map _ from rfl, hplays,
          List.map_nil]
      exact {
        timer := fun timer hset => by
          have hset : e.reconnectTimer = some timer := hset
          rw [hwired.timer_none hone] at hset
          cases hset
        opened := by
          rw [hrejected]
          intro moved hmoved hopened
          rw [List.mem_singleton.mp hmoved] at hopened
          cases hopened
        resolved := by
          rw [hrejected]
          intro moved hmoved hok
          rw [List.mem_singleton.mp hmoved] at hok
          cases hok
        waits := by
          intro _
          rw [hnone, hrejected]
          exact ⟨rfl, hsays (Or.inr hattempts), Or.inr ⟨_, List.mem_singleton.mpr rfl, hrevision,
            fun hstage => by cases hstage⟩⟩ }
  · have hnot : e.resumes = false := Bool.eq_false_iff.mpr hresumes
    obtain ⟨htimer, hattempts, hinterrupted⟩ := h.not_resumes hwired hquiet hnot
    obtain ⟨hkeeps, hsame, hrecord⟩ := handleMediaError_keeps (e := e.interrupt) hnot
    refine Recovering.idle (hkeeps.trans htimer) ?_ (hrecord.trans (interrupt_eq hinterrupted hnot))
    change e.interrupt.handleMediaError.attempts.map _ = []
    rw [hsame.trans hattempts, List.map_nil]

theorem Recovering.stallTimer (h : e.Recovering) (hwired : e.Wired) (hset : e.stallTimer = true)
    (hcalm : e.resumes = true → e.Alone ∧ e.attempts = []) :
    (Engine.scheduleLiveReconnect
      { e.interrupt with stallTimer := false, failed := true }).Recovering := by
  have hresumes : e.resumes = true := Bool.and_eq_true_iff.mpr (hwired.stall hset)
  have hfailed : Wired { e.interrupt with stallTimer := false, failed := true } :=
    hwired.frame (fun _ hc => hc) rfl rfl rfl (fun hset => by cases hset) (fun _ ht => ht)
      rfl rfl rfl hwired.delays
  exact h.interrupted hfailed (hcalm hresumes) hresumes rfl rfl rfl rfl rfl

theorem Recovering.mediaPlaying (hwired : e.Wired) (hquiet : e.quiet = true) :
    Recovering { e.handlePlaying.resolveStarting with interrupted := false } := by
  have hplaying : e.handlePlaying.status = .playing ∧ e.handlePlaying.attempts = e.attempts := by
    rw [Engine.handlePlaying]
    dsimp only
    split
    · exact ⟨rfl, rfl⟩
    · exact ⟨rfl, rfl⟩
  exact {
    timer := fun _ _ => Or.inr (Or.inr fun hstatus => by
      have hstatus : e.handlePlaying.status = .reconnecting := hstatus
      rw [hplaying.1] at hstatus
      cases hstatus)
    opened := by
      intro attempt hmem hopened
      obtain ⟨old, hold, rfl⟩ := List.mem_map.mp hmem
      rw [hplaying.2] at hold
      have hwaits := (hwired.quiet_attempts hquiet old hold).2
      cases hstage : old.stage with
      | opened =>
        rw [hstage] at hwaits
        cases hwaits
      | loading | loaded | starting | settled =>
        rw [hstage] at hopened
        cases hopened
    resolved := fun _ _ _ => rfl
    waits := fun hset => by cases hset }

/-- What a steady step keeps. -/
theorem Recovering.perform (h : e.Recovering) (hwired : e.Wired) (hstep : e.SteadyStep event e') :
    e'.Recovering := by
  obtain ⟨hstep, hcalm⟩ := hstep
  rw [Step] at hstep
  cases event with
  | play source =>
    rw [Engine.perform] at hstep
    cases source with
    | none =>
      cases hsource : e.source with
      | none =>
        rw [hsource] at hstep
        cases hstep
        exact h
      | some source =>
        rw [hsource] at hstep
        cases hstep
        rw [Engine.play]
        dsimp only
        have hshows : ¬ (e.commanded false).source.isNone = true := by
          rw [show (e.commanded false).source = e.source from rfl, hsource]
          exact Bool.false_ne_true
        rw [if_neg hshows]
        exact {
          timer := fun _ _ => Or.inr (Or.inl (List.append_ne_nil_of_right_ne_nil _
            (List.cons_ne_nil _ _)))
          opened := fun attempt hmem hopened => absurd hopened (hcalm attempt hmem)
          resolved := fun _ _ _ => rfl
          waits := fun hset => by cases hset }
    | some source =>
      rw [if_neg (fun hset => by cases hset)] at hstep
      cases hstep
      obtain ⟨hls, src, stage, heq, -⟩ := (e.commanded false).play_some_cases source
      rw [heq]
      exact Recovering.superseded _ hwired rfl rfl rfl rfl
  | pause =>
    cases hstep
    obtain ⟨status, heq⟩ := (e.commanded true).pause_eq
    rw [heq]
    exact Recovering.superseded _ hwired rfl rfl rfl rfl
  | stop =>
    cases hstep
    refine Recovering.superseded "The play() request was interrupted by a call to pause()" hwired
      rfl rfl ?_ rfl
    exact unload_pauseMedia_attempts
      { (e.commanded true).cancelLiveReconnect with sourceRevision := e.sourceRevision + 1 }
  | setStopAfterCurrent enabled =>
    cases hstep
    exact h.frame rfl rfl rfl Iff.rfl rfl rfl rfl rfl rfl
  | cycleRepeatMode =>
    cases hstep
    exact h.frame rfl rfl rfl Iff.rfl rfl rfl rfl rfl rfl
  | playLoads i library =>
    obtain ⟨call, hcall, hstep⟩ := Option.bind_eq_some_iff.mp hstep
    split at hstep
    · cases hstep
      exact h.call hcall (Or.inl (set_ne_nil hcall)) rfl rfl rfl
    · cases hstep
  | attemptLoads i library =>
    obtain ⟨attempt, hattempt, hstep⟩ := Option.bind_eq_some_iff.mp hstep
    have hready := (hwired.attempts attempt (List.mem_of_getElem? hattempt)).1
    split at hstep
    · rename_i hstage
      rw [hstage] at hready
      cases hready
    · cases hstep
  | playSettles i outcome =>
    obtain ⟨call, hcall, hstep⟩ := Option.bind_eq_some_iff.mp hstep
    split at hstep
    · cases hstep
      exact h.call hcall (Or.inl (set_ne_nil hcall)) rfl rfl rfl
    · cases hstep
  | attemptRejects i message =>
    obtain ⟨attempt, hattempt, hstep⟩ := Option.bind_eq_some_iff.mp hstep
    split at hstep
    · cases hstep
      exact h.rejected hwired hattempt message
    · cases hstep
  | continuePlay i => exact h.continuePlay hstep
  | continueAttempt i => exact h.continueAttempt hwired hstep
  | mediaPlay =>
    obtain ⟨-, -, rfl⟩ := task_cases hstep
    rw [handlePlay]
    split
    · exact h
    · rename_i hstatus
      refine h.frame rfl rfl rfl ?_ rfl rfl rfl rfl rfl
      exact iff_of_false (fun hset => by cases hset) hstatus
  | mediaPlaying =>
    obtain ⟨hquiet, -, rfl⟩ := task_cases hstep
    exact Recovering.mediaPlaying hwired hquiet
  | mediaPause =>
    obtain ⟨-, -, rfl⟩ := task_cases hstep
    rw [handlePause]
    split
    · exact h
    · refine h.frame rfl rfl rfl ?_ rfl rfl rfl rfl rfl
      exact iff_of_false (fun hset => by cases hset) hcalm
  | mediaEnded =>
    obtain ⟨hquiet, -, rfl⟩ := task_cases hstep
    exact h.mediaEnded hwired hquiet hcalm
  | mediaError =>
    obtain ⟨hquiet, -, rfl⟩ := task_cases hstep
    exact h.mediaError hwired hquiet hcalm _
  | mediaBreaks | fatalHlsError =>
    obtain ⟨hquiet, -, rfl⟩ := task_cases hstep
    exact h.fatalHlsError hwired hquiet hcalm
  | mediaStalled =>
    obtain ⟨-, -, rfl⟩ := task_cases hstep
    rw [Engine.handleStalled]
    split
    · exact h
    · exact h.frame rfl rfl rfl Iff.rfl rfl rfl rfl rfl rfl
  | mediaTimeUpdate =>
    obtain ⟨-, -, rfl⟩ := task_cases hstep
    rw [handleTimeUpdate]
    split
    · exact h.frame rfl rfl rfl Iff.rfl rfl rfl rfl rfl rfl
    · exact h
  | reconnectTimer =>
    obtain ⟨timer, htimer, hstep⟩ := Option.bind_eq_some_iff.mp hstep
    obtain ⟨-, -, rfl⟩ := task_cases hstep
    exact h.reconnectLiveSource hwired htimer hcalm
  | stallTimer =>
    obtain ⟨-, hset, rfl⟩ := task_cases hstep
    exact h.stallTimer hwired hset hcalm
  | stabilityTimer =>
    obtain ⟨-, -, rfl⟩ := task_cases hstep
    exact h.frame rfl rfl rfl Iff.rfl rfl rfl rfl rfl rfl

/-! ### Every steady run -/

theorem Recovering.run {events : List Event} (hwired : e.Wired) (h : e.Recovering)
    (hrun : Run SteadyStep e events e') : e'.Wired ∧ e'.Recovering :=
  hrun.preserves (fun _ => True)
    (fun _ _ _ _ (he : Wired _ ∧ Recovering _) hstep =>
      ⟨he.1.perform hstep.1, he.2.perform he.1 hstep⟩)
    (fun _ _ => trivial) ⟨hwired, h⟩

/-- An interruption is a task of the browser. -/
theorem quiet_of_interruption (hstep : e.Step event e') (hevent : interruption event = true) :
    e.quiet = true := by
  cases event with
  | mediaEnded | mediaError | mediaBreaks | fatalHlsError | stallTimer => exact (task_cases hstep).1
  | _ => cases hevent

/-- From the engine as it is built, every step of every steady run does what it should
about reconnects. -/
theorem interrupted_source_recovers {hlsFactory : Option Bool} {events : List Event}
    {event : Event} (hrun : Run SteadyStep (Engine.new hlsFactory) events e)
    (hstep : e.SteadyStep event e') : Recovers e event e' := by
  obtain ⟨hwired, hrecovering⟩ := Recovering.run (.new hlsFactory) (.new hlsFactory) hrun
  have hwired' := hwired.perform hstep.1
  have hafter := hrecovering.perform hwired hstep
  refine ⟨?_, ?_, ?_, ?_, hafter.waits_of hwired'⟩
  · intro timer hevent htimer hstatus
    subst hevent
    have hplays : e.plays = [] := hstep.2 hstatus
    have hcommands : timer.commands = e.commands := by
      rcases hrecovering.timer timer htimer with hcounted | hcalled | hother
      · exact hcounted
      · exact absurd hplays hcalled
      · exact absurd hstatus hother
    obtain ⟨found, hfound, htask⟩ := Option.bind_eq_some_iff.mp hstep.1
    cases htimer.symm.trans hfound
    obtain ⟨-, -, rfl⟩ := task_cases htask
    refine ⟨(hwired.timer timer htimer).2.1.1, hcommands, ?_⟩
    rcases hwired.reconnectLiveSource_cases htimer with ⟨hother, -⟩ | ⟨-, hls, src, hopens, heq⟩
    · exact absurd hstatus hother
    · rw [heq]
      exact hopens
  · intro i attempt hevent hattempt hopened hcurrent
    obtain ⟨hrevision, hsource, -⟩ := current_revision hcurrent
    obtain ⟨hcommands, hcontent, -⟩ :=
      hrecovering.opened attempt (List.mem_of_getElem? hattempt) hopened hrevision
    exact ⟨hsource, hcommands, hcontent⟩
  · exact fun timer hnone htimer => hwired.new_timer hstep.1 hnone htimer
  · intro hinterruption attempt hmem
    exact (hwired.quiet_attempts (quiet_of_interruption hstep.1 hinterruption) attempt hmem).1

end Engine

/-! ### A stream that recovers too soon -/

namespace Sample

def radio : PlaybackSource := ⟨.radioStation, "/api/v1/radio/stations/two/stream", false⟩

/-- A station plays, stalls for ten seconds and has its first attempt scheduled. -/
def stalled : List Event :=
  [.play (some radio), .continuePlay 0, .mediaPlaying, .continuePlay 0, .mediaStalled, .stallTimer]

/-- It plays again before the timer runs out, and ends. -/
def recovered : List Event :=
  stalled ++ [.mediaPlaying, .mediaEnded]

/-- The attempt opens the station. -/
theorem stalled_recovers : ∃ e e', Engine.Recovers e .reconnectTimer e' ∧
    e.delays = [1000] ∧ e'.content = some radio ∧ e'.isReconnectAttemptRunning = true := by
  have hrun : Run Engine.SteadyStep (Engine.new none) stalled _ :=
    .cons ⟨rfl, trivial⟩ (.cons ⟨rfl, trivial⟩ (.cons ⟨rfl, trivial⟩ (.cons ⟨rfl, trivial⟩
      (.cons ⟨rfl, trivial⟩ (.cons ⟨rfl, fun _ =>
        ⟨⟨rfl, fun hset => hset.elim (absurd rfl) (absurd rfl)⟩, rfl⟩⟩ (.nil _))))))
  exact ⟨_, _, Engine.interrupted_source_recovers hrun ⟨rfl, fun _ => rfl⟩, rfl, rfl, rfl⟩

/-- The end is not noticed while the timer is pending, and the timer does nothing for a
state that says playing: nothing reconnects any more. -/
theorem recovered_stream_is_dropped : ¬ ∀ events event e e',
    Run Engine.Step (Engine.new none) events e → e.Step event e' → e.Recovers event e' := by
  intro h
  have hrun : Run Engine.Step (Engine.new none) recovered _ :=
    .cons rfl (.cons rfl (.cons rfl (.cons rfl (.cons rfl (.cons rfl (.cons rfl
      (.cons rfl (.nil _))))))))
  have hrecovers := h recovered .reconnectTimer _ _ hrun rfl
  rcases hrecovers.waits rfl with ⟨timer, htimer, -⟩ | ⟨attempt, hmem, -⟩
  · cases htimer
  · cases hmem

end Sample

end Harmony.BrowserEngine
