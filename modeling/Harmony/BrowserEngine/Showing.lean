/-
# The element plays what the engine shows

`play` awaits the HLS library and then `media.play()`, and does not look, after either,
whether its source still is the chosen one. As long as no other source is chosen while
a call is in flight, and no pause or stop comes before it has called `media.play()`,
the element never holds another source than the state shows, no earlier call touches
the status of a later source, and after a pause or a stop nothing starts to play.
-/

import Harmony.BrowserEngine.Wiring

namespace Harmony.BrowserEngine

open Transition

namespace Engine

variable {e e' : Engine}

/-! ### What must not come together -/

/-- An interruption makes the engine reconnect. -/
def resumes (e : Engine) : Bool :=
  isLiveSource e.source && e.hasStartedLivePlayback

/-- The end of the source makes the engine play it again. -/
def repeats (e : Engine) : Bool :=
  !e.stopAfterCurrent && e.source.all (·.type != .externalTrack) && e.repeatMode != .off

/-- A source is chosen only while no call of `play` is in flight, a pause or a stop
comes only when every call has reached `media.play()`, and nothing that the engine
answers by playing comes after a pause or a stop. -/
def Unhurried (e : Engine) : Event → Prop
  | .play (some _) => e.plays = []
  | .pause | .stop => ∀ call ∈ e.plays, call.stage.early = false
  | .mediaEnded => e.silenced = true → e.resumes = false ∧ e.repeats = false
  | .mediaError | .mediaBreaks | .fatalHlsError | .stallTimer =>
      e.silenced = true → e.resumes = false
  | _ => True

def UnhurriedStep (e : Engine) (event : Event) (e' : Engine) : Prop :=
  e.Step event e' ∧ e.Unhurried event

/-- What a step should do: the element has no other source than the state shows, the
rest of a call for an earlier source leaves status and error alone, and after a pause
or a stop the element stays paused. -/
structure Belongs (e : Engine) (event : Event) (e' : Engine) : Prop where
  content : ∀ source, e'.content = some source → e'.source = some source
  plays : ∀ i call, event = .continuePlay i → e.plays[i]? = some call →
    call.choice ≠ e.choices → e'.status = e.status ∧ e'.error = e.error
  attempts : ∀ i attempt, event = .continueAttempt i → e.attempts[i]? = some attempt →
    attempt.sourceRevision ≠ e.sourceRevision → e'.status = e.status ∧ e'.error = e.error
  silent : e'.silenced = true → e'.media.paused = true

/-! ### The invariant -/

structure Showing (e : Engine) : Prop where
  content : ∀ source, e.content = some source → e.source = some source
  /-- Every call is for the last choice, and before `media.play()` it may play. -/
  calls : ∀ call ∈ e.plays, call.choice = e.choices ∧ (call.stage.early = true →
    (∀ source, call.source = some source → e.source = some source) ∧ e.silenced = false)
  attempts : ∀ attempt ∈ e.attempts, attempt.sourceRevision = e.sourceRevision →
    e.silenced = false
  timer : e.reconnectTimer ≠ none → e.silenced = false
  silent : e.silenced = true → e.media.paused = true

theorem Showing.new (hlsFactory : Option Bool) : (Engine.new hlsFactory).Showing where
  content source h := by cases h
  calls call h := by cases h
  attempts attempt h := by cases h
  timer h := absurd rfl h
  silent h := by cases h

/-- Calls of `play` whose promises settle stay the same calls. -/
theorem Showing.mapStages {f : Stage → Stage} (h : e.Showing)
    (hearly : ∀ stage, (f stage).early = stage.early) :
    Showing { e with
      plays := e.plays.map fun call => { call with stage := f call.stage }
      attempts := e.attempts.map fun call => { call with stage := f call.stage } } where
  content := h.content
  calls := by
    intro call hmem
    obtain ⟨old, hold, rfl⟩ := List.mem_map.mp hmem
    rw [hearly]
    exact h.calls old hold
  attempts := by
    intro attempt hmem
    obtain ⟨old, hold, rfl⟩ := List.mem_map.mp hmem
    exact h.attempts old hold
  timer := h.timer
  silent := h.silent

theorem Showing.rejectStarting (h : e.Showing) (message : String) :
    (e.rejectStarting message).Showing :=
  h.mapStages (Stage.early_reject message)

theorem Showing.resolveStarting (h : e.Showing) : e.resolveStarting.Showing :=
  h.mapStages Stage.early_resolve

/-- What the engine shows of the status, and which timers run out, does not matter. -/
theorem Showing.frame (h : e.Showing) (hcontent : e'.content = e.content)
    (hsource : e'.source = e.source) (hplays : e'.plays = e.plays)
    (hchoices : e'.choices = e.choices) (hattempts : e'.attempts = e.attempts)
    (hrevision : e'.sourceRevision = e.sourceRevision)
    (htimer : e'.reconnectTimer ≠ none → e.reconnectTimer ≠ none)
    (hsilenced : e'.silenced = e.silenced)
    (hpaused : e.media.paused = true → e'.media.paused = true) : e'.Showing where
  content := by
    rw [hcontent, hsource]
    exact h.content
  calls := by
    rw [hplays, hchoices, hsource, hsilenced]
    exact h.calls
  attempts := by
    rw [hattempts, hrevision, hsilenced]
    exact h.attempts
  timer hset := by
    rw [hsilenced]
    exact h.timer (htimer hset)
  silent := by
    rw [hsilenced]
    exact fun hset => hpaused (h.silent hset)

theorem Showing.scheduleLiveReconnect (h : e.Showing) (hsilenced : e.silenced = false) :
    e.scheduleLiveReconnect.Showing := by
  rcases e.scheduleLiveReconnect_cases with ⟨heq, -⟩ | ⟨source, -, -, -, -, heq⟩
  · rw [heq]
    exact h
  · rw [heq]
    exact {
      content := h.content
      calls := h.calls
      attempts := h.attempts
      timer := fun _ => hsilenced
      silent := h.silent }

/-- Playing on without another source. -/
theorem Showing.play_none (h : e.Showing) (hsilenced : e.silenced = false) :
    (e.play none).Showing := by
  rw [Engine.play]
  dsimp only
  split
  · exact h
  · exact {
      content := h.content
      calls := by
        intro call hmem
        rcases List.mem_append.mp hmem with hmem | hmem
        · exact h.calls call hmem
        · obtain rfl := List.mem_singleton.mp hmem
          exact ⟨rfl, fun hearly => by cases hearly⟩
      attempts := h.attempts
      timer := h.timer
      silent := by
        intro hset
        have hset : e.silenced = true := hset
        rw [hsilenced] at hset
        cases hset }

/-! ### One step -/

theorem Showing.play_some (source : PlaybackSource) (hplays : e.plays = [])
    (hsilenced : e.silenced = false) : (e.play (some source)).Showing := by
  obtain ⟨hls, src, stage, heq, hopens⟩ := e.play_some_cases source
  have hnone : e.unload.plays = [] := by
    rw [show e.unload.plays = e.plays.map _ from rfl, hplays, List.map_nil]
  rw [heq, hnone]
  exact {
    content := by
      intro shown hshown
      have hshown : (hls <|> src) = some shown := hshown
      rcases hopens with ⟨-, hsource, -⟩ | ⟨-, hempty, -⟩
      · exact hsource.symm.trans hshown
      · cases hempty.symm.trans hshown
    calls := by
      intro call hmem
      obtain rfl := List.mem_singleton.mp hmem
      exact ⟨rfl, fun _ => ⟨fun _ h => h, hsilenced⟩⟩
    attempts := fun _ _ _ => hsilenced
    timer := fun hset => absurd rfl hset
    silent := fun _ => rfl }

/-- A pause leaves no call that may still play. -/
theorem Showing.pause (h : e.Showing) (hwired : e.Wired)
    (hplays : ∀ call ∈ e.plays, call.stage.early = false) :
    (e.commanded true).pause.Showing := by
  obtain ⟨status, heq⟩ := (e.commanded true).pause_eq
  have hrejected :=
    h.rejectStarting "The play() request was interrupted by a call to pause()"
  rw [heq]
  exact {
    content := h.content
    calls := by
      intro call hmem
      refine ⟨(hrejected.calls call hmem).1, fun hearly => ?_⟩
      obtain ⟨old, hold, rfl⟩ := List.mem_map.mp hmem
      rw [Stage.early_reject, hplays old hold] at hearly
      cases hearly
    attempts := by
      intro attempt hmem heq
      obtain ⟨old, hold, rfl⟩ := List.mem_map.mp hmem
      have hle := (hwired.attempts old hold).2.1
      have heq : old.sourceRevision = e.sourceRevision + 1 := heq
      omega
    timer := fun hset => absurd rfl hset
    silent := fun _ => rfl }

theorem Showing.stop (h : e.Showing) (hwired : e.Wired)
    (hplays : ∀ call ∈ e.plays, call.stage.early = false) :
    (e.commanded true).stop.Showing where
  content := fun _ hshown => by cases hshown
  calls := by
    intro call hmem
    obtain ⟨paused, hpaused, rfl⟩ := List.mem_map.mp hmem
    obtain ⟨old, hold, rfl⟩ := List.mem_map.mp hpaused
    refine ⟨(h.calls old hold).1, fun hearly => ?_⟩
    rw [Stage.early_reject, Stage.early_reject, hplays old hold] at hearly
    cases hearly
  attempts := by
    intro attempt hmem heq
    obtain ⟨paused, hpaused, rfl⟩ := List.mem_map.mp hmem
    obtain ⟨old, hold, rfl⟩ := List.mem_map.mp hpaused
    have hle := (hwired.attempts old hold).2.1
    have heq : old.sourceRevision = e.sourceRevision + 1 := heq
    omega
  timer := fun hset => absurd rfl hset
  silent := fun _ => rfl

/-- The call goes on; what it may do stays the same. -/
theorem Showing.set_call {i : ℕ} {call : PlayCall} (h : e.Showing)
    (hcall : e.plays[i]? = some call) (stage : Stage)
    (hearly : stage.early = true → call.stage.early = true) :
    Showing { e with plays := e.plays.set i { call with stage } } where
  content := h.content
  calls := by
    intro moved hmem
    rcases List.mem_or_eq_of_mem_set hmem with hmem | rfl
    · exact h.calls moved hmem
    · obtain ⟨hchoice, hrest⟩ := h.calls call (List.mem_of_getElem? hcall)
      exact ⟨hchoice, fun hset => hrest (hearly hset)⟩
  attempts := h.attempts
  timer := h.timer
  silent := h.silent

theorem Showing.continuePlay {i : ℕ} (h : e.Showing) (hstep : e.continuePlay i = some e') :
    e'.Showing := by
  obtain ⟨call, hcall, hcontinues⟩ := continuePlay_cases hstep
  obtain ⟨hchoice, hearly⟩ := h.calls call (List.mem_of_getElem? hcall)
  cases hcontinues with
  | attach supported source hstage hsource =>
    obtain ⟨hls, src, heq, hopens, -⟩ :=
      attachHls_cases { e with hlsFactory := some supported } source
    have hmay : call.stage.early = true := by rw [hstage]; rfl
    rw [heq]
    have hset := h.set_call hcall .opened fun _ => hmay
    exact {
      content := by
        intro shown hshown
        have hshown : (hls <|> src) = some shown := hshown
        rcases hopens with hnew | hold
        · cases hnew.symm.trans hshown
          exact (hearly hmay).1 source hsource
        · exact h.content shown (hold.symm.trans hshown)
      calls := hset.calls
      attempts := h.attempts
      timer := h.timer
      silent := h.silent }
  | fail message hstage => exact h.set_call hcall _ fun hset => by cases hset
  | start hstage =>
    have hsilenced := (hearly (by rw [hstage]; rfl)).2
    have hset := h.set_call hcall .starting fun hset => by cases hset
    exact {
      content := h.content
      calls := hset.calls
      attempts := h.attempts
      timer := h.timer
      silent := fun hset => by
        have hset : e.silenced = true := hset
        rw [hsilenced] at hset
        cases hset }
  | succeed | throw =>
    exact {
      content := h.content
      calls := fun call hmem => h.calls call (List.mem_of_mem_eraseIdx hmem)
      attempts := h.attempts
      timer := h.timer
      silent := h.silent }

theorem Showing.continueAttempt {i : ℕ} (h : e.Showing) (hwired : e.Wired)
    (hstep : e.continueAttempt i = some e') : e'.Showing := by
  obtain ⟨attempt, hattempt, hretries⟩ := hwired.continueAttempt_cases hstep
  have hmem := List.mem_of_getElem? hattempt
  have hfinished : Showing { e with
      attempts := e.attempts.eraseIdx i, isReconnectAttemptRunning := false } := {
    content := h.content
    calls := h.calls
    attempts := fun old hold => h.attempts old (List.mem_of_mem_eraseIdx hold)
    timer := h.timer
    silent := h.silent }
  cases hretries with
  | start hstage hcurrent =>
    have hsilenced := h.attempts attempt hmem (current_revision hcurrent).1
    exact {
      content := h.content
      calls := h.calls
      attempts := fun _ _ _ => hsilenced
      timer := h.timer
      silent := fun hset => by
        have hset : e.silenced = true := hset
        rw [hsilenced] at hset
        cases hset }
  | finish => exact hfinished
  | retry message hstage hcurrent =>
    exact hfinished.scheduleLiveReconnect (h.attempts attempt hmem (current_revision hcurrent).1)

theorem Showing.reconnectLiveSource {timer : ReconnectTimer} (h : e.Showing) (hwired : e.Wired)
    (htimer : e.reconnectTimer = some timer) : (e.reconnectLiveSource timer).Showing := by
  have hsilenced := h.timer (by rw [htimer]; exact Option.some_ne_none _)
  rcases hwired.reconnectLiveSource_cases htimer with ⟨-, heq⟩ | ⟨-, hls, src, hopens, heq⟩
  · rw [heq]
    exact h.frame rfl rfl rfl rfl rfl rfl (fun hset => absurd rfl hset) rfl id
  · rw [heq]
    have hrejected :=
      h.rejectStarting "The play() request was interrupted by a new load request"
    exact {
      content := by
        intro shown hshown
        have hshown : (hls <|> src) = some shown := hshown
        rw [← hshown, hopens]
        exact (hwired.timer timer htimer).2.1.1
      calls := hrejected.calls
      attempts := fun _ _ _ => hsilenced
      timer := fun hset => absurd rfl hset
      silent := fun _ => rfl }

/-- After a pause or a stop, an interruption that the engine would answer by playing
does not come. -/
theorem not_silenced (h : e.silenced = true → e.resumes = false) (hresumes : e.resumes = true) :
    e.silenced = false := by
  by_contra hsilenced
  rw [h (Bool.not_eq_false _ |>.mp hsilenced)] at hresumes
  cases hresumes

theorem Showing.handleEnded (h : e.Showing)
    (hcalm : e.silenced = true → e.resumes = false ∧ e.repeats = false) :
    e.handleEnded.Showing := by
  rw [Engine.handleEnded]
  split
  · rename_i hresumes
    exact h.scheduleLiveReconnect (not_silenced (fun hset => (hcalm hset).1) hresumes)
  · split
    · exact h.frame rfl rfl rfl rfl rfl rfl id rfl id
    · rename_i hgoesOn
      split
      · rename_i hrepeats
        refine Showing.play_none ?_ ?_
        · exact h.frame rfl rfl rfl rfl rfl rfl id rfl id
        · by_contra hsilenced
          have hnever := (hcalm (Bool.not_eq_false _ |>.mp hsilenced)).2
          rw [repeats, Bool.and_assoc, hrepeats, Bool.and_true, Bool.not_eq_false'] at hnever
          exact hgoesOn hnever
      · exact h.frame rfl rfl rfl rfl rfl rfl id rfl id

theorem Showing.handleMediaError (h : e.Showing)
    (hcalm : e.silenced = true → e.resumes = false) : e.handleMediaError.Showing := by
  rw [Engine.handleMediaError]
  split
  · exact h
  · split
    · rename_i hresumes
      exact h.scheduleLiveReconnect (not_silenced hcalm hresumes)
    · exact h.frame rfl rfl rfl rfl rfl rfl id rfl id

/-- What an unhurried step keeps. -/
theorem Showing.perform {event : Event} (h : e.Showing) (hwired : e.Wired)
    (hstep : e.UnhurriedStep event e') : e'.Showing := by
  obtain ⟨hstep, hcalm⟩ := hstep
  have hinterrupt : e.interrupt.Showing := h.frame rfl rfl rfl rfl rfl rfl id rfl id
  rw [Step] at hstep
  cases event with
  | play source =>
    rw [Engine.perform] at hstep
    have hcommanded : (e.commanded false).Showing := {
      content := h.content
      calls := fun call hmem => ⟨(h.calls call hmem).1, fun hearly =>
        ⟨((h.calls call hmem).2 hearly).1, rfl⟩⟩
      attempts := fun _ _ _ => rfl
      timer := fun _ => rfl
      silent := fun hset => by cases hset }
    cases source with
    | none =>
      split at hstep
      · cases hstep
        exact h
      · cases hstep
        exact hcommanded.play_none rfl
    | some source =>
      rw [if_neg (fun hset => by cases hset)] at hstep
      cases hstep
      exact Showing.play_some source hcalm rfl
  | pause =>
    cases hstep
    exact h.pause hwired hcalm
  | stop =>
    cases hstep
    exact h.stop hwired hcalm
  | setStopAfterCurrent enabled =>
    cases hstep
    exact h.frame rfl rfl rfl rfl rfl rfl id rfl id
  | cycleRepeatMode =>
    cases hstep
    exact h.frame rfl rfl rfl rfl rfl rfl id rfl id
  | playLoads i library =>
    obtain ⟨call, hcall, hstep⟩ := Option.bind_eq_some_iff.mp hstep
    split at hstep
    · rename_i hstage
      cases hstep
      exact h.set_call hcall _ fun _ => by rw [hstage]; rfl
    · cases hstep
  | attemptLoads i library =>
    obtain ⟨attempt, hattempt, hstep⟩ := Option.bind_eq_some_iff.mp hstep
    have hready := (hwired.attempts attempt (List.mem_of_getElem? hattempt)).1
    split at hstep
    · rename_i hstage
      rw [hstage] at hready
      cases hready
    · cases hstep
  | playSettles i outcome =>
    obtain ⟨call, hcall, hstep⟩ := Option.bind_eq_some_iff.mp hstep
    split at hstep
    · cases hstep
      exact h.set_call hcall _ fun hset => by cases hset
    · cases hstep
  | attemptRejects i message =>
    obtain ⟨attempt, hattempt, hstep⟩ := Option.bind_eq_some_iff.mp hstep
    split at hstep
    · cases hstep
      exact {
        content := h.content
        calls := h.calls
        attempts := by
          intro moved hmem
          rcases List.mem_or_eq_of_mem_set hmem with hmem | rfl
          · exact h.attempts moved hmem
          · exact h.attempts attempt (List.mem_of_getElem? hattempt)
        timer := h.timer
        silent := h.silent }
    · cases hstep
  | continuePlay i => exact h.continuePlay hstep
  | continueAttempt i => exact h.continueAttempt hwired hstep
  | mediaPlay =>
    obtain ⟨-, -, rfl⟩ := task_cases hstep
    rw [handlePlay]
    split
    · exact h
    · exact h.frame rfl rfl rfl rfl rfl rfl id rfl id
  | mediaPlaying =>
    obtain ⟨-, -, rfl⟩ := task_cases hstep
    have hplaying : e.handlePlaying.Showing := by
      rw [handlePlaying]
      dsimp only
      split
      · exact h.frame rfl rfl rfl rfl rfl rfl id rfl id
      · exact h.frame rfl rfl rfl rfl rfl rfl id rfl id
    exact hplaying.resolveStarting.frame rfl rfl rfl rfl rfl rfl id rfl id
  | mediaPause =>
    obtain ⟨-, -, rfl⟩ := task_cases hstep
    rw [handlePause]
    split
    · exact h
    · exact h.frame rfl rfl rfl rfl rfl rfl id rfl id
  | mediaEnded =>
    obtain ⟨-, -, rfl⟩ := task_cases hstep
    refine Showing.handleEnded ?_ hcalm
    exact (hinterrupt.rejectStarting "The operation was aborted").frame rfl rfl rfl rfl rfl rfl id
      rfl (fun _ => rfl)
  | mediaError =>
    obtain ⟨-, -, rfl⟩ := task_cases hstep
    exact (hinterrupt.handleMediaError hcalm).rejectStarting _
  | mediaBreaks | fatalHlsError =>
    obtain ⟨-, -, rfl⟩ := task_cases hstep
    refine Showing.handleMediaError ?_ hcalm
    exact hinterrupt.frame rfl rfl rfl rfl rfl rfl id rfl id
  | mediaStalled =>
    obtain ⟨-, -, rfl⟩ := task_cases hstep
    rw [handleStalled]
    split
    · exact h
    · exact h.frame rfl rfl rfl rfl rfl rfl id rfl id
  | mediaTimeUpdate =>
    obtain ⟨-, -, rfl⟩ := task_cases hstep
    rw [handleTimeUpdate]
    split
    · exact h.frame rfl rfl rfl rfl rfl rfl id rfl id
    · exact h
  | reconnectTimer =>
    obtain ⟨timer, htimer, hstep⟩ := Option.bind_eq_some_iff.mp hstep
    obtain ⟨-, -, rfl⟩ := task_cases hstep
    exact h.reconnectLiveSource hwired htimer
  | stallTimer =>
    obtain ⟨-, hset, rfl⟩ := task_cases hstep
    have hresumes : e.resumes = true := Bool.and_eq_true_iff.mpr (hwired.stall hset)
    refine Showing.scheduleLiveReconnect ?_ (not_silenced hcalm hresumes)
    exact hinterrupt.frame rfl rfl rfl rfl rfl rfl id rfl id
  | stabilityTimer =>
    obtain ⟨-, -, rfl⟩ := task_cases hstep
    exact h.frame rfl rfl rfl rfl rfl rfl id rfl id

/-! ### Every unhurried run -/

theorem Showing.run {events : List Event} (hwired : e.Wired) (h : e.Showing)
    (hrun : Run UnhurriedStep e events e') : e'.Wired ∧ e'.Showing :=
  hrun.preserves (fun _ => True)
    (fun _ _ _ _ (he : Wired _ ∧ Showing _) hstep =>
      ⟨he.1.perform hstep.1, he.2.perform he.1 hstep⟩)
    (fun _ _ => trivial) ⟨hwired, h⟩

/-- The rest of an attempt that is out of date ends it and nothing else. -/
theorem Wired.stale_attempt {i : ℕ} {attempt : Attempt} (hwired : e.Wired)
    (hstep : e.continueAttempt i = some e') (hattempt : e.attempts[i]? = some attempt)
    (hstale : attempt.sourceRevision ≠ e.sourceRevision) :
    e'.status = e.status ∧ e'.error = e.error := by
  obtain ⟨found, hfound, hretries⟩ := hwired.continueAttempt_cases hstep
  cases hattempt.symm.trans hfound
  cases hretries with
  | start hstage hcurrent => exact absurd (current_revision hcurrent).1 hstale
  | finish => exact ⟨rfl, rfl⟩
  | retry message hstage hcurrent => exact absurd (current_revision hcurrent).1 hstale

/-- From the engine as it is built, every step of every unhurried run belongs to what
the engine shows. -/
theorem element_plays_what_is_shown {hlsFactory : Option Bool} {events : List Event}
    {event : Event} (hrun : Run UnhurriedStep (Engine.new hlsFactory) events e)
    (hstep : e.UnhurriedStep event e') : Belongs e event e' := by
  obtain ⟨hwired, hshowing⟩ := Showing.run (.new hlsFactory) (.new hlsFactory) hrun
  have hafter := hshowing.perform hwired hstep
  refine ⟨hafter.content, ?_, ?_, hafter.silent⟩
  · intro i call _ hcall hearlier
    exact absurd (hshowing.calls call (List.mem_of_getElem? hcall)).1 hearlier
  · intro i attempt hevent hattempt hstale
    subst hevent
    exact hwired.stale_attempt hstep.1 hattempt hstale

end Engine

/-! ### Two choices in a hurry -/

namespace Sample

def station : PlaybackSource := ⟨.radioStation, "/api/v1/radio/stations/one/stream", true⟩

def song : PlaybackSource := ⟨.track, "/api/v1/tracks/awake/stream", false⟩

/-- A station is chosen, and its library loads. -/
def opening : List Event :=
  [.play (some station), .playLoads 0 (.ok true), .continuePlay 0, .continuePlay 0]

/-- A song is chosen while the library still loads for the station. -/
def hurried : List Event :=
  [.play (some station), .play (some song), .playLoads 0 (.ok true)]

/-- It is played once more while the first call waits for the element, and a pause
interrupts both. -/
def overlapping : List Event := opening ++ [.play none, .pause]

/-- The station stays in the element, and silent. -/
theorem opening_belongs : ∃ e e', e.plays.length = 2 ∧ Engine.Belongs e (.continuePlay 0) e' ∧
    e'.media.paused = true ∧ e'.content = some station := by
  have hrun : Run Engine.UnhurriedStep (Engine.new none) overlapping _ :=
    .cons ⟨rfl, rfl⟩ (.cons ⟨rfl, trivial⟩ (.cons ⟨rfl, trivial⟩ (.cons ⟨rfl, trivial⟩
      (.cons ⟨rfl, trivial⟩ (.cons ⟨rfl, List.forall_mem_cons.mpr
        ⟨rfl, List.forall_mem_singleton.mpr rfl⟩⟩ (.nil _))))))
  exact ⟨_, _, rfl, Engine.element_plays_what_is_shown hrun ⟨rfl, trivial⟩, rfl, rfl⟩

/-- The element gets the station while the state shows the song. -/
theorem hurried_choice_shows_another : ¬ ∀ events event e e',
    Run Engine.Step (Engine.new none) events e → e.Step event e' → e.Belongs event e' := by
  intro h
  have hrun : Run Engine.Step (Engine.new none) hurried _ :=
    .cons rfl (.cons rfl (.cons rfl (.nil _)))
  have hbelongs := h hurried (.continuePlay 0) _ _ hrun rfl
  have hsource := hbelongs.content station rfl
  exact absurd hsource (by decide)

end Sample

end Harmony.BrowserEngine
