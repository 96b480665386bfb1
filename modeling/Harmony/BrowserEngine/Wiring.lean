/-
# What every run of the browser engine keeps

Whatever the order of commands, promises, media events and timers: a source that has
started is one the engine can open at once, a timer or an attempt that is not out of
date is for the source the state shows, there is one attempt at a time, and the delays
follow the table.
-/

import Harmony.BrowserEngine.Engine
import Harmony.Library.Transition

namespace Harmony.BrowserEngine

namespace Stage

/-- The HLS library is known, or not needed. -/
def ready : Stage → Bool
  | loading | loaded _ => false
  | opened | starting | settled _ => true

theorem ready_reject (message : String) (stage : Stage) :
    (stage.reject message).ready = stage.ready := by
  cases stage <;> rfl

theorem ready_resolve (stage : Stage) : stage.resolve.ready = stage.ready := by
  cases stage <;> rfl

theorem runnable_reject {stage : Stage} (message : String) (h : stage.ready = true) :
    (stage.reject message).runnable = true := by
  cases stage with
  | loading => cases h
  | loaded library => cases h
  | opened => rfl
  | starting => rfl
  | settled outcome => rfl

theorem early_reject (message : String) (stage : Stage) :
    (stage.reject message).early = stage.early := by
  cases stage <;> rfl

theorem early_resolve (stage : Stage) : stage.resolve.early = stage.early := by
  cases stage <;> rfl

end Stage

open Transition

namespace Engine

/-- One event, as a relation. -/
def Step (e : Engine) (event : Event) (e' : Engine) : Prop :=
  e.perform event = some e'

/-! ### The invariant -/

/-- What a reconnect that is not out of date relies on. -/
def Reconnects (e : Engine) (source : PlaybackSource) : Prop :=
  e.source = some source ∧ e.hasStartedLivePlayback = true ∧ isLiveSource e.source = true

structure Wired (e : Engine) : Prop where
  /-- Before the library is known the element has only what the state shows. -/
  library : e.hlsFactory = none → ∀ source, e.content = some source →
    e.source = some source ∧ source.isHls = false
  /-- A source that has started opens without waiting for the library. -/
  started : e.hasStartedLivePlayback = true → ∀ source, e.source = some source →
    source.isHls = true → e.hlsFactory ≠ none
  stall : e.stallTimer = true → isLiveSource e.source = true ∧ e.hasStartedLivePlayback = true
  timer : ∀ timer, e.reconnectTimer = some timer →
    timer.sourceRevision = e.sourceRevision ∧ e.Reconnects timer.source ∧ e.attempts = []
  attempts : ∀ attempt ∈ e.attempts, attempt.stage.ready = true ∧
    attempt.sourceRevision ≤ e.sourceRevision ∧
    (attempt.sourceRevision = e.sourceRevision → e.Reconnects attempt.source)
  /-- Where an attempt is out of date, its promise has been settled. -/
  stale : ∀ attempt ∈ e.attempts, attempt.sourceRevision ≠ e.sourceRevision →
    attempt.stage.runnable = true
  alone : e.attempts.length ≤ 1
  running : e.isReconnectAttemptRunning = true ↔ e.attempts ≠ []
  delays : e.delays = (List.range e.reconnectAttempt).map reconnectDelay

theorem Wired.new (hlsFactory : Option Bool) : (Engine.new hlsFactory).Wired where
  library _ source hcontent := by cases hcontent
  started h := by cases h
  stall h := by cases h
  timer timer h := by cases h
  attempts attempt h := by cases h
  stale attempt h := by cases h
  alone := Nat.zero_le 1
  running := iff_of_false Bool.false_ne_true (fun h => h rfl)
  delays := rfl

variable {e : Engine} {e' : Engine} {attempt : Attempt} {i : ℕ}

/-! ### The element -/

/-- Settling promises of `media.play()` one way or the other. -/
theorem Wired.mapStages {f : Stage → Stage} {plays : List PlayCall} (h : e.Wired)
    (hready : ∀ stage, (f stage).ready = stage.ready)
    (hrunnable : ∀ stage, stage.runnable = true → (f stage).runnable = true) :
    Wired { e with
      plays, attempts := e.attempts.map fun call => { call with stage := f call.stage } } where
  library := h.library
  started := h.started
  stall := h.stall
  timer timer htimer := by
    obtain ⟨hrevision, hsource, hnone⟩ := h.timer timer htimer
    refine ⟨hrevision, hsource, ?_⟩
    rw [hnone]
    rfl
  attempts := by
    intro attempt hmem
    obtain ⟨old, hold, rfl⟩ := List.mem_map.mp hmem
    obtain ⟨hstage, hrest⟩ := h.attempts old hold
    exact ⟨(hready old.stage).trans hstage, hrest⟩
  stale := by
    intro attempt hmem hne
    obtain ⟨old, hold, rfl⟩ := List.mem_map.mp hmem
    exact hrunnable old.stage (h.stale old hold hne)
  alone := by
    rw [List.length_map]
    exact h.alone
  running := by
    rw [ne_eq, List.map_eq_nil_iff]
    exact h.running
  delays := h.delays

theorem Wired.rejectStarting (h : e.Wired) (message : String) : (e.rejectStarting message).Wired :=
  h.mapStages (Stage.ready_reject message) fun stage hstage => by
    cases stage with
    | starting => rfl
    | loading | loaded | opened | settled => exact hstage

theorem Wired.resolveStarting (h : e.Wired) : e.resolveStarting.Wired :=
  h.mapStages Stage.ready_resolve fun stage hstage => by
    cases stage with
    | starting => rfl
    | loading | loaded | opened | settled => exact hstage

/-- The element, the calls of `play` and what the state shows of the status may change
as they like, as long as the element holds no other source. -/
theorem Wired.frame (h : e.Wired)
    (hcontent : ∀ source, e'.content = some source → e.content = some source)
    (hsource : e'.source = e.source) (hfactory : e'.hlsFactory = e.hlsFactory)
    (hstarted : e'.hasStartedLivePlayback = e.hasStartedLivePlayback)
    (hstall : e'.stallTimer = true → e.stallTimer = true)
    (htimer : ∀ timer, e'.reconnectTimer = some timer → e.reconnectTimer = some timer)
    (hrevision : e'.sourceRevision = e.sourceRevision) (hattempts : e'.attempts = e.attempts)
    (hrunning : e'.isReconnectAttemptRunning = e.isReconnectAttemptRunning)
    (hdelays : e'.delays = (List.range e'.reconnectAttempt).map reconnectDelay) : e'.Wired where
  library := by
    rw [hfactory, hsource]
    exact fun hnone source hnew => h.library hnone source (hcontent source hnew)
  started := by
    rw [hfactory, hsource, hstarted]
    exact h.started
  stall hset := by
    rw [hsource, hstarted]
    exact h.stall (hstall hset)
  timer timer hset := by
    rw [hrevision, hattempts, Reconnects, hsource, hstarted]
    exact h.timer timer (htimer timer hset)
  attempts := by
    rw [hattempts, hrevision]
    simp only [Reconnects, hsource, hstarted]
    exact h.attempts
  stale := by
    rw [hattempts, hrevision]
    exact h.stale
  alone := by
    rw [hattempts]
    exact h.alone
  running := by
    rw [hattempts, hrunning]
    exact h.running
  delays := hdelays

/-- What the wiring reads of an engine. -/
def wiring (e : Engine) :=
  (e.content, e.source, e.hlsFactory, e.hasStartedLivePlayback, e.stallTimer, e.reconnectTimer,
    e.sourceRevision, e.attempts, e.isReconnectAttemptRunning, e.delays, e.reconnectAttempt)

theorem Wired.keep (h : e.Wired) (hsame : e'.wiring = e.wiring) : e'.Wired := by
  simp only [wiring, Prod.mk.injEq] at hsame
  obtain ⟨hcontent, hsource, hfactory, hstarted, hstall, htimer, hrevision, hattempts, hrunning,
    hdelays, hattempt⟩ := hsame
  exact h.frame (fun _ hc => hcontent ▸ hc) hsource hfactory hstarted (fun hset => hstall ▸ hset)
    (fun _ ht => htimer ▸ ht) hrevision hattempts hrunning (by rw [hdelays, hattempt, h.delays])

/-- A command that ends every reconnect: its timers are gone and the attempts in flight
are out of date, with their promises rejected. -/
theorem Wired.superseded (h : e.Wired) (message : String)
    (hlibrary : e'.hlsFactory = none → ∀ source, e'.content = some source →
      e'.source = some source ∧ source.isHls = false)
    (hstarted : e'.hasStartedLivePlayback = true → ∀ source, e'.source = some source →
      source.isHls = true → e'.hlsFactory ≠ none)
    (hstall : e'.stallTimer = false) (htimer : e'.reconnectTimer = none)
    (hrevision : e'.sourceRevision = e.sourceRevision + 1)
    (hattempts : e'.attempts = (e.rejectStarting message).attempts)
    (hrunning : e'.isReconnectAttemptRunning = e.isReconnectAttemptRunning)
    (hdelays : e'.delays = (List.range e'.reconnectAttempt).map reconnectDelay) : e'.Wired where
  library := hlibrary
  started := hstarted
  stall hset := by
    rw [hstall] at hset
    cases hset
  timer timer hset := by
    rw [htimer] at hset
    cases hset
  attempts := by
    rw [hattempts, hrevision]
    intro attempt hmem
    obtain ⟨hready, hle, -⟩ := (h.rejectStarting message).attempts attempt hmem
    have hle : attempt.sourceRevision ≤ e.sourceRevision := hle
    exact ⟨hready, by omega, fun heq => by omega⟩
  stale := by
    rw [hattempts]
    intro attempt hmem _
    obtain ⟨old, hold, rfl⟩ := List.mem_map.mp hmem
    exact Stage.runnable_reject message (h.attempts old hold).1
  alone := by
    rw [hattempts]
    exact (h.rejectStarting message).alone
  running := by
    rw [hattempts, hrunning]
    exact (h.rejectStarting message).running
  delays := hdelays

/-! ### Opening a source -/

/-- What the end of `setMediaSource` writes. -/
theorem attachHls_cases (e : Engine) (source : PlaybackSource) :
    ∃ hls src, e.attachHls source = { e with hls, media := { e.media with src } } ∧
      ((hls <|> src) = some source ∨ (hls <|> src) = e.content) ∧
      (e.hls = none → (hls <|> src) = some source) := by
  rw [attachHls]
  by_cases hsupported : e.hlsFactory = some true
  · rw [if_pos hsupported]
    exact ⟨some source, e.media.src, rfl, Or.inl rfl, fun _ => rfl⟩
  · rw [if_neg hsupported]
    refine ⟨e.hls, some source, rfl, ?_, fun hnone => by rw [hnone]; rfl⟩
    cases hhls : e.hls with
    | none => exact Or.inl rfl
    | some shown =>
      right
      rw [content, hhls]
      rfl

/-- Only the missing library keeps a source from being opened at once. -/
theorem setMediaSource_cases (e : Engine) (source : PlaybackSource) :
    ∃ hls src stage, e.setMediaSource source =
        ({ e.unload with hls, media := { src, paused := true } }, stage) ∧
      (stage = .opened ∧ (hls <|> src) = some source ∧
          (source.isHls = true → e.hlsFactory ≠ none) ∨
        stage = .loading ∧ (hls <|> src) = none ∧ source.isHls = true ∧ e.hlsFactory = none) := by
  rw [setMediaSource]
  by_cases hhls : source.isHls = true
  · rw [if_pos hhls]
    cases hfactory : e.hlsFactory with
    | none =>
      rw [show e.unload.hlsFactory = none from hfactory]
      exact ⟨none, none, .loading, rfl, Or.inr ⟨rfl, rfl, hhls, rfl⟩⟩
    | some supported =>
      rw [show e.unload.hlsFactory = some supported from hfactory]
      obtain ⟨hls, src, heq, -, hsource⟩ := e.unload.attachHls_cases source
      refine ⟨hls, src, .opened, ?_, Or.inl ⟨rfl, hsource rfl, fun _ => Option.some_ne_none _⟩⟩
      dsimp only
      rw [heq]
      rfl
  · rw [if_neg hhls]
    exact ⟨none, some source, .opened, rfl, Or.inl ⟨rfl, rfl, fun h => absurd h hhls⟩⟩

/-! ### Timers -/

/-- Where nothing is scheduled and no attempt runs, a live source gets its timer. -/
theorem scheduleLiveReconnect_cases (e : Engine) :
    e.scheduleLiveReconnect = e ∧ (e.reconnectTimer ≠ none ∨
      e.isReconnectAttemptRunning = true ∨ isLiveSource e.source = false) ∨
    ∃ source, e.source = some source ∧ isLiveSource e.source = true ∧
      e.reconnectTimer = none ∧ e.isReconnectAttemptRunning = false ∧
      e.scheduleLiveReconnect = { e with
        stabilityTimer := false
        reconnectTimer := some {
          source
          sourceRevision := e.sourceRevision
          delay := reconnectDelay e.reconnectAttempt
          commands := e.commands }
        reconnectAttempt := e.reconnectAttempt + 1
        status := .reconnecting
        error := none
        delays := e.delays ++ [reconnectDelay e.reconnectAttempt] } := by
  rw [scheduleLiveReconnect]
  cases hsource : e.source with
  | none => exact Or.inl ⟨rfl, Or.inr (Or.inr rfl)⟩
  | some source =>
    dsimp only
    split
    · rename_i hbusy
      left
      refine ⟨rfl, ?_⟩
      rw [Bool.or_eq_true, Bool.or_eq_true, Option.isSome_iff_ne_none, Bool.not_eq_true'] at hbusy
      rcases hbusy with (htimer | hrunning) | hlive
      · exact Or.inl htimer
      · exact Or.inr (Or.inl hrunning)
      · exact Or.inr (Or.inr hlive)
    · rename_i hfree
      right
      simp only [Bool.or_eq_true, not_or, Bool.not_eq_true, Option.isSome_eq_false_iff,
        Option.isNone_iff_eq_none, Bool.not_eq_true', Bool.not_eq_false] at hfree
      exact ⟨source, rfl, hfree.2, hfree.1.1, hfree.1.2, rfl⟩

theorem Wired.scheduleLiveReconnect (h : e.Wired) (hstarted : e.hasStartedLivePlayback = true) :
    e.scheduleLiveReconnect.Wired := by
  rcases e.scheduleLiveReconnect_cases with ⟨heq, -⟩ | ⟨source, hsource, hlive, -, hidle, heq⟩
  · rw [heq]
    exact h
  · have hnone : e.attempts = [] := by
      by_contra hsome
      rw [h.running.mpr hsome] at hidle
      cases hidle
    rw [heq]
    exact {
      library := h.library
      started := h.started
      stall := h.stall
      timer := by
        rintro timer htimer
        cases htimer
        exact ⟨rfl, ⟨hsource, hstarted, hlive⟩, hnone⟩
      attempts := h.attempts
      stale := h.stale
      alone := h.alone
      running := h.running
      delays := by
        rw [List.range_succ, List.map_append, ← h.delays]
        rfl }

/-- A reconnect that is still what the state shows opens its source at once. -/
theorem Wired.reconnectLiveSource_cases (h : e.Wired) {timer : ReconnectTimer}
    (htimer : e.reconnectTimer = some timer) :
    e.status ≠ .reconnecting ∧ e.reconnectLiveSource timer = { e with reconnectTimer := none } ∨
    e.status = .reconnecting ∧ ∃ hls src, (hls <|> src) = some timer.source ∧
      e.reconnectLiveSource timer = { e.unload with
        hls
        media := { src, paused := true }
        reconnectTimer := none
        isReconnectAttemptRunning := true
        attempts := [{
          source := timer.source
          sourceRevision := timer.sourceRevision
          commands := timer.commands
          stage := .opened }] } := by
  obtain ⟨hrevision, ⟨hsource, hstarted, -⟩, hnone⟩ := h.timer timer htimer
  by_cases hstatus : e.status = .reconnecting
  · right
    refine ⟨hstatus, ?_⟩
    have hcurrent : Engine.isCurrent { e with reconnectTimer := none } timer.source
        timer.sourceRevision = true := by
      rw [isCurrent, hrevision, hsource, hstatus]
      simp
    rw [reconnectLiveSource, if_pos hcurrent]
    obtain ⟨hls, src, stage, heq, hopened | hloading⟩ := setMediaSource_cases
      { e with reconnectTimer := none, isReconnectAttemptRunning := true } timer.source
    · obtain ⟨rfl, hopens, -⟩ := hopened
      refine ⟨hls, src, hopens, ?_⟩
      have hempty : e.unload.attempts = [] := by
        rw [show e.unload.attempts = e.attempts.map _ from rfl, hnone, List.map_nil]
      rw [heq, ← List.nil_append [_], ← hempty]
      rfl
    · obtain ⟨-, -, hhls, hfactory⟩ := hloading
      exact absurd hfactory (h.started hstarted timer.source hsource hhls)
  · left
    refine ⟨hstatus, ?_⟩
    rw [reconnectLiveSource, if_neg]
    intro hcurrent
    rw [isCurrent, Bool.and_eq_true, Bool.and_eq_true] at hcurrent
    exact hstatus (eq_of_beq hcurrent.2)

theorem Wired.reconnectLiveSource (h : e.Wired) {timer : ReconnectTimer}
    (htimer : e.reconnectTimer = some timer) : (e.reconnectLiveSource timer).Wired := by
  obtain ⟨hrevision, hreconnects, hnone⟩ := h.timer timer htimer
  rcases h.reconnectLiveSource_cases htimer with ⟨-, heq⟩ | ⟨-, hls, src, hopens, heq⟩
  · rw [heq]
    exact h.frame (fun _ hc => hc) rfl rfl rfl id (fun _ h => by cases h) rfl rfl rfl h.delays
  · rw [heq]
    exact {
      library := by
        rintro hfactory shown hshown
        cases hopens.symm.trans hshown
        refine ⟨hreconnects.1, ?_⟩
        by_contra hhls
        exact h.started hreconnects.2.1 _ hreconnects.1 (Bool.not_eq_false _ |>.mp hhls) hfactory
      started := h.started
      stall := h.stall
      timer := fun _ h => by cases h
      attempts := by
        rintro attempt hmem
        obtain rfl := List.mem_singleton.mp hmem
        exact ⟨rfl, Nat.le_of_eq hrevision, fun _ => hreconnects⟩
      stale := by
        rintro attempt hmem _
        obtain rfl := List.mem_singleton.mp hmem
        rfl
      alone := Nat.le_refl 1
      running := iff_of_true rfl (List.cons_ne_nil _ _)
      delays := h.delays }

/-! ### Microtasks -/

/-- What the rest of `play` does, by where the call stands. -/
inductive Continues (e : Engine) (i : ℕ) (call : PlayCall) : Engine → Prop
  | attach (supported : Bool) (source : PlaybackSource) :
      call.stage = .loaded (.ok supported) → call.source = some source →
      Continues e i call
        (let e := Engine.attachHls { e with hlsFactory := some supported } source
        { e with plays := e.plays.set i { call with stage := .opened } })
  | fail (message : String) : call.stage = .loaded (.error message) →
      Continues e i call
        { e with plays := e.plays.set i { call with stage := .settled (.error message) } }
  | start : call.stage = .opened →
      Continues e i call
        { e.startMedia with plays := e.plays.set i { call with stage := .starting } }
  | succeed : call.stage = .settled (.ok ()) →
      Continues e i call
        { e with plays := e.plays.eraseIdx i, status := .playing, error := none }
  | throw (message : String) : call.stage = .settled (.error message) →
      Continues e i call
        { e with
          plays := e.plays.eraseIdx i
          status := .error
          error := some { code := "playback-failed", message } }

theorem continuePlay_cases (h : e.continuePlay i = some e') :
    ∃ call, e.plays[i]? = some call ∧ e.Continues i call e' := by
  rw [continuePlay, Option.bind_eq_some_iff] at h
  obtain ⟨call, hcall, h⟩ := h
  refine ⟨call, hcall, ?_⟩
  split at h
  next supported source hstage hsource =>
    cases h
    exact .attach supported source hstage hsource
  next message hstage =>
    cases h
    exact .fail message hstage
  next hstage =>
    cases h
    exact .start hstage
  next hstage =>
    cases h
    exact .succeed hstage
  next message hstage =>
    cases h
    exact .throw message hstage
  next => cases h

theorem Wired.continuePlay (h : e.Wired) (hstep : e.continuePlay i = some e') :
    e'.Wired := by
  obtain ⟨call, -, hcontinues⟩ := continuePlay_cases hstep
  cases hcontinues with
  | attach supported source =>
    obtain ⟨hls, src, heq, -⟩ :=
      Engine.attachHls_cases { e with hlsFactory := some supported } source
    rw [heq]
    exact {
      library := fun hnone => by cases hnone
      started := fun _ _ _ _ => Option.some_ne_none _
      stall := h.stall
      timer := h.timer
      attempts := h.attempts
      stale := h.stale
      alone := h.alone
      running := h.running
      delays := h.delays }
  | fail | start | succeed | throw =>
    exact h.keep rfl

/-- What the rest of a reconnect does once its source is open: it plays, it ends, or it
fails and schedules the next. -/
inductive Retries (e : Engine) (i : ℕ) (attempt : Attempt) : Engine → Prop
  | start : attempt.stage = .opened →
      e.isCurrent attempt.source attempt.sourceRevision = true →
      Retries e i attempt
        { e.startMedia with attempts := e.attempts.set i { attempt with stage := .starting } }
  | finish : (e.isCurrent attempt.source attempt.sourceRevision = false ∨
        attempt.stage = .settled (.ok ())) →
      Retries e i attempt
        { e with attempts := e.attempts.eraseIdx i, isReconnectAttemptRunning := false }
  | retry (message : String) : attempt.stage = .settled (.error message) →
      e.isCurrent attempt.source attempt.sourceRevision = true →
      Retries e i attempt
        (scheduleLiveReconnect
          { e with attempts := e.attempts.eraseIdx i, isReconnectAttemptRunning := false })

theorem Wired.continueAttempt_cases (h : e.Wired) (hstep : e.continueAttempt i = some e') :
    ∃ attempt, e.attempts[i]? = some attempt ∧ e.Retries i attempt e' := by
  rw [Engine.continueAttempt, Option.bind_eq_some_iff] at hstep
  obtain ⟨attempt, hattempt, hstep⟩ := hstep
  refine ⟨attempt, hattempt, ?_⟩
  have hready := (h.attempts attempt (List.mem_of_getElem? hattempt)).1
  cases hstage : attempt.stage with
  | loading =>
    rw [hstage] at hready
    cases hready
  | loaded library =>
    rw [hstage] at hready
    cases hready
  | opened =>
    rw [hstage] at hstep
    dsimp only at hstep
    by_cases hcurrent : e.isCurrent attempt.source attempt.sourceRevision = true
    · rw [if_pos hcurrent] at hstep
      cases hstep
      exact .start hstage hcurrent
    · rw [if_neg hcurrent] at hstep
      cases hstep
      exact .finish (Or.inl (Bool.eq_false_iff.mpr hcurrent))
  | starting =>
    rw [hstage] at hstep
    cases hstep
  | settled outcome =>
    rw [hstage] at hstep
    cases outcome with
    | ok =>
      cases hstep
      exact .finish (Or.inr hstage)
    | error message =>
      dsimp only at hstep
      by_cases hcurrent : e.isCurrent attempt.source attempt.sourceRevision = true
      · rw [if_pos hcurrent] at hstep
        cases hstep
        exact .retry message hstage hcurrent
      · rw [if_neg hcurrent] at hstep
        cases hstep
        exact .finish (Or.inl (Bool.eq_false_iff.mpr hcurrent))

/-- There is one attempt at a time, so the one in flight is the first. -/
theorem Wired.attempts_eq (h : e.Wired) (hattempt : e.attempts[i]? = some attempt) :
    i = 0 ∧ e.attempts = [attempt] := by
  have halone := h.alone
  cases hattempts : e.attempts with
  | nil =>
    rw [hattempts] at hattempt
    cases hattempt
  | cons first rest =>
    rw [hattempts] at halone hattempt
    rw [List.length_cons] at halone
    obtain rfl := List.eq_nil_of_length_eq_zero (show rest.length = 0 by omega)
    cases i with
    | zero => exact ⟨rfl, by rw [Option.some.inj hattempt]⟩
    | succ i => cases hattempt

theorem Wired.timer_none (h : e.Wired) (hattempts : e.attempts = [attempt]) :
    e.reconnectTimer = none := by
  cases htimer : e.reconnectTimer with
  | none => rfl
  | some timer =>
    have hnone := (h.timer timer htimer).2.2
    rw [hattempts] at hnone
    cases hnone

/-- The attempt in flight ends. -/
theorem Wired.finished (h : e.Wired) (hattempts : e.attempts = [attempt]) :
    Wired { e with attempts := [], isReconnectAttemptRunning := false } where
  library := h.library
  started := h.started
  stall := h.stall
  timer timer htimer := by
    rw [h.timer_none hattempts] at htimer
    cases htimer
  attempts := fun _ hmem => by cases hmem
  stale := fun _ hmem => by cases hmem
  alone := Nat.zero_le 1
  running := iff_of_false Bool.false_ne_true fun hne => hne rfl
  delays := h.delays

/-- The attempt in flight goes on to another stage. -/
theorem Wired.staged {stage : Stage} (h : e.Wired) (hattempts : e.attempts = [attempt])
    (hready : stage.ready = true)
    (hrunnable : attempt.sourceRevision ≠ e.sourceRevision → stage.runnable = true) :
    Wired { e with attempts := [{ attempt with stage }] } where
  library := h.library
  started := h.started
  stall := h.stall
  timer timer htimer := by
    rw [h.timer_none hattempts] at htimer
    cases htimer
  attempts := by
    rintro moved hmem
    obtain rfl := List.mem_singleton.mp hmem
    exact ⟨hready, (h.attempts attempt (by rw [hattempts]; exact List.mem_cons_self)).2⟩
  stale := by
    rintro moved hmem hne
    obtain rfl := List.mem_singleton.mp hmem
    exact hrunnable hne
  alone := Nat.le_refl 1
  running := by
    have hrunning := h.running
    rw [hattempts] at hrunning
    exact ⟨fun _ => List.cons_ne_nil _ _, fun _ => hrunning.mpr (List.cons_ne_nil _ _)⟩
  delays := h.delays

theorem current_revision {source : PlaybackSource} {sourceRevision : ℕ}
    (h : e.isCurrent source sourceRevision = true) :
    sourceRevision = e.sourceRevision ∧ e.source = some source ∧ e.status = .reconnecting := by
  rw [isCurrent, Bool.and_eq_true, Bool.and_eq_true] at h
  exact ⟨(eq_of_beq h.1.1).symm, eq_of_beq h.1.2, eq_of_beq h.2⟩

theorem Wired.continueAttempt (h : e.Wired) (hstep : e.continueAttempt i = some e') :
    e'.Wired := by
  obtain ⟨attempt, hattempt, hretries⟩ := h.continueAttempt_cases hstep
  obtain ⟨rfl, hattempts⟩ := h.attempts_eq hattempt
  have hfinished := h.finished hattempts
  have herase : e.attempts.eraseIdx 0 = [] := by rw [hattempts]; rfl
  cases hretries with
  | start hstage hcurrent =>
    have hset : e.attempts.set 0 { attempt with stage := .starting } =
        [{ attempt with stage := .starting }] := by rw [hattempts]; rfl
    rw [hset]
    have hstarted : e.startMedia.Wired := h.keep rfl
    exact hstarted.staged hattempts rfl fun hne => absurd (current_revision hcurrent).1 hne
  | finish =>
    rw [herase]
    exact hfinished
  | retry message hstage hcurrent =>
    rw [herase]
    have hreconnects := (h.attempts attempt (List.mem_of_getElem? hattempt)).2.2
      (current_revision hcurrent).1
    exact hfinished.scheduleLiveReconnect hreconnects.2.1

/-! ### Commands -/

/-- The call of `play` with a source, up to its first `await`. -/
theorem play_some_cases (e : Engine) (source : PlaybackSource) :
    ∃ hls src stage, e.play (some source) = { e.cancelLiveReconnect.unload with
        sourceRevision := e.sourceRevision + 1
        hasStartedLivePlayback := false
        source := some source
        status := .paused
        error := none
        choices := e.choices + 1
        hls
        media := { src, paused := true }
        plays := e.unload.plays ++ [{ source := some source, choice := e.choices + 1, stage }] } ∧
      (stage = .opened ∧ (hls <|> src) = some source ∧
          (source.isHls = true → e.hlsFactory ≠ none) ∨
        stage = .loading ∧ (hls <|> src) = none ∧ source.isHls = true ∧ e.hlsFactory = none) := by
  obtain ⟨hls, src, stage, heq, hopens⟩ := setMediaSource_cases
    { e.cancelLiveReconnect with
      sourceRevision := e.sourceRevision + 1
      hasStartedLivePlayback := false
      source := some source
      status := .paused
      error := none
      choices := e.choices + 1 } source
  refine ⟨hls, src, stage, ?_, hopens⟩
  have hplay : e.play (some source) =
      (let r := setMediaSource
        { e.cancelLiveReconnect with
          sourceRevision := e.sourceRevision + 1
          hasStartedLivePlayback := false
          source := some source
          status := .paused
          error := none
          choices := e.choices + 1 } source
      { r.1 with
        plays := r.1.plays ++
          [{ source := some source, choice := r.1.choices, stage := r.2 }] }) := rfl
  rw [hplay, heq]
  rfl

theorem Wired.play (h : e.Wired) (source : Option PlaybackSource) : (e.play source).Wired := by
  cases source with
  | none =>
    rw [Engine.play]
    dsimp only
    split
    · exact h
    · exact h.keep rfl
  | some source =>
    obtain ⟨hls, src, stage, heq, hopens⟩ := e.play_some_cases source
    rw [heq]
    refine h.superseded _ ?_ (fun hstarted => by cases hstarted) rfl rfl rfl rfl rfl rfl
    intro hfactory shown hshown
    have hshown : (hls <|> src) = some shown := hshown
    rcases hopens with ⟨-, hsource, hhls⟩ | ⟨-, hnone, -⟩
    · cases hsource.symm.trans hshown
      exact ⟨rfl, Bool.eq_false_iff.mpr fun h => hhls h hfactory⟩
    · rw [hnone] at hshown
      cases hshown

theorem pause_eq (e : Engine) : ∃ status, e.pause =
    { e.cancelLiveReconnect.pauseMedia with sourceRevision := e.sourceRevision + 1, status } := by
  rw [Engine.pause]
  dsimp only
  split
  · exact ⟨_, rfl⟩
  · exact ⟨e.status, rfl⟩

theorem Wired.pause (h : e.Wired) : e.pause.Wired := by
  obtain ⟨status, heq⟩ := e.pause_eq
  rw [heq]
  exact h.superseded _ h.library h.started rfl rfl rfl rfl rfl rfl

/-- Rejecting what is pending twice is rejecting it once. -/
theorem unload_pauseMedia_attempts (e : Engine) :
    e.pauseMedia.unload.attempts = e.pauseMedia.attempts := by
  have hreject : ∀ (stage : Stage) (first second : String),
      (stage.reject first).reject second = stage.reject first := by
    intro stage first second
    cases stage <;> rfl
  change (e.attempts.map _).map _ = e.attempts.map _
  rw [List.map_map]
  apply List.map_congr_left
  intro attempt _
  simp only [Function.comp_apply, hreject]

theorem Wired.stop (h : e.Wired) : e.stop.Wired := by
  refine h.superseded "The play() request was interrupted by a call to pause()"
    (fun _ _ hshown => by cases hshown) (fun _ _ hsource => by cases hsource)
    rfl rfl rfl ?_ rfl rfl
  exact unload_pauseMedia_attempts
    { e.cancelLiveReconnect with sourceRevision := e.sourceRevision + 1 }

/-! ### Media events -/

theorem Wired.handlePlaying (h : e.Wired) (hcontent : e.content.isSome = true) :
    e.handlePlaying.Wired := by
  have hset : Wired { e with
      stallTimer := false
      hasStartedLivePlayback := isLiveSource e.source || e.hasStartedLivePlayback
      status := .playing } := {
    library := h.library
    started := by
      intro hstarted source hsource hhls hfactory
      obtain ⟨shown, hshown⟩ := Option.isSome_iff_exists.mp hcontent
      obtain ⟨hshows, hdirect⟩ := h.library hfactory shown hshown
      cases hshows.symm.trans hsource
      rw [hdirect] at hhls
      cases hhls
    stall := fun hset => by cases hset
    timer := by
      intro timer htimer
      obtain ⟨hrevision, ⟨hsource, hstarted, hlive⟩, hnone⟩ := h.timer timer htimer
      exact ⟨hrevision, ⟨hsource, by rw [hstarted, Bool.or_true], hlive⟩, hnone⟩
    attempts := by
      intro attempt hmem
      obtain ⟨hready, hle, hreconnects⟩ := h.attempts attempt hmem
      refine ⟨hready, hle, fun heq => ⟨(hreconnects heq).1, ?_, (hreconnects heq).2.2⟩⟩
      rw [(hreconnects heq).2.1, Bool.or_true]
    stale := h.stale
    alone := h.alone
    running := h.running
    delays := h.delays }
  rw [Engine.handlePlaying]
  dsimp only
  split
  · exact hset.keep rfl
  · exact hset

theorem Wired.handleEnded (h : e.Wired) : e.handleEnded.Wired := by
  rw [Engine.handleEnded]
  split
  · rename_i hlive
    exact h.scheduleLiveReconnect (Bool.and_eq_true_iff.mp hlive).2
  · split
    · exact h.keep rfl
    · split
      · refine Wired.play ?_ none
        exact h.keep rfl
      · exact h.keep rfl

theorem Wired.handleMediaError (h : e.Wired) : e.handleMediaError.Wired := by
  rw [Engine.handleMediaError]
  split
  · exact h
  · split
    · rename_i hlive
      exact h.scheduleLiveReconnect (Bool.and_eq_true_iff.mp hlive).2
    · exact h.keep rfl

theorem Wired.handleStalled (h : e.Wired) : e.handleStalled.Wired := by
  rw [Engine.handleStalled]
  split
  · exact h
  · rename_i hfree
    simp only [Bool.or_eq_true, Bool.not_eq_true', not_or, Bool.not_eq_false] at hfree
    exact {
      library := h.library
      started := h.started
      stall := fun _ => ⟨hfree.1.2, hfree.2⟩
      timer := h.timer
      attempts := h.attempts
      stale := h.stale
      alone := h.alone
      running := h.running
      delays := h.delays }

/-! ### Runs -/

theorem task_cases {possible : Bool} {handled e' : Engine}
    (h : e.task possible handled = some e') :
    e.quiet = true ∧ possible = true ∧ e' = handled := by
  rw [task] at h
  split at h
  · rename_i hpossible
    rw [Bool.and_eq_true] at hpossible
    exact ⟨hpossible.1, hpossible.2, (Option.some.inj h).symm⟩
  · cases h

/-- The attempt in flight is the one an event names. -/
theorem Wired.set_attempt (h : e.Wired) (stage : Stage) (hattempt : e.attempts[i]? = some attempt)
    (hready : stage.ready = true) (hrunnable : stage.runnable = true) :
    Wired { e with attempts := e.attempts.set i { attempt with stage } } := by
  obtain ⟨rfl, hattempts⟩ := h.attempts_eq hattempt
  have hset : e.attempts.set 0 { attempt with stage } = [{ attempt with stage }] := by
    rw [hattempts]
    rfl
  rw [hset]
  exact h.staged hattempts hready fun _ => hrunnable

theorem Wired.perform {event : Event} (h : e.Wired) (hstep : e.Step event e') :
    e'.Wired := by
  have hcommanded : ∀ silenced, (e.commanded silenced).Wired := fun _ => h.keep rfl
  have hinterrupt : e.interrupt.Wired := h.keep rfl
  rw [Step] at hstep
  cases event with
  | play source =>
    rw [Engine.perform] at hstep
    split at hstep
    · cases hstep
      exact h
    · cases hstep
      exact (hcommanded false).play source
  | pause =>
    cases hstep
    exact (hcommanded true).pause
  | stop =>
    cases hstep
    exact (hcommanded true).stop
  | setStopAfterCurrent enabled =>
    cases hstep
    exact h.keep rfl
  | cycleRepeatMode =>
    cases hstep
    exact h.keep rfl
  | playLoads i library =>
    obtain ⟨call, -, hstep⟩ := Option.bind_eq_some_iff.mp hstep
    split at hstep
    · cases hstep
      exact h.keep rfl
    · cases hstep
  | attemptLoads i library =>
    -- no attempt waits for the library
    obtain ⟨attempt, hattempt, hstep⟩ := Option.bind_eq_some_iff.mp hstep
    have hready := (h.attempts attempt (List.mem_of_getElem? hattempt)).1
    split at hstep
    · rename_i hstage
      rw [hstage] at hready
      cases hready
    · cases hstep
  | playSettles i outcome =>
    obtain ⟨call, -, hstep⟩ := Option.bind_eq_some_iff.mp hstep
    split at hstep
    · cases hstep
      exact h.keep rfl
    · cases hstep
  | attemptRejects i message =>
    obtain ⟨attempt, hattempt, hstep⟩ := Option.bind_eq_some_iff.mp hstep
    split at hstep
    · cases hstep
      exact h.set_attempt _ hattempt rfl rfl
    · cases hstep
  | continuePlay i => exact h.continuePlay hstep
  | continueAttempt i => exact h.continueAttempt hstep
  | mediaPlay =>
    obtain ⟨-, -, rfl⟩ := task_cases hstep
    rw [handlePlay]
    split
    · exact h
    · exact h.keep rfl
  | mediaPlaying =>
    obtain ⟨-, hcontent, rfl⟩ := task_cases hstep
    have hplaying := (h.handlePlaying hcontent).resolveStarting
    exact hplaying.keep rfl
  | mediaPause =>
    obtain ⟨-, -, rfl⟩ := task_cases hstep
    rw [handlePause]
    split
    · exact h
    · exact h.keep rfl
  | mediaEnded =>
    obtain ⟨-, -, rfl⟩ := task_cases hstep
    have hended := hinterrupt.rejectStarting "The operation was aborted"
    refine Wired.handleEnded ?_
    exact hended.keep rfl
  | mediaError =>
    obtain ⟨-, -, rfl⟩ := task_cases hstep
    exact hinterrupt.handleMediaError.rejectStarting _
  | mediaBreaks | fatalHlsError =>
    obtain ⟨-, -, rfl⟩ := task_cases hstep
    refine Wired.handleMediaError ?_
    exact hinterrupt.keep rfl
  | mediaStalled =>
    obtain ⟨-, -, rfl⟩ := task_cases hstep
    exact h.handleStalled
  | mediaTimeUpdate =>
    obtain ⟨-, -, rfl⟩ := task_cases hstep
    rw [handleTimeUpdate]
    split
    · exact h.frame (fun _ hc => hc) rfl rfl rfl (fun hset => by cases hset) (fun _ ht => ht)
        rfl rfl rfl h.delays
    · exact h
  | reconnectTimer =>
    obtain ⟨timer, htimer, hstep⟩ := Option.bind_eq_some_iff.mp hstep
    obtain ⟨-, -, rfl⟩ := task_cases hstep
    exact h.reconnectLiveSource htimer
  | stallTimer =>
    obtain ⟨-, hset, rfl⟩ := task_cases hstep
    refine Wired.scheduleLiveReconnect ?_ (h.stall hset).2
    exact hinterrupt.frame (fun _ hc => hc) rfl rfl rfl (fun hset => by cases hset)
      (fun _ ht => ht) rfl rfl rfl h.delays
  | stabilityTimer =>
    obtain ⟨-, -, rfl⟩ := task_cases hstep
    exact h.frame (fun _ hc => hc) rfl rfl rfl id (fun _ ht => ht) rfl rfl rfl rfl

end Engine

end Harmony.BrowserEngine
