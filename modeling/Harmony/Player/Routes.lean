/-
# What leaves the output alone

Playing, the Queue and the processing do not touch where the sound goes: the output
mode and its device, what mpv is set to, the device that the catalog watches and whether
the system's rate is followed.
-/

import Harmony.Player.Sequential
import Harmony.Player.Rules

namespace Harmony.Player

open Thread Crash

/-! ### mpv's side -/

/-- mpv puts out where it did. -/
structure SameOutput (p q : MpvProcess) : Prop where
  isRunning : q.isRunning = p.isRunning
  audioDevice : q.audioDevice = p.audioDevice
  isExclusive : q.isExclusive = p.isExclusive
  isAudioEnabled : q.isAudioEnabled = p.isAudioEnabled

instance : IsPreorder MpvProcess SameOutput where
  refl _ := ⟨rfl, rfl, rfl, rfl⟩
  trans _ _ _ h h' := ⟨h'.isRunning.trans h.isRunning, h'.audioDevice.trans h.audioDevice,
    h'.isExclusive.trans h.isExclusive, h'.isAudioEnabled.trans h.isAudioEnabled⟩

namespace ProcessCall

theorem keeps_setPaused {isPaused : Bool} : Keeps SameOutput (setPaused isPaused) :=
  .command fun _ => ⟨rfl, rfl, rfl, rfl⟩

theorem keeps_setVolume {volume : ℚ} : Keeps SameOutput (setVolume volume) :=
  .command fun _ => ⟨rfl, rfl, rfl, rfl⟩

theorem keeps_setSpeed {speed : ℚ} : Keeps SameOutput (setSpeed speed) :=
  .command fun _ => ⟨rfl, rfl, rfl, rfl⟩

theorem keeps_setGapless {isGapless : Bool} : Keeps SameOutput (setGapless isGapless) :=
  .command fun _ => ⟨rfl, rfl, rfl, rfl⟩

theorem keeps_seek : Keeps SameOutput seek := .command fun _ => ⟨rfl, rfl, rfl, rfl⟩

theorem keeps_observeOutputFormat : Keeps SameOutput observeOutputFormat :=
  .command fun _ => ⟨rfl, rfl, rfl, rfl⟩

theorem keeps_clearAppended : Keeps SameOutput clearAppended :=
  .remember fun _ => ⟨rfl, rfl, rfl, rfl⟩

variable {url : String}

theorem keeps_loadAt {seconds : ℚ} : Keeps SameOutput (loadAt url seconds) :=
  .bind keeps_clearAppended fun _ => .command fun _ => ⟨rfl, rfl, rfl, rfl⟩

theorem keeps_loadWithEventBoundary {loadRevision : ℕ} :
    Keeps SameOutput (loadWithEventBoundary url loadRevision) :=
  .bind keeps_loadAt fun _ => .remember fun _ => ⟨rfl, rfl, rfl, rfl⟩

theorem keeps_stop : Keeps SameOutput stop :=
  .bind keeps_clearAppended fun _ => .command fun _ => ⟨rfl, rfl, rfl, rfl⟩

theorem keeps_append : Keeps SameOutput (append url) :=
  .bind (.command fun _ => ⟨rfl, rfl, rfl, rfl⟩) fun _ => .remember fun _ => ⟨rfl, rfl, rfl, rfl⟩

theorem keeps_appendOnce : Keeps SameOutput (appendOnce url) :=
  .bind (fun _ p => refl p) fun _ => .ite .pure keeps_append

theorem keeps_takeAppended : Keeps SameOutput takeAppended :=
  fun _ _ => ⟨rfl, rfl, rfl, rfl⟩

theorem keeps_applyProcessing {configuration : ProcessingConfiguration} :
    Keeps SameOutput (applyProcessing configuration) :=
  .bind (.command fun _ => ⟨rfl, rfl, rfl, rfl⟩) fun _ =>
    .bind (.command fun _ => ⟨rfl, rfl, rfl, rfl⟩) fun _ =>
      .bind (.command fun _ => ⟨rfl, rfl, rfl, rfl⟩) fun _ _ p => refl p

theorem keeps_applySnapshotToProcess {snapshot : PlaybackSessionSnapshot} {shouldResume : Bool}
    {playbackRate : ℚ} :
    Keeps SameOutput (applySnapshotToProcess snapshot shouldResume playbackRate) := by
  refine .bind keeps_setPaused fun _ => .bind keeps_setVolume fun _ =>
    .bind keeps_setSpeed fun _ => ?_
  cases snapshot.source with
  | none => exact .pure
  | some source =>
    exact .bind .ofExcept fun _ => .bind keeps_loadAt fun _ => .ite keeps_setPaused .pure

end ProcessCall

/-! ### The player's side -/

/-- The output is where it was. -/
structure RouteKept (p q : PlaybackController) : Prop where
  outputMode : q.state.outputMode = p.state.outputMode
  selected : q.state.selectedOutputDevice = p.state.selectedOutputDevice
  process : SameOutput p.process q.process
  watched : q.outputDevices.selected = p.outputDevices.selected
  isEnabled : q.adaptiveSystemRate.isEnabled = p.adaptiveSystemRate.isEnabled

instance : IsPreorder PlaybackController RouteKept where
  refl p := ⟨rfl, rfl, refl p.process, rfl, rfl⟩
  trans _ _ _ h h' := ⟨h'.outputMode.trans h.outputMode, h'.selected.trans h.selected,
    trans_of SameOutput h.process h'.process, h'.watched.trans h.watched,
    h'.isEnabled.trans h.isEnabled⟩

/-- The output is where it was, and the rate is what it was. -/
structure Spared (p q : PlaybackController) : Prop where
  outputMode : q.state.outputMode = p.state.outputMode
  selected : q.state.selectedOutputDevice = p.state.selectedOutputDevice
  process : SameOutput p.process q.process
  watched : q.outputDevices.selected = p.outputDevices.selected
  adaptiveSystemRate : q.adaptiveSystemRate = p.adaptiveSystemRate
  forcedRate : q.forcedRate = p.forcedRate
  isMarked : q.isMarked = p.isMarked

/-- A relation that playing stays in: it is not about what playing leaves alone, and the
programs that follow a source with the rate stay in it. -/
structure LeavesOutput (allowed : Fates → Prop)
    (R : PlaybackController → PlaybackController → Prop) : Prop where
  spared : ∀ p q, Spared p q → R p q
  sourceRate : ∀ source, Stays allowed R (Player.applyAdaptiveSourceRate source)
  eventRate : ∀ source, Stays allowed R (Player.applyAdaptiveRateForEvent source)
  resetForRecovery : ∀ site, Stays allowed R (AdaptiveSystemRate.resetForRecovery site)

namespace AdaptiveSystemRate

variable {allowed : Fates → Prop} {site : Site}

theorem routeKept_setForcedRateHz {rateHz : Option ℕ} :
    Moves allowed RouteKept (setForcedRateHz site rateHz) :=
  moves_outside fun p => ⟨rfl, rfl, refl p.process, rfl, rfl⟩

theorem routeKept_remember {f : AdaptiveSystemRateState → AdaptiveSystemRateState}
    (h : ∀ state, (f state).isEnabled = state.isEnabled) :
    Moves allowed RouteKept (remember f) :=
  .step fun p => ⟨rfl, rfl, refl p.process, rfl, h p.adaptiveSystemRate⟩

theorem routeKept_applySourceSampleRate {rateHz : Option ℕ} :
    Moves allowed RouteKept (applySourceSampleRate site rateHz) :=
  .bind moves_reading fun _ => .ite .pure <| .bind routeKept_setForcedRateHz fun _ =>
    routeKept_remember fun _ => rfl

theorem routeKept_resetForRecovery : Moves allowed RouteKept (resetForRecovery site) :=
  .bind moves_reading fun _ => .ite .pure <| .bind routeKept_setForcedRateHz fun _ =>
    routeKept_remember fun _ => rfl

end AdaptiveSystemRate

/-- Playing keeps the route. -/
theorem routeKept {allowed : Fates → Prop} : LeavesOutput allowed RouteKept where
  spared _ _ h := ⟨h.outputMode, h.selected, h.process, h.watched,
    congrArg AdaptiveSystemRateState.isEnabled h.adaptiveSystemRate⟩
  sourceRate _ := Moves.stays <| .bind moves_state fun _ =>
    .ite .pure AdaptiveSystemRate.routeKept_applySourceSampleRate
  eventRate _ := Moves.stays <| .bind moves_state fun _ =>
    .ite .pure AdaptiveSystemRate.routeKept_applySourceSampleRate
  resetForRecovery _ := AdaptiveSystemRate.routeKept_resetForRecovery.stays

variable {source : Source}

theorem updatePlayingState_outputMode {isNewSource : Bool} {state : PlaybackSessionState} :
    (state.updatePlayingState source isNewSource).outputMode = state.outputMode := by
  rw [PlaybackSessionState.updatePlayingState]
  split_ifs <;> rfl

theorem updatePlayingState_selected {isNewSource : Bool} {state : PlaybackSessionState} :
    (state.updatePlayingState source isNewSource).selectedOutputDevice =
      state.selectedOutputDevice := by
  rw [PlaybackSessionState.updatePlayingState]
  split_ifs <;> rfl

/-- The commands that set the output. -/
def Input.setsOutput : Input → Bool
  | enableAdaptiveSystemRate | selectDirectAlsaOutput _ | fallbackToSystemOutput => true
  | _ => false

section Stays

variable {allowed : Fates → Prop} {α : Type}
  {R : PlaybackController → PlaybackController → Prop} [IsPreorder PlaybackController R]

theorem stays_reading {f : PlaybackController → α} : Stays allowed R (reading f) :=
  moves_reading.stays

theorem stays_state : Stays allowed R state := stays_reading

theorem stays_activeFade : Stays allowed R activeFade :=
  .bind stays_reading fun _ => .ite .pure <| .bind stays_state fun _ => .ite .pure .pure

/-! ### Fades -/

section Fades

variable (hvolume : ∀ {site : Site} {volume : ℚ},
  Stays allowed R (withProcess site (.setVolume volume)))

include hvolume

theorem stays_rampVolume {volumes : List ℚ} : Stays allowed R (rampVolume volumes) := by
  induction volumes with
  | nil => exact .pure
  | cons volume rest ih =>
    refine .bind (.attempt hvolume) fun result => ?_
    cases result with
    | error e => exact .pure
    | ok _ => exact ih

theorem stays_fadeOut : Stays allowed R fadeOut := by
  refine .bind stays_activeFade fun fade => ?_
  cases fade with
  | none => exact .pure
  | some _ => exact stays_rampVolume hvolume

theorem stays_fadeIn : Stays allowed R fadeIn := by
  refine .bind stays_activeFade fun fade => ?_
  cases fade with
  | none => exact .pure
  | some _ => exact stays_rampVolume hvolume

theorem stays_restoreVolume : Stays allowed R restoreVolume :=
  .bind stays_reading fun _ => .ite .pure <| .bind stays_state fun _ =>
    .bind (.attempt hvolume) fun _ => .pure

theorem stays_prepareFadeIn {shouldFadeIn : Bool} : Stays allowed R (prepareFadeIn shouldFadeIn) :=
  .ite .pure (.bind (.attempt hvolume) fun _ => .pure)

end Fades

namespace LeavesOutput

variable (h : LeavesOutput allowed R) {site : Site} {action : ProcessCall α}

include h

/-- A step that touches none of it. -/
theorem step {run : PlaybackController → α × PlaybackController}
    (hrun : ∀ p, (run p).2.state = p.state ∧ (run p).2.process = p.process ∧
      (run p).2.outputDevices = p.outputDevices ∧
      (run p).2.adaptiveSystemRate = p.adaptiveSystemRate ∧
      (run p).2.forcedRate = p.forcedRate ∧ (run p).2.isMarked = p.isMarked) :
    Stays allowed R (Thread.step run : Act α) := by
  refine .step fun p => h.spared p _ ?_
  obtain ⟨hstate, hprocess, hdevices, hadaptive, hforced, hmarked⟩ := hrun p
  refine ⟨by rw [hstate], by rw [hstate], ?_, by rw [hdevices], hadaptive, hforced, hmarked⟩
  rw [hprocess]
  exact refl p.process

theorem update {change : PlaybackSessionState → PlaybackSessionState}
    (hmode : ∀ state, (change state).outputMode = state.outputMode)
    (hselected : ∀ state, (change state).selectedOutputDevice = state.selectedOutputDevice) :
    Stays allowed R (Player.update change) :=
  .step fun p =>
    h.spared p _ ⟨hmode p.state, hselected p.state, refl p.process, rfl, rfl, rfl, rfl⟩

theorem withProcess (haction : action.Keeps SameOutput) :
    Stays allowed R (Player.withProcess site action) :=
  Moves.stays <| moves_withProcess fun p fates _ =>
    h.spared _ _ ⟨rfl, rfl, haction (fates site) p.process, rfl, rfl, rfl, rfl⟩

theorem withQueue {change : PlaybackQueueContext → Except String α × PlaybackQueueContext} :
    Stays allowed R (Player.withQueue change) :=
  .bind (h.step fun _ => ⟨rfl, rfl, rfl, rfl, rfl, rfl⟩) fun _ => .ofExcept

theorem changeQueue {change : PlaybackQueueContext → Except String PlaybackQueueContext} :
    Stays allowed R (Player.changeQueue change) :=
  h.withQueue

theorem fail {message : String} : Stays allowed R (Player.fail message : Act α) :=
  .bind (h.update (fun _ => rfl) fun _ => rfl) fun _ => .fail

theorem updateLive {f : ℕ → LiveReconnectState → LiveReconnectState} :
    Stays allowed R (Player.updateLive f) :=
  h.step fun _ => ⟨rfl, rfl, rfl, rfl, rfl, rfl⟩

/-- What an attempt of a call of mpv leads to. -/
theorem attempt {β : Type} {next : Except String α → Act β} (haction : action.Keeps SameOutput)
    (hnext : ∀ result, Stays allowed R (next result)) :
    Stays allowed R ((Player.withProcess site action).attempt >>= next) :=
  .bind (.attempt (h.withProcess haction)) hnext

/-! ### Playing -/

theorem volume {volume : ℚ} :
    Stays allowed R (Player.withProcess site (.setVolume volume)) :=
  h.withProcess ProcessCall.keeps_setVolume

theorem fadeOut : Stays allowed R Player.fadeOut := stays_fadeOut h.volume

theorem fadeIn : Stays allowed R Player.fadeIn := stays_fadeIn h.volume

theorem restoreVolume : Stays allowed R Player.restoreVolume := stays_restoreVolume h.volume

theorem resetAdaptiveAfterFailure : Stays allowed R Player.resetAdaptiveAfterFailure :=
  .bind (.attempt (h.resetForRecovery _)) fun _ => .pure

theorem startPlayback {shouldLoad : Bool} :
    Stays allowed R (Player.startPlayback source shouldLoad) := by
  refine .ite (.bind (h.withProcess ProcessCall.keeps_setPaused) fun _ => .pure) ?_
  refine .bind .ofExcept fun url => ?_
  refine .bind (h.step fun _ => ⟨rfl, rfl, rfl, rfl, rfl, rfl⟩) fun _ => ?_
  exact .bind (h.withProcess (.bind ProcessCall.keeps_loadWithEventBoundary
    fun _ => ProcessCall.keeps_setPaused)) fun _ => .pure

theorem publishPlaying {isNewSource shouldFadeIn : Bool} {loadRevision : Option ℕ} :
    Stays allowed R (Player.publishPlaying source isNewSource shouldFadeIn loadRevision) := by
  refine .bind (h.update (fun _ => updatePlayingState_outputMode)
    fun _ => updatePlayingState_selected) fun _ => .bind ?_ fun _ => ?_
  · cases loadRevision with
    | none => exact .pure
    | some loadRevision => exact h.step fun _ => ⟨rfl, rfl, rfl, rfl, rfl, rfl⟩
  · refine .bind h.changeQueue fun _ => .bind ?_ fun _ => ?_
    · exact h.step fun _ => ⟨rfl, rfl, rfl, rfl, rfl, rfl⟩
    · exact .ite (.bind h.fadeIn fun _ => .pure) .pure

theorem playSource {isNewSource shouldFadeIn : Bool} :
    Stays allowed R (Player.playSource source isNewSource shouldFadeIn) := by
  refine .bind (.attempt h.startPlayback) fun started => ?_
  cases started with
  | error e => exact .bind h.resetAdaptiveAfterFailure fun _ => h.fail
  | ok loadRevision => exact h.publishPlaying

theorem play {source : Option Source} : Stays allowed R (Player.play source) := by
  refine .bind (h.step fun _ => ⟨rfl, rfl, rfl, rfl, rfl, rfl⟩) fun _ => ?_
  refine .bind stays_state fun current => ?_
  cases source.or current.source with
  | none => exact .pure
  | some nextSource =>
    refine .bind stays_reading fun fadeMs => .bind ?_ fun _ => .ite ?_ h.playSource
    · exact stays_prepareFadeIn h.volume
    · refine .bind (.attempt (h.sourceRate _)) fun prepared => ?_
      cases prepared with
      | error e => exact .bind h.resetAdaptiveAfterFailure fun _ => h.fail
      | ok _ => exact h.playSource

/-- A hold of mpv's lock, and what is published once it succeeded. -/
theorem command {next : Except String α → Act PlaybackSessionState}
    (haction : action.Keeps SameOutput) (herror : ∀ e, next (.error e) = failNative)
    (hok : ∀ a, Stays allowed R (next (.ok a))) :
    Stays allowed R ((Player.withProcess site action).attempt >>= next) := by
  refine h.attempt haction fun result => ?_
  cases result with
  | error e => exact (herror e).symm ▸ h.fail
  | ok a => exact hok a

theorem pause : Stays allowed R Player.pause := by
  refine .bind (h.step fun _ => ⟨rfl, rfl, rfl, rfl, rfl, rfl⟩) fun _ =>
    .bind stays_state fun _ => .ite stays_state <| .bind h.fadeOut fun _ =>
      h.attempt ProcessCall.keeps_setPaused fun paused => .bind h.restoreVolume
        fun _ => ?_
  cases paused with
  | error e => exact h.fail
  | ok _ => exact h.update (fun _ => rfl) fun _ => rfl

theorem stop : Stays allowed R Player.stop := by
  refine .bind (h.step fun _ => ⟨rfl, rfl, rfl, rfl, rfl, rfl⟩) fun _ => .bind h.fadeOut
    fun _ => h.attempt ProcessCall.keeps_stop fun stopped => .bind h.restoreVolume
      fun _ => ?_
  cases stopped with
  | error e => exact h.fail
  | ok _ => exact h.update (fun _ => rfl) fun _ => rfl

theorem navigate {direction : QueueDirection} :
    Stays allowed R (Player.navigate direction) := by
  refine .bind stays_state fun _ => .bind stays_reading fun source => ?_
  cases source with
  | none => exact stays_state
  | some source =>
    refine .bind h.fadeOut fun _ => .bind (.attempt h.play) fun result => ?_
    cases result with
    | ok played => exact .bind h.fadeIn fun _ => .pure
    | error e => exact .bind h.restoreVolume fun _ => .fail

theorem restorePaused {snapshot : PlaybackSessionSnapshot} :
    Stays allowed R (Player.restorePaused snapshot) := by
  refine .bind (h.step fun _ => ⟨rfl, rfl, rfl, rfl, rfl, rfl⟩) fun _ => ?_
  refine .bind stays_state fun _ =>
    h.command ProcessCall.keeps_applySnapshotToProcess (fun _ => rfl) fun _ => ?_
  exact .bind (h.update (fun _ => rfl) fun _ => rfl) fun _ =>
    .bind (h.step fun _ => ⟨rfl, rfl, rfl, rfl, rfl, rfl⟩) fun _ => .pure

/-! ### The Queue and the settings -/

theorem toggleShuffle {random : ℕ → Option ℕ} :
    Stays allowed R (Player.toggleShuffle random) := by
  refine .bind (h.update (fun _ => rfl) fun _ => rfl) fun _ => .ite ?_ ?_
  · exact .bind h.withQueue fun _ => .pure
  · exact .bind h.changeQueue fun _ => .pure

theorem syncQueueContext {random : ℕ → Option ℕ} {sources : List Source}
    {currentIndex : Option ℕ} :
    Stays allowed R (Player.syncQueueContext random sources currentIndex) :=
  .bind stays_state fun _ => .bind h.withQueue fun _ => stays_state

theorem seek {seconds : ℚ} : Stays allowed R (Player.seek seconds) :=
  .ite h.fail <| h.command ProcessCall.keeps_seek (fun _ => rfl) fun _ =>
    h.update (fun _ => rfl) fun _ => rfl

theorem applyProcessing {configuration : ProcessCall.ProcessingConfiguration} :
    Stays allowed R (Player.applyProcessing configuration) :=
  h.command ProcessCall.keeps_applyProcessing (fun _ => rfl) fun _ =>
    h.update (fun _ => rfl) fun _ => rfl

theorem setPlaybackRate {rate : ℚ} : Stays allowed R (Player.setPlaybackRate rate) :=
  .ite h.fail <| h.command ProcessCall.keeps_setSpeed (fun _ => rfl) fun _ =>
    h.update (fun _ => rfl) fun _ => rfl

theorem setGapless {isEnabled : Bool} :
    Stays allowed R (Player.setGapless isEnabled) :=
  h.command ProcessCall.keeps_setGapless (fun _ => rfl) fun _ =>
    h.update (fun _ => rfl) fun _ => rfl

theorem setTransitionFadeMs {milliseconds : ℕ} :
    Stays allowed R (Player.setTransitionFadeMs milliseconds) :=
  .bind (h.step fun _ => ⟨rfl, rfl, rfl, rfl, rfl, rfl⟩) fun _ => stays_state

/-! ### The devices -/

theorem refresh :
    Stays allowed R (OutputDeviceCatalog.refresh site) := by
  refine .bind (Moves.stays (.atomically fun p fates _ result q hrun => ?_)) fun _ => .ofExcept
  cases hfate : fates site .listDevices with
  | fails isDone =>
    simp only [hfate, Option.some.injEq, Prod.mk.injEq] at hrun
    exact hrun.2 ▸ refl p
  | done =>
    simp only [hfate, Option.some.injEq, Prod.mk.injEq] at hrun
    exact hrun.2 ▸ h.spared _ _ ⟨rfl, rfl, refl p.process, rfl, rfl, rfl, rfl⟩

theorem publishDisconnected {devices : List OutputDevice} {disconnected : OutputDevice} :
    Stays allowed R (Player.publishDisconnected devices disconnected) :=
  h.update (fun _ => rfl) fun _ => rfl

theorem refreshOutputDevices : Stays allowed R Player.refreshOutputDevices := by
  refine .bind h.refresh fun refreshed => ?_
  cases refreshed.disconnected with
  | none => exact h.update (fun _ => rfl) fun _ => rfl
  | some disconnected =>
    refine .bind stays_state fun _ => .ite (h.update (fun _ => rfl) fun _ => rfl) ?_
    exact .bind (h.attempt ProcessCall.keeps_setPaused fun _ => .pure)
      fun _ => h.publishDisconnected

theorem refreshDirectOutputDevice :
    Stays allowed R Player.refreshDirectOutputDevice := by
  refine .bind stays_state fun _ => .ite (.bind (.attempt h.refresh) fun observed => ?_) .pure
  cases observed with
  | error e => exact .pure
  | ok refreshed =>
    dsimp only
    cases refreshed.disconnected with
    | some disconnected =>
      exact h.attempt ProcessCall.keeps_setPaused fun _ =>
        .bind h.publishDisconnected fun _ => .pure
    | none =>
      exact .bind stays_state fun _ => .ite .pure <|
        .bind (h.update (fun _ => rfl) fun _ => rfl) fun _ => .pure

/-! ### The end of a file -/

theorem appendNextSourceNearEnd {seconds : ℚ} :
    Stays allowed R (Player.appendNextSourceNearEnd seconds) := by
  refine .bind stays_state fun current => .ite .pure <| .bind stays_reading fun nextSource => ?_
  cases nextSource.bind fun source => source.playbackUrl.toOption with
  | none => exact .pure
  | some url => exact h.attempt ProcessCall.keeps_appendOnce fun _ => .pure

theorem stopAppendedSource {appended : Option String} :
    Stays allowed R (Player.stopAppendedSource appended) :=
  .ite .pure (h.attempt ProcessCall.keeps_stop fun _ => .pure)

theorem resetAdaptiveAfterEventFailure :
    Stays allowed R (Player.resetAdaptiveAfterEventFailure site) :=
  .bind stays_state fun _ => .ite .pure (h.resetForRecovery _)

theorem prepareAdvancedSourceRate :
    Stays allowed R (Player.prepareAdvancedSourceRate source) := by
  refine .bind (.attempt (h.eventRate source)) fun applied => ?_
  cases applied with
  | ok _ => exact .pure
  | error error =>
    refine .bind (.attempt h.resetAdaptiveAfterEventFailure) fun reset => ?_
    cases reset <;> exact .fail

theorem alignAndPublishAdvancedSource :
    Stays allowed R (Player.alignAndPublishAdvancedSource source) :=
  .bind h.changeQueue fun _ => h.update (fun _ => rfl) fun _ => rfl

theorem loadAdvancedSource :
    Stays allowed R (Player.loadAdvancedSource source) := by
  refine .bind h.prepareAdvancedSourceRate fun _ => .bind (.attempt ?_) fun started => ?_
  · exact .bind .ofExcept fun url => h.withProcess <|
      .bind ProcessCall.keeps_loadAt fun _ => ProcessCall.keeps_setPaused
  · cases started with
    | ok _ => exact h.alignAndPublishAdvancedSource
    | error e =>
      refine .bind (.attempt h.resetAdaptiveAfterEventFailure) fun reset => ?_
      cases reset <;> exact h.update (fun _ => rfl) fun _ => rfl

theorem handleEndedEvent : Stays allowed R Player.handleEndedEvent := by
  have hpublish : ∀ change : PlaybackSessionState → PlaybackSessionState,
      (∀ state, (change state).outputMode = state.outputMode) →
      (∀ state, (change state).selectedOutputDevice = state.selectedOutputDevice) →
      Stays allowed R (Player.update change) := fun change => h.update
  refine .bind stays_state fun current => .bind (h.withProcess
    ProcessCall.keeps_takeAppended) fun appended => .ite ?_ (.ite ?_ ?_)
  · exact .bind h.stopAppendedSource fun _ => hpublish _ (fun _ => rfl) fun _ => rfl
  · refine .bind stays_state fun current => ?_
    cases current.source with
    | none => exact hpublish _ (fun _ => rfl) fun _ => rfl
    | some source =>
      exact .bind h.loadAdvancedSource fun _ => .ite .pure <|
        hpublish _ (fun _ => rfl) fun _ => rfl
  · refine .bind stays_reading fun nextSource => ?_
    cases nextSource with
    | none =>
      exact .bind h.stopAppendedSource fun _ => hpublish _ (fun _ => rfl) fun _ => rfl
    | some source =>
      exact .ite (.bind h.prepareAdvancedSourceRate fun _ =>
        h.alignAndPublishAdvancedSource) h.loadAdvancedSource

/-! ### The live stream -/

theorem handleLoadBoundary {loadRevision : ℕ} :
    Stays allowed R (Player.handleLoadBoundary loadRevision) := by
  refine .bind stays_reading fun _ => .ite .pure <| .bind ?_ fun _ => h.updateLive
  exact .bind stays_reading fun _ => .ite .pure <| .bind stays_reading fun _ =>
    .ite h.updateLive .pure

theorem handleLiveStableEvent : Stays allowed R Player.handleLiveStableEvent := by
  refine .bind stays_reading fun _ => .bind stays_reading fun _ => .ite .pure <|
    .bind stays_reading fun _ => .ite .pure <| .bind stays_state fun current =>
      .ite ?_ h.updateLive
  refine .bind stays_reading fun _ => .bind h.updateLive fun _ => .ite ?_ .pure
  exact .bind (h.update (fun _ => rfl) fun _ => rfl) fun _ => .pure

theorem startLiveReconnect : Stays allowed R Player.startLiveReconnect := by
  refine .bind stays_reading fun _ => .ite .pure <| .bind h.updateLive fun _ => ?_
  exact .bind (h.update (fun _ => rfl) fun _ => rfl) fun _ => .pure

theorem reconnectLiveSource : Stays allowed R Player.reconnectLiveSource := by
  refine .bind stays_reading fun live => .bind stays_reading fun _ => .ite .fail ?_
  cases live.armedSource with
  | none => exact .fail
  | some source =>
    refine .bind .ofExcept fun url => .bind stays_reading fun _ => .ite .fail ?_
    refine .bind (h.step fun _ => ⟨rfl, rfl, rfl, rfl, rfl, rfl⟩) fun _ => .bind ?_ fun _ => ?_
    · exact h.withProcess (.bind ProcessCall.keeps_loadWithEventBoundary fun _ =>
        ProcessCall.keeps_setPaused)
    · exact h.step fun _ => ⟨rfl, rfl, rfl, rfl, rfl, rfl⟩

theorem pollLiveReconnect : Stays allowed R Player.pollLiveReconnect := by
  refine .bind stays_reading fun _ => .ite .pure <| .bind stays_state fun current =>
    .bind stays_reading fun _ => .ite (.ite h.updateLive ?_) h.updateLive
  refine .bind h.updateLive fun _ => .bind stays_reading fun _ => .ite ?_ .pure
  refine .bind h.updateLive fun _ => .bind (.attempt h.reconnectLiveSource)
    fun result => ?_
  cases result <;> exact h.updateLive

/-! ### The inputs -/

/-- What the listener asks of the player, its Queue and its settings. -/
theorem program {input : Input} (hinput : input.setsOutput = false)
    (hreport : ∀ report, input ≠ .event report) : Stays allowed R input.program := by
  have hdone : ∀ {x : Act PlaybackSessionState}, Stays allowed R x → Stays allowed R (done x) :=
    fun hx => .bind hx fun _ => .pure
  cases input with
  | restorePaused snapshot => exact hdone h.restorePaused
  | play source => exact hdone h.play
  | pause => exact hdone h.pause
  | stop => exact hdone h.stop
  | togglePlay => exact hdone (.bind stays_state fun _ => .ite h.pause h.play)
  | seek seconds => exact hdone h.seek
  | applyProcessing configuration => exact hdone h.applyProcessing
  | enableAdaptiveSystemRate => cases hinput
  | refreshOutputDevices => exact hdone h.refreshOutputDevices
  | selectDirectAlsaOutput deviceId => cases hinput
  | fallbackToSystemOutput => cases hinput
  | toggleShuffle random => exact hdone h.toggleShuffle
  | syncQueueContext random sources currentIndex => exact hdone h.syncQueueContext
  | previous => exact hdone h.navigate
  | next => exact hdone h.navigate
  | cycleRepeatMode => exact hdone (h.update (fun _ => rfl) fun _ => rfl)
  | setPlaybackRate rate => exact hdone h.setPlaybackRate
  | setGapless isEnabled => exact hdone h.setGapless
  | setStopAfterCurrent isEnabled => exact hdone (h.update (fun _ => rfl) fun _ => rfl)
  | setTransitionFadeMs milliseconds => exact hdone h.setTransitionFadeMs
  | event report => exact absurd rfl (hreport report)
  | pollLiveReconnect => exact h.pollLiveReconnect
  | refreshDirectOutputDevice => exact h.refreshDirectOutputDevice

end LeavesOutput

end Stays

/-! ### Properties that playing keeps -/

/-- The program ends where the first property holds, and is cut off where the second does. -/
def EndsIn {ε α : Type} (P C : PlaybackController → Prop) : Exit ε α → PlaybackController → Prop
  | .died, q => C q
  | _, q => P q

section EndsIn

variable {allowed : Fates → Prop} {P C : PlaybackController → Prop} {p : PlaybackController}
  {α β : Type}

theorem endsIn_bind {x : Act α} {f : α → Act β} (h : Ends allowed (EndsIn P C) x p)
    (hf : ∀ a q, P q → Ends allowed (EndsIn P C) (f a) q) :
    Ends allowed (EndsIn P C) (x >>= f) p :=
  .seq h hf (fun _ _ hq => hq) fun _ hq => hq

theorem endsIn_attempt {x : Act α} {f : Except String α → Act β}
    (h : Ends allowed (EndsIn P C) x p)
    (hf : ∀ result q, P q → Ends allowed (EndsIn P C) (f result) q) :
    Ends allowed (EndsIn P C) (x.attempt >>= f) p :=
  .handle h (fun a => hf (.ok a)) (fun e => hf (.error e)) fun _ hq => hq

theorem endsIn_done {x : Act PlaybackSessionState} (h : Ends allowed (EndsIn P C) x p) :
    Ends allowed (EndsIn P C) (done x) p :=
  endsIn_bind h fun _ _ hq => hq

variable {R : PlaybackController → PlaybackController → Prop}

theorem endsIn_of_stays (hkept : ∀ p q, P p → R p q → P q) (hcut : ∀ p, P p → C p) {x : Act α}
    (hx : Stays allowed R x) (h : P p) : Ends allowed (EndsIn P C) x p := by
  refine (hx p).mono fun exit q hq => ?_
  cases exit with
  | returned a => exact hkept p q h hq
  | failed e => exact hkept p q h hq
  | died => exact hcut q (hkept p q h hq)

variable [IsPreorder PlaybackController R] (hleaves : LeavesOutput allowed R)
  (hkept : ∀ p q, P p → R p q → P q) (hcut : ∀ p, P p → C p)

include hleaves hkept hcut

theorem endsIn_reduceMpvEvent {event : MpvEvent} (h : P p)
    (herror : ∀ p, P p → Ends allowed (EndsIn P C) handleMpvError p) :
    Ends allowed (EndsIn P C) (reduceMpvEvent event) p := by
  have hstays : ∀ {x : Act Unit}, Stays allowed R x → Ends allowed (EndsIn P C) x p :=
    fun hx => endsIn_of_stays hkept hcut hx h
  have hupdate : ∀ change : PlaybackSessionState → PlaybackSessionState,
      (∀ state, (change state).outputMode = state.outputMode) →
      (∀ state, (change state).selectedOutputDevice = state.selectedOutputDevice) →
      Stays allowed R (done (update change)) :=
    fun change hmode hselected => .bind (hleaves.update hmode hselected) fun _ => .pure
  cases event with
  | time seconds => exact hstays (.ite (hupdate _ (fun _ => rfl) fun _ => rfl) .pure)
  | duration seconds => exact hstays (.ite (hupdate _ (fun _ => rfl) fun _ => rfl) .pure)
  | paused isPaused =>
    refine hstays (hupdate _ (fun state => ?_) fun state => ?_)
    · rw [PlaybackSessionState.updatePausedState]
      split_ifs <;> rfl
    · rw [PlaybackSessionState.updatePausedState]
      split_ifs <;> rfl
  | decoder rateHz =>
    refine hstays (.bind stays_state fun _ => .ite .pure ?_)
    exact hleaves.attempt ProcessCall.keeps_observeOutputFormat fun _ => .pure
  | ended => exact hstays (.bind hleaves.handleEndedEvent fun _ => .pure)
  | error message => exact endsIn_done (herror p h)
  | loadBoundary loadRevision => exact h
  | exitedUnexpectedly message => exact h

/-- A report of mpv, apart from its exit, over what a failure and a decoded rate do. -/
theorem endsIn_dispatchPlaybackEvent {event : MpvEvent} (h : P p)
    (hdecoder : ∀ rateHz q, event = .decoder rateHz → P q → R p q →
      Ends allowed (EndsIn P C) (applyAdaptiveDecoderRate rateHz) q)
    (herror : ∀ p, P p → Ends allowed (EndsIn P C) handleMpvError p)
    (hexit : ∀ message, event ≠ .exitedUnexpectedly message) :
    Ends allowed (EndsIn P C) (dispatchPlaybackEvent event) p := by
  have hstays : ∀ {β : Type} {x : Act β} {q : PlaybackController}, P q → Stays allowed R x →
      Ends allowed (EndsIn P C) x q :=
    fun hq hx => endsIn_of_stays hkept hcut hx hq
  have hstable : Stays allowed R (handleStable event) := .ite hleaves.handleLiveStableEvent .pure
  have hinterruption : Stays allowed R (handleInterruption event) :=
    .ite hleaves.startLiveReconnect .pure
  have hregular : Ends allowed (EndsIn P C) (dispatchRegularPlaybackEvent event) p := by
    refine (hstable p).seq (fun _ q hq => ?_) (fun _ q hq => hkept p q h hq)
      fun q hq => hcut q (hkept p q h hq)
    have hpq : P q := hkept p q h hq
    refine (hinterruption q).seq (fun isReconnecting r hr => ?_) (fun _ r hr => hkept q r hpq hr)
      fun r hr => hcut r (hkept q r hpq hr)
    have hpr : P r := hkept q r hpq hr
    refine .ite (fun _ => hpr) fun _ => endsIn_bind ?_ fun _ t ht => ?_
    · cases event with
      | time seconds => exact hstays hpr hleaves.appendNextSourceNearEnd
      | decoder rateHz => exact hdecoder rateHz r rfl hpr (trans_of R hq hr)
      | duration _ | paused _ | ended | error _ | loadBoundary _ | exitedUnexpectedly _ => exact hpr
    · refine endsIn_attempt (endsIn_reduceMpvEvent hleaves hkept hcut ht herror)
        fun result u hu => ?_
      cases result with
      | error e => exact hu
      | ok _ =>
        exact hstays hu (.ite (hleaves.step fun _ => ⟨rfl, rfl, rfl, rfl, rfl, rfl⟩) .pure)
  cases event with
  | exitedUnexpectedly message => exact absurd rfl (hexit message)
  | loadBoundary loadRevision => exact hstays h hleaves.handleLoadBoundary
  | time _ | duration _ | paused _ | decoder _ | ended | error _ => exact hregular

end EndsIn

end Harmony.Player
