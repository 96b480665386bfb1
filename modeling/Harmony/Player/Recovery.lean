/-
# What a recovery restores

A new mpv starts with its own settings. The recovery tells it the pause, the volume, the
speed, the gapless mode, the source and the playhead. It does not tell it the device,
the ReplayGain mode or the audio filters, so a recovery restores the player exactly where
these are mpv's own.
-/

import Harmony.Player.Rules
import Harmony.Player.Sequential

namespace Harmony.Player

open Thread Crash

/-! ### What is to be restored -/

/-- mpv is configured as the session says. -/
structure IsConfigured (process : MpvProcess) (state : PlaybackSessionState) : Prop where
  output : process.IsOn state
  isAudioEnabled : process.isAudioEnabled = true
  volume : process.volume = state.volume
  speed : process.speed = state.playbackRate
  isGapless : process.isGapless = state.isGapless
  replayGain : process.replayGain = state.processing.replayGainMode
  audioFilters : process.audioFilters = state.processing.effectiveAudioFilters

/-- mpv plays this source from this playhead, or nothing where there is no source. -/
def MpvProcess.Holds (process : MpvProcess) (source : Option Source) (playhead : ℚ) : Prop :=
  match source with
  | none => process.current = none
  | some source => process.startSeconds = playhead ∧
      ∃ url, source.IsFile url ∧ process.current = some url

variable {process : MpvProcess}

theorem MpvProcess.Holds.of_none {source : Option Source} {playhead : ℚ} (hsource : source = none)
    (hcurrent : process.current = none) :
    process.Holds source playhead := by
  rw [hsource]
  exact hcurrent

theorem MpvProcess.Holds.of_some {source : Option Source} {file : Source} {playhead : ℚ}
    {url : String} (hsource : source = some file) (hstart : process.startSeconds = playhead)
    (hfile : file.IsFile url) (hcurrent : process.current = some url) :
    process.Holds source playhead := by
  rw [hsource]
  exact ⟨hstart, url, hfile, hcurrent⟩

/-- The source, the playhead, the shuffle and the repeat mode are those of before. -/
structure KeepsSession (before after : PlaybackSessionState) : Prop where
  source : after.source = before.source
  playhead : after.currentTime = before.currentTime
  shuffle : after.shuffleEnabled = before.shuffleEnabled
  repeatMode : after.repeatMode = before.repeatMode

/-- The player is what it was before mpv exited. -/
structure IsRestored (before after : PlaybackController) : Prop where
  configured : IsConfigured after.process after.state
  session : KeepsSession before.state after.state
  held : after.process.Holds after.state.source after.state.currentTime

/-! ### The new mpv -/

/-- What a new mpv is told. The rest is as it is launched. -/
structure IsTold (process : MpvProcess) (isGapless : Bool) (playbackRate : ℚ)
    (snapshot : PlaybackSessionSnapshot) : Prop where
  isGapless : process.isGapless = isGapless
  speed : process.speed = playbackRate
  volume : process.volume = snapshot.volume
  held : process.Holds snapshot.source snapshot.playheadSeconds
  audioDevice : process.audioDevice = none
  isExclusive : process.isExclusive = false
  isAudioEnabled : process.isAudioEnabled = true
  replayGain : process.replayGain = .off
  audioFilters : process.audioFilters = []

variable {snapshot : PlaybackSessionSnapshot}

open ProcessCall in
theorem isTold_of_configureRestarted {isGapless : Bool} {playbackRate : ℚ}
    {shouldResume : Bool} {fates : Call → Fate}
   
    (h : configureRestarted isGapless playbackRate snapshot shouldResume fates .launched =
      (.ok (), process)) : IsTold process isGapless playbackRate snapshot := by
  rw [configureRestarted, bind_eq_ok] at h
  obtain ⟨_, gapless, hgapless, h⟩ := h
  obtain ⟨-, -, rfl⟩ := command_eq_ok.mp hgapless
  rw [applySnapshotToProcess, bind_eq_ok] at h
  obtain ⟨_, paused, hpaused, h⟩ := h
  obtain ⟨-, -, rfl⟩ := command_eq_ok.mp hpaused
  rw [bind_eq_ok] at h
  obtain ⟨_, withVolume, hvolume, h⟩ := h
  obtain ⟨-, -, rfl⟩ := command_eq_ok.mp hvolume
  rw [bind_eq_ok] at h
  obtain ⟨_, withSpeed, hspeed, h⟩ := h
  obtain ⟨-, -, rfl⟩ := command_eq_ok.mp hspeed
  cases hsource : snapshot.source with
  | none =>
    rw [hsource] at h
    obtain ⟨-, rfl⟩ := pure_eq_ok.mp h
    exact ⟨rfl, rfl, rfl, .of_none hsource rfl, rfl, rfl, rfl, rfl, rfl⟩
  | some source =>
    simp only [hsource, bind_eq_ok] at h
    obtain ⟨url, before, hurl, _, loaded, hload, h⟩ := h
    obtain ⟨hfile, rfl⟩ := ofExcept_eq_ok.mp hurl
    obtain ⟨-, -, rfl⟩ := loadAt_eq_ok.mp hload
    cases shouldResume with
    | true =>
      rw [if_pos rfl] at h
      obtain ⟨-, -, rfl⟩ := command_eq_ok.mp h
      exact ⟨rfl, rfl, rfl, .of_some hsource rfl hfile rfl, rfl, rfl, rfl, rfl, rfl⟩
    | false =>
      rw [if_neg Bool.false_ne_true] at h
      obtain ⟨-, rfl⟩ := pure_eq_ok.mp h
      exact ⟨rfl, rfl, rfl, .of_some hsource rfl hfile rfl, rfl, rfl, rfl, rfl, rfl⟩

/-! ### The steps of a recovery -/

/-- What a recovery that succeeds leaves. -/
structure IsRecovered (before : PlaybackSessionState) (snapshot : PlaybackSessionSnapshot)
    (after : PlaybackController) : Prop where
  told : IsTold after.process before.isGapless before.playbackRate snapshot
  published : ∃ shouldResume, after.state = publishRestarted snapshot shouldResume before

/-- Nothing is said of a program that does not return. -/
def WhenReturned {ε α : Type} (P : PlaybackController → Prop) :
    Exit ε α → PlaybackController → Prop
  | .returned _, q => P q
  | .failed _, _ => True
  | .died, _ => True

section Steps

variable {allowed : Fates → Prop} {p : PlaybackController} {snapshot : PlaybackSessionSnapshot}
  {shouldResume : Bool}

theorem ends_finishPlayerRestart :
    Ends allowed (WhenReturned (IsRecovered p.state snapshot))
      (finishPlayerRestart snapshot shouldResume .launched) p := by
  refine ends_state trivial ?_
  refine .bind ⟨trivial, fun fates _ result q hrun => ?_⟩
  cases hrun
  cases hconfigured : configureRestarted p.state.isGapless p.state.playbackRate snapshot
      shouldResume (fates .restart) .launched with
  | mk result process =>
    cases result with
    | error e => trivial
    | ok _ =>
      change Ends allowed (WhenReturned (IsRecovered p.state snapshot))
        (replaceProcess process >>= _) p
      refine ends_step trivial ?_
      refine ends_step trivial ?_
      exact ⟨isTold_of_configureRestarted hconfigured, shouldResume, rfl⟩

theorem ends_resetReappliedRateAfterFailedRestart {x : Act Unit}
    {P : PlaybackController → Prop} (h : Ends allowed (WhenReturned P) x p) :
    Ends allowed (WhenReturned P) (resetReappliedRateAfterFailedRestart x) p := by
  refine .handle h (fun _ q hq => hq) (fun e q _ => ?_) fun _ _ => trivial
  -- the failure goes on whether or not the rate could be reset
  have hreset : Ends allowed (fun _ _ => True)
      (AdaptiveSystemRate.resetForRecovery .failedRestartReset) q :=
    AdaptiveSystemRate.moves_resetForRecovery.ends.mono fun _ _ _ => trivial
  exact .handle hreset (fun _ _ _ => trivial) (fun _ _ _ => trivial) fun _ _ => trivial

theorem ends_startProcess {Q : Exit String MpvProcess → PlaybackController → Prop}
    (hcut : Q .died p) (hdone : Q (.returned .launched) p) (hfailed : ∀ e, Q (.failed e) p) :
    Ends allowed Q startProcess p := by
  refine ⟨hcut, fun fates _ result q hrun => ?_⟩
  cases hfate : fates .restart .start with
  | done =>
    simp only [hfate] at hrun
    cases hrun
    exact hdone
  | fails isDone =>
    simp only [hfate] at hrun
    cases hrun
    exact hfailed _

theorem ends_restartPlayer :
    Ends allowed (WhenReturned (IsRecovered p.state snapshot))
      (restartPlayer snapshot shouldResume) p := by
  refine .bind (ends_startProcess trivial ?_ fun e => trivial)
  refine .seq AdaptiveSystemRate.moves_applySourceSampleRate.ends (fun _ q hq => ?_)
    (fun _ _ _ => trivial) fun _ _ => trivial
  rw [← hq.state]
  exact ends_resetReappliedRateAfterFailedRestart ends_finishPlayerRestart

theorem ends_orFailure {α : Type} {failure : RecoveryFailure} {x : Act α}
    {Q : Exit String α → PlaybackController → Prop}
    {Q' : Exit RecoveryFailure α → PlaybackController → Prop} (h : Ends allowed Q x p)
    (hreturned : ∀ a q, Q (.returned a) q → Q' (.returned a) q)
    (hfailed : ∀ e q, Q (.failed e) q → Q' (.failed failure) q)
    (hcut : ∀ q, Q .died q → Q' .died q) : Ends allowed Q' (orFailure failure x) p := by
  induction x generalizing p with
  | done a => exact hreturned a p h
  | fail e => exact hfailed e p h
  | act run next ih =>
    exact ⟨hcut p h.1, fun fates hfates b q hrun => ih b (h.2 fates hfates b q hrun)⟩

theorem ends_orElse {ε : Type} {x : Thread PlaybackController Fates ε Unit} {handle : ε → Act Unit}
    {Q : Exit ε Unit → PlaybackController → Prop}
    {Q' : Exit String Unit → PlaybackController → Prop}
    (h : Ends allowed Q x p) (hreturned : ∀ q, Q (.returned ()) q → Q' (.returned ()) q)
    (hfailed : ∀ e q, Q (.failed e) q → Ends allowed Q' (handle e) q)
    (hcut : ∀ q, Q .died q → Q' .died q) : Ends allowed Q' (orElse x handle) p := by
  induction x generalizing p with
  | done a => exact hreturned p h
  | fail e => exact hfailed e p h
  | act run next ih =>
    exact ⟨hcut p h.1, fun fates hfates b q hrun => ih b (h.2 fates hfates b q hrun)⟩

/-- A recovery that succeeds had a snapshot, which it started the new mpv from. -/
theorem ends_tryRecoverAfterPlayerExit (allowed : Fates → Prop) (p : PlaybackController) :
    Ends allowed (WhenReturned fun q => ∃ snapshot,
        PlaybackSessionSnapshot.ofState p.state = .ok snapshot ∧ IsRecovered p.state snapshot q)
      tryRecoverAfterPlayerExit p := by
  refine ends_step trivial ?_
  refine .bind ?_
  cases hsnapshot : PlaybackSessionSnapshot.ofState p.state with
  | error e => trivial
  | ok snapshot =>
    refine .seq (ends_orFailure AdaptiveSystemRate.moves_resetForRecovery.ends
      (fun _ _ hq => hq) (fun _ _ hq => hq) fun _ hq => hq) (Q := fun _ q => RateOnly p q)
      (fun _ q hq => ?_) (fun _ _ _ => trivial) fun _ _ => trivial
    refine ends_step trivial ?_
    refine .ite (fun _ => ?_) fun _ => trivial
    refine ends_orFailure ends_restartPlayer (fun _ r hr => ⟨snapshot, rfl, ?_⟩)
      (fun _ _ _ => trivial) fun _ _ => trivial
    rw [← hq.state]
    exact hr

end Steps

/-! ### When the player is restored -/

theorem snapshot_eq {state : PlaybackSessionState}
    (h : PlaybackSessionSnapshot.ofState state = .ok snapshot) :
    snapshot = ⟨state.source, state.currentTime, state.volume, state.shuffleEnabled,
      state.repeatMode⟩ := by
  rw [PlaybackSessionSnapshot.ofState] at h
  cases hvalid : PlaybackSessionSnapshot.validate state.currentTime state.volume with
  | error e => rw [hvalid] at h; cases h
  | ok _ => rw [hvalid] at h; exact (Except.ok.inj h).symm

/-- The session that a recovery publishes, as far as mpv is set by it. -/
theorem publishRestarted_keeps {state : PlaybackSessionState} (shouldResume : Bool)
    (h : PlaybackSessionSnapshot.ofState state = .ok snapshot) :
    KeepsSession state (publishRestarted snapshot shouldResume state) ∧
      (publishRestarted snapshot shouldResume state).outputMode = state.outputMode ∧
      (publishRestarted snapshot shouldResume state).selectedOutputDevice =
        state.selectedOutputDevice ∧
      (publishRestarted snapshot shouldResume state).volume = state.volume ∧
      (publishRestarted snapshot shouldResume state).playbackRate = state.playbackRate ∧
      (publishRestarted snapshot shouldResume state).isGapless = state.isGapless ∧
      (publishRestarted snapshot shouldResume state).processing.replayGainMode =
        state.processing.replayGainMode ∧
      (publishRestarted snapshot shouldResume state).processing.effectiveAudioFilters =
        state.processing.effectiveAudioFilters := by
  obtain rfl := snapshot_eq h
  rw [publishRestarted]
  split_ifs
  · exact ⟨⟨rfl, rfl, rfl, rfl⟩, rfl, rfl, rfl, rfl, rfl, rfl, rfl⟩
  · exact ⟨⟨rfl, rfl, rfl, rfl⟩, rfl, rfl, rfl, rfl, rfl, rfl, rfl⟩

/-- What the recovery does not tell the new mpv is mpv's own. -/
structure HasOwnSettings (state : PlaybackSessionState) : Prop where
  output : state.outputMode ≠ .directAlsa
  replayGain : state.processing.replayGainMode = .off
  audioFilters : state.processing.effectiveAudioFilters = []

theorem IsRecovered.isRestored_iff {p q : PlaybackController} (h : IsRecovered p.state snapshot q)
    (hsnapshot : PlaybackSessionSnapshot.ofState p.state = .ok snapshot) :
    IsRestored p q ↔ HasOwnSettings p.state := by
  obtain ⟨shouldResume, hpublished⟩ := h.published
  obtain ⟨hkeeps, hmode, hdevice, hvolume, hrate, hgapless, hgain, hfilters⟩ :=
    publishRestarted_keeps shouldResume hsnapshot
  have hsame := snapshot_eq hsnapshot
  rw [← hpublished] at hkeeps hmode hdevice hvolume hrate hgapless hgain hfilters
  constructor
  · rintro ⟨hconfigured, -, -⟩
    refine ⟨fun hdirect => ?_, ?_, ?_⟩
    · -- a device is never opened by a recovery
      have hon := hconfigured.output
      rw [MpvProcess.IsOn, hmode, hdirect] at hon
      obtain ⟨device, -, haudio, -⟩ := hon
      rw [h.told.audioDevice] at haudio
      cases haudio
    · rw [← hgain, ← hconfigured.replayGain, h.told.replayGain]
    · rw [← hfilters, ← hconfigured.audioFilters, h.told.audioFilters]
  · intro hown
    have hon : q.process.IsOn q.state := by
      rw [MpvProcess.IsOn, hmode]
      cases hmodes : p.state.outputMode with
      | directAlsa => exact absurd hmodes hown.output
      | system => exact ⟨h.told.audioDevice, h.told.isExclusive⟩
      | adaptiveSystemRate => exact ⟨h.told.audioDevice, h.told.isExclusive⟩
    have hheld := h.told.held
    rw [hsame] at hheld
    refine ⟨⟨hon, h.told.isAudioEnabled, ?_, ?_, ?_, ?_, ?_⟩, hkeeps, ?_⟩
    · rw [h.told.volume, hvolume, hsame]
    · rw [h.told.speed, hrate]
    · rw [h.told.isGapless, hgapless]
    · rw [h.told.replayGain, hgain, hown.replayGain]
    · rw [h.told.audioFilters, hfilters, hown.audioFilters]
    · rw [hkeeps.source, hkeeps.playhead]
      exact hheld

/-- The sessions that a started player comes to, whatever becomes of its calls. -/
def ReachableSession : PlaybackController → Prop :=
  Transition.Reachable
    (fun p => ∃ forcedRate isMarked plugged, p = .started forcedRate isMarked plugged)
    fun p event q => perform p event = some q

/-- A recovery that succeeds restores the player exactly where the output is not a device,
ReplayGain is off and there are no audio filters. -/
theorem recovery_restores_iff {p q : PlaybackController} {fates : List Fates}
    (h : runAlone tryRecoverAfterPlayerExit fates p = some (.returned (), q)) :
    IsRestored p q ↔ HasOwnSettings p.state := by
  have hends := ends_tryRecoverAfterPlayerExit (fun _ => True) p
  obtain ⟨snapshot, hsnapshot, hrecovered⟩ := hends.of_runAlone (fun _ _ => trivial) h
  exact hrecovered.isRestored_iff hsnapshot

/-! ### A recovery that loses ReplayGain -/

/-- Every call is done, as often as the program asks. -/
def allDone : List Fates := List.replicate 30 fun _ _ => .done

/-- A Track with a gain of its own. -/
def gainTrack : Source where
  type := "track"
  parsed := .ok ⟨"t1", "http://home.local/api/tracks/t1/stream", some 180000⟩
  sampleRateHz := some 44100
  hasTrackGain := true
  hasAlbumGain := false
  others := ""

/-- The Track plays at its gain, and mpv exits. -/
def crashWithGain : List Event :=
  [.input (.play (some gainTrack)) allDone,
    .input (.applyProcessing ⟨4 / 5, .track, []⟩) allDone, .elsewhere .mpvExits]

/-- The player of that run, once mpv has exited. -/
def crashedWithGain : Option PlaybackController :=
  crashWithGain.foldlM perform (.started none false [])

/-- The player after a recovery that succeeds. -/
def recovered (p : PlaybackController) (fates : List Fates) : Option PlaybackController :=
  match runAlone tryRecoverAfterPlayerExit fates p with
  | some (.returned _, q) => some q
  | _ => none

theorem of_recovered {p q : PlaybackController} {fates : List Fates}
    (h : recovered p fates = some q) :
    runAlone tryRecoverAfterPlayerExit fates p = some (.returned (), q) := by
  rw [recovered] at h
  split at h
  · next hrun => rw [hrun, Option.some.inj h]
  · cases h

theorem crashedWithGain_reachable {p : PlaybackController} (h : crashedWithGain = some p) :
    ReachableSession p :=
  ⟨_, crashWithGain, ⟨none, false, [], rfl⟩, .of_option h⟩

/-- mpv plays without the gain that the session still shows. -/
theorem recovery_loses_replayGain :
    ¬∀ p fates q, ReachableSession p →
      runAlone tryRecoverAfterPlayerExit fates p = some (.returned (), q) → IsRestored p q := by
  intro h
  have hrecovered : (crashedWithGain.bind (recovered · allDone)).map
      (fun q => (q.process.replayGain, q.state.processing.replayGainMode)) =
        some (.off, .track) := by
    decide +kernel
  obtain ⟨q, hq, hgains⟩ := Option.map_eq_some_iff.mp hrecovered
  obtain ⟨p, hcrashed, hq⟩ := Option.bind_eq_some_iff.mp hq
  have hrestored := h p allDone q (crashedWithGain_reachable hcrashed) (of_recovered hq)
  have hgain := hrestored.configured.replayGain
  rw [(Prod.mk.inj hgains).1, (Prod.mk.inj hgains).2] at hgain
  cases hgain

/-- The player of that run recovers, and is not restored. -/
theorem recovery_restores_iff_gain :
    ∃ p q, runAlone tryRecoverAfterPlayerExit allDone p = some (.returned (), q) ∧
      (IsRestored p q ↔ HasOwnSettings p.state) := by
  have hrecovered : (crashedWithGain.bind (recovered · allDone)).isSome = true := by
    decide +kernel
  obtain ⟨q, hq⟩ := Option.isSome_iff_exists.mp hrecovered
  obtain ⟨p, -, hq⟩ := Option.bind_eq_some_iff.mp hq
  exact ⟨p, q, of_recovered hq, recovery_restores_iff (of_recovered hq)⟩

end Harmony.Player
