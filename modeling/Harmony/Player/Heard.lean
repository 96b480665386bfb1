/-
# What plays is what is shown

After the end of a file nothing plays that the session does not show as playing. mpv goes
on to its next entry by itself, whatever the client remembers of it. So this holds where
each end of a file is followed by a load that is done, by a stop, or by the entry that the
client remembers.
-/

import Harmony.Player.InStep

namespace Harmony.Player

open Thread Crash

/-! ### The end of a file -/

/-- The current source is played once more. -/
def PlaybackController.repeatsCurrent (p : PlaybackController) : Bool :=
  p.state.repeatMode = .once && !p.state.source.any (·.isExternalTrack)

/-- What follows the end of a file, where no live stream is to be reconnected. -/
def PlaybackController.sourceAfterEnd (p : PlaybackController) : Option Source :=
  if p.state.stopAfterCurrent then none
  else if p.repeatsCurrent then p.state.source
  else p.queue.adjacentSource .next (p.state.repeatMode = .loop)

/-- The source is taken to be the entry that the client appended. -/
def PlaybackController.TakesAppended (p : PlaybackController) (source : Source) : Prop :=
  p.repeatsCurrent = false ∧ p.process.appended.isSome ∧
    p.process.appended = source.playbackUrl.toOption

/-- The rate of the source that follows is set, where the output follows it. -/
def RateIsSet (allowed : Fates → Prop) (p : PlaybackController) : Prop :=
  p.state.outputMode = .adaptiveSystemRate → p.adaptiveSystemRate.isEnabled = true →
    ∀ fates, allowed fates → fates .advanceRate .setForcedRate = .done

/-- The load of the source that follows is done, or leaves an idle mpv idle. -/
def LoadIsSafe (allowed : Fates → Prop) (source : Source) (p : PlaybackController) : Prop :=
  p.process.current = none ∧ (∀ fates, allowed fates → fates .advance .load ≠ .fails true) ∨
    (∃ url, source.IsFile url) ∧ ∀ fates, allowed fates → fates .advance .load = .done

/-- After the end of a file, mpv does what it is told, or has gone on to what is shown. -/
structure CalmEnd (allowed : Fates → Prop) (p : PlaybackController) : Prop where
  reconnecting : shouldReconnect p = true → p.process.current = none
  stopping : shouldReconnect p = false → p.sourceAfterEnd = none →
    p.process.appended = none ∨ p.state.source = none → p.process.current = none
  rate : shouldReconnect p = false → p.sourceAfterEnd ≠ none →
    RateIsSet allowed p ∨ ShowsPlaying p ∧ NothingUnseen p
  appended : shouldReconnect p = false → ∀ source, p.sourceAfterEnd = some source →
    p.TakesAppended source → p.process.current = p.process.appended
  loaded : shouldReconnect p = false → ∀ source, p.sourceAfterEnd = some source →
    ¬p.TakesAppended source → LoadIsSafe allowed source p

section End

variable {allowed : Fates → Prop} {p : PlaybackController} {α : Type} {source : Source}

/-- A program ends where nothing plays that the session does not show. -/
abbrev EndsSettled {α : Type} : Exit String α → PlaybackController → Prop :=
  EndsIn Settled fun _ => True

theorem endsSettled_of_undisturbed {x : Act α} (h : Settled p)
    (hx : Stays allowed Undisturbed x) : Ends allowed EndsSettled x p :=
  endsIn_of_stays (fun _ _ hp => hp.kept) (fun _ _ => trivial) hx h

theorem undisturbed_applyAdaptiveRateForEvent :
    Stays allowed Undisturbed (applyAdaptiveRateForEvent source) :=
  .bind stays_state fun _ => .ite .pure undisturbed_applySourceSampleRate

theorem undisturbed_prepareAdvancedSourceRate :
    Stays allowed Undisturbed (prepareAdvancedSourceRate source) := by
  refine .bind (.attempt undisturbed_applyAdaptiveRateForEvent) fun applied => ?_
  cases applied with
  | ok _ => exact .pure
  | error error =>
    refine .bind (.attempt undisturbed_resetAdaptiveAfterEventFailure) fun reset => ?_
    cases reset <;> exact .fail

theorem succeeds_applyAdaptiveRateForEvent (h : RateIsSet allowed p) :
    Ends allowed (Succeeds fun _ q => Undisturbed p q) (applyAdaptiveRateForEvent source) p := by
  refine ends_state trivial (.ite (fun _ => refl p) fun hmode => ?_)
  refine ends_reading trivial (.ite (fun _ => refl p) fun hdisabled => ?_)
  have hset := h (not_not.mp hmode) (Bool.eq_true_of_not_eq_false hdisabled)
  have hforced : ∀ rateHz, Ends allowed (Succeeds fun _ q => Undisturbed p q)
      (AdaptiveSystemRate.setForcedRateHz .advanceRate rateHz) p := by
    refine fun rateHz => ends_outside trivial (fun _ _ _ => ?_) fun fates isDone hfates hfails => ?_
    · exact ⟨rfl, rfl, refl p.process, rfl⟩
    · rw [hset fates hfates] at hfails
      cases hfails
  refine succeeds_bind (fun _ => trivial) (hforced _) fun _ q hq => .step trivial ?_
  exact ⟨hq.source, hq.status, hq.process, hq.sources⟩

/-- What comes after the rate of the source that follows. -/
theorem ends_prepareAdvancedSourceRate {k : Unit → Act α} (h : RateIsSet allowed p ∨ Settled p)
    (hk : ∀ q, Undisturbed p q → Ends allowed EndsSettled (k ()) q) :
    Ends allowed EndsSettled (prepareAdvancedSourceRate source >>= k) p := by
  rcases h with hset | hsettled
  · have hprepared : Ends allowed (Succeeds fun _ q => Undisturbed p q)
        (prepareAdvancedSourceRate source) p :=
      succeeds_attempt (fun _ => trivial) (succeeds_applyAdaptiveRateForEvent hset)
        fun _ _ hq => hq
    exact succeeds_bind (fun _ => trivial) hprepared fun _ q hq => hk q hq
  · -- mpv has gone on to what is shown, so a rate that fails changes nothing
    exact (undisturbed_prepareAdvancedSourceRate p).seq (fun _ q hq => hk q hq)
      (fun _ _ hq => hsettled.kept hq) fun _ _ => trivial

/-- A change of the queue that is possible is made. -/
theorem succeeds_changeQueue {change : PlaybackQueueContext → Except String PlaybackQueueContext}
    {queue : PlaybackQueueContext} (h : change p.queue = .ok queue) :
    Ends allowed (Succeeds fun _ q => q = { p with queue }) (changeQueue change) p := by
  refine .bind (.step trivial ?_)
  simp only [h]
  rfl

/-- The source that mpv has is published. -/
theorem endsSettled_alignAndPublishAdvancedSource (h : Sound p) (hplays : p.process.Plays source) :
    Ends allowed EndsSettled (alignAndPublishAdvancedSource source) p := by
  obtain ⟨-, url, hfile, -⟩ := id hplays
  have hparsed : ∃ parsed, source.parsed = .ok parsed := by
    rw [Source.IsFile, Source.playbackUrl] at hfile
    cases hparsed : source.parsed with
    | error e =>
      rw [hparsed] at hfile
      cases hfile
    | ok parsed => exact ⟨parsed, rfl⟩
  obtain ⟨parsed, hparsed⟩ := hparsed
  obtain ⟨aligned, haligned⟩ := h.parsed.align hparsed
  have hqueue :
      Ends allowed (Succeeds fun _ q => Undisturbed p q) (alignQueueToSource source) p := by
    refine (succeeds_changeQueue haligned).mono fun exit q hq => ?_
    cases exit with
    | returned _ =>
      obtain rfl := hq
      exact ⟨rfl, rfl, refl p.process, PlaybackQueueContext.alignToSource_sources haligned⟩
    | failed e => exact hq
    | died => trivial
  refine succeeds_bind (fun _ => trivial) hqueue fun _ q hq => .step trivial ?_
  exact (h.kept hq).shows (hplays.kept hq.process) rfl rfl

theorem ends_startAdvancedSource (h : Sound p)
    (hallowed : ∀ fates, allowed fates → OnlyLoadsFail fates)
    (hsafe : LoadIsSafe allowed source p) :
    Ends allowed (fun exit q => Sound q ∧
      match exit with
      | .returned _ => q.process.Plays source
      | .failed _ => q.process.current = none
      | .died => True) (startAdvancedSource source) p := by
  refine .bind (ends_ofExcept ?_)
  cases hurl : source.playbackUrl with
  | error e =>
    refine ⟨h, ?_⟩
    rcases hsafe with ⟨hidle, -⟩ | ⟨⟨url, hfile⟩, -⟩
    · exact hidle
    · rw [Source.IsFile, hurl] at hfile
      cases hfile
  | ok url =>
    refine ends_withProcess ⟨h, trivial⟩ fun fates hfates => ?_
    have hdone : fates .advance (.setPaused false) = .done := (hallowed fates hfates).done (by simp)
    refine (ProcessCall.leaves_start h.isRunning hdone).mono fun result q hstarts => ?_
    refine ⟨⟨hstarts.isRunning h.isRunning, h.parsed⟩, ?_⟩
    cases result with
    | ok _ => exact ⟨hstarts.2, url, hurl, hstarts.1.current⟩
    | error e =>
      rcases hsafe with ⟨hidle, hsafe⟩ | ⟨-, hsafe⟩
      · rcases hstarts with ⟨hlate, -⟩ | ⟨-, rfl⟩
        · exact absurd hlate (hsafe fates hfates)
        · exact hidle
      · rcases hstarts with ⟨hlate, -⟩ | ⟨hundone, -⟩
        · rw [hsafe fates hfates] at hlate
          cases hlate
        · rw [hsafe fates hfates] at hundone
          cases hundone

theorem LoadIsSafe.kept {q : PlaybackController} (h : LoadIsSafe allowed source p)
    (hkept : Undisturbed p q) : LoadIsSafe allowed source q := by
  rw [LoadIsSafe, hkept.process.current]
  exact h

/-- A load that fails leaves mpv idle, which is shown as an error. -/
theorem endsSettled_loadAdvancedSource (h : Sound p)
    (hallowed : ∀ fates, allowed fates → OnlyLoadsFail fates)
    (hrate : RateIsSet allowed p ∨ Settled p) (hsafe : LoadIsSafe allowed source p) :
    Ends allowed EndsSettled (loadAdvancedSource source) p := by
  refine ends_prepareAdvancedSourceRate hrate fun q hq => ?_
  refine .handle (ends_startAdvancedSource (h.kept hq) hallowed (hsafe.kept hq)) (fun _ r hr => ?_)
    (fun _ r hr => ?_) fun _ _ => trivial
  · exact endsSettled_alignAndPublishAdvancedSource hr.1 hr.2
  · have hpublished : ∀ message t, Undisturbed r t →
        Ends allowed EndsSettled (update (·.setErrorState message)) t := fun message t ht =>
      .step trivial ((hr.1.kept ht).settled (ht.process.current.trans hr.2)
        fun hstatus => nomatch hstatus)
    refine .handle (undisturbed_resetAdaptiveAfterEventFailure r) (fun _ t ht => ?_)
      (fun _ t ht => ?_) fun _ _ => trivial
    · exact hpublished _ t ht
    · exact hpublished _ t ht

theorem endsSettled_publishEnded (h : Sound p) (hidle : p.process.current = none) :
    Ends allowed EndsSettled publishEnded p :=
  .step trivial (h.settled hidle fun hstatus => nomatch hstatus)

/-- Where nothing was appended, mpv is idle already. -/
theorem ends_stopAppendedSource {appended : Option String} {k : Unit → Act α} (h : Sound p)
    (hallowed : ∀ fates, allowed fates → OnlyLoadsFail fates)
    (hidle : appended = none → p.process.current = none)
    (hk : ∀ q, Sound q → q.process.current = none → Ends allowed EndsSettled (k ()) q) :
    Ends allowed EndsSettled (stopAppendedSource appended >>= k) p := by
  refine succeeds_bind (P := fun _ q => Sound q ∧ q.process.current = none) (fun _ => trivial) ?_
    fun _ q hq => hk q hq.1 hq.2
  refine .ite (fun hnone => ⟨h, hidle (Option.isNone_iff_eq_none.mp hnone)⟩) fun _ => ?_
  have hstopped : Ends allowed (Succeeds fun _ q => Sound q ∧ q.process.current = none)
      (withProcess .stopAppended .stop) p := by
    refine ends_withProcess trivial fun fates hfates => .bind (.remember ?_)
    exact .command_of_done h.isRunning ((hallowed fates hfates).done (by simp))
      ⟨⟨h.isRunning, h.parsed⟩, rfl⟩
  exact succeeds_attempt (fun _ => trivial) hstopped fun _ _ hq => hq

/-- What is changed of what is published without a change of the source and the status. -/
theorem endsSettled_update {change : PlaybackSessionState → PlaybackSessionState} (h : Settled p)
    (hsource : ∀ state, (change state).source = state.source)
    (hstatus : ∀ state, (change state).status = state.status) :
    Ends allowed EndsSettled (update change) p :=
  endsSettled_of_undisturbed h (undisturbed_update hsource hstatus)

theorem endsSettled_handleEndedEvent (h : Sound p)
    (hallowed : ∀ fates, allowed fates → OnlyLoadsFail fates) (hcalm : CalmEnd allowed p)
    (hlive : shouldReconnect p = false) (hpaused : p.process.isPaused = false) :
    Ends allowed EndsSettled handleEndedEvent p := by
  refine ends_state trivial (.bind (ends_withProcess trivial fun fates _ => ?_))
  -- the client has forgotten what it appended; nothing else has changed
  have htaken : Undisturbed p { p with process := { p.process with appended := none } } :=
    ⟨rfl, rfl, ⟨rfl, rfl, rfl⟩, rfl⟩
  have hsound := h.kept htaken
  have hrate : p.sourceAfterEnd ≠ none → RateIsSet allowed p ∨
      Settled { p with process := { p.process with appended := none } } := by
    intro hfollows
    refine (hcalm.rate hlive hfollows).imp_right fun hfits => ?_
    exact (Settled.mk ⟨h, hfits.1⟩ hfits.2).kept htaken
  have hload : ∀ source, p.sourceAfterEnd = some source → ¬p.TakesAppended source →
      Ends allowed EndsSettled (loadAdvancedSource source)
        { p with process := { p.process with appended := none } } := by
    intro source hsource hloads
    have hfollows : p.sourceAfterEnd ≠ none := fun hnone => nomatch hnone ▸ hsource
    exact endsSettled_loadAdvancedSource hsound hallowed (hrate hfollows)
      ((hcalm.loaded hlive source hsource hloads).kept htaken)
  change Ends allowed EndsSettled (ite _ _ _) _
  refine .ite (fun hstop => ?_) fun hgoes => .ite (fun hrepeat => ?_) fun hnext => ?_
  · have hnone : p.sourceAfterEnd = none := by
      rw [PlaybackController.sourceAfterEnd, if_pos hstop]
    refine ends_stopAppendedSource hsound hallowed (fun hempty =>
      hcalm.stopping hlive hnone (.inl hempty)) fun q hq hidle => ?_
    exact .step trivial (hq.settled hidle fun hstatus => nomatch hstatus)
  · have hrepeats : p.repeatsCurrent = true := by
      rw [PlaybackController.repeatsCurrent, Bool.and_eq_true, decide_eq_true_eq]
      exact ⟨hrepeat.1, Bool.not_eq_true' _ ▸ Bool.eq_false_of_not_eq_true hrepeat.2⟩
    have hafter : p.sourceAfterEnd = p.state.source := by
      rw [PlaybackController.sourceAfterEnd, if_neg hgoes, if_pos hrepeats]
    refine ends_state trivial ?_
    cases hsource : p.state.source with
    | none =>
      rw [hsource] at hafter
      exact endsSettled_publishEnded hsound (hcalm.stopping hlive hafter (.inr hsource))
    | some source =>
      rw [hsource] at hafter
      refine endsIn_bind (hload source hafter fun htakes => ?_) fun repeated q hq =>
        .ite (fun _ => hq) fun _ => endsSettled_update hq (fun _ => rfl) fun _ => rfl
      rw [htakes.1] at hrepeats
      cases hrepeats
  · have hrepeats : p.repeatsCurrent = false := by
      rw [PlaybackController.repeatsCurrent, Bool.and_eq_false_iff, decide_eq_false_iff_not]
      by_cases honce : p.state.repeatMode = .once
      · refine .inr ?_
        rw [Bool.not_eq_false']
        exact not_not.mp fun hexternal => hnext ⟨honce, hexternal⟩
      · exact .inl honce
    have hafter : p.sourceAfterEnd =
        p.queue.adjacentSource .next (p.state.repeatMode = .loop) := by
      rw [PlaybackController.sourceAfterEnd, if_neg hgoes, hrepeats, if_neg Bool.false_ne_true]
    refine ends_reading trivial ?_
    cases hsource : p.queue.adjacentSource .next (p.state.repeatMode = .loop) with
    | none =>
      rw [hsource] at hafter
      refine ends_stopAppendedSource hsound hallowed (fun hempty =>
        hcalm.stopping hlive hafter (.inl hempty)) fun q hq hidle => ?_
      exact endsSettled_publishEnded hq hidle
    | some source =>
      rw [hsource] at hafter
      have hfollows : p.sourceAfterEnd ≠ none := fun hnone => nomatch hnone ▸ hafter
      refine .ite (fun htakes => ?_) fun hloads => hload source hafter fun htakes => hloads htakes.2
      refine ends_prepareAdvancedSourceRate (hrate hfollows) fun q hq => ?_
      have hcurrent := hcalm.appended hlive source hafter ⟨hrepeats, htakes⟩
      have hhas : p.process.Has source := by
        obtain ⟨url, hurl⟩ := Option.isSome_iff_exists.mp htakes.1
        exact ⟨url, Source.isFile_of_toOption (htakes.2 ▸ hurl), hcurrent.trans hurl⟩
      have hsame : SameFile p.process q.process := trans_of SameFile htaken.process hq.process
      exact endsSettled_alignAndPublishAdvancedSource (hsound.kept hq)
        ⟨hsame.isPaused.trans hpaused, hhas.kept hsame⟩

/-! ### The reports -/

/-- An interruption that a reconnect is to mend. -/
theorem ends_startLiveReconnect {k : Bool → Act α}
    {Q : Exit String α → PlaybackController → Prop} (hcut : ∀ q, Q .died q)
    (hreconnects : shouldReconnect p = true → ∀ q, SameFile p.process q.process →
      q.queue.sources = p.queue.sources → q.state.status = .reconnecting →
      Ends allowed Q (k true) q)
    (hgoes : shouldReconnect p = false → Ends allowed Q (k false) p) :
    Ends allowed Q (startLiveReconnect >>= k) p := by
  refine ends_reading (hcut p) ?_
  cases hshould : shouldReconnect p with
  | false => exact hgoes hshould
  | true =>
    refine ends_step (hcut p) (ends_step (hcut _) ?_)
    exact hreconnects hshould _ (refl p.process) rfl rfl

/-- The end of a file: what plays next is shown, and nothing else plays. -/
theorem endsSettled_ended (h : Sound p) (hallowed : ∀ fates, allowed fates → OnlyLoadsFail fates)
    (hcalm : CalmEnd allowed p) (hpaused : p.process.isPaused = false) :
    Ends allowed EndsSettled (dispatchPlaybackEvent .ended) p := by
  refine ends_startLiveReconnect (fun _ => trivial) (fun hlive q hprocess hsources hstatus => ?_)
    fun hlive => ?_
  · have hsound : Sound q := by
      refine ⟨hprocess.isRunning.trans h.isRunning, ?_⟩
      rw [PlaybackQueueContext.AllParsed, hsources]
      exact h.parsed
    refine hsound.settled (hprocess.current.trans (hcalm.reconnecting hlive)) ?_
    rw [hstatus]
    exact PlaybackStatus.noConfusion
  · refine endsIn_attempt (endsIn_bind (endsSettled_handleEndedEvent h hallowed hcalm hlive hpaused)
      fun _ q hq => hq) fun result q hq => ?_
    cases result with
    | error e => exact hq
    | ok _ => exact hq

theorem endsInStep_handleMpvError (h : Sound p)
    (hallowed : ∀ fates, allowed fates → OnlyLoadsFail fates) :
    Ends allowed EndsInStep handleMpvError p := by
  have hfailed : ∀ message q, Sound q →
      Ends allowed EndsInStep (update (·.setErrorState message)) q :=
    fun message q hq => .step trivial (hq.inStep fun hstatus => nomatch hstatus)
  refine .handle (undisturbed_resetAdaptiveAfterEventFailure p) (fun _ q hq => ?_)
    (fun _ q hq => hfailed _ q (h.kept hq)) fun _ _ => trivial
  refine ends_state trivial ?_
  split_ifs with hdirect
  · cases q.state.selectedOutputDevice with
    | none => exact hfailed _ q (h.kept hq)
    | some device =>
      have hrunning : q.process.isRunning = true := (h.kept hq).isRunning
      have hstopped : Ends allowed (Succeeds fun _ r => Sound r)
          (withProcess .directError do
            .setPaused true
            .configureOutput .system) q := by
        refine ends_withProcess trivial fun fates hfates => ?_
        have hdone : ∀ call : Call, call ≠ .load ∧ call ≠ .append ∧ call ≠ .setForcedRate →
            fates .directError call = .done := fun _ => (hallowed fates hfates).done
        refine .bind (.command_of_done hrunning (hdone _ (by simp)) ?_)
        refine .bind
          (.attempt (.command_of_done hrunning (hdone .restoreDisableAudio (by simp)) ?_))
        refine .bind (.attempt (.command_of_done hrunning (hdone .restoreAudioDevice (by simp)) ?_))
        refine .bind (.attempt (.setExclusive_of_done (hdone .release (by simp)) ?_))
        refine .bind (.attempt (.command_of_done hrunning (hdone .restoreEnableAudio (by simp)) ?_))
        exact ⟨hrunning, (h.kept hq).parsed⟩
      exact succeeds_bind (fun _ => trivial) hstopped fun _ r hr =>
        .step trivial (hr.inStep fun hstatus => nomatch hstatus)
  · exact hfailed _ q (h.kept hq)

/-- A file that fails is shown as an error, or is reconnected. -/
theorem endsInStep_error {message : String} (h : Sound p)
    (hallowed : ∀ fates, allowed fates → OnlyLoadsFail fates) :
    Ends allowed EndsInStep (dispatchPlaybackEvent (.error message)) p := by
  refine ends_startLiveReconnect (fun _ => trivial) (fun _ q hprocess hsources hstatus => ?_)
    fun _ => ?_
  · have hsound : Sound q := by
      refine ⟨hprocess.isRunning.trans h.isRunning, ?_⟩
      rw [PlaybackQueueContext.AllParsed, hsources]
      exact h.parsed
    refine hsound.inStep ?_
    rw [hstatus]
    exact PlaybackStatus.noConfusion
  · refine endsIn_attempt (endsIn_bind (endsInStep_handleMpvError h hallowed)
      fun _ q hq => hq) fun result q hq => ?_
    cases result with
    | error e => exact hq
    | ok _ => exact hq

theorem undisturbed_appendNextSourceNearEnd {seconds : ℚ} :
    Stays allowed Undisturbed (appendNextSourceNearEnd seconds) := by
  have happended : ∀ url, (appendOnce url).Keeps SameFile := fun url =>
    .bind (fun _ p => refl p) fun _ => .ite .pure <|
      .bind (.command fun _ => ⟨rfl, rfl, rfl⟩) fun _ => .remember fun _ => ⟨rfl, rfl, rfl⟩
  refine .bind stays_state fun current => .ite .pure <| .bind stays_reading fun nextSource => ?_
  cases nextSource.bind fun source => source.playbackUrl.toOption with
  | none => exact .pure
  | some url =>
    refine .bind (.attempt (Moves.stays (moves_withProcess fun p fates _ => ?_))) fun _ => .pure
    exact ⟨rfl, rfl, happended url (fates .appendNext) p.process, rfl⟩

/-- A stream that plays again is shown as playing. -/
theorem endsInStep_handleLiveStableEvent (h : InStep p)
    (hreconnecting : p.state.status = .reconnecting → ∀ source, p.state.source = some source →
      p.process.Plays source) : Ends allowed EndsInStep handleLiveStableEvent p := by
  have hlive : ∀ f, Ends allowed EndsInStep (updateLive f) p := fun f =>
    endsInStep_of_undisturbed h undisturbed_updateLive
  refine ends_reading trivial (ends_reading trivial (.ite (fun _ => h) fun _ => ?_))
  refine ends_reading trivial (.ite (fun _ => h) fun _ => ends_state trivial ?_)
  refine .ite (fun hactive => ?_) fun _ => hlive _
  refine ends_reading trivial (inStep_bind h undisturbed_updateLive fun _ q hq hpq => ?_)
  refine .ite (fun hstatus => ?_) fun _ => hq
  obtain ⟨source, hsource⟩ : ∃ source, p.state.source = some source := by
    cases hsource : p.state.source with
    | none =>
      rw [hsource] at hactive
      cases hactive.2
    | some source => exact ⟨source, rfl⟩
  have hplays := (hreconnecting hstatus source hsource).kept hpq.process
  have hshown : Settled { q with state := { q.state with status := .playing, error := none } } :=
    hq.toSound.shows hplays (hpq.source.trans hsource) rfl
  exact ends_step trivial hshown.toInStep

theorem endsInStep_time {seconds : ℚ} (h : InStep p)
    (hreconnecting : p.state.status = .reconnecting → ∀ source, p.state.source = some source →
      p.process.Plays source) :
        Ends allowed EndsInStep (dispatchPlaybackEvent (.time seconds)) p := by
  have hrest : Stays allowed Undisturbed (do
      prepareForEvent (.time seconds)
      processMpvEvent (.time seconds)) := by
    refine .bind undisturbed_appendNextSourceNearEnd fun _ => .bind (.attempt ?_) fun result => ?_
    · exact .ite (.bind (undisturbed_update (fun _ => rfl) fun _ => rfl) fun _ => .pure) .pure
    · cases result with
      | error e => exact .pure
      | ok _ => exact .ite undisturbed_markPlayerStable .pure
  refine endsIn_bind (.ite (fun _ => endsInStep_handleLiveStableEvent h hreconnecting) fun _ => h)
    fun _ q hq => ?_
  exact endsInStep_of_undisturbed hq hrest

theorem undisturbed_handleLoadBoundary {loadRevision : ℕ} :
    Stays allowed Undisturbed (handleLoadBoundary loadRevision) := by
  refine .bind stays_reading fun _ => .ite .pure <| .bind ?_ fun _ => undisturbed_updateLive
  exact .bind stays_reading fun _ => .ite .pure <| .bind stays_reading fun _ =>
    .ite undisturbed_updateLive .pure

end End

/-! ### Runs -/

/-- What the listener asks, or what mpv reports. -/
inductive Happening
  | asks (input : Input) (fates : List Fates)
  | reports (event : MpvEvent) (fates : List Fates)

namespace Happening

/-- Playing, pausing and stopping, the Queue, and what follows a source. -/
def asksToPlay : Input → Bool
  | .play _ | .pause | .stop | .next | .previous | .syncQueueContext _ _ _ | .toggleShuffle _
  | .cycleRepeatMode | .setStopAfterCurrent _ => true
  | _ => false

def fates : Happening → List Fates
  | asks _ fates | reports _ fates => fates

end Happening

/-- mpv goes on to its next entry when a file ends or fails. -/
def PlaybackController.before (p : PlaybackController) (event : MpvEvent) : PlaybackController :=
  if event.isInterruption then p.moved .mpvAdvances else p

/-- Each happening is handled completely before the next. -/
def happens (p : PlaybackController) : Happening → Option PlaybackController
  | .asks input fates => p.handled input.program fates
  | .reports event fates => (p.before event).handled (dispatchPlaybackEvent event) fates

/-- What mpv can report of what it plays. A load boundary is the client's own report. -/
def MpvProcess.CanReport (process : MpvProcess) : MpvEvent → Prop
  | .time _ | .ended => process.current ≠ none ∧ process.isPaused = false
  | .error _ => process.current ≠ none
  | .loadBoundary _ => True
  | _ => False

/-- Nothing but the commands that play and the reports of mpv happens, and nothing but the
rates and the loads fails. -/
def CanHappen (p : PlaybackController) (happening : Happening) : Prop :=
  (∀ fates ∈ happening.fates, OnlyLoadsFail fates) ∧
    match happening with
    | .asks input _ => Happening.asksToPlay input = true
    | .reports event _ => p.process.CanReport event

/-- Playing goes on with what mpv has, and what follows the end of a file is calm. -/
def IsCalmHappening (p : PlaybackController) : Happening → Prop
  | .asks (.play none) _ => p.state.status ≠ .ended →
      ∀ source, p.state.source = some source → p.process.Has source
  | .reports (.time _) _ => p.state.status = .reconnecting →
      ∀ source, p.state.source = some source → p.process.Has source
  | .reports .ended fates => CalmEnd (· ∈ fates) (p.moved .mpvAdvances)
  | _ => True

/-- A player that shows nothing and plays nothing, whatever its output is. -/
structure IsSilent (p : PlaybackController) : Prop where
  isRunning : p.process.isRunning = true
  current : p.process.current = none
  playlist : p.process.playlist = []
  appended : p.process.appended = none
  source : p.state.source = none
  status : p.state.status = .idle
  queue : p.queue = .empty

/-- One step of a run. -/
def HappensStep (p : PlaybackController) (happening : Happening) (q : PlaybackController) : Prop :=
  happens p happening = some q ∧ CanHappen p happening

def CalmHappensStep (p : PlaybackController) (happening : Happening) (q : PlaybackController) :
    Prop :=
  HappensStep p happening q ∧ IsCalmHappening p happening

/-- What is shown as playing plays, and after the end of a file nothing unseen plays. -/
def ShowsWhatPlays (step : PlaybackController → Happening → PlaybackController → Prop)
    (p : PlaybackController) : Prop :=
  ShowsPlaying p ∧ ∀ fates q, step p (.reports .ended fates) q → NothingUnseen q

section Runs

variable {p q : PlaybackController}

theorem endsInStep_asks {allowed : Fates → Prop} {input : Input} (h : InStep p)
    (hallowed : ∀ fates, allowed fates → OnlyLoadsFail fates)
    (hasks : Happening.asksToPlay input = true)
    (hresume : input = .play none → p.state.status ≠ .ended →
      ∀ source, p.state.source = some source → p.process.Has source) :
    Ends allowed EndsInStep input.program p := by
  have hupdate : ∀ change : PlaybackSessionState → PlaybackSessionState,
      (∀ state, (change state).source = state.source) →
      (∀ state, (change state).status = state.status) →
      Ends allowed EndsInStep (done (update change)) p := fun change hsource hstatus =>
    endsIn_done (endsInStep_of_undisturbed h (undisturbed_update hsource hstatus))
  cases input with
  | play source =>
    exact endsIn_done (endsInStep_play h hallowed fun hnone => hresume (congrArg Input.play hnone))
  | pause => exact endsIn_done (endsInStep_pause h)
  | stop => exact endsIn_done (endsInStep_stop h)
  | next => exact endsIn_done (endsInStep_navigate h hallowed)
  | previous => exact endsIn_done (endsInStep_navigate h hallowed)
  | syncQueueContext random sources currentIndex =>
    exact endsIn_done (endsInStep_syncQueueContext h)
  | toggleShuffle random =>
    exact endsIn_done (endsInStep_of_undisturbed h undisturbed_toggleShuffle)
  | cycleRepeatMode => exact hupdate _ (fun _ => rfl) fun _ => rfl
  | setStopAfterCurrent isEnabled => exact hupdate _ (fun _ => rfl) fun _ => rfl
  | _ => cases hasks

theorem Sound.advances (h : Sound p) : Sound (p.moved .mpvAdvances) := ⟨h.isRunning, h.parsed⟩

/-- The end of a file that is calm leaves nothing unseen. -/
theorem Settled.of_ended {fates : List Fates} (h : InStep p)
    (hstep : CalmHappensStep p (.reports .ended fates) q) : Settled q := by
  obtain ⟨⟨hhappens, hfates, hcan⟩, hcalm⟩ := hstep
  have hends : Ends (· ∈ fates) EndsSettled (dispatchPlaybackEvent .ended)
      (p.moved .mpvAdvances) :=
    endsSettled_ended h.toSound.advances hfates hcalm hcan.2
  exact handled_of_ends hhappens (fun f hf => hf) hends (fun _ hr => hr) fun _ _ hr => hr

theorem InStep.step {happening : Happening} (h : InStep p)
    (hstep : CalmHappensStep p happening q) : InStep q := by
  obtain ⟨⟨hhappens, hfates, hcan⟩, hcalm⟩ := id hstep
  have hended : ∀ {program : Act Unit} {start : PlaybackController},
      start.handled program happening.fates = some q →
      Ends (· ∈ happening.fates) EndsInStep program start → InStep q :=
    fun hhandled hends => handled_of_ends hhandled (fun f hf => hf) hends (fun _ hr => hr)
      fun _ _ hr => hr
  cases happening with
  | asks input fates =>
    refine hended hhappens (endsInStep_asks h hfates hcan fun hinput => ?_)
    subst hinput
    exact hcalm
  | reports event fates =>
    cases event with
    | time seconds =>
      refine hended hhappens (endsInStep_time h fun hstatus source hsource => ?_)
      exact ⟨hcan.2, hcalm hstatus source hsource⟩
    | ended => exact (Settled.of_ended h hstep).toInStep
    | error message => exact hended hhappens (endsInStep_error h.toSound.advances hfates)
    | loadBoundary loadRevision =>
      exact hended hhappens (endsInStep_of_undisturbed h undisturbed_handleLoadBoundary)
    | _ => exact hcan.elim

theorem IsSilent.inStep (h : IsSilent p) : InStep p where
  isRunning := h.isRunning
  parsed := by
    rw [PlaybackQueueContext.AllParsed, h.queue]
    exact fun source hsource => absurd hsource List.not_mem_nil
  shown hplaying := by
    rw [h.status] at hplaying
    cases hplaying

end Runs

/-- Some run of calm happenings leads here. -/
def ReachableCalmHeard : PlaybackController → Prop :=
  Transition.Reachable IsSilent CalmHappensStep

/-- In every calm run, what is shown is what mpv plays. -/
theorem shown_is_heard {p : PlaybackController} (h : ReachableCalmHeard p) :
    ShowsWhatPlays CalmHappensStep p := by
  have hinStep : InStep p :=
    h.invariant (fun _ hsilent => hsilent.inStep) fun _ _ _ hp hstep => hp.step hstep
  exact ⟨hinStep.shown, fun _ _ hstep => (Settled.of_ended hinStep hstep).unseen⟩

/-! ### Playing on after a file that failed -/

/-- Some run leads here. -/
def ReachableHeard : PlaybackController → Prop := Transition.Reachable IsSilent HappensStep

def silent : PlaybackController := .started none false []

theorem silent_isSilent : IsSilent silent := ⟨rfl, rfl, rfl, rfl, rfl, rfl, rfl⟩

/-- Nothing fails. -/
def wellDone : List Fates := List.replicate 20 fun _ _ => .done

theorem onlyLoadsFail_wellDone : ∀ fates ∈ wellDone, OnlyLoadsFail fates := by
  intro fates hfates site call _ _ _
  rw [List.eq_of_mem_replicate hfates]

def playTrack : Happening := .asks (.play (some onlyTrack)) wellDone

def trackFails : Happening := .reports (.error "The file could not be read.") wellDone

def playOn : Happening := .asks (.play none) wellDone

/-- The file fails, and playing goes on without one. -/
theorem playing_unheard : ¬∀ p, ReachableHeard p → ShowsWhatPlays HappensStep p := by
  intro h
  have hplayed : (happens silent playTrack).map (·.process.current.isSome) = some true := by
    decide +kernel
  have hresumed : (((happens silent playTrack).bind (happens · trackFails)).bind
      (happens · playOn)).map (fun p => (p.state.status, p.process.current)) =
        some (.playing, none) := by
    decide +kernel
  obtain ⟨r, hr, hshown⟩ := Option.map_eq_some_iff.mp hresumed
  obtain ⟨q, hq, hqr⟩ := Option.bind_eq_some_iff.mp hr
  obtain ⟨p, hp, hpq⟩ := Option.bind_eq_some_iff.mp hq
  rw [hp] at hplayed
  have hfails : CanHappen p trackFails :=
    ⟨onlyLoadsFail_wellDone, Option.isSome_iff_ne_none.mp (Option.some.inj hplayed)⟩
  have hreached : ReachableHeard r := ⟨silent, [playTrack, trackFails, playOn], silent_isSilent,
    .cons ⟨hp, onlyLoadsFail_wellDone, rfl⟩
      (.cons ⟨hpq, hfails⟩ (.cons ⟨hqr, onlyLoadsFail_wellDone, rfl⟩ (.nil r)))⟩
  obtain ⟨hstatus, hcurrent⟩ := Prod.mk.inj hshown
  obtain ⟨source, -, -, url, -, hfile⟩ := (h r hreached).1 hstatus
  rw [hcurrent] at hfile
  cases hfile

def nextTrack : Source :=
  { onlyTrack with parsed := .ok ⟨"track-2", "http://127.0.0.1/track-2", some 60000⟩ }

def queueBoth : Happening :=
  .asks (.syncQueueContext (fun _ => none) [onlyTrack, nextTrack] (some 0)) wellDone

def nearEnd : Happening := .reports (.time 59) wellDone

def trackEnds : Happening := .reports .ended wellDone

/-- The end of the track is calm where mpv goes on to the entry that the client remembers. -/
theorem calmEnd_nextTrack {p : PlaybackController} (hlive : shouldReconnect p = false)
    (hfollows : p.sourceAfterEnd = some nextTrack)
    (hcurrent : p.process.current = p.process.appended)
    (htakes : p.TakesAppended nextTrack) : CalmEnd (· ∈ wellDone) p where
  reconnecting h := nomatch hlive.symm.trans h
  stopping _ h := nomatch hfollows.symm.trans h
  rate _ _ := .inl fun _ _ _ hfates => congrFun₂ (List.eq_of_mem_replicate hfates) _ _
  appended _ _ _ _ := hcurrent
  loaded _ _ hsource hnot :=
    absurd (Option.some.inj (hfollows.symm.trans hsource) ▸ htakes) hnot

/-- The entry that was appended follows the track. -/
theorem shown_is_heard_track :
    ∃ p, ((((happens silent queueBoth).bind (happens · playTrack)).bind (happens · nearEnd)).bind
        (happens · trackEnds)) = some p ∧
      p.state.source = some nextTrack ∧ p.state.status = .playing ∧
      ShowsWhatPlays CalmHappensStep p := by
  have hended : ((((happens silent queueBoth).bind (happens · playTrack)).bind
      (happens · nearEnd)).bind (happens · trackEnds)).map
        (fun p => (p.state.source, p.state.status)) = some (some nextTrack, .playing) := by
    decide +kernel
  obtain ⟨s, hs, hshown⟩ := Option.map_eq_some_iff.mp hended
  obtain ⟨r, hr, hrs⟩ := Option.bind_eq_some_iff.mp hs
  obtain ⟨q, hq, hqr⟩ := Option.bind_eq_some_iff.mp hr
  obtain ⟨p, hp, hpq⟩ := Option.bind_eq_some_iff.mp hq
  have hplays : (((happens silent queueBoth).bind (happens · playTrack)).map
      fun p => (p.state.status, p.process.current.isSome, p.process.isPaused)) =
        some (.playing, true, false) := by
    decide +kernel
  have hnear : ((((happens silent queueBoth).bind (happens · playTrack)).bind
      (happens · nearEnd)).map fun p => (p.process.current.isSome, p.process.isPaused)) =
        some (true, false) := by
    decide +kernel
  have hadvances : ((((happens silent queueBoth).bind (happens · playTrack)).bind
      (happens · nearEnd)).map (·.moved .mpvAdvances)).map
        (fun p => (shouldReconnect p, p.sourceAfterEnd, p.process.current, p.repeatsCurrent,
          p.process.appended)) =
        some (false, some nextTrack, nextTrack.playbackUrl.toOption, false,
          nextTrack.playbackUrl.toOption) := by
    decide +kernel
  rw [hq, Option.map_some, Option.some.injEq, Prod.mk.injEq, Prod.mk.injEq] at hplays
  rw [hr, Option.map_some, Option.some.injEq, Prod.mk.injEq] at hnear
  simp only [hr, Option.map_some, Option.some.injEq, Prod.mk.injEq] at hadvances
  obtain ⟨hlive, hfollows, hcurrent, honce, happended⟩ := hadvances
  have htakes : (r.moved .mpvAdvances).TakesAppended nextTrack :=
    ⟨honce, by rw [happended]; decide, happended⟩
  have hcalm := calmEnd_nextTrack hlive hfollows (hcurrent.trans happended.symm) htakes
  refine ⟨s, hs, (Prod.mk.inj hshown).1, (Prod.mk.inj hshown).2, shown_is_heard
    ⟨silent, [queueBoth, playTrack, nearEnd, trackEnds], silent_isSilent,
      .cons ⟨⟨hp, onlyLoadsFail_wellDone, rfl⟩, trivial⟩
        (.cons ⟨⟨hpq, onlyLoadsFail_wellDone, rfl⟩, trivial⟩
          (.cons ⟨⟨hqr, onlyLoadsFail_wellDone, ?_, hplays.2.2⟩, ?_⟩
            (.cons ⟨⟨hrs, onlyLoadsFail_wellDone, ?_, hnear.2⟩, hcalm⟩ (.nil s))))⟩⟩
  · exact Option.isSome_iff_ne_none.mp hplays.2.1
  · exact fun h => nomatch hplays.1.symm.trans h
  · exact Option.isSome_iff_ne_none.mp hnear.1

end Harmony.Player
