/-
# Where the system's rate is forced

The controller of the rate forces it only while it is enabled, and it is enabled only once
the cleanup marker is on disk; the marker goes only after the rate was reset. The session
shows Adaptive System Rate wherever the rate is forced, unless a reset fails while the
mode is given up, or mpv is recovered while the controller is still enabled in another
mode: a failed rate of the decoder gives up the mode without disabling the controller.
-/

import Harmony.Player.Recovery
import Harmony.Player.Routes

namespace Harmony.Player

open Thread Crash

/-! ### What is kept -/

/-- Where the rate is forced, the cleanup marker is on disk. -/
def Marked (p : PlaybackController) : Prop := p.forcedRate ≠ none → p.isMarked = true

/-- Where the rate is forced, the session shows Adaptive System Rate. -/
def Shown (p : PlaybackController) : Prop :=
  p.forcedRate ≠ none → p.state.outputMode = .adaptiveSystemRate

/-- Only an enabled controller forces the rate, and it has its marker on disk. -/
structure RateHeld (p : PlaybackController) : Prop where
  isEnabled : p.forcedRate ≠ none → p.adaptiveSystemRate.isEnabled = true
  isMarked : p.adaptiveSystemRate.isEnabled = true → p.isMarked = true

theorem RateHeld.marked {p : PlaybackController} (h : RateHeld p) : Marked p :=
  fun hforced => h.isMarked (h.isEnabled hforced)

/-- The rate is held, and it is forced in Adaptive System Rate only. -/
structure RateSafe (p : PlaybackController) : Prop extends RateHeld p where
  shown : Shown p

theorem RateHeld.safe {p : PlaybackController} (h : RateHeld p) (hforced : p.forcedRate = none) :
    RateSafe p :=
  ⟨h, fun hne => absurd hforced hne⟩

/-- The mode and the controller are what they were, and a rate that is forced was forced
or follows a source. -/
structure RateKept (p q : PlaybackController) : Prop where
  outputMode : q.state.outputMode = p.state.outputMode
  isEnabled : q.adaptiveSystemRate.isEnabled = p.adaptiveSystemRate.isEnabled
  isMarked : q.isMarked = p.isMarked
  forced : q.forcedRate ≠ none → p.forcedRate ≠ none ∨
    p.adaptiveSystemRate.isEnabled = true ∧ p.state.outputMode = .adaptiveSystemRate

instance : IsPreorder PlaybackController RateKept where
  refl _ := ⟨rfl, rfl, rfl, .inl⟩
  trans p q r h h' := by
    refine ⟨h'.outputMode.trans h.outputMode, h'.isEnabled.trans h.isEnabled,
      h'.isMarked.trans h.isMarked, fun hforced => ?_⟩
    rcases h'.forced hforced with hbefore | ⟨henabled, hmode⟩
    · exact h.forced hbefore
    · exact .inr ⟨h.isEnabled ▸ henabled, h.outputMode ▸ hmode⟩

variable {p q : PlaybackController} {rateHz : Option ℕ}

theorem RateHeld.kept (h : RateHeld p) (hkept : RateKept p q) :
    RateHeld q where
  isEnabled hforced := by
    rw [hkept.isEnabled]
    rcases hkept.forced hforced with hbefore | ⟨henabled, -⟩
    · exact h.isEnabled hbefore
    · exact henabled
  isMarked henabled := by
    rw [hkept.isMarked]
    exact h.isMarked (hkept.isEnabled ▸ henabled)

theorem RateSafe.kept (h : RateSafe p) (hkept : RateKept p q) :
    RateSafe q := by
  refine ⟨h.toRateHeld.kept hkept, fun hforced => ?_⟩
  rw [hkept.outputMode]
  rcases hkept.forced hforced with hbefore | ⟨-, hmode⟩
  · exact h.shown hbefore
  · exact hmode

theorem Spared.rateKept (h : Spared p q) : RateKept p q where
  outputMode := h.outputMode
  isEnabled := congrArg AdaptiveSystemRateState.isEnabled h.adaptiveSystemRate
  isMarked := h.isMarked
  forced hforced := .inl (h.forcedRate ▸ hforced)

/-! ### The controller of the rate -/

/-- The rate is eased: nothing is forced that was not, and the rest is what it was. -/
structure Eased (p q : PlaybackController) : Prop where
  rateOnly : RateOnly p q
  isEnabled : q.adaptiveSystemRate.isEnabled = p.adaptiveSystemRate.isEnabled
  isMarked : q.isMarked = p.isMarked
  forced : q.forcedRate ≠ none → p.forcedRate ≠ none

theorem Eased.rateKept (h : Eased p q) : RateKept p q where
  outputMode := congrArg PlaybackSessionState.outputMode h.rateOnly.state
  isEnabled := h.isEnabled
  isMarked := h.isMarked
  forced hforced := .inl (h.forced hforced)

namespace AdaptiveSystemRate

variable {allowed : Fates → Prop} {p : PlaybackController} {site : Site}

/-- A reset at this site can fail without having taken effect. -/
def CannotReset (allowed : Fates → Prop) (site : Site) : Prop :=
  ∃ fates, allowed fates ∧ fates site .setForcedRate = .fails false

/-- What a reset of the rate ends with. -/
def Resets (allowed : Fates → Prop) (site : Site) (p : PlaybackController) :
    Exit String Unit → PlaybackController → Prop
  | .returned _, q => Eased p q ∧ q.forcedRate = none
  | .failed _, q => Eased p q ∧ (q.forcedRate ≠ none → CannotReset allowed site)
  | .died, q => Eased p q

theorem ends_resetForceRate : Ends allowed (Resets allowed site p) (resetForceRate site) p := by
  have hsame : Eased p p := ⟨rfl, rfl, rfl, fun h => h⟩
  have hreset : Eased p { p with forcedRate := none } := ⟨rfl, rfl, rfl, fun h => absurd rfl h⟩
  refine .seq (Q := Resets allowed site p) (ends_outside hsame (fun _ _ _ => ⟨hreset, rfl⟩) ?_)
    (fun _ q hq => ?_) (fun _ _ hq => hq) fun _ hq => hq
  · intro fates isDone hfates hfails
    cases isDone with
    | true => exact ⟨hreset, fun h => absurd rfl h⟩
    | false => exact ⟨hsame, fun _ => ⟨fates, hfates, hfails⟩⟩
  · exact .step hq.1 ⟨⟨hq.1.rateOnly.remember, hq.1.isEnabled, hq.1.isMarked, hq.1.forced⟩, hq.2⟩

/-- Where the controller has nothing to reset, nothing is forced. -/
theorem ends_resetForRecovery (h : RateHeld p) :
    Ends allowed (Resets allowed site p) (resetForRecovery site) p := by
  have hsame : Eased p p := ⟨rfl, rfl, rfl, fun h => h⟩
  refine ends_reading hsame (.ite (fun hidle => ⟨hsame, ?_⟩) fun _ => ends_resetForceRate)
  by_contra hforced
  rw [h.isEnabled hforced] at hidle
  cases hidle.1

/-- What disabling the controller ends with. -/
def Disables (allowed : Fates → Prop) (p : PlaybackController) :
    Exit String Unit → PlaybackController → Prop
  | .returned _, q => RateOnly p q ∧ RateHeld q ∧ q.forcedRate = none
  | .failed _, q => Eased p q ∧ (q.forcedRate ≠ none → CannotReset allowed .disableAdaptive)
  | .died, q => RateOnly p q ∧ (q.forcedRate ≠ none → p.forcedRate ≠ none ∧ q.isMarked = p.isMarked)

theorem ends_disable_held (h : RateHeld p) :
    Ends allowed (Disables allowed p) (disable .disableAdaptive) p := by
  have hcut : ∀ q, Eased p q → Disables allowed p .died q :=
    fun q hq => ⟨hq.rateOnly, fun hforced => ⟨hq.forced hforced, hq.isMarked⟩⟩
  have hsame : Eased p p := ⟨rfl, rfl, rfl, fun h => h⟩
  refine ends_reading (hcut p hsame) (.ite (fun hidle => ?_) fun _ => ?_)
  · refine ⟨rfl, h, ?_⟩
    by_contra hforced
    rw [h.isEnabled hforced] at hidle
    cases hidle.1
  · refine .seq ends_resetForceRate (fun _ q hq => ?_) (fun _ _ hq => hq) fun q hq => hcut q hq
    -- nothing is forced from here on
    have hgone : ∀ r, RateOnly q r → r.forcedRate = none →
        RateOnly p r ∧ (r.forcedRate ≠ none → p.forcedRate ≠ none ∧ r.isMarked = p.isMarked) :=
      fun r hr hforced => ⟨trans_of RateOnly hq.1.rateOnly hr, fun hne => absurd hforced hne⟩
    refine .bind (ends_clearMarker (hgone q rfl hq.2) ?_
      fun _ _ _ _ _ => ⟨hq.1, fun hne => absurd hq.2 hne⟩)
    have hcleared : RateOnly q { q with isMarked := false, adaptiveSystemRate := .default } := rfl
    exact .step (hgone _ rfl hq.2) ⟨trans_of RateOnly hq.1.rateOnly hcleared,
      ⟨fun hne => absurd hq.2 hne, fun henabled => nomatch henabled⟩, hq.2⟩

/-- What enabling the controller ends with. -/
def Enables (p : PlaybackController) : Exit String Unit → PlaybackController → Prop
  | .returned _, q => RateOnly p q ∧ RateHeld q ∧ q.forcedRate = p.forcedRate ∧
      q.adaptiveSystemRate.isEnabled = true
  | _, q => RateOnly p q ∧ RateHeld q ∧ q.forcedRate = p.forcedRate

theorem ends_enable_held (h : RateHeld p) : Ends allowed (Enables p) (enable site) p := by
  have hmarked : RateHeld { p with isMarked := true } := ⟨h.isEnabled, fun _ => rfl⟩
  refine .bind (ends_outside ⟨rfl, h, rfl⟩ (fun _ _ _ => ?_) fun _ isDone _ _ => ?_)
  · exact .step ⟨rfl, hmarked, rfl⟩ ⟨rfl, ⟨fun _ => rfl, fun _ => rfl⟩, rfl, rfl⟩
  · cases isDone with
    | true => exact ⟨rfl, hmarked, rfl⟩
    | false => exact ⟨rfl, h, rfl⟩

/-- What following a source with the rate ends with. -/
def Follows (allowed : Fates → Prop) (site : Site) (p : PlaybackController) :
    Exit String Unit → PlaybackController → Prop
  | .failed _, q => RateOnly p q ∧ RateHeld q ∧
      (∃ fates, allowed fates ∧ fates site .setForcedRate ≠ .done) ∧
      (p.forcedRate = none → q.forcedRate ≠ none →
        ∃ fates, allowed fates ∧ fates site .setForcedRate = .fails true)
  | _, q => RateOnly p q ∧ RateHeld q

theorem ends_applySourceSampleRate_held (h : RateHeld p) :
    Ends allowed (Follows allowed site p) (applySourceSampleRate site rateHz) p := by
  refine ends_reading ⟨rfl, h⟩ (.ite (fun _ => ⟨rfl, h⟩) fun henabled => ?_)
  have hset : RateHeld { p with forcedRate := rateHz.filter (0 < ·) } :=
    ⟨fun _ => Bool.eq_true_of_not_eq_false henabled, h.isMarked⟩
  refine .bind (ends_outside ⟨rfl, h⟩ (fun _ _ _ => ?_) fun fates isDone hfates hfails => ?_)
  · exact .step ⟨rfl, hset⟩ ⟨rfl, hset.isEnabled, hset.isMarked⟩
  · have hundone : fates site .setForcedRate ≠ .done := by
      rw [hfails]
      exact fun heq => nomatch heq
    cases isDone with
    | true => exact ⟨rfl, hset, ⟨fates, hfates, hundone⟩, fun _ _ => ⟨fates, hfates, hfails⟩⟩
    | false =>
      exact ⟨rfl, h, ⟨fates, hfates, hundone⟩, fun hnone hforced => absurd hnone hforced⟩

/-- The rate follows a source where the mode is Adaptive System Rate, or the source has none. -/
theorem rateKept_applySourceSampleRate
    (h : rateHz.filter (0 < ·) ≠ none → p.adaptiveSystemRate.isEnabled = true →
      p.state.outputMode = .adaptiveSystemRate) :
    Ends allowed (fun _ q => RateKept p q) (applySourceSampleRate site rateHz) p := by
  refine ends_reading (refl p) (.ite (fun _ => refl p) fun hdisabled => ?_)
  have henabled : p.adaptiveSystemRate.isEnabled = true := Bool.eq_true_of_not_eq_false hdisabled
  have hset : RateKept p { p with forcedRate := rateHz.filter (0 < ·) } :=
    ⟨rfl, rfl, rfl, fun hforced => .inr ⟨henabled, h hforced henabled⟩⟩
  refine .bind (ends_outside (refl p) (fun _ _ _ => ?_) fun _ isDone _ _ => ?_)
  · exact .step hset ⟨rfl, rfl, rfl, hset.forced⟩
  · cases isDone with
    | true => exact hset
    | false => exact refl p

theorem rateKept_resetForRecovery : Moves allowed RateKept (resetForRecovery site) :=
  .bind moves_reading fun _ => .ite .pure <|
    .bind (moves_outside fun _ => ⟨rfl, rfl, rfl, fun hforced => absurd rfl hforced⟩) fun _ =>
      .step fun _ => ⟨rfl, rfl, rfl, .inl⟩

end AdaptiveSystemRate

/-- Playing keeps the rate. -/
theorem rateKept {allowed : Fates → Prop} : LeavesOutput allowed RateKept where
  spared _ _ h := h.rateKept
  sourceRate _ p := by
    refine ends_state (refl p) (.ite (fun _ => refl p) fun hmode => ?_)
    exact AdaptiveSystemRate.rateKept_applySourceSampleRate fun _ _ => not_not.mp hmode
  eventRate _ p := by
    refine ends_state (refl p) (.ite (fun _ => refl p) fun hmode => ?_)
    exact AdaptiveSystemRate.rateKept_applySourceSampleRate fun _ _ => not_not.mp hmode
  resetForRecovery _ := AdaptiveSystemRate.rateKept_resetForRecovery.stays

/-! ### The commands of the output -/

/-- Nothing but mpv is different. -/
def ProcessOnly (p q : PlaybackController) : Prop := q = { p with process := q.process }

instance : IsPreorder PlaybackController ProcessOnly where
  refl _ := rfl
  trans p q r hq hr := by
    rw [ProcessOnly] at hq hr ⊢
    rw [hr, hq]

theorem ProcessOnly.eased (h : ProcessOnly p q) :
    RateKept p q ∧ (q.forcedRate ≠ none → p.forcedRate ≠ none) := by
  rw [h]
  exact ⟨⟨rfl, rfl, rfl, .inl⟩, fun hforced => hforced⟩

section Output

variable {allowed : Fates → Prop} {p : PlaybackController} {α : Type} {q : PlaybackController}
  {site : Site} {fates : List Fates}

theorem stays_withProcess {action : ProcessCall α} :
    Stays allowed ProcessOnly (withProcess site action) :=
  Moves.stays (moves_withProcess fun _ _ _ => rfl)

/-- A rate that was forced by a failing call cannot be reset either. -/
def LosesRate (allowed : Fates → Prop) : Prop :=
  (∃ fates, allowed fates ∧ fates .adaptiveRate .setForcedRate = .fails true) ∧
    AdaptiveSystemRate.CannotReset allowed .disableAdaptive

theorem ends_disableAdaptive (h : RateHeld p) :
    Ends allowed (AdaptiveSystemRate.Disables allowed p) disableAdaptiveSystemRate p :=
  .handle (AdaptiveSystemRate.ends_disable_held h) (fun _ _ hq => hq) (fun _ _ hq => hq)
    fun _ hq => hq

theorem ends_enableController (h : RateHeld p) :
    Ends allowed (AdaptiveSystemRate.Enables p) enableAdaptiveController p := by
  have hsame : AdaptiveSystemRate.Enables p .died p := ⟨rfl, h, rfl⟩
  refine .bind (ends_outside hsame (fun _ _ _ => ?_) fun _ isDone _ _ => ?_)
  · exact .handle (AdaptiveSystemRate.ends_enable_held h) (fun _ _ hq => hq) (fun _ _ hq => hq)
      fun _ hq => hq
  · cases isDone <;> exact hsame

/-- What a way to Adaptive System Rate ends with. -/
def Adapts (allowed : Fates → Prop) (p : PlaybackController) :
    Exit String PlaybackSessionState → PlaybackController → Prop
  | .returned _, q => RateHeld q ∧ q.state.outputMode = .adaptiveSystemRate
  | .failed _, q => RateHeld q ∧ q.state.outputMode = p.state.outputMode ∧
      (p.forcedRate = none → q.forcedRate ≠ none → LosesRate allowed)
  | .died, q => Marked q ∧ q.state.outputMode = p.state.outputMode

/-- A failed setup gives the rate up, where the reset has an effect. -/
theorem ends_failAdaptiveSetup (h : RateHeld q)
    (hmode : q.state.outputMode = p.state.outputMode)
    (hforced : p.forcedRate = none → q.forcedRate ≠ none →
      ∃ fates, allowed fates ∧ fates .adaptiveRate .setForcedRate = .fails true) :
    Ends allowed (Adapts allowed p) failAdaptiveSetup q := by
  have hkept : ∀ r, RateOnly q r → r.state.outputMode = p.state.outputMode := by
    intro r hr
    rw [hr.state, hmode]
  refine .seq (ends_disableAdaptive h) (fun _ r hr => ?_) (fun _ r hr => ?_) fun r hr => ?_
  · have hgone : RateHeld r ∧ r.state.outputMode = p.state.outputMode := ⟨hr.2.1, hkept r hr.1⟩
    refine ends_step ⟨hr.2.1.marked, hgone.2⟩ ?_
    exact ⟨⟨hr.2.1.isEnabled, hr.2.1.isMarked⟩, hgone.2, fun _ hne => absurd hr.2.2 hne⟩
  · refine ⟨h.kept hr.1.rateKept, hkept r hr.1.rateOnly, fun hnone hne => ?_⟩
    exact ⟨hforced hnone (hr.1.forced hne), hr.2 hne⟩
  · refine ⟨fun hne => ?_, hkept r hr.1⟩
    obtain ⟨hbefore, hmarked⟩ := hr.2 hne
    rw [hmarked]
    exact h.marked hbefore

theorem ends_enableAdaptive (h : RateHeld p) :
    Ends allowed (Adapts allowed p) enableAdaptiveSystemRate p := by
  refine ends_state ⟨h.marked, rfl⟩ ?_
  refine .seq (ends_enableController h) (fun _ q hq => ?_) (fun _ q hq => ?_) fun q hq => ?_
  · -- the controller is enabled, and mpv is put on the system's output
    obtain ⟨honly, hheld, hforced, -⟩ := hq
    have hmode : q.state.outputMode = p.state.outputMode := by rw [honly.state]
    have hset : ∀ r, ProcessOnly q r → RateHeld r ∧ r.state.outputMode = p.state.outputMode ∧
        (p.forcedRate = none → r.forcedRate = none) := by
      intro r hr
      refine ⟨hheld.kept hr.eased.1, hr.eased.1.outputMode.trans hmode, fun hnone => ?_⟩
      by_contra hne
      exact hr.eased.2 hne (hforced.trans hnone)
    refine .handle (stays_withProcess q) (fun _ r hr => ?_) (fun _ r hr => ?_) fun r hr => ?_
    · obtain ⟨hrheld, hrmode, hrforced⟩ := hset r hr
      refine .handle (AdaptiveSystemRate.ends_applySourceSampleRate_held hrheld)
        (fun _ t ht => ?_) (fun _ t ht => ?_) fun t ht => ?_
      · have htmode : t.state.outputMode = p.state.outputMode := by rw [ht.1.state, hrmode]
        exact .step ⟨ht.2.marked, htmode⟩ ⟨⟨ht.2.isEnabled, ht.2.isMarked⟩, rfl⟩
      · have htmode : t.state.outputMode = p.state.outputMode := by rw [ht.1.state, hrmode]
        exact ends_failAdaptiveSetup ht.2.1 htmode fun hnone => ht.2.2.2 (hrforced hnone)
      · exact ⟨ht.2.marked, by rw [ht.1.state, hrmode]⟩
    · obtain ⟨hrheld, hrmode, hrforced⟩ := hset r hr
      exact ends_failAdaptiveSetup hrheld hrmode fun hnone hne => absurd (hrforced hnone) hne
    · obtain ⟨hrheld, hrmode, -⟩ := hset r hr
      exact ⟨hrheld.marked, hrmode⟩
  · refine ⟨hq.2.1, by rw [hq.1.state], fun hnone hne => absurd (hq.2.2.trans hnone) hne⟩
  · exact ⟨hq.2.1.marked, by rw [hq.1.state]⟩

/-- What a way back to an output ends with. -/
def Restores : Exit String OutputMode → PlaybackController → Prop
  | .returned mode, q => RateSafe q ∧ (q.forcedRate ≠ none → mode = .adaptiveSystemRate)
  | .failed _, q => RateSafe q
  | .died, q => Marked q ∧ Shown q

theorem RateSafe.restores {exit : Exit String OutputMode} (h : RateSafe q)
    (hforced : q.forcedRate = none) : Restores exit q := by
  cases exit with
  | returned mode => exact ⟨h, fun hne => absurd hforced hne⟩
  | failed e => exact h
  | died => exact ⟨h.marked, h.shown⟩

/-- Where nothing is forced, a change of mpv's output is safe. -/
theorem restores_of_stays {x : Act OutputMode} (hx : Stays allowed ProcessOnly x)
    (h : RateHeld p) (hforced : p.forcedRate = none) : Ends allowed Restores x p := by
  refine (hx p).mono fun exit q hq => ?_
  have hgone : q.forcedRate = none := by
    by_contra hne
    exact hq.eased.2 hne hforced
  exact ((h.kept hq.eased.1).safe hgone).restores hgone

theorem stays_restoreSafeSystemOutput : Stays allowed ProcessOnly restoreSafeSystemOutput :=
  .bind (.attempt stays_withProcess) fun _ => .pure

theorem stays_restoredOr {result : Except String Unit} {mode : OutputMode} :
    Stays allowed ProcessOnly (restoredOr result mode) := by
  cases result with
  | ok _ => exact .pure
  | error e => exact stays_restoreSafeSystemOutput

theorem ends_restoreOutput {before : PlaybackSessionState} (h : RateHeld p)
    (hforced : p.forcedRate = none) (hmode : p.state.outputMode = before.outputMode)
    (hkeeps : before.outputMode = .adaptiveSystemRate → ¬LosesRate allowed) :
    Ends allowed Restores (restoreOutputRoute before) p := by
  rw [restoreOutputRoute]
  cases hbefore : before.outputMode with
  | directAlsa =>
    refine restores_of_stays (.bind (.attempt ?_) fun _ => stays_restoredOr) h hforced
    cases before.selectedOutputDevice with
    | none => exact .fail
    | some device => exact stays_withProcess
  | system =>
    exact restores_of_stays (.bind (.attempt stays_withProcess) fun _ => stays_restoredOr) h hforced
  | adaptiveSystemRate =>
    have hadaptive : p.state.outputMode = .adaptiveSystemRate := hmode.trans hbefore
    refine .handle (ends_enableAdaptive h) (fun _ q hq => ?_) (fun _ q hq => ?_) fun q hq => ?_
    · exact ⟨⟨hq.1, fun _ => hq.2⟩, fun _ => rfl⟩
    · have hgone : q.forcedRate = none := by
        by_contra hne
        exact hkeeps hbefore (hq.2.2 hforced hne)
      exact restores_of_stays stays_restoreSafeSystemOutput hq.1 hgone
    · exact ⟨hq.1, fun _ => hq.2.trans hadaptive⟩

/-- A program ends with a rate that is safe, and is cut off where it is marked and shown. -/
abbrev EndsSafe {α : Type} : Exit String α → PlaybackController → Prop :=
  EndsIn RateSafe fun q => Marked q ∧ Shown q

theorem endsSafe_of_stays {x : Act α} (h : RateSafe p) (hx : Stays allowed RateKept x) :
    Ends allowed EndsSafe x p :=
  endsIn_of_stays (fun _ _ hp => hp.kept) (fun _ hp => ⟨hp.marked, hp.shown⟩) hx h

theorem RateSafe.processOnly (h : RateSafe p) (hq : ProcessOnly p q) :
    RateSafe q :=
  h.kept hq.eased.1

theorem endsSafe_handleDirectOutputFailure {before : PlaybackSessionState}
    {device : OutputDevice} (h : RateHeld p) (hforced : p.forcedRate = none)
    (hmode : p.state.outputMode = before.outputMode)
    (hkeeps : before.outputMode = .adaptiveSystemRate → ¬LosesRate allowed) :
    Ends allowed EndsSafe (handleDirectOutputFailure before device) p := by
  refine .seq (ends_restoreOutput h hforced hmode hkeeps) (fun mode q hq => ?_)
    (fun _ _ hq => hq) fun _ hq => hq
  have hpaused : Stays allowed ProcessOnly pauseAfterOutputFailure :=
    .bind (.attempt stays_withProcess) fun _ => .pure
  refine .seq (hpaused q) (fun _ r hr => ?_) (fun _ r hr => hq.1.processOnly hr) fun r hr => ?_
  · have hsafe : RateSafe r := hq.1.processOnly hr
    refine .step ⟨hsafe.marked, hsafe.shown⟩ ⟨⟨hsafe.isEnabled, hsafe.isMarked⟩, fun hne => ?_⟩
    exact hq.2 (hr.eased.2 hne)
  · exact ⟨(hq.1.processOnly hr).marked, (hq.1.processOnly hr).shown⟩

theorem rateKept_select {deviceId : String} :
    Stays allowed RateKept (OutputDeviceCatalog.select site deviceId) := by
  refine .bind (Moves.stays (.atomically fun p fates _ result q hrun => ?_)) fun _ => .ofExcept
  dsimp only at hrun
  split_ifs at hrun
  · exact (Prod.mk.inj (Option.some.inj hrun)).2 ▸ refl p
  · split at hrun
    · exact (Prod.mk.inj (Option.some.inj hrun)).2 ▸ refl p
    · split at hrun
      · exact (Prod.mk.inj (Option.some.inj hrun)).2 ▸ ⟨rfl, rfl, rfl, .inl⟩
      · exact (Prod.mk.inj (Option.some.inj hrun)).2 ▸ ⟨rfl, rfl, rfl, .inl⟩

/-- Where the controller could not be disabled, the mode is what it was. -/
theorem endsSafe_disableAdaptive {f : Unit → Act α} (h : RateSafe p)
    (hf : ∀ q, RateOnly p q → RateHeld q → q.forcedRate = none → Ends allowed EndsSafe (f ()) q) :
    Ends allowed EndsSafe (disableAdaptiveSystemRate >>= f) p := by
  refine .seq (ends_disableAdaptive h.toRateHeld) (fun _ q hq => hf q hq.1 hq.2.1 hq.2.2)
    (fun _ q hq => h.kept hq.1.rateKept) fun q hq => ⟨fun hne => ?_, fun hne => ?_⟩
  · obtain ⟨hbefore, hmarked⟩ := hq.2 hne
    rw [hmarked]
    exact h.marked hbefore
  · rw [hq.1.state]
    exact h.shown (hq.2 hne).1

theorem endsSafe_selectDirectAlsaOutput {deviceId : String} (h : RateSafe p)
    (hkeeps : p.state.outputMode = .adaptiveSystemRate → ¬LosesRate allowed) :
    Ends allowed EndsSafe (selectDirectAlsaOutput deviceId) p := by
  refine ends_state ⟨h.marked, h.shown⟩ ?_
  refine .seq (rateKept_select p) (fun device q hq => ?_) (fun _ q hq => h.kept hq)
    fun q hq => ⟨(h.kept hq).marked, (h.kept hq).shown⟩
  refine endsSafe_disableAdaptive (h.kept hq) fun r hr hheld hforced => ?_
  have hopen : Stays allowed ProcessOnly (openDirectOutput device p.state.source.isSome) :=
    .bind stays_withProcess fun _ => .ite .pure stays_withProcess
  have hsafe : ∀ t, ProcessOnly r t → RateSafe t ∧ t.forcedRate = none := by
    intro t ht
    refine ⟨(hheld.safe hforced).processOnly ht, ?_⟩
    by_contra hne
    exact ht.eased.2 hne hforced
  refine .handle (hopen r) (fun _ t ht => ?_) (fun _ t ht => ?_)
    fun t ht => ⟨(hsafe t ht).1.marked, (hsafe t ht).1.shown⟩
  · obtain ⟨htsafe, htforced⟩ := hsafe t ht
    exact .step ⟨htsafe.marked, htsafe.shown⟩
      ⟨⟨htsafe.isEnabled, htsafe.isMarked⟩, fun hne => absurd htforced hne⟩
  · obtain ⟨htsafe, htforced⟩ := hsafe t ht
    refine endsSafe_handleDirectOutputFailure htsafe.toRateHeld htforced ?_ hkeeps
    rw [ht.eased.1.outputMode, hr.state, hq.outputMode]

theorem endsSafe_fallbackToSystemOutput (h : RateSafe p) :
    Ends allowed EndsSafe fallbackToSystemOutput p := by
  refine ends_state ⟨h.marked, h.shown⟩ ?_
  refine endsSafe_disableAdaptive h fun q hq hheld hforced => ?_
  have hsafe : ∀ r, ProcessOnly q r → RateSafe r ∧ r.forcedRate = none := by
    intro r hr
    refine ⟨(hheld.safe hforced).processOnly hr, ?_⟩
    by_contra hne
    exact hr.eased.2 hne hforced
  refine .handle (stays_withProcess q) (fun _ r hr => ?_) (fun _ r hr => ?_)
    fun r hr => ⟨(hsafe r hr).1.marked, (hsafe r hr).1.shown⟩
  · obtain ⟨hrsafe, hrforced⟩ := hsafe r hr
    exact .step ⟨hrsafe.marked, hrsafe.shown⟩
      ⟨⟨hrsafe.isEnabled, hrsafe.isMarked⟩, fun hne => absurd hrforced hne⟩
  · obtain ⟨hrsafe, hrforced⟩ := hsafe r hr
    have hmode : r.state.outputMode = p.state.outputMode := by
      rw [hr.eased.1.outputMode, hq.state]
    refine endsIn_bind (.ite (fun _ => hrsafe) fun hbefore => ?_) fun _ t ht =>
      endsSafe_of_stays ht rateKept.fail
    -- the mode is still Adaptive System Rate, whatever becomes of the way back to it
    have hadaptive : r.state.outputMode = .adaptiveSystemRate := hmode.trans (not_not.mp hbefore)
    refine .handle (ends_enableAdaptive hrsafe.toRateHeld) (fun _ t ht => ?_) (fun _ t ht => ?_)
      fun t ht => ⟨ht.1, fun _ => ht.2.trans hadaptive⟩
    · exact ⟨ht.1, fun _ => ht.2⟩
    · exact ⟨ht.1, fun _ => ht.2.1.trans hadaptive⟩

/-! ### The reports of mpv -/

/-- The rate of the decoder is not followed, and cannot be reset either. -/
def LosesDecoderRate (allowed : Fates → Prop) : Prop :=
  (∃ fates, allowed fates ∧ fates .decoderRate .setForcedRate ≠ .done) ∧
    AdaptiveSystemRate.CannotReset allowed .decoderReset

theorem endsSafe_publishAdaptiveDecoderFailure (h : RateHeld p) (hforced : p.forcedRate = none) :
    Ends allowed EndsSafe publishAdaptiveDecoderFailure p :=
  have hsafe := h.safe hforced
  ends_step ⟨hsafe.marked, hsafe.shown⟩
    ⟨⟨h.isEnabled, h.isMarked⟩, fun hne => absurd hforced hne⟩

/-- What the rate of the decoder fails with. -/
def FailsToFollow (allowed : Fates → Prop) (p : PlaybackController) :
    Exit String Unit → PlaybackController → Prop
  | .failed _, _ => p.state.outputMode = .adaptiveSystemRate ∧
      ∃ fates, allowed fates ∧ fates .decoderRate .setForcedRate ≠ .done
  | _, _ => True

theorem ends_applyAdaptiveDecoderRateInner (h : RateHeld p) :
    Ends allowed (fun exit q => RateKept p q ∧ FailsToFollow allowed p exit q)
      (applyAdaptiveDecoderRateInner rateHz) p := by
  refine ends_state ⟨refl p, trivial⟩ (.ite (fun _ => ⟨refl p, trivial⟩) fun hmode => ?_)
  have hadaptive : p.state.outputMode = .adaptiveSystemRate := not_not.mp hmode
  have hkept : Ends allowed (fun _ q => RateKept p q)
      (AdaptiveSystemRate.applySourceSampleRate .decoderRate rateHz) p :=
    AdaptiveSystemRate.rateKept_applySourceSampleRate fun _ _ => hadaptive
  refine (hkept.and (AdaptiveSystemRate.ends_applySourceSampleRate_held h)).mono ?_
  intro exit q hq
  cases exit with
  | returned _ => exact ⟨hq.1, trivial⟩
  | failed e => exact ⟨hq.1, hadaptive, hq.2.2.2.1⟩
  | died => exact ⟨hq.1, trivial⟩

theorem endsSafe_applyAdaptiveDecoderRate (h : RateSafe p)
    (hkeeps : p.state.outputMode = .adaptiveSystemRate → ¬LosesDecoderRate allowed) :
    Ends allowed EndsSafe (applyAdaptiveDecoderRate rateHz) p := by
  refine .handle (ends_applyAdaptiveDecoderRateInner h.toRateHeld) (fun _ q hq => h.kept hq.1)
    (fun _ q hq => ?_) fun q hq => ⟨(h.kept hq.1).marked, (h.kept hq.1).shown⟩
  obtain ⟨hkept, hmode, hfails⟩ := hq
  have hsafe : RateSafe q := h.kept hkept
  refine .handle (AdaptiveSystemRate.ends_resetForRecovery hsafe.toRateHeld) (fun _ r hr => ?_)
    (fun _ r hr => ?_) fun r hr => ?_
  · exact endsSafe_publishAdaptiveDecoderFailure (hsafe.toRateHeld.kept hr.1.rateKept) hr.2
  · have hgone : r.forcedRate = none := by
      by_contra hne
      exact hkeeps hmode ⟨hfails, hr.2 hne⟩
    exact endsSafe_publishAdaptiveDecoderFailure (hsafe.toRateHeld.kept hr.1.rateKept) hgone
  · have hrsafe : RateSafe r := hsafe.kept hr.rateKept
    exact ⟨hrsafe.marked, hrsafe.shown⟩

theorem endsSafe_publishDirectMpvError {device : OutputDevice} (h : RateSafe p)
    (hdirect : p.state.outputMode = .directAlsa) :
    Ends allowed EndsSafe (publishDirectMpvError device) p := by
  have hforced : p.forcedRate = none := by
    by_contra hne
    rw [h.shown hne] at hdirect
    cases hdirect
  refine .seq (stays_withProcess p) (fun _ q hq => ?_) (fun _ q hq => h.processOnly hq)
    fun q hq => ⟨(h.processOnly hq).marked, (h.processOnly hq).shown⟩
  have hsafe : RateSafe q := h.processOnly hq
  exact .step ⟨hsafe.marked, hsafe.shown⟩
    ⟨⟨hsafe.isEnabled, hsafe.isMarked⟩, fun hne => absurd hforced (hq.eased.2 hne)⟩

theorem endsSafe_handleMpvError (h : RateSafe p) : Ends allowed EndsSafe handleMpvError p := by
  have hfailed : ∀ (message : String) (q : PlaybackController), RateSafe q →
      Ends allowed EndsSafe (update (·.setErrorState message)) q :=
    fun message q hq => endsSafe_of_stays hq (rateKept.update (fun _ => rfl) fun _ => rfl)
  refine endsIn_attempt (endsSafe_of_stays h rateKept.resetAdaptiveAfterEventFailure)
    fun reset q hq => ?_
  cases reset with
  | error e => exact hfailed _ q hq
  | ok _ =>
    refine ends_state ⟨hq.marked, hq.shown⟩ ?_
    split_ifs with hdirect
    · cases q.state.selectedOutputDevice with
      | none => exact hfailed _ q hq
      | some device => exact endsSafe_publishDirectMpvError hq hdirect
    · exact hfailed _ q hq

/-! ### The exit of mpv -/

/-- A recovery of mpv forces the rate of the source in a mode that does not show it. -/
def ForcesAgain (p : PlaybackController) : Prop :=
  p.adaptiveSystemRate.isEnabled = true ∧ p.state.outputMode ≠ .adaptiveSystemRate ∧
    (p.state.source.bind (·.sampleRateHz)).filter (0 < ·) ≠ none ∧
    p.lifecycle.unexpectedPlayerExit.1 = true

theorem rateKept_finishPlayerRestart {snapshot : PlaybackSessionSnapshot} {shouldResume : Bool}
    {process : MpvProcess} :
    Stays allowed RateKept (finishPlayerRestart snapshot shouldResume process) := by
  refine .bind stays_state fun current => .bind ?_ fun configured => .bind ?_ fun _ => .bind ?_
    fun _ => .pure
  · refine .bind (Moves.stays (.atomically fun p fates _ result q hrun => ?_)) fun _ => .ofExcept
    exact (Prod.mk.inj (Option.some.inj hrun)).2 ▸ refl p
  · exact .step fun p => ⟨rfl, rfl, rfl, .inl⟩
  · refine .step fun p => ⟨?_, rfl, rfl, .inl⟩
    change (publishRestarted snapshot shouldResume p.state).outputMode = _
    rw [publishRestarted]
    split_ifs <;> rfl

theorem rateKept_restartPlayer {snapshot : PlaybackSessionSnapshot} {shouldResume : Bool}
    (h : (snapshot.source.bind (·.sampleRateHz)).filter (0 < ·) ≠ none →
      p.adaptiveSystemRate.isEnabled = true → p.state.outputMode = .adaptiveSystemRate) :
    Ends allowed (fun _ q => RateKept p q) (restartPlayer snapshot shouldResume) p := by
  refine .bind (ends_startProcess (refl p) ?_ fun _ => refl p)
  refine .seq (AdaptiveSystemRate.rateKept_applySourceSampleRate h) (fun _ q hq => ?_)
    (fun _ _ hq => hq) fun _ hq => hq
  have hfinished : Stays allowed RateKept (resetReappliedRateAfterFailedRestart
      (finishPlayerRestart snapshot shouldResume .launched)) := by
    refine .bind (.attempt rateKept_finishPlayerRestart) fun result => ?_
    cases result with
    | ok _ => exact .pure
    | error e => exact .bind (.attempt (rateKept.resetForRecovery _)) fun _ => .fail
  exact (hfinished q).mono fun _ r hr => trans_of RateKept hq hr

theorem rateKept_tryRecoverAfterPlayerExit (h : ¬ForcesAgain p) :
    Ends allowed (fun _ q => RateKept p q) tryRecoverAfterPlayerExit p := by
  refine ends_step (refl p) (.bind ?_)
  cases hsnapshot : PlaybackSessionSnapshot.ofState p.state with
  | error e => exact refl p
  | ok snapshot =>
    have hreset : Ends allowed (fun _ q => RateKept p q ∧ RateOnly p q)
        (AdaptiveSystemRate.resetForRecovery .recoveryReset) p :=
      AdaptiveSystemRate.rateKept_resetForRecovery.ends.and
        AdaptiveSystemRate.moves_resetForRecovery.ends
    refine .seq (ends_orFailure hreset (fun _ _ hq => hq) (fun _ _ hq => hq) fun _ hq => hq)
      (Q := fun _ q => RateKept p q ∧ RateOnly p q) (fun _ q hq => ?_) (fun _ _ hq => hq.1)
      fun _ hq => hq.1
    have hcounted : RateKept q { q with lifecycle := q.lifecycle.unexpectedPlayerExit.2 } :=
      ⟨rfl, rfl, rfl, .inl⟩
    have hlifecycle := trans_of RateKept hq.1 hcounted
    refine ends_step hq.1 (.ite (fun hrecoverable => ?_) fun _ => hlifecycle)
    refine ends_orFailure (rateKept_restartPlayer fun hrate henabled => ?_)
      (fun _ r hr => trans_of RateKept hlifecycle hr)
      (fun _ r hr => trans_of RateKept hlifecycle hr) fun r hr => trans_of RateKept hlifecycle hr
    -- the mode is what the recovery found, and so is the source
    by_contra hmode
    rw [snapshot_eq hsnapshot] at hrate
    change q.adaptiveSystemRate.isEnabled = true at henabled
    change ¬q.state.outputMode = .adaptiveSystemRate at hmode
    change q.lifecycle.unexpectedPlayerExit.1 = true at hrecoverable
    rw [hq.1.isEnabled] at henabled
    rw [hq.2.state] at hmode
    rw [hq.2.lifecycle] at hrecoverable
    exact h ⟨henabled, hmode, hrate, hrecoverable⟩

theorem endsSafe_recoverAfterPlayerExit (h : RateSafe p) (hmode : ¬ForcesAgain p) :
    Ends allowed EndsSafe recoverAfterPlayerExit p := by
  refine ends_orElse (rateKept_tryRecoverAfterPlayerExit hmode) (fun q hq => h.kept hq)
    (fun e q hq => ?_) fun q hq => ⟨(h.kept hq).marked, (h.kept hq).shown⟩
  have hpublish : Stays allowed RateKept (do
      let _ ← update fun state =>
        { state with status := .error, error := some ⟨e.code, e.message⟩ }
      pure () : Act Unit) := .bind (rateKept.update (fun _ => rfl) fun _ => rfl) fun _ => .pure
  exact endsSafe_of_stays (h.kept hq) hpublish

/-! ### The inputs -/

/-- The rate is not left forced where the mode is given up, and not forced again where it
is another one. -/
def Input.IsCalm (p : PlaybackController) (fates : List Fates) : Input → Prop
  | enableAdaptiveSystemRate =>
    p.state.outputMode ≠ .adaptiveSystemRate → ¬LosesRate (· ∈ fates)
  | selectDirectAlsaOutput _ =>
    p.state.outputMode = .adaptiveSystemRate → ¬LosesRate (· ∈ fates)
  | event (.decoder _) =>
    p.state.outputMode = .adaptiveSystemRate → ¬LosesDecoderRate (· ∈ fates)
  | event (.exitedUnexpectedly _) => ¬ForcesAgain p
  | _ => True

/-- The command that turns Adaptive System Rate on. -/
def Input.enablesAdaptive : Input → Bool
  | enableAdaptiveSystemRate => true
  | _ => false

/-- Where an input ends, and where it is cut off: the rate is forced a step before the
command that turns the mode on publishes it. -/
abbrev EndsInput (input : Input) : Exit String Unit → PlaybackController → Prop :=
  EndsIn RateSafe fun q => Marked q ∧ (input.enablesAdaptive = false → Shown q)

theorem endsInput_enableAdaptiveSystemRate (h : RateSafe p)
    (hcalm : p.state.outputMode ≠ .adaptiveSystemRate → ¬LosesRate (· ∈ fates)) :
    Ends (· ∈ fates) (EndsInput .enableAdaptiveSystemRate)
      (done enableAdaptiveSystemRate) p := by
  refine .seq (ends_enableAdaptive h.toRateHeld) (fun _ q hq => ⟨hq.1, fun _ => hq.2⟩)
    (fun _ q hq => ⟨hq.1, fun hne => ?_⟩) fun q hq => ⟨hq.1, fun hother => nomatch hother⟩
  by_cases hmode : p.state.outputMode = .adaptiveSystemRate
  · exact hq.2.1.trans hmode
  · have hforced : p.forcedRate = none := by
      by_contra hbefore
      exact hmode (h.shown hbefore)
    exact absurd (hq.2.2 hforced hne) (hcalm hmode)

theorem endsSafe_report {report : MpvEvent} (h : RateSafe p)
    (hcalm : (Input.event report).IsCalm p fates) :
    Ends (· ∈ fates) EndsSafe (dispatchPlaybackEvent report) p := by
  by_cases hexit : ∃ message, report = .exitedUnexpectedly message
  · obtain ⟨message, rfl⟩ := hexit
    exact endsSafe_recoverAfterPlayerExit h hcalm
  · refine endsIn_dispatchPlaybackEvent rateKept (fun _ _ hp => hp.kept)
      (fun _ hp => ⟨hp.marked, hp.shown⟩) h (fun rateHz q heq hq hkept => ?_)
      (fun _ hp => endsSafe_handleMpvError hp) fun message heq => hexit ⟨message, heq⟩
    subst heq
    exact endsSafe_applyAdaptiveDecoderRate hq fun hmode => hcalm (hkept.outputMode ▸ hmode)

theorem endsInput {input : Input} (h : RateSafe p) (hcalm : input.IsCalm p fates) :
    Ends (· ∈ fates) (EndsInput input) input.program p := by
  have hshown : ∀ {x : Act Unit}, Ends (· ∈ fates) EndsSafe x p →
      Ends (· ∈ fates) (EndsInput input) x p := by
    refine fun hx => hx.mono fun exit q hq => ?_
    cases exit with
    | returned _ => exact hq
    | failed e => exact hq
    | died => exact ⟨hq.1, fun _ => hq.2⟩
  by_cases hreport : ∃ report, input = .event report
  · obtain ⟨report, rfl⟩ := hreport
    exact hshown (endsSafe_report h hcalm)
  · have hquiet : ∀ report, input ≠ .event report := fun report heq => hreport ⟨report, heq⟩
    cases hinput : input.setsOutput with
    | false => exact hshown (endsSafe_of_stays h (rateKept.program hinput hquiet))
    | true =>
      cases input with
      | enableAdaptiveSystemRate => exact endsInput_enableAdaptiveSystemRate h hcalm
      | selectDirectAlsaOutput deviceId =>
        exact hshown (endsIn_done (endsSafe_selectDirectAlsaOutput h hcalm))
      | fallbackToSystemOutput => exact hshown (endsIn_done (endsSafe_fallbackToSystemOutput h))
      | _ => cases hinput

/-! ### The start and the end of the client -/

/-- A start that succeeds has reset what was forced. -/
def Recovers : Exit String Unit → PlaybackController → Prop
  | .returned _, q => q.forcedRate = none
  | _, q => Marked q

theorem ends_recoverStartupIfMarked (h : Marked p) :
    Ends allowed Recovers (AdaptiveSystemRate.recoverStartupIfMarked site) p := by
  have hread : Ends allowed (fun exit q =>
      q = p ∧ ∀ isRequired, exit = .returned isRequired → isRequired = p.isMarked)
      (AdaptiveSystemRate.isRequired site) p := by
    refine ⟨⟨rfl, fun _ heq => nomatch heq⟩, fun fates _ result q hrun => ?_⟩
    cases hfate : fates site .readMarker with
    | done =>
      simp only [hfate] at hrun
      cases hrun
      exact ⟨rfl, fun _ heq => (Exit.returned.inj heq).symm⟩
    | fails isDone =>
      simp only [hfate] at hrun
      cases hrun
      exact ⟨rfl, fun _ heq => nomatch heq⟩
  refine .seq hread (fun isRequired q hq => ?_) (fun _ q hq => hq.1 ▸ h) fun q hq => hq.1 ▸ h
  obtain ⟨rfl, hrequired⟩ := hq
  have hgone : Marked { q with forcedRate := none } := fun hne => absurd rfl hne
  refine .ite (fun _ => .bind (ends_outside h (fun _ _ _ => ?_) fun _ isDone _ _ => ?_))
    fun hunmarked => ?_
  · exact ends_clearMarker hgone rfl fun _ _ _ _ _ => hgone
  · cases isDone with
    | true => exact hgone
    | false => exact h
  · by_contra hne
    exact hunmarked ((hrequired _ rfl).trans (h hne))

/-- Nothing is left forced without its marker by the end of the player. -/
theorem ends_teardown (h : Marked p) :
    Ends allowed (fun _ q => Marked q) (AdaptiveSystemRate.teardown site) p := by
  have hgone : Marked { p with forcedRate := none } := fun hne => absurd rfl hne
  refine ends_reading h (.ite (fun _ => h) fun _ => ?_)
  refine .bind (.attempt (ends_outside h (fun _ _ _ => ?_) fun _ isDone _ _ => ?_))
  · refine .bind (.attempt (ends_clearMarker hgone ?_ fun _ _ _ _ _ => hgone))
    exact fun hne => absurd rfl hne
  · cases isDone with
    | true => exact hgone
    | false => exact h

theorem rateKept_shutdownPlayer : Stays allowed RateKept shutdownPlayer :=
  .bind (rateKept.step fun _ => ⟨rfl, rfl, rfl, rfl, rfl, rfl⟩) fun _ =>
    .step fun _ => ⟨rfl, rfl, rfl, .inl⟩

theorem ends_shutdown (h : RateSafe p) : Ends allowed EndsSafe shutdown p :=
  endsSafe_disableAdaptive h fun _ _ hheld hforced =>
    endsSafe_of_stays (hheld.safe hforced) rateKept_shutdownPlayer

theorem ends_drop (h : RateSafe p) : Ends allowed (fun _ q => Marked q) drop p := by
  refine .handle (ends_shutdown h) (fun _ q hq => ends_teardown hq.marked) (fun _ q hq => ?_)
    fun q hq => hq.1
  exact (rateKept_shutdownPlayer q).seq (fun _ r hr => ends_teardown (hq.kept hr).marked)
    (fun _ r hr => (hq.kept hr).marked) fun r hr => (hq.kept hr).marked

end Output

end Harmony.Player
