/-
# The output route agrees

Where only opening, probing or listing a device can fail, each command leaves the session,
mpv, the catalog and the controller of the rate agreeing on the output. The exception is
a device that cannot be opened while another one plays: the catalog then watches the
device that could not be opened.
-/

import Harmony.Player.Routes

namespace Harmony.Player

open Thread Crash

/-! ### What can fail -/

/-- The calls that set the output, or the system's rate. -/
def Call.concernsOutput : Call → Bool
  | .disableAudio | .acquire | .audioDevice | .enableAudio | .restoreDisableAudio
  | .restoreAudioDevice | .release | .restoreEnableAudio | .observeFormat | .ensureAvailable
  | .setForcedRate | .markRequired | .clearMarker => true
  | _ => false

/-- The calls that open or probe the device that was asked for. -/
def isOpening (site : Site) (call : Call) : Bool :=
  match site, call with
  | .directOutput, .disableAudio | .directOutput, .acquire | .directOutput, .audioDevice
  | .directOutput, .enableAudio | .observeDirect, .observeFormat => true
  | _, _ => false

/-- Of what concerns the output, only opening and probing a device fails. -/
def OnlyOpeningFails (fates : Fates) : Prop :=
  ∀ site call, call.concernsOutput = true → isOpening site call = false → fates site call = .done

/-- The device that is asked for can be opened and probed. -/
def Opens (fates : Fates) : Prop :=
  ∀ site call, isOpening site call = true → fates site call = .done

/-! ### Agreement -/

/-- The session, mpv, the catalog and the controller of the rate agree on the output. -/
structure Agrees (p : PlaybackController) : Prop where
  output : p.process.IsOn p.state
  isAudioEnabled : p.process.isAudioEnabled = true
  watched : p.state.outputMode = .directAlsa →
    p.outputDevices.selected.map (·.id) = p.state.selectedOutputDevice.map (·.id)
  isEnabled : p.adaptiveSystemRate.isEnabled = true ↔ p.state.outputMode = .adaptiveSystemRate

/-- They agree, and mpv runs. -/
structure IsRouted (p : PlaybackController) : Prop extends Agrees p where
  isRunning : p.process.isRunning = true

theorem IsRouted.kept {p q : PlaybackController} (h : IsRouted p) (hkept : RouteKept p q) :
    IsRouted q where
  output := by
    have hon := h.output
    rw [MpvProcess.IsOn] at hon ⊢
    rw [hkept.outputMode, hkept.selected, hkept.process.audioDevice, hkept.process.isExclusive]
    exact hon
  isAudioEnabled := hkept.process.isAudioEnabled.trans h.isAudioEnabled
  watched hdirect := by
    rw [hkept.watched, hkept.selected]
    exact h.watched (hkept.outputMode.symm.trans hdirect)
  isEnabled := by
    rw [hkept.isEnabled, hkept.outputMode]
    exact h.isEnabled
  isRunning := hkept.process.isRunning.trans h.isRunning

/-! ### Calls of mpv that are done -/

def MpvProcess.onSystem (p : MpvProcess) : MpvProcess :=
  { p with audioDevice := none, isExclusive := false, isAudioEnabled := true }

def MpvProcess.onDevice (deviceId : String) (p : MpvProcess) : MpvProcess :=
  { p with
    audioDevice := some s!"alsa/{deviceId}", isExclusive := true, isAudioEnabled := true }

variable {deviceId : String}

namespace ProcessCall

variable {fates : Call → Fate} {p q : MpvProcess} {Q : Except String Unit → MpvProcess → Prop}

theorem leaves_restoreSystemOutput (hrunning : p.isRunning = true)
    (hdone : ∀ call, call.concernsOutput = true → isOpening .restoreSystem call = false →
      fates call = .done) (h : Q (.ok ()) p.onSystem) : restoreSystemOutput.Leaves Q fates p :=
  .bind <| .attempt <| .command_of_done hrunning (hdone .restoreDisableAudio rfl rfl) <|
  .bind <| .attempt <| .command_of_done hrunning (hdone .restoreAudioDevice rfl rfl) <|
  .bind <| .attempt <| .setExclusive_of_done (hdone .release rfl rfl) <|
  .bind <| .attempt <| .command_of_done hrunning (hdone .restoreEnableAudio rfl rfl) h

theorem leaves_openDirect (hrunning : p.isRunning = true)
    (hdone : ∀ call, call.concernsOutput = true → fates call = .done)
    (h : Q (.ok ()) { p with audioDevice := some s!"alsa/{deviceId}", isAudioEnabled := true }) :
    (openDirect deviceId).Leaves Q fates p :=
  .bind <| .command_of_done hrunning (hdone .audioDevice rfl) <|
    .command_of_done hrunning (hdone .enableAudio rfl) h

theorem leaves_configureOutput (hrunning : p.isRunning = true)
    (hdone : ∀ call, call.concernsOutput = true → fates call = .done)
    (h : Q (.ok ()) (p.onDevice deviceId)) :
    (configureOutput (.directAlsa deviceId)).Leaves Q fates p :=
  .bind <| .command_of_done hrunning (hdone .disableAudio rfl) <|
  .bind <| .attempt <| .setExclusive_of_done (hdone .acquire rfl) <|
  .bind <| .attempt <| leaves_openDirect hrunning hdone h

/-- mpv runs as it did. -/
def SameRunning (p q : MpvProcess) : Prop := q.isRunning = p.isRunning

instance : IsPreorder MpvProcess SameRunning where
  refl _ := rfl
  trans _ _ _ h h' := h'.trans h

theorem keepsRunning_restoreSystemOutput : Keeps SameRunning restoreSystemOutput := by
  have hcall : ∀ call effect, (∀ p, SameRunning p (effect p)) →
      Keeps SameRunning (attempt (command call effect)) := fun call effect h =>
        .attempt (.command h)
  refine .bind (hcall _ _ fun _ => rfl) fun _ => .bind (hcall _ _ fun _ => rfl) fun _ =>
    .bind (.attempt (.setExclusive fun _ => rfl)) fun _ => .bind (hcall _ _ fun _ => rfl)
      fun _ => ?_
  exact .bind .ofExcept fun _ => .bind .ofExcept fun _ => .bind .ofExcept fun _ => .ofExcept

/-- A device that could not be opened is given up with an error. -/
theorem leaves_restoreAfter {error : String} (hrunning : p.isRunning = true)
    (h : ∀ e q, q.isRunning = true → Q (.error e) q) : (restoreAfter error).Leaves Q fates p := by
  have hkept : (restoreSystemOutput fates p).2.isRunning = true :=
    (keepsRunning_restoreSystemOutput fates p).trans hrunning
  refine .bind (.attempt ?_)
  rw [Leaves]
  dsimp only
  cases (restoreSystemOutput fates p).1 with
  | ok _ => exact h _ _ hkept
  | error e => exact h _ _ hkept

/-- A device that is asked for is either open, or given up with an error. -/
theorem leaves_configureDirect (hrunning : p.isRunning = true)
    (hok : Q (.ok ()) (p.onDevice deviceId)) (herror : ∀ e q, q.isRunning = true → Q (.error e) q) :
    (configureOutput (.directAlsa deviceId)).Leaves Q fates p := by
  have hfailed : ∀ e (q : MpvProcess), q.isRunning = true → Q (.error e) q := herror
  refine .bind (.command (fun _ _ => ?_) (fun e => hfailed e p hrunning)
    fun e _ _ => hfailed e _ hrunning)
  refine .bind (.attempt (.setExclusive ?_ fun e _ _ => leaves_restoreAfter hrunning herror))
  refine .bind (.attempt (.bind (.command (fun _ _ => ?_)
    (fun e => leaves_restoreAfter hrunning herror) fun e _ _ =>
      leaves_restoreAfter hrunning herror)))
  exact .command (fun _ _ => hok) (fun e => leaves_restoreAfter hrunning herror)
    fun e _ _ => leaves_restoreAfter hrunning herror

end ProcessCall

/-! ### The rate -/

section Ends

variable {p : PlaybackController} {α : Type} {allowed : Fates → Prop} {device : OutputDevice}
  {rateHz : Option ℕ}

/-- The program does not fail, and leaves what the property says. -/
def Succeeds (P : α → PlaybackController → Prop) : Exit String α → PlaybackController → Prop
  | .returned a, q => P a q
  | .failed _, _ => False
  | .died, _ => True

theorem succeeds_bind {β : Type} {x : Act α} {f : α → Act β} {P : α → PlaybackController → Prop}
    {Q : Exit String β → PlaybackController → Prop} (hcut : ∀ q, Q .died q)
    (h : Ends allowed (Succeeds P) x p) (hf : ∀ a q, P a q → Ends allowed Q (f a) q) :
    Ends allowed Q (x >>= f) p :=
  .seq h hf (fun _ _ hfalse => hfalse.elim) fun q _ => hcut q

/-- A program that does not fail, attempted. -/
theorem succeeds_attempt {β : Type} {x : Act α} {f : Except String α → Act β}
    {P : α → PlaybackController → Prop} {Q : Exit String β → PlaybackController → Prop}
    (hcut : ∀ q, Q .died q) (h : Ends allowed (Succeeds P) x p)
    (hf : ∀ a q, P a q → Ends allowed Q (f (.ok a)) q) : Ends allowed Q (x.attempt >>= f) p :=
  .handle h hf (fun _ _ hfalse => hfalse.elim) fun q _ => hcut q

theorem OnlyOpeningFails.rate {fates : Fates} (h : OnlyOpeningFails fates) (site : Site)
    {call : Call} (hcall : call = .setForcedRate ∨ call = .clearMarker ∨ call = .markRequired ∨
      call = .ensureAvailable) : fates site call = .done := by
  rcases hcall with rfl | rfl | rfl | rfl <;>
    exact h site _ rfl (by cases site <;> rfl)

namespace AdaptiveSystemRate

variable {site : Site}

theorem ends_setForcedRateHz :
    Ends OnlyOpeningFails
      (Succeeds fun _ q => RateOnly p q ∧ q.adaptiveSystemRate = p.adaptiveSystemRate)
      (setForcedRateHz site rateHz) p := by
  refine ends_outside trivial (fun _ _ _ => ⟨rfl, rfl⟩) fun fates isDone hfates hfails => ?_
  rw [hfates.rate site (.inl rfl)] at hfails
  cases hfails

theorem ends_applySourceSampleRate :
    Ends OnlyOpeningFails (Succeeds fun _ q => RateOnly p q ∧
        q.adaptiveSystemRate.isEnabled = p.adaptiveSystemRate.isEnabled)
      (applySourceSampleRate site rateHz) p := by
  refine ends_reading trivial (.ite (fun _ => ⟨rfl, rfl⟩) fun _ => ?_)
  refine succeeds_bind (fun _ => trivial) ends_setForcedRateHz fun _ q hq => ?_
  refine .step trivial ⟨hq.1.remember, ?_⟩
  change q.adaptiveSystemRate.isEnabled = _
  rw [hq.2]

theorem ends_disable :
    Ends OnlyOpeningFails
      (Succeeds fun _ q => RateOnly p q ∧ q.adaptiveSystemRate.isEnabled = false)
      (disable site) p := by
  refine ends_reading trivial (.ite (fun h => ⟨rfl, h.1⟩) fun _ => ?_)
  have hreset : Ends OnlyOpeningFails (Succeeds fun _ q => RateOnly p q) (resetForceRate site) p :=
    succeeds_bind (fun _ => trivial) ends_setForcedRateHz fun _ q hq =>
      .step trivial hq.1.remember
  refine succeeds_bind (fun _ => trivial) hreset fun _ q hq => ?_
  have hcleared : Ends OnlyOpeningFails (Succeeds fun _ r => RateOnly q r)
    (clearMarker site) q := by
    refine ends_clearMarker trivial rfl fun fates isDone hfates hfails => ?_
    rw [hfates.rate site (.inr (.inl rfl))] at hfails
    cases hfails
  refine succeeds_bind (fun _ => trivial) hcleared fun _ r hr => ?_
  exact .step trivial ⟨(trans_of RateOnly hq hr).remember, rfl⟩

theorem ends_enable :
    Ends OnlyOpeningFails
      (Succeeds fun _ q => RateOnly p q ∧ q.adaptiveSystemRate.isEnabled = true)
      (enable site) p := by
  refine .seq (ends_outside (Q := Succeeds fun _ q => RateOnly p q) trivial (fun _ _ _ => rfl)
    fun fates isDone hfates hfails => ?_) (fun _ q hq => ?_) (fun _ _ hfalse => hfalse)
    fun _ _ => trivial
  · rw [hfates.rate site (.inr (.inr (.inl rfl)))] at hfails
    cases hfails
  · exact .step trivial ⟨hq.remember, rfl⟩

theorem ends_ensureAvailable :
    Ends OnlyOpeningFails (Succeeds fun _ q => q = p) (ensureAvailable site) p := by
  refine ends_outside trivial (fun _ _ _ => rfl) fun fates isDone hfates hfails => ?_
  rw [hfates.rate site (.inr (.inr (.inr rfl)))] at hfails
  cases hfails

end AdaptiveSystemRate

theorem ends_disableAdaptiveSystemRate :
    Ends OnlyOpeningFails
      (Succeeds fun _ q => RateOnly p q ∧ q.adaptiveSystemRate.isEnabled = false)
      disableAdaptiveSystemRate p :=
  succeeds_attempt (fun _ => trivial) AdaptiveSystemRate.ends_disable fun _ _ hq => hq

theorem ends_enableAdaptiveController :
    Ends OnlyOpeningFails
      (Succeeds fun _ q => RateOnly p q ∧ q.adaptiveSystemRate.isEnabled = true)
      enableAdaptiveController p := by
  refine succeeds_bind (fun _ => trivial) AdaptiveSystemRate.ends_ensureAvailable fun _ q hq => ?_
  subst hq
  exact succeeds_attempt (fun _ => trivial) AdaptiveSystemRate.ends_enable fun _ _ hr => hr

/-! ### The output -/

theorem ends_configureSystemOutput {site : Site} (hrunning : p.process.isRunning = true)
    (hsite : site ≠ .directOutput) (hprobe : site ≠ .observeDirect) :
    Ends OnlyOpeningFails (Succeeds fun _ q => q = { p with process := p.process.onSystem })
      (configureSystemOutput site) p := by
  refine ends_withProcess trivial fun fates hfates => ?_
  refine ProcessCall.leaves_restoreSystemOutput hrunning (fun call hconcerns hopening => ?_) rfl
  refine hfates site call hconcerns ?_
  cases site <;> first | rfl | exact absurd rfl hsite | exact absurd rfl hprobe

theorem ends_restoreDirectOutput (hrunning : p.process.isRunning = true) :
    Ends OnlyOpeningFails
      (Succeeds fun _ q => q = { p with process := p.process.onDevice device.id })
      (restoreDirectOutput (some device)) p := by
  refine ends_withProcess trivial fun fates hfates => ?_
  exact ProcessCall.leaves_configureOutput hrunning
    (fun call hconcerns => hfates .restoreDirect call hconcerns rfl) rfl

/-- What an attempt to open a device ends with. -/
def OpensOr (device : OutputDevice) (p : PlaybackController) :
    Exit String Unit → PlaybackController → Prop
  | .returned _, q => q = { p with process := p.process.onDevice device.id }
  | .failed _, q => ∃ process, process.isRunning = true ∧ q = { p with process }
  | .died, _ => True

theorem ends_openDirectOutput {hasSource : Bool} (hrunning : p.process.isRunning = true) :
    Ends allowed (OpensOr device p) (openDirectOutput device hasSource) p := by
  have hopened :
      Ends allowed (OpensOr device p) (configureDirectOutput .directOutput device) p := by
    refine ends_withProcess trivial fun fates _ => ?_
    exact ProcessCall.leaves_configureDirect hrunning rfl fun e process hprocess =>
      ⟨process, hprocess, rfl⟩
  refine .seq hopened (fun _ q hq => ?_) (fun _ _ hq => hq) fun _ _ => trivial
  subst hq
  refine .ite (fun _ => rfl) fun _ => ends_withProcess trivial fun fates _ => ?_
  exact .command (fun _ _ => rfl) (fun e => ⟨p.process.onDevice device.id, hrunning, rfl⟩)
    fun e _ _ => ⟨p.process.onDevice device.id, hrunning, rfl⟩

/-- The device opens where its calls are done. -/
theorem ends_openDirectOutput_of_opens {hasSource : Bool} (hrunning : p.process.isRunning = true) :
    Ends (fun fates => OnlyOpeningFails fates ∧ Opens fates)
      (Succeeds fun _ q => q = { p with process := p.process.onDevice device.id })
      (openDirectOutput device hasSource) p := by
  refine succeeds_bind (fun _ => trivial) (P := fun _ q =>
    q = { p with process := p.process.onDevice device.id }) ?_ fun _ q hq => ?_
  · refine ends_withProcess trivial fun fates hfates => ?_
    refine ProcessCall.leaves_configureOutput hrunning (fun call hconcerns => ?_) rfl
    cases hopening : isOpening .directOutput call with
    | true => exact hfates.2 .directOutput call hopening
    | false => exact hfates.1 .directOutput call hconcerns hopening
  · subst hq
    refine .ite (fun _ => rfl) fun _ => ends_withProcess trivial fun fates hfates => ?_
    exact .command_of_done hrunning (hfates.2 .observeDirect .observeFormat rfl) rfl

/-- The session follows the source with the system's rate. -/
structure IsAdaptive (p q : PlaybackController) : Prop where
  state : q.state = p.state.publishAdaptiveSystemOutput
  process : q.process = p.process.onSystem
  outputDevices : q.outputDevices = p.outputDevices
  isEnabled : q.adaptiveSystemRate.isEnabled = true

theorem ends_enableAdaptiveSystemRate (hrunning : p.process.isRunning = true) :
    Ends OnlyOpeningFails (Succeeds fun _ q => IsAdaptive p q) enableAdaptiveSystemRate p := by
  refine ends_state trivial ?_
  refine succeeds_bind (fun _ => trivial) ends_enableAdaptiveController fun _ q hq => ?_
  have hqrunning : q.process.isRunning = true := by rw [hq.1.process, hrunning]
  refine succeeds_attempt (fun _ => trivial) (ends_configureSystemOutput hqrunning
    (by simp) (by simp)) fun _ r hr => ?_
  subst hr
  refine succeeds_attempt (fun _ => trivial) AdaptiveSystemRate.ends_applySourceSampleRate
    fun _ t ht => ?_
  refine .step trivial ⟨?_, ?_, ?_, ?_⟩
  · change t.state.publishAdaptiveSystemOutput = _
    rw [ht.1.state, hq.1.state]
  · change t.process = _
    rw [ht.1.process, hq.1.process]
  · change t.outputDevices = _
    rw [ht.1.outputDevices, hq.1.outputDevices]
  · exact ht.2.trans hq.2

/-! ### The commands of the output -/

/-- Every end of a program is in a routed state. -/
abbrev EndsRouted {α : Type} : Exit String α → PlaybackController → Prop :=
  EndsIn IsRouted fun _ => True

theorem endsRouted_of_stays {x : Act α} (h : IsRouted p)
    (hx : Stays OnlyOpeningFails RouteKept x) : Ends OnlyOpeningFails EndsRouted x p :=
  endsIn_of_stays (fun _ _ hp => hp.kept) (fun _ _ => trivial) hx h

/-- Where the route is restored to: mpv and the controller of the rate. -/
structure RestoredTo (before : PlaybackSessionState) (mode : OutputMode)
    (p q : PlaybackController) :
    Prop where
  mode : mode = before.outputMode
  process : q.process.IsOn before
  isAudioEnabled : q.process.isAudioEnabled = true
  isRunning : q.process.isRunning = true
  outputDevices : q.outputDevices = p.outputDevices
  isEnabled : q.adaptiveSystemRate.isEnabled = true ↔ before.outputMode = .adaptiveSystemRate

/-- An output that was there can be restored. -/
theorem ends_restoreOutputRoute {before : PlaybackSessionState}
    (hrunning : p.process.isRunning = true) (hdisabled : p.adaptiveSystemRate.isEnabled = false)
    (hselected : before.outputMode = .directAlsa → before.selectedOutputDevice ≠ none) :
    Ends OnlyOpeningFails (Succeeds fun mode q => RestoredTo before mode p q)
      (restoreOutputRoute before) p := by
  rw [restoreOutputRoute]
  cases hmode : before.outputMode with
  | directAlsa =>
    obtain ⟨device, hdevice⟩ := Option.ne_none_iff_exists'.mp (hselected hmode)
    rw [hdevice]
    refine succeeds_attempt (fun _ => trivial) (ends_restoreDirectOutput hrunning) fun _ q hq => ?_
    subst hq
    refine ⟨hmode.symm, ?_, rfl, hrunning, rfl, ?_⟩
    · rw [MpvProcess.IsOn, hmode]
      exact ⟨device, hdevice, rfl, rfl⟩
    · rw [hmode]
      exact iff_of_false (by rw [hdisabled]; decide) (by decide)
  | adaptiveSystemRate =>
    refine succeeds_attempt (fun _ => trivial) (ends_enableAdaptiveSystemRate hrunning)
      fun _ q hq => ⟨hmode.symm, ?_, ?_, ?_, hq.outputDevices, ?_⟩
    · rw [MpvProcess.IsOn, hmode, hq.process]
      exact ⟨rfl, rfl⟩
    · rw [hq.process]
      rfl
    · rw [hq.process]
      exact hrunning
    · exact iff_of_true hq.isEnabled hmode
  | system =>
    refine succeeds_attempt (fun _ => trivial) (ends_configureSystemOutput hrunning
      (by simp) (by simp)) fun _ q hq => ?_
    subst hq
    refine ⟨hmode.symm, ?_, rfl, hrunning, rfl, ?_⟩
    · rw [MpvProcess.IsOn, hmode]
      exact ⟨rfl, rfl⟩
    · rw [hmode]
      exact iff_of_false (by rw [hdisabled]; decide) (by decide)

theorem ends_pauseAfterOutputFailure :
    Ends allowed (Succeeds fun _ q => RouteKept p q) pauseAfterOutputFailure p := by
  have hpaused : Stays allowed RouteKept (withProcess .pauseAfterFailure (.setPaused true)) :=
    routeKept.withProcess ProcessCall.keeps_setPaused
  exact .handle (hpaused p) (fun _ _ hq => hq) (fun _ _ hq => hq) fun _ _ => trivial

/-- A device that could not be opened leaves the output that was there, and the catalog
with the device. -/
theorem ends_handleDirectOutputFailure {before : PlaybackSessionState}
    (hrunning : p.process.isRunning = true) (hdisabled : p.adaptiveSystemRate.isEnabled = false)
    (hselected : before.outputMode = .directAlsa →
      before.selectedOutputDevice.map (·.id) = some device.id)
    (hwatched : p.outputDevices.selected = some device) :
    Ends OnlyOpeningFails EndsRouted (handleDirectOutputFailure before device) p := by
  have hbefore : before.outputMode = .directAlsa → before.selectedOutputDevice ≠ none := by
    intro hdirect hnone
    have hid := hselected hdirect
    rw [hnone] at hid
    cases hid
  refine succeeds_bind (fun _ => trivial) (ends_restoreOutputRoute hrunning hdisabled hbefore)
    fun mode q hq => ?_
  obtain rfl := hq.mode
  refine succeeds_bind (fun _ => trivial) ends_pauseAfterOutputFailure fun _ r hr => ?_
  refine .step trivial ⟨⟨?_, ?_, ?_, ?_⟩, ?_⟩
  · have hon := hq.process
    rw [MpvProcess.IsOn] at hon ⊢
    dsimp only at hon ⊢
    rw [hr.process.audioDevice, hr.process.isExclusive]
    cases hmode : before.outputMode with
    | directAlsa =>
      rw [hmode] at hon
      rw [if_pos rfl]
      exact hon
    | system => rw [hmode] at hon; exact hon
    | adaptiveSystemRate => rw [hmode] at hon; exact hon
  · exact hr.process.isAudioEnabled.trans hq.isAudioEnabled
  · intro hdirect
    change r.outputDevices.selected.map (·.id) = (if before.outputMode = .directAlsa
      then before.selectedOutputDevice else some device).map (·.id)
    rw [if_pos hdirect, hselected hdirect, hr.watched, hq.outputDevices, hwatched]
    rfl
  · change r.adaptiveSystemRate.isEnabled = true ↔ before.outputMode = .adaptiveSystemRate
    rw [hr.isEnabled]
    exact hq.isEnabled
  · exact hr.process.isRunning.trans hq.isRunning

/-- What the choice of a device leaves. -/
def SelectsOr (deviceId : String) (p : PlaybackController) :
    Exit String OutputDevice → PlaybackController → Prop
  | .returned device, q =>
    device.id = deviceId ∧ ∃ devices, q = { p with outputDevices := ⟨devices, some device⟩ }
  | .failed _, q => RouteKept p q
  | .died, _ => True

theorem ends_select :
    Ends allowed (SelectsOr deviceId p) (OutputDeviceCatalog.select .selectDevice deviceId) p := by
  refine ⟨trivial, fun fates _ result q hrun => ?_⟩
  have hkept : ∀ devices, RouteKept p
      { p with outputDevices := { p.outputDevices with devices } } :=
    fun devices => ⟨rfl, rfl, refl p.process, rfl, rfl⟩
  dsimp only at hrun
  split_ifs at hrun with hraw
  · cases hrun
    exact refl p
  · cases hfate : fates .selectDevice .listDevices with
    | fails isDone =>
      simp only [hfate] at hrun
      cases hrun
      exact refl p
    | done =>
      cases hfound : p.plugged.find? (·.id = deviceId) with
      | none =>
        simp only [hfate, hfound] at hrun
        cases hrun
        exact hkept p.plugged
      | some device =>
        simp only [hfate, hfound] at hrun
        cases hrun
        exact ⟨by simpa using List.find?_some hfound, p.plugged, rfl⟩

/-- A device that opens is the output, and the catalog watches it. -/
theorem isRouted_publishDirectOutput {q : PlaybackController}
    (hrunning : q.process.isRunning = true) (hdisabled : q.adaptiveSystemRate.isEnabled = false)
    (hwatched : q.outputDevices.selected = some device) :
    Ends allowed EndsRouted (publishDirectOutput device)
      { q with process := q.process.onDevice device.id } := by
  refine .step trivial ⟨⟨⟨device, rfl, rfl, rfl⟩, rfl, fun _ => ?_, ?_⟩, hrunning⟩
  · change q.outputDevices.selected.map (·.id) = some device.id
    rw [hwatched]
    rfl
  · change q.adaptiveSystemRate.isEnabled = true ↔ OutputMode.directAlsa = .adaptiveSystemRate
    rw [hdisabled]
    decide

/-- A device is chosen. It must open where another device is the output. -/
theorem ends_selectDirectAlsaOutput (h : IsRouted p)
    (hallowed : ∀ fates, allowed fates → OnlyOpeningFails fates)
    (hopens : p.state.outputMode = .directAlsa →
      p.state.selectedOutputDevice.map (·.id) ≠ some deviceId →
      ∀ fates, allowed fates → Opens fates) :
    Ends allowed EndsRouted (selectDirectAlsaOutput deviceId) p := by
  refine ends_state trivial ?_
  refine .seq ends_select (fun device q hq => ?_) (fun _ q hq => h.kept hq) fun _ _ => trivial
  obtain ⟨hid, devices, rfl⟩ := hq
  refine succeeds_bind (fun _ => trivial)
    (ends_disableAdaptiveSystemRate.restrict hallowed) fun _ q hq => ?_
  have hrunning : q.process.isRunning = true := by rw [hq.1.process, h.isRunning]
  have hwatched : q.outputDevices.selected = some device := by rw [hq.1.outputDevices]
  by_cases hother : p.state.outputMode = .directAlsa ∧
      p.state.selectedOutputDevice.map (·.id) ≠ some deviceId
  · -- another device plays, so this one opens
    have hboth : ∀ fates, allowed fates → OnlyOpeningFails fates ∧ Opens fates :=
      fun fates hfates => ⟨hallowed fates hfates, hopens hother.1 hother.2 fates hfates⟩
    refine succeeds_attempt (fun _ => trivial)
      ((ends_openDirectOutput_of_opens hrunning).restrict hboth) fun _ r hr => ?_
    subst hr
    exact isRouted_publishDirectOutput hrunning hq.2 hwatched
  · refine .handle (ends_openDirectOutput hrunning) (fun _ r hr => ?_) (fun _ r hr => ?_)
      fun _ _ => trivial
    · subst hr
      exact isRouted_publishDirectOutput hrunning hq.2 hwatched
    · obtain ⟨process, hprocess, rfl⟩ := hr
      have hsame : p.state.outputMode = .directAlsa →
          p.state.selectedOutputDevice.map (·.id) = some device.id := by
        intro hdirect
        by_contra hne
        exact hother ⟨hdirect, fun hsame => hne (by rw [hsame, hid])⟩
      refine Ends.restrict ?_ hallowed
      exact ends_handleDirectOutputFailure (by exact hprocess) hq.2 hsame hwatched

theorem ends_fallbackToSystemOutput (h : IsRouted p) :
    Ends OnlyOpeningFails EndsRouted fallbackToSystemOutput p := by
  refine ends_state trivial ?_
  refine succeeds_bind (fun _ => trivial) ends_disableAdaptiveSystemRate fun _ q hq => ?_
  have hrunning : q.process.isRunning = true := by rw [hq.1.process, h.isRunning]
  refine succeeds_attempt (fun _ => trivial) (ends_configureSystemOutput hrunning
    (by simp) (by simp)) fun _ r hr => ?_
  subst hr
  refine .step trivial ⟨⟨⟨rfl, rfl⟩, rfl, fun hdirect => ?_, ?_⟩, hrunning⟩
  · cases hdirect
  · change q.adaptiveSystemRate.isEnabled = true ↔ OutputMode.system = .adaptiveSystemRate
    rw [hq.2]
    decide

theorem endsRouted_enableAdaptiveSystemRate (h : IsRouted p) :
    Ends OnlyOpeningFails EndsRouted enableAdaptiveSystemRate p := by
  refine (ends_enableAdaptiveSystemRate h.isRunning).mono fun exit q hq => ?_
  cases exit with
  | returned _ =>
    refine ⟨⟨?_, ?_, fun hdirect => ?_, ?_⟩, ?_⟩
    · rw [hq.state, hq.process]
      exact ⟨rfl, rfl⟩
    · rw [hq.process]
      rfl
    · rw [hq.state] at hdirect
      cases hdirect
    · rw [hq.state]
      exact iff_of_true hq.isEnabled rfl
    · rw [hq.process]
      exact h.isRunning
  | failed e => exact hq.elim
  | died => trivial

/-! ### The reports of mpv -/

/-- mpv is paused on the system's output, or the route is as it was. -/
def Silenced (p : PlaybackController) : Exit String Unit → PlaybackController → Prop
  | .returned _, q => q = { p with process := { p.process with isPaused := true }.onSystem }
  | .failed _, q => IsRouted q
  | .died, _ => True

theorem ends_publishDirectMpvError (h : IsRouted p) (hdirect : p.state.outputMode = .directAlsa) :
    Ends OnlyOpeningFails EndsRouted (publishDirectMpvError device) p := by
  have hdisabled : ¬p.adaptiveSystemRate.isEnabled = true := by
    rw [h.isEnabled, hdirect]
    decide
  have hstopped : Ends OnlyOpeningFails (Silenced p) (withProcess .directError do
      .setPaused true
      .configureOutput .system) p := by
    refine ends_withProcess trivial fun fates hfates => ?_
    refine .bind (.command (fun _ _ => ?_) (fun _ => h) fun _ _ _ =>
      h.kept ⟨rfl, rfl, ⟨rfl, rfl, rfl, rfl⟩, rfl, rfl⟩)
    exact ProcessCall.leaves_restoreSystemOutput h.isRunning
      (fun call hconcerns _ => hfates .directError call hconcerns rfl) rfl
  refine .seq hstopped (fun _ q hq => ?_) (fun _ _ hq => hq) fun _ _ => trivial
  subst hq
  refine .step trivial ⟨⟨⟨rfl, rfl⟩, rfl, fun hmode => ?_, iff_of_false hdisabled ?_⟩, h.isRunning⟩
  · cases hmode
  · exact fun hmode => OutputMode.noConfusion hmode

theorem ends_handleMpvError (h : IsRouted p) :
    Ends OnlyOpeningFails EndsRouted handleMpvError p := by
  have hfailed : ∀ (message : String) (q : PlaybackController), IsRouted q →
      Ends OnlyOpeningFails EndsRouted (update (·.setErrorState message)) q :=
    fun message q hq => endsRouted_of_stays hq (routeKept.update (fun _ => rfl) fun _ => rfl)
  refine endsIn_attempt (endsRouted_of_stays h routeKept.resetAdaptiveAfterEventFailure)
    fun reset q hq => ?_
  cases reset with
  | error e => exact hfailed _ q hq
  | ok _ =>
    refine ends_state trivial ?_
    split_ifs with hdirect
    · cases q.state.selectedOutputDevice with
      | none => exact hfailed _ q hq
      | some device => exact ends_publishDirectMpvError hq hdirect
    · exact hfailed _ q hq

theorem ends_applyAdaptiveDecoderRate (h : IsRouted p) :
    Ends OnlyOpeningFails EndsRouted (applyAdaptiveDecoderRate rateHz) p := by
  -- the rate can be set, so its failure is not published
  have hinner : Ends OnlyOpeningFails (Succeeds fun _ q => RouteKept p q)
      (applyAdaptiveDecoderRateInner rateHz) p := by
    refine ends_state trivial (.ite (fun _ => refl p) fun _ => ?_)
    refine (AdaptiveSystemRate.ends_applySourceSampleRate.and
      AdaptiveSystemRate.routeKept_applySourceSampleRate.ends).mono fun exit q hq => ?_
    cases exit with
    | returned _ => exact hq.2
    | failed e => exact hq.1.elim
    | died => trivial
  exact succeeds_attempt (fun q => trivial) hinner fun _ q hq => h.kept hq

theorem ends_dispatchPlaybackEvent {event : MpvEvent} (h : IsRouted p)
    (hexit : ∀ message, event ≠ .exitedUnexpectedly message) :
    Ends OnlyOpeningFails EndsRouted (dispatchPlaybackEvent event) p :=
  endsIn_dispatchPlaybackEvent routeKept (fun _ _ hp => hp.kept) (fun _ _ => trivial) h
    (fun _ _ _ hp _ => ends_applyAdaptiveDecoderRate hp) (fun _ hp => ends_handleMpvError hp) hexit

/-! ### Runs -/

/-- mpv does not exit, and of what concerns the output only opening and probing a device
fails. -/
structure RouteEvent (event : Event) : Prop where
  mpvStays : ∀ move, event = .elsewhere move → move ≠ .mpvExits
  noExit : ∀ message fates, event ≠ .input (.event (.exitedUnexpectedly message)) fates
  fates : ∀ input fates, event = .input input fates → ∀ f ∈ fates, OnlyOpeningFails f

/-- No device fails to open or to be probed while another one is the output. -/
structure CalmRouteEvent (p : PlaybackController) (event : Event) : Prop extends
    RouteEvent event where
  opens : ∀ deviceId fates, event = .input (.selectDirectAlsaOutput deviceId) fates →
    p.state.outputMode = .directAlsa →
    p.state.selectedOutputDevice.map (·.id) ≠ some deviceId → ∀ f ∈ fates, Opens f

theorem ends_input {input : Input} (h : IsRouted p)
    (hallowed : ∀ fates, allowed fates → OnlyOpeningFails fates)
    (hexit : ∀ message, input ≠ .event (.exitedUnexpectedly message))
    (hopens : ∀ deviceId, input = .selectDirectAlsaOutput deviceId →
      p.state.outputMode = .directAlsa →
      p.state.selectedOutputDevice.map (·.id) ≠ some deviceId →
      ∀ fates, allowed fates → Opens fates) : Ends allowed EndsRouted input.program p := by
  by_cases hreport : ∃ report, input = .event report
  · obtain ⟨report, rfl⟩ := hreport
    exact (ends_dispatchPlaybackEvent h fun message heq =>
      hexit message (congrArg Input.event heq)).restrict hallowed
  · have hquiet : ∀ report, input ≠ .event report := fun report heq => hreport ⟨report, heq⟩
    cases hinput : input.setsOutput with
    | false => exact (endsRouted_of_stays h (routeKept.program hinput hquiet)).restrict hallowed
    | true =>
      cases input with
      | enableAdaptiveSystemRate =>
        exact (endsIn_done (endsRouted_enableAdaptiveSystemRate h)).restrict hallowed
      | selectDirectAlsaOutput deviceId =>
        exact endsIn_done (ends_selectDirectAlsaOutput h hallowed (hopens deviceId rfl))
      | fallbackToSystemOutput =>
        exact (endsIn_done (ends_fallbackToSystemOutput h)).restrict hallowed
      | _ => cases hinput

theorem IsRouted.step {event : Event} {q : PlaybackController} (h : IsRouted p)
    (hperform : perform p event = some q) (hcalm : CalmRouteEvent p event) : IsRouted q := by
  cases event with
  | input input fates =>
    have hends : Ends (· ∈ fates) EndsRouted input.program p :=
      ends_input h (hcalm.fates input fates rfl)
        (fun message heq => hcalm.noExit message fates (heq ▸ rfl))
        fun deviceId heq => hcalm.opens deviceId fates (heq ▸ rfl)
    exact handled_of_ends hperform (fun f hf => hf) hends (fun _ hr => hr) fun _ _ hr => hr
  | elsewhere move =>
    cases hperform
    cases move with
    | mpvExits => exact absurd rfl (hcalm.mpvStays _ rfl)
    | mpvAdvances => exact h.kept ⟨rfl, rfl, ⟨rfl, rfl, rfl, rfl⟩, rfl, rfl⟩
    | plugs devices => exact h.kept ⟨rfl, rfl, refl p.process, rfl, rfl⟩
    | timePasses milliseconds => exact h.kept ⟨rfl, rfl, refl p.process, rfl, rfl⟩

end Ends

/-- A started player, over what is outside. -/
def IsStarted (p : PlaybackController) : Prop :=
  ∃ forcedRate isMarked plugged, p = .started forcedRate isMarked plugged

/-- Some run of calm events of a started player leads here. -/
def ReachableCalmRoute : PlaybackController → Prop :=
  Transition.Reachable IsStarted fun p event q => perform p event = some q ∧ CalmRouteEvent p event

/-- The output agrees after every run in which no device fails to open while another one
is the output. -/
theorem output_route_agrees {p : PlaybackController} (h : ReachableCalmRoute p) : Agrees p := by
  have hrouted : IsRouted p := by
    refine h.invariant ?_ fun p event q hp hstep => hp.step hstep.1 hstep.2
    rintro _ ⟨forcedRate, isMarked, plugged, rfl⟩
    refine ⟨⟨⟨rfl, rfl⟩, rfl, fun hmode => ?_, iff_of_false ?_ ?_⟩, rfl⟩
    · cases hmode
    · exact Bool.false_ne_true
    · exact fun hmode => OutputMode.noConfusion hmode
  exact hrouted.toAgrees

/-! ### A device that does not open -/

/-- Some run in which only opening and probing fail leads here. -/
def ReachableRoute : PlaybackController → Prop :=
  Transition.Reachable IsStarted fun p event q => perform p event = some q ∧ RouteEvent event

def headphones : OutputDevice := ⟨"hw:0,0", "USB Headphones"⟩

def speakers : OutputDevice := ⟨"hw:1,0", "Speakers"⟩

def onlyTrack : Source where
  type := "track"
  parsed := .ok ⟨"track-1", "http://127.0.0.1/track-1", some 60000⟩
  sampleRateHz := none
  hasTrackGain := false
  hasAlbumGain := false
  others := ""

/-- The device does not take the source's format. -/
def unsupportedFates : Fates := fun site call =>
  if site = .observeDirect ∧ call = .observeFormat then .fails false else .done

theorem onlyOpeningFails_unsupported : OnlyOpeningFails unsupportedFates := by
  intro site call hconcerns hopening
  rw [unsupportedFates]
  split_ifs with h
  · obtain ⟨rfl, rfl⟩ := h
    cases hopening
  · rfl

theorem onlyOpeningFails_done : OnlyOpeningFails fun _ _ => .done := fun _ _ _ _ => rfl

theorem routeEvent_input {input : Input} {count : ℕ} {fates : Fates}
    (hinput : ∀ message, input ≠ .event (.exitedUnexpectedly message))
    (h : OnlyOpeningFails fates) :
    RouteEvent (.input input (List.replicate count fates)) where
  mpvStays _ heq := Event.noConfusion heq
  noExit message _ heq := hinput message (Event.input.inj heq).1
  fates input given heq f hf := by
    injection heq with _ hgiven
    rw [← hgiven] at hf
    exact List.eq_of_mem_replicate hf ▸ h

def chooseHeadphones : Event :=
  .input (.selectDirectAlsaOutput "hw:0,0") (List.replicate 9 fun _ _ => .done)

def playOnHeadphones : Event :=
  .input (.play (some onlyTrack)) (List.replicate 20 fun _ _ => .done)

def chooseUnsupported : Event :=
  .input (.selectDirectAlsaOutput "hw:1,0") (List.replicate 9 unsupportedFates)

/-- A player with both devices plugged in. -/
def withDevices : PlaybackController := .started none false [headphones, speakers]

theorem calm_chooseHeadphones : CalmRouteEvent withDevices chooseHeadphones where
  toRouteEvent := routeEvent_input (fun _ => Input.noConfusion) onlyOpeningFails_done
  opens _ _ _ hdirect := by cases hdirect

/-- The device that plays is not the one that the catalog watches. -/
theorem output_route_disagrees : ¬∀ p, ReachableRoute p → Agrees p := by
  intro h
  have hrefused : (((perform withDevices chooseHeadphones).bind (perform · playOnHeadphones)).bind
      (perform · chooseUnsupported)).map
      (fun p => (p.state.outputMode, p.state.selectedOutputDevice, p.outputDevices.selected)) =
        some (.directAlsa, some headphones, some speakers) := by
    decide +kernel
  obtain ⟨r, hr, hroutes⟩ := Option.map_eq_some_iff.mp hrefused
  obtain ⟨q, hq, hqr⟩ := Option.bind_eq_some_iff.mp hr
  obtain ⟨p, hp, hpq⟩ := Option.bind_eq_some_iff.mp hq
  have hagrees := h r ⟨withDevices, [chooseHeadphones, playOnHeadphones, chooseUnsupported],
    ⟨none, false, _, rfl⟩,
    .cons ⟨hp, routeEvent_input (fun _ => Input.noConfusion) onlyOpeningFails_done⟩
      (.cons ⟨hpq, routeEvent_input (fun _ => Input.noConfusion) onlyOpeningFails_done⟩
        (.cons ⟨hqr, routeEvent_input (fun _ => Input.noConfusion) onlyOpeningFails_unsupported⟩
          (.nil r)))⟩
  obtain ⟨hmode, hdevices⟩ := Prod.mk.inj hroutes
  obtain ⟨hselected, hwatched⟩ := Prod.mk.inj hdevices
  have hsame := hagrees.watched hmode
  rw [hselected, hwatched] at hsame
  exact absurd hsame (by decide)

/-- A device that opens is the output that everything agrees on. -/
theorem output_route_agrees_headphones :
    ∃ p, perform withDevices chooseHeadphones = some p ∧ Agrees p := by
  have hopened : (perform withDevices chooseHeadphones).isSome = true := by decide +kernel
  obtain ⟨p, hp⟩ := Option.isSome_iff_exists.mp hopened
  exact ⟨p, hp, output_route_agrees ⟨withDevices, [chooseHeadphones], ⟨none, false, _, rfl⟩,
    .cons ⟨hp, calm_chooseHeadphones⟩ (.nil p)⟩⟩

end Harmony.Player
