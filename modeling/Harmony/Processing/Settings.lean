/-
# The settings in memory and in the file

Every operation but the rollback saves what memory is going to hold and changes memory
when that is done, so a failed save leaves both. The rollback changes memory first.
Whatever succeeds leaves a file that opens as what memory holds.
-/

import Harmony.Processing.Controller
import Mathlib.Tactic.FinCases
import Mathlib.Tactic.NormNum

namespace Harmony.Processing

open Player (OutputMode ReplayGainMode EffectiveReplayGainMode)

/-! ### One act after another -/

section Acts

variable {J α β : Type}

/-- Where the first act fails, the second is not done. -/
theorem Act.on_bind (act : Act J α) (next : α → Act J β) (d : Desktop J) :
    (act >>= next).on d =
      match act.on d with
      | (.ok value, d') => (next value).on d'
      | (.error error, d') => (.error error, d') := by
  rcases hact : act.on d with ⟨result, d'⟩
  have hrun : act d = (result, d') := hact
  cases result with
  | ok value =>
    change (ExceptT.bindCont next (act d).1) (act d).2 = _
    rw [hrun]
    rfl
  | error error =>
    change (ExceptT.bindCont next (act d).1) (act d).2 = _
    rw [hrun]
    rfl

theorem on_read (d : Desktop J) : (read : Act J _).on d = (.ok d.controller, d) := rfl

theorem on_change (f : ProcessingController → ProcessingController) (d : Desktop J) :
    (change f : Act J Unit).on d = (.ok (), { d with controller := f d.controller }) := rfl

theorem Act.on_tryCatch (act : Act J α) (handler : String → Act J α) (d : Desktop J) :
    Act.on (tryCatch act handler) d =
      match act.on d with
      | (.ok value, d') => (.ok value, d')
      | (.error error, d') => (handler error).on d' := by
  rcases hact : act.on d with ⟨result, d'⟩
  have hrun : act d = (result, d') := hact
  simp only [Act.on, tryCatch, tryCatchThe, MonadExceptOf.tryCatch, ExceptT.tryCatch, ExceptT.run,
    ExceptT.mk, StateT.run, bind, StateT.bind, hrun]
  cases result with
  | ok value => rfl
  | error error => rfl

end Acts

/-! ### What a save leaves -/

/-- What the file is to hold. -/
def ProcessingController.settings (controller : ProcessingController) :
    PersistedProcessingSettings :=
  .fromState controller.state controller.outputMode controller.selectedOutputDeviceId
    controller.volumeByOutputDevice

section Saves

variable {J : Type} (serde : Serde J) (saving : Saving)

/-- The controller in memory and in the file. -/
def saved (controller : ProcessingController) : Desktop J :=
  ⟨controller, some (serde.toString controller.settings)⟩

/-- A change to this controller: as a whole, or not at all. -/
def attempt (d : Desktop J) (controller : ProcessingController) : Except String Unit × Desktop J :=
  match saving with
  | .error error => (.error error, d)
  | .ok () => (.ok (), saved serde controller)

theorem on_persistSettings (state : ProcessingState) (outputMode : OutputMode)
    (deviceId : Option String) (d : Desktop J) :
    (persistSettings serde saving state outputMode deviceId).on d =
      match saving with
      | .error error => (.error error, d)
      | .ok () => (.ok (), ⟨d.controller, some (serde.toString
          (.fromState state outputMode deviceId d.controller.volumeByOutputDevice))⟩) := by
  rw [persistSettings, Act.on_bind, on_read]
  cases saving with
  | error error => rfl
  | ok _ => rfl

/-- Saved first, then changed in memory: both or neither. -/
theorem on_persist_change {state : ProcessingState} {outputMode : OutputMode}
    {deviceId : Option String} {f : ProcessingController → ProcessingController} {d : Desktop J}
    (h : (f d.controller).settings =
      .fromState state outputMode deviceId d.controller.volumeByOutputDevice) :
    (do persistSettings serde saving state outputMode deviceId; change f : Act J Unit).on d =
      attempt serde saving d (f d.controller) := by
  rw [Act.on_bind, on_persistSettings]
  cases saving with
  | error error => rfl
  | ok _ =>
    dsimp only
    rw [on_change, ← h]
    rfl

theorem on_setOutputMode (outputMode : OutputMode) (d : Desktop J) :
    (setOutputMode serde saving outputMode).on d =
      attempt serde saving d { d.controller with outputMode } := by
  rw [setOutputMode, Act.on_bind, on_read]
  exact on_persist_change serde saving rfl

theorem on_selectOutputDevice (deviceId : String) (d : Desktop J) :
    (selectOutputDevice serde saving deviceId).on d =
      attempt serde saving d { d.controller with selectedOutputDeviceId := some deviceId } := by
  rw [selectOutputDevice, Act.on_bind, on_read]
  exact on_persist_change serde saving rfl

theorem on_selectDirectAlsaOutput (deviceId : String) (d : Desktop J) :
    (selectDirectAlsaOutput serde saving deviceId).on d =
      attempt serde saving d { d.controller with
        outputMode := .directAlsa, selectedOutputDeviceId := some deviceId } := by
  rw [selectDirectAlsaOutput, Act.on_bind, on_read]
  exact on_persist_change serde saving rfl

theorem on_restore (state : ProcessingState) (d : Desktop J) :
    (restore serde saving state).on d = attempt serde saving d { d.controller with state } := by
  have hstep : (restore serde saving state).on d =
      (do
        persistSettings serde saving state d.controller.outputMode
          d.controller.selectedOutputDeviceId
        change fun controller => { controller with state } : Act J Unit).on d := by
    rw [restore, persistState, Act.on_bind, Act.on_bind, on_read, Act.on_bind]
  rw [hstep]
  exact on_persist_change serde saving rfl

theorem on_commit (update : ProcessingState → Except String ProcessingState) (d : Desktop J) :
    (commit serde saving update).on d =
      match update d.controller.state with
      | .error error => (.error error, d)
      | .ok candidate => attempt serde saving d { d.controller with state := candidate } := by
  rw [commit, Act.on_bind, on_read]
  dsimp only
  have hmk : Act.on (ExceptT.mk (pure (update d.controller.state))) d =
      (update d.controller.state, d) := rfl
  rw [Act.on_bind, hmk]
  cases update d.controller.state with
  | error error => rfl
  | ok candidate =>
    exact on_restore serde saving candidate d

/-- The volume that was remembered before is remembered again. -/
theorem putBack_insert (volumes : Volumes) (key : String) (volume : ℚ) :
    Volumes.putBack (volumes.insert key volume) key (volumes.lookup key) = volumes := by
  apply Finmap.ext_lookup
  intro other
  cases hprevious : volumes.lookup key with
  | some previous =>
    rw [Volumes.putBack]
    by_cases hkey : other = key
    · rw [hkey, Finmap.lookup_insert, hprevious]
    · rw [Finmap.lookup_insert_of_ne _ hkey, Finmap.lookup_insert_of_ne _ hkey]
  | none =>
    rw [Volumes.putBack]
    by_cases hkey : other = key
    · rw [hkey, Finmap.lookup_erase, hprevious]
    · rw [Finmap.lookup_erase_ne hkey, Finmap.lookup_insert_of_ne _ hkey]

/-- The controller with a volume set and remembered. -/
def ProcessingController.withVolume (controller : ProcessingController) (volume : ℚ) :
    ProcessingController :=
  { controller with
    volumeByOutputDevice := controller.volumeByOutputDevice.insert
      (outputVolumeKey controller.outputMode controller.selectedOutputDeviceId) volume
    state := withSoftwareVolume volume controller.state }

theorem softwareVolume_withVolume (controller : ProcessingController) (volume : ℚ) :
    (controller.withVolume volume).state.softwareVolume = volume := by
  rw [ProcessingController.withVolume]
  dsimp only
  rw [withSoftwareVolume, transitionToProcessed]
  split_ifs
  · rfl
  · rfl

theorem on_setSoftwareVolume (value : Option ℚ) (d : Desktop J) :
    (setSoftwareVolume serde saving value).on d =
      attempt serde saving d (d.controller.withVolume (clamped 0 1 value)) := by
  rw [setSoftwareVolume, Act.on_bind, on_read]
  dsimp only
  rw [Act.on_bind, on_change]
  dsimp only
  rw [Act.on_tryCatch, on_commit]
  dsimp only
  cases saving with
  | ok _ => rfl
  | error error =>
    dsimp only [attempt]
    rw [Act.on_bind, on_change]
    dsimp only
    rw [putBack_insert]
    rfl

/-- The controller with a snapshot put back. -/
def ProcessingController.rolledBack (controller : ProcessingController)
    (snapshot : ProcessingSnapshot) : ProcessingController :=
  { controller with
    state := snapshot.state, volumeByOutputDevice := snapshot.volumeByOutputDevice }

/-- The rollback is in memory however its save ends. -/
theorem on_restoreSnapshot (snapshot : ProcessingSnapshot) (d : Desktop J) :
    (restoreSnapshot serde saving snapshot).on d =
      match saving with
      | .error error => (.error error, { d with controller := d.controller.rolledBack snapshot })
      | .ok () => (.ok (), saved serde (d.controller.rolledBack snapshot)) := by
  rw [restoreSnapshot, Act.on_bind, on_change]
  dsimp only
  rw [persistState, Act.on_bind, on_read]
  dsimp only
  rw [on_persistSettings]
  rfl

end Saves

/-! ### The operations -/

/-- The operations that report how they end, the rollback apart. -/
inductive Operation
  | setOutputMode (outputMode : OutputMode)
  | selectOutputDevice (deviceId : String)
  | selectDirectAlsaOutput (deviceId : String)
  | setProfile (profile : ProcessingProfile)
  | setSoftwareVolume (value : Option ℚ)
  | enableReplayGain (mode : ReplayGainMode)
  | disableReplayGain
  | applyEqualizerPreset (preset : EqualizerPreset)
  | setEqualizerGain (index : ℕ) (value : Option ℚ)
  | restore (state : ProcessingState)

namespace Operation

def act {J : Type} (serde : Serde J) (saving : Saving) : Operation → Act J Unit
  | setOutputMode outputMode => Processing.setOutputMode serde saving outputMode
  | selectOutputDevice deviceId => Processing.selectOutputDevice serde saving deviceId
  | selectDirectAlsaOutput deviceId => Processing.selectDirectAlsaOutput serde saving deviceId
  | setProfile profile => Processing.setProfile serde saving profile
  | setSoftwareVolume value => Processing.setSoftwareVolume serde saving value
  | enableReplayGain mode => Processing.enableReplayGain serde saving mode
  | disableReplayGain => Processing.disableReplayGain serde saving
  | applyEqualizerPreset preset => Processing.applyEqualizerPreset serde saving preset
  | setEqualizerGain index value => Processing.setEqualizerGain serde saving index value
  | restore state => Processing.restore serde saving state

/-- The state that a change of it comes to. -/
def update (controller : ProcessingController) (state : ProcessingState) : ProcessingController :=
  { controller with state }

/-- The controller that an operation comes to. -/
def target (controller : ProcessingController) : Operation → Except String ProcessingController
  | setOutputMode outputMode => .ok { controller with outputMode }
  | selectOutputDevice deviceId => .ok { controller with selectedOutputDeviceId := some deviceId }
  | selectDirectAlsaOutput deviceId =>
    .ok { controller with outputMode := .directAlsa, selectedOutputDeviceId := some deviceId }
  | setProfile profile => .ok (update controller (withProfile profile controller.state))
  | setSoftwareVolume value => .ok (controller.withVolume (clamped 0 1 value))
  | enableReplayGain mode =>
    .ok (update controller (if mode = .off then withoutReplayGain controller.state
      else withReplayGain mode controller.state))
  | disableReplayGain => .ok (update controller (withoutReplayGain controller.state))
  | applyEqualizerPreset preset =>
      .ok (update controller (withEqualizerPreset preset controller.state))
  | setEqualizerGain index value =>
      (withEqualizerGain index value controller.state).map (update controller)
  | restore state => .ok (update controller state)

variable {J : Type} (serde : Serde J) (saving : Saving)

/-- An operation comes to its target in memory and in the file, or changes neither. -/
theorem on_act (operation : Operation) (d : Desktop J) :
    (operation.act serde saving).on d =
      match operation.target d.controller with
      | .error error => (.error error, d)
      | .ok controller => attempt serde saving d controller := by
  cases operation with
  | setOutputMode outputMode => exact on_setOutputMode serde saving outputMode d
  | selectOutputDevice deviceId => exact on_selectOutputDevice serde saving deviceId d
  | selectDirectAlsaOutput deviceId => exact on_selectDirectAlsaOutput serde saving deviceId d
  | setProfile profile =>
    rw [act, Processing.setProfile, on_commit]
    rfl
  | setSoftwareVolume value => exact on_setSoftwareVolume serde saving value d
  | enableReplayGain mode =>
    rw [act, Processing.enableReplayGain, target]
    by_cases hoff : mode = .off
    · rw [if_pos hoff, if_pos hoff, Processing.disableReplayGain, on_commit]
      rfl
    · rw [if_neg hoff, if_neg hoff, on_commit]
      rfl
  | disableReplayGain =>
    rw [act, Processing.disableReplayGain, on_commit]
    rfl
  | applyEqualizerPreset preset =>
    rw [act, Processing.applyEqualizerPreset, on_commit]
    rfl
  | setEqualizerGain index value =>
    rw [act, Processing.setEqualizerGain, on_commit, target]
    cases withEqualizerGain index value d.controller.state with
    | error error => rfl
    | ok state => rfl
  | restore state => exact on_restore serde saving state d

end Operation

/-! ### What holds of the settings -/

namespace ProcessingState

/-- The Direct profile does nothing to the sound, and no number is out of its bounds. -/
structure Proper (state : ProcessingState) : Prop where
  direct : state.profile = .direct →
    state.softwareVolume = 1 ∧ state.replayGainMode = .off ∧ state.equalizer.isEnabled = false
  gains : ∀ band, -12 ≤ state.equalizer.gainsDb band ∧ state.equalizer.gainsDb band ≤ 12
  volume : 0 ≤ state.softwareVolume ∧ state.softwareVolume ≤ 1

variable {state : ProcessingState}

theorem proper_default : defaultState.Proper where
  direct _ := ⟨rfl, rfl, rfl⟩
  gains band := by
    change -12 ≤ (0 : ℚ) ∧ (0 : ℚ) ≤ 12
    norm_num
  volume := by
    change 0 ≤ (1 : ℚ) ∧ (1 : ℚ) ≤ 1
    norm_num

/-- Whoever leaves the Direct profile may do anything within the bounds. -/
theorem proper_transition {isTransition : Bool} {notice : String}
    (hdirect : isTransition = false → state.profile = .direct →
      state.softwareVolume = 1 ∧ state.replayGainMode = .off ∧ state.equalizer.isEnabled = false)
    (hgains : ∀ band, -12 ≤ state.equalizer.gainsDb band ∧ state.equalizer.gainsDb band ≤ 12)
    (hvolume : 0 ≤ state.softwareVolume ∧ state.softwareVolume ≤ 1) :
    (transitionToProcessed isTransition notice state).Proper := by
  cases isTransition with
  | false => exact ⟨hdirect rfl, hgains, hvolume⟩
  | true =>
    refine ⟨fun h => ?_, hgains, hvolume⟩
    cases h

theorem Proper.withProfile (h : state.Proper) (profile : ProcessingProfile) :
    (withProfile profile state).Proper := by
  rw [Processing.withProfile]
  by_cases hdirect : profile = .direct
  · rw [if_pos hdirect]
    exact ⟨fun _ => ⟨rfl, rfl, rfl⟩, proper_default.gains, proper_default.volume⟩
  · rw [if_neg hdirect]
    exact ⟨fun hprofile => absurd hprofile hdirect, h.gains, h.volume⟩

theorem Proper.withSoftwareVolume (h : state.Proper) {volume : ℚ}
    (hvolume : 0 ≤ volume ∧ volume ≤ 1) :
    (withSoftwareVolume volume state).Proper := by
  apply proper_transition
  · intro hstays hdirect
    have hfull : ¬ (state.profile = .direct ∧ volume ≠ 1) := of_decide_eq_false hstays
    refine ⟨?_, (h.direct hdirect).2⟩
    by_contra hquiet
    exact hfull ⟨hdirect, hquiet⟩
  · exact h.gains
  · exact hvolume

theorem Proper.withoutReplayGain (h : state.Proper) : (withoutReplayGain state).Proper where
  direct hdirect := ⟨(h.direct hdirect).1, rfl, (h.direct hdirect).2.2⟩
  gains := h.gains
  volume := h.volume

theorem Proper.withReplayGain (h : state.Proper) (mode : ReplayGainMode) :
    (withReplayGain mode state).Proper := by
  apply proper_transition
  · intro hstays hdirect
    exact absurd hdirect (of_decide_eq_false hstays)
  · exact h.gains
  · exact h.volume

theorem presetGains_bounded (preset : EqualizerPreset) (band : Fin 10) :
    -12 ≤ presetGains preset band ∧ presetGains preset band ≤ 12 := by
  cases preset <;> fin_cases band <;> norm_num [presetGains]

theorem Proper.withEqualizerPreset (h : state.Proper) (preset : EqualizerPreset) :
    (withEqualizerPreset preset state).Proper := by
  apply proper_transition
  · intro hstays hdirect
    have hflat : ¬ (state.profile = .direct ∧ decide (preset ≠ .flat) = true) :=
      of_decide_eq_false hstays
    refine ⟨(h.direct hdirect).1, (h.direct hdirect).2.1, ?_⟩
    rw [← Bool.not_eq_true]
    exact fun hchosen => hflat ⟨hdirect, hchosen⟩
  · exact presetGains_bounded preset
  · exact h.volume

theorem clamped_bounded {low high : ℚ} (hlow : low ≤ 0) (hhigh : 0 ≤ high) (value : Option ℚ) :
    low ≤ clamped low high value ∧ clamped low high value ≤ high := by
  cases value with
  | none => exact ⟨hlow, hhigh⟩
  | some value =>
    refine ⟨le_max_left _ _, max_le (hlow.trans hhigh) (min_le_right _ _)⟩

theorem Proper.withEqualizerGain (h : state.Proper) {index : ℕ} {value : Option ℚ}
    {state' : ProcessingState} (hgain : withEqualizerGain index value state = .ok state') :
    state'.Proper := by
  rw [Processing.withEqualizerGain] at hgain
  by_cases hindex : index < 10
  · rw [dif_pos hindex] at hgain
    cases hgain
    apply proper_transition
    · intro hstays hdirect
      exact absurd hdirect (of_decide_eq_false hstays)
    · intro band
      dsimp only
      by_cases hband : band = ⟨index, hindex⟩
      · rw [hband, Function.update_self]
        exact clamped_bounded (by norm_num) (by norm_num) value
      · rw [Function.update_of_ne hband]
        exact h.gains band
    · exact h.volume
  · rw [dif_neg hindex] at hgain
    cases hgain

end ProcessingState

namespace ProcessingController

/-- The state is proper, and every volume that is remembered is within the bounds. -/
structure Proper (controller : ProcessingController) : Prop where
  state : controller.state.Proper
  volumes : ∀ key volume, controller.volumeByOutputDevice.lookup key = some volume →
    0 ≤ volume ∧ volume ≤ 1

variable {controller : ProcessingController}

theorem Proper.update (h : controller.Proper) {state : ProcessingState} (hstate : state.Proper) :
    (Operation.update controller state).Proper :=
  ⟨hstate, h.volumes⟩

theorem Proper.withVolume (h : controller.Proper) {volume : ℚ} (hvolume : 0 ≤ volume ∧ volume ≤ 1) :
    (controller.withVolume volume).Proper := by
  refine ⟨h.state.withSoftwareVolume hvolume, ?_⟩
  intro key other hother
  rw [ProcessingController.withVolume] at hother
  dsimp only at hother
  by_cases hkey : key = outputVolumeKey controller.outputMode controller.selectedOutputDeviceId
  · rw [hkey, Finmap.lookup_insert] at hother
    cases hother
    exact hvolume
  · rw [Finmap.lookup_insert_of_ne _ hkey] at hother
    exact h.volumes key other hother

end ProcessingController

/-- What an operation is asked for: a state that is put back is proper. -/
def Operation.Admissible : Operation → Prop
  | .restore state => state.Proper
  | _ => True

theorem ProcessingController.Proper.target {controller controller' : ProcessingController}
    (h : controller.Proper) {operation : Operation} (hadmissible : operation.Admissible)
    (htarget : operation.target controller = .ok controller') : controller'.Proper := by
  have hvolume : ∀ value, 0 ≤ clamped 0 1 value ∧ clamped 0 1 value ≤ 1 :=
    ProcessingState.clamped_bounded le_rfl zero_le_one
  cases operation with
  | setEqualizerGain index value =>
    rw [Operation.target] at htarget
    cases hgain : withEqualizerGain index value controller.state with
    | error error =>
      rw [hgain] at htarget
      cases htarget
    | ok state =>
      rw [hgain] at htarget
      cases htarget
      exact h.update (h.state.withEqualizerGain hgain)
  | setOutputMode outputMode =>
    cases htarget
    exact ⟨h.state, h.volumes⟩
  | selectOutputDevice deviceId =>
    cases htarget
    exact ⟨h.state, h.volumes⟩
  | selectDirectAlsaOutput deviceId =>
    cases htarget
    exact ⟨h.state, h.volumes⟩
  | setProfile profile =>
    cases htarget
    exact h.update (h.state.withProfile profile)
  | setSoftwareVolume value =>
    cases htarget
    exact h.withVolume (hvolume value)
  | enableReplayGain mode =>
    cases htarget
    split_ifs
    · exact h.update h.state.withoutReplayGain
    · exact h.update (h.state.withReplayGain mode)
  | disableReplayGain =>
    cases htarget
    exact h.update h.state.withoutReplayGain
  | applyEqualizerPreset preset =>
    cases htarget
    exact h.update (h.state.withEqualizerPreset preset)
  | restore state =>
    cases htarget
    exact h.update hadmissible

/-! ### Whole runs -/

/-- The player's controller, and the snapshots that were taken of it. -/
structure Session (J : Type) where
  desktop : Desktop J
  snapshots : List ProcessingSnapshot

/-- What happens to the controller. -/
inductive Event
  | operate (operation : Operation) (saving : Saving)
  | snapshot
  | rollback (place : ℕ) (saving : Saving)
  | reopen

def Event.Admissible : Event → Prop
  | .operate operation _ => operation.Admissible
  | _ => True

section Runs

variable {J : Type} (serde : Serde J) {reread : ℚ → ℚ}

/-- A start that fails leaves the file as it is. -/
def Session.step (s : Session J) : Event → Session J
  | .operate operation saving =>
    { s with desktop := ((operation.act serde saving).on s.desktop).2 }
  | .snapshot => { s with snapshots := s.snapshots ++ [s.desktop.controller.snapshot] }
  | .rollback place saving =>
    match s.snapshots[place]? with
    | some snapshot =>
        { s with desktop := ((restoreSnapshot serde saving snapshot).on s.desktop).2 }
    | none => s
  | .reopen =>
    match openStored serde s.desktop.stored with
    | .ok controller => ⟨{ s.desktop with controller }, []⟩
    | .error _ => s

/-- In memory, in the file and in the snapshots there is nothing improper. -/
structure Session.Proper (s : Session J) : Prop where
  controller : s.desktop.controller.Proper
  stored : ∀ controller, openStored serde s.desktop.stored = .ok controller → controller.Proper
  snapshots : ∀ snapshot ∈ s.snapshots,
    (s.desktop.controller.rolledBack snapshot).Proper

variable {serde} {controller : ProcessingController}

/-- What is proper, is proper as it is read again. -/
theorem ProcessingController.Proper.readBack (hserde : serde.Documented reread)
    (h : controller.Proper) {settings : PersistedProcessingSettings}
    (hread : controller.settings.ReadBack reread settings) : settings.controller.Proper := by
  have hvolume : ∀ x : ℚ, 0 ≤ x ∧ x ≤ 1 → 0 ≤ reread x ∧ reread x ≤ 1 := by
    rintro x ⟨hlow, hhigh⟩
    exact_mod_cast hserde.between x 0 1 (by norm_num) (by norm_num) (mod_cast hlow)
      (mod_cast hhigh)
  have hvolumes : ∀ key volume, settings.volumeByOutputDevice.lookup key = some volume →
      0 ≤ volume ∧ volume ≤ 1 := by
    intro key volume hlookup
    rw [hread.volumes] at hlookup
    obtain ⟨x, hx, rfl⟩ := Option.map_eq_some_iff.mp hlookup
    exact hvolume x (h.volumes key x hx)
  rw [hread.same]
  refine ⟨⟨fun hdirect => ?_, fun band => ?_, hvolume _ h.state.volume⟩, hvolumes⟩
  · obtain ⟨hfull, hoff⟩ := h.state.direct hdirect
    have hone := hserde.between 1 1 1 (by norm_num) (by norm_num) (by norm_num) (by norm_num)
    refine ⟨?_, hoff⟩
    change reread controller.state.softwareVolume = 1
    rw [hfull]
    exact le_antisymm (mod_cast hone.2) (mod_cast hone.1)
  · obtain ⟨hlow, hhigh⟩ := h.state.gains band
    exact_mod_cast hserde.between _ (-12) 12 le_rfl le_rfl (mod_cast hlow) (mod_cast hhigh)

theorem openStored_saved (hserde : serde.Documented reread) (controller : ProcessingController) :
    ∃ settings, openStored serde (saved serde controller).stored =
      .ok settings.controller ∧ controller.settings.ReadBack reread settings := by
  obtain ⟨settings, hsettings, hread⟩ := hserde.reads controller.settings
  refine ⟨settings, ?_, hread⟩
  rw [saved, openStored, stateFromJson, hsettings]

/-- A snapshot is proper whatever it is put back into. -/
theorem ProcessingController.Proper.rolledBack {snapshot : ProcessingSnapshot}
    (h : (controller.rolledBack snapshot).Proper) (other : ProcessingController) :
    (other.rolledBack snapshot).Proper :=
  ⟨h.state, h.volumes⟩

theorem Session.Proper.attempt (hserde : serde.Documented reread) {s : Session J}
    (h : s.Proper serde) (hcontroller : controller.Proper) (saving : Saving) :
    Session.Proper serde { s with desktop := (attempt serde saving s.desktop controller).2 } := by
  cases saving with
  | error error => exact h
  | ok _ =>
    refine ⟨hcontroller, ?_, ?_⟩
    · intro reopened hreopened
      obtain ⟨settings, hsaved, hread⟩ := openStored_saved hserde controller
      cases hsaved.symm.trans hreopened
      exact hcontroller.readBack hserde hread
    · intro snapshot hsnapshot
      exact (h.snapshots snapshot hsnapshot).rolledBack controller

theorem Session.Proper.step (hserde : serde.Documented reread) {s : Session J} (h : s.Proper serde)
    {event : Event} (hadmissible : event.Admissible) : (s.step serde event).Proper serde := by
  cases event with
  | operate operation saving =>
    rw [Session.step, Operation.on_act]
    cases htarget : operation.target s.desktop.controller with
    | error error => exact h
    | ok controller => exact h.attempt hserde (h.controller.target hadmissible htarget) saving
  | snapshot =>
    refine ⟨h.controller, h.stored, ?_⟩
    intro snapshot hsnapshot
    rcases List.mem_append.mp hsnapshot with hold | hnew
    · exact h.snapshots snapshot hold
    · obtain rfl := List.mem_singleton.mp hnew
      exact ⟨h.controller.state, h.controller.volumes⟩
  | rollback place saving =>
    rw [Session.step]
    cases hplace : s.snapshots[place]? with
    | none => exact h
    | some snapshot =>
      have hproper := h.snapshots snapshot (List.mem_of_getElem? hplace)
      dsimp only
      rw [on_restoreSnapshot]
      cases saving with
      | ok _ => exact h.attempt hserde hproper (.ok ())
      | error error =>
        refine ⟨hproper, h.stored, ?_⟩
        intro other hother
        exact (h.snapshots other hother).rolledBack _
  | reopen =>
    rw [Session.step]
    cases hopen : openStored serde s.desktop.stored with
    | error error => exact h
    | ok controller =>
      refine ⟨h.stored controller hopen, h.stored, ?_⟩
      rintro snapshot ⟨⟩

/-- Every run keeps the settings proper, by induction on its events. -/
theorem Session.Proper.run (hserde : serde.Documented reread) {s : Session J} (h : s.Proper serde)
    {events : List Event} (hadmissible : ∀ event ∈ events, event.Admissible) :
    (events.foldl (Session.step serde) s).Proper serde := by
  induction events generalizing s with
  | nil => exact h
  | cons event events ih =>
    exact ih (h.step hserde (hadmissible event List.mem_cons_self)) fun other hother =>
      hadmissible other (List.mem_cons_of_mem _ hother)

theorem ProcessingController.proper_fresh (h : openStored serde none = .ok controller) :
    controller.Proper := by
  cases h
  refine ⟨ProcessingState.proper_default, ?_⟩
  intro key volume hlookup
  rw [Finmap.lookup_empty] at hlookup
  cases hlookup

/-- From no settings or proper ones, every run keeps them proper; an operation that fails
changes nothing; what succeeds is found again in the file, its numbers as they are read. -/
theorem settings_proper (hserde : serde.Documented reread) :
    (∀ (stored : Option J) (controller : ProcessingController) (events : List Event),
      openStored serde stored = .ok controller → (stored ≠ none → controller.Proper) →
      (∀ event ∈ events, event.Admissible) →
      (events.foldl (Session.step serde) ⟨⟨controller, stored⟩, []⟩).desktop.controller.Proper) ∧
    (∀ (operation : Operation) (saving : Saving) (d d' : Desktop J) (error : String),
      (operation.act serde saving).on d = (.error error, d') → d' = d) ∧
    (∀ (operation : Operation) (saving : Saving) (d d' : Desktop J),
      (operation.act serde saving).on d = (.ok (), d') →
      ∃ reopened, openStored serde d'.stored = .ok reopened ∧
        d'.controller.settings.ReadBack reread reopened.settings) ∧
    ∀ (snapshot : ProcessingSnapshot) (saving : Saving) (d d' : Desktop J),
      (restoreSnapshot serde saving snapshot).on d = (.ok (), d') →
      ∃ reopened, openStored serde d'.stored = .ok reopened ∧
        d'.controller.settings.ReadBack reread reopened.settings := by
  refine ⟨?_, ?_, ?_, ?_⟩
  · intro stored controller events hopen hstored hadmissible
    have hproper : controller.Proper := by
      by_cases hfresh : stored = none
      · rw [hfresh] at hopen
        exact ProcessingController.proper_fresh hopen
      · exact hstored hfresh
    have hstart : Session.Proper serde ⟨⟨controller, stored⟩, []⟩ := by
      refine ⟨hproper, fun reopened hreopened => ?_, ?_⟩
      · have hsame : Except.ok controller = Except.ok reopened := hopen.symm.trans hreopened
        cases hsame
        exact hproper
      · rintro snapshot ⟨⟩
    exact (hstart.run hserde hadmissible).controller
  · intro operation saving d d' error hfails
    rw [Operation.on_act] at hfails
    cases htarget : operation.target d.controller with
    | error _ =>
      rw [htarget] at hfails
      exact (Prod.mk.inj hfails).2.symm
    | ok controller =>
      rw [htarget] at hfails
      cases saving with
      | error _ => exact (Prod.mk.inj hfails).2.symm
      | ok _ => cases (Prod.mk.inj hfails).1
  · intro operation saving d d' hdone
    rw [Operation.on_act] at hdone
    cases htarget : operation.target d.controller with
    | error _ =>
      rw [htarget] at hdone
      cases (Prod.mk.inj hdone).1
    | ok controller =>
      rw [htarget] at hdone
      cases saving with
      | error _ => cases (Prod.mk.inj hdone).1
      | ok _ =>
        obtain rfl := (Prod.mk.inj hdone).2
        obtain ⟨settings, hsaved, hread⟩ := openStored_saved hserde controller
        exact ⟨_, hsaved, hread⟩
  · intro snapshot saving d d' hdone
    rw [on_restoreSnapshot] at hdone
    cases saving with
    | error _ => cases (Prod.mk.inj hdone).1
    | ok _ =>
      obtain rfl := (Prod.mk.inj hdone).2
      obtain ⟨settings, hsaved, hread⟩ :=
        openStored_saved hserde (d.controller.rolledBack snapshot)
      exact ⟨_, hsaved, hread⟩

end Runs

/-- A file that holds the settings themselves. -/
def plainSerde : Serde PersistedProcessingSettings := ⟨id, .ok⟩

theorem documented_plainSerde : plainSerde.Documented id where
  reads settings := ⟨settings, rfl, rfl, fun _ => by rw [Option.map_id]; rfl⟩
  between _ _ _ _ _ hlow hhigh := ⟨hlow, hhigh⟩

/-- The controller of a first start. -/
def freshSession : Session PersistedProcessingSettings :=
  ⟨⟨⟨.system, none, ∅, defaultState⟩, none⟩, []⟩

theorem settings_proper_quiet :
    ([Event.operate (.setSoftwareVolume (some (1 / 2))) (.ok ()), .reopen,
      .operate (.setEqualizerGain 3 (some 20)) (.error "disk full")].foldl
        (Session.step plainSerde) freshSession).desktop.controller.Proper := by
  refine (settings_proper documented_plainSerde).1 none _ _ rfl (fun hsome => absurd rfl hsome) ?_
  intro event hevent
  simp only [List.mem_cons, List.not_mem_nil, or_false] at hevent
  rcases hevent with rfl | rfl | rfl <;> trivial

/-- The Direct profile at half volume, as it can be stored or put back. -/
def quietDirect : ProcessingState := { defaultState with softwareVolume := 1 / 2 }

theorem quietDirect_improper : ¬ quietDirect.Proper := by
  intro h
  have hvolume : (1 / 2 : ℚ) = 1 := (h.direct rfl).1
  norm_num at hvolume

/-- Nineteen steps of a twentieth, as a double and as it is read again, one bit less. -/
def writtenVolume : ℚ := 8556839292003943 / 2 ^ 53

def readVolume : ℚ := 8556839292003942 / 2 ^ 53

/-- A file that reads the system's volume so. -/
def nearlySerde : Serde PersistedProcessingSettings :=
  ⟨id, fun settings => .ok { settings with
    volumeByOutputDevice := settings.volumeByOutputDevice.insert "system" readVolume
    softwareVolume := readVolume }⟩

/-- A state that is put back need not be proper, nor one that is stored; a rollback whose
save fails has changed what is in memory; and a volume is not always read as it was. -/
theorem settings_not_always_proper :
    (¬ ∀ events : List Event,
      (events.foldl (Session.step plainSerde) freshSession).desktop.controller.Proper) ∧
    (¬ ∀ stored controller, openStored plainSerde stored = .ok controller → controller.Proper) ∧
    (¬ ∀ (events : List Event) (place : ℕ) (snapshot : ProcessingSnapshot) (saving : Saving)
      (d : Desktop PersistedProcessingSettings) (error : String),
      (events.foldl (Session.step plainSerde) freshSession).snapshots[place]? = some snapshot →
      (restoreSnapshot plainSerde saving snapshot).on
        (events.foldl (Session.step plainSerde) freshSession).desktop = (.error error, d) →
      d.controller = (events.foldl (Session.step plainSerde) freshSession).desktop.controller) ∧
    ¬ ∀ (operation : Operation) (d d' : Desktop PersistedProcessingSettings),
      (operation.act nearlySerde (.ok ())).on d = (.ok (), d') →
      ∃ reopened, openStored nearlySerde d'.stored = .ok reopened ∧
        reopened.settings = d'.controller.settings := by
  refine ⟨?_, ?_, ?_, ?_⟩
  · intro h
    exact quietDirect_improper (h [.operate (.restore quietDirect) (.ok ())]).state
  · intro h
    have hproper := h (some (.fromState quietDirect .system none ∅)) _ rfl
    exact quietDirect_improper ⟨hproper.state.direct, hproper.state.gains, hproper.state.volume⟩
  · intro h
    let events : List Event :=
      [.snapshot, .operate (.setSoftwareVolume (some (1 / 2))) (.ok ())]
    have hset : (events.foldl (Session.step plainSerde) freshSession).desktop.controller =
        freshSession.desktop.controller.withVolume (clamped 0 1 (some (1 / 2))) := by
      rw [List.foldl_cons, List.foldl_cons, List.foldl_nil, Session.step, Operation.on_act]
      rfl
    have hsame := h events 0 ⟨defaultState, ∅⟩ (.error "disk full") _ "disk full" rfl rfl
    have hvolume := congrArg (fun controller => controller.state.softwareVolume) (hsame.trans hset)
    have hhalf : (1 : ℚ) = clamped 0 1 (some (1 / 2)) :=
      hvolume.trans (softwareVolume_withVolume _ _)
    norm_num [clamped] at hhalf
  · intro h
    obtain ⟨reopened, hopen, hsame⟩ := h (.setSoftwareVolume (some writtenVolume))
      freshSession.desktop _ (by rw [Operation.on_act]; rfl)
    cases hopen
    have hvolume := congrArg PersistedProcessingSettings.softwareVolume hsame
    have hread : readVolume = clamped 0 1 (some writtenVolume) :=
      hvolume.trans (softwareVolume_withVolume _ _)
    norm_num [clamped, readVolume, writtenVolume] at hread

end Harmony.Processing
