/-
# Returning and recovering

A return lowers mpv and then gives the device back what was taken; a recovery does so
from the record. With calm fates, one that prints no error leaves nothing on the device
and the level handed off applied once.
-/

import Harmony.DeviceVolume.HandOffSteps

namespace Harmony.DeviceVolume

open Crash Crash.Program

section Returns

variable {K : Type} [Field K] [LinearOrder K] {allowed : Label → Fate → Prop} {d t : Desktop K}
  {core : Core K}

variable [IsStrictOrderedRing K]

/-! ### A return -/

omit [IsStrictOrderedRing K] in
theorem ensures_undoHandOffOn {l : Label} {applied : K} {Q : Exit String Bool → Desktop K → Prop}
    (hquiet : d.IsQuiet)
    (hallowed : ∀ fate, allowed l fate → fate = .done ∨ fate = .fails 0 ∨ fate = .dies 0)
    (hundone : ({ d with gain := d.gain * applied⁻¹ } : Desktop K).IsQuiet ∧
      Q (.returned true) { d with gain := d.gain * applied⁻¹ })
    (habsent : Q (.returned false) d)
    (hfailed : Q (.failed "The system output volume could not be set.") d)
    (hdied : allowed l (.dies 0) → Q .died d) :
    Ensures allowed (undoHandOffOn l .systemSink applied) Q d := by
  refine ensures_acknowledged_once hquiet hallowed ?_ ?_ (fun _ => hfailed) hdied
  · intro found t hrun
    cases hpresent : d.isPresent with
    | false =>
      obtain ⟨rfl, rfl⟩ : false = found ∧ d = t := by simpa [hpresent] using hrun
      exact ⟨hquiet, habsent⟩
    | true =>
      obtain ⟨rfl, rfl⟩ : true = found ∧ { d with gain := d.gain * applied⁻¹ } = t := by
        simpa [hpresent] using hrun
      exact hundone
  · intro err hrun
    cases hpresent : d.isPresent <;> simp [hpresent] at hrun

/-- A command that has to undo a hand-off: what it leaves is sound, and undone unless
the process is gone or printed anything but this. -/
def Undoes (d : Desktop K) (messages : List (List String)) : Exit String Unit → Desktop K → Prop
  | .died, t => t.kill.Sound
  | _, t => t.Sound ∧ (t.core ≠ none → t.stderr ∈ messages → t.IsReturned d.wanted)

omit [IsStrictOrderedRing K] in
theorem withVolume_softwareVolume {volume : K} (hnonneg : 0 ≤ volume) (hle : volume ≤ 1)
    (state : ProcessingState K) : (withVolume volume state).softwareVolume = volume := by
  rw [withVolume, min_eq_left hle, max_eq_right hnonneg]

theorem ensures_returnDeviceVolume {attenuation : DeviceAttenuation K} (h : d.Sound)
    (hcore : d.core = some core) (hattenuation : core.attenuation = some attenuation) :
    Ensures Calm returnDeviceVolume (Undoes d [d.stderr]) d := by
  obtain ⟨hprocessing, volume, hmpv⟩ := h.synced core hcore
  obtain ⟨hbounded, hrecord, hgain, hcarrier⟩ := h.book.of_handed hcore hattenuation
  obtain ⟨hnonneg, hle⟩ := h.wanted_mem
  have hlevel : returnedVolume core.processing.softwareVolume attenuation.softwareVolume =
      d.wanted := by
    rw [h.wanted_eq hcore, Desktop.handed_of_some hattenuation, hprocessing, returnedVolume]
  have hvolume : (withVolume d.wanted core.processing).softwareVolume = d.wanted :=
    withVolume_softwareVolume hnonneg hle _
  have hloud : d.wanted * d.gain ≤ d.chosen := by
    rw [hgain]
    exact (mul_le_of_le_one_right hnonneg (hbounded.applied_le.trans hbounded.volume_le)).trans
      h.wanted_le
  let bare : Core K := { core with attenuation := none }
  let lowered : Core K := { core with processing := withVolume d.wanted core.processing }
  have hbare : ({ d with core := some bare } : Desktop K).IsQuiet :=
    .of_some rfl hmpv (h.quiet core hcore volume hmpv)
  have hstart : d.withCore (fun core => { core with attenuation := none }) =
      { d with core := some bare } := by
    rw [Desktop.withCore, hcore, Option.map_some]
  have hkill : ({ d with core := some bare } : Desktop K).kill.Sound := by
    have hsame : ({ d with core := some bare } : Desktop K).kill = d.kill := by
      simp [Desktop.kill, Desktop.release, Desktop.withCore, hcore, bare]
    exact hsame ▸ h.kill
  -- Once mpv is lowered, the device may still carry the attenuation.
  have hlowered : ∀ {stderr}, ({ d with
      settings := lowered.processing
      stderr
      core := some { lowered with
        mpv := some lowered.processing.softwareVolume
        attenuation := none } } : Desktop K).IsQuiet :=
    .of_some rfl rfl (hvolume.symm ▸ hloud)
  have hkept : ∀ {error : String} {target}, attenuation.route = .systemSink →
      attenuation.target = some target →
      Undoes d [d.stderr] (.returned ())
        (d.keptFor lowered attenuation.record (error :: d.stderr)) := by
    intro error target hroute htarget
    have hholds : core.holdsCard = false := by
      rcases hcarrier with ⟨-, ⟨card, hcard⟩, -⟩ | ⟨hholds, -, -⟩
      · exact absurd (hroute.symm.trans hcard) (by simp)
      · exact hholds
    refine ⟨h.keptFor lowered _ hvolume hholds hbounded
      (.inr ⟨⟨target, htarget⟩, by rw [DeviceAttenuation.record, hroute, recordedRoute],
        hgain⟩), ?_⟩
    simp [Desktop.keptFor]
  refine .bind (.get ?_)
  simp only [andThen, hcore, hattenuation]
  refine .bind (ensures_change (hstart ▸ hbare) ?_)
  rw [hstart, hlevel]
  refine .bind (.bind (.failureOf (ensures_lower bare rfl hmpv hbare ?_ ?_ ?_ ?_ ?_)))
  · exact hvolume.symm ▸ hloud
  · exact fun n h => h n rfl
  · intro p fate hsave hundo hfate
    cases p <;> first | exact hfate | exact absurd rfl hsave | exact absurd rfl hundo
  · refine .pure ?_
    rcases hcarrier with ⟨hholds, ⟨card, hroute⟩, htarget⟩ | ⟨hholds, hroute, target, htarget⟩
    · -- The card carries the attenuation until it is released.
      have hreturn : returnToDevice attenuation = pure true := by
        rw [returnToDevice, hroute]
        rfl
      dsimp only [andThen]
      rw [hreturn]
      refine .bind (.attempt (.pure ?_))
      refine ensures_clearRecord hlowered (fun _ h => h) ?_
      have hcarried : 0 < d.gain ∧ d.gain ≤ 1 := by
        rw [hgain]
        exact ⟨hbounded.applied_pos, hbounded.applied_le.trans hbounded.volume_le⟩
      obtain ⟨hsound, hreturned⟩ := h.returned lowered d.stderr hvolume (.inr ⟨hholds, hcarried⟩)
      exact ⟨hsound, fun _ _ => hreturned⟩
    · have hreturn : returnToDevice attenuation =
          undoHandOffOn (.giveBack, .undo) .systemSink attenuation.applied := by
        rw [returnToDevice, hroute, htarget]
        rfl
      have hback : d.gain * attenuation.applied⁻¹ = 1 := by
        rw [hgain]
        exact mul_inv_cancel₀ hbounded.applied_pos.ne'
      dsimp only [andThen]
      rw [hreturn]
      refine .bind (.attempt (ensures_undoHandOffOn hlowered ?_ ?_ ?_ ?_ ?_))
      · exact fun _ h => h.elim .inl fun h => .inr (.inl h)
      · have hrestored : ∀ {record}, ({ d with
            gain := d.gain * attenuation.applied⁻¹
            record
            settings := lowered.processing
            core := some { lowered with
              mpv := some lowered.processing.softwareVolume
              attenuation := none } } : Desktop K).IsQuiet := by
          refine .of_some rfl rfl ?_
          rw [hback, mul_one, hvolume]
          exact h.wanted_le
        refine ⟨hrestored, ensures_clearRecord hrestored (fun _ h => h) ?_⟩
        obtain ⟨hsound, hreturned⟩ := h.returned lowered d.stderr hvolume (.inl hback)
        exact ⟨hsound, fun _ _ => hreturned⟩
      · refine .bind (ensures_eprintln ?_)
        exact ensures_writeRecord hlowered (fun _ h => h) (hkept hroute htarget)
      · refine .bind (ensures_eprintln ?_)
        exact ensures_writeRecord hlowered (fun _ h => h) (hkept hroute htarget)
      · exact fun h => absurd h (by simp [Calm])
  · exact hkill

/-! ### A recovery -/

/-- The processing is loaded, and mpv does not run yet. -/
def Desktop.opened (d : Desktop K) (processing : ProcessingState K) : Desktop K :=
  { d with settings := processing, core := some ⟨processing, none, none, false⟩ }

/-- A recorded hand-off is undone, or kept for the next start. -/
def Settles (d : Desktop K) (processing : ProcessingState K) (record : DeviceAttenuationRecord K) :
    Exit String Unit → Desktop K → Prop
  | .returned _, t =>
    t = { d.opened processing with
      gain := 1, record := .absent, stderr := undoneMessage :: d.stderr } ∨
    ∃ message, message ≠ undoneMessage ∧ t = { d.opened processing with
      record := .saved { record with listenerLevelRestored := true }
      stderr := message :: d.stderr }
  | .failed _, _ => False
  | .died, t => record.listenerLevelRestored = true ∧ t = d.opened processing

omit [IsStrictOrderedRing K] in
theorem ensures_settleRecovery {record : DeviceAttenuationRecord K} {processing : ProcessingState K}
    (hrecord : d.record = .saved record) (hbounded : record.IsBounded)
    (hundoing : record.IsUndoing d) :
    Ensures Calm (do
        let undone ← attempt (undoRecordedHandOff (recoveryOf record, .undo) record)
        settleRecovery (recoveryOf record) record undone)
      (Settles d processing record) (d.opened processing) := by
  have hundo : ∀ fate, Calm (recoveryOf record, .undo) fate →
      fate = .done ∨ fate = .fails 0 ∨ fate = .dies 0 := by
    intro fate hfate
    rw [recoveryOf] at hfate
    split_ifs at hfate
    · exact hfate
    · exact hfate.elim .inl fun h => .inr (.inl h)
  have hretry : Calm (recoveryOf record, .undo) (.dies 0) →
      record.listenerLevelRestored = true := by
    intro hfate
    rw [recoveryOf] at hfate
    split_ifs at hfate with hflag
    · exact hflag
    · simp [Calm] at hfate
  have hclear : ∀ fate, Calm (recoveryOf record, .clear) fate → fate = .done := by
    intro fate hfate
    rw [recoveryOf] at hfate
    split_ifs at hfate
    · exact hfate
    · exact hfate
  have hquiet : ∀ {gain record messages}, ({ d.opened processing with
      gain, record, stderr := messages } : Desktop K).IsQuiet := .of_silent rfl rfl
  have hkeep : ∀ message, message ≠ undoneMessage → Ensures Calm (keepRecord record)
      (Settles d processing record) { d.opened processing with stderr := message :: d.stderr } := by
    intro message hmessage
    rw [keepRecord]
    split_ifs with hflag
    · refine .pure (.inr ⟨message, hmessage, ?_⟩)
      have hsame : { record with listenerLevelRestored := true } = record := by rw [← hflag]
      rw [hsame, ← hrecord]
      rfl
    · exact ensures_writeRecord hquiet (fun _ h => h) (.inr ⟨message, hmessage, rfl⟩)
  rcases hundoing with ⟨htarget, hgain⟩ | ⟨⟨target, htarget⟩, hroute, hgain⟩
  · have hnothing : undoRecordedHandOff (recoveryOf record, .undo) record = pure true := by
      rw [undoRecordedHandOff, htarget]
    rw [hnothing]
    refine .bind (.attempt (.pure ?_))
    refine .bind (ensures_eprintln (ensures_clearRecord hquiet hclear (.inl ?_)))
    rw [← hgain]
    rfl
  · have hsink : undoRecordedHandOff (recoveryOf record, .undo) record =
        undoHandOffOn (recoveryOf record, .undo) .systemSink record.applied := by
      rw [undoRecordedHandOff, htarget, hroute]
    have hback : (d.opened processing).gain * record.applied⁻¹ = 1 := by
      rw [Desktop.opened, hgain]
      exact mul_inv_cancel₀ hbounded.applied_pos.ne'
    rw [hsink]
    refine .bind (.attempt (ensures_undoHandOffOn hquiet hundo ⟨hquiet, ?_⟩ ?_ ?_ ?_))
    · rw [hback]
      exact .bind (ensures_eprintln (ensures_clearRecord hquiet hclear (.inl rfl)))
    · exact .bind (ensures_eprintln (hkeep _ (by decide)))
    · exact .bind (ensures_eprintln (hkeep _ (by decide)))
    · exact fun h => ⟨hretry h, rfl⟩

/-- The listener's level is back in the settings, unless it was before. -/
theorem ensures_restoreRecordedLevel {record : DeviceAttenuationRecord K} (h : d.Sound)
    (hrecord : d.record = .saved record) :
    Ensures Calm (restoreRecordedLevel record) (fun exit t =>
      match exit with
      | .returned _ => ∃ processing, processing.softwareVolume = d.wanted ∧
          (record.listenerLevelRestored = true → processing = d.settings) ∧
          t = d.opened processing
      | .failed _ => False
      | .died => t = d.opened d.settings) (d.opened d.settings) := by
  have howed : d.wanted = d.settings.softwareVolume * record.owed := by
    rw [h.wanted, Desktop.owed, hrecord]
  obtain ⟨hnonneg, hle⟩ := h.wanted_mem
  refine .bind (.get ?_)
  dsimp only [andThen, Desktop.opened]
  split_ifs with hflag
  · refine .pure ⟨d.settings, ?_, fun _ => rfl, rfl⟩
    rw [howed, DeviceAttenuationRecord.owed, if_pos hflag, mul_one]
  · have hlevel : returnedVolume d.settings.softwareVolume record.softwareVolume = d.wanted := by
      rw [howed, DeviceAttenuationRecord.owed, if_neg hflag, returnedVolume]
    rw [hlevel]
    have hvolume : (withVolume d.wanted d.settings).softwareVolume = d.wanted :=
      withVolume_softwareVolume hnonneg hle _
    refine .bind (.failureOf (ensures_commitAlone (.inr rfl) rfl (.of_silent rfl rfl) ?_ ?_ rfl))
    · exact fun n h => h n rfl
    · exact .pure ⟨withVolume d.wanted d.settings, hvolume, fun h => absurd h hflag, rfl⟩

theorem ensures_start (h : d.Sound) (hcore : d.core = none) :
    Ensures Calm start (Undoes d [d.stderr, undoneMessage :: d.stderr]) d := by
  have hkill : (d.opened d.settings).kill.Sound := by
    have hsame : (d.opened d.settings).kill = d.kill := by
      simp [Desktop.kill, Desktop.release, Desktop.withCore, Desktop.opened, hcore]
    exact hsame ▸ h.kill
  have hopened : (d.opened d.settings).IsQuiet := .of_silent rfl rfl
  refine .bind (ensures_atomic (.of_none hcore) ?_ (fun _ herror => by cases herror) ?_ ?_)
  · intro _ t hrun
    cases hrun
    refine ⟨hopened, ?_⟩
    cases h.book with
    | idle hrecord hcarries hnone =>
      have hgain : d.gain = 1 := hcarries.elim id fun h => by simp [hcore] at h
      have hvolume : d.settings.softwareVolume = d.wanted := by
        rw [h.wanted, Desktop.owed, hrecord, mul_one]
      obtain ⟨hsound, hreturned⟩ :=
        h.returned ⟨d.settings, none, none, false⟩ d.stderr hvolume (.inl hgain)
      rw [Desktop.returned, ← hrecord] at hsound hreturned
      refine .bind (.bind (.attempt (ensures_atomic hopened ?_ ?_ ?_ fun _ _ => hkill)))
      · intro file t hfile
        simp [hrecord] at hfile
      · intro error _
        refine .pure (ensures_change hsound.quiet ⟨hsound, fun _ _ => hreturned⟩)
      · exact fun n h => absurd rfl (h n)
    | handed core _ hsome => exact absurd (hcore.symm.trans hsome) (by simp)
    | recorded record hbounded hrecord hundoing hholds hnone hrestored =>
      refine .bind (.bind (.attempt (ensures_atomic hopened ?_ ?_ ?_ fun _ _ => hkill)))
      · intro file t hfile
        obtain ⟨rfl, rfl⟩ : RecordFile.saved record = file ∧ d.opened d.settings = t := by
          simpa [Desktop.opened, hrecord] using hfile
        refine ⟨hopened, ?_⟩
        refine (ensures_restoreRecordedLevel h hrecord).seq ?_ (fun _ _ h => h.elim) ?_
        · rintro _ t ⟨processing, hvolume, hsame, rfl⟩
          refine (ensures_settleRecovery hrecord hbounded hundoing).mono ?_
          rintro (_ | _ | _) t ht
          · rcases ht with rfl | ⟨message, hmessage, rfl⟩
            · obtain ⟨hsound, hreturned⟩ := h.returned ⟨processing, none, none, false⟩
                (undoneMessage :: d.stderr) hvolume (.inl rfl)
              exact ensures_change hsound.quiet ⟨hsound, fun _ _ => hreturned⟩
            · have hkept := h.keptFor ⟨processing, none, none, false⟩ (message :: d.stderr)
                hvolume rfl hbounded hundoing
              refine ensures_change hkept.quiet ⟨hkept, fun _ hprinted => ?_⟩
              simp [Desktop.withCore, hmessage] at hprinted
          · exact ht.elim
          · obtain ⟨hflag, rfl⟩ := ht
            rw [hsame hflag]
            exact hkill
        · rintro t rfl
          exact hkill
      · intro error hfile
        simp [hrecord] at hfile
      · exact fun n h => absurd rfl (h n)
  · exact fun _ _ => ⟨h, fun hsome => absurd hcore hsome⟩
  · exact fun _ _ => h.kill

end Returns

end Harmony.DeviceVolume
