/-
# Handing off and changing the slider

With calm fates, each of these commands leads from one book to another, and so does a
kill in it.
-/

import Harmony.DeviceVolume.Books

namespace Harmony.DeviceVolume

open Crash Crash.Program

section Commands

variable {K : Type} [Field K] [LinearOrder K] {allowed : Label → Fate → Prop} {d t : Desktop K}
  {core : Core K}

/-- A property of the state a command leaves, and of what its kill leaves. -/
def Ends (P : Desktop K → Prop) : Exit String Unit → Desktop K → Prop
  | .died, t => P t.kill
  | _, t => P t

variable [IsStrictOrderedRing K] {Q : Exit String Unit → Desktop K → Prop}

theorem ensures_update {c : Command} {f : ProcessingState K → ProcessingState K}
    (h : d.Sound) (hcore : d.core = some core) (hc : c = .handOff ∨ c = .slide)
    (hnonneg : 0 ≤ (f d.settings).softwareVolume) (hle : (f d.settings).softwareVolume ≤ 1)
    (hwanted : (f d.settings).softwareVolume * core.handed ≤ d.chosen) :
    Ensures Calm (updateProcessingLocked c f) (fun exit t =>
      match exit with
      | .returned _ => t = d.held core (f d.settings) (f d.settings)
          (f d.settings).softwareVolume d.stderr
      | .failed _ => t.Sound
      | .died => t.kill.Sound) d := by
  obtain ⟨-, volume, hmpv⟩ := h.synced core hcore
  have hsaved : ∀ n, ¬Calm (c, .rollbackSave) (.fails n) := by
    intro n hcalm
    rcases hc with rfl | rfl
    · exact hcalm n rfl
    · exact hcalm n rfl
  have hold : d.settings.softwareVolume * core.handed ≤ d.chosen :=
    h.wanted_eq hcore ▸ h.wanted_le
  have hstart := h.held_self hcore hmpv
  have hupdate := ensures_updateProcessingLocked core d.stderr (f := f) hc hsaved
    (h.fits core hcore volume hmpv) (h.fits_of_le hcore h.volume_nonneg hold)
    (h.fits_of_le hcore hnonneg hwanted)
  rw [← hstart] at hupdate
  refine hupdate.mono ?_
  rintro (_ | _ | _) t ht
  · exact ht
  · obtain ⟨volume, stderr, hvolume, rfl⟩ := ht
    exact h.held d.settings stderr hcore h.volume_nonneg h.volume_le hold hvolume
  · obtain ⟨saved, processing, volume, stderr, hsaved, -, rfl⟩ := ht
    rcases hsaved with rfl | rfl
    · exact (h.toAccounted.held hcore h.volume_nonneg h.volume_le hold).kill
    · exact (h.toAccounted.held hcore hnonneg hle hwanted).kill

/-- A change of the slider, whatever becomes of it. -/
theorem ensures_setVolume (h : d.Sound) (hcore : d.core = some core) (value : K) :
    Ensures Calm (setVolume value) (Ends Desktop.Sound) d := by
  have hlow : 0 ≤ max 0 (min value 1) := le_max_left _ _
  have hhigh : max 0 (min value 1) ≤ 1 := max_le zero_le_one (min_le_right _ _)
  have hraised := h.choose (max d.chosen (max 0 (min value 1) * core.handed))
    (h.wanted_le.trans (le_max_left _ _)) fun core hcore volume hmpv =>
      ⟨(h.quiet core hcore volume hmpv).trans (le_max_left _ _), fun hnone =>
        ((h.fits core hcore volume hmpv).bare hnone).trans (le_max_left _ _)⟩
  refine .bind (ensures_change ?_ ?_)
  · rw [Desktop.handed_eq hcore]
    exact hraised.quiet
  · simp only [Desktop.handed_eq hcore]
    refine .bind ((ensures_update hraised hcore (.inr rfl) hlow hhigh (le_max_right _ _)).mono ?_)
    rintro (_ | _ | _) t ht
    · subst ht
      have hnew := hraised.held (withVolume value d.settings) d.stderr hcore hlow
        hhigh (le_max_right _ _) (hraised.fits_of_le hcore hlow (le_max_right _ _))
      have hlast := hnew.choose (max 0 (min value 1) * core.handed) le_rfl (by
        rintro _ ⟨⟩ _ ⟨⟩
        refine ⟨mul_le_mul_of_nonneg_left (h.book.gain_le hcore) hlow, fun hnone => ?_⟩
        rw [Core.handed, show core.attenuation = none from hnone, mul_one])
      exact ensures_change hlast.quiet hlast
    · exact ht
    · exact ht

omit [IsStrictOrderedRing K] in
/-- The route's volume changes, or the device stays as it is. -/
theorem ensures_changeDb {l : Label} {route : VolumeRoute} {factor : K}
    {Q : Exit String K → Desktop K → Prop} (hquiet : d.IsQuiet)
    (hallowed : ∀ fate, allowed l fate → fate = .done ∨ fate = .fails 0 ∨ fate = .dies 0)
    (hsink : d.isPresent = true → route = .systemSink →
      ({ d with gain := d.gain * factor } : Desktop K).IsQuiet ∧
        Q (.returned (d.taken route factor)) { d with gain := d.gain * factor })
    (hcard : d.isPresent = true → ∀ card, route = .alsaCard card →
      ({ d with gain := d.cardGain factor } : Desktop K).IsQuiet ∧
        Q (.returned (d.taken route factor)) { d with gain := d.cardGain factor })
    (habsent : d.isPresent = false → ∀ e, Q (.failed e) d)
    (hfailed : allowed l (.fails 0) → ∀ e, Q (.failed e) d)
    (hdied : allowed l (.dies 0) → Q .died d) :
    Ensures allowed (changeDb l route factor) Q d := by
  refine ensures_acknowledged_once hquiet hallowed ?_ ?_ (fun h => hfailed h _) hdied
  · intro applied t hrun
    cases hpresent : d.isPresent with
    | false => simp [hpresent] at hrun
    | true =>
      cases route with
      | systemSink =>
        obtain ⟨rfl, rfl⟩ : d.taken .systemSink factor = applied ∧ _ = t := by
          simpa [hpresent] using hrun
        exact hpresent ▸ hsink hpresent rfl
      | alsaCard card =>
        obtain ⟨rfl, rfl⟩ : d.taken (.alsaCard card) factor = applied ∧ _ = t := by
          simpa [hpresent] using hrun
        exact hpresent ▸ hcard hpresent card rfl
  · intro err hrun
    cases hpresent : d.isPresent with
    | false => exact habsent hpresent err
    | true => cases route <;> simp [hpresent] at hrun

omit [IsStrictOrderedRing K] in
theorem Desktop.Sound.report (h : d.Sound) (messages : List String) :
    ({ d with stderr := messages } : Desktop K).Sound :=
  { h with
    book := h.book.congr rfl rfl rfl
    fits := fun core hcore volume hmpv =>
      ⟨h.quiet core hcore volume hmpv, (h.fits core hcore volume hmpv).bare⟩ }

omit [Field K] [LinearOrder K] [IsStrictOrderedRing K] in
theorem ensures_report {describe : String → String} {failure : Option String}
    (hnone : failure = none → Q (.returned ()) d)
    (hsome : ∀ message, Q (.returned ()) { d with stderr := message :: d.stderr }) :
    Ensures allowed (report describe failure) Q d := by
  cases failure with
  | none => exact .pure (hnone rfl)
  | some error => exact ensures_eprintln (hsome _)

omit [IsStrictOrderedRing K] in
/-- A record that is surely written. -/
theorem ensures_writeRecord {l : Label} {record : DeviceAttenuationRecord K} (hquiet : d.IsQuiet)
    (hsure : ∀ fate, allowed l fate → fate = .done)
    (hpost : Q (.returned ()) { d with record := .saved record }) :
    Ensures allowed (writeDeviceAttenuationRecord l record) Q d := by
  refine .bind (.failureOf (ensures_act ?_ (fun _ _ h => by cases h) ?_ ?_))
  · intro _ a t hrun
    cases hrun
    exact ⟨hquiet.congr rfl rfl rfl, .pure hpost⟩
  · exact fun n h => absurd (hsure _ h) (by simp)
  · exact fun n h => absurd (hsure _ h) (by simp)

omit [IsStrictOrderedRing K] in
/-- A record that is surely removed. -/
theorem ensures_clearRecord {l : Label} (hquiet : d.IsQuiet)
    (hsure : ∀ fate, allowed l fate → fate = .done)
    (hpost : Q (.returned ()) { d with record := .absent }) :
    Ensures allowed (clearDeviceAttenuationRecord l) Q d := by
  refine .bind (.failureOf (ensures_atomic hquiet ?_ (fun _ h => by cases h) ?_ ?_))
  · intro a t hrun
    cases hrun
    exact ⟨hquiet.congr rfl rfl rfl, .pure hpost⟩
  · exact fun n h => absurd (hsure _ h) (by simp)
  · exact fun n h => absurd (hsure _ h) (by simp)

theorem handedOff_softwareVolume (state : ProcessingState K) :
    (handedOff state).softwareVolume = 1 := by
  rw [handedOff]
  split
  · rfl
  · simp [withVolume]

/-- The device has the volume: it is recorded, and mpv follows if it can. -/
theorem ensures_settleHandOff (attenuation : DeviceAttenuation K) (h : d.Sound)
    (hcore : d.core = some core) (hgain : d.gain = 1)
    (hvolume : attenuation.softwareVolume = d.settings.softwareVolume)
    (hwanted : d.settings.softwareVolume ≤ d.chosen)
    (hbounded : attenuation.record.IsBounded)
    (hcarrier : (core.holdsCard = true ∧ (∃ card, attenuation.route = .alsaCard card) ∧
          attenuation.target = none) ∨
        (core.holdsCard = false ∧ attenuation.route = .systemSink ∧
          ∃ name, attenuation.target = some name)) :
    Ensures Calm (settleHandOff attenuation (.ok attenuation.target)) (Ends Desktop.Sound)
      { d with gain := attenuation.applied } := by
  obtain ⟨hprocessing, volume, hmpv⟩ := h.synced core hcore
  have hchosen : 0 ≤ d.chosen := h.volume_nonneg.trans hwanted
  have hloud : volume * attenuation.applied ≤ d.chosen := by
    have hbefore := h.quiet core hcore volume hmpv
    rw [hgain, mul_one] at hbefore
    exact Desktop.mul_gain_le hbefore hchosen hbounded.applied_pos.le
      (hbounded.applied_le.trans hbounded.volume_le)
  -- The level heard is at the slider and on the device until mpv follows.
  have hhalf : ({ d with
      gain := attenuation.applied
      core := some { core with attenuation := some attenuation }
      record := .saved attenuation.record
      wanted := core.processing.softwareVolume * attenuation.softwareVolume } : Desktop K).Sound :=
    { h with
      wanted := by
        rw [hprocessing]
        rfl
      wanted_le := by
        rw [hprocessing, hvolume]
        exact (mul_le_of_le_one_right h.volume_nonneg h.volume_le).trans hwanted
      book := .handed _ attenuation rfl rfl hbounded rfl rfl hcarrier
      fits := by
        rintro _ ⟨⟩ volume' hvolume'
        cases hmpv.symm.trans hvolume'
        exact ⟨hloud, fun hnone => by cases hnone⟩
      synced := by
        intro core' hcore'
        cases hcore'
        exact ⟨hprocessing, volume, hmpv⟩ }
  have hhanded : ∀ {messages}, ({ d with
      gain := attenuation.applied
      core := some { core with attenuation := some attenuation }
      stderr := messages } : Desktop K).IsQuiet := .of_some rfl hmpv hloud
  have hstart : ({ d with gain := attenuation.applied }).withCore (fun core =>
      { core with attenuation := some attenuation }) = { d with
      gain := attenuation.applied
      core := some { core with attenuation := some attenuation } } := by
    rw [Desktop.withCore, hcore, Option.map_some]
  refine .bind (ensures_change (hstart ▸ .of_some rfl hmpv hloud) ?_)
  rw [hstart]
  refine .bind (ensures_writeRecord (.of_some rfl hmpv hloud) (fun _ h => h) ?_)
  refine .bind (ensures_note (.inl rfl) rfl (.of_some rfl hmpv hloud) ?_)
  have hfull : (handedOff d.settings).softwareVolume = 1 := handedOff_softwareVolume d.settings
  have hheard : (handedOff d.settings).softwareVolume * attenuation.softwareVolume ≤ d.chosen := by
    rw [hfull, one_mul, hvolume]
    exact hwanted
  have hnonneg : 0 ≤ (handedOff d.settings).softwareVolume := hfull ▸ zero_le_one
  refine Ensures.handleFailure
    (ensures_update hhalf rfl (.inl rfl) hnonneg hfull.le hheard) ?_ ?_ ?_
  · rintro _ t rfl
    have hfollowed := hhalf.held (handedOff d.settings) d.stderr rfl hnonneg hfull.le hheard
      (hhalf.fits_of_le rfl hnonneg hheard)
    exact ensures_report (fun _ => hfollowed) fun _ => hfollowed.report _
  · intro e t ht
    exact ensures_report (fun _ => ht) fun _ => ht.report _
  · exact fun _ ht => ht

/-- The device took all of the volume. -/
theorem ensures_handOffTarget (route : VolumeRoute) {applied volume : K} (h : d.Sound)
    (hcore : d.core = some core) (hholds : core.holdsCard = decide (route ≠ .systemSink))
    (hgain : d.gain = 1) (hvolume : volume = d.settings.softwareVolume)
    (hwanted : d.settings.softwareVolume ≤ d.chosen) (hpos : 0 < applied) (hle : applied ≤ volume) :
    Ensures Calm (do
        let target ← attempt (handOffTarget route)
        settleHandOff { route, applied, softwareVolume := volume, target := target.toOption.join }
          target) (Ends Desktop.Sound) { d with gain := applied } := by
  have hone : volume ≤ 1 := hvolume ▸ h.volume_le
  have hquiet : ({ d with gain := applied } : Desktop K).IsQuiet := by
    obtain ⟨-, level, hmpv⟩ := h.synced core hcore
    have hbefore := h.quiet core hcore level hmpv
    rw [hgain, mul_one] at hbefore
    exact .of_some hcore hmpv (Desktop.mul_gain_le hbefore (h.volume_nonneg.trans hwanted) hpos.le
      (hle.trans hone))
  refine .bind (.attempt (ensures_atomic hquiet ?_ ?_ ?_ ?_))
  · intro target t hrun
    cases route with
    | systemSink =>
      cases hrun
      exact ⟨hquiet, ensures_settleHandOff
        ⟨.systemSink, applied, volume, some d.sinkName⟩ h hcore hgain hvolume
        hwanted ⟨hpos, hle, hone⟩ (.inr ⟨by simpa using hholds, rfl, _, rfl⟩)⟩
    | alsaCard card =>
      cases hrun
      exact ⟨hquiet, ensures_settleHandOff ⟨.alsaCard card, applied, volume, none⟩ h
        hcore hgain hvolume hwanted ⟨hpos, hle, hone⟩
        (.inl ⟨by simpa using hholds, ⟨card, rfl⟩, rfl⟩)⟩
  · intro err hrun
    cases route with
    | systemSink => cases hrun
    | alsaCard card => cases hrun
  · exact fun n h => absurd h (by simp [Calm])
  · exact fun n h => absurd h (by simp [Calm])

/-- A raw card that carries nothing takes a step down. -/
theorem Desktop.Accounted.cardGain_mem {factor : K} (h : d.Accounted) (hgain : d.gain = 1)
    (hpos : 0 < factor) (hone : factor ≤ 1) : 0 < d.cardGain factor ∧ d.cardGain factor ≤ 1 := by
  rw [Desktop.cardGain, hgain, one_mul]
  exact ⟨lt_max_of_lt_right (lt_min hpos (zero_lt_one.trans_le h.le_highest)),
    max_le h.lowest_le ((min_le_left _ _).trans hone)⟩

/-- What the device takes of the volume leaves it no louder. -/
def Desktop.TakesEnough (d : Desktop K) (rounding : Rounding K) (route : VolumeRoute)
    (volume : K) : Prop :=
  0 < volume → volume < 1 →
    rounding.Accepts (d.taken route (rounding.step volume)) (rounding.step volume) →
    d.taken route (rounding.step volume) ≤ volume

/-- A hand-off while nothing is handed off, to a device that carries nothing. -/
theorem ensures_handOff {rounding : Rounding K} {route : VolumeRoute} (h : d.Sound)
    (hcore : d.core = some core) (hnone : core.attenuation = none) (hrecord : d.record = .absent)
    (hfree : core.holdsCard = true → d.gain = 1)
    (hstep : d.TakesEnough rounding route d.settings.softwareVolume) :
    Ensures Calm (handOffVolumeToDevice rounding route) (Ends Desktop.Sound) d := by
  obtain ⟨hprocessing, volume, hmpv⟩ := h.synced core hcore
  have hattenuation : d.attenuation = none := by rw [Desktop.attenuation, hcore]; exact hnone
  have hgain : d.gain = 1 := by
    cases h.book with
    | idle _ hcarries _ =>
      refine hcarries.elim id fun h => hfree ?_
      rw [← h.1, hcore, Option.any_some]
    | handed _ attenuation _ _ _ hsaved _ _ => exact absurd (hsaved.symm.trans hrecord) (by simp)
    | recorded record _ hsaved _ _ _ _ => exact absurd (hsaved.symm.trans hrecord) (by simp)
  have hwanted : d.settings.softwareVolume ≤ d.chosen := by
    have hheard := h.wanted_eq hcore ▸ h.wanted_le
    rwa [Desktop.handed_of_none hcore hattenuation, mul_one] at hheard
  let holding : Core K := { core with holdsCard := route ≠ .systemSink }
  have hholding : ({ d with core := some holding } : Desktop K).Sound :=
    { h with
      book := .idle hrecord (.inl hgain) hnone
      fits := by
        rintro _ ⟨⟩ volume' hvolume'
        exact ⟨h.quiet core hcore volume' hvolume', (h.fits core hcore volume' hvolume').bare⟩
      synced := by
        intro core' hcore'
        cases hcore'
        exact ⟨hprocessing, volume, hmpv⟩ }
  have hstart : d.withCore (fun core => { core with holdsCard := route ≠ .systemSink }) =
      { d with core := some holding } := by
    rw [Desktop.withCore, hcore, Option.map_some]
  refine .bind (ensures_change (hstart ▸ hholding.quiet) ?_)
  rw [hstart]
  refine .bind (.get ?_)
  dsimp only [andThen]
  split_ifs with hrange
  · have hvolume : core.processing.softwareVolume = d.settings.softwareVolume := by
      rw [hprocessing]
    have hpos := rounding.step_pos _ hrange.1
    rw [← hvolume] at hstep
    have hone : core.processing.softwareVolume ≤ 1 := hvolume ▸ h.volume_le
    have hchosen : 0 ≤ d.chosen := h.volume_nonneg.trans hwanted
    have hloud : ∀ gain, 0 ≤ gain → gain ≤ 1 →
        ({ d with core := some holding, gain } : Desktop K).IsQuiet := by
      intro gain hnonneg hle
      have hbefore := h.quiet core hcore volume hmpv
      rw [hgain, mul_one] at hbefore
      exact .of_some rfl hmpv (Desktop.mul_gain_le hbefore hchosen hnonneg hle)
    refine .bind (.attempt (ensures_changeDb hholding.quiet (fun _ h => h) ?_ ?_ ?_ ?_ ?_))
    · rintro - rfl
      have haccepted : rounding.Accepts (rounding.step core.processing.softwareVolume)
          (rounding.step core.processing.softwareVolume) :=
        ⟨le_mul_of_one_le_right hpos.le rounding.one_le,
          le_mul_of_one_le_right hpos.le rounding.one_le⟩
      have hle := hstep hrange.1 hrange.2 haccepted
      have hall := ensures_handOffTarget .systemSink hholding rfl rfl hgain hvolume hwanted hpos hle
      dsimp only
      rw [hgain, one_mul]
      refine ⟨hloud _ hpos.le (hle.trans hone), ?_⟩
      dsimp only [caught, andThen, Desktop.taken]
      rw [if_neg (not_not.mpr haccepted)]
      exact hall
    · rintro hpresent card rfl
      obtain ⟨hnextpos, hnextle⟩ :=
        hholding.cardGain_mem hgain hpos (rounding.step_le_one _ hone)
      have htaken : ∀ factor, ({ d with core := some holding } : Desktop K).taken (.alsaCard card)
          factor = ({ d with core := some holding } : Desktop K).cardGain factor := by
        intro factor
        rw [Desktop.taken, hgain, div_one]
      have hle : ({ d with core := some holding } : Desktop K).TakesEnough rounding
          (.alsaCard card) core.processing.softwareVolume := hstep
      rw [Desktop.TakesEnough, htaken] at hle
      rw [htaken]
      generalize ({ d with core := some holding } : Desktop K).cardGain
        (rounding.step holding.processing.softwareVolume) = next at *
      refine ⟨hloud next hnextpos.le hnextle, ?_⟩
      dsimp only [caught, andThen]
      split_ifs with haccepted
      · exact ensures_handOffTarget (.alsaCard card) hholding rfl rfl hgain hvolume hwanted hnextpos
          (hle hrange.1 hrange.2 haccepted)
      · -- The card hit its limit, and goes back to where it was.
        have hback : ({ d with core := some holding, gain := next } : Desktop K).cardGain next⁻¹ =
            d.gain := by
          rw [Desktop.cardGain, mul_inv_cancel₀ hnextpos.ne', min_eq_left h.le_highest,
            max_eq_right h.lowest_le, hgain]
        refine .bind
          (.attempt (ensures_changeDb (hloud next hnextpos.le hnextle) ?_ ?_ ?_ ?_ ?_ ?_))
        · exact fun fate h => .inl h
        · exact fun _ hsink => by cases hsink
        · rintro - card' -
          dsimp only at hback ⊢
          rw [hback]
          exact ⟨hholding.quiet, .pure hholding⟩
        · exact fun habsent => absurd (hpresent.symm.trans habsent) (by simp)
        · exact fun h => absurd h (by simp [Calm])
        · exact fun h => absurd h (by simp [Calm])
    · exact fun _ _ => ensures_eprintln (hholding.report _)
    · exact fun _ _ => ensures_eprintln (hholding.report _)
    · exact fun _ => hholding.kill
  · exact .pure hholding

end Commands

end Harmony.DeviceVolume
