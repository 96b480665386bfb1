/-
# The books of a hand-off

The invariant has a book for each place where a run can rest: nothing handed off, though a
card that is still held may carry what it took; a hand-off that the process holds; and one
that is only recorded, left by a kill or kept until its device returns. In every book, the
volume in the settings times the level that the record still owes is the level wanted.

Two writes of a return are not one. The fates that let nothing fall between such writes
are the calm ones.
-/

import Harmony.DeviceVolume.HandOffEffects

namespace Harmony.DeviceVolume

open Crash Crash.Program

section Books

variable {K : Type} [Field K] [LinearOrder K] {allowed : Label → Fate → Prop} {d t : Desktop K}
  {core : Core K}

/-! ### The fates of a calm run -/

/-- Nothing fails and nothing is cut off between two writes that have to agree: the
device and its record in a hand-off, the settings and the record in a return or a
recovery. A change of the device that is reported as failed has not happened. -/
def Calm : Label → Fate → Prop
  | (.handOff, .changeDevice), fate => fate = .done ∨ fate = .fails 0 ∨ fate = .dies 0
  | (.handOff, .undoPartial), fate => fate = .done
  | (.handOff, .resolveTarget), fate => fate = .done
  | (.handOff, .record), fate => fate = .done
  | (.handOff, .rollbackSave), fate => ∀ n, fate ≠ .fails n
  | (.handOff, _), _ => True
  | (.slide, .rollbackSave), fate => ∀ n, fate ≠ .fails n
  | (.slide, _), _ => True
  | (.giveBack, .save), fate => ∀ n, fate ≠ .fails n
  | (.giveBack, .undo), fate => fate = .done ∨ fate = .fails 0
  | (.giveBack, _), fate => fate = .done
  | (.release, _), _ => True
  | (.recover, .load), _ => True
  | (.recover, .read), fate => ∀ n, fate ≠ .fails n
  | (.recover, .saveAlone), fate => ∀ n, fate ≠ .fails n
  | (.recover, .undo), fate => fate = .done ∨ fate = .fails 0
  | (.recover, _), fate => fate = .done
  | (.retry, .undo), fate => fate = .done ∨ fate = .fails 0 ∨ fate = .dies 0
  | (.retry, _), fate => fate = .done

/-! ### The books -/

/-- The record of a hand-off that is not returned. -/
def DeviceAttenuation.record (attenuation : DeviceAttenuation K) : DeviceAttenuationRecord K :=
  { route := recordedRoute attenuation.route, target := attenuation.target
    applied := attenuation.applied, softwareVolume := attenuation.softwareVolume
    listenerLevelRestored := false }

namespace DeviceAttenuationRecord

/-- The device took no less than mpv had. -/
structure IsBounded (record : DeviceAttenuationRecord K) : Prop where
  applied_pos : 0 < record.applied
  applied_le : record.applied ≤ record.softwareVolume
  volume_le : record.softwareVolume ≤ 1

/-- The level that mpv does not have back. -/
def owed (record : DeviceAttenuationRecord K) : K :=
  if record.listenerLevelRestored then 1 else record.softwareVolume

/-- Undoing the record undoes what the device carries. -/
def IsUndoing (record : DeviceAttenuationRecord K) (d : Desktop K) : Prop :=
  (record.target = none ∧ d.gain = 1) ∨
    (∃ name, record.target = some name) ∧ record.route = .systemSink ∧ d.gain = record.applied

end DeviceAttenuationRecord

namespace Desktop

def attenuation (d : Desktop K) : Option (DeviceAttenuation K) := d.core.bind (·.attenuation)

/-- The level that mpv does not have back. -/
def owed (d : Desktop K) : K :=
  match d.record with
  | .saved record => record.owed
  | _ => 1

omit [LinearOrder K] in
theorem handed_of_some {attenuation : DeviceAttenuation K}
    (hattenuation : core.attenuation = some attenuation) :
    core.handed = attenuation.softwareVolume := by
  rw [Core.handed, hattenuation]

omit [LinearOrder K] in
theorem handed_of_none (hcore : d.core = some core) (hnone : d.attenuation = none) :
    core.handed = 1 := by
  have hattenuation : core.attenuation = none := by
    rwa [Desktop.attenuation, hcore] at hnone
  rw [Core.handed, hattenuation]

/-- The device carries nothing once a card that is held is released. -/
def CarriesNothing (d : Desktop K) : Prop :=
  d.gain = 1 ∨ d.core.any (·.holdsCard) = true ∧ 0 < d.gain ∧ d.gain ≤ 1

/-- Where a hand-off can rest. -/
inductive Book (d : Desktop K) : Prop
  | idle (hrecord : d.record = .absent) (hcarries : d.CarriesNothing) (hnone : d.attenuation = none)
  | handed (core : Core K) (attenuation : DeviceAttenuation K) (hcore : d.core = some core)
      (hattenuation : core.attenuation = some attenuation)
      (hbounded : attenuation.record.IsBounded) (hrecord : d.record = .saved attenuation.record)
      (hgain : d.gain = attenuation.applied)
      (hcarrier : (core.holdsCard = true ∧ (∃ card, attenuation.route = .alsaCard card) ∧
          attenuation.target = none) ∨
        (core.holdsCard = false ∧ attenuation.route = .systemSink ∧
          ∃ name, attenuation.target = some name))
  | recorded (record : DeviceAttenuationRecord K) (hbounded : record.IsBounded)
      (hrecord : d.record = .saved record) (hundoing : record.IsUndoing d)
      (hholds : ∀ core, d.core = some core → core.holdsCard = false) (hnone : d.attenuation = none)
      (hrestored : d.core ≠ none → record.listenerLevelRestored = true)

/-- What a kill leaves as it is. -/
structure Accounted (d : Desktop K) : Prop where
  notLouder : d.wasLouder = false
  lowest_le : d.lowest ≤ 1
  le_highest : 1 ≤ d.highest
  volume_nonneg : 0 ≤ d.settings.softwareVolume
  volume_le : d.settings.softwareVolume ≤ 1
  wanted : d.wanted = d.settings.softwareVolume * d.owed
  wanted_le : d.wanted ≤ d.chosen
  book : d.Book

/-- Between two commands. -/
structure Sound (d : Desktop K) : Prop extends d.Accounted where
  fits : ∀ core, d.core = some core → ∀ volume, core.mpv = some volume → d.Fits core volume
  synced : ∀ core, d.core = some core →
    core.processing = d.settings ∧ ∃ volume, core.mpv = some volume

theorem Sound.quiet (h : d.Sound) : d.IsQuiet :=
  fun core hcore volume hmpv => (h.fits core hcore volume hmpv).quiet

theorem CarriesNothing.release (h : d.CarriesNothing) : d.release.gain = 1 := by
  rw [Desktop.release]
  rcases h with hgain | ⟨hholds, -, -⟩
  · rw [hgain, ite_self]
  · rw [if_pos hholds]

theorem CarriesNothing.le_one (h : d.CarriesNothing) : d.gain ≤ 1 :=
  h.elim le_of_eq fun h => h.2.2

theorem CarriesNothing.congr (h : d.CarriesNothing) (hgain : t.gain = d.gain)
    (hholds : t.core.any (·.holdsCard) = d.core.any (·.holdsCard)) : t.CarriesNothing := by
  rwa [CarriesNothing, hgain, hholds]

theorem Book.kill (h : d.Book) : d.kill.Book := by
  cases h with
  | idle hrecord hcarries hnone => exact .idle hrecord (.inl hcarries.release) rfl
  | handed core attenuation hcore hattenuation hbounded hrecord hgain hcarrier =>
    have hundoing : attenuation.record.IsUndoing d.kill := by
      rcases hcarrier with ⟨hholds, -, htarget⟩ | ⟨hholds, hroute, htarget⟩
      · refine .inl ⟨htarget, ?_⟩
        simp [Desktop.kill, Desktop.release, hcore, hholds]
      · refine .inr ⟨htarget, by rw [DeviceAttenuation.record, hroute, recordedRoute], ?_⟩
        simp [Desktop.kill, Desktop.release, Desktop.withCore, hcore, hholds, hgain,
          DeviceAttenuation.record]
    exact .recorded _ hbounded hrecord hundoing (fun _ hcore => by cases hcore) rfl
      (fun hcore => absurd rfl hcore)
  | recorded record hbounded hrecord hundoing hholds hnone hrestored =>
    have hgain : d.kill.gain = d.gain := by
      rw [Desktop.kill, Desktop.release]
      cases hcore : d.core with
      | none => rfl
      | some core => simp [hholds core hcore]
    refine .recorded record hbounded hrecord ?_ (fun _ hcore => by cases hcore) rfl
      (fun hcore => absurd rfl hcore)
    rwa [DeviceAttenuationRecord.IsUndoing, hgain]

/-- A book is about the record, the device and the process. -/
theorem Book.congr (h : d.Book) (hrecord' : t.record = d.record) (hgain' : t.gain = d.gain)
    (hcore' : t.core = d.core) : t.Book := by
  cases h with
  | idle hrecord hcarries hnone =>
    refine .idle (hrecord'.trans hrecord) (hcarries.congr hgain' (by rw [hcore'])) ?_
    rwa [Desktop.attenuation, hcore']
  | handed core attenuation hcore hattenuation hbounded hrecord hgain hcarrier =>
    exact .handed core attenuation (hcore'.trans hcore) hattenuation hbounded
      (hrecord'.trans hrecord) (hgain'.trans hgain) hcarrier
  | recorded record hbounded hrecord hundoing hholds hnone hrestored =>
    refine .recorded record hbounded (hrecord'.trans hrecord) ?_ (hcore' ▸ hholds) ?_
      (hcore' ▸ hrestored)
    · rwa [DeviceAttenuationRecord.IsUndoing, hgain']
    · rwa [Desktop.attenuation, hcore']

variable {volume : K}

/-- Only the processing and mpv change. -/
theorem Book.held {saved processing : ProcessingState K} {stderr : List String} (h : d.Book)
    (hcore : d.core = some core) :
    (d.held core saved processing volume stderr).Book := by
  cases h with
  | idle hrecord hcarries hnone =>
    refine .idle hrecord (hcarries.congr rfl (by rw [hcore]; rfl)) ?_
    rwa [Desktop.attenuation, hcore] at hnone
  | handed core' attenuation hcore' hattenuation hbounded hrecord hgain hcarrier =>
    cases hcore'.symm.trans hcore
    exact .handed _ attenuation rfl hattenuation hbounded hrecord hgain hcarrier
  | recorded record hbounded hrecord hundoing hholds hnone hrestored =>
    refine .recorded record hbounded hrecord hundoing ?_ ?_ ?_
    · intro core' hcore'
      cases hcore'
      exact hholds core hcore
    · rwa [Desktop.attenuation, hcore] at hnone
    · exact fun _ => hrestored (by rw [hcore]; exact Option.some_ne_none core)

/-- While the process runs, the device carries no more than what is owed to mpv. -/
theorem Book.gain_le (h : d.Book) (hcore : d.core = some core) : d.gain ≤ core.handed := by
  cases h with
  | idle hrecord hcarries hnone =>
    rw [handed_of_none hcore hnone]
    exact hcarries.le_one
  | handed core' attenuation hcore' hattenuation hbounded hrecord hgain hcarrier =>
    cases hcore'.symm.trans hcore
    rw [hgain, handed_of_some hattenuation]
    exact hbounded.applied_le
  | recorded record hbounded hrecord hundoing hholds hnone hrestored =>
    rw [handed_of_none hcore hnone]
    rcases hundoing with ⟨-, hgain⟩ | ⟨-, -, hgain⟩
    · exact hgain.le
    · exact hgain ▸ hbounded.applied_le.trans hbounded.volume_le

theorem Book.owed_eq (h : d.Book) (hcore : d.core = some core) : d.owed = core.handed := by
  cases h with
  | idle hrecord hcarries hnone =>
    rw [handed_of_none hcore hnone, Desktop.owed, hrecord]
  | handed core' attenuation hcore' hattenuation hbounded hrecord hgain hcarrier =>
    cases hcore'.symm.trans hcore
    rw [handed_of_some hattenuation, Desktop.owed, hrecord]
    rfl
  | recorded record hbounded hrecord hundoing hholds hnone hrestored =>
    have hflag := hrestored (by rw [hcore]; exact Option.some_ne_none core)
    rw [handed_of_none hcore hnone, Desktop.owed, hrecord]
    exact if_pos hflag

/-- What the process holds of a hand-off is what is recorded and what the device
carries. -/
theorem Book.of_handed {attenuation : DeviceAttenuation K} (h : d.Book) (hcore : d.core = some core)
    (hattenuation : core.attenuation = some attenuation) :
    attenuation.record.IsBounded ∧ d.record = .saved attenuation.record ∧
      d.gain = attenuation.applied ∧
      ((core.holdsCard = true ∧ (∃ card, attenuation.route = .alsaCard card) ∧
          attenuation.target = none) ∨
        (core.holdsCard = false ∧ attenuation.route = .systemSink ∧
          ∃ name, attenuation.target = some name)) := by
  have hsome : d.attenuation = some attenuation := by
    rw [Desktop.attenuation, hcore]
    exact hattenuation
  cases h with
  | idle hrecord hcarries hnone => exact absurd (hnone.symm.trans hsome) (by simp)
  | handed core' attenuation' hcore' hattenuation' hbounded hrecord hgain hcarrier =>
    cases hcore'.symm.trans hcore
    cases hattenuation'.symm.trans hattenuation
    exact ⟨hbounded, hrecord, hgain, hcarrier⟩
  | recorded record hbounded hrecord hundoing hholds hnone hrestored =>
    exact absurd (hnone.symm.trans hsome) (by simp)

/-- A killed process leaves a state to start from. -/
theorem Accounted.kill (h : d.Accounted) : d.kill.Sound where
  notLouder := h.notLouder
  lowest_le := h.lowest_le
  le_highest := h.le_highest
  volume_nonneg := h.volume_nonneg
  volume_le := h.volume_le
  wanted := h.wanted
  wanted_le := h.wanted_le
  book := h.book.kill
  fits := fun _ hcore => by cases hcore
  synced := fun _ hcore => by cases hcore

theorem Accounted.held {saved processing : ProcessingState K} {stderr : List String}
    (h : d.Accounted) (hcore : d.core = some core) (hnonneg : 0 ≤ saved.softwareVolume)
    (hle : saved.softwareVolume ≤ 1) (hwanted : saved.softwareVolume * core.handed ≤ d.chosen) :
    (d.held core saved processing volume stderr).Accounted where
  notLouder := h.notLouder
  lowest_le := h.lowest_le
  le_highest := h.le_highest
  volume_nonneg := hnonneg
  volume_le := hle
  wanted := by
    rw [show (d.held core saved processing volume stderr).owed = core.handed from
      h.book.owed_eq hcore]
    rfl
  wanted_le := hwanted
  book := h.book.held hcore

theorem Sound.wanted_eq (h : d.Sound) (hcore : d.core = some core) :
    d.wanted = d.settings.softwareVolume * core.handed :=
  h.book.owed_eq hcore ▸ h.wanted

/-- Between two commands the desktop is held at its own processing. -/
theorem Sound.held_self (h : d.Sound) (hcore : d.core = some core) (hmpv : core.mpv = some volume) :
    d = d.held core d.settings d.settings volume d.stderr := by
  obtain ⟨hprocessing, -⟩ := h.synced core hcore
  have hsame : { core with processing := d.settings, mpv := some volume } = core := by
    rw [← hprocessing, ← hmpv]
  rw [Desktop.held, ← h.wanted_eq hcore, hsame, ← hcore]

variable [IsStrictOrderedRing K]

theorem Book.owed_mem (h : d.Book) : 0 ≤ d.owed ∧ d.owed ≤ 1 := by
  have hbounded : ∀ {record : DeviceAttenuationRecord K}, record.IsBounded →
      0 ≤ record.owed ∧ record.owed ≤ 1 := by
    intro record hbounded
    rw [DeviceAttenuationRecord.owed]
    split_ifs
    · exact ⟨zero_le_one, le_rfl⟩
    · exact ⟨(hbounded.applied_pos.trans_le hbounded.applied_le).le, hbounded.volume_le⟩
  cases h with
  | idle hrecord hcarries hnone =>
    rw [Desktop.owed, hrecord]
    exact ⟨zero_le_one, le_rfl⟩
  | handed core attenuation hcore hattenuation hsome hrecord hgain hcarrier =>
    rw [Desktop.owed, hrecord]
    exact hbounded hsome
  | recorded record hsome hrecord hundoing hholds hnone hrestored =>
    rw [Desktop.owed, hrecord]
    exact hbounded hsome

theorem Accounted.wanted_mem (h : d.Accounted) : 0 ≤ d.wanted ∧ d.wanted ≤ 1 := by
  obtain ⟨hnonneg, hle⟩ := h.book.owed_mem
  rw [h.wanted]
  exact ⟨mul_nonneg h.volume_nonneg hnonneg,
    (mul_le_of_le_one_right h.volume_nonneg hle).trans h.volume_le⟩

/-- mpv has the level back and nothing is recorded, and the device, once a card that is held
is released, is as before the hand-off. -/
structure IsReturned (t : Desktop K) (level : K) : Prop where
  gain : t.release.gain = 1
  record : t.record = .absent
  core : ∃ core, t.core = some core ∧ core.attenuation = none ∧ core.processing = t.settings ∧
    core.processing.softwareVolume = level ∧ core.mpv = some level

/-- What a return or a recovery that succeeds leads to. -/
def returned (d : Desktop K) (core : Core K) (gain : K) (stderr : List String) : Desktop K :=
  { d with
    gain, record := .absent, settings := core.processing, stderr
    core := some { core with mpv := some core.processing.softwareVolume, attenuation := none } }

theorem Accounted.returned (core : Core K) {gain : K} (stderr : List String) (h : d.Accounted)
    (hvolume : core.processing.softwareVolume = d.wanted)
    (hcarries : (d.returned core gain stderr).CarriesNothing) :
    (d.returned core gain stderr).Sound ∧ (d.returned core gain stderr).IsReturned d.wanted := by
  obtain ⟨hnonneg, hle⟩ := h.wanted_mem
  refine ⟨?_, hcarries.release, rfl, _, rfl, rfl, rfl, hvolume, by rw [← hvolume]⟩
  exact
    { notLouder := h.notLouder
      lowest_le := h.lowest_le
      le_highest := h.le_highest
      volume_nonneg := hvolume ▸ hnonneg
      volume_le := hvolume ▸ hle
      wanted := hvolume.symm.trans (mul_one _).symm
      wanted_le := h.wanted_le
      book := .idle rfl hcarries rfl
      fits := by
        rintro _ ⟨⟩ _ ⟨⟩
        rw [hvolume]
        exact ⟨(mul_le_of_le_one_right hnonneg hcarries.le_one).trans h.wanted_le,
          fun _ => h.wanted_le⟩
      synced := by
        intro core' hcore'
        cases hcore'
        exact ⟨rfl, _, rfl⟩ }

/-- What a return or a recovery leads to when the device cannot be undone yet. -/
def keptFor (d : Desktop K) (core : Core K) (record : DeviceAttenuationRecord K)
    (stderr : List String) : Desktop K :=
  { d with
    record := .saved { record with listenerLevelRestored := true }
    settings := core.processing, stderr
    core := some { core with mpv := some core.processing.softwareVolume, attenuation := none } }

theorem Accounted.keptFor {record : DeviceAttenuationRecord K} (core : Core K)
    (stderr : List String) (h : d.Accounted) (hvolume : core.processing.softwareVolume = d.wanted)
    (hholds : core.holdsCard = false) (hbounded : record.IsBounded)
    (hundoing : record.IsUndoing d) : (d.keptFor core record stderr).Sound := by
  obtain ⟨hnonneg, hle⟩ := h.wanted_mem
  have hgain : d.gain ≤ 1 := by
    rcases hundoing with ⟨-, hgain⟩ | ⟨-, -, hgain⟩
    · exact hgain.le
    · exact hgain ▸ hbounded.applied_le.trans hbounded.volume_le
  exact
    { notLouder := h.notLouder
      lowest_le := h.lowest_le
      le_highest := h.le_highest
      volume_nonneg := hvolume ▸ hnonneg
      volume_le := hvolume ▸ hle
      wanted := hvolume.symm.trans (mul_one _).symm
      wanted_le := h.wanted_le
      book := .recorded { record with listenerLevelRestored := true }
        ⟨hbounded.applied_pos, hbounded.applied_le, hbounded.volume_le⟩ rfl hundoing
        (fun core' hcore' => Option.some.inj hcore' ▸ hholds) rfl fun _ => rfl
      fits := by
        rintro _ ⟨⟩ _ ⟨⟩
        rw [hvolume]
        exact ⟨(mul_le_of_le_one_right hnonneg hgain).trans h.wanted_le, fun _ => h.wanted_le⟩
      synced := by
        intro core' hcore'
        cases hcore'
        exact ⟨rfl, _, rfl⟩ }

/-- A lower level on a device that is no louder is no louder. -/
theorem mul_gain_le {volume chosen : K} (hle : volume ≤ chosen) (hchosen : 0 ≤ chosen) {gain : K}
    (hnonneg : 0 ≤ gain) (hone : gain ≤ 1) : volume * gain ≤ chosen := by
  rcases le_total 0 volume with hvolume | hvolume
  · exact (mul_le_of_le_one_right hvolume hone).trans hle
  · exact (mul_nonpos_of_nonpos_of_nonneg hvolume hnonneg).trans hchosen

theorem Sound.fits_of_le (h : d.Sound) (hcore : d.core = some core) {level : K}
    (hlevel : 0 ≤ level) (hle : level * core.handed ≤ d.chosen) : d.Fits core level where
  quiet := (mul_le_mul_of_nonneg_left (h.book.gain_le hcore) hlevel).trans hle
  bare hnone := by
    rwa [Core.handed, hnone, mul_one] at hle

omit [IsStrictOrderedRing K] in
/-- The listener chooses another level. -/
theorem Sound.choose (chosen : K) (h : d.Sound) (hwanted : d.wanted ≤ chosen)
    (hfits : ∀ core, d.core = some core → ∀ volume, core.mpv = some volume →
      ({ d with chosen } : Desktop K).Fits core volume) : ({ d with chosen } : Desktop K).Sound :=
  { h with
    wanted_le := hwanted
    book := h.book.congr rfl rfl rfl
    fits := hfits }

omit [IsStrictOrderedRing K] in
theorem Sound.held (state : ProcessingState K) (stderr : List String) (h : d.Sound)
    (hcore : d.core = some core) (hnonneg : 0 ≤ state.softwareVolume)
    (hle : state.softwareVolume ≤ 1) (hwanted : state.softwareVolume * core.handed ≤ d.chosen)
    (hvolume : d.Fits core volume) : (d.held core state state volume stderr).Sound where
  toAccounted := h.toAccounted.held hcore hnonneg hle hwanted
  fits := by
    rintro _ ⟨⟩ _ ⟨⟩
    exact ⟨hvolume.quiet, hvolume.bare⟩
  synced := by
    intro core' hcore'
    cases hcore'
    exact ⟨rfl, volume, rfl⟩

end Desktop

end Books

end Harmony.DeviceVolume
