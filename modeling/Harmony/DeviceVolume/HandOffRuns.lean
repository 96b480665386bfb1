/-
# A hand-off is undone once

In the runs of calm events every state keeps the books, so a hand-off is undone exactly
once and nothing is ever louder than the listener chose. A kill between the settings
and the record of a return is the run that is not calm: the next start applies the
level again.
-/

import Mathlib.Tactic.NormNum
import Harmony.Library.Transition
import Harmony.DeviceVolume.ReturnSteps

namespace Harmony.DeviceVolume

open Crash Crash.Program

section Runs

variable {K : Type} [Field K] [LinearOrder K] {allowed : Label → Fate → Prop} {d t : Desktop K}
  {core : Core K}

variable [IsStrictOrderedRing K] {fates : Label → ℕ → Fate} {program : Act K Unit}

omit [LinearOrder K] [IsStrictOrderedRing K] in
theorem runCommand_of_ensures {Q : Exit String Unit → Desktop K → Prop} {P : Desktop K → Prop}
    (h : Ensures allowed program Q d) (hfates : Allowed allowed fates)
    (hdied : ∀ t, Q .died t → P t.kill) (hreturned : ∀ a t, Q (.returned a) t → P t)
    (hfailed : ∀ e t, Q (.failed e) t → P t) : P (runCommand program fates d) := by
  obtain ⟨hpost, -⟩ := h fates hfates
  rw [runCommand]
  generalize program ⟨d, fates⟩ = result at hpost ⊢
  obtain ⟨exit, t, rest⟩ := result
  cases exit with
  | returned a => exact hreturned a t hpost
  | failed e => exact hfailed e t hpost
  | died => exact hdied t hpost

/-- An event at which nothing falls between two writes that have to agree. Nothing is handed
off over a record, to a card that still carries something, or to a device that takes less
than the volume; and no card is released while it has the volume. -/
structure CalmEvent (rounding : Rounding K) (d : Desktop K)
    (event : Event K × (Label → ℕ → Fate)) : Prop where
  fates : Allowed Calm event.2
  handOff : ∀ route, event.1 = .handOff route → d.record = .absent ∧
    (∀ core, d.core = some core → core.holdsCard = true → d.gain = 1) ∧
    d.TakesEnough rounding route d.settings.softwareVolume
  release : event.1 = .release → d.attenuation = none

/-- Nothing is handed off, and the listener's choice is in the settings. -/
structure Init (d : Desktop K) : Prop where
  core : d.core = none
  record : d.record = .absent
  gain : d.gain = 1
  lowest_le : d.lowest ≤ 1
  le_highest : 1 ≤ d.highest
  volume_nonneg : 0 ≤ d.settings.softwareVolume
  volume_le : d.settings.softwareVolume ≤ 1
  wanted : d.wanted = d.settings.softwareVolume
  chosen : d.chosen = d.settings.softwareVolume
  notLouder : d.wasLouder = false

/-- Some run of calm events leads here. -/
def ReachableCalmly (rounding : Rounding K) : Desktop K → Prop :=
  Transition.Reachable Init fun d event t =>
    perform rounding d event = some t ∧ CalmEvent rounding d event

omit [IsStrictOrderedRing K] in
theorem Init.sound (h : Init d) : d.Sound where
  notLouder := h.notLouder
  lowest_le := h.lowest_le
  le_highest := h.le_highest
  volume_nonneg := h.volume_nonneg
  volume_le := h.volume_le
  wanted := by rw [Desktop.owed, h.record, mul_one, h.wanted]
  wanted_le := by rw [h.wanted, h.chosen]
  book := .idle h.record (.inl h.gain) (by rw [Desktop.attenuation, h.core, Option.bind_none])
  fits := fun core hcore => absurd (hcore.symm.trans h.core) (by simp)
  synced := fun core hcore => absurd (hcore.symm.trans h.core) (by simp)

omit [IsStrictOrderedRing K] in
/-- What a command that has to undo a hand-off leaves. -/
theorem undone_of_ensures {messages : List (List String)}
    (h : Ensures Calm program (Undoes d messages) d) (hfates : Allowed Calm fates) :
    (runCommand program fates d).Sound ∧ ((runCommand program fates d).core ≠ none →
      (runCommand program fates d).stderr ∈ messages →
      (runCommand program fates d).IsReturned d.wanted) :=
  runCommand_of_ensures h hfates (fun _ ht => ⟨ht, fun hcore => absurd rfl hcore⟩)
    (fun _ _ ht => ht) fun _ _ ht => ht

omit [IsStrictOrderedRing K] in
theorem sound_of_ensures (h : Ensures Calm program (Ends Desktop.Sound) d)
    (hfates : Allowed Calm fates) :
    (runCommand program fates d).Sound :=
  runCommand_of_ensures h hfates (fun _ ht => ht) (fun _ _ ht => ht) fun _ _ ht => ht

omit [IsStrictOrderedRing K] in
/-- Nothing is returned when nothing is handed off. -/
theorem ensures_returnNothing (h : d.Sound) (hcore : d.core = some core)
    (hnone : core.attenuation = none) :
    Ensures Calm returnDeviceVolume (Ends Desktop.Sound) d := by
  refine .bind (.get ?_)
  simp only [andThen, hcore, hnone]
  exact .pure h

omit [IsStrictOrderedRing K] in
/-- PipeWire takes back a card that nothing is handed off to. -/
theorem Desktop.Sound.released (h : d.Sound) (hnone : d.attenuation = none) :
    d.release.Sound := by
  have hbare : ∀ core, d.core = some core → core.attenuation = none := by
    intro core hcore
    rwa [Desktop.attenuation, hcore] at hnone
  have hnone' : d.release.attenuation = none := by
    rw [← hnone, Desktop.attenuation, Desktop.attenuation, Desktop.release, Desktop.withCore]
    cases d.core <;> rfl
  have hcard : d.core.any (·.holdsCard) = false → d.release.gain = d.gain := by
    intro hfree
    simp only [Desktop.release, hfree, Bool.false_eq_true, if_false]
  refine { h with book := ?_, fits := ?_, synced := ?_ }
  · cases h.book with
    | idle hrecord hcarries _ => exact .idle hrecord (.inl hcarries.release) hnone'
    | handed core attenuation hcore hattenuation =>
      exact absurd (hattenuation.symm.trans (hbare core hcore)) (by simp)
    | recorded record hbounded hrecord hundoing hholds _ hrestored =>
      have hgain := hcard (by
        cases hcore : d.core with
        | none => rfl
        | some core => exact hholds core hcore)
      refine .recorded record hbounded hrecord ?_ ?_ hnone' fun hrunning => hrestored ?_
      · rwa [DeviceAttenuationRecord.IsUndoing, hgain]
      · intro core hcore
        obtain ⟨_, -, rfl⟩ := Option.map_eq_some_iff.mp hcore
        rfl
      · exact fun hcore => hrunning (by rw [Desktop.release, Desktop.withCore, hcore]; rfl)
  · intro core hcore volume hmpv
    obtain ⟨held, hheld, rfl⟩ := Option.map_eq_some_iff.mp hcore
    have hfits := h.fits held hheld volume hmpv
    refine ⟨?_, fun _ => hfits.bare (hbare held hheld)⟩
    change volume * (if d.core.any (·.holdsCard) then 1 else d.gain) ≤ d.chosen
    split_ifs
    · rw [mul_one]
      exact hfits.bare (hbare held hheld)
    · exact hfits.quiet
  · intro core hcore
    obtain ⟨held, hheld, rfl⟩ := Option.map_eq_some_iff.mp hcore
    exact h.synced held hheld

omit [IsStrictOrderedRing K] in
theorem ensures_releaseCard (h : d.Sound) (hnone : d.attenuation = none) :
    Ensures Calm releaseCard (Ends Desktop.Sound) d := by
  have hreleased := h.released hnone
  refine ensures_acknowledged h.quiet ?_ (fun _ herror => by cases herror) (fun _ _ => h) ?_
    (fun _ _ => h.kill) ?_
  · rintro _ t ⟨⟩
    exact ⟨hreleased.quiet, hreleased⟩
  · rintro _ _ _ t ⟨⟩
    exact hreleased
  · rintro _ _ _ t ⟨⟩
    exact hreleased.kill

theorem Desktop.Sound.step {rounding : Rounding K} {event : Event K × (Label → ℕ → Fate)}
    (h : d.Sound) (hperform : perform rounding d event = some t)
    (hcalm : CalmEvent rounding d event) : t.Sound := by
  obtain ⟨kind, fates⟩ := event
  have hplugged : ∀ isPresent, ({ d with isPresent } : Desktop K).Sound := fun _ =>
    { h with
      book := h.book.congr rfl rfl rfl
      fits := fun core hcore volume hmpv =>
        ⟨h.quiet core hcore volume hmpv, (h.fits core hcore volume hmpv).bare⟩ }
  cases hcore : d.core with
  | none =>
    cases kind with
    | start =>
      simp only [perform, hcore, Option.some.injEq] at hperform
      exact hperform ▸ (undone_of_ensures (ensures_start h hcore) hcalm.fates).1
    | plug isPresent =>
      simp only [perform, hcore, Option.some.injEq] at hperform
      exact hperform ▸ hcore ▸ hplugged isPresent
    | handOff | slide | giveBack | release | kill => simp [perform, hcore] at hperform
  | some core =>
    cases kind with
    | handOff route =>
      simp only [perform, hcore] at hperform
      split_ifs at hperform with hbegins
      cases hperform
      obtain ⟨hrecord, hfree, hstep⟩ := hcalm.handOff route rfl
      exact sound_of_ensures (ensures_handOff h hcore hbegins.1 hrecord (hfree core hcore) hstep)
        hcalm.fates
    | slide value =>
      simp only [perform, hcore, Option.some.injEq] at hperform
      exact hperform ▸ sound_of_ensures (ensures_setVolume h hcore value) hcalm.fates
    | giveBack =>
      simp only [perform, hcore, Option.some.injEq] at hperform
      cases hattenuation : core.attenuation with
      | none =>
        exact hperform ▸ sound_of_ensures (ensures_returnNothing h hcore hattenuation) hcalm.fates
      | some attenuation =>
        exact hperform ▸
          (undone_of_ensures (ensures_returnDeviceVolume h hcore hattenuation) hcalm.fates).1
    | release =>
      simp only [perform, hcore, Option.some.injEq] at hperform
      exact hperform ▸ sound_of_ensures (ensures_releaseCard h (hcalm.release rfl)) hcalm.fates
    | kill =>
      simp only [perform, hcore, Option.some.injEq] at hperform
      exact hperform ▸ h.kill
    | plug isPresent =>
      simp only [perform, hcore, Option.some.injEq] at hperform
      exact hperform ▸ hcore ▸ hplugged isPresent
    | start => simp [perform, hcore] at hperform

theorem ReachableCalmly.sound {rounding : Rounding K} (h : ReachableCalmly rounding d) : d.Sound :=
  h.invariant (fun _ => Init.sound) fun _ _ _ hsound hstep => hsound.step hstep.1 hstep.2

/-- So far it was never louder than the listener chose; and from here, with fates like
these, a return of what is handed off, or a start, that ends and prints no error leaves
nothing on the device, and mpv at the slider's value times the level handed off. -/
structure UndoesOnce (fated : (Label → ℕ → Fate) → Prop) (rounding : Rounding K)
    (d : Desktop K) : Prop where
  notLouder : d.wasLouder = false
  wanted : ∀ core, d.core = some core →
    d.wanted = core.processing.softwareVolume * core.handed
  giveBack : ∀ fates t core, fated fates → d.core = some core → core.attenuation ≠ none →
    perform rounding d (.giveBack, fates) = some t → t.core ≠ none → t.stderr = d.stderr →
    t.IsReturned d.wanted
  start : ∀ fates t, fated fates → perform rounding d (.start, fates) = some t → t.core ≠ none →
    t.stderr ∈ [d.stderr, undoneMessage :: d.stderr] → t.IsReturned d.wanted

/-- In every run of calm events, a hand-off is undone exactly once and nothing is ever
louder than the listener chose. -/
theorem calm_hand_off_undone_once {rounding : Rounding K} (h : ReachableCalmly rounding d) :
    UndoesOnce (Allowed Calm) rounding d where
  notLouder := h.sound.notLouder
  wanted := by
    intro core hcore
    rw [(h.sound.synced core hcore).1]
    exact h.sound.wanted_eq hcore
  giveBack := by
    intro fates t core hfates hcore hattenuation hperform hrunning hprinted
    obtain ⟨attenuation, hattenuation⟩ := Option.ne_none_iff_exists'.mp hattenuation
    simp only [perform, hcore] at hperform
    cases hperform
    exact (undone_of_ensures (ensures_returnDeviceVolume h.sound hcore hattenuation)
      hfates).2 hrunning (List.mem_singleton.mpr hprinted)
  start := by
    intro fates t hfates hperform hrunning hprinted
    cases hcore : d.core with
    | some core => simp [perform, hcore] at hperform
    | none =>
      simp only [perform, hcore] at hperform
      cases hperform
      exact (undone_of_ensures (ensures_start h.sound hcore) hfates).2 hrunning hprinted

end Runs

/-! ### A hand-off at a tenth of the volume -/

/-- A desktop at a tenth of the volume, before its first start. -/
def tenthDesktop : Desktop ℚ where
  gain := 1
  lowest := 1 / 1000
  highest := 1
  isPresent := true
  sinkName := "alsa_output.usb"
  settings := ⟨.processed, 1 / 10, false, false⟩
  record := .absent
  core := none
  stderr := []
  chosen := 1 / 10
  wanted := 1 / 10
  wasLouder := false

theorem tenthDesktop_init : Init tenthDesktop := by
  constructor <;> first | rfl | decide +kernel

/-- Steps that are not rounded, and a difference of a thousandth. -/
def finely : Rounding ℚ := ⟨id, 1001 / 1000, fun _ h => h, fun _ h => h, by norm_num⟩

/-- Nothing goes wrong. -/
def allDone : Label → ℕ → Fate := fun _ _ => .done

theorem allDone_calm : Allowed Calm allDone := by
  rintro ⟨command, part⟩ n
  cases command <;> cases part <;> simp [Calm, allDone]

/-- Killed in a return, just before the device is given back what was taken. -/
def killedBeforeUndo : Label → ℕ → Fate :=
  fun label _ => if label = (.giveBack, .undo) then .dies 0 else .done

/-- After a start. -/
def startedDesktop : Desktop ℚ :=
  { tenthDesktop with core := some ⟨tenthDesktop.settings, some (1 / 10), none, false⟩ }

def tenthAttenuation : DeviceAttenuation ℚ := ⟨.systemSink, 1 / 10, 1 / 10, some "alsa_output.usb"⟩

/-- After a start and a hand-off. -/
def handedOffDesktop : Desktop ℚ :=
  { tenthDesktop with
    gain := 1 / 10
    settings := ⟨.direct, 1, false, false⟩
    record := .saved tenthAttenuation.record
    core := some ⟨⟨.direct, 1, false, false⟩, some 1, some tenthAttenuation, false⟩ }

/-- After a kill in the return of the hand-off. -/
def cutDesktop : Desktop ℚ :=
  { handedOffDesktop with settings := ⟨.processed, 1 / 10, false, false⟩, core := none }

/-- After the start that follows. -/
def twiceDesktop : Desktop ℚ :=
  { cutDesktop with
    gain := 1
    settings := ⟨.processed, 1 / 100, false, false⟩
    record := .absent
    core := some ⟨⟨.processed, 1 / 100, false, false⟩, some (1 / 100), none, false⟩
    stderr := [undoneMessage] }

theorem tenth_starts : perform finely tenthDesktop (.start, allDone) = some startedDesktop := by
  decide +kernel

theorem tenth_handsOff :
    perform finely startedDesktop (.handOff .systemSink, allDone) = some handedOffDesktop := by
  decide +kernel

theorem tenth_hand_off_undone_once : UndoesOnce (Allowed Calm) finely handedOffDesktop := by
  have hstart : CalmEvent finely tenthDesktop (.start, allDone) :=
    ⟨allDone_calm, fun _ h => (by cases h), fun h => (by cases h)⟩
  have hhandOff : CalmEvent finely startedDesktop (.handOff .systemSink, allDone) := by
    refine ⟨allDone_calm, ?_, fun h => (by cases h)⟩
    rintro _ ⟨⟩
    exact ⟨rfl, fun _ _ _ => rfl, fun _ _ _ => le_rfl⟩
  have hreachable : ReachableCalmly finely handedOffDesktop :=
    ⟨tenthDesktop, _, tenthDesktop_init,
      .cons ⟨tenth_starts, hstart⟩ (.cons ⟨tenth_handsOff, hhandOff⟩ (.nil _))⟩
  exact calm_hand_off_undone_once hreachable

/-- Cut off between the two, the level handed off is applied by the return and again by
the next start. -/
theorem cut_return_undone_twice :
    ¬ ∀ d : Desktop ℚ, Transition.Reachable Init
      (fun d event t => perform finely d event = some t) d →
      UndoesOnce (fun _ => True) finely d := by
  intro hclaim
  have hcut : perform finely handedOffDesktop (.giveBack, killedBeforeUndo) = some cutDesktop := by
    decide +kernel
  have hreachable : Transition.Reachable Init (fun d event t => perform finely d event = some t)
      cutDesktop :=
    ⟨tenthDesktop, _, tenthDesktop_init,
      .cons tenth_starts (.cons tenth_handsOff (.cons hcut (.nil _)))⟩
  have hstart : perform finely cutDesktop (.start, allDone) = some twiceDesktop := by decide +kernel
  obtain ⟨core, hcore, -, -, -, hmpv⟩ := ((hclaim _ hreachable).start allDone _ trivial hstart
    (by decide +kernel) (by decide +kernel)).core
  cases hcore
  have htwice : (1 / 100 : ℚ) = 1 / 10 := Option.some.inj hmpv
  norm_num at htwice

end Harmony.DeviceVolume
