/-
# What each effect of a hand-off leaves

Every effect is followed by a look at the loudness, so each has to leave a desktop that
is not louder than was chosen. A change of the processing goes through the settings,
the memory and mpv; it takes place as a whole, or is rolled back, or is cut off with
either of the two in the settings.
-/

import Harmony.DeviceVolume.HandOff

namespace Harmony.DeviceVolume

open Crash Crash.Program

section Effects

variable {K : Type} [Field K] [LinearOrder K] {allowed : Label → Fate → Prop} {d t : Desktop K}
  {core : Core K} {Q : Exit String Unit → Desktop K → Prop} {l : Label}

/-! ### Effects -/

namespace Desktop

/-- mpv and the device together are no louder than was chosen. -/
def IsQuiet (d : Desktop K) : Prop :=
  ∀ core, d.core = some core → ∀ volume, core.mpv = some volume → volume * d.gain ≤ d.chosen

theorem IsQuiet.watch (h : d.IsQuiet) : d.watch = d := by
  have hlouder : (d.core.any fun core =>
      core.mpv.any fun volume => decide (d.chosen < volume * d.gain)) = false := by
    cases hcore : d.core with
    | none => rfl
    | some core =>
      cases hmpv : core.mpv with
      | none => simp only [Option.any_some, hmpv, Option.any_none]
      | some volume =>
        simp only [Option.any_some, hmpv, decide_eq_false_iff_not, not_lt]
        exact h core hcore volume hmpv
  rw [Desktop.watch, hlouder, Bool.or_false]

theorem IsQuiet.of_none (h : d.core = none) : d.IsQuiet := by
  intro core hcore
  rw [h] at hcore
  cases hcore

/-- mpv does not run. -/
theorem IsQuiet.of_silent (hcore : d.core = some core) (hmpv : core.mpv = none) : d.IsQuiet := by
  intro core' hcore' volume hvolume
  cases hcore.symm.trans hcore'
  rw [hmpv] at hvolume
  cases hvolume

theorem IsQuiet.of_some {volume : K} (hcore : d.core = some core) (hmpv : core.mpv = some volume)
    (hle : volume * d.gain ≤ d.chosen) : d.IsQuiet := by
  intro core' hcore' volume' hvolume'
  cases hcore.symm.trans hcore'
  cases hmpv.symm.trans hvolume'
  exact hle

/-- What the processing, mpv and the device do not read may change. -/
theorem IsQuiet.congr (h : d.IsQuiet) (hcore : t.core.bind (·.mpv) = d.core.bind (·.mpv))
    (hgain : t.gain = d.gain) (hchosen : t.chosen = d.chosen) : t.IsQuiet := by
  intro core ht volume hvolume
  rw [ht, Option.bind_some, hvolume] at hcore
  obtain ⟨core', hd, hvolume'⟩ := Option.bind_eq_some_iff.mp hcore.symm
  rw [hgain, hchosen]
  exact h core' hd volume hvolume'

end Desktop

theorem ensures_act {α : Type} {e : Effect (Desktop K) String α}
    {Q : Exit String α → Desktop K → Prop}
    (hdone : allowed l .done → ∀ a t, e.run d = .ok (a, t) → t.IsQuiet ∧ Q (.returned a) t)
    (hrefused : allowed l .done → ∀ err, e.run d = .error err → Q (.failed err) d)
    (hfails : ∀ n, allowed l (.fails n) → (e.part n d).IsQuiet ∧ Q (.failed e.fault) (e.part n d))
    (hdies : ∀ n, allowed l (.dies n) → (e.part n d).IsQuiet ∧ Q .died (e.part n d)) :
    Ensures allowed (act l e) Q d := by
  refine .perform ?_ ?_ ?_ ?_
  · intro hallowed a t hrun
    cases heffect : e.run d with
    | error err => simp only [heffect, Except.map, reduceCtorEq] at hrun
    | ok result =>
      obtain ⟨hquiet, hpost⟩ := hdone hallowed result.1 result.2 heffect
      simp only [heffect, Except.map] at hrun
      cases hrun
      rw [hquiet.watch]
      exact hpost
  · intro hallowed err hrun
    cases heffect : e.run d with
    | error err' =>
      simp only [heffect, Except.map, Except.error.injEq] at hrun
      exact hrun ▸ hrefused hallowed err' heffect
    | ok result => simp only [heffect, Except.map, reduceCtorEq] at hrun
  · intro n hallowed
    obtain ⟨hquiet, hpost⟩ := hfails n hallowed
    dsimp only
    rw [hquiet.watch]
    exact hpost
  · intro n hallowed
    obtain ⟨hquiet, hpost⟩ := hdies n hallowed
    dsimp only
    rw [hquiet.watch]
    exact hpost

/-- An effect that is done whole or not at all. -/
theorem ensures_atomic {α : Type} {run : Desktop K → Except String (α × Desktop K)} {fault : String}
    {Q : Exit String α → Desktop K → Prop} (hquiet : d.IsQuiet)
    (hdone : ∀ a t, run d = .ok (a, t) → t.IsQuiet ∧ Q (.returned a) t)
    (hrefused : ∀ err, run d = .error err → Q (.failed err) d)
    (hfails : ∀ n, allowed l (.fails n) → Q (.failed fault) d)
    (hdies : ∀ n, allowed l (.dies n) → Q .died d) :
    Ensures allowed (act l (.atomic run fault)) Q d :=
  ensures_act (fun _ => hdone) (fun _ => hrefused) (fun n h => ⟨hquiet, hfails n h⟩)
    fun n h => ⟨hquiet, hdies n h⟩

/-- An effect whose failure may come after its work. -/
theorem ensures_acknowledged {α : Type} {run : Desktop K → Except String (α × Desktop K)}
    {fault : String} {Q : Exit String α → Desktop K → Prop} (hquiet : d.IsQuiet)
    (hdone : ∀ a t, run d = .ok (a, t) → t.IsQuiet ∧ Q (.returned a) t)
    (hrefused : ∀ err, run d = .error err → Q (.failed err) d)
    (hundone : ∀ n, allowed l (.fails n) → Q (.failed fault) d)
    (hfailed : ∀ n, allowed l (.fails (n + 1)) → ∀ a t, run d = .ok (a, t) → Q (.failed fault) t)
    (hkilled : ∀ n, allowed l (.dies n) → Q .died d)
    (hdied : ∀ n, allowed l (.dies (n + 1)) → ∀ a t, run d = .ok (a, t) → Q .died t) :
    Ensures allowed (act l (.acknowledged run fault)) Q d := by
  refine ensures_act (fun _ => hdone) (fun _ => hrefused) ?_ ?_
  · intro n hallowed
    cases n with
    | zero => exact ⟨hquiet, hundone 0 hallowed⟩
    | succ n =>
      cases hrun : run d with
      | ok result =>
        simp only [Effect.acknowledged, hrun]
        exact ⟨(hdone _ _ hrun).1, hfailed n hallowed _ _ hrun⟩
      | error err =>
        simp only [Effect.acknowledged, hrun]
        exact ⟨hquiet, hundone _ hallowed⟩
  · intro n hallowed
    cases n with
    | zero => exact ⟨hquiet, hkilled 0 hallowed⟩
    | succ n =>
      cases hrun : run d with
      | ok result =>
        simp only [Effect.acknowledged, hrun]
        exact ⟨(hdone _ _ hrun).1, hdied n hallowed _ _ hrun⟩
      | error err =>
        simp only [Effect.acknowledged, hrun]
        exact ⟨hquiet, hkilled _ hallowed⟩

/-- An effect that has not happened when it fails. -/
theorem ensures_acknowledged_once {α : Type} {run : Desktop K → Except String (α × Desktop K)}
    {fault : String} {Q : Exit String α → Desktop K → Prop} (hquiet : d.IsQuiet)
    (hallowed : ∀ fate, allowed l fate → fate = .done ∨ fate = .fails 0 ∨ fate = .dies 0)
    (hdone : ∀ a t, run d = .ok (a, t) → t.IsQuiet ∧ Q (.returned a) t)
    (hrefused : ∀ err, run d = .error err → Q (.failed err) d)
    (hundone : allowed l (.fails 0) → Q (.failed fault) d)
    (hkilled : allowed l (.dies 0) → Q .died d) :
    Ensures allowed (act l (.acknowledged run fault)) Q d := by
  have hfails : ∀ n, allowed l (.fails n) → n = 0 := fun n h => by simpa using hallowed _ h
  have hdies : ∀ n, allowed l (.dies n) → n = 0 := fun n h => by simpa using hallowed _ h
  refine ensures_acknowledged hquiet hdone hrefused ?_ ?_ ?_ ?_
  · exact fun n h => hundone (hfails n h ▸ h)
  · exact fun n h => absurd (hfails _ h) n.succ_ne_zero
  · exact fun n h => hkilled (hdies n h ▸ h)
  · exact fun n h => absurd (hdies _ h) n.succ_ne_zero

theorem ensures_change {f : Desktop K → Desktop K} (hquiet : (f d).IsQuiet)
    (hpost : Q (.returned ()) (f d)) :
    Ensures allowed (change f) Q d :=
  .update (hquiet.watch.symm ▸ hpost)

omit [Field K] [LinearOrder K] in
theorem ensures_eprintln {message : String}
    (hpost : Q (.returned ()) { d with stderr := message :: d.stderr }) :
    Ensures allowed (eprintln message) Q d :=
  .update hpost

theorem ensures_persistState {state : ProcessingState K} (hquiet : d.IsQuiet)
    (hreturned : Q (.returned ()) { d with settings := state })
    (hfails : ∀ n, allowed l (.fails n) →
      Q (.failed "Failed to finalize Processing Profile settings") d)
    (hdied : ∀ n, allowed l (.dies n) → Q .died d) :
    Ensures allowed (persistState l state) Q d := by
  refine ensures_atomic hquiet ?_ (fun _ herror => by cases herror) hfails hdied
  intro a t hrun
  cases hrun
  exact ⟨hquiet.congr rfl rfl rfl, hreturned⟩

theorem ensures_applyProcessing {state : ProcessingState K} {volume : K}
    {Q : Exit String (ProcessingState K) → Desktop K → Prop} (hcore : d.core = some core)
    (hmpv : core.mpv = some volume) (hquiet : d.IsQuiet)
    (hnew : state.softwareVolume * d.gain ≤ d.chosen)
    (hreturned : Q (.returned state)
      { d with core := some { core with mpv := some state.softwareVolume } })
    (hundone : ∀ n, allowed l (.fails n) →
      Q (.failed "Native mpv did not apply the Processing Profile.") d)
    (hfailed : ∀ n, allowed l (.fails n) →
      Q (.failed "Native mpv did not apply the Processing Profile.")
        { d with core := some { core with mpv := some state.softwareVolume } })
    (hkilled : ∀ n, allowed l (.dies n) → Q .died d)
    (hdied : ∀ n, allowed l (.dies n) →
      Q .died { d with core := some { core with mpv := some state.softwareVolume } })
    :
    Ensures allowed (applyProcessing l state) Q d := by
  have hrunning : d.core.bind (·.mpv) = some volume := by rw [hcore, Option.bind_some, hmpv]
  have hplayed : (d.withCore fun core => { core with mpv := some state.softwareVolume }) =
      { d with core := some { core with mpv := some state.softwareVolume } } := by
    rw [Desktop.withCore, hcore]
    rfl
  refine ensures_acknowledged hquiet ?_ ?_ hundone ?_ hkilled ?_
  · intro a t hrun
    simp only [hrunning, hplayed] at hrun
    cases hrun
    exact ⟨.of_some rfl rfl hnew, hreturned⟩
  · intro err hrun
    simp only [hrunning, reduceCtorEq] at hrun
  · intro n hallowed a t hrun
    simp only [hrunning, hplayed] at hrun
    cases hrun
    exact hfailed _ hallowed
  · intro n hallowed a t hrun
    simp only [hrunning, hplayed] at hrun
    cases hrun
    exact hdied _ hallowed

/-- mpv at this volume is no louder than was chosen; nor is it without the device where
nothing is handed off, since a raw card may then be released. -/
structure Desktop.Fits (d : Desktop K) (core : Core K) (volume : K) : Prop where
  quiet : volume * d.gain ≤ d.chosen
  bare : core.attenuation = none → volume ≤ d.chosen

/-! ### A change of the processing that the listener sees -/

/-- The level handed off. -/
def Core.handed (core : Core K) : K :=
  match core.attenuation with
  | some attenuation => attenuation.softwareVolume
  | none => 1

omit [LinearOrder K] in
theorem Desktop.handed_eq (hcore : d.core = some core) : d.handed = core.handed := by
  simp only [Desktop.handed, hcore, Option.bind_some]
  rfl

/-- The desktop with this processing in the settings and in memory, and mpv at this
volume. -/
def Desktop.held (d : Desktop K) (core : Core K) (saved processing : ProcessingState K) (volume : K)
    (stderr : List String) : Desktop K :=
  { d with
    settings := saved
    wanted := saved.softwareVolume * core.handed
    core := some { core with processing, mpv := some volume }
    stderr }

theorem ensures_note {c : Command} (hc : c = .handOff ∨ c = .slide) (hcore : d.core = some core)
    (hquiet : d.IsQuiet)
    (hpost : Q (.returned ()) { d with wanted := core.processing.softwareVolume * core.handed }) :
    Ensures allowed (note c) Q d := by
  rcases hc with rfl | rfl
  all_goals
    refine ensures_change (hquiet.congr rfl rfl rfl) ?_
    simp only [hcore, Desktop.handed_eq hcore]
    rw [hcore] at hpost
    exact hpost

section Follow

variable {c : Command} {previous state saved processing : ProcessingState K} {volume : K}
  {stderr : List String} {f : ProcessingState K → ProcessingState K}

/-- Both in the settings and in memory, with mpv somewhere that is not too loud. -/
def Desktop.Stands (d : Desktop K) (core : Core K) (state : ProcessingState K) (t : Desktop K) :
    Prop :=
  ∃ volume stderr, d.Fits core volume ∧ t = d.held core state state volume stderr

/-- Cut off with either of two states in the settings. -/
def Desktop.Between (d : Desktop K) (core : Core K) (previous state : ProcessingState K)
    (t : Desktop K) : Prop :=
  ∃ saved processing volume stderr, (saved = previous ∨ saved = state) ∧
    d.Fits core volume ∧ t = d.held core saved processing volume stderr

/-- A rollback goes back to the state before, whatever mpv does. -/
theorem ensures_rollbackProcessing (hc : c = .handOff ∨ c = .slide)
    (hsaved : ∀ n, ¬allowed (c, .rollbackSave) (.fails n))
    (hwas : saved = previous ∨ saved = state) (hle : d.Fits core volume)
    (hprevious : d.Fits core previous.softwareVolume) :
    Ensures allowed (rollbackProcessing c previous) (fun exit t =>
      match exit with
      | .returned _ => d.Stands core previous t
      | .failed _ => False
      | .died => d.Between core previous state t)
      (d.held core saved processing volume stderr) := by
  refine .bind (ensures_change (.of_some rfl rfl hle.quiet) ?_)
  refine Ensures.handleFailure
    (R := fun exit t =>
      match exit with
      | .returned _ => t = d.held core previous previous volume stderr
      | .failed _ => False
      | .died => d.Between core previous state t) ?_ ?_ (fun _ _ h => h.elim) fun _ h => h
  · refine .bind (ensures_persistState (.of_some rfl rfl hle.quiet) ?_
      (fun n h => (hsaved n h).elim) fun _ _ => ⟨saved, previous, volume, stderr, hwas, hle, rfl⟩)
    exact ensures_note hc rfl (.of_some rfl rfl hle.quiet) rfl
  · rintro _ _ rfl
    refine .bind (.pure ?_)
    have hstands : ∀ volume, d.Fits core volume → ∀ stderr,
        d.Stands core previous (d.held core previous previous volume stderr) :=
      fun volume hle stderr => ⟨volume, stderr, hle, rfl⟩
    have hcut : ∀ volume, d.Fits core volume →
        d.Between core previous state (d.held core previous previous volume stderr) :=
      fun volume hle => ⟨previous, previous, volume, stderr, .inl rfl, hle, rfl⟩
    refine .bind (.attempt (ensures_applyProcessing rfl rfl (.of_some rfl rfl hle.quiet)
      hprevious.quiet ?_ ?_ ?_ ?_ ?_))
    · exact .pure (hstands _ hprevious _)
    · exact fun _ _ => ensures_eprintln (hstands _ hle _)
    · exact fun _ _ => ensures_eprintln (hstands _ hprevious _)
    · exact fun _ _ => hcut _ hle
    · exact fun _ _ => hcut _ hprevious

theorem ensures_commit {p : Part} (hc : c = .handOff ∨ c = .slide)
    (hle : volume * d.gain ≤ d.chosen)
    (hreturned : Q (.returned ()) (d.held core (f previous) (f previous) volume stderr))
    (hfails : Q (.failed "Failed to finalize Processing Profile settings")
      (d.held core previous previous volume stderr))
    (hdied : Q .died (d.held core previous previous volume stderr)) :
    Ensures allowed (commit c p f) Q (d.held core previous previous volume stderr) := by
  refine .bind (.get ?_)
  refine .bind (ensures_persistState (.of_some rfl rfl hle) ?_ (fun _ _ => hfails) fun _ _ => hdied)
  refine .bind (ensures_change (.of_some rfl rfl hle) ?_)
  exact ensures_note hc rfl (.of_some rfl rfl hle) hreturned

/-- A change of the processing takes place as a whole, or not at all; a kill leaves the
settings at one of the two. -/
theorem ensures_updateProcessingLocked (core : Core K) (stderr : List String)
    (hc : c = .handOff ∨ c = .slide) (hsaved : ∀ n, ¬allowed (c, .rollbackSave) (.fails n))
    (hle : d.Fits core volume) (hprevious : d.Fits core previous.softwareVolume)
    (hnew : d.Fits core (f previous).softwareVolume) :
    Ensures allowed (updateProcessingLocked c f) (fun exit t =>
      match exit with
      | .returned _ =>
        t = d.held core (f previous) (f previous) (f previous).softwareVolume stderr
      | .failed _ => d.Stands core previous t
      | .died => d.Between core previous (f previous) t)
      (d.held core previous previous volume stderr) := by
  have hcut : ∀ saved processing volume, saved = previous ∨ saved = f previous →
      d.Fits core volume →
      d.Between core previous (f previous) (d.held core saved processing volume stderr) :=
    fun saved processing volume hwas hle => ⟨saved, processing, volume, stderr, hwas, hle, rfl⟩
  -- Both ways to fail after the commit roll back.
  have hback : ∀ error volume, d.Fits core volume →
      Ensures allowed (rollBackAndFail c previous error) (fun exit t =>
        match exit with
        | .returned _ =>
          t = d.held core (f previous) (f previous) (f previous).softwareVolume stderr
        | .failed _ => d.Stands core previous t
        | .died => d.Between core previous (f previous) t)
        (d.held core (f previous) (f previous) volume stderr) := by
    intro error volume hle
    refine (ensures_rollbackProcessing hc hsaved (.inr rfl) hle hprevious).seq ?_
      (fun _ _ h => h.elim) fun _ h => h
    exact fun _ _ hstands => .fail hstands
  refine .bind (.get ?_)
  refine .bind (ensures_commit hc hle.quiet ?_ ⟨volume, stderr, hle, rfl⟩
    (hcut _ _ _ (.inl rfl) hle))
  refine .bind (.attempt (ensures_applyProcessing rfl rfl (.of_some rfl rfl hle.quiet) hnew.quiet
    ?_ ?_ ?_ ?_ ?_))
  · refine .bind (.failureOf (.bind (ensures_persistState (.of_some rfl rfl hnew.quiet) ?_ ?_ ?_)))
    · exact ensures_change (.of_some rfl rfl hnew.quiet) (.pure rfl)
    · exact fun _ _ => hback _ _ hnew
    · exact fun _ _ => hcut _ _ _ (.inr rfl) hnew
  · exact fun _ _ => hback _ _ hle
  · exact fun _ _ => hback _ _ hnew
  · exact fun _ _ => hcut _ _ _ (.inr rfl) hle
  · exact fun _ _ => hcut _ _ _ (.inr rfl) hnew

end Follow

/-! ### A change of the processing in a return or a recovery -/

/-- The desktop with this processing in the settings and in memory. -/
def Desktop.saved (d : Desktop K) (core : Core K) (processing : ProcessingState K) : Desktop K :=
  { d with settings := processing, core := some { core with processing } }

theorem ensures_commitAlone {c : Command} {p : Part} {f : ProcessingState K → ProcessingState K}
    (hc : c = .giveBack ∨ c = .recover) (hcore : d.core = some core) (hquiet : d.IsQuiet)
    (hsaved : ∀ n, ¬allowed (c, p) (.fails n))
    (hreturned : Q (.returned ()) (d.saved core (f core.processing))) (hdied : Q .died d) :
    Ensures allowed (commit c p f) Q d := by
  refine .bind (.get ?_)
  simp only [andThen, hcore]
  refine .bind (ensures_persistState hquiet ?_ (fun n h => (hsaved n h).elim) fun _ _ => hdied)
  refine .bind (ensures_change ?_ ?_)
  · refine hquiet.congr ?_ rfl rfl
    simp [Desktop.withProcessing, Desktop.withCore, hcore]
  · have hstate : ({ d with settings := f core.processing }).withProcessing (f core.processing) =
        d.saved core (f core.processing) := by
      simp [Desktop.withProcessing, Desktop.withCore, hcore, Desktop.saved]
    rw [hstate]
    rcases hc with rfl | rfl
    · exact .pure hreturned
    · exact .pure hreturned

/-- Where only the write of the settings can be cut off, mpv follows them. -/
theorem ensures_lower (core : Core K) {f : ProcessingState K → ProcessingState K} {volume : K}
    (hcore : d.core = some core) (hmpv : core.mpv = some volume) (hquiet : d.IsQuiet)
    (hnew : (f core.processing).softwareVolume * d.gain ≤ d.chosen)
    (hsaved : ∀ n, ¬allowed (.giveBack, .save) (.fails n))
    (hdone : ∀ p fate, p ≠ .save → p ≠ .undo → allowed (.giveBack, p) fate → fate = .done)
    (hreturned : Q (.returned ())
      (d.saved { core with mpv := some (f core.processing).softwareVolume } (f core.processing)))
    (hdied : Q .died d) : Ensures allowed (updateProcessingLocked .giveBack f) Q d := by
  have happly : ∀ fate, allowed (.giveBack, .apply) fate → fate = .done :=
    fun fate => hdone .apply fate (by decide) (by decide)
  have hrestore : ∀ fate, allowed (.giveBack, .restore) fate → fate = .done :=
    fun fate => hdone .restore fate (by decide) (by decide)
  refine .bind (.get ?_)
  simp only [andThen, hcore]
  refine .bind (ensures_commitAlone (.inl rfl) hcore hquiet hsaved ?_ hdied)
  have hquiet' : (d.saved core (f core.processing)).IsQuiet :=
    hquiet.congr (by simp [Desktop.saved, hcore]) rfl rfl
  refine .bind (.attempt (ensures_applyProcessing rfl hmpv hquiet' hnew ?_ ?_ ?_ ?_ ?_))
  · refine .bind (.failureOf (.bind (ensures_persistState (.of_some rfl rfl hnew) ?_ ?_ ?_)))
    · exact ensures_change (.of_some rfl rfl hnew) (.pure hreturned)
    · exact fun _ h => absurd (hrestore _ h) (by simp)
    · exact fun _ h => absurd (hrestore _ h) (by simp)
  · exact fun _ h => absurd (happly _ h) (by simp)
  · exact fun _ h => absurd (happly _ h) (by simp)
  · exact fun _ h => absurd (happly _ h) (by simp)
  · exact fun _ h => absurd (happly _ h) (by simp)

end Effects

end Harmony.DeviceVolume
