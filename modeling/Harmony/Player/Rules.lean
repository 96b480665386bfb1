/-
# Rules for the steps of the player

What a step ends with follows from what becomes of the calls it makes. A hold of the
process's lock that succeeds has done each of its calls.
-/

import Harmony.Player.Events

namespace Harmony.Player

open Thread Crash

/-! ### Calls of mpv -/

variable {call : Call}

namespace ProcessCall

variable {α β : Type} {fates : Call → Fate} {p q : MpvProcess} {effect : MpvProcess → MpvProcess}
  {x : ProcessCall α} {f : MpvProcess → MpvProcess} {isExclusive : Bool}

theorem bind_eq_ok {f : α → ProcessCall β} {b : β} :
    (x >>= f) fates p = (.ok b, q) ↔
      ∃ a p', x fates p = (.ok a, p') ∧ f a fates p' = (.ok b, q) := by
  cases hresult : x fates p with
  | mk result p' =>
    cases result with
    | ok a => simp [bind_of_ok hresult]
    | error e => simp [bind_of_error hresult]

theorem command_eq_ok :
    command call effect fates p = (.ok (), q) ↔
      p.isRunning = true ∧ fates call = .done ∧ q = effect p := by
  cases hrunning : p.isRunning with
  | false => simp [command, hrunning]
  | true =>
    cases hfate : fates call with
    | done => simp [command, hrunning, hfate, eq_comm]
    | fails isDone => simp [command, hrunning, hfate]

theorem remember_eq_ok :
    remember f fates p = (.ok (), q) ↔ q = f p := by
  simp [remember, eq_comm]

theorem ofExcept_eq_ok {x : Except String α} {a : α} :
    ofExcept x fates p = (.ok a, q) ↔ x = .ok a ∧ q = p := by
  simp [ofExcept, eq_comm]

theorem pure_eq_ok {a b : α} :
    (pure a : ProcessCall α) fates p = (.ok b, q) ↔ a = b ∧ q = p := by
  change (Except.ok a, p) = (Except.ok b, q) ↔ _
  simp [eq_comm]

theorem loadAt_eq_ok {url : String} {seconds : ℚ} :
    loadAt url seconds fates p = (.ok (), q) ↔
      p.isRunning = true ∧ fates .load = .done ∧
        q = { p with
          appended := none, current := some url, playlist := [], startSeconds := seconds } := by
  rw [loadAt, clearAppended, bind_eq_ok]
  constructor
  · rintro ⟨_, p', hcleared, hload⟩
    rw [remember_eq_ok] at hcleared
    subst hcleared
    exact command_eq_ok.mp hload
  · rintro ⟨hrunning, hload, rfl⟩
    exact ⟨(), _, rfl, command_eq_ok.mpr ⟨hrunning, hload, rfl⟩⟩

/-- What the call ends with, and what it leaves of mpv. -/
def Leaves (Q : Except String α → MpvProcess → Prop) (x : ProcessCall α) (fates : Call → Fate)
    (p : MpvProcess) : Prop :=
  Q (x fates p).1 (x fates p).2

section Leaves

variable {Q : Except String α → MpvProcess → Prop}

theorem Leaves.bind {f : α → ProcessCall β}
    {Q : Except String β → MpvProcess → Prop}
    (h : Leaves (fun result q =>
      match result with
      | .ok a => Leaves Q (f a) fates q
      | .error e => Q (.error e) q) x fates p) : Leaves Q (x >>= f) fates p := by
  rw [Leaves] at h ⊢
  cases hresult : x fates p with
  | mk result q =>
    rw [hresult] at h
    cases result with
    | ok a =>
      rw [bind_of_ok hresult]
      exact h
    | error e =>
      rw [bind_of_error hresult]
      exact h

theorem Leaves.attempt {Q : Except String (Except String α) → MpvProcess → Prop}
    (h : Leaves (fun result q => Q (.ok result) q) x fates p) :
    Leaves Q (ProcessCall.attempt x) fates p := h

theorem Leaves.mono {Q' : Except String α → MpvProcess → Prop} (h : Leaves Q x fates p)
    (hQ : ∀ result q, Q result q → Q' result q) : Leaves Q' x fates p :=
  hQ _ _ h

theorem Leaves.remember {Q : Except String Unit → MpvProcess → Prop} (h : Q (.ok ()) (f p)) :
    Leaves Q (ProcessCall.remember f) fates p := h

theorem Leaves.command {Q : Except String Unit → MpvProcess → Prop}
    (hdone : p.isRunning = true → fates call = .done → Q (.ok ()) (effect p))
    (hundone : ∀ e, Q (.error e) p)
    (hlate : ∀ e, p.isRunning = true → fates call = .fails true → Q (.error e) (effect p)) :
    Leaves Q (ProcessCall.command call effect) fates p := by
  rw [Leaves, ProcessCall.command]
  split_ifs with hstopped
  · exact hundone _
  · have hrunning : p.isRunning = true := Bool.eq_true_of_not_eq_false hstopped
    cases hfate : fates call with
    | done => exact hdone hrunning hfate
    | fails isDone =>
      cases isDone with
      | true => exact hlate _ hrunning hfate
      | false => exact hundone _

/-- A command that mpv carries out. -/
theorem Leaves.command_of_done {Q : Except String Unit → MpvProcess → Prop}
    (hrunning : p.isRunning = true) (hdone : fates call = .done) (h : Q (.ok ()) (effect p)) :
    Leaves Q (ProcessCall.command call effect) fates p := by
  rw [Leaves, command_eq_ok.mpr ⟨hrunning, hdone, rfl⟩]
  exact h

theorem Leaves.setExclusive {Q : Except String Unit → MpvProcess → Prop}
    (hdone : Q (.ok ()) { p with isExclusive })
    (hfails : ∀ e isDone, fates call = .fails isDone → Q (.error e) p) :
    Leaves Q (ProcessCall.setExclusive call isExclusive) fates p := by
  rw [Leaves, ProcessCall.setExclusive]
  split_ifs with hheld
  · subst hheld
    exact hdone
  · cases hfate : fates call with
    | done => exact hdone
    | fails isDone => exact hfails _ isDone hfate

theorem Leaves.setExclusive_of_done {Q : Except String Unit → MpvProcess → Prop}
    (hdone : fates call = .done) (h : Q (.ok ()) { p with isExclusive }) :
    Leaves Q (ProcessCall.setExclusive call isExclusive) fates p :=
  .setExclusive h fun _ _ hfails => nomatch hdone.symm.trans hfails

end Leaves

/-- Whatever becomes of the calls, mpv moves along the relation. -/
def Keeps (R : MpvProcess → MpvProcess → Prop) (x : ProcessCall α) : Prop :=
  ∀ fates p, R p (x fates p).2

section Keeps

variable {R : MpvProcess → MpvProcess → Prop} [IsPreorder MpvProcess R]

theorem Keeps.pure {a : α} : Keeps R (Pure.pure a : ProcessCall α) := fun _ p => refl p

theorem Keeps.ofExcept {x : Except String α} : Keeps R (ofExcept x) := fun _ p => refl p

theorem Keeps.bind {f : α → ProcessCall β} (hx : Keeps R x) (hf : ∀ a, Keeps R (f a)) :
    Keeps R (x >>= f) := by
  intro fates p
  have hmove := hx fates p
  cases hresult : x fates p with
  | mk result p' =>
    rw [hresult] at hmove
    cases result with
    | ok a =>
      rw [bind_of_ok hresult]
      exact trans_of R hmove (hf a fates p')
    | error e =>
      rw [bind_of_error hresult]
      exact hmove

omit [IsPreorder MpvProcess R] in
theorem Keeps.attempt (hx : Keeps R x) : Keeps R (attempt x) := hx

omit [IsPreorder MpvProcess R] in
theorem Keeps.remember (h : ∀ p, R p (f p)) :
    Keeps R (remember f) :=
  fun _ p => h p

theorem Keeps.command (h : ∀ p, R p (effect p)) :
    Keeps R (command call effect) := by
  intro fates p
  rw [ProcessCall.command]
  split_ifs
  · exact refl p
  · cases fates call with
    | done => exact h p
    | fails isDone =>
      cases isDone with
      | true => exact h p
      | false => exact refl p

theorem Keeps.setExclusive (h : ∀ p : MpvProcess, R p { p with isExclusive }) :
    Keeps R (setExclusive call isExclusive) := fun fates p =>
  show Leaves (fun _ q => R p q) _ fates p from .setExclusive (h p) fun _ _ _ => refl p

omit [IsPreorder MpvProcess R] in
theorem Keeps.ite {c : Prop} [Decidable c] {x y : ProcessCall α} (hx : Keeps R x)
    (hy : Keeps R y) : Keeps R (if c then x else y) := by
  split_ifs
  · exact hx
  · exact hy

end Keeps

end ProcessCall

/-! ### Where mpv puts out -/

/-- mpv puts out where the session says. -/
def MpvProcess.IsOn (process : MpvProcess) (state : PlaybackSessionState) : Prop :=
  match state.outputMode with
  | .directAlsa => ∃ device, state.selectedOutputDevice = some device ∧
      process.audioDevice = some s!"alsa/{device.id}" ∧ process.isExclusive = true
  | .system | .adaptiveSystemRate =>
    process.audioDevice = none ∧ process.isExclusive = false

/-! ### Steps -/

section Ends

variable {α β ε : Type} {allowed : Fates → Prop} {p : PlaybackController}
  {Q : Exit ε β → PlaybackController → Prop}

theorem ends_step {run : PlaybackController → α × PlaybackController}
    {k : α → Thread PlaybackController Fates ε β} (hcut : Q .died p)
    (h : Ends allowed Q (k (run p).1) (run p).2) : Ends allowed Q (Thread.step run >>= k) p := by
  refine ⟨hcut, fun fates _ a t hrun => ?_⟩
  obtain ⟨rfl, rfl⟩ := Prod.mk.inj (Option.some.inj hrun)
  exact h

theorem ends_reading {f : PlaybackController → α} {k : α → Act β}
    {Q : Exit String β → PlaybackController → Prop} (hcut : Q .died p)
    (h : Ends allowed Q (k (f p)) p) : Ends allowed Q (reading f >>= k) p :=
  ends_step hcut h

theorem ends_state {k : PlaybackSessionState → Act β}
    {Q : Exit String β → PlaybackController → Prop} (hcut : Q .died p)
    (h : Ends allowed Q (k p.state) p) : Ends allowed Q (state >>= k) p :=
  ends_step hcut h

/-- What a call, or a hold of a lock, ends with. -/
def exitOf : Except ε α → Exit ε α
  | .ok a => .returned a
  | .error e => .failed e

variable {Q : Exit String α → PlaybackController → Prop}

theorem ends_ofExcept {x : Except String α} (h : Q (exitOf x) p) :
    Ends allowed Q (Thread.ofExcept x : Act α) p := by
  cases x with
  | ok a => exact h
  | error e => exact h

theorem ends_withProcess {site : Site} {action : ProcessCall α} (hcut : Q .died p)
    (h : ∀ fates, allowed fates → action.Leaves
      (fun result process => Q (exitOf result) { p with process }) (fates site) p.process) :
    Ends allowed Q (withProcess site action) p := by
  refine ⟨hcut, fun fates hfates result q hrun => ?_⟩
  cases hrun
  exact ends_ofExcept (h fates hfates)

end Ends

section Outside

variable {allowed : Fates → Prop} {p : PlaybackController} {site : Site}
  {Q : Exit String Unit → PlaybackController → Prop}

theorem ends_outside {error : String}
    {effect : PlaybackController → PlaybackController} (hcut : Q .died p)
    (hdone : ∀ fates, allowed fates → fates site call = .done → Q (.returned ()) (effect p))
    (hfails : ∀ fates isDone, allowed fates → fates site call = .fails isDone →
      Q (.failed error) (if isDone then effect p else p)) :
    Ends allowed Q (outside site call error effect) p := by
  refine ⟨hcut, fun fates hfates result q hrun => ?_⟩
  cases hfate : fates site call with
  | done =>
    simp only [hfate] at hrun
    cases hrun
    exact hdone fates hfates hfate
  | fails isDone =>
    simp only [hfate] at hrun
    cases hrun
    exact hfails fates isDone hfates hfate

theorem ends_clearMarker (hcut : Q .died p)
    (hdone : Q (.returned ()) { p with isMarked := false })
    (hfails : ∀ fates isDone, allowed fates → fates site .clearMarker = .fails isDone →
      ∀ e, Q (.failed e) p) :
    Ends allowed Q (AdaptiveSystemRate.clearMarker site) p := by
  refine ⟨hcut, fun fates hfates result q hrun => ?_⟩
  cases hfate : fates site .clearMarker with
  | done =>
    simp only [hfate] at hrun
    cases hrun
    exact hdone
  | fails isDone =>
    simp only [hfate] at hrun
    cases hrun
    exact hfails fates isDone hfates hfate _

end Outside

/-! ### What a step changes -/

section Moves

variable {α : Type} {allowed : Fates → Prop}
  {R : PlaybackController → PlaybackController → Prop}

theorem moves_reading [IsPreorder PlaybackController R] {f : PlaybackController → α} :
    Moves allowed R (reading f) :=
  .step fun p => refl p

theorem moves_state [IsPreorder PlaybackController R] : Moves allowed R state := moves_reading

theorem moves_withProcess {site : Site} {action : ProcessCall α}
    (h : ∀ p fates, allowed fates →
      R p { p with process := (action (fates site) p.process).2 }) :
    Moves allowed R (withProcess site action) := by
  refine .bind (.atomically fun p fates hfates result q hrun => ?_) fun _ => .ofExcept
  cases hrun
  exact h p fates hfates

theorem moves_outside [IsPreorder PlaybackController R] {site : Site} {error : String}
    {effect : PlaybackController → PlaybackController} (h : ∀ p, R p (effect p)) :
    Moves allowed R (outside site call error effect) := by
  refine .bind (.atomically fun p fates _ result q hrun => ?_) fun _ => .ofExcept
  cases hfate : fates site call with
  | done =>
    simp only [hfate, Option.some.injEq, Prod.mk.injEq] at hrun
    exact hrun.2 ▸ h p
  | fails isDone =>
    simp only [hfate, Option.some.injEq, Prod.mk.injEq] at hrun
    rw [← hrun.2]
    split_ifs
    · exact h p
    · exact refl p

end Moves

/-! ### What the controller of the rate changes -/

/-- Nothing but what the controller of the rate changes is different. -/
def RateOnly (p q : PlaybackController) : Prop :=
  q = { p with
    adaptiveSystemRate := q.adaptiveSystemRate
    forcedRate := q.forcedRate
    isMarked := q.isMarked }

instance : IsPreorder PlaybackController RateOnly where
  refl _ := rfl
  trans p q r hq hr := by
    rw [RateOnly] at hq hr ⊢
    rw [hr, hq]

namespace RateOnly

variable {p q : PlaybackController}

theorem state (h : RateOnly p q) : q.state = p.state := by rw [h]

theorem process (h : RateOnly p q) : q.process = p.process := by rw [h]

theorem lifecycle (h : RateOnly p q) : q.lifecycle = p.lifecycle := by rw [h]

theorem outputDevices (h : RateOnly p q) : q.outputDevices = p.outputDevices := by rw [h]

theorem remember {adaptiveSystemRate : AdaptiveSystemRateState} (h : RateOnly p q) :
    RateOnly p { q with adaptiveSystemRate } := by
  rw [RateOnly] at h ⊢
  rw [h]

end RateOnly

namespace AdaptiveSystemRate

variable {allowed : Fates → Prop} {site : Site}

theorem moves_remember {f : AdaptiveSystemRateState → AdaptiveSystemRateState} :
    Moves allowed RateOnly (remember f) :=
  .step fun _ => rfl

theorem moves_setForcedRateHz {rateHz : Option ℕ} :
    Moves allowed RateOnly (setForcedRateHz site rateHz) :=
  moves_outside fun _ => rfl

theorem moves_applySourceSampleRate {rateHz : Option ℕ} :
    Moves allowed RateOnly (applySourceSampleRate site rateHz) :=
  .bind moves_reading fun _ => .ite .pure (.bind moves_setForcedRateHz fun _ => moves_remember)

theorem moves_resetForceRate : Moves allowed RateOnly (resetForceRate site) :=
  .bind moves_setForcedRateHz fun _ => moves_remember

theorem moves_resetForRecovery : Moves allowed RateOnly (resetForRecovery site) :=
  .bind moves_reading fun _ => .ite .pure moves_resetForceRate

end AdaptiveSystemRate

end Harmony.Player
