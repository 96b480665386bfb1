/-
# Programs whose effects can fail or be cut off by a crash

A program changes a state by effects, one at a time. What happens to an effect is
decided from outside: it is done, it is reported as failed, or the process dies
there; in the last two cases part of its work may have reached the state. Each
effect carries a label, and the performances under one label take their fates
from one sequence, so every course of events is some choice of sequences.

A program ends by returning, by failing, which a caller can catch, or by dying,
which nothing catches. `Ensures` says what holds of the end and the state of
every run whose fates are allowed, crashes included. A program is proved by one
rule for each way of building it.
-/

import Mathlib.Data.List.Basic

namespace Crash

/-- What becomes of one effect. The number says how much of its work is done. -/
inductive Fate
  | done
  | fails (progress : ℕ)
  | dies (progress : ℕ)

/-- The state and the fates still to come. -/
structure World (Λ σ : Type) where
  state : σ
  fates : Λ → ℕ → Fate

/-- How a run ends. -/
inductive Exit (ε α : Type)
  | returned (value : α)
  | failed (error : ε)
  | died

/-- What is left once the state is set apart. -/
def Program (Λ σ ε α : Type) := World Λ σ → Exit ε α × World Λ σ

namespace Program

variable {Λ σ ε α β : Type}

instance : Monad (Program Λ σ ε) where
  pure a w := (.returned a, w)
  bind x f w :=
    match x w with
    | (.returned a, w') => f a w'
    | (.failed e, w') => (.failed e, w')
    | (.died, w') => (.died, w')

/-- Ends with a failure. -/
def fail (e : ε) : Program Λ σ ε α := fun w => (.failed e, w)

/-- Runs the program and catches its failure. -/
def attempt (x : Program Λ σ ε α) : Program Λ σ ε (Except ε α) := fun w =>
  match x w with
  | (.returned a, w') => (.returned (.ok a), w')
  | (.failed e, w') => (.returned (.error e), w')
  | (.died, w') => (.died, w')

/-- The state, for a part of it that only the program holds. -/
def get : Program Λ σ ε σ := fun w => (.returned w.state, w)

/-- Changes what only the program holds, which cannot go wrong. -/
def update (f : σ → σ) : Program Λ σ ε Unit := fun w => (.returned (), ⟨f w.state, w.fates⟩)

/-- The failure of an attempt. -/
def errorOf : Except ε α → Option ε
  | .ok _ => none
  | .error e => some e

/-- Runs the program for its failure. -/
def failureOf (x : Program Λ σ ε α) : Program Λ σ ε (Option ε) := do
  let outcome ← attempt x
  pure (errorOf outcome)

/-- An effect: what it does when nothing goes wrong, what part of its work may have
been done when something does, and the failure that is then reported. -/
structure Effect (σ ε α : Type) where
  run : σ → Except ε (α × σ)
  part : ℕ → σ → σ
  fault : ε

/-- An effect that is done whole or not at all. -/
def Effect.atomic (run : σ → Except ε (α × σ)) (fault : ε) : Effect σ ε α :=
  ⟨run, fun _ s => s, fault⟩

/-- An effect that may be done although it is reported as failed. -/
def Effect.acknowledged (run : σ → Except ε (α × σ)) (fault : ε) : Effect σ ε α where
  run := run
  part progress s :=
    match progress, run s with
    | 0, _ => s
    | _ + 1, .ok r => r.2
    | _ + 1, .error _ => s
  fault := fault

variable [DecidableEq Λ]

/-- The fates after one was taken. -/
def taken (l : Λ) (fates : Λ → ℕ → Fate) : Λ → ℕ → Fate :=
  fun l' n => if l' = l then fates l (n + 1) else fates l' n

/-- Performs an effect under a label. -/
def perform (l : Λ) (e : Effect σ ε α) : Program Λ σ ε α := fun w =>
  match w.fates l 0 with
  | .done =>
    match e.run w.state with
    | .ok (a, s) => (.returned a, ⟨s, taken l w.fates⟩)
    | .error err => (.failed err, ⟨w.state, taken l w.fates⟩)
  | .fails progress => (.failed e.fault, ⟨e.part progress w.state, taken l w.fates⟩)
  | .dies progress => (.died, ⟨e.part progress w.state, taken l w.fates⟩)

end Program

/-! ### What every run ensures -/

section Ensures

variable {Λ σ ε α β : Type}

/-- The fates of every label are allowed for it. -/
def Allowed (allowed : Λ → Fate → Prop) (fates : Λ → ℕ → Fate) : Prop :=
  ∀ l n, allowed l (fates l n)

/-- From the state, every run with allowed fates ends as `Q` says, and leaves
allowed fates. -/
def Ensures (allowed : Λ → Fate → Prop) (x : Program Λ σ ε α) (Q : Exit ε α → σ → Prop) (s : σ) :
    Prop :=
  ∀ fates, Allowed allowed fates →
    Q (x ⟨s, fates⟩).1 (x ⟨s, fates⟩).2.state ∧ Allowed allowed (x ⟨s, fates⟩).2.fates

/-- The postcondition of the first of two programs in a row. -/
@[reducible] def andThen (next : α → σ → Prop) (Q : Exit ε β → σ → Prop) : Exit ε α → σ → Prop
  | .returned a, s => next a s
  | .failed e, s => Q (.failed e) s
  | .died, s => Q .died s

/-- The postcondition of a program whose failure is caught. -/
@[reducible] def caught (Q : Exit ε (Except ε α) → σ → Prop) : Exit ε α → σ → Prop
  | .returned a, s => Q (.returned (.ok a)) s
  | .failed e, s => Q (.returned (.error e)) s
  | .died, s => Q .died s

variable {allowed : Λ → Fate → Prop} {s : σ} {x : Program Λ σ ε α} {Q : Exit ε β → σ → Prop}
  {R : Exit ε α → σ → Prop}

theorem Ensures.mono {Q R : Exit ε α → σ → Prop} (hx : Ensures allowed x Q s)
    (h : ∀ exit t, Q exit t → R exit t) : Ensures allowed x R s :=
  fun fates hfates => ⟨h _ _ (hx fates hfates).1, (hx fates hfates).2⟩

theorem Ensures.and {Q R : Exit ε α → σ → Prop} (hx : Ensures allowed x Q s)
    (hx' : Ensures allowed x R s) :
    Ensures allowed x (fun exit t => Q exit t ∧ R exit t) s := fun fates hfates =>
  ⟨⟨(hx fates hfates).1, (hx' fates hfates).1⟩, (hx fates hfates).2⟩

theorem Ensures.pure {a : α} {Q : Exit ε α → σ → Prop} (h : Q (.returned a) s) :
    Ensures allowed (pure a : Program Λ σ ε α) Q s :=
  fun _ hfates => ⟨h, hfates⟩

theorem Ensures.fail {e : ε} {Q : Exit ε α → σ → Prop} (h : Q (.failed e) s) :
    Ensures allowed (Program.fail e : Program Λ σ ε α) Q s :=
  fun _ hfates => ⟨h, hfates⟩

theorem Ensures.get {Q : Exit ε σ → σ → Prop} (h : Q (.returned s) s) :
    Ensures allowed (Program.get : Program Λ σ ε σ) Q s :=
  fun _ hfates => ⟨h, hfates⟩

theorem Ensures.update {f : σ → σ} {Q : Exit ε Unit → σ → Prop} (h : Q (.returned ()) (f s)) :
    Ensures allowed (Program.update f : Program Λ σ ε Unit) Q s :=
  fun _ hfates => ⟨h, hfates⟩

theorem Ensures.bind {f : α → Program Λ σ ε β}
    (hx : Ensures allowed x (andThen (fun a t => Ensures allowed (f a) Q t) Q) s) :
    Ensures allowed (x >>= f) Q s := by
  intro fates hfates
  obtain ⟨hpost, hrest⟩ := hx fates hfates
  simp only [Bind.bind]
  generalize x ⟨s, fates⟩ = r at hpost hrest ⊢
  obtain ⟨exit, t, rest⟩ := r
  cases exit with
  | returned a => exact hpost rest hrest
  | failed e => exact ⟨hpost, hrest⟩
  | died => exact ⟨hpost, hrest⟩

/-- Two programs in a row, over what the first ensures. -/
theorem Ensures.seq {f : α → Program Λ σ ε β} (hx : Ensures allowed x R s)
    (hreturned : ∀ a t, R (.returned a) t → Ensures allowed (f a) Q t)
    (hfailed : ∀ e t, R (.failed e) t → Q (.failed e) t) (hdied : ∀ t, R .died t → Q .died t) :
    Ensures allowed (x >>= f) Q s := by
  refine .bind (hx.mono ?_)
  intro exit t ht
  cases exit with
  | returned a => exact hreturned a t ht
  | failed e => exact hfailed e t ht
  | died => exact hdied t ht

theorem Ensures.attempt {Q : Exit ε (Except ε α) → σ → Prop} (hx : Ensures allowed x (caught Q) s) :
    Ensures allowed x.attempt Q s := by
  intro fates hfates
  obtain ⟨hpost, hrest⟩ := hx fates hfates
  simp only [Program.attempt]
  generalize x ⟨s, fates⟩ = r at hpost hrest ⊢
  obtain ⟨exit, t, rest⟩ := r
  cases exit with
  | returned a => exact ⟨hpost, hrest⟩
  | failed e => exact ⟨hpost, hrest⟩
  | died => exact ⟨hpost, hrest⟩

/-- A program whose failure is handled, over what it ensures. -/
theorem Ensures.handle {f : Except ε α → Program Λ σ ε β} (hx : Ensures allowed x R s)
    (hreturned : ∀ a t, R (.returned a) t → Ensures allowed (f (.ok a)) Q t)
    (hfailed : ∀ e t, R (.failed e) t → Ensures allowed (f (.error e)) Q t)
    (hdied : ∀ t, R .died t → Q .died t) : Ensures allowed (x.attempt >>= f) Q s := by
  refine .bind (.attempt (hx.mono ?_))
  intro exit t ht
  cases exit with
  | returned a => exact hreturned a t ht
  | failed e => exact hfailed e t ht
  | died => exact hdied t ht

theorem Ensures.failureOf {Q : Exit ε (Option ε) → σ → Prop}
    (hx : Ensures allowed x (fun exit t =>
      match exit with
      | .returned _ => Q (.returned none) t
      | .failed e => Q (.returned (some e)) t
      | .died => Q .died t) s) : Ensures allowed x.failureOf Q s := by
  refine .bind (.attempt (hx.mono ?_))
  intro exit t ht
  cases exit with
  | returned a => exact .pure ht
  | failed e => exact .pure ht
  | died => exact ht

/-- A program run for its failure, over what it ensures. -/
theorem Ensures.handleFailure {f : Option ε → Program Λ σ ε β} (hx : Ensures allowed x R s)
    (hreturned : ∀ a t, R (.returned a) t → Ensures allowed (f none) Q t)
    (hfailed : ∀ e t, R (.failed e) t → Ensures allowed (f (some e)) Q t)
    (hdied : ∀ t, R .died t → Q .died t) : Ensures allowed (x.failureOf >>= f) Q s := by
  refine .bind (.failureOf (hx.mono ?_))
  intro exit t ht
  cases exit with
  | returned a => exact hreturned a t ht
  | failed e => exact hfailed e t ht
  | died => exact hdied t ht

variable [DecidableEq Λ]

theorem Allowed.taken {fates : Λ → ℕ → Fate} (h : Allowed allowed fates) (l : Λ) :
    Allowed allowed (Program.taken l fates) := by
  intro l' n
  rw [Program.taken]
  split
  · next heq => exact heq ▸ h l (n + 1)
  · exact h l' n

/-- An effect has four kinds of end. -/
theorem Ensures.perform {l : Λ} {e : Program.Effect σ ε α} {Q : Exit ε α → σ → Prop}
    (hdone : allowed l .done → ∀ a t, e.run s = .ok (a, t) → Q (.returned a) t)
    (hrefused : allowed l .done → ∀ err, e.run s = .error err → Q (.failed err) s)
    (hfails : ∀ progress, allowed l (.fails progress) → Q (.failed e.fault) (e.part progress s))
    (hdies : ∀ progress, allowed l (.dies progress) → Q .died (e.part progress s)) :
    Ensures allowed (Program.perform l e) Q s := by
  intro fates hfates
  have htaken := hfates.taken l
  have hfirst := hfates l 0
  simp only [Program.perform]
  cases hfate : fates l 0 with
  | done =>
    rw [hfate] at hfirst
    cases hrun : e.run s with
    | ok r => exact ⟨hdone hfirst r.1 r.2 hrun, htaken⟩
    | error err => exact ⟨hrefused hfirst err hrun, htaken⟩
  | fails progress => exact ⟨hfails progress (hfate ▸ hfirst), htaken⟩
  | dies progress => exact ⟨hdies progress (hfate ▸ hfirst), htaken⟩

end Ensures

end Crash
