/-
# A program of atomic steps that runs alone

The programs that interleave with others also run alone, one after the other. `runAlone`
takes one input for each step; where the inputs end, the program is cut off there.

`Ends` says what holds of every run alone whose inputs are allowed: of the state it
returns or fails in, and of each state where it can be cut off. It is proved by one
rule for each way of building a program.
-/

import Harmony.Library.Crash
import Harmony.Library.Thread

namespace Thread

open Crash (Exit andThen caught)

variable {σ ι ε α β : Type}

/-- Runs the program and catches its failure. -/
def attempt : Thread σ ι ε α → Thread σ ι ε (Except ε α)
  | done a => done (.ok a)
  | fail e => done (.error e)
  | act run next => act run fun b => attempt (next b)

/-- Runs the program alone. A step that the input does not allow has no run. -/
def runAlone : Thread σ ι ε α → List ι → σ → Option (Exit ε α × σ)
  | done a, _, s => some (.returned a, s)
  | fail e, _, s => some (.failed e, s)
  | act _ _, [], s => some (.died, s)
  | act run next, i :: inputs, s =>
    match run s i with
    | some (b, t) => runAlone (next b) inputs t
    | none => none

/-- Every run alone with allowed inputs ends as `Q` says, or is cut off as `Q` says. -/
def Ends (allowed : ι → Prop) (Q : Exit ε α → σ → Prop) : Thread σ ι ε α → σ → Prop
  | done a, s => Q (.returned a) s
  | fail e, s => Q (.failed e) s
  | act run next, s => Q .died s ∧
      ∀ i, allowed i → ∀ b t, run s i = some (b, t) → Ends allowed Q (next b) t

variable {allowed : ι → Prop} {Q : Exit ε α → σ → Prop} {s t : σ} {x : Thread σ ι ε α}
  {f : α → Thread σ ι ε β} {R : Exit ε β → σ → Prop} {x y : Thread σ ι ε α} {run : σ → α × σ}

theorem Ends.of_runAlone {inputs : List ι} {exit : Exit ε α} (h : Ends allowed Q x s)
    (hinputs : ∀ i ∈ inputs, allowed i) (hrun : runAlone x inputs s = some (exit, t)) :
    Q exit t := by
  induction x generalizing s inputs with
  | done a =>
    cases hrun
    exact h
  | fail e =>
    cases hrun
    exact h
  | act run next ih =>
    cases inputs with
    | nil =>
      cases hrun
      exact h.1
    | cons i inputs =>
      have hfirst := hinputs i List.mem_cons_self
      have hrest : ∀ j ∈ inputs, allowed j := fun j hj => hinputs j (List.mem_cons_of_mem i hj)
      cases hstep : run s i with
      | none => simp [runAlone, hstep] at hrun
      | some result =>
        simp only [runAlone, hstep] at hrun
        exact ih result.1 (h.2 i hfirst result.1 result.2 hstep) hrest hrun

theorem Ends.mono {R : Exit ε α → σ → Prop} (h : Ends allowed Q x s)
    (hQ : ∀ exit t, Q exit t → R exit t) : Ends allowed R x s := by
  induction x generalizing s with
  | done a => exact hQ _ _ h
  | fail e => exact hQ _ _ h
  | act run next ih =>
    exact ⟨hQ _ _ h.1, fun i hi b t hrun => ih b (h.2 i hi b t hrun)⟩

theorem Ends.restrict {allowed' : ι → Prop} (h : Ends allowed Q x s)
    (hallowed : ∀ i, allowed' i → allowed i) : Ends allowed' Q x s := by
  induction x generalizing s with
  | done a => exact h
  | fail e => exact h
  | act run next ih =>
    exact ⟨h.1, fun i hi b t hrun => ih b (h.2 i (hallowed i hi) b t hrun)⟩

theorem Ends.bind (h : Ends allowed (andThen (fun a t => Ends allowed R (f a) t) R) x s) :
    Ends allowed R (x >>= f) s := by
  induction x generalizing s with
  | done a => exact h
  | fail e => exact h
  | act run next ih =>
    exact ⟨h.1, fun i hi b t hrun => ih b (h.2 i hi b t hrun)⟩

/-- Two programs in a row, over what the first ends with. -/
theorem Ends.seq (h : Ends allowed Q x s)
    (hreturned : ∀ a t, Q (.returned a) t → Ends allowed R (f a) t)
    (hfailed : ∀ e t, Q (.failed e) t → R (.failed e) t) (hcut : ∀ t, Q .died t → R .died t) :
    Ends allowed R (x >>= f) s := by
  refine .bind (h.mono ?_)
  intro exit t ht
  cases exit with
  | returned a => exact hreturned a t ht
  | failed e => exact hfailed e t ht
  | died => exact hcut t ht

theorem Ends.attempt {R : Exit ε (Except ε α) → σ → Prop} (h : Ends allowed (caught R) x s) :
    Ends allowed R x.attempt s := by
  induction x generalizing s with
  | done a => exact h
  | fail e => exact h
  | act run next ih =>
    exact ⟨h.1, fun i hi b t hrun => ih b (h.2 i hi b t hrun)⟩

/-- A program whose failure is handled, over what it ends with. -/
theorem Ends.handle {f : Except ε α → Thread σ ι ε β} (h : Ends allowed Q x s)
    (hreturned : ∀ a t, Q (.returned a) t → Ends allowed R (f (.ok a)) t)
    (hfailed : ∀ e t, Q (.failed e) t → Ends allowed R (f (.error e)) t)
    (hcut : ∀ t, Q .died t → R .died t) : Ends allowed R (x.attempt >>= f) s := by
  refine .bind (.attempt (h.mono ?_))
  intro exit t ht
  cases exit with
  | returned a => exact hreturned a t ht
  | failed e => exact hfailed e t ht
  | died => exact hcut t ht

theorem Ends.atomically {run : σ → ι → Option (α × σ)} (hcut : Q .died s)
    (h : ∀ i, allowed i → ∀ a t, run s i = some (a, t) → Q (.returned a) t) :
    Ends allowed Q (Thread.atomically run : Thread σ ι ε α) s :=
  ⟨hcut, h⟩

/-- A step that is always possible and takes no input. -/
theorem Ends.step (hcut : Q .died s) (h : Q (.returned (run s).1) (run s).2) :
    Ends allowed Q (Thread.step run : Thread σ ι ε α) s := by
  refine .atomically hcut fun i _ a t hrun => ?_
  obtain ⟨rfl, rfl⟩ := Prod.mk.inj (Option.some.inj hrun)
  exact h

theorem Ends.ite {c : Prop} [Decidable c] (hx : c → Ends allowed Q x s)
    (hy : ¬c → Ends allowed Q y s) :
    Ends allowed Q (if c then x else y) s := by
  split_ifs with h
  · exact hx h
  · exact hy h

/-! ### What each step does -/

/-- Each step moves along the relation, whatever the state it is taken in. -/
def Moves (allowed : ι → Prop) (R : σ → σ → Prop) : Thread σ ι ε α → Prop
  | done _ => True
  | fail _ => True
  | act run next => ∀ s i, allowed i → ∀ b t, run s i = some (b, t) →
      R s t ∧ Moves allowed R (next b)

variable {R : σ → σ → Prop}

theorem Moves.pure {a : α} : Moves allowed R (Pure.pure a : Thread σ ι ε α) := trivial

theorem Moves.bind (hx : Moves allowed R x) (hf : ∀ a, Moves allowed R (f a)) :
    Moves allowed R (x >>= f) := by
  induction x with
  | done a => exact hf a
  | fail e => trivial
  | act run next ih =>
    intro s i hi b t hrun
    obtain ⟨hmove, hnext⟩ := hx s i hi b t hrun
    exact ⟨hmove, ih b hnext⟩

theorem Moves.atomically {run : σ → ι → Option (α × σ)}
    (h : ∀ s i, allowed i → ∀ a t, run s i = some (a, t) → R s t) :
    Moves allowed R (Thread.atomically run : Thread σ ι ε α) :=
  fun s i hi a t hrun => ⟨h s i hi a t hrun, trivial⟩

theorem Moves.step (h : ∀ s, R s (run s).2) :
    Moves allowed R (Thread.step run : Thread σ ι ε α) := by
  refine .atomically fun s i _ a t hrun => ?_
  obtain ⟨-, rfl⟩ := Prod.mk.inj (Option.some.inj hrun)
  exact h s

theorem Moves.ofExcept {x : Except ε α} :
    Moves allowed R (Thread.ofExcept x : Thread σ ι ε α) := by
  cases x <;> trivial

theorem Moves.ite {c : Prop} [Decidable c] (hx : Moves allowed R x) (hy : Moves allowed R y) :
    Moves allowed R (if c then x else y) := by
  split_ifs
  · exact hx
  · exact hy

/-- Where the relation is a preorder, the whole run moves along it. -/
theorem Moves.ends [IsPreorder σ R] (h : Moves allowed R x) :
    Ends allowed (fun _ t => R s t) x s := by
  have hfrom : ∀ r, R r s → Ends allowed (fun _ t => R r t) x s := by
    intro r hr
    induction x generalizing s with
    | done a => exact hr
    | fail e => exact hr
    | act run next ih =>
      refine ⟨hr, fun i hi b t hrun => ?_⟩
      obtain ⟨hmove, hnext⟩ := h s i hi b t hrun
      exact ih b hnext (trans_of R hr hmove)
  exact hfrom s (refl s)

/-- Wherever the program starts, every run of it has moved along the relation. -/
def Stays (allowed : ι → Prop) (R : σ → σ → Prop) (x : Thread σ ι ε α) : Prop :=
  ∀ s, Ends allowed (fun _ t => R s t) x s

section Stays

variable [IsPreorder σ R]

theorem Moves.stays (h : Moves allowed R x) : Stays allowed R x :=
  fun _ => h.ends

theorem Stays.pure {a : α} : Stays allowed R (Pure.pure a : Thread σ ι ε α) := fun s => refl s

theorem Stays.fail {e : ε} : Stays allowed R (Thread.fail e : Thread σ ι ε α) := fun s => refl s

theorem Stays.ofExcept {x : Except ε α} :
    Stays allowed R (Thread.ofExcept x : Thread σ ι ε α) :=
  Moves.ofExcept.stays

theorem Stays.step (h : ∀ s, R s (run s).2) :
    Stays allowed R (Thread.step run : Thread σ ι ε α) :=
  (Moves.step h).stays

theorem Stays.bind (hx : Stays allowed R x) (hf : ∀ a, Stays allowed R (f a)) :
    Stays allowed R (x >>= f) := by
  intro s
  refine (hx s).seq (fun a t ht => ?_) (fun _ _ ht => ht) fun _ ht => ht
  exact (hf a t).mono fun _ _ hmove => trans_of R ht hmove

omit [IsPreorder σ R] in
theorem Stays.attempt (hx : Stays allowed R x) :
    Stays allowed R x.attempt := by
  intro s
  refine .attempt ((hx s).mono fun exit t ht => ?_)
  cases exit <;> exact ht

omit [IsPreorder σ R] in
theorem Stays.ite {c : Prop} [Decidable c] (hx : Stays allowed R x) (hy : Stays allowed R y) :
    Stays allowed R (if c then x else y) := by
  split_ifs
  · exact hx
  · exact hy

omit [IsPreorder σ R] in
theorem Stays.mono {R' : σ → σ → Prop} (h : Stays allowed R x) (hR : ∀ s t, R s t → R' s t) :
    Stays allowed R' x :=
  fun s => (h s).mono fun _ t ht => hR s t ht

end Stays

/-- What every run ends with, together with how it moved. -/
theorem Ends.and {Q' : Exit ε α → σ → Prop} (h : Ends allowed Q x s) (h' : Ends allowed Q' x s) :
    Ends allowed (fun exit t => Q exit t ∧ Q' exit t) x s := by
  induction x generalizing s with
  | done a => exact ⟨h, h'⟩
  | fail e => exact ⟨h, h'⟩
  | act run next ih =>
    exact ⟨⟨h.1, h'.1⟩, fun i hi b t hrun => ih b (h.2 i hi b t hrun) (h'.2 i hi b t hrun)⟩

end Thread
