/-
# Labelled runs and their invariants

A system is a step relation between states, labelled by the event that causes
the step. A run is a list of events with the state it leads to. What one step
preserves, a whole run preserves; a run splits where its list of events does.
-/

import Mathlib.Data.List.Basic

namespace Transition

universe u v

variable {σ ε : Type*}

/-- The events lead from the first state to the second, one step each. -/
inductive Run (step : σ → ε → σ → Prop) : σ → List ε → σ → Prop
  | nil (s : σ) : Run step s [] s
  | cons {s t u : σ} {e : ε} {es : List ε} :
      step s e t → Run step t es u → Run step s (e :: es) u

variable {step : σ → ε → σ → Prop} {es : List ε} {init : σ → Prop} {Inv : σ → Prop}

/-- A run over two lists of events passes through a state between them. -/
theorem Run.split {first second : List ε} {s u : σ} (h : Run step s (first ++ second) u) :
    ∃ t, Run step s first t ∧ Run step t second u := by
  induction first generalizing s with
  | nil => exact ⟨s, .nil s, h⟩
  | cons e es ih =>
    obtain _ | ⟨hstep, hrest⟩ := h
    obtain ⟨t, hfirst, hsecond⟩ := ih hrest
    exact ⟨t, .cons hstep hfirst, hsecond⟩

theorem Run.append {first second : List ε} {s t u : σ} (hfirst : Run step s first t)
    (hsecond : Run step t second u) : Run step s (first ++ second) u := by
  induction hfirst with
  | nil => exact hsecond
  | cons hstep _ ih => exact .cons hstep (ih hsecond)

theorem Run.mono {step' : σ → ε → σ → Prop} (hstep : ∀ s e t, step s e t → step' s e t) {s t : σ}
    (h : Run step s es t) : Run step' s es t := by
  induction h with
  | nil s => exact .nil s
  | cons hfirst _ ih => exact .cons (hstep _ _ _ hfirst) ih

/-- A run of events that meet a condition in every state meets it at every step. -/
theorem Run.withCondition {condition : σ → ε → Prop} {s t : σ} (h : Run step s es t)
    (hes : ∀ e ∈ es, ∀ s, condition s e) :
    Run (fun s e t => step s e t ∧ condition s e) s es t := by
  induction h with
  | nil s => exact .nil s
  | @cons s t u e es hfirst _ ih =>
    exact .cons ⟨hfirst, hes e List.mem_cons_self s⟩
      (ih fun e' he' => hes e' (List.mem_cons_of_mem _ he'))

/-- What every step with an allowed event preserves, a run of allowed events
preserves. -/
theorem Run.preserves (allowed : ε → Prop) (hstep : ∀ s e t, allowed e → Inv s → step s e t → Inv t)
    {s t : σ} (h : Run step s es t) (hallowed : ∀ e ∈ es, allowed e) (hs : Inv s) : Inv t := by
  induction h with
  | nil => exact hs
  | @cons s t u e es hfirst _ ih =>
    exact ih (fun e' he' => hallowed e' (List.mem_cons_of_mem _ he'))
      (hstep s e t (hallowed e List.mem_cons_self) hs hfirst)

/-- Where a step has one outcome, so has a run. -/
theorem Run.unique (hstep : ∀ s e t t', step s e t → step s e t' → t = t') {s t t' : σ}
    (h : Run step s es t) (h' : Run step s es t') : t = t' := by
  induction h with
  | nil s =>
    cases h'
    rfl
  | cons hfirst _ ih =>
    obtain _ | ⟨hfirst', hrest'⟩ := h'
    obtain rfl := hstep _ _ _ _ hfirst hfirst'
    exact ih hrest'

/-- A property of a state and the events that led to it. -/
theorem Run.history {P : List ε → σ → Prop}
    (hstep : ∀ es s e t, P es s → step s e t → P (es ++ [e]) t) {before es : List ε} {s t : σ}
    (h : Run step s es t) (hs : P before s) : P (before ++ es) t := by
  induction h generalizing before with
  | nil =>
    rw [List.append_nil]
    exact hs
  | @cons s t u e es hfirst _ ih =>
    have hrest := ih (hstep before s e t hs hfirst)
    rwa [List.append_assoc] at hrest

/-- A measure that counted events lower, as far as it goes, and no event raises. -/
theorem Run.countdown (allowed : ε → Prop) (counted : ε → Bool)
    {measure : σ → ℕ}
    (hstep : ∀ s e t, allowed e → Inv s → step s e t →
      Inv t ∧ measure t ≤ measure s - if counted e then 1 else 0)
    {s t : σ} (h : Run step s es t) (hallowed : ∀ e ∈ es, allowed e)
    (hs : Inv s) : Inv t ∧ measure t ≤ measure s - es.countP counted := by
  induction h with
  | nil => exact ⟨hs, Nat.le_refl _⟩
  | @cons s t u e es hfirst _ ih =>
    obtain ⟨ht, hmeasure⟩ := hstep s e t (hallowed e List.mem_cons_self) hs hfirst
    obtain ⟨hu, hrest⟩ := ih (fun e' he' => hallowed e' (List.mem_cons_of_mem _ he')) ht
    refine ⟨hu, ?_⟩
    rw [List.countP_cons]
    omega

/-- Performing the events in order, where each step is computed and may fail, is a
run of them. -/
theorem Run.of_foldlM {m : Type u → Type v} [Monad m] {σ : Type u} {perform : σ → ε → m σ}
    (hpure : ∀ {s t : σ}, (pure s : m σ) = pure t → s = t)
    (hbind : ∀ {x : m σ} {f : σ → m σ} {t : σ}, x >>= f = pure t → ∃ u, x = pure u ∧ f u = pure t)
    {s t : σ} (h : es.foldlM perform s = pure t) :
    Run (fun s e t => perform s e = pure t) s es t := by
  induction es generalizing s with
  | nil =>
    obtain rfl := hpure h
    exact .nil s
  | cons e es ih =>
    rw [List.foldlM_cons] at h
    obtain ⟨u, hfirst, hrest⟩ := hbind h
    exact .cons hfirst (ih hrest)

theorem Run.of_except {δ : Type*} {σ : Type u} {perform : σ → ε → Except δ σ} {s t : σ}
    (h : es.foldlM perform s = .ok t) : Run (fun s e t => perform s e = .ok t) s es t := by
  refine Run.of_foldlM Except.ok.inj ?_ h
  intro x f t hbind
  cases x with
  | error d => cases hbind
  | ok u => exact ⟨u, rfl, hbind⟩

theorem Run.of_option {σ : Type u} {perform : σ → ε → Option σ} {s t : σ}
    (h : es.foldlM perform s = some t) : Run (fun s e t => perform s e = some t) s es t :=
  Run.of_foldlM Option.some.inj (fun hbind => Option.bind_eq_some_iff.mp hbind) h

/-- So it is where a step is computed only under a condition. -/
theorem Run.of_guarded {σ : Type u} {perform : σ → ε → Option σ} {condition : σ → ε → Prop}
    [∀ s e, Decidable (condition s e)] {s t : σ}
    (h : es.foldlM (fun s e => if condition s e then perform s e else none) s = some t) :
    Run (fun s e t => condition s e ∧ perform s e = some t) s es t := by
  refine (Run.of_option h).mono fun s e t hstep => ?_
  split_ifs at hstep with hcondition
  exact ⟨hcondition, hstep⟩

/-- Some run leads from an initial state to this one. -/
def Reachable (init : σ → Prop) (step : σ → ε → σ → Prop) (s : σ) : Prop :=
  ∃ start es, init start ∧ Run step start es s

theorem Reachable.start {s : σ} (h : init s) : Reachable init step s :=
  ⟨s, [], h, .nil s⟩

theorem Reachable.run {s t : σ} (h : Reachable init step s) (hrun : Run step s es t) :
    Reachable init step t := by
  obtain ⟨start, before, hstart, hbefore⟩ := h
  exact ⟨start, before ++ es, hstart, hbefore.append hrun⟩

/-- An inductive invariant holds in every reachable state. -/
theorem Reachable.invariant (hinit : ∀ s, init s → Inv s)
    (hstep : ∀ s e t, Inv s → step s e t → Inv t) {s : σ} (h : Reachable init step s) :
    Inv s := by
  obtain ⟨start, es, hstart, hrun⟩ := h
  exact hrun.preserves (fun _ => True) (fun s e t _ => hstep s e t)
    (fun _ _ => trivial) (hinit start hstart)

end Transition
