/-
# Interleaved requests

Requests served at the same time are programs of atomic steps over a shared state.
A step takes an input from outside, such as the answer of another server, and
between two steps of a request any other request and the outside may move.

`Safe` says what a request keeps up: from every state that the others may lead to,
each of its steps keeps the invariant and moves along the preorder of what may
change. It is proved by one rule for each way of building a program. A pool whose
requests are safe when they begin keeps the invariant forever.
-/

import Harmony.Library.Table
import Harmony.Library.Transition

/-- A program of atomic steps that ends with a result or an error. -/
inductive Thread (σ ι ε α : Type) : Type 1
  | done (value : α)
  | fail (error : ε)
  | act {β : Type} (run : σ → ι → Option (β × σ)) (next : β → Thread σ ι ε α)

namespace Thread

variable {σ ι ε α β : Type} {x : Thread σ ι ε α} {f : α → Thread σ ι ε β}

def bind : Thread σ ι ε α → (α → Thread σ ι ε β) → Thread σ ι ε β
  | done a, f => f a
  | fail e, _ => fail e
  | act run next, f => act run fun b => bind (next b) f

instance : Monad (Thread σ ι ε) where
  pure := done
  bind := bind

/-- One step. -/
def atomically (run : σ → ι → Option (α × σ)) : Thread σ ι ε α := act run done

/-- A step that is always possible and takes no input. -/
def step (run : σ → α × σ) : Thread σ ι ε α := atomically fun s _ => some (run s)

/-- A value or an error that is already known. -/
def ofExcept : Except ε α → Thread σ ι ε α
  | .ok a => done a
  | .error e => fail e

/-! ### What a request keeps up -/

section Safe

variable (Inv : σ → Prop) (R : σ → σ → Prop)

/-- From every state the others may lead to, each step keeps the invariant and
moves along the preorder, and a result is of the kind. -/
def Safe (Q : α → σ → Prop) : Thread σ ι ε α → σ → Prop
  | done a, s => Q a s
  | fail _, _ => True
  | act run next, s => ∀ s', R s s' → Inv s' → ∀ i b t, run s' i = some (b, t) →
      Inv t ∧ R s' t ∧ Safe Q (next b) t

variable {Inv R} {Q : α → σ → Prop} {s : σ}

theorem Safe.fail (e : ε) : Safe Inv R Q (Thread.fail e : Thread σ ι ε α) s := trivial

theorem Safe.mono {Q' : α → σ → Prop} (h : Safe Inv R Q x s) (hQ : ∀ a t, Q a t → Q' a t) :
    Safe Inv R Q' x s := by
  induction x generalizing s with
  | done a => exact hQ a s h
  | fail e => trivial
  | act run next ih =>
    intro s' hmove hinv i b t hrun
    obtain ⟨hkept, hmoved, hrest⟩ := h s' hmove hinv i b t hrun
    exact ⟨hkept, hmoved, ih b hrest⟩

theorem Safe.bind {Q' : β → σ → Prop} (h : Safe Inv R Q x s)
    (hf : ∀ a t, Q a t → Safe Inv R Q' (f a) t) :
    Safe Inv R Q' (x >>= f) s := by
  induction x generalizing s with
  | done a => exact hf a s h
  | fail e => trivial
  | act run next ih =>
    intro s' hmove hinv i b t hrun
    obtain ⟨hkept, hmoved, hrest⟩ := h s' hmove hinv i b t hrun
    exact ⟨hkept, hmoved, ih b hrest⟩

theorem Safe.atomically {run : σ → ι → Option (α × σ)}
    (h : ∀ s', R s s' → Inv s' → ∀ i a t, run s' i = some (a, t) → Inv t ∧ R s' t ∧ Q a t) :
    Safe Inv R Q (Thread.atomically run : Thread σ ι ε α) s := h

theorem Safe.step {run : σ → α × σ}
    (h : ∀ s', R s s' → Inv s' → Inv (run s').2 ∧ R s' (run s').2 ∧ Q (run s').1 (run s').2) :
    Safe Inv R Q (Thread.step run : Thread σ ι ε α) s := by
  intro s' hmove hinv i a t hrun
  have hresult : run s' = (a, t) := Option.some.inj hrun
  have hkept := h s' hmove hinv
  rw [hresult] at hkept
  exact hkept

theorem Safe.ofExcept {x : Except ε α} (h : ∀ a, x = .ok a → Q a s) :
    Safe Inv R Q (Thread.ofExcept x : Thread σ ι ε α) s := by
  cases x with
  | ok a => exact h a rfl
  | error e => trivial

theorem Safe.ite {c : Prop} [Decidable c] {x y : Thread σ ι ε α} (hx : c → Safe Inv R Q x s)
    (hy : ¬c → Safe Inv R Q y s) : Safe Inv R Q (if c then x else y) s := by
  split_ifs with h
  · exact hx h
  · exact hy h

/-- A program ends in a state that the one it began in leads to. -/
theorem Safe.later [IsPreorder σ R] (h : Safe Inv R Q x s) :
    Safe Inv R (fun a t => Q a t ∧ R s t) x s := by
  induction x generalizing s with
  | done a => exact ⟨h, refl s⟩
  | fail e => trivial
  | act run next ih =>
    intro s' hmove hinv i b t hrun
    obtain ⟨hkept, hmoved, hrest⟩ := h s' hmove hinv i b t hrun
    have hfrom : R s t := trans_of R hmove hmoved
    exact ⟨hkept, hmoved, (ih b hrest).mono fun a u hu => ⟨hu.1, trans_of R hfrom hu.2⟩⟩

/-- What goes on after a program may use what was true before it and stays so. -/
theorem Safe.andThen [IsPreorder σ R] {Q' : β → σ → Prop} (h : Safe Inv R Q x s)
    (hf : ∀ a t, R s t → Q a t → Safe Inv R Q' (f a) t) :
    Safe Inv R Q' (x >>= f) s :=
  h.later.bind fun a t ha => hf a t ha.2 ha.1

/-- What the others do leaves a request safe that has a step to take. -/
theorem Safe.move [IsPreorder σ R] {t : σ} (h : Safe Inv R (fun _ _ => True) x s) (hmove : R s t) :
    Safe Inv R (fun _ _ => True) x t := by
  cases x with
  | done a => trivial
  | fail e => trivial
  | act run next => exact fun s' hlater => h s' (trans_of R hmove hlater)

end Safe

/-! ### What every step does -/

section Does

variable (G : σ → σ → Prop)

/-- Each step moves along the relation, whatever the others did before it. -/
def Does : Thread σ ι ε α → Prop
  | done _ => True
  | fail _ => True
  | act run next => ∀ s i b t, run s i = some (b, t) → G s t ∧ Does (next b)

variable {G}

theorem Does.pure (a : α) : Does G (Pure.pure a : Thread σ ι ε α) := trivial

theorem Does.fail (e : ε) : Does G (Thread.fail e : Thread σ ι ε α) := trivial

theorem Does.bind (h : Does G x) (hf : ∀ a, Does G (f a)) :
    Does G (x >>= f) := by
  induction x with
  | done a => exact hf a
  | fail e => trivial
  | act run next ih =>
    intro s i b t hrun
    obtain ⟨hmoved, hrest⟩ := h s i b t hrun
    exact ⟨hmoved, ih b hrest⟩

theorem Does.map {f : α → β} (h : Does G x) : Does G (f <$> x) :=
  h.bind fun _ => trivial

theorem Does.atomically {run : σ → ι → Option (α × σ)}
    (h : ∀ s i a t, run s i = some (a, t) → G s t) :
    Does G (Thread.atomically run : Thread σ ι ε α) :=
  fun s i a t hrun => ⟨h s i a t hrun, trivial⟩

theorem Does.step {run : σ → α × σ} (h : ∀ s, G s (run s).2) :
    Does G (Thread.step run : Thread σ ι ε α) := by
  apply Does.atomically
  intro s i a t hrun
  have hresult : run s = (a, t) := Option.some.inj hrun
  have hmoved := h s
  rw [hresult] at hmoved
  exact hmoved

theorem Does.ofExcept (x : Except ε α) : Does G (Thread.ofExcept x : Thread σ ι ε α) := by
  cases x with
  | ok a => trivial
  | error e => trivial

theorem Does.ite {c : Prop} [Decidable c] {x y : Thread σ ι ε α} (hx : Does G x)
    (hy : Does G y) : Does G (if c then x else y) := by
  split_ifs
  · exact hx
  · exact hy

end Does

/-! ### The pool -/

/-- The shared state and the requests under way. -/
structure Pool (σ ι ε α : Type) where
  shared : σ
  threads : Table ℕ (Thread σ ι ε α)

/-- What requests there are, which of them may come in a state, and what moves
without a request. -/
structure Server (σ ι ε α ρ η : Type) where
  program : ρ → Thread σ ι ε α
  accepts : ρ → σ → Bool
  outside : η → σ → Option σ

inductive Event (ι ρ η : Type)
  | begin (id : ℕ) (request : ρ)
  | step (id : ℕ) (input : ι)
  /-- The client goes away. -/
  | cancel (id : ℕ)
  | outside (event : η)

namespace Pool

variable {ρ η : Type}

/-- The move from a pool in which it can be made. -/
def perform (server : Server σ ι ε α ρ η) (pool : Pool σ ι ε α) :
    Event ι ρ η → Option (Pool σ ι ε α)
  | .begin id request =>
    if id ∉ pool.threads ∧ server.accepts request pool.shared = true then
      some { pool with threads := pool.threads.insert id (server.program request) }
    else none
  | .step id input =>
    match pool.threads.lookup id with
    | some (.act run next) =>
      match run pool.shared input with
      | some (b, shared) => some ⟨shared, pool.threads.insert id (next b)⟩
      | none => none
    | _ => none
  | .cancel id => some { pool with threads := pool.threads.erase id }
  | .outside event =>
    match server.outside event pool.shared with
    | some shared => some { pool with shared }
    | none => none

def start (s : σ) : Pool σ ι ε α := ⟨s, ∅⟩

def Reachable (server : Server σ ι ε α ρ η) (init : σ → Prop) (pool : Pool σ ι ε α) : Prop :=
  Transition.Reachable (fun pool => ∃ s, init s ∧ pool = start s)
    (fun pool (e : Event ι ρ η) pool' => pool.perform server e = some pool') pool

section Does

variable {server : Server σ ι ε α ρ η} {G : σ → σ → Prop} {pool pool' : Pool σ ι ε α}

/-- Every step of every request under way moves along the relation. -/
def AllDo (G : σ → σ → Prop) (pool : Pool σ ι ε α) : Prop :=
  ∀ id thread, pool.threads.lookup id = some thread → Does G thread

/-- How an event moves the shared state. -/
inductive Moved (server : Server σ ι ε α ρ η) (G : σ → σ → Prop) (s : σ) :
    Event ι ρ η → σ → Prop
  | begin (id : ℕ) (request : ρ) : Moved server G s (.begin id request) s
  | step {t : σ} (id : ℕ) (input : ι) (h : G s t) : Moved server G s (.step id input) t
  | cancel (id : ℕ) : Moved server G s (.cancel id) s
  | outside {t : σ} (event : η) (h : server.outside event s = some t) :
      Moved server G s (.outside event) t

theorem allDo_start (s : σ) : AllDo G (start s : Pool σ ι ε α) := by
  intro id thread hthread
  cases hthread

theorem AllDo.perform {e : Event ι ρ η} (h : AllDo G pool)
    (hprogram : ∀ request, Does G (server.program request))
    (hstep : pool.perform server e = some pool') :
    AllDo G pool' ∧ Moved server G pool.shared e pool'.shared := by
  cases e with
  | begin id request =>
    simp only [Pool.perform] at hstep
    split_ifs at hstep
    cases hstep
    refine ⟨fun other thread hthread => ?_, .begin id request⟩
    rw [Table.lookup_insert_eq] at hthread
    split_ifs at hthread
    · cases hthread
      exact hprogram request
    · exact h other thread hthread
  | step id input =>
    simp only [Pool.perform] at hstep
    split at hstep
    · rename_i run rest hlookup
      split at hstep
      · rename_i b shared hrun
        cases hstep
        obtain ⟨hmoved, hrest⟩ := h id _ hlookup pool.shared input b shared hrun
        refine ⟨fun other thread hthread => ?_, .step id input hmoved⟩
        rw [Table.lookup_insert_eq] at hthread
        split_ifs at hthread
        · cases hthread
          exact hrest
        · exact h other thread hthread
      · cases hstep
    · cases hstep
  | cancel id =>
    cases hstep
    refine ⟨fun other thread hthread => ?_, .cancel id⟩
    rw [Table.lookup_erase_eq] at hthread
    split_ifs at hthread
    exact h other thread hthread
  | outside event =>
    simp only [Pool.perform] at hstep
    split at hstep
    · rename_i shared hmove
      cases hstep
      exact ⟨h, .outside event hmove⟩
    · cases hstep

end Does

variable {Inv : σ → Prop} {R : σ → σ → Prop} [IsPreorder σ R]

/-- Where every request is safe when it begins and the outside keeps the
invariant, it holds in every reachable pool. -/
theorem Reachable.invariant {server : Server σ ι ε α ρ η} {init : σ → Prop}
    (hinit : ∀ s, init s → Inv s)
    (hbegin : ∀ request s, server.accepts request s = true → Inv s →
      Safe Inv R (fun _ _ => True) (server.program request) s)
    (houtside : ∀ event s t, Inv s → server.outside event s = some t → Inv t ∧ R s t)
    {pool : Pool σ ι ε α} (h : Reachable server init pool) : Inv pool.shared := by
  let Kept (pool : Pool σ ι ε α) : Prop := Inv pool.shared ∧
    ∀ id thread, pool.threads.lookup id = some thread →
      Safe Inv R (fun _ _ => True) thread pool.shared
  suffices hkept : Kept pool from hkept.1
  refine Transition.Reachable.invariant ?_ ?_ h
  · rintro _ ⟨s, hs, rfl⟩
    exact ⟨hinit s hs, fun id thread hthread => by cases hthread⟩
  · rintro ⟨s, threads⟩ e next ⟨hinv, hthreads⟩ hstep
    cases e with
    | begin id request =>
      simp only [perform] at hstep
      split_ifs at hstep with hguard
      cases hstep
      refine ⟨hinv, fun other thread hthread => ?_⟩
      rw [Table.lookup_insert_eq] at hthread
      split_ifs at hthread
      · cases hthread
        exact hbegin request s hguard.2 hinv
      · exact hthreads other thread hthread
    | step id input =>
      simp only [perform] at hstep
      cases hlookup : threads.lookup id with
      | none => simp [hlookup] at hstep
      | some thread =>
        have hsafe := hthreads id thread hlookup
        cases thread with
        | done a => simp [hlookup] at hstep
        | fail e => simp [hlookup] at hstep
        | act run rest =>
          cases hrun : run s input with
          | none => simp [hlookup, hrun] at hstep
          | some result =>
            obtain ⟨b, t⟩ := result
            simp only [hlookup, hrun] at hstep
            cases hstep
            obtain ⟨hkept, hmoved, hrest⟩ := hsafe s (refl s) hinv input b t hrun
            refine ⟨hkept, fun other thread hthread => ?_⟩
            rw [Table.lookup_insert_eq] at hthread
            split_ifs at hthread
            · cases hthread
              exact hrest
            · exact (hthreads other thread hthread).move hmoved
    | cancel id =>
      cases hstep
      refine ⟨hinv, fun other thread hthread => ?_⟩
      rw [Table.lookup_erase_eq] at hthread
      split_ifs at hthread
      exact hthreads other thread hthread
    | outside event =>
      simp only [perform] at hstep
      cases hmove : server.outside event s with
      | none => simp [hmove] at hstep
      | some t =>
        simp only [hmove] at hstep
        cases hstep
        obtain ⟨hkept, hmoved⟩ := houtside event s t hinv hmove
        exact ⟨hkept, fun other thread hthread => (hthreads other thread hthread).move hmoved⟩

end Pool

end Thread
