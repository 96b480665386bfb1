/-
# Transactions

A transaction reads and changes a store and either commits, with a result, or
fails and leaves no store behind: a state computation over `Except`. A result
about a transaction is about its committed runs. Two kinds of rule cover most of
them: a committed sequence splits into its committed parts, and a preorder on
stores that each part moves along is one that the whole moves along.
-/

import Mathlib.Order.Defs.Unbundled

/-- A computation over a store that commits with a result or fails. -/
abbrev Transaction (σ ε α : Type) := StateT σ (Except ε) α

namespace Transaction

variable {σ ε α β : Type}

/-- Fails unless the condition holds. -/
def require (condition : Bool) (e : ε) : Transaction σ ε Unit :=
  if condition then pure () else throw e

/-- Runs only when the condition holds. -/
def onlyIf (condition : Bool) (x : Transaction σ ε Unit) : Transaction σ ε Unit :=
  if condition then x else pure ()

/-- The value, or a failure when there is none. -/
def fromOption (e : ε) : Option α → Transaction σ ε α
  | some a => pure a
  | none => throw e

/-- Runs once for each element, in order. -/
def forEach (f : β → Transaction σ ε Unit) : List β → Transaction σ ε Unit
  | [] => pure ()
  | b :: bs => do
    f b
    forEach f bs

/-- Folds over the elements, in order. -/
def fold (f : α → β → Transaction σ ε α) (a : α) : List β → Transaction σ ε α
  | [] => pure a
  | b :: bs => do fold f (← f a b) bs

theorem forEach_map {γ : Type} (f : β → Transaction σ ε Unit) (g : γ → β) (cs : List γ) :
    forEach f (cs.map g) = forEach (fun c => f (g c)) cs := by
  induction cs with
  | nil => rfl
  | cons c cs ih => rw [List.map_cons, forEach, forEach, ih]

/-- The store a run leaves behind when it commits. -/
def outcome (x : Transaction σ ε α) (s : σ) : Except ε σ := (x s).map Prod.snd

/-! ### Committed runs -/

section Committed

variable {s t : σ}

@[simp] theorem run_pure_ok {a b : α} :
    (pure a : Transaction σ ε α) s = .ok (b, t) ↔ a = b ∧ s = t := by
  change Except.ok (a, s) = .ok (b, t) ↔ a = b ∧ s = t
  simp

/-- A sequence commits exactly when its first part does and the rest commits
from there. -/
theorem run_bind_ok {x : Transaction σ ε α} {f : α → Transaction σ ε β} {b : β} :
    (x >>= f) s = .ok (b, t) ↔ ∃ a u, x s = .ok (a, u) ∧ f a u = .ok (b, t) := by
  simp only [bind, StateT.bind, Except.bind]
  cases hx : x s with
  | error e => simp
  | ok r =>
    obtain ⟨a, u⟩ := r
    simp [and_assoc]

/-- After a committed first part, a sequence runs as its rest does. -/
theorem run_bind_of_ok {x : Transaction σ ε α} {f : α → Transaction σ ε β} {a : α} {u : σ}
    (h : x s = .ok (a, u)) : (x >>= f) s = f a u := by
  simp only [bind, StateT.bind, Except.bind, h]

@[simp] theorem run_map_ok {x : Transaction σ ε α} {f : α → β} {b : β} :
    (f <$> x) s = .ok (b, t) ↔ ∃ a, x s = .ok (a, t) ∧ f a = b := by
  rw [map_eq_pure_bind, run_bind_ok]
  simp only [run_pure_ok]
  constructor
  · rintro ⟨a, u, hx, rfl, rfl⟩
    exact ⟨a, hx, rfl⟩
  · rintro ⟨a, hx, rfl⟩
    exact ⟨a, t, hx, rfl, rfl⟩

@[simp] theorem run_get_ok {a : σ} :
    (get : Transaction σ ε σ) s = .ok (a, t) ↔ s = a ∧ s = t := by
  simp [get, getThe, MonadStateOf.get, StateT.get, pure, Except.pure]

@[simp] theorem run_modify_ok {f : σ → σ} {a : PUnit} :
    (modify f : Transaction σ ε PUnit) s = .ok (a, t) ↔ f s = t := by
  change Except.ok (⟨⟩, f s) = .ok (a, t) ↔ f s = t
  simp

@[simp] theorem run_throw_ok {e : ε} {a : α} :
    ¬ (throw e : Transaction σ ε α) s = .ok (a, t) := by
  simp [throw, throwThe, MonadExceptOf.throw, StateT.lift, bind, Except.bind]

@[simp] theorem run_require_ok {condition : Bool} {e : ε} {a : Unit} :
    require condition e s = .ok (a, t) ↔ condition = true ∧ s = t := by
  cases condition <;> simp [require]

@[simp] theorem run_fromOption_ok {o : Option α} {e : ε} {a : α} :
    fromOption e o s = .ok (a, t) ↔ o = some a ∧ s = t := by
  cases o <;> simp [fromOption]

theorem outcome_eq_ok {x : Transaction σ ε α} : outcome x s = .ok t ↔ ∃ a, x s = .ok (a, t) := by
  rw [outcome]
  cases x s with
  | error e => simp [Except.map]
  | ok r =>
    obtain ⟨a, u⟩ := r
    simp [Except.map]

/-- What each element of a fold preserves of its value and the store, the whole
fold preserves. -/
theorem fold_preserves {f : α → β → Transaction σ ε α} {P : α → σ → Prop}
    (hstep : ∀ a b s a' t, P a s → f a b s = .ok (a', t) → P a' t) {bs : List β} {a a' : α}
    (hstart : P a s) (hrun : fold f a bs s = .ok (a', t)) : P a' t := by
  induction bs generalizing a s with
  | nil =>
    rw [fold, run_pure_ok] at hrun
    obtain ⟨rfl, rfl⟩ := hrun
    exact hstart
  | cons b bs ih =>
    rw [fold, run_bind_ok] at hrun
    obtain ⟨a₁, u, hfirst, hrest⟩ := hrun
    exact ih (hstep a b s a₁ u hstart hfirst) hrest

/-- What holds of the store and the elements a loop has been through holds at its
end of all of them. -/
theorem forEach_preserves {f : β → Transaction σ ε Unit} {P : List β → σ → Prop}
    (hstep : ∀ seen b s t, P seen s → f b s = .ok ((), t) → P (seen ++ [b]) t)
    {bs : List β} {a : Unit} (hstart : P [] s)
    (hrun : forEach f bs s = .ok (a, t)) : P bs t := by
  suffices h : ∀ seen, P seen s → P (seen ++ bs) t from h [] hstart
  intro seen hseen
  clear hstart
  induction bs generalizing seen s with
  | nil =>
    rw [forEach, run_pure_ok] at hrun
    obtain ⟨-, rfl⟩ := hrun
    simpa using hseen
  | cons b bs ih =>
    rw [forEach, run_bind_ok] at hrun
    obtain ⟨_, u, hfirst, hrest⟩ := hrun
    have hnext := hstep seen b s u hseen hfirst
    simpa using ih hrest (seen ++ [b]) hnext

end Committed

/-! ### What every committed run does -/

/-- Every committed run relates the store before it to the store after it. -/
def Moves (R : σ → σ → Prop) (x : Transaction σ ε α) : Prop :=
  ∀ s a t, x s = .ok (a, t) → R s t

section Moves

variable {R : σ → σ → Prop}

theorem Moves.modify {f : σ → σ} (h : ∀ s, R s (f s)) :
    Moves R (modify f : Transaction σ ε PUnit) := by
  intro s a t hrun
  rw [run_modify_ok] at hrun
  exact hrun ▸ h s

theorem Moves.throw (e : ε) : Moves R (throw e : Transaction σ ε α) :=
  fun _ _ _ hrun => absurd hrun run_throw_ok

theorem Moves.ite {c : Prop} [Decidable c] {x y : Transaction σ ε α} (hx : Moves R x)
    (hy : Moves R y) : Moves R (if c then x else y) := by
  split
  · exact hx
  · exact hy

section Preorder

variable [IsPreorder σ R]

theorem Moves.pure (a : α) : Moves R (pure a : Transaction σ ε α) := by
  intro s b t hrun
  rw [run_pure_ok] at hrun
  exact hrun.2 ▸ refl s

theorem Moves.get : Moves R (get : Transaction σ ε σ) := by
  intro s a t hrun
  rw [run_get_ok] at hrun
  exact hrun.2 ▸ refl s

theorem Moves.require (condition : Bool) (e : ε) :
    Moves R (require condition e : Transaction σ ε Unit) :=
  .ite (.pure ()) (.throw e)

theorem Moves.onlyIf (condition : Bool) {x : Transaction σ ε Unit} (hx : Moves R x) :
    Moves R (onlyIf condition x) :=
  .ite hx (.pure ())

theorem Moves.fromOption (e : ε) (o : Option α) :
    Moves R (fromOption e o : Transaction σ ε α) := by
  cases o with
  | none => exact .throw e
  | some a => exact .pure a

theorem Moves.bind {x : Transaction σ ε α} {f : α → Transaction σ ε β} (hx : Moves R x)
    (hf : ∀ a, Moves R (f a)) : Moves R (x >>= f) := by
  intro s b t hrun
  obtain ⟨a, u, hfirst, hrest⟩ := run_bind_ok.mp hrun
  exact trans_of R (hx s a u hfirst) (hf a u b t hrest)

theorem Moves.forEach {f : β → Transaction σ ε Unit} (hf : ∀ b, Moves R (f b)) (bs : List β) :
    Moves R (forEach f bs) := by
  induction bs with
  | nil => exact .pure ()
  | cons b bs ih => exact .bind (hf b) fun _ => ih

theorem Moves.fold {f : α → β → Transaction σ ε α} (hf : ∀ a b, Moves R (f a b)) (a : α)
    (bs : List β) : Moves R (fold f a bs) := by
  induction bs generalizing a with
  | nil => exact .pure a
  | cons b bs ih => exact .bind (hf a b) fun a' => ih a'

end Preorder

end Moves

/-- The stores that agree on one part of them. -/
def Keeps {γ : Type*} (part : σ → γ) (s t : σ) : Prop := part t = part s

instance {γ : Type*} (part : σ → γ) : IsPreorder σ (Keeps part) where
  refl _ := rfl
  trans _ _ _ hfirst hsecond := hsecond.trans hfirst

/-! ### What a run ends in -/

/-- From the store, the run commits with a result and a store of the one kind or
fails with an error of the other. -/
def Meets (E : ε → Prop) (Q : α → σ → Prop) (x : Transaction σ ε α) (s : σ) : Prop :=
  match x s with
  | .ok (a, t) => Q a t
  | .error e => E e

section Meets

variable {E : ε → Prop} {Q : α → σ → Prop} {s : σ}

theorem Meets.committed {x : Transaction σ ε α} {a : α} {t : σ} (h : Meets E Q x s)
    (hrun : x s = .ok (a, t)) : Q a t := by
  simpa only [Meets, hrun] using h

theorem Meets.failed {x : Transaction σ ε α} {e : ε} (h : Meets E Q x s)
    (hrun : x s = .error e) : E e := by
  simpa only [Meets, hrun] using h

theorem Meets.of_ok {x : Transaction σ ε α} {a : α} {t : σ} (hrun : x s = .ok (a, t))
    (h : Q a t) : Meets E Q x s := by
  simpa only [Meets, hrun] using h

theorem Meets.mono {E' : ε → Prop} {Q' : α → σ → Prop} {x : Transaction σ ε α}
    (h : Meets E Q x s) (hE : ∀ e, E e → E' e) (hQ : ∀ a t, Q a t → Q' a t) : Meets E' Q' x s := by
  unfold Meets at h ⊢
  cases hrun : x s with
  | ok r => simp only [hrun] at h; exact hQ _ _ h
  | error e => simp only [hrun] at h; exact hE e h

@[simp] theorem meets_pure {a : α} : Meets E Q (pure a : Transaction σ ε α) s ↔ Q a s := Iff.rfl

@[simp] theorem meets_throw {e : ε} : Meets E Q (throw e : Transaction σ ε α) s ↔ E e := Iff.rfl

@[simp] theorem meets_get {Q : σ → σ → Prop} :
    Meets E Q (get : Transaction σ ε σ) s ↔ Q s s := Iff.rfl

@[simp] theorem meets_set {Q : PUnit → σ → Prop} {t : σ} :
    Meets E Q (set t : Transaction σ ε PUnit) s ↔ Q ⟨⟩ t := Iff.rfl

@[simp] theorem meets_modify {Q : PUnit → σ → Prop} {f : σ → σ} :
    Meets E Q (modify f : Transaction σ ε PUnit) s ↔ Q ⟨⟩ (f s) := Iff.rfl

/-- A sequence ends as its second part does from wherever its first part
commits. -/
@[simp] theorem meets_bind {x : Transaction σ ε β} {f : β → Transaction σ ε α} :
    Meets E Q (x >>= f) s ↔ Meets E (fun b u => Meets E Q (f b) u) x s := by
  simp only [Meets, bind, StateT.bind, Except.bind]
  cases x s with
  | ok r => exact Iff.rfl
  | error e => exact Iff.rfl

@[simp] theorem meets_map {x : Transaction σ ε β} {f : β → α} :
    Meets E Q (f <$> x) s ↔ Meets E (fun b t => Q (f b) t) x s := by
  rw [map_eq_pure_bind, meets_bind]
  simp only [meets_pure]

@[simp] theorem meets_require {Q : Unit → σ → Prop} {condition : Bool} {e : ε} :
    Meets E Q (require condition e) s ↔
      (condition = true → Q () s) ∧ (condition = false → E e) := by
  cases condition <;> simp [require]

@[simp] theorem meets_fromOption {o : Option α} {e : ε} :
    Meets E Q (fromOption e o) s ↔ (∀ a, o = some a → Q a s) ∧ (o = none → E e) := by
  cases o <;> simp [fromOption]

/-- What holds of the store and the elements a loop has been through, before each
element and after it, holds at its end of all of them. -/
theorem Meets.forEach {f : β → Transaction σ ε Unit} {I : List β → σ → Prop} {bs : List β}
    (hstep : ∀ seen b rest u, bs = seen ++ b :: rest → I seen u →
      Meets E (fun _ => I (seen ++ [b])) (f b) u)
    (hstart : I [] s) : Meets E (fun _ => I bs) (forEach f bs) s := by
  suffices h : ∀ rest seen u, bs = seen ++ rest → I seen u →
      Meets E (fun _ => I bs) (Transaction.forEach f rest) u from h bs [] s rfl hstart
  intro rest
  induction rest with
  | nil =>
    intro seen u hsplit hseen
    rw [hsplit, List.append_nil]
    exact hseen
  | cons b rest ih =>
    intro seen u hsplit hseen
    rw [Transaction.forEach, meets_bind]
    refine (hstep seen b rest u hsplit hseen).mono (fun _ h => h) fun _ t hnext => ?_
    exact ih (seen ++ [b]) t (by simp [hsplit]) hnext

end Meets

end Transaction
