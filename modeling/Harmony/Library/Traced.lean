/-
# Programs that keep a log

A checked program that notes what it does on the way, also where it ends in an error. `Meets`
says what holds of every note, that the program neither panics nor goes on past its bound, and
what holds of the result.
-/

import Harmony.Library.Checked

/-- What a program has noted, and its result. -/
structure Traced (ω ε α : Type) where
  log : List ω
  result : Checked ε α

namespace Traced

variable {ω ε α β : Type}

def lift (x : Checked ε α) : Traced ω ε α := ⟨[], x⟩

def note (entry : ω) : Traced ω ε Unit := ⟨[entry], .ok ()⟩

def fail (error : ε) : Traced ω ε α := lift (Checked.fail error)

/-- Runs the second program where the first returns, behind what the first has noted. -/
def andThen (x : Traced ω ε α) (f : α → Traced ω ε β) : Traced ω ε β :=
  match x.result with
  | .ok a => ⟨x.log ++ (f a).log, (f a).result⟩
  | .error stop => ⟨x.log, .error stop⟩

instance : Monad (Traced ω ε) where
  pure a := lift (.ok a)
  bind := andThen

/-- The program notes only what `P` says, and does with its result what `Q` says. -/
structure Meets (P : ω → Prop) (Q : α → Prop) (x : Traced ω ε α) : Prop where
  log : ∀ entry ∈ x.log, P entry
  result : Checked.Meets Q x.result

section Results

variable {x : Traced ω ε α} {f : α → Traced ω ε β}

theorem result_bind {a : α} (h : x.result = .ok a) : (x >>= f).result = (f a).result := by
  change (andThen x f).result = _
  rw [andThen, h]

@[simp] theorem result_note_bind (entry : ω) (g : Unit → Traced ω ε β) :
    ((note entry : Traced ω ε Unit) >>= g).result = (g ()).result :=
  rfl

end Results

section Meets

variable {P : ω → Prop} {Q : α → Prop} {x : Traced ω ε α}

theorem Meets.lift {y : Checked ε α} (h : Checked.Meets Q y) : Meets P Q (lift y) where
  log _ hentry := absurd hentry List.not_mem_nil
  result := h

theorem Meets.pure {a : α} (h : Q a) : Meets P Q (pure a : Traced ω ε α) := Meets.lift h

theorem Meets.fail (error : ε) : Meets P Q (fail error) := Meets.lift (Checked.Meets.fail error)

theorem Meets.note {entry : ω} (h : P entry) :
    Meets P (fun _ => True) (note entry : Traced ω ε Unit) where
  log other hother := by
    rw [List.mem_singleton.mp hother]
    exact h
  result := Checked.Meets.ok trivial

theorem Meets.bind {R : β → Prop} {f : α → Traced ω ε β} (h : Meets P Q x)
    (hf : ∀ a, Q a → Meets P R (f a)) : Meets P R (x >>= f) := by
  change Meets P R (andThen x f)
  have hresult := h.result
  rw [andThen]
  cases hx : x.result with
  | ok a =>
    rw [hx] at hresult
    obtain ⟨hlog, hafter⟩ := hf a hresult
    refine ⟨?_, hafter⟩
    intro entry hentry
    rcases List.mem_append.mp hentry with hfirst | hsecond
    · exact h.log entry hfirst
    · exact hlog entry hsecond
  | error stop =>
    rw [hx] at hresult
    refine ⟨h.log, ?_⟩
    cases stop with
    | failed error => exact trivial
    | panicked => exact hresult
    | unfinished => exact hresult

theorem Meets.ite {c : Prop} [Decidable c] {y : Traced ω ε α} (hx : c → Meets P Q x)
    (hy : ¬c → Meets P Q y) : Meets P Q (if c then x else y) := by
  split_ifs with h
  · exact hx h
  · exact hy h

end Meets

end Traced
