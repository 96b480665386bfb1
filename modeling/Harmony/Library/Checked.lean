/-
# Programs whose arithmetic and indexing are checked

A program that checks its arithmetic and its indices stops in a panic where a check fails,
which is not one of the errors it reports. `Meets` says that a program does neither that nor
go on past the bound on its loops, and what holds of the result it returns.
-/

import Mathlib.Data.List.TakeDrop
import Mathlib.Algebra.Group.Nat.Defs
import Mathlib.Algebra.Group.Int.Defs

/-- Why a program has stopped without a result. -/
inductive Stop (ε : Type)
  | failed (error : ε)
  | panicked
  /-- A loop has used up its bound. -/
  | unfinished
  deriving DecidableEq

abbrev Checked (ε α : Type) := Except (Stop ε) α

namespace Checked

variable {ε α β : Type} {f : α → Checked ε β}

def fail (error : ε) : Checked ε α := .error (.failed error)

/-- An error that is already known. -/
def ofExcept : Except ε α → Checked ε α
  | .ok a => .ok a
  | .error error => .error (.failed error)

/-- The program with another kind of error. -/
def mapFail {ε' : Type} (f : ε → ε') : Checked ε α → Checked ε' α
  | .ok a => .ok a
  | .error (.failed error) => .error (.failed (f error))
  | .error .panicked => .error .panicked
  | .error .unfinished => .error .unfinished

/-- The difference of two unsigned numbers. -/
def sub (a b : ℕ) : Checked ε ℕ := if b ≤ a then .ok (a - b) else .error .panicked

/-- The sum of two unsigned numbers of 64 bits. -/
def addU64 (a b : ℕ) : Checked ε ℕ := if a + b < 2 ^ 64 then .ok (a + b) else .error .panicked

/-- A result that has to fit in a signed number of 64 bits. -/
def fitI64 (n : ℤ) : Checked ε ℤ :=
  if -2 ^ 63 ≤ n ∧ n < 2 ^ 63 then .ok n else .error .panicked

def slice (data : List β) (start stop : ℕ) : Checked ε (List β) :=
  if start ≤ stop ∧ stop ≤ data.length then .ok ((data.drop start).take (stop - start))
  else .error .panicked

def index (data : List β) (i : ℕ) : Checked ε β :=
  match data[i]? with
  | some b => .ok b
  | none => .error .panicked

/-- The program neither panics nor goes on forever, and what it returns is as `Q` says. -/
def Meets (Q : α → Prop) : Checked ε α → Prop
  | .ok a => Q a
  | .error (.failed _) => True
  | .error _ => False

/-! ### What a program returns -/

@[simp] theorem ok_bind (a : α) (f : α → Checked ε β) : (Except.ok a : Checked ε α) >>= f = f a :=
  rfl

theorem bind_eq_ok {x : Checked ε α} {b : β} :
    x >>= f = .ok b ↔ ∃ a, x = .ok a ∧ f a = .ok b := by
  cases x with
  | ok a => simp
  | error stop =>
    constructor
    · intro h
      cases h
    · rintro ⟨_, h, _⟩
      cases h

@[simp] theorem mapFail_ok {ε' : Type} (f : ε → ε') (a : α) :
    mapFail f (.ok a : Checked ε α) = .ok a :=
  rfl

@[simp] theorem ofExcept_eq_ok {x : Except ε α} {a : α} : ofExcept x = .ok a ↔ x = .ok a := by
  cases x with
  | ok b => simp [ofExcept]
  | error error => simp [ofExcept]

theorem sub_of_le {a b : ℕ} (h : b ≤ a) : (sub a b : Checked ε ℕ) = .ok (a - b) := if_pos h

theorem addU64_of_lt {a b : ℕ} (h : a + b < 2 ^ 64) : (addU64 a b : Checked ε ℕ) = .ok (a + b) :=
  if_pos h

theorem fitI64_of_range {n : ℤ} (hlow : -2 ^ 63 ≤ n) (hhigh : n < 2 ^ 63) :
    (fitI64 n : Checked ε ℤ) = .ok n :=
  if_pos ⟨hlow, hhigh⟩

theorem slice_of_le {data : List β} {start stop : ℕ} (h : start ≤ stop)
    (hdata : stop ≤ data.length) :
    (slice data start stop : Checked ε (List β)) = .ok ((data.drop start).take (stop - start)) :=
  if_pos ⟨h, hdata⟩

/-- The bytes from a place to the end. -/
theorem slice_rest {data : List β} {start : ℕ} (h : start ≤ data.length) :
    (slice data start data.length : Checked ε (List β)) = .ok (data.drop start) := by
  rw [slice_of_le h (Nat.le_refl _), List.take_of_length_le (Nat.le_of_eq List.length_drop)]

theorem index_of_getElem? {data : List β} {i : ℕ} {b : β} (h : data[i]? = some b) :
    (index data i : Checked ε β) = .ok b := by
  rw [index, h]

/-! ### What a program meets -/

section Meets

variable {Q : α → Prop} {x : Checked ε α}

theorem Meets.ok {a : α} (h : Q a) : Meets Q (.ok a : Checked ε α) := h

theorem Meets.fail (error : ε) : Meets Q (fail error : Checked ε α) := trivial

theorem Meets.of_ok {a : α} (h : Meets Q x) (hx : x = .ok a) : Q a := by
  rw [hx] at h
  exact h

theorem Meets.not_panicked (h : Meets Q x) : x ≠ .error .panicked := by
  rintro rfl
  exact h

theorem Meets.not_unfinished (h : Meets Q x) : x ≠ .error .unfinished := by
  rintro rfl
  exact h

theorem Meets.mono {R : α → Prop} (h : Meets Q x) (hQ : ∀ a, Q a → R a) : Meets R x := by
  cases x with
  | ok a => exact hQ a h
  | error stop =>
    cases stop with
    | failed error => trivial
    | panicked => exact h
    | unfinished => exact h

theorem Meets.bind {R : β → Prop} (h : Meets Q x) (hf : ∀ a, Q a → Meets R (f a)) :
    Meets R (x >>= f) := by
  cases x with
  | ok a => exact hf a h
  | error stop =>
    cases stop with
    | failed error => trivial
    | panicked => exact h
    | unfinished => exact h

/-- With the first result known. -/
theorem Meets.bind_eq {R : β → Prop} (h : Meets Q x) (hf : ∀ a, x = .ok a → Q a → Meets R (f a)) :
    Meets R (x >>= f) := by
  cases x with
  | ok a => exact hf a rfl h
  | error stop =>
    cases stop with
    | failed error => trivial
    | panicked => exact h
    | unfinished => exact h

theorem Meets.ite {c : Prop} [Decidable c] {y : Checked ε α} (hx : c → Meets Q x)
    (hy : ¬c → Meets Q y) : Meets Q (if c then x else y) := by
  split_ifs with h
  · exact hx h
  · exact hy h

theorem Meets.ofExcept {y : Except ε α} (h : ∀ a, y = .ok a → Q a) : Meets Q (ofExcept y) := by
  cases y with
  | ok a => exact h a rfl
  | error error => trivial

theorem Meets.mapFail {ε' : Type} (f : ε → ε') (h : Meets Q x) : Meets Q (mapFail f x) := by
  cases x with
  | ok a => exact h
  | error stop =>
    cases stop with
    | failed error => trivial
    | panicked => exact h
    | unfinished => exact h

end Meets

end Checked
