/-
# The Gregorian calendar

The proleptic Gregorian calendar: each date is followed by one other, and is before all
the dates that come after it.
-/

import Mathlib.Data.Int.SuccPred
import Mathlib.Data.Prod.Lex
import Mathlib.Data.Int.ConditionallyCompleteOrder

namespace Calendar

structure Date where
  year : ℤ
  month : ℕ
  day : ℕ
  deriving DecidableEq

def isLeap (year : ℤ) : Bool := year % 4 = 0 && (year % 100 ≠ 0 || year % 400 = 0)

def daysInMonth (year : ℤ) (month : ℕ) : ℕ :=
  match month with
  | 2 => if isLeap year then 29 else 28
  | 4 | 6 | 9 | 11 => 30
  | _ => 31

namespace Date

structure IsValid (date : Date) : Prop where
  month : 1 ≤ date.month ∧ date.month ≤ 12
  day : 1 ≤ date.day ∧ date.day ≤ daysInMonth date.year date.month

/-- The day after. -/
def next (date : Date) : Date :=
  if date.day < daysInMonth date.year date.month then { date with day := date.day + 1 }
  else if date.month < 12 then ⟨date.year, date.month + 1, 1⟩
  else ⟨date.year + 1, 1, 1⟩

/-- The year counts first, then the month, then the day. -/
def key (date : Date) : ℤ ×ₗ ℕ ×ₗ ℕ := toLex (date.year, toLex (date.month, date.day))

theorem key_injective : Function.Injective key := by
  rintro ⟨year, month, day⟩ ⟨year', month', day'⟩ h
  obtain ⟨rfl, hrest⟩ := Prod.mk.inj (toLex.injective h)
  obtain ⟨rfl, rfl⟩ := Prod.mk.inj (toLex.injective hrest)
  rfl

instance : LinearOrder Date := LinearOrder.lift' key key_injective

theorem lt_iff {date date' : Date} :
    date < date' ↔ date.year < date'.year ∨ date.year = date'.year ∧
      (date.month < date'.month ∨ date.month = date'.month ∧ date.day < date'.day) := by
  change key date < key date' ↔ _
  rw [key, key, Prod.Lex.toLex_lt_toLex, Prod.Lex.toLex_lt_toLex]

theorem lt_next (date : Date) : date < date.next := by
  rw [lt_iff, next]
  split_ifs
  · exact .inr ⟨rfl, .inr ⟨rfl, Nat.lt_succ_self _⟩⟩
  · exact .inr ⟨rfl, .inl (Nat.lt_succ_self _)⟩
  · exact .inl (Int.lt_succ _)

/-- Dates that follow each other day by day are in order. -/
theorem strictMono_of_next {dates : ℤ → Date} (h : ∀ day, dates (day + 1) = (dates day).next) :
    StrictMono dates := by
  refine strictMono_int_of_lt_succ fun day => ?_
  rw [h]
  exact lt_next (dates day)

end Date

end Calendar
