/-
# Numbers in text

A number is read from the decimal digits that write it, with a sign where the type has
one, as far as the type holds it.
-/

import Mathlib.Algebra.Group.Nat.Defs

namespace Numerals

/-- The number that decimal digits write. -/
def digitsValue (text : List Char) : Option ℕ :=
  if text = [] ∨ text.all Char.isDigit = false then none
  else some (text.foldl (fun n c => n * 10 + (c.toNat - 48)) 0)

def parseU64 (text : List Char) : Option UInt64 :=
  (digitsValue (if text.head? = some '+' then text.tail else text)).bind fun n =>
    if n < 2 ^ 64 then some (UInt64.ofNat n) else none

def parseI64 (text : List Char) : Option ℤ :=
  if text.head? = some '-' then
    (digitsValue text.tail).bind fun n => if n ≤ 2 ^ 63 then some (-(n : ℤ)) else none
  else
    (digitsValue (if text.head? = some '+' then text.tail else text)).bind fun n =>
      if n < 2 ^ 63 then some (n : ℤ) else none

theorem digitsValue_of_isDigit {text : List Char} (hne : text ≠ [])
    (h : ∀ c ∈ text, c.isDigit = true) :
    digitsValue text = some (Nat.ofDigitChars 10 text 0) := by
  have hall : ¬(text = [] ∨ text.all Char.isDigit = false) := by
    rintro (hnil | hany)
    · exact hne hnil
    · rw [List.all_eq_true.mpr h] at hany
      cases hany
  rw [digitsValue, if_neg hall, Nat.ofDigitChars_eq_foldl]
  simp only [Nat.mul_comm 10]
  rfl

theorem digitsValue_isDigit {text : List Char} {n : ℕ} (h : digitsValue text = some n) :
    text ≠ [] ∧ ∀ c ∈ text, c.isDigit = true := by
  rw [digitsValue] at h
  split at h
  · cases h
  · rename_i hall
    obtain ⟨hne, hdigits⟩ := not_or.mp hall
    exact ⟨hne, List.all_eq_true.mp (Bool.not_eq_false _ ▸ hdigits)⟩

theorem isDigit_toDigits {n : ℕ} {c : Char} (h : c ∈ Nat.toDigits 10 n) : c.isDigit = true :=
  Nat.isDigit_of_mem_toDigits (by decide) (by decide) h

theorem digitsValue_toDigits (n : ℕ) : digitsValue (Nat.toDigits 10 n) = some n := by
  rw [digitsValue_of_isDigit Nat.toDigits_ne_nil fun c => isDigit_toDigits,
    Nat.ofDigitChars_ten_toDigits]

/-- A number is written without a sign. -/
theorem head_toDigits (n : ℕ) {sign : Char} (hsign : sign.isDigit = false) :
    (Nat.toDigits 10 n).head? ≠ some sign := by
  intro h
  have hdigit := isDigit_toDigits (List.mem_of_mem_head? h)
  rw [hsign] at hdigit
  cases hdigit

theorem parseU64_toDigits {n : ℕ} (h : n < 2 ^ 64) :
    parseU64 (Nat.toDigits 10 n) = some (UInt64.ofNat n) := by
  rw [parseU64, if_neg (head_toDigits n (by decide)), digitsValue_toDigits, Option.bind_some,
    if_pos h]

end Numerals
