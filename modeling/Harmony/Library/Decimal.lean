/-
# Decimal digits

Numbers written with leading zeros, and fractions written without trailing ones. As texts
they compare as they do as numbers.
-/

import Mathlib.Data.Char
import Mathlib.Data.List.Induction
import Mathlib.Data.List.Lex
import Mathlib.Tactic.IntervalCases

namespace Decimal

/-- The last digits of the number, as many as the width. -/
def digits : ℕ → ℕ → List Char
  | 0, _ => []
  | width + 1, n => digits width (n / 10) ++ [Nat.digitChar (n % 10)]

/-- The number with zeros before it, up to the width. -/
def padded (width n : ℕ) : List Char :=
  List.replicate (width - (Nat.toDigits 10 n).length) '0' ++ Nat.toDigits 10 n

/-- A text without the characters of a kind at its end. -/
def trimEnd (p : Char → Bool) : List Char → List Char
  | [] => []
  | c :: rest =>
    if p c ∧ trimEnd p rest = [] then [] else c :: trimEnd p rest

def isDigit (c : Char) : Bool := '0' ≤ c && c ≤ '9'

/-! ### Order -/

section Order

variable {α : Type*} [LT α]

/-- Texts of one length decide before what follows them does. -/
theorem append_lt_append_iff {first first' rest rest' : List α}
    (h : first.length = first'.length) :
    first ++ rest < first' ++ rest' ↔ first < first' ∨ first = first' ∧ rest < rest' := by
  induction first generalizing first' with
  | nil =>
    obtain rfl := List.length_eq_zero_iff.mp h.symm
    simp [List.not_lt_nil]
  | cons a first ih =>
    cases first' with
    | nil => cases h
    | cons a' first' =>
      rw [List.cons_append, List.cons_append, List.cons_lt_cons_iff, List.cons_lt_cons_iff,
        ih (Nat.succ.inj h), List.cons.injEq]
      tauto

end Order

theorem digitChar_lt_digitChar {n m : ℕ} (hn : n < 10) (hm : m < 10) :
    Nat.digitChar n < Nat.digitChar m ↔ n < m := by
  interval_cases n <;> interval_cases m <;> decide

theorem digitChar_inj {n m : ℕ} (hn : n < 10) (hm : m < 10) :
    Nat.digitChar n = Nat.digitChar m ↔ n = m := by
  interval_cases n <;> interval_cases m <;> decide

theorem isDigit_digitChar {n : ℕ} (hn : n < 10) : isDigit (Nat.digitChar n) = true := by
  interval_cases n <;> decide

/-! ### Numbers of one width -/

@[simp] theorem length_digits (width n : ℕ) : (digits width n).length = width := by
  induction width generalizing n with
  | zero => rfl
  | succ width ih => rw [digits, List.length_append, ih, List.length_singleton]

variable {c : Char} {width n : ℕ}

theorem isDigit_of_mem_digits (h : c ∈ digits width n) :
    isDigit c = true := by
  induction width generalizing n with
  | zero => cases h
  | succ width ih =>
    rcases List.mem_append.mp h with hfront | hlast
    · exact ih hfront
    · rw [List.mem_singleton.mp hlast]
      exact isDigit_digitChar (Nat.mod_lt n (by omega))

theorem digits_zero (width : ℕ) : digits width 0 = List.replicate width '0' := by
  induction width with
  | zero => rfl
  | succ width ih =>
    rw [digits, Nat.zero_div, ih, List.replicate_succ']
    rfl

theorem digits_inj {width n m : ℕ} (hn : n < 10 ^ width) (hm : m < 10 ^ width)
    (h : digits width n = digits width m) : n = m := by
  induction width generalizing n m with
  | zero =>
    rw [pow_zero] at hn hm
    omega
  | succ width ih =>
    rw [pow_succ] at hn hm
    obtain ⟨hfront, hlast⟩ := List.append_inj h (by rw [length_digits, length_digits])
    have hhigh := ih (by omega) (by omega) hfront
    have hlow := (digitChar_inj (Nat.mod_lt n (by omega)) (Nat.mod_lt m (by omega))).mp
      (List.singleton_inj.mp hlast)
    omega

theorem digits_lt_digits {width n m : ℕ} (hn : n < 10 ^ width) (hm : m < 10 ^ width) :
    digits width n < digits width m ↔ n < m := by
  induction width generalizing n m with
  | zero =>
    rw [pow_zero] at hn hm
    simp only [digits, List.lt_irrefl, false_iff, not_lt]
    omega
  | succ width ih =>
    rw [pow_succ] at hn hm
    have hhigh : n / 10 < 10 ^ width := by omega
    have hhigh' : m / 10 < 10 ^ width := by omega
    rw [digits, digits, append_lt_append_iff (by simp), ih hhigh hhigh', List.cons_lt_cons_iff,
      digitChar_lt_digitChar (Nat.mod_lt n (by omega)) (Nat.mod_lt m (by omega))]
    constructor
    · rintro (hlt | ⟨hfront, hlast | ⟨-, hnil⟩⟩)
      · omega
      · have hsame := digits_inj hhigh hhigh' hfront
        omega
      · exact absurd hnil (List.lt_irrefl [])
    · intro hlt
      rcases Nat.lt_or_ge (n / 10) (m / 10) with hfront | hfront
      · exact .inl hfront
      · have hsame : n / 10 = m / 10 := by omega
        exact .inr ⟨congrArg (digits width) hsame, .inl (by omega)⟩

/-- A number that fits is written with all the digits of the width. -/
theorem padded_eq_digits (hwidth : 0 < width) (h : n < 10 ^ width) :
    padded width n = digits width n := by
  induction width generalizing n with
  | zero => cases hwidth
  | succ width ih =>
    by_cases hsmall : n < 10
    · -- one digit, and zeros for all the others
      rw [padded, Nat.toDigits_of_lt_base hsmall, digits, Nat.div_eq_of_lt hsmall, digits_zero,
        Nat.mod_eq_of_lt hsmall]
      rfl
    · have hpositive : 0 < width := by
        rcases Nat.eq_zero_or_pos width with rfl | hpositive
        · rw [zero_add, pow_one] at h
          exact absurd h hsmall
        · exact hpositive
      rw [pow_succ] at h
      have hsmaller : n / 10 < 10 ^ width := by omega
      have hfront := ih hpositive hsmaller
      rw [padded, Nat.toDigits_of_base_le (by omega) (by omega), digits, ← hfront, padded,
        List.length_append, List.length_singleton, List.append_assoc, Nat.add_sub_add_right]

/-! ### The number of some digits -/

theorem digitChar_of_isDigit (h : c.isDigit = true) :
    c.toNat - 48 < 10 ∧ Nat.digitChar (c.toNat - 48) = c := by
  have hrange := Char.isDigit_iff_toNat.mp h
  have hall : ∀ n < 58, 48 ≤ n → n - 48 < 10 ∧ Nat.digitChar (n - 48) = Char.ofNat n := by decide
  have hlt : c.toNat < 58 := Nat.lt_succ_of_le hrange.2
  have hdigit := hall c.toNat hlt hrange.1
  rwa [Char.ofNat_toNat] at hdigit

theorem ofDigitChars_concat (text : List Char) (c : Char) :
    Nat.ofDigitChars 10 (text ++ [c]) 0 = 10 * Nat.ofDigitChars 10 text 0 + (c.toNat - 48) := by
  rw [Nat.ofDigitChars_append, Nat.ofDigitChars_cons, Nat.ofDigitChars_nil]
  rfl

theorem ofDigitChars_digits (h : n < 10 ^ width) :
    Nat.ofDigitChars 10 (digits width n) 0 = n := by
  induction width generalizing n with
  | zero =>
    rw [pow_zero] at h
    have hzero : n = 0 := by omega
    rw [hzero]
    rfl
  | succ width ih =>
    rw [pow_succ] at h
    have hlast : n % 10 < 10 := Nat.mod_lt n (by omega)
    rw [digits, ofDigitChars_concat, ih (by omega), Nat.toNat_digitChar_sub_48_of_lt_ten hlast]
    omega

variable {text : List Char} {p : Char → Bool}

/-- Digits are those of the number that they write. -/
theorem digits_ofDigitChars (h : ∀ c ∈ text, c.isDigit = true) :
    digits text.length (Nat.ofDigitChars 10 text 0) = text := by
  induction text using List.reverseRecOn with
  | nil => rfl
  | append_singleton text c ih =>
    have hc := digitChar_of_isDigit (h c (List.mem_append_right text List.mem_cons_self))
    have htext := ih fun d hd => h d (List.mem_append_left [c] hd)
    have hdiv : (10 * Nat.ofDigitChars 10 text 0 + (c.toNat - 48)) / 10 =
        Nat.ofDigitChars 10 text 0 := by omega
    have hmod : (10 * Nat.ofDigitChars 10 text 0 + (c.toNat - 48)) % 10 = c.toNat - 48 := by omega
    rw [List.length_append, List.length_singleton, digits, ofDigitChars_concat, hdiv, hmod, htext,
      hc.2]

theorem ofDigitChars_lt (h : ∀ c ∈ text, c.isDigit = true) :
    Nat.ofDigitChars 10 text 0 < 10 ^ text.length := by
  induction text using List.reverseRecOn with
  | nil => exact Nat.one_pos
  | append_singleton text c ih =>
    have hc := digitChar_of_isDigit (h c (List.mem_append_right text List.mem_cons_self))
    have htext := ih fun d hd => h d (List.mem_append_left [c] hd)
    rw [List.length_append, List.length_singleton, pow_succ, ofDigitChars_concat]
    omega

/-! ### Fractions -/

theorem trimEnd_cons_of_ne {rest : List Char} (h : p c = false ∨ trimEnd p rest ≠ []) :
    trimEnd p (c :: rest) = c :: trimEnd p rest := by
  rw [trimEnd, if_neg]
  rintro ⟨hc, hrest⟩
  rcases h with hplain | hne
  · rw [hplain] at hc
    cases hc
  · exact hne hrest

/-- A text whose last character stays is not trimmed. -/
theorem trimEnd_of_getLast (h : ∀ c, text.getLast? = some c → p c = false) :
    trimEnd p text = text := by
  induction text with
  | nil => rfl
  | cons c rest ih =>
    cases rest with
    | nil => exact trimEnd_cons_of_ne (.inl (h c rfl))
    | cons next rest =>
      have hrest := ih fun last hlast => h last (by rw [List.getLast?_cons_cons, hlast])
      rw [trimEnd_cons_of_ne (.inr (by rw [hrest]; exact List.cons_ne_nil _ _)), hrest]

/-- The last character of what is left stays. -/
theorem getLast_trimEnd (h : (trimEnd p text).getLast? = some c) :
    p c = false := by
  induction text with
  | nil => cases h
  | cons first rest ih =>
    rw [trimEnd] at h
    split_ifs at h with hgone
    · cases h
    · cases hrest : trimEnd p rest with
      | nil =>
        rw [hrest] at h
        cases h
        exact Bool.eq_false_of_not_eq_true fun hfirst => hgone ⟨hfirst, hrest⟩
      | cons next others =>
        rw [hrest, List.getLast?_cons_cons, ← hrest] at h
        exact ih h

theorem of_trimEnd_eq_nil (h : trimEnd p text = []) :
    ∀ c ∈ text, p c = true := by
  induction text with
  | nil => exact fun c hc => nomatch hc
  | cons first rest ih =>
    rw [trimEnd] at h
    split_ifs at h with hgone
    intro c hc
    rcases List.mem_cons.mp hc with rfl | hrest
    · exact hgone.1
    · exact ih hgone.2 c hrest

/-- A number that is not zero has a digit that stays. -/
theorem trimEnd_digits_ne_nil (h : n < 10 ^ width) (hne : n ≠ 0) :
    trimEnd (· = '0') (digits width n) ≠ [] := by
  intro hnil
  have hzeros : digits width n = List.replicate width '0' := by
    refine List.eq_replicate_iff.mpr ⟨length_digits width n, fun c hc => ?_⟩
    exact of_decide_eq_true (of_trimEnd_eq_nil hnil c hc)
  exact hne (digits_inj h (Nat.pow_pos (by omega)) (hzeros.trans (digits_zero width).symm))

theorem mem_of_mem_trimEnd (h : c ∈ trimEnd p text) : c ∈ text := by
  induction text with
  | nil => exact h
  | cons first rest ih =>
    rw [trimEnd] at h
    split_ifs at h
    · cases h
    · rcases List.mem_cons.mp h with rfl | hrest
      · exact List.mem_cons_self
      · exact List.mem_cons_of_mem _ (ih hrest)

/-- Without their last zeros, fractions of one length still compare, where what follows
them begins with a character before the digits. -/
theorem trimEnd_append_lt {fraction fraction' rest : List Char} (hc : c < '0')
    (hlength : fraction.length = fraction'.length) (hdigits : ∀ d ∈ fraction, '0' ≤ d)
    (hdigits' : ∀ d ∈ fraction', '0' ≤ d) (h : fraction < fraction') :
    trimEnd (· = '0') fraction ++ c :: rest < trimEnd (· = '0') fraction' ++ c :: rest := by
  induction fraction generalizing fraction' with
  | nil =>
    obtain rfl := List.length_eq_zero_iff.mp hlength.symm
    exact absurd h (List.lt_irrefl [])
  | cons d fraction ih =>
    cases fraction' with
    | nil => cases hlength
    | cons d' fraction' =>
      have hd : '0' ≤ d := hdigits d List.mem_cons_self
      have hd' : '0' ≤ d' := hdigits' d' List.mem_cons_self
      rcases List.cons_lt_cons_iff.mp h with hlt | ⟨rfl, hrest⟩
      · -- the second digit is not a zero, so it stays
        have hne : d' ≠ '0' := (lt_of_le_of_lt hd hlt).ne'
        have hkeep : trimEnd (· = '0') (d' :: fraction') = d' :: trimEnd (· = '0') fraction' :=
          trimEnd_cons_of_ne (.inl (decide_eq_false hne))
        rw [hkeep, trimEnd]
        split_ifs
        · exact List.cons_lt_cons_iff.mpr (.inl (lt_of_lt_of_le hc hd'))
        · exact List.cons_lt_cons_iff.mpr (.inl hlt)
      · have htail := ih (Nat.succ.inj hlength) (fun e he => hdigits e (List.mem_cons_of_mem _ he))
          (fun e he => hdigits' e (List.mem_cons_of_mem _ he)) hrest
        have hne : trimEnd (· = '0') fraction' ≠ [] := by
          intro hnil
          rw [hnil] at htail
          cases hfront : trimEnd (· = '0') fraction with
          | nil =>
            rw [hfront] at htail
            exact List.lt_irrefl _ htail
          | cons e others =>
            rw [hfront] at htail
            have he : '0' ≤ e := hdigits e
              (List.mem_cons_of_mem _ (mem_of_mem_trimEnd (hfront ▸ List.mem_cons_self)))
            rcases List.cons_lt_cons_iff.mp htail with hlt | ⟨heq, -⟩
            · exact lt_asymm hlt (lt_of_lt_of_le hc he)
            · exact absurd heq (lt_of_lt_of_le hc he).ne'
        have hkeep : trimEnd (· = '0') (d :: fraction') = d :: trimEnd (· = '0') fraction' :=
          trimEnd_cons_of_ne (.inr hne)
        rw [hkeep, trimEnd]
        split_ifs
        · exact List.cons_lt_cons_iff.mpr (.inl (lt_of_lt_of_le hc hd))
        · exact List.cons_lt_cons_iff.mpr (.inr ⟨rfl, htail⟩)

end Decimal
