/-
# Range headers

What RFC 9110 lets a client ask for: a list of ranges of bytes, each between two
positions, from a position on, or the last bytes of the representation. The list may have
blanks around its elements and empty elements between them. A range names the positions
that it asks for and the representation has.
-/

import Mathlib.Data.List.TakeWhile
import Harmony.Library.Chars
import Harmony.Library.Numerals

namespace Chars

/-- What is trimmed around a text that it leaves alone. -/
theorem trimMatches_around {p : Char → Bool} {before text after : List Char}
    (hbefore : ∀ c ∈ before, p c = true) (hafter : ∀ c ∈ after, p c = true)
    (hfirst : ∀ c, text.head? = some c → p c = false)
    (hlast : ∀ c, text.getLast? = some c → p c = false) :
    trimMatches p (before ++ text ++ after) = text := by
  have hkeep : ∀ {front text : List Char}, (∀ c ∈ front, p c = true) →
      (∀ c, text.head? = some c → p c = false) → (front ++ text).dropWhile p = text := by
    intro front text hfront hhead
    rw [List.dropWhile_append_of_pos hfront]
    cases text with
    | nil => rfl
    | cons c rest => rw [List.dropWhile_cons_of_neg (by rw [hhead c rfl]; exact Bool.false_ne_true)]
  by_cases htext : text = []
  · subst htext
    have hall : ∀ c ∈ before ++ [] ++ after, p c = true := by
      intro c hc
      rw [List.append_nil] at hc
      exact (List.mem_append.mp hc).elim (hbefore c) (hafter c)
    rw [trimMatches, List.dropWhile_eq_nil_iff.mpr hall]
    rfl
  · have hhead : ∀ c, (text ++ after).head? = some c → p c = false := by
      intro c hc
      rw [List.head?_append_of_ne_nil _ htext] at hc
      exact hfirst c hc
    have hreverse : ∀ c, text.reverse.head? = some c → p c = false := by
      intro c hc
      rw [List.head?_reverse] at hc
      exact hlast c hc
    have hend : ∀ c ∈ after.reverse, p c = true := fun c hc => hafter c (List.mem_reverse.mp hc)
    rw [trimMatches, List.append_assoc, hkeep hbefore hhead, List.reverse_append,
      hkeep hend hreverse, List.reverse_reverse]

end Chars

namespace RangeHeader

/-- One range of a request. -/
inductive Spec
  | between (first last : ℕ)
  | onward (first : ℕ)
  | suffix (length : ℕ)

variable {text : List Char}

namespace Spec

variable {size position : ℕ} {spec : Spec}

/-- The positions that are asked for and that a representation of this size has. -/
def Names (size position : ℕ) : Spec → Prop
  | between first last => first ≤ position ∧ position ≤ last ∧ position < size
  | onward first => first ≤ position ∧ position < size
  | suffix length => size ≤ position + length ∧ position < size

/-- The last position does not precede the first one. -/
def Valid : Spec → Prop
  | between first last => first ≤ last
  | onward _ | suffix _ => True

/-- Every number that the range is written with is below the bound. -/
def Below (bound : ℕ) : Spec → Prop
  | between first last => first < bound ∧ last < bound
  | onward first => first < bound
  | suffix length => length < bound

instance (bound : ℕ) (spec : Spec) : Decidable (spec.Below bound) :=
  match spec with
  | between first last => inferInstanceAs (Decidable (first < bound ∧ last < bound))
  | onward first => inferInstanceAs (Decidable (first < bound))
  | suffix length => inferInstanceAs (Decidable (length < bound))

/-- Some byte of the representation is asked for. -/
def Satisfiable (size : ℕ) (spec : Spec) : Prop := ∃ position, spec.Names size position

theorem satisfiable_between {first last : ℕ} :
    (between first last).Satisfiable size ↔ first ≤ last ∧ first < size := by
  constructor
  · rintro ⟨position, hfirst, hlast, hsize⟩
    exact ⟨hfirst.trans hlast, Nat.lt_of_le_of_lt hfirst hsize⟩
  · rintro ⟨hlast, hsize⟩
    exact ⟨first, Nat.le_refl first, hlast, hsize⟩

theorem satisfiable_onward {first : ℕ} : (onward first).Satisfiable size ↔ first < size := by
  constructor
  · rintro ⟨position, hfirst, hsize⟩
    exact Nat.lt_of_le_of_lt hfirst hsize
  · intro hsize
    exact ⟨first, Nat.le_refl first, hsize⟩

theorem satisfiable_suffix {length : ℕ} :
    (suffix length).Satisfiable size ↔ 0 < length ∧ 0 < size := by
  constructor
  · rintro ⟨position, hlength, hsize⟩
    omega
  · rintro ⟨hlength, hsize⟩
    exact ⟨size - 1, by omega, by omega⟩

instance (size : ℕ) (spec : Spec) : Decidable (spec.Satisfiable size) :=
  match spec with
  | between _ _ => decidable_of_iff _ satisfiable_between.symm
  | onward _ => decidable_of_iff _ satisfiable_onward.symm
  | suffix _ => decidable_of_iff _ satisfiable_suffix.symm

/-! ### Texts -/

/-- How a range is written. -/
inductive Written : Spec → List Char → Prop
  | between {first last : ℕ} {start stop : List Char}
      (hstart : Numerals.digitsValue start = some first)
      (hstop : Numerals.digitsValue stop = some last) :
      Written (.between first last) (start ++ '-' :: stop)
  | onward {first : ℕ} {start : List Char} (hstart : Numerals.digitsValue start = some first) :
      Written (.onward first) (start ++ ['-'])
  | suffix {length : ℕ} {stop : List Char} (hstop : Numerals.digitsValue stop = some length) :
      Written (.suffix length) ('-' :: stop)

/-- A range is written with digits and one sign, so with no blank and no comma. -/
theorem Written.isDigit_or_eq (h : spec.Written text) :
    ∀ c ∈ text, c.isDigit = true ∨ c = '-' := by
  have hdigits : ∀ {digits : List Char} {n : ℕ}, Numerals.digitsValue digits = some n →
      ∀ c ∈ digits, c.isDigit = true := fun h => (Numerals.digitsValue_isDigit h).2
  intro c hc
  cases h with
  | between hstart hstop =>
    rcases List.mem_append.mp hc with hc | hc
    · exact .inl (hdigits hstart c hc)
    · rcases List.mem_cons.mp hc with rfl | hc
      · exact .inr rfl
      · exact .inl (hdigits hstop c hc)
  | onward hstart =>
    rcases List.mem_append.mp hc with hc | hc
    · exact .inl (hdigits hstart c hc)
    · exact .inr (List.mem_singleton.mp hc)
  | suffix hstop =>
    rcases List.mem_cons.mp hc with rfl | hc
    · exact .inr rfl
    · exact .inl (hdigits hstop c hc)

theorem Written.ne_nil (h : spec.Written text) : text ≠ [] := by
  cases h <;> simp

end Spec

/-! ### Lists -/

/-- Spaces and tabs. -/
def isBlank (c : Char) : Bool := c = ' ' || c = '\t'

theorem isBlank_of_isDigit {c : Char} (h : c.isDigit = true) : isBlank c = false := by
  rw [isBlank, Bool.or_eq_false_iff, decide_eq_false_iff_not, decide_eq_false_iff_not]
  constructor <;> (rintro rfl; revert h; decide)

/-- The elements of a list, in order, and the ranges in them. -/
inductive Elements : List (List Char) → List Spec → Prop
  | nil : Elements [] []
  | empty {blanks : List Char} {elements : List (List Char)} {specs : List Spec}
      (hblanks : ∀ c ∈ blanks, isBlank c = true) (hrest : Elements elements specs) :
      Elements (blanks :: elements) specs
  | spec {before text after : List Char} {spec : Spec} {elements : List (List Char)}
      {specs : List Spec} (hbefore : ∀ c ∈ before, isBlank c = true)
      (hafter : ∀ c ∈ after, isBlank c = true) (htext : spec.Written text)
      (hrest : Elements elements specs) :
      Elements ((before ++ text ++ after) :: elements) (spec :: specs)

/-- What the client sends: the unit, and at least one range in at most as many elements. -/
def Says (limit : ℕ) (header : List Char) (specs : List Spec) : Prop :=
  ∃ elements, header = "bytes=".toList ++ [','].intercalate elements ∧ Elements elements specs ∧
    elements.length ≤ limit ∧ specs ≠ [] ∧ ∀ spec ∈ specs, spec.Valid

theorem Spec.Written.not_isBlank {spec : Spec} (h : spec.Written text) {c : Char} (hc : c ∈ text) :
    isBlank c = false := by
  rcases h.isDigit_or_eq c hc with hdigit | rfl
  · exact isBlank_of_isDigit hdigit
  · decide

/-- Without the blanks around it, an element is the range it holds. -/
theorem Spec.Written.trim {spec : Spec} {before text after : List Char} (h : spec.Written text)
    (hbefore : ∀ c ∈ before, isBlank c = true) (hafter : ∀ c ∈ after, isBlank c = true) :
    Chars.trimMatches isBlank (before ++ text ++ after) = text :=
  Chars.trimMatches_around hbefore hafter (fun _ hc => h.not_isBlank (List.mem_of_mem_head? hc))
    fun _ hc => h.not_isBlank (List.mem_of_mem_getLast? hc)

theorem trim_blanks {blanks : List Char} (h : ∀ c ∈ blanks, isBlank c = true) :
    Chars.trimMatches isBlank blanks = [] := by
  rw [Chars.trimMatches, List.dropWhile_eq_nil_iff.mpr h]
  rfl

theorem trim_digits {digits : List Char} {n : ℕ} (h : Numerals.digitsValue digits = some n) :
    Chars.trimMatches isBlank digits = digits := by
  have hread : ∀ c ∈ digits, isBlank c = false :=
    fun c hc => isBlank_of_isDigit ((Numerals.digitsValue_isDigit h).2 c hc)
  have haround := @Chars.trimMatches_around isBlank [] digits [] (fun _ hc => by cases hc)
    (fun _ hc => by cases hc) (fun c hc => hread c (List.mem_of_mem_head? hc))
    fun c hc => hread c (List.mem_of_mem_getLast? hc)
  rwa [List.nil_append, List.append_nil] at haround

/-- No element has a comma in it. -/
theorem Elements.comma_notMem {elements : List (List Char)} {specs : List Spec}
    (h : Elements elements specs) : ∀ element ∈ elements, ',' ∉ element := by
  have hblank : ∀ {blanks : List Char}, (∀ c ∈ blanks, isBlank c = true) → ',' ∉ blanks := by
    intro blanks hblanks hc
    exact absurd (hblanks _ hc) (by decide)
  induction h with
  | nil => exact fun element helement => absurd helement List.not_mem_nil
  | empty hblanks hrest ih =>
    rw [List.forall_mem_cons]
    exact ⟨hblank hblanks, ih⟩
  | spec hbefore hafter htext hrest ih =>
    rw [List.forall_mem_cons]
    refine ⟨fun hc => ?_, ih⟩
    rw [List.mem_append, List.mem_append] at hc
    rcases hc with (hc | hc) | hc
    · exact hblank hbefore hc
    · exact (htext.isDigit_or_eq _ hc).elim (by decide) (by decide)
    · exact hblank hafter hc

theorem Elements.ne_nil {elements : List (List Char)} {specs : List Spec}
    (h : Elements elements specs) (hspecs : specs ≠ []) : elements ≠ [] := by
  rintro rfl
  cases h
  exact hspecs rfl

theorem count_intercalate {c : Char} {parts : List (List Char)} (hparts : ∀ part ∈ parts, c ∉ part)
    (hne : parts ≠ []) : ([c].intercalate parts).count c + 1 = parts.length := by
  induction parts with
  | nil => exact absurd rfl hne
  | cons part parts ih =>
    rw [List.forall_mem_cons] at hparts
    cases parts with
    | nil => simp [List.count_eq_zero_of_not_mem hparts.1]
    | cons next parts =>
      rw [List.intercalate_cons_cons, List.count_append, List.count_append,
        List.count_eq_zero_of_not_mem hparts.1, List.count_singleton_self, List.length_cons,
        ← ih hparts.2 (List.cons_ne_nil _ _)]
      omega

/-- A number that the type holds is read from its digits. -/
theorem parseI64_digits {digits : List Char} {n : ℕ} (h : Numerals.digitsValue digits = some n)
    (hn : n < 2 ^ 63) : Numerals.parseI64 digits = some (n : ℤ) := by
  obtain ⟨hne, hdigits⟩ := Numerals.digitsValue_isDigit h
  have hsign : ∀ sign : Char, sign.isDigit = false → digits.head? ≠ some sign := by
    intro sign hsign hhead
    rw [hdigits sign (List.mem_of_mem_head? hhead)] at hsign
    cases hsign
  rw [Numerals.parseI64, if_neg (hsign '-' (by decide)), if_neg (hsign '+' (by decide)), h,
    Option.bind_some, if_pos hn]

end RangeHeader
