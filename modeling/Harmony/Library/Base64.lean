/-
# Base64 for URLs

The URL-safe alphabet, without padding. A text is read only in the one form that
writing gives it: the bits left over at its end have to be zero.
-/

import Mathlib.Tactic.IntervalCases

namespace Base64

/-! ### The alphabet -/

/-- The character of a number under 64. -/
def symbol (n : ℕ) : Char :=
  if n < 26 then Char.ofNat (n + 65)
  else if n < 52 then Char.ofNat (n + 71)
  else if n < 62 then Char.ofNat (n - 4)
  else if n = 62 then '-'
  else '_'

def value (c : Char) : Option ℕ :=
  if 65 ≤ c.toNat ∧ c.toNat ≤ 90 then some (c.toNat - 65)
  else if 97 ≤ c.toNat ∧ c.toNat ≤ 122 then some (c.toNat - 71)
  else if 48 ≤ c.toNat ∧ c.toNat ≤ 57 then some (c.toNat + 4)
  else if c = '-' then some 62
  else if c = '_' then some 63
  else none

variable {n : ℕ}

theorem value_symbol (h : n < 64) : value (symbol n) = some n := by
  interval_cases n <;> rfl

theorem symbol_value {c : Char} (h : value c = some n) : symbol n = c ∧ n < 64 := by
  have hc := Char.ofNat_toNat c
  unfold value at h
  split_ifs at h with hupper hlower hdigit hdash hunderscore
  · have hn : c.toNat - 65 = n := Option.some.inj h
    rw [symbol, if_pos (by omega), show n + 65 = c.toNat by omega]
    exact ⟨hc, by omega⟩
  · have hn : c.toNat - 71 = n := Option.some.inj h
    rw [symbol, if_neg (by omega), if_pos (by omega), show n + 71 = c.toNat by omega]
    exact ⟨hc, by omega⟩
  · have hn : c.toNat + 4 = n := Option.some.inj h
    rw [symbol, if_neg (by omega), if_neg (by omega), if_pos (by omega),
      show n - 4 = c.toNat by omega]
    exact ⟨hc, by omega⟩
  · cases h
    exact ⟨hdash.symm, by omega⟩
  · cases h
    exact ⟨hunderscore.symm, by omega⟩

/-- Letters, digits, `-` and `_`. -/
def isSymbol (c : Char) : Bool := (value c).isSome

theorem isSymbol_symbol (h : n < 64) : isSymbol (symbol n) = true := by
  rw [isSymbol, value_symbol h]
  rfl

/-! ### Writing and reading -/

def encode : List UInt8 → List Char
  | [] => []
  | [a] => [symbol (a.toNat / 4), symbol (a.toNat % 4 * 16)]
  | [a, b] =>
    [symbol (a.toNat / 4), symbol (a.toNat % 4 * 16 + b.toNat / 16), symbol (b.toNat % 16 * 4)]
  | a :: b :: c :: rest =>
    symbol (a.toNat / 4) :: symbol (a.toNat % 4 * 16 + b.toNat / 16) ::
      symbol (b.toNat % 16 * 4 + c.toNat / 64) :: symbol (c.toNat % 64) :: encode rest

def decode : List Char → Option (List UInt8)
  | [] => some []
  | [_] => none
  | [w, x] =>
    match value w, value x with
    | some i, some j => if j % 16 = 0 then some [UInt8.ofNat (i * 4 + j / 16)] else none
    | _, _ => none
  | [w, x, y] =>
    match value w, value x, value y with
    | some i, some j, some k =>
      if k % 4 = 0 then some [UInt8.ofNat (i * 4 + j / 16), UInt8.ofNat (j % 16 * 16 + k / 4)]
      else none
    | _, _, _ => none
  | w :: x :: y :: z :: rest =>
    match value w, value x, value y, value z, decode rest with
    | some i, some j, some k, some l, some bytes =>
      some (UInt8.ofNat (i * 4 + j / 16) :: UInt8.ofNat (j % 16 * 16 + k / 4) ::
        UInt8.ofNat (k % 4 * 64 + l) :: bytes)
    | _, _, _, _, _ => none

theorem isSymbol_of_mem_encode {bytes : List UInt8} :
    ∀ c ∈ encode bytes, isSymbol c = true := by
  induction bytes using encode.induct with
  | case1 => simp [encode]
  | case2 a =>
    have ha := a.toNat_lt
    simp only [encode, List.mem_cons, List.not_mem_nil, or_false]
    rintro c (rfl | rfl) <;> exact isSymbol_symbol (by omega)
  | case3 a b =>
    have ha := a.toNat_lt
    have hb := b.toNat_lt
    simp only [encode, List.mem_cons, List.not_mem_nil, or_false]
    rintro c (rfl | rfl | rfl) <;> exact isSymbol_symbol (by omega)
  | case4 a b d rest ih =>
    have ha := a.toNat_lt
    have hb := b.toNat_lt
    have hd := d.toNat_lt
    simp only [encode, List.mem_cons]
    rintro c (rfl | rfl | rfl | rfl | hc)
    · exact isSymbol_symbol (by omega)
    · exact isSymbol_symbol (by omega)
    · exact isSymbol_symbol (by omega)
    · exact isSymbol_symbol (by omega)
    · exact ih c hc

/-- A byte is read from two numbers that make it up. -/
theorem ofNat_eq {a : UInt8} (h : n = a.toNat) : UInt8.ofNat n = a := by
  rw [h]
  exact UInt8.ofNat_toNat

theorem decode_encode (bytes : List UInt8) : decode (encode bytes) = some bytes := by
  induction bytes using encode.induct with
  | case1 => rfl
  | case2 a =>
    have ha := a.toNat_lt
    rw [encode, decode, value_symbol (by omega), value_symbol (by omega)]
    have hlow : a.toNat % 4 * 16 % 16 = 0 := by omega
    simp only [hlow, if_true]
    rw [ofNat_eq (by omega : a.toNat / 4 * 4 + a.toNat % 4 * 16 / 16 = a.toNat)]
  | case3 a b =>
    have ha := a.toNat_lt
    have hb := b.toNat_lt
    rw [encode, decode, value_symbol (by omega), value_symbol (by omega), value_symbol (by omega)]
    have hlow : b.toNat % 16 * 4 % 4 = 0 := by omega
    simp only [hlow, if_true]
    rw [ofNat_eq (by omega : a.toNat / 4 * 4 + (a.toNat % 4 * 16 + b.toNat / 16) / 16 = a.toNat),
      ofNat_eq (by omega :
        (a.toNat % 4 * 16 + b.toNat / 16) % 16 * 16 + b.toNat % 16 * 4 / 4 = b.toNat)]
  | case4 a b c rest ih =>
    have ha := a.toNat_lt
    have hb := b.toNat_lt
    have hc := c.toNat_lt
    rw [encode, decode, value_symbol (by omega), value_symbol (by omega), value_symbol (by omega),
      value_symbol (by omega), ih]
    dsimp only
    rw [ofNat_eq (by omega : a.toNat / 4 * 4 + (a.toNat % 4 * 16 + b.toNat / 16) / 16 = a.toNat),
      ofNat_eq (by omega : (a.toNat % 4 * 16 + b.toNat / 16) % 16 * 16 +
        (b.toNat % 16 * 4 + c.toNat / 64) / 4 = b.toNat),
      ofNat_eq (by omega :
        (b.toNat % 16 * 4 + c.toNat / 64) % 4 * 64 + c.toNat % 64 = c.toNat)]

/-- The reading of a byte, as a number. -/
theorem toNat_ofNat (h : n < 256) : (UInt8.ofNat n).toNat = n :=
  UInt8.toNat_ofNat_of_lt' h

/-- A text that can be read is the one that is written for what it says. -/
theorem encode_of_decode {text : List Char} {bytes : List UInt8}
    (h : decode text = some bytes) : encode bytes = text := by
  induction text using decode.induct generalizing bytes with
  | case1 =>
    cases h
    rfl
  | case3 w x i j hj hi hlow =>
    obtain ⟨rfl, hi'⟩ := symbol_value hi
    obtain ⟨rfl, hj'⟩ := symbol_value hj
    simp only [decode, hi, hj, hlow, if_true] at h
    cases h
    rw [encode, toNat_ofNat (by omega), show (i * 4 + j / 16) / 4 = i by omega,
      show (i * 4 + j / 16) % 4 * 16 = j by omega]
  | case6 w x y i j k hk hj hi hlow =>
    obtain ⟨rfl, hi'⟩ := symbol_value hi
    obtain ⟨rfl, hj'⟩ := symbol_value hj
    obtain ⟨rfl, hk'⟩ := symbol_value hk
    simp only [decode, hi, hj, hk, hlow, if_true] at h
    cases h
    rw [encode, toNat_ofNat (by omega), toNat_ofNat (by omega),
      show (i * 4 + j / 16) / 4 = i by omega,
      show (i * 4 + j / 16) % 4 * 16 + (j % 16 * 16 + k / 4) / 16 = j by omega,
      show (j % 16 * 16 + k / 4) % 16 * 4 = k by omega]
  | case9 w x y z rest i j k l rest' hrest hl hk hj hi ih =>
    obtain ⟨rfl, hi'⟩ := symbol_value hi
    obtain ⟨rfl, hj'⟩ := symbol_value hj
    obtain ⟨rfl, hk'⟩ := symbol_value hk
    obtain ⟨rfl, hl'⟩ := symbol_value hl
    simp only [decode, hi, hj, hk, hl, hrest] at h
    cases h
    rw [encode, ih hrest, toNat_ofNat (by omega), toNat_ofNat (by omega), toNat_ofNat (by omega),
      show (i * 4 + j / 16) / 4 = i by omega,
      show (i * 4 + j / 16) % 4 * 16 + (j % 16 * 16 + k / 4) / 16 = j by omega,
      show (j % 16 * 16 + k / 4) % 16 * 4 + (k % 4 * 64 + l) / 64 = k by omega,
      show (k % 4 * 64 + l) % 64 = l by omega]
  | _ => grind [decode]

end Base64
