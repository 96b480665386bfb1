/-
# UTF-16

Characters as units of 16 bits: one unit, or two where the number of the character does not fit
in one. A text is read back from its units, and a unit of half a character that stands alone is
read as the replacement character.
-/

import Mathlib.Algebra.Group.Nat.Defs
import Harmony.Library.Chars

namespace Utf16

/-- The units of a character. -/
def encodeChar (c : Char) : List ℕ :=
  if c.toNat < 0x10000 then [c.toNat]
  else [0xd800 + (c.toNat - 0x10000) / 0x400, 0xdc00 + (c.toNat - 0x10000) % 0x400]

def encode (text : List Char) : List ℕ := text.flatMap encodeChar

/-- The text of the units, with a replacement character for each unit that is no part of one. -/
def decodeLossy : List ℕ → List Char
  | [] => []
  | unit :: rest =>
    if unit < 0xd800 ∨ 0xdfff < unit then Char.ofNat unit :: decodeLossy rest
    else if 0xdc00 ≤ unit then Chars.replacement :: decodeLossy rest
    else
      match rest with
      | [] => [Chars.replacement]
      | low :: others =>
        if 0xdc00 ≤ low ∧ low ≤ 0xdfff then
          Char.ofNat (0x10000 + (unit - 0xd800) * 0x400 + (low - 0xdc00)) :: decodeLossy others
        else Chars.replacement :: decodeLossy (low :: others)

/-- A character is not half of one, and there are no characters past the last. -/
theorem toNat_range (c : Char) :
    c.toNat < 0xd800 ∨ 0xdfff < c.toNat ∧ c.toNat < 0x110000 :=
  c.valid

theorem decodeLossy_encodeChar (c : Char) (rest : List ℕ) :
    decodeLossy (encodeChar c ++ rest) = c :: decodeLossy rest := by
  have hrange := toNat_range c
  rw [encodeChar]
  split_ifs with hshort
  · rw [List.singleton_append, decodeLossy.eq_def]
    simp only
    rw [if_pos (by omega), Char.ofNat_toNat]
  · have hhigh : (c.toNat - 0x10000) / 0x400 < 0x400 := by omega
    have hlow : (c.toNat - 0x10000) % 0x400 < 0x400 := Nat.mod_lt _ (by decide)
    have hwhole : 0x10000 + (0xd800 + (c.toNat - 0x10000) / 0x400 - 0xd800) * 0x400 +
        (0xdc00 + (c.toNat - 0x10000) % 0x400 - 0xdc00) = c.toNat := by omega
    rw [List.cons_append, List.singleton_append, decodeLossy.eq_def]
    simp only
    rw [if_neg (by omega), if_neg (by omega), if_pos (by omega), hwhole, Char.ofNat_toNat]

/-- A text is read back from its units. -/
theorem decodeLossy_encode (text : List Char) : decodeLossy (encode text) = text := by
  induction text with
  | nil => rfl
  | cons c text ih =>
    rw [encode, List.flatMap_cons, decodeLossy_encodeChar, ← encode, ih]

theorem encode_append (first second : List Char) :
    encode (first ++ second) = encode first ++ encode second :=
  List.flatMap_append

/-- Every unit fits in 16 bits. -/
theorem unit_lt (text : List Char) : ∀ unit ∈ encode text, unit < 2 ^ 16 := by
  intro unit hunit
  obtain ⟨c, hc, hmem⟩ := List.mem_flatMap.mp hunit
  have hrange := toNat_range c
  rw [encodeChar] at hmem
  split_ifs at hmem with hshort
  · rw [List.mem_singleton] at hmem
    omega
  · simp only [List.mem_cons, List.not_mem_nil, or_false] at hmem
    omega

/-- No unit is zero but that of the character zero. -/
theorem unit_ne_zero {text : List Char} (h : '\x00' ∉ text) : ∀ unit ∈ encode text, unit ≠ 0 := by
  intro unit hunit
  obtain ⟨c, hc, hmem⟩ := List.mem_flatMap.mp hunit
  have hne : c.toNat ≠ 0 := by
    intro hzero
    have hnull : c = '\x00' := Char.toNat_inj.mp hzero
    exact h (hnull ▸ hc)
  rw [encodeChar] at hmem
  split_ifs at hmem with hshort
  · rw [List.mem_singleton] at hmem
    omega
  · simp only [List.mem_cons, List.not_mem_nil, or_false] at hmem
    omega

end Utf16
