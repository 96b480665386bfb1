/-
# Texts as bytes

A text in UTF-8. A byte below 128 is the character of that number and nothing else, which
is why a reader may look for one before it knows the text.
-/

import Mathlib.Data.List.Basic

namespace Utf8

def encode (text : List Char) : List UInt8 := text.flatMap String.utf8EncodeChar

/-- The text that the bytes are, where they are one. -/
def decode (bytes : List UInt8) : Option (List Char) :=
  bytes.toByteArray.utf8Decode?.map Array.toList

@[simp] theorem encode_nil : encode [] = [] := rfl

theorem encode_cons (c : Char) (text : List Char) :
    encode (c :: text) = String.utf8EncodeChar c ++ encode text :=
  List.flatMap_cons

theorem encode_append (first second : List Char) :
    encode (first ++ second) = encode first ++ encode second :=
  List.flatMap_append

@[simp] theorem decode_encode (text : List Char) : decode (encode text) = some text := by
  have hencode : (encode text).toByteArray = text.utf8Encode := rfl
  rw [decode, hencode, List.utf8Decode?_utf8Encode]
  rfl

variable {text : List Char}

theorem encode_of_decode {bytes : List UInt8} (h : decode bytes = some text) :
    encode text = bytes := by
  obtain ⟨chars, hchars, rfl⟩ := Option.map_eq_some_iff.mp h
  have hsome : bytes.toByteArray.utf8Decode?.isSome = true := by rw [hchars]; rfl
  have hencode := ByteArray.utf8Encode_get_utf8Decode? (b := bytes.toByteArray) (h := hsome)
  simp only [hchars, Option.get_some] at hencode
  have hdata : (encode chars.toList).toByteArray = bytes.toByteArray := hencode
  simpa using congrArg (fun data => data.data.toList) hdata

theorem utf8EncodeChar_ascii {c : Char} (h : c.toNat < 0x80) :
    String.utf8EncodeChar c = [UInt8.ofNat c.toNat] := by
  have hle : c.val.toNat ≤ 0x7f := Nat.le_of_lt_succ h
  rw [String.utf8EncodeChar, if_pos hle]
  rfl

/-- The bytes of a longer character are none of those of a shorter one. -/
theorem le_of_mem_utf8EncodeChar {c : Char} (hc : 0x80 ≤ c.toNat) {byte : UInt8}
    (h : byte ∈ String.utf8EncodeChar c) : 0x80 ≤ byte.toNat := by
  have hlong : ¬c.val.toNat ≤ 0x7f := Nat.not_le.mpr hc
  have hbyte : ∀ n, 0x80 ≤ n % 256 → 0x80 ≤ (UInt8.ofNat n).toNat := by
    intro n hn
    rw [UInt8.toNat_ofNat']
    exact hn
  rw [String.utf8EncodeChar, if_neg hlong] at h
  by_cases htwo : c.val.toNat ≤ 0x7ff
  · rw [if_pos htwo] at h
    simp only [List.mem_cons, List.not_mem_nil, or_false] at h
    rcases h with rfl | rfl
    all_goals exact hbyte _ (by omega)
  · rw [if_neg htwo] at h
    by_cases hthree : c.val.toNat ≤ 0xffff
    · rw [if_pos hthree] at h
      simp only [List.mem_cons, List.not_mem_nil, or_false] at h
      rcases h with rfl | rfl | rfl
      all_goals exact hbyte _ (by omega)
    · rw [if_neg hthree] at h
      simp only [List.mem_cons, List.not_mem_nil, or_false] at h
      rcases h with rfl | rfl | rfl | rfl
      all_goals exact hbyte _ (by omega)

/-- A byte below 128 is a character of the text. -/
theorem mem_encode_iff {c : Char} (hc : c.toNat < 0x80) (text : List Char) :
    UInt8.ofNat c.toNat ∈ encode text ↔ c ∈ text := by
  have hbyte : (UInt8.ofNat c.toNat).toNat = c.toNat := by
    rw [UInt8.toNat_ofNat']
    omega
  induction text with
  | nil => simp
  | cons d text ih =>
    rw [encode_cons, List.mem_append, List.mem_cons]
    refine or_congr ⟨fun h => ?_, ?_⟩ ih
    · by_cases hd : d.toNat < 0x80
      · rw [utf8EncodeChar_ascii hd, List.mem_singleton] at h
        have hnat := congrArg UInt8.toNat h
        rw [hbyte, UInt8.toNat_ofNat', Nat.mod_eq_of_lt (by omega)] at hnat
        exact Char.toNat_inj.mp hnat
      · have hle := le_of_mem_utf8EncodeChar (Nat.not_lt.mp hd) h
        rw [hbyte] at hle
        omega
    · rintro rfl
      rw [utf8EncodeChar_ascii hc]
      exact List.mem_singleton_self _

theorem encode_ne_nil (h : text ≠ []) : encode text ≠ [] := by
  obtain ⟨c, text, rfl⟩ := List.exists_cons_of_ne_nil h
  rw [encode_cons]
  refine List.append_ne_nil_of_left_ne_nil (fun hnil => ?_) _
  have hlength := congrArg List.length hnil
  rw [String.length_utf8EncodeChar] at hlength
  exact absurd hlength (Nat.ne_of_gt (Char.utf8Size_pos c))

theorem encode_intercalate {c : Char} (hc : c.toNat < 0x80) (parts : List (List Char)) :
    encode ([c].intercalate parts) = [UInt8.ofNat c.toNat].intercalate (parts.map encode) := by
  induction parts with
  | nil => rfl
  | cons part parts ih =>
    cases parts with
    | nil => simp
    | cons next parts =>
      rw [List.intercalate_cons_cons, encode_append, encode_append, ih, encode_cons,
        utf8EncodeChar_ascii hc]
      simp

theorem utf8ByteSize_ofList (text : List Char) :
    (String.ofList text).utf8ByteSize = (encode text).length := by
  rw [← String.size_toByteArray]
  simp [encode, List.utf8Encode]

theorem length_encode_ascii (h : ∀ c ∈ text, c.toNat < 0x80) :
    (encode text).length = text.length := by
  induction text with
  | nil => rfl
  | cons c text ih =>
    rw [List.forall_mem_cons] at h
    rw [encode_cons, List.length_append, utf8EncodeChar_ascii h.1, ih h.2, List.length_singleton,
      List.length_cons, Nat.add_comm]

/-- Where the bytes begin with those of short characters, so does the text. -/
theorem take_of_encode {first text : List Char} {rest : List UInt8}
    (hfirst : ∀ c ∈ first, c.toNat < 0x80) (h : encode text = encode first ++ rest) :
    text.take first.length = first := by
  induction first generalizing text with
  | nil => rfl
  | cons c first ih =>
    rw [List.forall_mem_cons] at hfirst
    rw [encode_cons, utf8EncodeChar_ascii hfirst.1, List.append_assoc, List.singleton_append] at h
    cases text with
    | nil => cases h
    | cons d text =>
      rw [encode_cons] at h
      have hmem : UInt8.ofNat c.toNat ∈ String.utf8EncodeChar d := by
        cases hd : String.utf8EncodeChar d with
        | nil =>
          have hlength := congrArg List.length hd
          rw [String.length_utf8EncodeChar] at hlength
          exact absurd hlength (Nat.ne_of_gt (Char.utf8Size_pos d))
        | cons byte bytes =>
          rw [hd, List.cons_append] at h
          rw [(List.cons.inj h).1]
          exact List.mem_cons_self
      have hsame : d = c := by
        have hone := (mem_encode_iff hfirst.1 [d]).mp (by simpa [encode] using hmem)
        exact (List.mem_singleton.mp hone).symm
      subst hsame
      rw [utf8EncodeChar_ascii hfirst.1, List.singleton_append] at h
      rw [List.length_cons, List.take_succ_cons, ih hfirst.2 (List.cons.inj h).2]

end Utf8
