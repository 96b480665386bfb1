/-
# Identity values

What an inspection keeps of a credit, a title or a numeral: a text that is not empty, of at
most 200 bytes, without unsafe characters, and with single spaces as its only white space.
Such a text in its normal form is kept as it is, so that what was kept once is kept again.
-/

import Harmony.Inspect.Metadata
import Harmony.Library.Words

namespace Harmony.Inspect

open ManagedImport (Platform normalizeValue isUnsafeIdentityChar isWhiteSpace
  collapseWhitespace maxIdentityValueBytes)

/-- What the normal form of Unicode promises. -/
structure IsNormalForm (P : Platform) : Prop where
  idem : ∀ value, P.nfc (P.nfc value) = P.nfc value
  ascii : ∀ value : List Char, (∀ c ∈ value, c.toNat < 0x80) →
    P.nfc (String.ofList value) = String.ofList value
  /-- A part of a normal text is normal. -/
  part : ∀ value part : List Char, part <:+: value →
    P.nfc (String.ofList value) = String.ofList value →
    P.nfc (String.ofList part) = String.ofList part
  /-- Nothing is joined across a space. -/
  space : ∀ first second : List Char, P.nfc (String.ofList first) = String.ofList first →
    P.nfc (String.ofList second) = String.ofList second →
    P.nfc (String.ofList (first ++ ' ' :: second)) = String.ofList (first ++ ' ' :: second)

structure IsIdentityValue (value : String) : Prop where
  nonempty : value ≠ ""
  size : value.utf8ByteSize ≤ maxIdentityValueBytes
  safe : ∀ c ∈ value.toList, isUnsafeIdentityChar c = false
  tidy : Chars.IsTidy value.toList

/-! ### White space -/

theorem isWhiteSpace_eq : isWhiteSpace = Chars.isWhitespace := by
  funext c
  rw [Bool.eq_iff_iff]
  simp only [isWhiteSpace, Chars.isWhitespace, decide_eq_true_eq, Bool.or_eq_true,
    Bool.and_eq_true, beq_iff_eq, UInt32.le_iff_toNat_le, ← UInt32.toNat_inj]
  simp only [Char.toNat, UInt32.reduceToNat, or_assoc]

theorem collapseWhitespace_eq (value : String) :
    collapseWhitespace value = String.ofList (Chars.joinWords value.toList) := by
  have hwords : (value.toList.splitOnP isWhiteSpace).filter (· ≠ []) =
      Chars.splitWhitespace value.toList := by
    rw [isWhiteSpace_eq, Chars.splitWhitespace]
    congr 1
    funext word
    cases word with
    | nil => rfl
    | cons c word => rfl
  rw [collapseWhitespace, hwords, Chars.joinWords]
  apply String.toList_injective
  rw [String.toList_intercalate, List.map_map]
  simp

theorem space_safe : isUnsafeIdentityChar ' ' = false := by decide

/-! ### What is kept -/

section Kept

variable {P : Platform} {value kept : String}

/-- The value without white space at its ends, in its normal form. -/
def normalText (P : Platform) (value : String) : String :=
  P.nfc (String.ofList (Chars.trim value.toList))

theorem normalizeValue_eq_some :
    normalizeValue P value = some kept ↔
      (∀ c ∈ value.toList, isUnsafeIdentityChar c = false) ∧
      (normalText P value).utf8ByteSize ≤ maxIdentityValueBytes ∧
      (∀ c ∈ (normalText P value).toList, isUnsafeIdentityChar c = false) ∧
      kept ≠ "" ∧ kept = String.ofList (Chars.joinWords (normalText P value).toList) := by
  have hnormal : P.nfc (String.ofList (Chars.trimMatches isWhiteSpace value.toList)) =
      normalText P value := by
    rw [isWhiteSpace_eq]
    rfl
  have hsafe : ∀ text : String, text.toList.any isUnsafeIdentityChar = true ↔
      ¬∀ c ∈ text.toList, isUnsafeIdentityChar c = false := by
    intro text
    simp
  simp only [normalizeValue, hnormal, collapseWhitespace_eq, hsafe]
  by_cases hraw : ∀ c ∈ value.toList, isUnsafeIdentityChar c = false
  · rw [if_neg (not_not.mpr hraw)]
    by_cases hlong : maxIdentityValueBytes < (normalText P value).utf8ByteSize ∨
        ¬∀ c ∈ (normalText P value).toList, isUnsafeIdentityChar c = false
    · rw [if_pos hlong]
      constructor
      · intro h
        cases h
      · rintro ⟨-, hsize, hchars, -⟩
        rcases hlong with hlong | hunsafe
        · omega
        · exact absurd hchars hunsafe
    · rw [if_neg hlong]
      rw [not_or, not_lt, not_not] at hlong
      split_ifs with hempty
      · constructor
        · intro h
          cases h
        · rintro ⟨-, -, -, hne, rfl⟩
          exact absurd hempty hne
      · constructor
        · intro h
          cases h
          exact ⟨hraw, hlong.1, hlong.2, hempty, rfl⟩
        · rintro ⟨-, -, -, -, rfl⟩
          rfl
  · rw [if_pos hraw]
    constructor
    · intro h
      cases h
    · exact fun h => absurd h.1 hraw

/-- What an inspection keeps is well formed. -/
theorem isIdentityValue_of_normalizeValue (h : normalizeValue P value = some kept) :
    IsIdentityValue kept := by
  obtain ⟨-, hsize, hsafe, hne, rfl⟩ := normalizeValue_eq_some.mp h
  refine ⟨hne, ?_, ?_, ?_⟩
  · -- the words in the normal form, with less between them
    calc (String.ofList (Chars.joinWords (normalText P value).toList)).utf8ByteSize
        = (Utf8.encode (Chars.joinWords (normalText P value).toList)).length :=
          Utf8.utf8ByteSize_ofList _
      _ ≤ (Utf8.encode (normalText P value).toList).length := Chars.length_encode_joinWords_le _
      _ = (normalText P value).utf8ByteSize := by
          rw [← Utf8.utf8ByteSize_ofList, String.ofList_toList]
      _ ≤ maxIdentityValueBytes := hsize
  · intro c hc
    rw [String.toList_ofList] at hc
    by_cases hspace : c = ' '
    · rw [hspace]
      exact space_safe
    · exact hsafe c (Chars.mem_of_mem_joinWords hc hspace)
  · rw [String.toList_ofList]
    exact Chars.isTidy_joinWords _

/-- A well-formed text in its normal form is kept as it is. -/
theorem IsIdentityValue.normalizeValue (h : IsIdentityValue value) (hnormal : P.nfc value = value) :
    normalizeValue P value = some value := by
  have htext : normalText P value = value := by
    rw [normalText, h.tidy.trim_eq, String.ofList_toList, hnormal]
  apply normalizeValue_eq_some.mpr
  rw [htext]
  refine ⟨h.safe, h.size, h.safe, h.nonempty, ?_⟩
  rw [h.tidy.joinWords_eq, String.ofList_toList]

end Kept

/-! ### Normal forms -/

section Normal

variable {P : Platform} {text : List Char}

theorem IsNormalForm.intercalate (hP : IsNormalForm P) {words : List (List Char)}
    (h : ∀ word ∈ words, P.nfc (String.ofList word) = String.ofList word) :
    P.nfc (String.ofList ([' '].intercalate words)) = String.ofList ([' '].intercalate words) := by
  induction words with
  | nil => exact hP.ascii [] nofun
  | cons word words ih =>
    rw [List.forall_mem_cons] at h
    cases words with
    | nil =>
      rw [List.intercalate_singleton]
      exact h.1
    | cons next words =>
      rw [List.intercalate_cons_cons, List.append_assoc, List.singleton_append]
      exact hP.space word _ h.1 (ih h.2)

/-- What is kept is in its normal form. -/
theorem IsNormalForm.nfc_kept (hP : IsNormalForm P) {value kept : String}
    (h : normalizeValue P value = some kept) :
    P.nfc kept = kept := by
  obtain ⟨-, -, -, -, rfl⟩ := normalizeValue_eq_some.mp h
  apply hP.intercalate
  intro word hword
  apply hP.part (normalText P value).toList word (Chars.infix_of_mem_splitWhitespace hword)
  rw [String.ofList_toList]
  exact hP.idem _

/-- What was kept once is kept again. -/
theorem IsNormalForm.normalizeValue_kept (hP : IsNormalForm P) {value kept : String}
    (h : normalizeValue P value = some kept) : normalizeValue P kept = some kept :=
  (isIdentityValue_of_normalizeValue h).normalizeValue (hP.nfc_kept h)

/-- A text of visible ASCII characters. -/
def IsVisible (text : List Char) : Prop := ∀ c ∈ text, 0x20 < c.toNat ∧ c.toNat < 0x7f

theorem IsVisible.isWord (h : IsVisible text) (hne : text ≠ []) :
    Chars.IsWord text := by
  apply And.intro hne
  intro c hc
  have hrange := h c hc
  simp only [Chars.isWhitespace]
  grind

theorem IsVisible.isIdentityValue (h : IsVisible text) (hne : text ≠ [])
    (hsize : text.length ≤ maxIdentityValueBytes) : IsIdentityValue (String.ofList text) where
  nonempty := by
    intro hempty
    exact hne (by simpa using congrArg String.toList hempty)
  size := by
    have hascii : ∀ c ∈ text, c.toNat < 0x80 := by
      intro c hc
      have hrange := h c hc
      omega
    rw [Utf8.utf8ByteSize_ofList, Utf8.length_encode_ascii hascii]
    exact hsize
  safe c hc := by
    rw [String.toList_ofList] at hc
    have hrange := h c hc
    have hall : ∀ n < 0x7f, 0x20 < n → isUnsafeIdentityChar (Char.ofNat n) = false := by decide
    rw [← Char.ofNat_toNat c]
    exact hall c.toNat hrange.2 hrange.1
  tidy := by
    rw [String.toList_ofList]
    exact (h.isWord hne).isTidy

/-- A numeral is kept as it is. -/
theorem IsNormalForm.normalizeValue_visible (hP : IsNormalForm P) (h : IsVisible text)
    (hne : text ≠ []) (hsize : text.length ≤ maxIdentityValueBytes) :
    normalizeValue P (String.ofList text) = some (String.ofList text) := by
  apply (h.isIdentityValue hne hsize).normalizeValue
  apply hP.ascii
  intro c hc
  have hrange := h c hc
  omega

end Normal

end Harmony.Inspect
