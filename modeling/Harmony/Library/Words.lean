/-
# Words with single spaces between them

Joined with single spaces, words are found again, and the text has no other white space: none
at its ends, and no two of it in a row. It is not longer than a text with the same words.
-/

import Mathlib.Data.List.Chain
import Mathlib.Data.List.DropRight
import Harmony.Library.Chars
import Harmony.Library.Utf8

namespace Chars

/-- A text with spaces as its only white space, none of it at the ends and no two in a row. -/
structure IsTidy (text : List Char) : Prop where
  first : ∀ c, text.head? = some c → isWhitespace c = false
  last : ∀ c, text.getLast? = some c → isWhitespace c = false
  single : text.IsChain fun a b => isWhitespace a = false ∨ isWhitespace b = false
  spaces : ∀ c ∈ text, isWhitespace c = true → c = ' '

/-- A word: not empty, and without white space. -/
def IsWord (word : List Char) : Prop := word ≠ [] ∧ ∀ c ∈ word, isWhitespace c = false

theorem IsTidy.trim_eq {text : List Char} (h : IsTidy text) : trim text = text :=
  trim_eq_self h.first h.last

/-! ### Trimmed texts -/

variable (text : List Char) {word : List Char}

theorem trim_eq :
    trim text = (text.dropWhile isWhitespace).rdropWhile isWhitespace :=
  rfl

/-- A trimmed text begins with the first character that is not white space. -/
theorem head?_trim :
    (trim text).head? = text.find? fun c => !isWhitespace c := by
  have hfind : text.find? (fun c => !isWhitespace c) = (text.dropWhile isWhitespace).head? := by
    rw [List.find?_eq_head?_dropWhile_not]
    simp
  rw [hfind, trim_eq]
  cases hdrop : text.dropWhile isWhitespace with
  | nil => rfl
  | cons c rest =>
    have hc : ¬isWhitespace c = true := by
      have hnot := List.head?_dropWhile_not isWhitespace text
      rw [hdrop] at hnot
      simpa using hnot
    have hne : (c :: rest).rdropWhile isWhitespace ≠ [] := by
      intro hnil
      exact hc (List.rdropWhile_eq_nil_iff.mp hnil c List.mem_cons_self)
    obtain ⟨d, kept, hkept⟩ := List.exists_cons_of_ne_nil hne
    have hprefix := List.rdropWhile_prefix isWhitespace (l := c :: rest)
    rw [hkept] at hprefix ⊢
    rw [(List.cons_prefix_cons.mp hprefix).1]
    rfl

theorem first_trim {text : List Char} :
    ∀ c, (trim text).head? = some c → isWhitespace c = false := by
  intro c hc
  rw [head?_trim] at hc
  simpa using List.find?_some hc

theorem last_trim {text : List Char} :
    ∀ c, (trim text).getLast? = some c → isWhitespace c = false := by
  intro c hc
  rw [trim_eq] at hc
  have hne : (text.dropWhile isWhitespace).rdropWhile isWhitespace ≠ [] := by
    intro hnil
    rw [hnil] at hc
    cases hc
  rw [List.getLast?_eq_some_getLast hne] at hc
  cases hc
  exact Bool.eq_false_iff.mpr (List.rdropWhile_last_not _ _ hne)

@[simp] theorem trim_trim : trim (trim text) = trim text :=
  trim_eq_self first_trim last_trim

theorem trim_part : trim text <:+: text :=
  (List.rdropWhile_prefix _ _).isInfix.trans (List.dropWhile_suffix _).isInfix

theorem length_trim_le : (trim text).length ≤ text.length :=
  (trim_part text).length_le

/-! ### Words found again -/

theorem isWord_of_mem_splitWhitespace {value word : List Char} (h : word ∈ splitWhitespace value) :
    IsWord word := by
  have hmem := List.mem_filter.mp h
  exact ⟨by simpa using hmem.2, fun c => not_sep_of_mem value word hmem.1⟩

theorem splitWhitespace_word (h : IsWord word) :
    splitWhitespace word = [word] := by
  rw [splitWhitespace, List.splitOnP_eq_singleton h.2]
  simp [h.1]

theorem splitWhitespace_append (h : IsWord word) (rest : List Char) :
    splitWhitespace (word ++ ' ' :: rest) = word :: splitWhitespace rest := by
  rw [splitWhitespace, List.splitOnP_append_cons_of_forall_mem h.2 ' ' (by decide)]
  simp [h.1, splitWhitespace]

theorem splitWhitespace_intercalate {words : List (List Char)} (h : ∀ word ∈ words, IsWord word) :
    splitWhitespace ([' '].intercalate words) = words := by
  induction words with
  | nil => rfl
  | cons word words ih =>
    rw [List.forall_mem_cons] at h
    cases words with
    | nil =>
      rw [List.intercalate_singleton]
      exact splitWhitespace_word h.1
    | cons next words =>
      rw [List.intercalate_cons_cons, List.append_assoc, List.singleton_append,
        splitWhitespace_append h.1, ih h.2]

/-! ### Tidy texts -/

theorem IsWord.isTidy (h : IsWord word) : IsTidy word where
  first c hc := h.2 c (List.mem_of_head? hc)
  last c hc := h.2 c (List.mem_of_getLast? hc)
  single := by
    apply List.isChain_iff_forall_rel_of_append_cons_cons.mpr
    rintro a b front rest rfl
    exact .inl (h.2 a (List.mem_append_right front List.mem_cons_self))
  spaces c hc hspace := by
    rw [h.2 c hc] at hspace
    cases hspace

/-- A word, one space and a tidy text that is not empty are a tidy text. -/
theorem IsTidy.word_append {word rest : List Char} (hword : IsWord word) (h : IsTidy rest)
    (hne : rest ≠ []) : IsTidy (word ++ ' ' :: rest) where
  first c hc := by
    rw [List.head?_append_of_ne_nil _ hword.1] at hc
    exact hword.isTidy.first c hc
  last c hc := by
    rw [List.getLast?_append_of_ne_nil _ (List.cons_ne_nil _ _),
      List.getLast?_cons_of_ne_nil hne] at hc
    exact h.last c hc
  single := by
    apply List.isChain_append.mpr ⟨hword.isTidy.single, ?_, ?_⟩
    · apply List.isChain_cons.mpr ⟨?_, h.single⟩
      intro c hc
      exact .inr (h.first c hc)
    · intro c hc _ _
      exact .inl (hword.isTidy.last c hc)
  spaces c hc hspace := by
    rcases List.mem_append.mp hc with hfront | hback
    · exact hword.isTidy.spaces c hfront hspace
    · rcases List.mem_cons.mp hback with rfl | hrest
      · rfl
      · exact h.spaces c hrest hspace

theorem isTidy_intercalate {words : List (List Char)} (h : ∀ word ∈ words, IsWord word) :
    IsTidy ([' '].intercalate words) := by
  induction words with
  | nil => exact ⟨nofun, nofun, List.isChain_nil, nofun⟩
  | cons word words ih =>
    rw [List.forall_mem_cons] at h
    cases words with
    | nil =>
      rw [List.intercalate_singleton]
      exact h.1.isTidy
    | cons next words =>
      rw [List.intercalate_cons_cons, List.append_assoc, List.singleton_append]
      apply IsTidy.word_append h.1 (ih h.2)
      intro hnil
      -- without characters there are no words
      have hwords := splitWhitespace_intercalate h.2
      rw [hnil] at hwords
      cases hwords

theorem isTidy_joinWords (value : List Char) : IsTidy (joinWords value) :=
  isTidy_intercalate fun _ => isWord_of_mem_splitWhitespace

/-! ### What a tidied text keeps -/

/-- Every character but the spaces between the words comes from the text. -/
theorem mem_of_mem_joinWords {value : List Char} {c : Char} (h : c ∈ joinWords value)
    (hne : c ≠ ' ') : c ∈ value := by
  rw [joinWords, mem_intercalate_space hne] at h
  obtain ⟨word, hword, hc⟩ := h
  have hread := (isWord_of_mem_splitWhitespace hword).2 c hc
  exact (mem_splitOnP hread value).mp ⟨word, (List.mem_filter.mp hword).1, hc⟩

theorem prefix_infix_splitOnP {α : Type*} (p : α → Bool) (value : List α) :
    (∀ word, (value.splitOnP p).head? = some word → word <+: value) ∧
      ∀ word ∈ value.splitOnP p, word <:+: value := by
  induction value with
  | nil => simp
  | cons x value ih =>
    rw [List.splitOnP_cons_eq_if_modifyHead]
    obtain ⟨first, rest, hparts⟩ := List.exists_cons_of_ne_nil (List.splitOnP_ne_nil p value)
    by_cases hx : p x = true
    · rw [if_pos hx]
      simp only [List.head?_cons, Option.some.injEq, forall_eq', List.nil_prefix, true_and,
        List.forall_mem_cons, List.nil_infix]
      intro word hword
      exact (ih.2 word hword).trans (List.infix_cons List.infix_rfl)
    · rw [if_neg hx, hparts, List.modifyHead_cons]
      rw [hparts] at ih
      -- the character goes before the part that the rest begins with
      have hfirst : x :: first <+: x :: value :=
        List.cons_prefix_cons.mpr ⟨rfl, ih.1 first rfl⟩
      simp only [List.head?_cons, Option.some.injEq, forall_eq', List.forall_mem_cons]
      refine ⟨hfirst, hfirst.isInfix, ?_⟩
      intro word hword
      exact (ih.2 word (List.mem_cons_of_mem _ hword)).trans (List.infix_cons List.infix_rfl)

theorem infix_of_mem_splitWhitespace {value word : List Char} (h : word ∈ splitWhitespace value) :
    word <:+: value :=
  (prefix_infix_splitOnP _ value).2 word (List.mem_filter.mp h).1

/-- A text is a word, or has white space after a word or after nothing. -/
theorem eq_append_whitespace {value : List Char} (h : ∃ c ∈ value, isWhitespace c = true) :
    ∃ front c rest, value = front ++ c :: rest ∧ isWhitespace c = true ∧
      ∀ d ∈ front, isWhitespace d = false := by
  induction value with
  | nil => simp at h
  | cons d value ih =>
    by_cases hd : isWhitespace d = true
    · exact ⟨[], d, value, rfl, hd, nofun⟩
    · have hrest : ∃ c ∈ value, isWhitespace c = true := by
        obtain ⟨c, hc, hspace⟩ := h
        rcases List.mem_cons.mp hc with rfl | hmem
        · exact absurd hspace hd
        · exact ⟨c, hmem, hspace⟩
      obtain ⟨front, c, rest, rfl, hspace, hfront⟩ := ih hrest
      exact ⟨d :: front, c, rest, rfl, hspace,
        List.forall_mem_cons.mpr ⟨Bool.eq_false_iff.mpr hd, hfront⟩⟩

theorem splitWhitespace_cut {front rest : List Char} {c : Char} (hspace : isWhitespace c = true)
    (hfront : ∀ d ∈ front, isWhitespace d = false) :
    splitWhitespace (front ++ c :: rest) =
      if front = [] then splitWhitespace rest else front :: splitWhitespace rest := by
  rw [splitWhitespace, List.splitOnP_append_cons_of_forall_mem hfront c hspace, List.filter_cons]
  by_cases hempty : front = []
  · simp [hempty, splitWhitespace]
  · simp [hempty, splitWhitespace]

theorem length_encode_intercalate_cons_le (word : List Char) (words : List (List Char)) :
    (Utf8.encode ([' '].intercalate (word :: words))).length ≤
      (Utf8.encode word).length + 1 + (Utf8.encode ([' '].intercalate words)).length := by
  cases words with
  | nil =>
    rw [List.intercalate_singleton]
    omega
  | cons next words =>
    rw [List.intercalate_cons_cons, Utf8.encode_append, Utf8.encode_append, List.length_append,
      List.length_append]
    exact Nat.le_refl _

/-- Tidied, a text is not longer. -/
theorem length_encode_joinWords_le (value : List Char) :
    (Utf8.encode (joinWords value)).length ≤ (Utf8.encode value).length := by
  by_cases h : ∃ c ∈ value, isWhitespace c = true
  · obtain ⟨front, c, rest, rfl, hspace, hfront⟩ := eq_append_whitespace h
    have hrest := length_encode_joinWords_le rest
    have hc : 0 < (String.utf8EncodeChar c).length := by
      rw [String.length_utf8EncodeChar]
      exact c.utf8Size_pos
    rw [joinWords, splitWhitespace_cut hspace hfront, Utf8.encode_append, Utf8.encode_cons,
      List.length_append, List.length_append]
    split_ifs with hempty
    · rw [← joinWords]
      omega
    · have hle := length_encode_intercalate_cons_le front (splitWhitespace rest)
      rw [← joinWords] at hle
      omega
  · push Not at h
    by_cases hempty : value = []
    · subst hempty
      exact Nat.le_refl _
    · have hword : IsWord value := ⟨hempty, fun c hc => Bool.eq_false_iff.mpr (h c hc)⟩
      rw [joinWords, splitWhitespace_word hword, List.intercalate_singleton]
termination_by value.length
decreasing_by
  subst_vars
  rw [List.length_append, List.length_cons]
  omega

/-- What follows a word and a space in a tidy text. -/
theorem IsTidy.of_append {front rest : List Char} {c : Char} (h : IsTidy (front ++ c :: rest))
    (hspace : isWhitespace c = true) : front ≠ [] ∧ c = ' ' ∧ rest ≠ [] ∧ IsTidy rest := by
  have hchain := List.isChain_cons.mp (List.isChain_append.mp h.single).2.1
  have hrest : rest ≠ [] := by
    rintro rfl
    have hlast := h.last c List.getLast?_concat
    rw [hspace] at hlast
    cases hlast
  refine ⟨?_, h.spaces c (List.mem_append_right front List.mem_cons_self) hspace, hrest, ?_⟩
  · rintro rfl
    have hfirst := h.first c rfl
    rw [hspace] at hfirst
    cases hfirst
  · refine ⟨?_, ?_, hchain.2, ?_⟩
    · intro d hd
      rcases hchain.1 d hd with hc | hd
      · rw [hspace] at hc
        cases hc
      · exact hd
    · intro d hd
      apply h.last d
      rw [List.getLast?_append_of_ne_nil _ (List.cons_ne_nil _ _),
        List.getLast?_cons_of_ne_nil hrest, hd]
    · intro d hd
      exact h.spaces d (List.mem_append_right front (List.mem_cons_of_mem c hd))

/-- A tidy text is its words with single spaces between them. -/
theorem IsTidy.joinWords_eq {text : List Char} (h : IsTidy text) : joinWords text = text := by
  by_cases hany : ∃ c ∈ text, isWhitespace c = true
  · obtain ⟨front, c, rest, rfl, hspace, hfront⟩ := eq_append_whitespace hany
    have hparts := h.of_append hspace
    have hrest := hparts.2.2.2.joinWords_eq
    have hwords : splitWhitespace rest ≠ [] := by
      intro hnil
      rw [joinWords, hnil] at hrest
      exact hparts.2.2.1 hrest.symm
    obtain ⟨word, words, hcons⟩ := List.exists_cons_of_ne_nil hwords
    rw [joinWords, splitWhitespace_cut hspace hfront, if_neg hparts.1, hcons,
      List.intercalate_cons_cons, ← hcons, ← joinWords, hrest, hparts.2.1, List.append_assoc]
    rfl
  · push Not at hany
    by_cases hempty : text = []
    · subst hempty
      rfl
    · have hword : IsWord text := ⟨hempty, fun c hc => Bool.eq_false_iff.mpr (hany c hc)⟩
      rw [joinWords, splitWhitespace_word hword, List.intercalate_singleton]
termination_by text.length
decreasing_by
  subst_vars
  rw [List.length_append, List.length_cons]
  omega

end Chars
