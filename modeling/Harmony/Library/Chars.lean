/-
# Text as characters

The operations on text that a program takes from its standard library, on lists of
characters.
-/

import Mathlib.Data.List.Infix

namespace Chars

/-- Whether the character has the Unicode property `White_Space`. -/
def isWhitespace (c : Char) : Bool :=
  let n := c.toNat
  (0x9 ≤ n && n ≤ 0xD) || n == 0x20 || n == 0x85 || n == 0xA0 || n == 0x1680 ||
    (0x2000 ≤ n && n ≤ 0x200A) || n == 0x2028 || n == 0x2029 || n == 0x202F || n == 0x205F ||
    n == 0x3000

/-- Whether the character has the Unicode general category `Cc`. -/
def isControl (c : Char) : Bool := c.toNat < 0x20 || (0x7F ≤ c.toNat && c.toNat ≤ 0x9F)

/-- The words between whitespace. -/
def splitWhitespace (value : List Char) : List (List Char) :=
  (value.splitOnP isWhitespace).filter fun word => !word.isEmpty

/-- The words of the value with one space between them. -/
def joinWords (value : List Char) : List Char :=
  List.intercalate [' '] (splitWhitespace value)

/-- The value without the characters of a kind at its two ends. -/
def trimMatches (p : Char → Bool) (value : List Char) : List Char :=
  ((value.dropWhile p).reverse.dropWhile p).reverse

def trim (value : List Char) : List Char := trimMatches isWhitespace value

/-- What stands before and after the first occurrence of the pattern. -/
def splitOnce (pattern : List Char) : List Char → Option (List Char × List Char)
  | [] => if pattern = [] then some ([], []) else none
  | c :: rest =>
    if pattern.isPrefixOf (c :: rest) then some ([], (c :: rest).drop pattern.length)
    else (splitOnce pattern rest).map fun parts => (c :: parts.1, parts.2)

/-- The lines, each without the line feed that ends it and a carriage return before
that. -/
def lines (text : List Char) : List (List Char) :=
  let parts := text.splitOnP (· == '\n')
  let ended := parts.dropLast.map fun line =>
    if line.getLast? = some '\r' then line.dropLast else line
  match parts.getLast? with
  | none | some [] => ended
  | some last => ended ++ [last]

/-! ### Reading UTF-8 -/

/-- Whether the byte continues a character. -/
def isContinuation (b : UInt8) : Bool := 0x80 ≤ b && b ≤ 0xBF

/-- Whether the second byte may stand after the first one of a longer character. -/
def isSecond (first second : UInt8) : Bool :=
  if first = 0xE0 then 0xA0 ≤ second && second ≤ 0xBF
  else if first = 0xED then 0x80 ≤ second && second ≤ 0x9F
  else if first = 0xF0 then 0x90 ≤ second && second ≤ 0xBF
  else if first = 0xF4 then 0x80 ≤ second && second ≤ 0x8F
  else isContinuation second

/-- The low bits of a byte that continues a character. -/
def continued (b : UInt8) : ℕ := b.toNat % 64

def replacement : Char := '\uFFFD'

/-- The text of the bytes, with a replacement character for each longest part that
begins no character. -/
def fromUtf8Lossy : List UInt8 → List Char
  | [] => []
  | a :: rest =>
    if a < 0x80 then Char.ofNat a.toNat :: fromUtf8Lossy rest
    else if 0xC2 ≤ a ∧ a ≤ 0xDF then
      match rest with
      | [] => [replacement]
      | b :: rest₁ =>
        if isContinuation b then
          Char.ofNat (a.toNat % 32 * 64 + continued b) :: fromUtf8Lossy rest₁
        else replacement :: fromUtf8Lossy (b :: rest₁)
    else if 0xE0 ≤ a ∧ a ≤ 0xEF then
      match rest with
      | [] => [replacement]
      | b :: rest₁ =>
        if isSecond a b then
          match rest₁ with
          | [] => [replacement]
          | c :: rest₂ =>
            if isContinuation c then
              Char.ofNat ((a.toNat % 16 * 64 + continued b) * 64 + continued c) ::
                fromUtf8Lossy rest₂
            else replacement :: fromUtf8Lossy (c :: rest₂)
        else replacement :: fromUtf8Lossy (b :: rest₁)
    else if 0xF0 ≤ a ∧ a ≤ 0xF4 then
      match rest with
      | [] => [replacement]
      | b :: rest₁ =>
        if isSecond a b then
          match rest₁ with
          | [] => [replacement]
          | c :: rest₂ =>
            if isContinuation c then
              match rest₂ with
              | [] => [replacement]
              | d :: rest₃ =>
                if isContinuation d then
                  Char.ofNat
                    (((a.toNat % 8 * 64 + continued b) * 64 + continued c) * 64 + continued d) ::
                      fromUtf8Lossy rest₃
                else replacement :: fromUtf8Lossy (d :: rest₃)
            else replacement :: fromUtf8Lossy (c :: rest₂)
        else replacement :: fromUtf8Lossy (b :: rest₁)
    else replacement :: fromUtf8Lossy rest

/-! ### Offsets in bytes -/

/-- How many bytes stand before the first occurrence of the pattern. -/
def findByte (pattern text : List Char) : Option ℕ :=
  (splitOnce pattern text).map fun parts => (String.ofList parts.1).utf8ByteSize

/-- The text from a byte on; nothing when no character begins there. -/
def dropBytes : ℕ → List Char → Option (List Char)
  | 0, text => some text
  | _ + 1, [] => none
  | n + 1, c :: rest => if c.utf8Size ≤ n + 1 then dropBytes (n + 1 - c.utf8Size) rest else none

/-! ### What is split -/

variable {c : Char}

/-- Without the pattern's character before it, a text is split where it stands. -/
theorem splitOnce_append {first second : List Char} (h : c ∉ first) :
    splitOnce [c] (first ++ c :: second) = some (first, second) := by
  induction first with
  | nil => simp [splitOnce]
  | cons d first ih =>
    rw [List.mem_cons, not_or] at h
    have hne : (c == d) = false := by simpa using h.1
    rw [List.cons_append, splitOnce, if_neg (by simp [List.isPrefixOf, hne]), ih h.2]
    rfl

/-- The two parts with the pattern between them are the text. -/
theorem eq_of_splitOnce {pattern text first second : List Char}
    (h : splitOnce pattern text = some (first, second)) : text = first ++ pattern ++ second := by
  induction text generalizing first with
  | nil =>
    rw [splitOnce] at h
    split_ifs at h with hempty
    cases h
    rw [hempty]
    rfl
  | cons c rest ih =>
    rw [splitOnce] at h
    split_ifs at h with hstart
    · cases h
      rw [List.nil_append]
      obtain ⟨tail, htail⟩ := List.isPrefixOf_iff_prefix.mp hstart
      rw [← htail, List.drop_left]
    · obtain ⟨parts, hparts, heq⟩ := Option.map_eq_some_iff.mp h
      cases heq
      have hrest : rest = parts.1 ++ pattern ++ parts.2 := ih (by rw [hparts])
      rw [List.cons_append, List.cons_append, ← hrest]

theorem splitOnce_eq_none {text : List Char} (h : c ∉ text) :
    splitOnce [c] text = none := by
  induction text with
  | nil => rfl
  | cons d text ih =>
    rw [List.mem_cons, not_or] at h
    have hne : (c == d) = false := by simpa using h.1
    rw [splitOnce, if_neg (by simp [List.isPrefixOf, hne]), ih h.2]
    rfl

/-- A text with no whitespace at its ends is not trimmed. -/
theorem trim_eq_self {text : List Char} (hfirst : ∀ c, text.head? = some c → isWhitespace c = false)
    (hlast : ∀ c, text.getLast? = some c → isWhitespace c = false) : trim text = text := by
  have hkeep : ∀ {text : List Char}, (∀ c, text.head? = some c → isWhitespace c = false) →
      text.dropWhile isWhitespace = text := by
    intro text hhead
    cases text with
    | nil => rfl
    | cons c rest => rw [List.dropWhile_cons_of_neg (by rw [hhead c rfl]; exact Bool.false_ne_true)]
  have hreverse : ∀ c, text.reverse.head? = some c → isWhitespace c = false := by
    intro c hc
    rw [List.head?_reverse] at hc
    exact hlast c hc
  rw [trim, trimMatches, hkeep hfirst, hkeep hreverse, List.reverse_reverse]

/-! ### Other text around the pattern -/

/-- Whether a long enough text begins with the pattern is decided by its front. -/
theorem isPrefixOf_append {pattern front : List Char} (rest : List Char)
    (hlength : pattern.length ≤ front.length) :
    pattern.isPrefixOf (front ++ rest) = pattern.isPrefixOf front := by
  rw [Bool.eq_iff_iff, List.isPrefixOf_iff_prefix, List.isPrefixOf_iff_prefix]
  constructor
  · intro h
    exact List.prefix_of_prefix_length_le h (List.prefix_append front rest) hlength
  · exact List.prefix_append_of_prefix

theorem splitOnce_self_append (pattern rest : List Char) :
    splitOnce pattern (pattern ++ rest) = some ([], rest) := by
  cases htext : pattern ++ rest with
  | nil =>
    obtain ⟨rfl, rfl⟩ := List.append_eq_nil_iff.mp htext
    rfl
  | cons c tail =>
    have hprefix : pattern.isPrefixOf (c :: tail) = true := by
      rw [List.isPrefixOf_iff_prefix, ← htext]
      exact List.prefix_append pattern rest
    rw [splitOnce, if_pos hprefix, ← htext, List.drop_left]

/-- What follows the first occurrence of the pattern does not move it. -/
theorem splitOnce_replace {pattern text first second : List Char}
    (h : splitOnce pattern text = some (first, second)) (other : List Char) :
    splitOnce pattern (first ++ pattern ++ other) = some (first, other) := by
  induction text generalizing first with
  | nil =>
    rw [splitOnce] at h
    split_ifs at h with hempty
    cases h
    exact splitOnce_self_append pattern other
  | cons c rest ih =>
    rw [splitOnce] at h
    split_ifs at h with hstart
    · cases h
      exact splitOnce_self_append pattern other
    · obtain ⟨parts, hparts, heq⟩ := Option.map_eq_some_iff.mp h
      cases heq
      have hlength : pattern.length ≤ (c :: (parts.1 ++ pattern)).length := by
        rw [List.length_cons, List.length_append]
        omega
      have hnot : pattern.isPrefixOf (c :: (parts.1 ++ pattern) ++ other) ≠ true := by
        rw [isPrefixOf_append other hlength, ← isPrefixOf_append parts.2 hlength,
          List.cons_append, ← eq_of_splitOnce hparts]
        exact hstart
      rw [List.cons_append] at hnot
      rw [List.cons_append, List.cons_append, splitOnce, if_neg hnot, ih hparts]
      rfl

/-- A character at the end that the pattern does not have stays at the end. -/
theorem splitOnce_concat {pattern : List Char} (hc : c ∉ pattern) (hpattern : pattern ≠ [])
    (text : List Char) :
    splitOnce pattern (text ++ [c]) =
      (splitOnce pattern text).map fun parts => (parts.1, parts.2 ++ [c]) := by
  -- The pattern is at the front with the character exactly where it is without.
  have hfront : ∀ front, pattern.isPrefixOf (front ++ [c]) = pattern.isPrefixOf front := by
    intro front
    by_cases hlength : pattern.length ≤ front.length
    · exact isPrefixOf_append [c] hlength
    · have hnot : ∀ text : List Char, text = front ++ [c] ∨ text = front →
          pattern.isPrefixOf text ≠ true := by
        rintro text htext hprefix
        have hle := (List.isPrefixOf_iff_prefix.mp hprefix).length_le
        rcases htext with rfl | rfl
        · have heq : pattern = front ++ [c] := by
            refine (List.isPrefixOf_iff_prefix.mp hprefix).eq_of_length_le ?_
            rw [List.length_append, List.length_singleton]
            omega
          exact hc (heq ▸ List.mem_append_right front List.mem_cons_self)
        · exact hlength hle
      rw [Bool.eq_false_iff.mpr (hnot _ (.inl rfl)), Bool.eq_false_iff.mpr (hnot _ (.inr rfl))]
  induction text with
  | nil =>
    have hnot : ¬ pattern.isPrefixOf [c] = true := by
      rw [show [c] = [] ++ [c] from rfl, hfront []]
      cases pattern with
      | nil => exact absurd rfl hpattern
      | cons d pattern => simp
    have hempty : splitOnce pattern [] = none := by
      rw [splitOnce, if_neg hpattern]
    have hsingle : splitOnce pattern [c] = none := by
      rw [splitOnce, if_neg hnot, hempty]
      rfl
    rw [List.nil_append, hsingle, hempty]
    rfl
  | cons d text ih =>
    have hhead := hfront (d :: text)
    rw [List.cons_append] at hhead
    rw [List.cons_append, splitOnce, splitOnce, hhead]
    by_cases hstart : pattern.isPrefixOf (d :: text) = true
    · have hle := (List.isPrefixOf_iff_prefix.mp hstart).length_le
      rw [if_pos hstart, if_pos hstart, ← List.cons_append,
        List.drop_append_of_le_length hle]
      rfl
    · rw [if_neg hstart, if_neg hstart, ih, Option.map_map, Option.map_map]
      rfl

/-! ### Words -/

theorem mem_modifyHead_cons {α : Type*} {x c : α} {parts : List (List α)} (hparts : parts ≠ []) :
    (∃ word ∈ parts.modifyHead (x :: ·), c ∈ word) ↔ c = x ∨ ∃ word ∈ parts, c ∈ word := by
  obtain ⟨first, rest, rfl⟩ := List.exists_cons_of_ne_nil hparts
  rw [List.modifyHead_cons, List.exists_mem_cons_iff, List.exists_mem_cons_iff, List.mem_cons,
    or_assoc]

/-- A character that separates nothing is in one of the parts. -/
theorem mem_splitOnP {α : Type*} {p : α → Bool} {c : α} (hc : p c = false) (l : List α) :
    (∃ word ∈ l.splitOnP p, c ∈ word) ↔ c ∈ l := by
  induction l with
  | nil => simp
  | cons x l ih =>
    rw [List.splitOnP_cons_eq_if_modifyHead, List.mem_cons]
    by_cases hx : p x = true
    · rw [if_pos hx, List.exists_mem_cons_iff, ih]
      have hne : c ≠ x := by
        rintro rfl
        rw [hc] at hx
        cases hx
      simp [hne]
    · rw [if_neg hx, mem_modifyHead_cons (List.splitOnP_ne_nil p l), ih]

theorem not_sep_of_mem {α : Type*} {p : α → Bool} {c : α} (l : List α) :
    ∀ word ∈ l.splitOnP p, c ∈ word → p c = false := by
  induction l with
  | nil => simp
  | cons x l ih =>
    rw [List.splitOnP_cons_eq_if_modifyHead]
    by_cases hx : p x = true
    · rw [if_pos hx]
      intro word hword hc
      rcases List.mem_cons.mp hword with rfl | hrest
      · cases hc
      · exact ih word hrest hc
    · rw [if_neg hx]
      intro word hword hc
      rcases (mem_modifyHead_cons (List.splitOnP_ne_nil p l)).mp ⟨word, hword, hc⟩ with
        rfl | ⟨other, hother, hmem⟩
      · exact Bool.eq_false_iff.mpr hx
      · exact ih other hother hmem

/-- There are words where there is something to read. -/
theorem splitWhitespace_ne_nil {value : List Char} :
    splitWhitespace value ≠ [] ↔ ∃ c ∈ value, isWhitespace c = false := by
  constructor
  · intro hne
    obtain ⟨word, hword⟩ := List.exists_mem_of_ne_nil _ hne
    obtain ⟨hpart, hsome⟩ := List.mem_filter.mp hword
    obtain ⟨c, hc⟩ := List.exists_mem_of_ne_nil word (by simpa using hsome)
    have hread := not_sep_of_mem value word hpart hc
    exact ⟨c, (mem_splitOnP hread value).mp ⟨word, hpart, hc⟩, hread⟩
  · rintro ⟨c, hc, hread⟩
    obtain ⟨word, hword, hmem⟩ := (mem_splitOnP hread value).mpr hc
    exact List.ne_nil_of_mem
      (List.mem_filter.mpr ⟨hword, by simpa using List.ne_nil_of_mem hmem⟩)

theorem mem_intercalate_space (hc : c ≠ ' ') (words : List (List Char)) :
    c ∈ List.intercalate [' '] words ↔ ∃ word ∈ words, c ∈ word := by
  induction words with
  | nil => simp
  | cons word words ih =>
    cases words with
    | nil => simp
    | cons next words =>
      rw [List.intercalate_cons_cons, List.mem_append, List.mem_append, List.mem_singleton,
        or_iff_left hc, ih]
      simp only [List.exists_mem_cons_iff]

/-- Joined with single spaces, the words are all that can be read. -/
theorem mem_joinWords (hc : isWhitespace c = false) (value : List Char) :
    c ∈ joinWords value ↔ c ∈ value := by
  have hspace : c ≠ ' ' := by
    rintro rfl
    revert hc
    decide
  rw [joinWords, mem_intercalate_space hspace, ← mem_splitOnP hc value]
  constructor
  · rintro ⟨word, hword, hmem⟩
    exact ⟨word, (List.mem_filter.mp hword).1, hmem⟩
  · rintro ⟨word, hword, hmem⟩
    exact ⟨word, List.mem_filter.mpr ⟨hword, by simpa using List.ne_nil_of_mem hmem⟩, hmem⟩

/-! ### Lines -/

/-- Lines joined by line feeds are read back, where none ends in what belongs to a line
end and the last one is not empty. -/
theorem lines_intercalate {text : List (List Char)} {last : List Char} (hlast : last ≠ [])
    (hlines : ∀ line ∈ text ++ [last], '\n' ∉ line)
    (hends : ∀ line ∈ text, line.getLast? ≠ some '\r') :
    lines (['\n'].intercalate (text ++ [last])) = text ++ [last] := by
  have hsplit : (['\n'].intercalate (text ++ [last])).splitOnP (· == '\n') = text ++ [last] :=
    List.splitOn_intercalate '\n' hlines
      (List.append_ne_nil_of_right_ne_nil _ (List.cons_ne_nil _ _))
  have hended : (text.map fun line =>
      if line.getLast? = some '\r' then line.dropLast else line) = text := by
    refine (List.map_congr_left fun line hline => ?_).trans (List.map_id' text)
    rw [if_neg (hends line hline)]
  rw [lines, hsplit, List.dropLast_concat, List.getLast?_concat, hended]
  cases last with
  | nil => exact absurd rfl hlast
  | cons c last => rfl

end Chars
