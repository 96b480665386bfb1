/-
# The stored form of a prepared text

A trigger stores a prepared text as JSON, a load reads it back. The writer and the reader
of JSON are parameters: what they are trusted with is the grammar, said here as what a
JSON text stands for. In between the program escapes some characters of the whole text,
which changes how it is spelled and not what it stands for.
-/

import Harmony.Search.Text
import Mathlib.Data.Fin.VecNotation
import Mathlib.Data.Fintype.Basic
import Mathlib.Tactic.FinCases

namespace Harmony.Search

variable {body value : List Char} {json : List Char}

namespace Json

/-! ### What a JSON text stands for -/

def hexDigit (c : Char) : Option ℕ :=
  if '0' ≤ c ∧ c ≤ '9' then some (c.toNat - '0'.toNat)
  else if 'a' ≤ c ∧ c ≤ 'f' then some (c.toNat - 'a'.toNat + 10)
  else if 'A' ≤ c ∧ c ≤ 'F' then some (c.toNat - 'A'.toNat + 10)
  else none

def hexValue (first second third fourth : Char) : Option ℕ := do
  let a ← hexDigit first
  let b ← hexDigit second
  let c ← hexDigit third
  let d ← hexDigit fourth
  return ((a * 16 + b) * 16 + c) * 16 + d

/-- The characters that follow a backslash, and what they stand for. -/
def shortEscapes : List (Char × Char) :=
  [('"', '"'), ('\\', '\\'), ('/', '/'), ('b', Char.ofNat 8), ('f', Char.ofNat 12), ('n', '\n'),
    ('r', '\r'), ('t', '\t')]

/-- What stands between the quotes of a string, and the string. -/
inductive Literal : List Char → List Char → Prop
  | nil : Literal [] []
  | plain (c : Char) {body value : List Char} (hquote : c ≠ '"') (hbackslash : c ≠ '\\')
      (hcontrol : 0x20 ≤ c.toNat) : Literal body value → Literal (c :: body) (c :: value)
  | short (escape c : Char) {body value : List Char} (h : (escape, c) ∈ shortEscapes) :
      Literal body value → Literal ('\\' :: escape :: body) (c :: value)
  | unicode (first second third fourth c : Char) {body value : List Char}
      (h : hexValue first second third fourth = some c.toNat) : Literal body value →
      Literal ('\\' :: 'u' :: first :: second :: third :: fourth :: body) (c :: value)

def quoted (body : List Char) : List Char := '"' :: (body ++ ['"'])

/-- What stands between the brackets of a list of strings, and the strings. -/
inductive Elements : List Char → List String → Prop
  | nil : Elements [] []
  | one {body : List Char} {value : String} (h : Literal body value.toList) :
      Elements (quoted body) [value]
  | cons {body rest : List Char} {value next : String} {values : List String}
      (h : Literal body value.toList) (hrest : Elements rest (next :: values)) :
      Elements (quoted body ++ ',' :: rest) (value :: next :: values)

/-- Five values between the names of their fields and the punctuation. -/
def between (keys : Fin 6 → List Char) (values : Fin 5 → List Char) : List Char :=
  keys 0 ++ (values 0 ++ (keys 1 ++ (values 1 ++ (keys 2 ++ (values 2 ++ (keys 3 ++ (values 3 ++
    (keys 4 ++ (values 4 ++ keys 5)))))))))

/-- The fields in the order in which they are declared. -/
def fieldKeys : Fin 6 → List Char :=
  !["\x7b\"original\":".toList, ",\"faithful\":".toList, ",\"folded\":".toList,
    ",\"compact\":".toList, ",\"versions\":[".toList, "]\x7d".toList]

/-- The object of a text. -/
def object (original faithful folded compact versions : List Char) : List Char :=
  between fieldKeys ![quoted original, quoted faithful, quoted folded, quoted compact, versions]

/-- The JSON text stands for the prepared text. -/
def Denotes (json : List Char) (text : Text) : Prop :=
  ∃ original faithful folded compact versions,
    json = object original faithful folded compact versions ∧
    Literal original text.original.toList ∧ Literal faithful text.faithful.toList ∧
    Literal folded text.folded.toList ∧ Literal compact text.compact.toList ∧
    Elements versions text.versions

/-! ### The escaped characters -/

/-- What becomes of one character of the whole JSON text. -/
def escapeCharacter (c : Char) : List Char :=
  if c = '<' then "\\u003c".toList
  else if c = '>' then "\\u003e".toList
  else if c = '&' then "\\u0026".toList
  else if c = Char.ofNat 0x2028 then "\\u2028".toList
  else if c = Char.ofNat 0x2029 then "\\u2029".toList
  else [c]

def escape (json : List Char) : List Char := json.flatMap escapeCharacter

/-- The characters that are escaped. -/
def special : List Char := ['<', '>', '&', Char.ofNat 0x2028, Char.ofNat 0x2029]

theorem escapeCharacter_of_plain {c : Char} (h : c ∉ special) : escapeCharacter c = [c] := by
  simp only [special, List.mem_cons, List.not_mem_nil, or_false, not_or] at h
  rw [escapeCharacter, if_neg h.1, if_neg h.2.1, if_neg h.2.2.1, if_neg h.2.2.2.1, if_neg h.2.2.2.2]

theorem escape_append (first second : List Char) :
    escape (first ++ second) = escape first ++ escape second :=
  List.flatMap_append

theorem escape_of_plain (h : ∀ c ∈ json, c ∉ special) : escape json = json := by
  induction json with
  | nil => rfl
  | cons c json ih =>
    have hrest := ih fun other hother => h other (List.mem_cons_of_mem _ hother)
    rw [escape, List.flatMap_cons, escapeCharacter_of_plain (h c List.mem_cons_self)]
    exact congrArg (c :: ·) hrest

theorem escape_quoted (body : List Char) : escape (quoted body) = quoted (escape body) := by
  rw [quoted, ← List.singleton_append, escape_append, escape_append, quoted]
  rfl

theorem hexDigit_special {c : Char} (h : c ∈ special) : hexDigit c = none := by
  simp only [special, List.mem_cons, List.not_mem_nil, or_false] at h
  rcases h with rfl | rfl | rfl | rfl | rfl <;> decide

theorem plain_of_hexValue {first second third fourth : Char} {n : ℕ}
    (h : hexValue first second third fourth = some n) :
    ∀ c ∈ [first, second, third, fourth], c ∉ special := by
  intro c hc hspecial
  have hnone := hexDigit_special hspecial
  simp only [List.mem_cons, List.not_mem_nil, or_false] at hc
  simp only [hexValue, Option.bind_eq_bind, Option.bind_eq_some_iff] at h
  obtain ⟨_, hfirst, _, hsecond, _, hthird, _, hfourth, -⟩ := h
  rcases hc with rfl | rfl | rfl | rfl
  · rw [hnone] at hfirst
    cases hfirst
  · rw [hnone] at hsecond
    cases hsecond
  · rw [hnone] at hthird
    cases hthird
  · rw [hnone] at hfourth
    cases hfourth

/-- A special character stands for itself, escaped or not. -/
theorem Literal.special {c : Char} (hc : c ∈ Json.special) (h : Literal body value) :
    Literal (escapeCharacter c ++ body) (c :: value) := by
  simp only [Json.special, List.mem_cons, List.not_mem_nil, or_false] at hc
  rcases hc with rfl | rfl | rfl | rfl | rfl
  · exact .unicode '0' '0' '3' 'c' '<' (by decide) h
  · exact .unicode '0' '0' '3' 'e' '>' (by decide) h
  · exact .unicode '0' '0' '2' '6' '&' (by decide) h
  · exact .unicode '2' '0' '2' '8' (Char.ofNat 0x2028) (by decide) h
  · exact .unicode '2' '0' '2' '9' (Char.ofNat 0x2029) (by decide) h

/-- By induction on how the string is spelled: no escape that is there is broken up. -/
theorem Literal.escape (h : Literal body value) :
    Literal (Json.escape body) value := by
  induction h with
  | nil => exact .nil
  | @plain c body value hquote hbackslash hcontrol _ ih =>
    rw [Json.escape, List.flatMap_cons]
    by_cases hspecial : c ∈ Json.special
    · exact ih.special hspecial
    · rw [escapeCharacter_of_plain hspecial]
      exact .plain c hquote hbackslash hcontrol ih
  | @short escape c body value h _ ih =>
    have hplain : ∀ pair ∈ shortEscapes, pair.1 ∉ Json.special := by decide
    rw [Json.escape, List.flatMap_cons, List.flatMap_cons,
      escapeCharacter_of_plain (hplain _ h), escapeCharacter_of_plain (by decide)]
    exact .short escape c h ih
  | @unicode first second third fourth c body value h _ ih =>
    have hplain := plain_of_hexValue h
    have hdigits : Json.escape ('\\' :: 'u' :: first :: second :: third :: fourth :: body) =
        '\\' :: 'u' :: first :: second :: third :: fourth :: Json.escape body := by
      rw [show '\\' :: 'u' :: first :: second :: third :: fourth :: body =
        ['\\', 'u'] ++ ([first, second, third, fourth] ++ body) from rfl, escape_append,
        escape_append, escape_of_plain hplain]
      rfl
    rw [hdigits]
    exact .unicode first second third fourth c h ih

theorem Elements.escape {body : List Char} {values : List String} (h : Elements body values) :
    Elements (Json.escape body) values := by
  induction h with
  | nil => exact .nil
  | one h =>
    rw [escape_quoted]
    exact .one h.escape
  | @cons body rest value next values h _ ih =>
    rw [escape_append, escape_quoted, ← List.singleton_append, escape_append]
    exact .cons h.escape ih

theorem escape_between {keys : Fin 6 → List Char} (hkeys : ∀ i, ∀ c ∈ keys i, c ∉ special)
    (values : Fin 5 → List Char) :
    Json.escape (between keys values) = between keys fun i => Json.escape (values i) := by
  have hkey : ∀ i, Json.escape (keys i) = keys i := fun i => escape_of_plain (hkeys i)
  simp only [between, escape_append, hkey]

/-- The names of the fields and the punctuation have nothing to escape. -/
theorem escape_object (original faithful folded compact versions : List Char) :
    Json.escape (object original faithful folded compact versions) =
      object (Json.escape original) (Json.escape faithful) (Json.escape folded)
        (Json.escape compact) (Json.escape versions) := by
  have hall : ∀ i, ((fieldKeys i).all fun c => !special.elem c) = true := by decide +kernel
  have hkeys : ∀ i, ∀ c ∈ fieldKeys i, c ∉ special := by
    intro i c hc hspecial
    have hplain := List.all_eq_true.mp (hall i) c hc
    rw [List.elem_eq_true_of_mem hspecial] at hplain
    cases hplain
  rw [object, escape_between hkeys, object]
  refine congrArg (between fieldKeys) (funext fun i => ?_)
  fin_cases i
  · exact escape_quoted original
  · exact escape_quoted faithful
  · exact escape_quoted folded
  · exact escape_quoted compact
  · rfl

/-- Escaped, a JSON text stands for the same text. -/
theorem Denotes.escape {text : Text} (h : Denotes json text) :
    Denotes (Json.escape json) text := by
  obtain ⟨original, faithful, folded, compact, versions, hjson, horiginal, hfaithful, hfolded,
    hcompact, hversions⟩ := h
  refine ⟨Json.escape original, Json.escape faithful, Json.escape folded, Json.escape compact,
    Json.escape versions, ?_, horiginal.escape, hfaithful.escape, hfolded.escape, hcompact.escape,
    hversions.escape⟩
  rw [hjson, escape_object]

end Json

/-! ### Stored and read back -/

/-- The JSON library, for prepared texts. -/
structure Serde where
  toString : Text → List Char
  fromStr : List Char → Option Text

/-- What the library says of itself: it writes what stands for the text, and reads
whatever stands for one. -/
structure Serde.Documented (serde : Serde) : Prop where
  writes : ∀ text, Json.Denotes (serde.toString text) text
  reads : ∀ json text, Json.Denotes json text → serde.fromStr json = some text

/-- The JSON that a trigger stores. -/
def encode (serde : Serde) (text : Text) : List Char := Json.escape (serde.toString text)

theorem fromStr_encode {serde : Serde} (h : serde.Documented) (text : Text) :
    serde.fromStr (encode serde text) = some text :=
  h.reads _ _ (h.writes text).escape

/-! ### A library that does what is documented -/

namespace Json

def writeCharacter (c : Char) : List Char :=
  if c = '"' ∨ c = '\\' then ['\\', c]
  else if c.toNat < 0x20 then
    ['\\', 'u', '0', '0', Nat.digitChar (c.toNat / 16), Nat.digitChar (c.toNat % 16)]
  else [c]

def writeString (value : String) : List Char := value.toList.flatMap writeCharacter

def writeStrings : List String → List Char
  | [] => []
  | [value] => quoted (writeString value)
  | value :: values => quoted (writeString value) ++ ',' :: writeStrings values

def writeText (text : Text) : List Char :=
  object (writeString text.original) (writeString text.faithful) (writeString text.folded)
    (writeString text.compact) (writeStrings text.versions)

theorem literal_writeString (value : String) : Literal (writeString value) value.toList := by
  rw [writeString]
  induction value.toList with
  | nil => exact .nil
  | cons c rest ih =>
    rw [List.flatMap_cons, writeCharacter]
    by_cases hescaped : c = '"' ∨ c = '\\'
    · rw [if_pos hescaped]
      rcases hescaped with rfl | rfl
      · exact .short '"' '"' (by decide) ih
      · exact .short '\\' '\\' (by decide) ih
    · rw [if_neg hescaped]
      obtain ⟨hquote, hbackslash⟩ := not_or.mp hescaped
      by_cases hcontrol : c.toNat < 0x20
      · rw [if_pos hcontrol]
        have hdigits : ∀ n < 0x20,
            hexValue '0' '0' (Nat.digitChar (n / 16)) (Nat.digitChar (n % 16)) = some n := by decide
        exact .unicode '0' '0' _ _ c (hdigits _ hcontrol) ih
      · rw [if_neg hcontrol]
        exact .plain c hquote hbackslash (not_lt.mp hcontrol) ih

theorem elements_writeStrings (values : List String) : Elements (writeStrings values) values := by
  induction values with
  | nil => exact .nil
  | cons value values ih =>
    cases values with
    | nil => exact .one (literal_writeString value)
    | cons next values => exact .cons (literal_writeString value) ih

/-- What stands up to the closing quote, and what follows it. -/
def readBody : List Char → Option (List Char × List Char)
  | [] => none
  | '"' :: rest => some ([], rest)
  | '\\' :: 'u' :: first :: second :: third :: fourth :: rest =>
    (hexValue first second third fourth).bind fun n =>
      (readBody rest).map fun read => (Char.ofNat n :: read.1, read.2)
  | '\\' :: escape :: rest =>
    (shortEscapes.lookup escape).bind fun c =>
      (readBody rest).map fun read => (c :: read.1, read.2)
  | c :: rest => (readBody rest).map fun read => (c :: read.1, read.2)

/-- A string is read as what it stands for, by induction on how it is spelled. -/
theorem readBody_literal (h : Literal body value) (rest : List Char) :
    readBody (body ++ '"' :: rest) = some (value, rest) := by
  induction h with
  | nil => rfl
  | @plain c body value hquote hbackslash hcontrol _ ih =>
    rw [List.cons_append, readBody.eq_def]
    split
    · contradiction
    · rename_i heq
      exact absurd (List.cons.inj heq).1 hquote
    · rename_i heq
      exact absurd (List.cons.inj heq).1 hbackslash
    · rename_i heq
      exact absurd (List.cons.inj heq).1 hbackslash
    · rename_i heq
      obtain ⟨rfl, rfl⟩ := List.cons.inj heq
      rw [ih]
      rfl
  | @short escape c body value h _ ih =>
    rw [List.cons_append, List.cons_append]
    simp only [shortEscapes, List.mem_cons, Prod.mk.injEq, List.not_mem_nil, or_false] at h
    rcases h with ⟨rfl, rfl⟩ | ⟨rfl, rfl⟩ | ⟨rfl, rfl⟩ | ⟨rfl, rfl⟩ | ⟨rfl, rfl⟩ | ⟨rfl, rfl⟩ |
      ⟨rfl, rfl⟩ | ⟨rfl, rfl⟩ <;> simp [readBody, shortEscapes, List.lookup_cons, ih]
  | @unicode first second third fourth c body value h _ ih =>
    simp only [List.cons_append]
    rw [readBody, h, ih, Option.bind_some, Option.map_some, Char.ofNat_toNat]

def readQuoted : List Char → Option (List Char × List Char)
  | '"' :: rest => readBody rest
  | _ => none

theorem readQuoted_literal (h : Literal body value) (rest : List Char) :
    readQuoted (quoted body ++ rest) = some (value, rest) := by
  rw [quoted, List.cons_append, List.append_assoc, readQuoted]
  exact readBody_literal h rest

/-- The strings up to the closing bracket, and what follows it. -/
def readElements : ℕ → List Char → Option (List String × List Char)
  | 0, _ => none
  | _ + 1, ']' :: rest => some ([], rest)
  | n + 1, input => (readQuoted input).bind fun read =>
      match read.2 with
      | ',' :: rest => (readElements n rest).map fun others =>
          (String.ofList read.1 :: others.1, others.2)
      | ']' :: rest => some ([String.ofList read.1], rest)
      | _ => none

theorem readElements_elements {body : List Char} {values : List String} (h : Elements body values)
    (rest : List Char) {n : ℕ} (hn : body.length < n) :
    readElements n (body ++ ']' :: rest) = some (values, rest) := by
  induction h generalizing n with
  | nil =>
    obtain ⟨n, rfl⟩ := Nat.exists_eq_succ_of_ne_zero (Nat.ne_zero_of_lt hn)
    rfl
  | one h =>
    obtain ⟨n, rfl⟩ := Nat.exists_eq_succ_of_ne_zero (Nat.ne_zero_of_lt hn)
    have hread := readQuoted_literal h (']' :: rest)
    rw [quoted, List.cons_append] at hread ⊢
    rw [readElements, hread]
    · simp
    · simp
  | @cons body others value next values h _ ih =>
    obtain ⟨n, rfl⟩ := Nat.exists_eq_succ_of_ne_zero (Nat.ne_zero_of_lt hn)
    have hread := readQuoted_literal h (',' :: (others ++ ']' :: rest))
    have hlength : others.length < n := by
      rw [List.length_append, List.length_cons] at hn
      omega
    rw [List.append_assoc, List.cons_append]
    rw [quoted, List.cons_append] at hread ⊢
    rw [readElements, hread, Option.bind_some]
    · have hothers := ih hlength
      simp only [hothers, Option.map_some, String.ofList_toList]
    · simp

def expect (token input : List Char) : Option (List Char) :=
  if token.isPrefixOf input then some (input.drop token.length) else none

theorem expect_append (token rest : List Char) : expect token (token ++ rest) = some rest := by
  have hstarts : token.isPrefixOf (token ++ rest) = true :=
    List.isPrefixOf_iff_prefix.mpr (List.prefix_append token rest)
  rw [expect, if_pos hstarts, List.drop_left]

def readText (input : List Char) : Option Text := do
  let rest ← expect (fieldKeys 0) input
  let (original, rest) ← readQuoted rest
  let rest ← expect (fieldKeys 1) rest
  let (faithful, rest) ← readQuoted rest
  let rest ← expect (fieldKeys 2) rest
  let (folded, rest) ← readQuoted rest
  let rest ← expect (fieldKeys 3) rest
  let (compact, rest) ← readQuoted rest
  let rest ← expect (fieldKeys 4) rest
  let (versions, _) ← readElements rest.length rest
  return ⟨String.ofList original, String.ofList faithful, String.ofList folded,
    String.ofList compact, versions⟩

theorem readText_denotes {text : Text} (h : Denotes json text) :
    readText json = some text := by
  obtain ⟨original, faithful, folded, compact, versions, rfl, horiginal, hfaithful, hfolded,
    hcompact, hversions⟩ := h
  have hend : fieldKeys 5 = ']' :: ['\x7d'] := by decide +kernel
  have hobject : object original faithful folded compact versions =
      fieldKeys 0 ++ (quoted original ++ (fieldKeys 1 ++ (quoted faithful ++ (fieldKeys 2 ++
        (quoted folded ++ (fieldKeys 3 ++ (quoted compact ++ (fieldKeys 4 ++
          (versions ++ fieldKeys 5))))))))) := rfl
  have hfuel : versions.length < (versions ++ ']' :: ['\x7d']).length := by
    rw [List.length_append, List.length_cons]
    omega
  rw [hobject, hend, readText]
  simp only [expect_append, readQuoted_literal horiginal, readQuoted_literal hfaithful,
    readQuoted_literal hfolded, readQuoted_literal hcompact,
    readElements_elements hversions ['\x7d'] hfuel, Option.bind_eq_bind, Option.bind_some,
    String.ofList_toList]
  rfl

end Json

def plainSerde : Serde := ⟨Json.writeText, Json.readText⟩

theorem plainSerde_documented : plainSerde.Documented where
  writes _ := ⟨_, _, _, _, _, rfl, Json.literal_writeString _, Json.literal_writeString _,
    Json.literal_writeString _, Json.literal_writeString _, Json.elements_writeStrings _⟩
  reads _ _ h := Json.readText_denotes h

end Harmony.Search
