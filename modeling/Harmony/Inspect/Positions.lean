/-
# Positions and years

A position is read from a number with an optional total, and the total may also stand in a tag
of its own. However it is written, the number is between one and the largest position, and the
total is either missing or between the number and the largest position. A year is read from
the first four characters of a date.
-/

import Harmony.Inspect.IdentityValues
import Harmony.Library.Decimal
import Harmony.Library.Traversal

namespace Harmony.Inspect

open ManagedImport (Platform MediaPosition normalizeValue)

/-! ### Numerals -/

theorem isSign_of_isDigit {c : Char} (h : c.isDigit = true) : isSign c = false := by
  apply Bool.eq_false_iff.mpr
  intro hsign
  rcases of_decide_eq_true hsign with rfl | rfl
  · cases h
  · cases h

variable {text : List Char}

theorem withoutSign_of_isDigit (h : ∀ c ∈ text, c.isDigit = true) :
    withoutSign text = text := by
  cases text with
  | nil => rfl
  | cons c text =>
    have hsign := isSign_of_isDigit (h c List.mem_cons_self)
    simp [withoutSign, hsign]

theorem isNumeral_of_isDigit (hne : text ≠ []) (h : ∀ c ∈ text, c.isDigit = true) :
    isNumeral text = true := by
  rw [isNumeral, withoutSign_of_isDigit h, List.all_eq_true.mpr h]
  simpa using hne

/-- Digits alone are read as the number that they write. -/
theorem atoi_of_isDigit (hne : text ≠ []) (h : ∀ c ∈ text, c.isDigit = true)
    (hlt : Nat.ofDigitChars 10 text 0 < 2 ^ 63) :
    atoi text = some (Nat.ofDigitChars 10 text 0 : ℤ) := by
  have hhead : ∀ sign : Char, sign.isDigit = false → text.head? ≠ some sign := by
    intro sign hsign hhead
    have hdigit := h sign (List.mem_of_mem_head? hhead)
    rw [hsign] at hdigit
    cases hdigit
  rw [atoi, if_pos (isNumeral_of_isDigit hne h), Numerals.parseI64,
    if_neg (hhead '-' (by decide)), if_neg (hhead '+' (by decide)),
    Numerals.digitsValue_of_isDigit hne h, Option.bind_some, if_pos hlt]

theorem atoi_toDigits {n : ℕ} (h : n < 2 ^ 63) : atoi (Nat.toDigits 10 n) = some (n : ℤ) := by
  have hdigits : ∀ c ∈ Nat.toDigits 10 n, c.isDigit = true := fun c => Numerals.isDigit_toDigits
  have hread := atoi_of_isDigit Nat.toDigits_ne_nil hdigits
    (by rwa [Nat.ofDigitChars_ten_toDigits])
  rwa [Nat.ofDigitChars_ten_toDigits] at hread

/-- A positive number is written with digits alone, or with a plus sign before them. -/
theorem atoi_eq_some_of_pos {n : ℤ} (h : atoi text = some n) (hpos : 0 < n) :
    ∃ digits, (text = '+' :: digits ∨ text = digits) ∧ digits ≠ [] ∧
      (∀ c ∈ digits, c.isDigit = true) ∧ n = (Nat.ofDigitChars 10 digits 0 : ℤ) := by
  rw [atoi] at h
  split_ifs at h with hnumeral
  rw [Numerals.parseI64] at h
  split_ifs at h with hminus hplus
  · -- a number below zero
    obtain ⟨value, -, hvalue⟩ := Option.bind_eq_some_iff.mp h
    split_ifs at hvalue
    cases hvalue
    omega
  all_goals
    obtain ⟨value, hdigits, hvalue⟩ := Option.bind_eq_some_iff.mp h
    split_ifs at hvalue
    cases hvalue
    have hall := Numerals.digitsValue_isDigit hdigits
    rw [Numerals.digitsValue_of_isDigit hall.1 hall.2] at hdigits
    cases hdigits
  · obtain ⟨rest, rfl⟩ := List.head?_eq_some_iff.mp hplus
    exact ⟨rest, .inl rfl, hall.1, hall.2, rfl⟩
  · exact ⟨text, .inr rfl, hall.1, hall.2, rfl⟩

theorem isVisible_of_isDigit (h : ∀ c ∈ text, c.isDigit = true) :
    IsVisible text := by
  intro c hc
  have hrange := Char.isDigit_iff_toNat.mp (h c hc)
  have hlow : (48 : ℕ) ≤ c.toNat := hrange.1
  have hhigh : c.toNat ≤ 57 := hrange.2
  omega

theorem isVisible_toDigits (n : ℕ) : IsVisible (Nat.toDigits 10 n) :=
  isVisible_of_isDigit fun _ => Numerals.isDigit_toDigits

theorem trim_toDigits (n : ℕ) : Chars.trim (Nat.toDigits 10 n) = Nat.toDigits 10 n :=
  ((isVisible_toDigits n).isWord Nat.toDigits_ne_nil).isTidy.trim_eq

/-! ### Positions -/

/-- A number in range, with a total that is missing or not below it. -/
structure IsPosition (position : MediaPosition) : Prop where
  number_pos : 0 < position.number
  number_le : position.number ≤ (maxMediaPosition : ℤ)
  total : position.total = 0 ∨
    position.number ≤ position.total ∧ position.total ≤ (maxMediaPosition : ℤ)

variable {position : MediaPosition}

theorem isPosition_of_parsePosition {value : List Char} (h : parsePosition value = .ok position) :
    IsPosition position := by
  cases hparts : value.splitOn '/' with
  | nil => simp [parsePosition, hparts] at h
  | cons first rest =>
    cases hnumber : atoi (Chars.trim first) with
    | none =>
      simp only [parsePosition, hparts, hnumber] at h
      split_ifs at h
    | some number =>
      simp only [parsePosition, hparts, hnumber] at h
      split_ifs at h with hmany hrange
      rw [not_or, not_le, not_lt] at hrange
      cases rest with
      | nil =>
        cases h
        exact ⟨hrange.1, hrange.2, .inl rfl⟩
      | cons second rest =>
        cases htotal : atoi (Chars.trim second) with
        | none =>
          simp only [htotal] at h
          split_ifs at h
          cases h
          exact ⟨hrange.1, hrange.2, .inl rfl⟩
        | some total =>
          simp only [htotal] at h
          split_ifs at h with hblank hbounds
          · cases h
            exact ⟨hrange.1, hrange.2, .inl rfl⟩
          · cases h
            exact ⟨hrange.1, hrange.2, .inr hbounds⟩

theorem slash_not_mem_toDigits (n : ℕ) : ∀ c ∈ Nat.toDigits 10 n, (c == '/') = false := by
  intro c hc
  apply beq_eq_false_iff_ne.mpr
  rintro rfl
  exact absurd (Numerals.isDigit_toDigits hc) (by decide)

theorem parsePosition_number {n : ℕ} (hpos : 0 < n) (hle : n ≤ maxMediaPosition) :
    parsePosition (Nat.toDigits 10 n) = .ok ⟨n, 0⟩ := by
  have hmax : maxMediaPosition = 9999 := rfl
  have hsplit : (Nat.toDigits 10 n).splitOn '/' = [Nat.toDigits 10 n] :=
    List.splitOnP_eq_singleton (slash_not_mem_toDigits n)
  rw [parsePosition, hsplit]
  simp only [List.length_nil, Nat.not_lt_zero, if_false, trim_toDigits,
    atoi_toDigits (show n < 2 ^ 63 by omega)]
  rw [if_neg (by omega)]

theorem parsePosition_both {n t : ℕ} (hpos : 0 < n) (hle : n ≤ t) (ht : t ≤ maxMediaPosition) :
    parsePosition (Nat.toDigits 10 n ++ '/' :: Nat.toDigits 10 t) = .ok ⟨n, t⟩ := by
  have hmax : maxMediaPosition = 9999 := rfl
  have hsplit : (Nat.toDigits 10 n ++ '/' :: Nat.toDigits 10 t).splitOn '/' =
      [Nat.toDigits 10 n, Nat.toDigits 10 t] := by
    rw [List.splitOn, List.splitOnP_append_cons_of_forall_mem (slash_not_mem_toDigits n) '/' rfl,
      List.splitOnP_eq_singleton (slash_not_mem_toDigits t)]
  rw [parsePosition, hsplit]
  simp only [List.length_singleton, Nat.lt_irrefl, if_false, trim_toDigits,
    atoi_toDigits (show n < 2 ^ 63 by omega), atoi_toDigits (show t < 2 ^ 63 by omega),
    Nat.toDigits_ne_nil]
  rw [if_neg (by omega), if_pos (by omega)]

/-! ### Required tags -/

section Tags

variable {P : Platform} {tags : Tags} {key : String}

theorem requiredTags_eq_ok {values : List String} :
    requiredTags P tags key = .ok values ↔ tags.get key ≠ [] ∧
      List.Forall₂ (fun raw value => normalizeValue P raw = some value) (tags.get key) values := by
  rw [requiredTags]
  split_ifs with hempty
  · simp [hempty]
  · rw [Traversal.mapM_eq_ok_iff, and_iff_right hempty]
    apply iff_of_eq
    congr 1
    funext raw value
    cases normalizeValue P raw with
    | none => simp
    | some normal => simp

theorem requiredSingleTag_eq_ok {value : String} :
    requiredSingleTag P tags key = .ok value ↔
      ∃ raw, tags.get key = [raw] ∧ normalizeValue P raw = some value := by
  rw [requiredSingleTag, Traversal.bind_eq_ok]
  constructor
  · rintro ⟨values, hvalues, hone⟩
    have hpairs := (requiredTags_eq_ok.mp hvalues).2
    generalize tags.get key = raws at hpairs
    -- there is one value where there is one raw value
    cases hpairs with
    | nil => cases hone
    | @cons raw normal raws normals hfirst hrest =>
      cases hrest with
      | nil =>
        cases hone
        exact ⟨raw, rfl, hfirst⟩
      | cons _ _ => cases hone
  · rintro ⟨raw, hget, hnormal⟩
    refine ⟨[value], ?_, rfl⟩
    rw [requiredTags_eq_ok, hget]
    exact ⟨List.cons_ne_nil _ _, .cons hnormal .nil⟩

/-- A tag that is read has a value. -/
theorem hasValues_of_requiredSingleTag {value : String}
    (h : requiredSingleTag P tags key = .ok value) : tags.hasValues key = true := by
  obtain ⟨raw, hget, -⟩ := requiredSingleTag_eq_ok.mp h
  simp [Tags.hasValues, hget]

theorem requiredPosition_eq_ok :
    requiredPosition P tags key = .ok position ↔
      ∃ value, requiredSingleTag P tags key = .ok value ∧
        parsePosition value.toList = .ok position := by
  rw [requiredPosition, Traversal.bind_eq_ok]
  apply exists_congr
  intro value
  cases parsePosition value.toList with
  | ok parsed => simp [Except.mapError]
  | error cause => simp [Except.mapError]

theorem optionalTotal_eq_ok {total : Option ℤ} :
    optionalTotal P tags key = .ok total ↔
      tags.get key = [] ∧ total = none ∨
      ∃ value n, requiredSingleTag P tags key = .ok value ∧ atoi value.toList = some n ∧
        0 < n ∧ n ≤ (maxMediaPosition : ℤ) ∧ total = some n := by
  rw [optionalTotal]
  by_cases hvalues : tags.hasValues key = false
  · have hget : tags.get key = [] := by simpa [Tags.hasValues] using hvalues
    have hnone : ∀ value, requiredSingleTag P tags key ≠ .ok value := by
      intro value h
      rw [hasValues_of_requiredSingleTag h] at hvalues
      cases hvalues
    simp [hvalues, hget, hnone, eq_comm]
  · have hget : tags.get key ≠ [] := by
      intro hnil
      exact hvalues (by simp [Tags.hasValues, hnil])
    rw [if_neg hvalues, Traversal.bind_eq_ok]
    simp only [hget, false_and, false_or]
    apply exists_congr
    intro value
    cases hn : atoi value.toList with
    | none => simp
    | some n =>
      by_cases hrange : 0 < n ∧ n ≤ (maxMediaPosition : ℤ)
      · simp [hrange, eq_comm]
      · simp only [if_neg hrange, reduceCtorEq, and_false, false_iff, not_exists, not_and]
        rintro m - hm hpos hle -
        cases hm
        exact hrange ⟨hpos, hle⟩

theorem mergePositionTotal_eq_ok {position merged : MediaPosition} :
    mergePositionTotal P tags position key = .ok merged ↔
      optionalTotal P tags key = .ok none ∧ merged = position ∨
      ∃ n, optionalTotal P tags key = .ok (some n) ∧
        (position.total ≤ 0 ∨ position.total = n) ∧ position.number ≤ n ∧
        merged = { position with total := n } := by
  rw [mergePositionTotal, Traversal.bind_eq_ok]
  constructor
  · rintro ⟨total, htotal, hmerged⟩
    cases total with
    | none =>
      cases hmerged
      exact .inl ⟨htotal, rfl⟩
    | some n =>
      simp only at hmerged
      split_ifs at hmerged with hconflict hless
      cases hmerged
      exact .inr ⟨n, htotal, by omega, by omega, rfl⟩
  · rintro (⟨hnone, rfl⟩ | ⟨n, hsome, htotal, hle, rfl⟩)
    · exact ⟨none, hnone, rfl⟩
    · refine ⟨some n, hsome, ?_⟩
      simp only
      rw [if_neg (by omega), if_neg (by omega)]

theorem isPosition_requiredPosition (h : requiredPosition P tags key = .ok position) :
    IsPosition position := by
  obtain ⟨value, -, hparse⟩ := requiredPosition_eq_ok.mp h
  exact isPosition_of_parsePosition hparse

/-- Merged with a total of its own tag, a position keeps its number and stays in range. -/
theorem isPosition_mergePositionTotal {position merged : MediaPosition} (hp : IsPosition position)
    (h : mergePositionTotal P tags position key = .ok merged) :
    IsPosition merged ∧ merged.number = position.number := by
  rcases mergePositionTotal_eq_ok.mp h with ⟨-, rfl⟩ | ⟨n, htotal, -, hle, rfl⟩
  · exact ⟨hp, rfl⟩
  · refine ⟨⟨hp.number_pos, hp.number_le, .inr ⟨hle, ?_⟩⟩, rfl⟩
    rcases optionalTotal_eq_ok.mp htotal with ⟨-, hnone⟩ | ⟨value, m, -, -, -, hmax, hsome⟩
    · cases hnone
    · cases hsome
      exact hmax

theorem isPosition_trackPosition (h : trackPosition P tags = .ok position) :
    IsPosition position := by
  obtain ⟨first, hfirst, hmerge⟩ := Traversal.bind_eq_ok.mp h
  exact (isPosition_mergePositionTotal (isPosition_requiredPosition hfirst) hmerge).1

theorem isPosition_first : IsPosition ⟨1, 0⟩ := by
  constructor
  · decide
  · decide
  · exact .inl rfl

theorem discPosition_eq_ok :
    discPosition P tags = .ok position ↔
      ∃ first, numberedDisc P tags = .ok first ∧
        mergePositionTotal P tags first "TOTALDISCS" = .ok position ∧
        (tags.hasValues "DISCNUMBER" = false → position.total ≤ 1) := by
  rw [discPosition, Traversal.bind_eq_ok]
  apply exists_congr
  intro first
  rw [Traversal.bind_eq_ok]
  apply and_congr_right
  intro _
  constructor
  · rintro ⟨merged, hmerge, hdisc⟩
    split_ifs at hdisc with hmulti
    cases hdisc
    refine ⟨hmerge, fun hnone => ?_⟩
    by_contra hlt
    exact hmulti ⟨hnone, by omega⟩
  · rintro ⟨hmerge, htotal⟩
    refine ⟨position, hmerge, if_neg ?_⟩
    rintro ⟨hnone, hlt⟩
    have hle := htotal hnone
    omega

/-- Without a number the disc is the first, of one disc at most. -/
theorem isPosition_discPosition (h : discPosition P tags = .ok position) :
    IsPosition position ∧
      (tags.hasValues "DISCNUMBER" = false → position.number = 1 ∧ position.total ≤ 1) := by
  obtain ⟨first, hfirst, hmerge, htotal⟩ := discPosition_eq_ok.mp h
  by_cases hdisc : tags.hasValues "DISCNUMBER" = true
  · rw [numberedDisc, if_pos hdisc] at hfirst
    refine ⟨(isPosition_mergePositionTotal (isPosition_requiredPosition hfirst) hmerge).1, ?_⟩
    rw [hdisc]
    nofun
  · rw [numberedDisc, if_neg hdisc] at hfirst
    cases hfirst
    have hmerged := isPosition_mergePositionTotal isPosition_first hmerge
    exact ⟨hmerged.1, fun hnone => ⟨hmerged.2, htotal hnone⟩⟩

end Tags

/-! ### Positions spelled out -/

/-- Where the total of a position is written. -/
inductive TotalForm
  /-- After a slash behind the number. -/
  | slash
  /-- In a tag of its own. -/
  | own
  | both
  deriving DecidableEq

def numeral (n : ℤ) : List Char := Nat.toDigits 10 n.toNat

/-- The values of the tag of the number. -/
def numberValues (form : TotalForm) (position : MediaPosition) : List String :=
  [String.ofList (if position.total = 0 ∨ form = .own then numeral position.number
    else numeral position.number ++ '/' :: numeral position.total)]

/-- The values of the tag of the total. -/
def totalValues (form : TotalForm) (position : MediaPosition) : List String :=
  if position.total = 0 ∨ form = .slash then [] else [String.ofList (numeral position.total)]

section Spelled

variable {P : Platform} {tags : Tags} {form : TotalForm} {position : MediaPosition}

theorem length_toDigits_le {n : ℕ} (h : n ≤ maxMediaPosition) :
    (Nat.toDigits 10 n).length ≤ 4 := by
  have hmax : maxMediaPosition = 9999 := rfl
  rw [Nat.length_toDigits_le_iff (by decide) (by decide)]
  omega

theorem IsPosition.toNat (h : IsPosition position) :
    0 < position.number.toNat ∧ position.number.toNat ≤ maxMediaPosition ∧
      ((position.number.toNat : ℕ) : ℤ) = position.number ∧
      ((position.total.toNat : ℕ) : ℤ) = position.total ∧
      (position.total = 0 ∨ position.number.toNat ≤ position.total.toNat ∧
        position.total.toNat ≤ maxMediaPosition) := by
  have hpos := h.number_pos
  have hle := h.number_le
  have htotal := h.total
  omega

theorem normalizeValue_numeral (hP : IsNormalForm P) {n : ℕ} (h : n ≤ maxMediaPosition) :
    normalizeValue P (String.ofList (Nat.toDigits 10 n)) =
      some (String.ofList (Nat.toDigits 10 n)) := by
  have hlength := length_toDigits_le h
  have hmax : ManagedImport.maxIdentityValueBytes = 200 := rfl
  exact hP.normalizeValue_visible (isVisible_toDigits n) Nat.toDigits_ne_nil (by omega)

theorem normalizeValue_both (hP : IsNormalForm P) {n t : ℕ} (h : n ≤ maxMediaPosition)
    (ht : t ≤ maxMediaPosition) :
    normalizeValue P (String.ofList (Nat.toDigits 10 n ++ '/' :: Nat.toDigits 10 t)) =
      some (String.ofList (Nat.toDigits 10 n ++ '/' :: Nat.toDigits 10 t)) := by
  have hlength := length_toDigits_le h
  have hlength' := length_toDigits_le ht
  have hmax : ManagedImport.maxIdentityValueBytes = 200 := rfl
  apply hP.normalizeValue_visible
  · intro c hc
    rcases List.mem_append.mp hc with hfront | hback
    · exact isVisible_toDigits n c hfront
    · rcases List.mem_cons.mp hback with rfl | hrest
      · decide
      · exact isVisible_toDigits t c hrest
  · exact List.append_ne_nil_of_left_ne_nil Nat.toDigits_ne_nil _
  · rw [List.length_append, List.length_cons]
    omega

/-- What the number's tag says is read as the number, with the total where it stands there. -/
theorem requiredPosition_spelled (hP : IsNormalForm P) (h : IsPosition position) {key : String}
    (hget : tags.get key = numberValues form position) :
    requiredPosition P tags key =
      .ok ⟨position.number, if form = .own then 0 else position.total⟩ := by
  obtain ⟨hpos, hmax, hnumber, htotal, hrange⟩ := h.toNat
  rw [requiredPosition_eq_ok]
  simp only [requiredSingleTag_eq_ok, hget, numberValues, List.cons.injEq, and_true]
  by_cases hplain : position.total = 0 ∨ form = .own
  · have hparse := parsePosition_number hpos hmax
    have hzero : (if form = .own then 0 else position.total) = 0 := by
      rcases hplain with hzero | hown
      · simp [hzero]
      · simp [hown]
    rw [hnumber] at hparse
    simp only [hplain, if_true]
    exact ⟨_, ⟨_, rfl, normalizeValue_numeral hP hmax⟩, by
      rw [String.toList_ofList, hparse, hzero]⟩
  · rw [not_or] at hplain
    obtain ⟨hle, htmax⟩ := hrange.resolve_left hplain.1
    have hparse := parsePosition_both hpos hle htmax
    rw [hnumber, htotal] at hparse
    simp only [hplain, or_self, if_false]
    exact ⟨_, ⟨_, rfl, normalizeValue_both hP hmax htmax⟩, by
      rw [String.toList_ofList, ← hparse]⟩

theorem optionalTotal_spelled (hP : IsNormalForm P) (h : IsPosition position) {key : String}
    (hget : tags.get key = totalValues form position) :
    optionalTotal P tags key =
      .ok (if position.total = 0 ∨ form = .slash then none else some position.total) := by
  obtain ⟨hpos, -, -, htotal, hrange⟩ := h.toNat
  rw [optionalTotal_eq_ok, hget, totalValues]
  by_cases hnone : position.total = 0 ∨ form = .slash
  · rw [if_pos hnone, if_pos hnone]
    exact .inl ⟨rfl, rfl⟩
  · rw [if_neg hnone, if_neg hnone]
    obtain ⟨hle, htmax⟩ := hrange.resolve_left (not_or.mp hnone).1
    have hmax : maxMediaPosition = 9999 := rfl
    refine .inr ⟨String.ofList (numeral position.total), position.total, ?_, ?_, ?_, ?_, rfl⟩
    · rw [requiredSingleTag_eq_ok]
      refine ⟨_, ?_, normalizeValue_numeral hP htmax⟩
      rw [hget, totalValues, if_neg hnone]
      rfl
    · rw [String.toList_ofList, numeral, atoi_toDigits (by omega), htotal]
    · omega
    · omega

theorem mergePositionTotal_spelled (hP : IsNormalForm P) (h : IsPosition position) {key : String}
    (hget : tags.get key = totalValues form position) :
    mergePositionTotal P tags ⟨position.number, if form = .own then 0 else position.total⟩ key =
      .ok position := by
  rw [mergePositionTotal_eq_ok, optionalTotal_spelled hP h hget]
  by_cases hnone : position.total = 0 ∨ form = .slash
  · rw [if_pos hnone]
    refine .inl ⟨rfl, ?_⟩
    rcases hnone with hzero | rfl
    · cases position
      simp only at hzero
      simp [hzero]
    · rfl
  · rw [if_neg hnone]
    have hle := h.total.resolve_left (not_or.mp hnone).1
    refine .inr ⟨position.total, rfl, ?_, hle.1, rfl⟩
    by_cases hown : form = .own
    · exact .inl (by simp [hown])
    · exact .inr (by simp [hown])

theorem trackPosition_spelled (hP : IsNormalForm P) (h : IsPosition position)
    (hnumber : tags.get "TRACKNUMBER" = numberValues form position)
    (htotal : tags.get "TOTALTRACKS" = totalValues form position) :
    trackPosition P tags = .ok position := by
  rw [trackPosition, requiredPosition_spelled hP h hnumber]
  exact mergePositionTotal_spelled hP h htotal

theorem discPosition_spelled (hP : IsNormalForm P) (h : IsPosition position)
    (hnumber : tags.get "DISCNUMBER" = numberValues form position)
    (htotal : tags.get "TOTALDISCS" = totalValues form position) :
    discPosition P tags = .ok position := by
  have hvalues : tags.hasValues "DISCNUMBER" = true := by
    rw [Tags.hasValues, hnumber]
    rfl
  rw [discPosition_eq_ok, numberedDisc, if_pos hvalues, requiredPosition_spelled hP h hnumber]
  refine ⟨_, rfl, mergePositionTotal_spelled hP h htotal, ?_⟩
  rw [hvalues]
  nofun

/-- Without a number, the first disc has its total in the tag of its own. -/
theorem discPosition_unnumbered (hP : IsNormalForm P) (h : IsPosition position)
    (hone : position.number = 1) (hsingle : position.total ≤ 1)
    (hnumber : tags.get "DISCNUMBER" = [])
    (htotal : tags.get "TOTALDISCS" = totalValues .own position) :
    discPosition P tags = .ok position := by
  have hvalues : ¬tags.hasValues "DISCNUMBER" = true := by simp [Tags.hasValues, hnumber]
  have hmerge := mergePositionTotal_spelled hP h htotal
  rw [hone] at hmerge
  rw [discPosition_eq_ok, numberedDisc, if_neg hvalues]
  exact ⟨_, rfl, hmerge, fun _ => hsingle⟩

end Spelled

end Harmony.Inspect
