/-
# Times

How the server writes a time for a client and for the database, and how it rewrites the
times that the database holds. An instant is a number of nanoseconds since 1970. A text is
rewritten into nothing where the program would end at a character that it cuts in two.
-/

import Harmony.GoJson.Civil
import Harmony.Library.Chars
import Harmony.Library.Decimal

namespace Harmony.GoJson

open Decimal (padded trimEnd)

/-- The nanoseconds since 1970, in UTC. -/
abbrev SystemTime := ℤ

/-! ### Texts -/

/-- The whole seconds, and the nanoseconds behind them. -/
def splitTime (time : SystemTime) : ℤ × ℕ :=
  if 0 ≤ time then (time / 1000000000, (time % 1000000000).toNat)
  else
    let before := -time
    let nanos := (before % 1000000000).toNat
    if nanos = 0 then (-(before / 1000000000), 0)
    else (-(before / 1000000000) - 1, 1000000000 - nanos)

def fraction (nanos : ℕ) : List Char :=
  if nanos = 0 then [] else trimEnd (· = '0') ('.' :: padded 9 nanos)

/-- A year is written with its sign where it has one, which counts as a digit. -/
def yearText (year : ℤ) : List Char :=
  if year < 0 then '-' :: padded 3 year.natAbs else padded 4 year.natAbs

/-- The date and the time of day, up to the second. -/
def stamp (separator : Char) (time : Civil) : List Char :=
  yearText time.date.year ++ ('-' :: (padded 2 time.date.month ++ ('-' :: (padded 2 time.date.day ++
    (separator :: (padded 2 time.hour ++ (':' :: (padded 2 time.minute ++
      (':' :: padded 2 time.second)))))))))

def rfc3339Nano (time : SystemTime) : List Char :=
  stamp 'T' (civil (splitTime time).1) ++ (fraction (splitTime time).2 ++ ['Z'])

def sqliteTime (time : SystemTime) : List Char :=
  stamp ' ' (civil (splitTime time).1) ++ (fraction (splitTime time).2 ++ "+00:00".toList)

/-! ### Stored texts -/

/-- What is before the last sign, and what begins with it. -/
def lastSign : List Char → Option (List Char × List Char)
  | [] => none
  | c :: rest =>
    match lastSign rest with
    | some (front, offset) => some (c :: front, offset)
    | none => if c = '+' ∨ c = '-' then some ([], c :: rest) else none

def utf8Length (text : List Char) : ℕ := (text.map Char.utf8Size).sum

/-- An offset such as `-0500` gets its colon. -/
def withColon (offset : List Char) : Option (List Char) :=
  if utf8Length offset = 5 ∧ ':' ∉ offset then
    (Chars.dropBytes 3 offset).map fun minutes =>
      offset.take (offset.length - minutes.length) ++ ':' :: minutes
  else some offset

/-- A numeric offset stands after the time. -/
def splitZone (value : List Char) : Option (List Char × List Char) :=
  if value.getLast? = some 'Z' then some (value.dropLast, ['Z'])
  else
    match lastSign value with
    | none => some (value, ['Z'])
    | some (front, offset) =>
      if 10 < utf8Length front then
        (withColon offset).map fun offset =>
          (trimEnd Chars.isWhitespace front, if offset = "+00:00".toList then ['Z'] else offset)
      else some (value, ['Z'])

/-- The fraction loses its last zeros, and its point where nothing is left of it. -/
def trimFraction (dateTime : List Char) : List Char :=
  match Chars.splitOnce ['.'] dateTime with
  | some (whole, fraction) =>
    let fraction := trimEnd (· = '0') fraction
    if fraction = [] then whole else whole ++ '.' :: fraction
  | none => dateTime

def time (stored : List Char) : Option (List Char) :=
  (splitZone (Chars.trim stored)).map fun (dateTime, zone) =>
    trimFraction (dateTime.replace ' ' 'T') ++ zone

def sqliteTimeFromStored (stored : List Char) : Option (List Char) :=
  (splitZone (Chars.trim stored)).map fun (dateTime, zone) =>
    (trimFraction dateTime).replace 'T' ' ' ++ if zone = ['Z'] then "+00:00".toList else zone

/-! ### Instants -/

theorem splitTime_eq (time : SystemTime) :
    splitTime time = (time / 1000000000, (time % 1000000000).toNat) := by
  rw [splitTime]
  split_ifs with hafter
  · rfl
  · dsimp only
    split_ifs with hwhole
    · rw [Prod.mk.injEq]
      omega
    · rw [Prod.mk.injEq]
      omega

/-- The time of day, as one number. -/
theorem civil_secondOfDay (seconds : ℤ) :
    ((civil seconds).hour * 3600 + (civil seconds).minute * 60 + (civil seconds).second : ℕ) =
      seconds % 86400 ∧
    (civil seconds).hour < 24 ∧ (civil seconds).minute < 60 ∧ (civil seconds).second < 60 := by
  simp only [civil]
  omega

/-- The years that are written with four digits. -/
def InYears (time : SystemTime) : Prop :=
  0 ≤ (civil (splitTime time).1).date.year ∧ (civil (splitTime time).1).date.year ≤ 9999

/-- What is written with as many digits as there is place for. -/
structure Fits (time : Civil) : Prop where
  year : 0 ≤ time.date.year ∧ time.date.year ≤ 9999
  month : time.date.month < 100
  day : time.date.day < 100
  hour : time.hour < 100
  minute : time.minute < 100
  second : time.second < 100

theorem fits_civil {seconds : ℤ} (h : 0 ≤ (civil seconds).date.year ∧
    (civil seconds).date.year ≤ 9999) : Fits (civil seconds) := by
  obtain ⟨-, hhour, hminute, hsecond⟩ := civil_secondOfDay seconds
  obtain ⟨hmonth, hday⟩ := civilDate_isValid (seconds / 86400)
  have hdays : ∀ year month, Calendar.daysInMonth year month ≤ 31 := by
    intro year month
    rw [Calendar.daysInMonth.eq_def]
    split
    · split_ifs <;> omega
    all_goals omega
  have hlast := hdays (civilDate (seconds / 86400)).year (civilDate (seconds / 86400)).month
  refine ⟨h, ?_, ?_, ?_, ?_, ?_⟩
  · change (civilDate (seconds / 86400)).month < 100
    omega
  · change (civilDate (seconds / 86400)).day < 100
    omega
  all_goals omega

/-- The digits of a time that fits. -/
theorem Fits.stamp_eq {time : Civil} (h : Fits time) (separator : Char) :
    stamp separator time = Decimal.digits 4 time.date.year.natAbs ++
      ('-' :: (Decimal.digits 2 time.date.month ++ ('-' :: (Decimal.digits 2 time.date.day ++
        (separator :: (Decimal.digits 2 time.hour ++ (':' :: (Decimal.digits 2 time.minute ++
          (':' :: Decimal.digits 2 time.second))))))))) := by
  obtain ⟨hyear, hmonth, hday, hhour, hminute, hsecond⟩ := h
  rw [stamp, yearText, if_neg (by omega)]
  rw [Decimal.padded_eq_digits (by omega) (by omega : time.date.year.natAbs < 10 ^ 4),
    Decimal.padded_eq_digits (by omega) (by omega : time.date.month < 10 ^ 2),
    Decimal.padded_eq_digits (by omega) (by omega : time.date.day < 10 ^ 2),
    Decimal.padded_eq_digits (by omega) (by omega : time.hour < 10 ^ 2),
    Decimal.padded_eq_digits (by omega) (by omega : time.minute < 10 ^ 2),
    Decimal.padded_eq_digits (by omega) (by omega : time.second < 10 ^ 2)]

theorem Fits.length_stamp {time : Civil} (h : Fits time) (separator : Char) :
    (stamp separator time).length = 19 := by
  rw [h.stamp_eq]
  simp

/-! ### The order of stamps -/

/-- Two times compare by their dates, and on one day by the time of day. -/
def Civil.Before (time time' : Civil) : Prop :=
  time.date < time'.date ∨ time.date = time'.date ∧ (time.hour < time'.hour ∨
    time.hour = time'.hour ∧ (time.minute < time'.minute ∨
      time.minute = time'.minute ∧ time.second < time'.second))

theorem digits_step {width n m : ℕ} (hn : n < 10 ^ width) (hm : m < 10 ^ width) (c : Char)
    (rest rest' : List Char) :
    Decimal.digits width n ++ c :: rest < Decimal.digits width m ++ c :: rest' ↔
      n < m ∨ n = m ∧ rest < rest' := by
  rw [Decimal.append_lt_append_iff (by simp), Decimal.digits_lt_digits hn hm,
    List.cons_lt_cons_iff]
  constructor
  · rintro (hlt | ⟨heq, hlt | ⟨-, hrest⟩⟩)
    · exact .inl hlt
    · exact absurd hlt (lt_irrefl c)
    · exact .inr ⟨Decimal.digits_inj hn hm heq, hrest⟩
  · rintro (hlt | ⟨rfl, hrest⟩)
    · exact .inl hlt
    · exact .inr ⟨rfl, .inr ⟨rfl, hrest⟩⟩

theorem stamp_lt_stamp {time time' : Civil} (h : Fits time) (h' : Fits time') (separator : Char) :
    stamp separator time < stamp separator time' ↔ time.Before time' := by
  rw [h.stamp_eq, h'.stamp_eq]
  obtain ⟨hyear, hmonth, hday, hhour, hminute, hsecond⟩ := h
  obtain ⟨hyear', hmonth', hday', hhour', hminute', hsecond'⟩ := h'
  rw [digits_step (by omega) (by omega), digits_step hmonth hmonth', digits_step hday hday',
    digits_step hhour hhour', digits_step hminute hminute',
    Decimal.digits_lt_digits hsecond hsecond', Civil.Before, Calendar.Date.lt_iff]
  obtain ⟨⟨year, month, day⟩, hour, minute, second⟩ := time
  obtain ⟨⟨year', month', day'⟩, hour', minute', second'⟩ := time'
  simp only [Calendar.Date.mk.injEq] at *
  omega

theorem civil_before {seconds seconds' : ℤ} :
    (civil seconds).Before (civil seconds') ↔ seconds < seconds' := by
  have hdate : (civil seconds).date < (civil seconds').date ↔ seconds / 86400 < seconds' / 86400 :=
    civilDate_strictMono.lt_iff_lt
  have hsame : (civil seconds).date = (civil seconds').date ↔ seconds / 86400 = seconds' / 86400 :=
    civilDate_strictMono.injective.eq_iff
  obtain ⟨htime, hhour, hminute, hsecond⟩ := civil_secondOfDay seconds
  obtain ⟨htime', hhour', hminute', hsecond'⟩ := civil_secondOfDay seconds'
  rw [Civil.Before, hdate, hsame]
  omega

/-! ### The order of fractions -/

theorem zero_le_of_mem_digits {width n : ℕ} {c : Char} (h : c ∈ Decimal.digits width n) :
    '0' ≤ c := by
  have hdigit := Decimal.isDigit_of_mem_digits h
  rw [Decimal.isDigit, Bool.and_eq_true, decide_eq_true_eq] at hdigit
  exact hdigit.1

theorem fraction_eq {nanos : ℕ} (hne : nanos ≠ 0) (h : nanos < 1000000000) :
    fraction nanos = '.' :: trimEnd (· = '0') (Decimal.digits 9 nanos) := by
  rw [fraction, if_neg hne, Decimal.padded_eq_digits (by omega) h]
  exact Decimal.trimEnd_cons_of_ne (.inl (by decide))

theorem fraction_append_lt_of_lt {nanos nanos' : ℕ} (h : nanos' < 1000000000)
    (hlt : nanos < nanos') :
    fraction nanos ++ "+00:00".toList < fraction nanos' ++ "+00:00".toList := by
  have hzone : "+00:00".toList = '+' :: "00:00".toList := rfl
  rw [hzone, fraction_eq (Nat.ne_zero_of_lt hlt) h]
  by_cases hzero : nanos = 0
  · -- no fraction, and the zone's sign is before the point
    rw [fraction, if_pos hzero]
    exact List.cons_lt_cons_iff.mpr (.inl (by decide))
  · rw [fraction_eq hzero (hlt.trans h)]
    refine List.cons_lt_cons_iff.mpr (.inr ⟨rfl, ?_⟩)
    apply Decimal.trimEnd_append_lt (by decide) (by simp)
    · exact fun c hc => zero_le_of_mem_digits hc
    · exact fun c hc => zero_le_of_mem_digits hc
    · exact (Decimal.digits_lt_digits (hlt.trans h) h).mpr hlt

theorem fraction_append_lt {nanos nanos' : ℕ} (h : nanos < 1000000000)
    (h' : nanos' < 1000000000) :
    fraction nanos ++ "+00:00".toList < fraction nanos' ++ "+00:00".toList ↔ nanos < nanos' := by
  refine ⟨fun hlt => ?_, fraction_append_lt_of_lt h'⟩
  rcases Nat.lt_trichotomy nanos nanos' with hbefore | rfl | hafter
  · exact hbefore
  · exact absurd hlt (List.lt_irrefl _)
  · exact absurd (fraction_append_lt_of_lt h hafter) (List.lt_asymm hlt)

/-- The texts of two times compare as the times do. -/
theorem sqliteTime_lt_sqliteTime {time time' : SystemTime} (h : InYears time)
    (h' : InYears time') : sqliteTime time < sqliteTime time' ↔ time < time' := by
  have hfits := fits_civil h
  have hfits' := fits_civil h'
  have hsame : stamp ' ' (civil (splitTime time).1) = stamp ' ' (civil (splitTime time').1) ↔
      (splitTime time).1 = (splitTime time').1 := by
    refine ⟨fun heq => ?_, fun heq => by rw [heq]⟩
    rcases lt_trichotomy (splitTime time).1 (splitTime time').1 with hlt | hsame | hlt
    · have hstamp := (stamp_lt_stamp hfits hfits' ' ').mpr (civil_before.mpr hlt)
      exact absurd hstamp (heq ▸ List.lt_irrefl _)
    · exact hsame
    · have hstamp := (stamp_lt_stamp hfits' hfits ' ').mpr (civil_before.mpr hlt)
      exact absurd hstamp (heq ▸ List.lt_irrefl _)
  have hlength : (stamp ' ' (civil (splitTime time).1)).length =
      (stamp ' ' (civil (splitTime time').1)).length := by
    rw [hfits.length_stamp, hfits'.length_stamp]
  have hnanos : ∀ time : SystemTime, (splitTime time).2 < 1000000000 := by
    intro time
    rw [splitTime_eq]
    dsimp only
    omega
  rw [sqliteTime, sqliteTime, Decimal.append_lt_append_iff hlength, hsame,
    stamp_lt_stamp hfits hfits', civil_before, fraction_append_lt (hnanos time) (hnanos time'),
    splitTime_eq, splitTime_eq]
  change _ ↔ @LT.lt ℤ _ time time'
  dsimp only
  omega

/-! ### Times that are rewritten -/

/-- The parts of the text of a time: the date, the time of day with its fraction. -/
structure Parts where
  date : List Char
  clock : List Char
  fraction : List Char

/-- The text up to the zone. -/
def Parts.text (parts : Parts) (separator : Char) : List Char :=
  parts.date ++ separator :: (parts.clock ++ parts.fraction)

/-- A digit, a hyphen or a colon. -/
def isPlain (c : Char) : Bool := Decimal.isDigit c || c = '-' || c = ':'

structure Parts.Regular (parts : Parts) : Prop where
  length : parts.date.length = 10
  date : ∀ c ∈ parts.date, isPlain c = true
  clock : ∀ c ∈ parts.clock, Decimal.isDigit c = true ∨ c = ':'
  clock_ne : parts.clock ≠ []
  fraction : parts.fraction = [] ∨ ∃ digits, parts.fraction = '.' :: digits ∧ digits ≠ [] ∧
    trimEnd (· = '0') digits = digits ∧ ∀ c ∈ digits, Decimal.isDigit c = true

theorem isPlain_of_isDigit {c : Char} (h : Decimal.isDigit c = true) : isPlain c = true := by
  rw [isPlain, h]
  rfl

/-- What is plain is none of the characters that the rewriting looks for. -/
theorem ne_of_isPlain {c d : Char} (h : isPlain c = true) (hd : isPlain d = false) : c ≠ d := by
  rintro rfl
  rw [h] at hd
  cases hd

theorem isWhitespace_of_isDigit {c : Char} (h : Decimal.isDigit c = true) :
    Chars.isWhitespace c = false := by
  rw [Decimal.isDigit, Bool.and_eq_true, decide_eq_true_eq, decide_eq_true_eq] at h
  have hlow : '0'.toNat ≤ c.toNat := h.1
  have hhigh : c.toNat ≤ '9'.toNat := h.2
  have hzero : '0'.toNat = 48 := rfl
  have hnine : '9'.toNat = 57 := rfl
  simp only [Chars.isWhitespace, Bool.or_eq_false_iff, Bool.and_eq_false_iff,
    decide_eq_false_iff_not,
    beq_eq_false_iff_ne]
  omega

section Parts

variable {parts : Parts} {c : Char} {separator : Char}

theorem Parts.Regular.fraction_plain (h : parts.Regular) (hc : c ∈ parts.fraction) :
    Decimal.isDigit c = true ∨ c = '.' := by
  rcases h.fraction with hnil | ⟨digits, heq, -, -, hdigits⟩
  · rw [hnil] at hc
    cases hc
  · rw [heq, List.mem_cons] at hc
    exact hc.symm.imp_left (hdigits c)

theorem Parts.Regular.mem_text (h : parts.Regular) (hc : c ∈ parts.text separator) :
    isPlain c = true ∨ c = separator ∨ c = '.' := by
  rw [Parts.text, List.mem_append, List.mem_cons, List.mem_append] at hc
  rcases hc with hdate | rfl | hclock | hfraction
  · exact .inl (h.date c hdate)
  · exact .inr (.inl rfl)
  · refine .inl ?_
    rcases h.clock c hclock with hdigit | rfl
    · exact isPlain_of_isDigit hdigit
    · rfl
  · exact (h.fraction_plain hfraction).imp isPlain_of_isDigit .inr

/-- The last character is of the time of day, or of the fraction. -/
theorem Parts.Regular.getLast (h : parts.Regular) (hc : (parts.text separator).getLast? = some c) :
    Decimal.isDigit c = true ∨ c = ':' ∨ c = '.' := by
  have hne : parts.clock ++ parts.fraction ≠ [] := by
    intro hnil
    exact h.clock_ne (List.append_eq_nil_iff.mp hnil).1
  have htext : parts.text separator =
      (parts.date ++ [separator]) ++ (parts.clock ++ parts.fraction) := by
    rw [List.append_assoc]
    rfl
  rw [htext, List.getLast?_append_of_ne_nil _ hne] at hc
  rcases List.mem_append.mp (List.mem_of_getLast? hc) with hclock | hfraction
  · exact (h.clock c hclock).imp_right .inl
  · exact (h.fraction_plain hfraction).imp_right .inr

theorem Parts.Regular.trimEnd_text (h : parts.Regular) :
    trimEnd Chars.isWhitespace (parts.text separator) = parts.text separator := by
  refine Decimal.trimEnd_of_getLast fun c hc => ?_
  rcases h.getLast hc with hdigit | rfl | rfl
  · exact isWhitespace_of_isDigit hdigit
  · decide
  · decide

/-- A zone after the text leaves it untrimmed. -/
theorem Parts.Regular.trim_text (h : parts.Regular) {zone : List Char} {last : Char}
    (hlast : zone.getLast? = some last) (hplain : Chars.isWhitespace last = false) :
    Chars.trim (parts.text separator ++ zone) = parts.text separator ++ zone := by
  have hzone : zone ≠ [] := by
    rintro rfl
    cases hlast
  refine Chars.trim_eq_self (fun c hc => ?_) fun c hc => ?_
  · obtain ⟨d, date, hdate⟩ :=
      List.exists_cons_of_length_pos (h.length ▸ (by omega) : 0 < parts.date.length)
    rw [Parts.text, hdate] at hc
    obtain rfl := Option.some.inj hc
    have hd := h.date d (hdate ▸ List.mem_cons_self)
    rw [isPlain, Bool.or_eq_true, Bool.or_eq_true, decide_eq_true_eq, decide_eq_true_eq] at hd
    rcases hd with (hdigit | rfl) | rfl
    · exact isWhitespace_of_isDigit hdigit
    · decide
    · decide
  · rw [List.getLast?_append_of_ne_nil _ hzone, hlast] at hc
    cases hc
    exact hplain

/-- The fraction is as it should be already. -/
theorem Parts.Regular.trimFraction_text (h : parts.Regular) (hseparator : separator ≠ '.') :
    trimFraction (parts.text separator) = parts.text separator := by
  have hfront : '.' ∉ parts.date ++ separator :: parts.clock := by
    intro hmem
    rw [List.mem_append, List.mem_cons] at hmem
    rcases hmem with hdate | heq | hclock
    · exact ne_of_isPlain (h.date _ hdate) rfl rfl
    · exact hseparator heq.symm
    · rcases h.clock _ hclock with hdigit | hcolon
      · exact absurd hdigit (by decide)
      · exact absurd hcolon (by decide)
  have htext : parts.text separator = (parts.date ++ separator :: parts.clock) ++
    parts.fraction := by
    rw [Parts.text, List.append_assoc, List.cons_append]
  rw [htext, trimFraction]
  rcases h.fraction with hnil | ⟨digits, heq, hne, htrim, -⟩
  · rw [hnil, List.append_nil, Chars.splitOnce_eq_none hfront]
  · rw [heq, Chars.splitOnce_append hfront]
    dsimp only
    rw [htrim, if_neg hne]

theorem lastSign_append {front rest : List Char} (h : ∀ c ∈ rest, c ≠ '+' ∧ c ≠ '-') :
    lastSign (front ++ '+' :: rest) = some (front, '+' :: rest) := by
  have hnone : lastSign rest = none := by
    induction rest with
    | nil => rfl
    | cons c rest ih =>
      obtain ⟨hplus, hminus⟩ := h c List.mem_cons_self
      rw [lastSign, ih fun d hd => h d (List.mem_cons_of_mem _ hd)]
      simp [hplus, hminus]
  induction front with
  | nil =>
    rw [List.nil_append, lastSign, hnone]
    rfl
  | cons c front ih =>
    rw [List.cons_append, lastSign, ih]

theorem length_le_utf8Length (text : List Char) : text.length ≤ utf8Length text := by
  induction text with
  | nil => exact le_refl 0
  | cons c text ih =>
    have hsize := Char.utf8Size_pos c
    rw [utf8Length] at ih ⊢
    rw [List.map_cons, List.sum_cons, List.length_cons]
    omega

theorem Parts.Regular.splitZone_offset (h : parts.Regular) :
    splitZone (parts.text separator ++ "+00:00".toList) = some (parts.text separator, ['Z']) := by
  have hzone : "+00:00".toList = '+' :: "00:00".toList := rfl
  have hlast : (parts.text separator ++ "+00:00".toList).getLast? = some '0' := by
    rw [List.getLast?_append_of_ne_nil _ (by decide)]
    rfl
  have hlong : 10 < utf8Length (parts.text separator) := by
    have hlength : 10 < (parts.text separator).length := by
      rw [Parts.text, List.length_append, List.length_cons, h.length]
      omega
    exact lt_of_lt_of_le hlength (length_le_utf8Length _)
  have hsign : lastSign (parts.text separator ++ '+' :: "00:00".toList) =
      some (parts.text separator, '+' :: "00:00".toList) := lastSign_append (by simp)
  rw [splitZone, hlast, if_neg (by decide), hzone, hsign]
  dsimp only
  rw [if_pos hlong, ← hzone, h.trimEnd_text]
  rfl

theorem Parts.Regular.splitZone_utc (parts : Parts) :
    splitZone (parts.text separator ++ ['Z']) = some (parts.text separator, ['Z']) := by
  rw [splitZone, if_pos List.getLast?_concat, List.dropLast_concat]

theorem Parts.Regular.replace_text (h : parts.Regular) {c c' : Char} (hplain : isPlain c = false)
    (hpoint : c ≠ '.') : (parts.text separator).replace c c' =
      parts.text (if separator = c then c' else separator) := by
  have hdate : ¬c ∈ parts.date := fun hmem => ne_of_isPlain (h.date c hmem) hplain rfl
  by_cases hseparator : separator = c
  · rw [if_pos hseparator, Parts.text, List.replace_append_right hdate, hseparator,
      List.replace_cons_self]
    rfl
  · rw [if_neg hseparator]
    refine List.replace_of_not_mem fun hmem => ?_
    rcases h.mem_text hmem with hbad | heq | heq
    · exact ne_of_isPlain hbad hplain rfl
    · exact hseparator heq.symm
    · exact hpoint heq

end Parts

/-- The parts of the texts of a time. -/
theorem exists_parts {time : SystemTime} (h : InYears time) : ∃ parts : Parts, parts.Regular ∧
    rfc3339Nano time = parts.text 'T' ++ ['Z'] ∧
    sqliteTime time = parts.text ' ' ++ "+00:00".toList := by
  have hfits := fits_civil h
  have hnanos : (splitTime time).2 < 1000000000 := by
    rw [splitTime_eq]
    dsimp only
    omega
  obtain ⟨parsed, hparsed⟩ : ∃ parsed, parsed = civil (splitTime time).1 := ⟨_, rfl⟩
  rw [← hparsed] at hfits
  refine ⟨⟨Decimal.digits 4 parsed.date.year.natAbs ++ ('-' ::
    (Decimal.digits 2 parsed.date.month ++
      ('-' :: Decimal.digits 2 parsed.date.day))),
    Decimal.digits 2 parsed.hour ++ (':' :: (Decimal.digits 2 parsed.minute ++
      (':' :: Decimal.digits 2 parsed.second))), fraction (splitTime time).2⟩, ?_, ?_, ?_⟩
  · refine ⟨by simp, fun c hc => ?_, fun c hc => ?_, by simp, ?_⟩
    · simp only [List.mem_append, List.mem_cons] at hc
      rcases hc with hdigit | rfl | hdigit | rfl | hdigit
      · exact isPlain_of_isDigit (Decimal.isDigit_of_mem_digits hdigit)
      · rfl
      · exact isPlain_of_isDigit (Decimal.isDigit_of_mem_digits hdigit)
      · rfl
      · exact isPlain_of_isDigit (Decimal.isDigit_of_mem_digits hdigit)
    · simp only [List.mem_append, List.mem_cons] at hc
      rcases hc with hdigit | rfl | hdigit | rfl | hdigit
      · exact .inl (Decimal.isDigit_of_mem_digits hdigit)
      · exact .inr rfl
      · exact .inl (Decimal.isDigit_of_mem_digits hdigit)
      · exact .inr rfl
      · exact .inl (Decimal.isDigit_of_mem_digits hdigit)
    · by_cases hzero : (splitTime time).2 = 0
      · exact .inl (by rw [fraction, if_pos hzero])
      · refine .inr ⟨_, fraction_eq hzero hnanos, ?_, ?_, fun c hc => ?_⟩
        · exact Decimal.trimEnd_digits_ne_nil hnanos hzero
        · exact Decimal.trimEnd_of_getLast fun c hc => Decimal.getLast_trimEnd hc
        · exact Decimal.isDigit_of_mem_digits (Decimal.mem_of_mem_trimEnd hc)
  · rw [rfc3339Nano, ← hparsed, hfits.stamp_eq]
    simp [Parts.text]
  · rw [sqliteTime, ← hparsed, hfits.stamp_eq]
    simp [Parts.text]

/-- Stored times are rewritten into each other. -/
theorem rewritten {time : SystemTime} (h : InYears time) :
    GoJson.time (sqliteTime time) = some (rfc3339Nano time) ∧
      GoJson.time (rfc3339Nano time) = some (rfc3339Nano time) ∧
      sqliteTimeFromStored (sqliteTime time) = some (sqliteTime time) ∧
      sqliteTimeFromStored (rfc3339Nano time) = some (sqliteTime time) := by
  obtain ⟨parts, hregular, hrfc, hsqlite⟩ := exists_parts h
  have htrimUtc : Chars.trim (parts.text 'T' ++ ['Z']) = parts.text 'T' ++ ['Z'] :=
    hregular.trim_text rfl (by decide : Chars.isWhitespace 'Z' = false)
  have htrimOffset : Chars.trim (parts.text ' ' ++ "+00:00".toList) =
      parts.text ' ' ++ "+00:00".toList :=
    hregular.trim_text rfl (by decide : Chars.isWhitespace '0' = false)
  have hspace : ∀ separator, (parts.text separator).replace ' ' 'T' =
      parts.text (if separator = ' ' then 'T' else separator) :=
    fun _ => hregular.replace_text rfl (by decide)
  have hletter : ∀ separator, (parts.text separator).replace 'T' ' ' =
      parts.text (if separator = 'T' then ' ' else separator) :=
    fun _ => hregular.replace_text rfl (by decide)
  have hT : trimFraction (parts.text 'T') = parts.text 'T' := hregular.trimFraction_text (by decide)
  have hS : trimFraction (parts.text ' ') = parts.text ' ' := hregular.trimFraction_text (by decide)
  refine ⟨?_, ?_, ?_, ?_⟩
  · rw [hsqlite, hrfc, GoJson.time, htrimOffset, hregular.splitZone_offset, Option.map_some]
    simp [hspace, hT]
  · rw [hrfc, GoJson.time, htrimUtc, Parts.Regular.splitZone_utc, Option.map_some]
    simp [hspace, hT]
  · rw [hsqlite, sqliteTimeFromStored, htrimOffset, hregular.splitZone_offset, Option.map_some]
    simp [hletter, hS]
  · rw [hrfc, hsqlite, sqliteTimeFromStored, htrimUtc, Parts.Regular.splitZone_utc,
      Option.map_some]
    simp [hletter, hT]

/-- Stored times compare as times, are rewritten into each other, and the date of each day is
the next of the calendar. -/
theorem stored_times_compare :
    (∀ time time', InYears time → InYears time' →
      (sqliteTime time < sqliteTime time' ↔ time < time')) ∧
    (∀ time, InYears time →
      GoJson.time (sqliteTime time) = some (rfc3339Nano time) ∧
        GoJson.time (rfc3339Nano time) = some (rfc3339Nano time) ∧
        sqliteTimeFromStored (sqliteTime time) = some (sqliteTime time) ∧
        sqliteTimeFromStored (rfc3339Nano time) = some (sqliteTime time)) ∧
    (civil 0).date = ⟨1970, 1, 1⟩ ∧
    (∀ seconds, (civil seconds).date.IsValid ∧
      (civil (seconds + 86400)).date = (civil seconds).date.next ∧
      (civil (seconds - seconds % 86400)).date = (civil seconds).date ∧
      ((civil seconds).hour * 3600 + (civil seconds).minute * 60 + (civil seconds).second : ℕ) =
        seconds % 86400) ∧
    (∀ seconds seconds', (civil seconds).date = (civil seconds').date →
      seconds / 86400 = seconds' / 86400) := by
  refine ⟨fun _ _ => sqliteTime_lt_sqliteTime, fun _ => rewritten, by decide, fun seconds => ?_,
    fun _ _ hdate => civilDate_strictMono.injective hdate⟩
  have hnext : (seconds + 86400) / 86400 = seconds / 86400 + 1 := by omega
  have hstart : (seconds - seconds % 86400) / 86400 = seconds / 86400 := by omega
  refine ⟨civilDate_isValid _, ?_, ?_, (civil_secondOfDay seconds).1⟩
  · rw [civil, hnext]
    exact civilDate_succ _
  · rw [civil, hstart]
    rfl

/-- Half a second after the epoch is stored after the epoch. -/
theorem stored_times_compare_half :
    sqliteTime 0 < sqliteTime 500000000 ∧
      GoJson.time (sqliteTime 500000000) = some (rfc3339Nano 500000000) := by
  have hepoch : InYears 0 := ⟨by decide, by decide⟩
  have hhalf : InYears 500000000 := ⟨by decide, by decide⟩
  exact ⟨(stored_times_compare.1 0 500000000 hepoch hhalf).mpr (by decide),
    (stored_times_compare.2.1 500000000 hhalf).1⟩

end Harmony.GoJson
