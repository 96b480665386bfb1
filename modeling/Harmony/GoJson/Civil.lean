/-
# The date of a day

The server finds the date of a day by counting years that begin in March, in eras of 400
years. Consecutive days have consecutive dates of the calendar.
-/

import Harmony.Library.Calendar

namespace Harmony.GoJson

open Calendar (Date)

/-! ### The date of a day -/

/-- The year in a period of 400 years that begin in March. -/
def yearOfEra (dayOfEra : ℤ) : ℤ :=
  (dayOfEra - dayOfEra / 1460 + dayOfEra / 36524 - dayOfEra / 146096) / 365

/-- The month and the day of the month, of a day of a year that begins in March. -/
def monthDay (dayOfYear : ℕ) : ℕ × ℕ :=
  let monthIndex := (5 * dayOfYear + 2) / 153
  (if monthIndex < 10 then monthIndex + 3 else monthIndex - 9,
    dayOfYear - (153 * monthIndex + 2) / 5 + 1)

/-- The date of a day, counted from 1970. -/
def civilDate (days : ℤ) : Date :=
  let z := days + 719468
  let era := z / 146097
  let dayOfEra := z % 146097
  let yearOfEra := yearOfEra dayOfEra
  let dayOfYear := dayOfEra - (365 * yearOfEra + yearOfEra / 4 - yearOfEra / 100)
  let (month, day) := monthDay dayOfYear.toNat
  ⟨yearOfEra + era * 400 + (if month ≤ 2 then 1 else 0), month, day⟩

/-- The date and the time of day. -/
structure Civil where
  date : Date
  hour : ℕ
  minute : ℕ
  second : ℕ

def civil (seconds : ℤ) : Civil :=
  let secondOfDay := (seconds % 86400).toNat
  { date := civilDate (seconds / 86400)
    hour := secondOfDay / 3600
    minute := secondOfDay / 60 % 60
    second := secondOfDay % 60 }

/-! ### The days of an era -/

/-- A day of an era lies in a century, in four years of it, in a year and on a day of that
year. Only a leap year has a last day 365. -/
structure YearDay (dayOfEra century quad year day : ℤ) : Prop where
  sum : dayOfEra = 36524 * century + 1461 * quad + 365 * year + day
  centuries : 0 ≤ century ∧ century ≤ 3
  quads : 0 ≤ quad ∧ quad ≤ 24
  years : 0 ≤ year ∧ year ≤ 3
  days : 0 ≤ day ∧ day ≤ 365
  leap : day = 365 → year = 3 ∧ (quad ≠ 24 ∨ century = 3)

theorem exists_yearDay {dayOfEra : ℤ} (hfirst : 0 ≤ dayOfEra) (hlast : dayOfEra < 146097) :
    ∃ century quad year day, YearDay dayOfEra century quad year day := by
  -- the last century, and the last year of four, take the leap day too
  obtain ⟨century, hcentury⟩ : ∃ century, century = min (dayOfEra / 36524) 3 := ⟨_, rfl⟩
  obtain ⟨inCentury, hin⟩ : ∃ rest, rest = dayOfEra - 36524 * century := ⟨_, rfl⟩
  have hbounds : 0 ≤ inCentury ∧ inCentury ≤ 36524 ∧ (inCentury = 36524 → century = 3) ∧
      0 ≤ century ∧ century ≤ 3 := by omega
  clear hcentury hfirst hlast
  obtain ⟨quad, hquad⟩ : ∃ quad, quad = inCentury / 1461 := ⟨_, rfl⟩
  obtain ⟨inQuad, hinQuad⟩ : ∃ rest, rest = inCentury - 1461 * quad := ⟨_, rfl⟩
  have hquads : 0 ≤ quad ∧ quad ≤ 24 ∧ 0 ≤ inQuad ∧ inQuad ≤ 1460 ∧
      (inQuad = 1460 → quad = 24 → century = 3) := by omega
  clear hquad
  obtain ⟨year, hyear⟩ : ∃ year, year = min (inQuad / 365) 3 := ⟨_, rfl⟩
  refine ⟨century, quad, year, inQuad - 365 * year, ?_, ?_, ?_, ?_, ?_, ?_⟩ <;> omega

theorem YearDay.yearOfEra {dayOfEra century quad year day : ℤ}
    (h : YearDay dayOfEra century quad year day) :
    yearOfEra dayOfEra = 100 * century + 4 * quad + year := by
  obtain ⟨hsum, hcentury, hquad, hyear, hday, hleap⟩ := h
  have hera : dayOfEra / 146096 = if dayOfEra = 146096 then 1 else 0 := by
    split_ifs <;> omega
  have hcenturies : dayOfEra / 36524 = century + if dayOfEra = 146096 then 1 else 0 := by
    split_ifs <;> omega
  -- 1460 days are four years without their leap day
  have hquads : dayOfEra / 1460 =
      25 * century + quad + (24 * century + quad + 365 * year + day) / 1460 := by
    omega
  have hover : 0 ≤ (24 * century + quad + 365 * year + day) / 1460 ∧
      (24 * century + quad + 365 * year + day) / 1460 ≤ 1 := by
    omega
  have hend : day = 365 → (24 * century + quad + 365 * year + day) / 1460 = 1 := by omega
  have hstart : day = 0 → (24 * century + quad + 365 * year + day) / 1460 = 0 := by omega
  rw [GoJson.yearOfEra, hera, hcenturies, hquads]
  split_ifs <;> omega

/-- The date of a day of a year that begins in March. -/
def marchDate (marchYear : ℤ) (dayOfYear : ℕ) : Date :=
  ⟨marchYear + (if (monthDay dayOfYear).1 ≤ 2 then 1 else 0), (monthDay dayOfYear).1,
    (monthDay dayOfYear).2⟩

/-- How many days there are up to the next March. -/
def marchDays (marchYear : ℤ) : ℕ := if Calendar.isLeap (marchYear + 1) then 366 else 365

/-- The day, the year that begins in March and the day of that year belong together. -/
structure OnMarchDay (days marchYear : ℤ) (dayOfYear : ℕ) : Prop where
  date : civilDate days = marchDate marchYear dayOfYear
  day : dayOfYear < marchDays marchYear
  days : days + 719468 =
    365 * marchYear + marchYear / 4 - marchYear / 100 + marchYear / 400 + dayOfYear

theorem exists_onMarchDay (days : ℤ) :
    ∃ marchYear dayOfYear, OnMarchDay days marchYear dayOfYear := by
  obtain ⟨century, quad, year, day, h⟩ := exists_yearDay
    (Int.emod_nonneg (days + 719468) (by omega)) (Int.emod_lt_of_pos (days + 719468) (by omega))
  have hyear := h.yearOfEra
  obtain ⟨hsum, hcentury, hquad, hyears, hday, hleap⟩ := h
  -- the quarters and the hundredths of the year, without and with the eras before it
  have hquarter : (100 * century + 4 * quad + year) / 4 = 25 * century + quad := by omega
  have hhundredth : (100 * century + 4 * quad + year) / 100 = century := by omega
  have hera : ∃ era, era = (days + 719468) / 146097 := ⟨_, rfl⟩
  obtain ⟨era, hera⟩ := hera
  have hquarters : (100 * century + 4 * quad + year + era * 400) / 4 =
      25 * century + quad + 100 * era := by omega
  have hhundredths : (100 * century + 4 * quad + year + era * 400) / 100 =
      century + 4 * era := by omega
  have heras : (100 * century + 4 * quad + year + era * 400) / 400 = era := by omega
  refine ⟨100 * century + 4 * quad + year + era * 400, day.toNat, ?_, ?_, ?_⟩
  · have hdayOfYear : (days + 719468) % 146097 - (365 * (100 * century + 4 * quad + year) +
        (100 * century + 4 * quad + year) / 4 - (100 * century + 4 * quad + year) / 100) = day := by
      rw [hquarter, hhundredth]
      omega
    rw [hera]
    simp only [civilDate, marchDate, hyear, hdayOfYear]
  · have hleapYear : day = 365 → Calendar.isLeap
        (100 * century + 4 * quad + year + era * 400 + 1) = true := by
      intro hlast
      simp only [Calendar.isLeap, Bool.and_eq_true, Bool.or_eq_true, decide_eq_true_eq]
      omega
    rw [marchDays]
    split_ifs with hisLeap
    · omega
    · have hne : day ≠ 365 := fun hlast => hisLeap (hleapYear hlast)
      omega
  · omega

/-- The first day of a year that begins in March. -/
def marchStart (marchYear : ℤ) : ℤ :=
  365 * marchYear + marchYear / 4 - marchYear / 100 + marchYear / 400

theorem marchStart_succ (marchYear : ℤ) :
    marchStart (marchYear + 1) = marchStart marchYear + marchDays marchYear := by
  rw [marchStart, marchStart, marchDays, Calendar.isLeap]
  split_ifs with hleap
  · simp only [Bool.and_eq_true, Bool.or_eq_true, decide_eq_true_eq] at hleap
    push_cast
    omega
  · simp only [Bool.and_eq_true, Bool.or_eq_true, decide_eq_true_eq] at hleap
    push_cast
    omega

theorem marchStart_mono {marchYear marchYear' : ℤ} (h : marchYear ≤ marchYear') :
    marchStart marchYear ≤ marchStart marchYear' := by
  rw [marchStart, marchStart]
  omega

/-- A day lies in one year only. -/
theorem marchYear_le {marchYear marchYear' : ℤ} {dayOfYear dayOfYear' : ℕ}
    (hday : dayOfYear < marchDays marchYear)
    (h : marchStart marchYear + dayOfYear = marchStart marchYear' + dayOfYear') :
    marchYear' ≤ marchYear := by
  by_contra hlater
  have hnext := marchStart_mono (not_le.mp hlater)
  have hend := marchStart_succ marchYear
  change marchStart (marchYear + 1) ≤ marchStart marchYear' at hnext
  omega

variable {dayOfYear : ℕ}

theorem civilDate_eq {days marchYear : ℤ} (hday : dayOfYear < marchDays marchYear)
    (h : days + 719468 = marchStart marchYear + dayOfYear) :
    civilDate days = marchDate marchYear dayOfYear := by
  obtain ⟨marchYear', dayOfYear', hdate, hday', hdays⟩ := exists_onMarchDay days
  have hsame : marchStart marchYear + dayOfYear = marchStart marchYear' + dayOfYear' :=
    h.symm.trans hdays
  have hyear : marchYear = marchYear' :=
    le_antisymm (marchYear_le hday' hsame.symm) (marchYear_le hday hsame)
  subst hyear
  have hdayOfYear : dayOfYear = dayOfYear' := by omega
  rw [hdate, hdayOfYear]

/-! ### The days of a year -/

/-- The month and the day of each day of a year that begins in March, by looking at them all.
February is the last month. -/
theorem monthDay_bounds (h : dayOfYear < 366) :
    1 ≤ (monthDay dayOfYear).1 ∧ (monthDay dayOfYear).1 ≤ 12 ∧ 1 ≤ (monthDay dayOfYear).2 ∧
      ((monthDay dayOfYear).1 = 2 → dayOfYear = 336 + (monthDay dayOfYear).2) ∧
      ((monthDay dayOfYear).1 ≠ 2 →
        (monthDay dayOfYear).2 ≤ Calendar.daysInMonth 0 (monthDay dayOfYear).1) := by
  revert dayOfYear
  decide +kernel

/-- The next day is in the same month, or the first of the next one. -/
theorem monthDay_succ (h : dayOfYear < 365) :
    monthDay (dayOfYear + 1) = ((monthDay dayOfYear).1, (monthDay dayOfYear).2 + 1) ∧
        ((monthDay dayOfYear).1 ≠ 2 →
          (monthDay dayOfYear).2 < Calendar.daysInMonth 0 (monthDay dayOfYear).1) ∨
      (monthDay dayOfYear).1 ≠ 2 ∧
        (monthDay dayOfYear).2 = Calendar.daysInMonth 0 (monthDay dayOfYear).1 ∧
        monthDay (dayOfYear + 1) = (if (monthDay dayOfYear).1 < 12 then (monthDay dayOfYear).1 + 1
          else 1, 1) := by
  revert dayOfYear
  decide +kernel

/-- Only February depends on the year. -/
theorem daysInMonth_eq {year : ℤ} {month : ℕ} (h : month ≠ 2) :
    Calendar.daysInMonth year month = Calendar.daysInMonth 0 month := by
  rw [Calendar.daysInMonth.eq_def, Calendar.daysInMonth.eq_def]
  split
  · exact absurd rfl h
  all_goals rfl

theorem marchDays_le (marchYear : ℤ) : marchDays marchYear ≤ 366 := by
  rw [marchDays]
  split_ifs <;> omega

theorem marchDate_isValid {marchYear : ℤ} (h : dayOfYear < marchDays marchYear) :
    (marchDate marchYear dayOfYear).IsValid := by
  obtain ⟨hfirst, hlast, hday, hfebruary, hother⟩ :=
    monthDay_bounds (lt_of_lt_of_le h (marchDays_le marchYear))
  refine ⟨⟨hfirst, hlast⟩, hday, ?_⟩
  change (monthDay dayOfYear).2 ≤ Calendar.daysInMonth _ (monthDay dayOfYear).1
  by_cases hmonth : (monthDay dayOfYear).1 = 2
  · have hsum := hfebruary hmonth
    rw [marchDays] at h
    simp only [marchDate, hmonth, Calendar.daysInMonth, le_refl, if_true]
    split_ifs at h ⊢ <;> omega
  · rw [daysInMonth_eq hmonth]
    exact hother hmonth

/-- Within a year, the day after is the next date. -/
theorem marchDate_succ {marchYear : ℤ} (h : dayOfYear + 1 < marchDays marchYear) :
    marchDate marchYear (dayOfYear + 1) = (marchDate marchYear dayOfYear).next := by
  have hbound := marchDays_le marchYear
  have hinYear : dayOfYear < 365 := by omega
  obtain ⟨hfirst, hlast, -, hfebruary, -⟩ := monthDay_bounds (hinYear.trans (by omega))
  rcases monthDay_succ hinYear with ⟨hsucc, hinside⟩ | ⟨hother, hend, hsucc⟩
  · have hday : (marchDate marchYear dayOfYear).day < Calendar.daysInMonth
        (marchDate marchYear dayOfYear).year (marchDate marchYear dayOfYear).month := by
      change (monthDay dayOfYear).2 < Calendar.daysInMonth _ (monthDay dayOfYear).1
      by_cases hmonth : (monthDay dayOfYear).1 = 2
      · have hsum := hfebruary hmonth
        rw [marchDays] at h
        simp only [marchDate, hmonth, Calendar.daysInMonth, le_refl, if_true]
        split_ifs at h ⊢ <;> omega
      · rw [daysInMonth_eq hmonth]
        exact hinside hmonth
    rw [Date.next, if_pos hday, marchDate, hsucc]
    rfl
  · have hday : ¬(marchDate marchYear dayOfYear).day < Calendar.daysInMonth
        (marchDate marchYear dayOfYear).year (marchDate marchYear dayOfYear).month := by
      change ¬(monthDay dayOfYear).2 < Calendar.daysInMonth _ (monthDay dayOfYear).1
      rw [daysInMonth_eq hother, hend]
      exact lt_irrefl _
    rw [Date.next, if_neg hday, marchDate, hsucc]
    by_cases hdecember : (monthDay dayOfYear).1 < 12
    · have hmonth : (if (monthDay dayOfYear).1 + 1 ≤ 2 then (1 : ℤ) else 0) =
          if (monthDay dayOfYear).1 ≤ 2 then 1 else 0 := by
        split_ifs <;> omega
      simp only [marchDate, hdecember, hmonth, if_true]
    · -- the year changes with January
      have hmonth : ¬(monthDay dayOfYear).1 ≤ 2 := by omega
      simp only [marchDate, if_neg hdecember, if_neg hmonth, add_zero]
      rfl

/-- The day after the last of February is the first of March. -/
theorem marchDate_last (marchYear : ℤ) :
    marchDate (marchYear + 1) 0 = (marchDate marchYear (marchDays marchYear - 1)).next := by
  rw [marchDays]
  cases hleap : Calendar.isLeap (marchYear + 1) with
  | true =>
    simp [marchDate, Date.next, Calendar.daysInMonth, hleap, monthDay]
  | false =>
    simp [marchDate, Date.next, Calendar.daysInMonth, hleap, monthDay]

/-- Consecutive days have consecutive dates. -/
theorem civilDate_succ (days : ℤ) : civilDate (days + 1) = (civilDate days).next := by
  obtain ⟨marchYear, dayOfYear, hdate, hday, hdays⟩ := exists_onMarchDay days
  have hstart : days + 719468 = marchStart marchYear + dayOfYear := hdays
  rw [hdate]
  by_cases hinside : dayOfYear + 1 < marchDays marchYear
  · rw [← marchDate_succ hinside]
    refine civilDate_eq hinside ?_
    push_cast
    omega
  · have hlast : dayOfYear = marchDays marchYear - 1 := by omega
    rw [hlast, ← marchDate_last]
    have hpositive : 0 < marchDays (marchYear + 1) := by
      rw [marchDays]
      split_ifs <;> omega
    refine civilDate_eq hpositive ?_
    rw [marchStart_succ]
    push_cast
    omega

theorem civilDate_isValid (days : ℤ) : (civilDate days).IsValid := by
  obtain ⟨marchYear, dayOfYear, hdate, hday, -⟩ := exists_onMarchDay days
  rw [hdate]
  exact marchDate_isValid hday

theorem civilDate_strictMono : StrictMono civilDate := Date.strictMono_of_next civilDate_succ

end Harmony.GoJson
