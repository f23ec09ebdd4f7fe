import Mathlib
import TableExport.Calendar

/-!
# Days of the calendar

The calendar is stated by its rules: which years are leap years, how long the months are
(`Date.IsValid`) and which day comes next (`Date.next`). The dates of the day numbers follow these
rules: each is a date of the calendar (`Date.isValid_ofDayNumber`), and one day more gives the next
one (`Date.ofDayNumber_add_one`), so that they are in the order of time
(`Date.monotone_ofDayNumber`).
-/

namespace TableExport.Date

/-! ## The rules of the calendar -/

/-- The leap years: every fourth year, but of the full centuries only every fourth. -/
def IsLeap (year : ℤ) : Prop := 4 ∣ year ∧ (100 ∣ year → 400 ∣ year)

instance (year : ℤ) : Decidable (IsLeap year) := inferInstanceAs (Decidable (_ ∧ _))

/-- The days of a month, in a leap year or not. -/
def monthLength (leap : Bool) (month : ℕ) : ℕ :=
  if month = 2 then if leap then 29 else 28
  else if month = 4 ∨ month = 6 ∨ month = 9 ∨ month = 11 then 30
  else 31

/-- The days of a month of a year. -/
def daysInMonth (year : ℤ) (month : ℕ) : ℕ := monthLength (IsLeap year) month

/-- A date that is in the calendar. -/
structure IsValid (date : Date) : Prop where
  month_pos : 1 ≤ date.month
  month_le : date.month ≤ 12
  day_pos : 1 ≤ date.day
  day_le : date.day ≤ daysInMonth date.year date.month

/-- The next day. -/
def next (date : Date) : Date :=
  if date.day < daysInMonth date.year date.month then ⟨date.year, date.month, date.day + 1⟩
  else if date.month < 12 then ⟨date.year, date.month + 1, 1⟩
  else ⟨date.year + 1, 1, 1⟩

/-- Dates are in the order of time: by year, month and day. -/
instance : LE Date where
  le first second := first.year < second.year ∨ first.year = second.year ∧
    (first.month < second.month ∨ first.month = second.month ∧ first.day ≤ second.day)

theorem le_iff {first second : Date} : first ≤ second ↔ first.year < second.year ∨
    first.year = second.year ∧ (first.month < second.month ∨
      first.month = second.month ∧ first.day ≤ second.day) := Iff.rfl

instance : Preorder Date where
  le_refl date := le_iff.2 (by omega)
  le_trans first second third h h' := by
    rw [le_iff] at *
    omega

theorem le_next (date : Date) : date ≤ date.next := by
  rw [le_iff, next]
  split_ifs <;> simp

/-! ## Years from March on -/

/-- The number of the first of March of a year. -/
def yearStart (year : ℤ) : ℤ := 365 * year + year / 4 - year / 100 + year / 400

/-- A year from March on has the leap day of the next year. -/
theorem yearStart_add_one (year : ℤ) :
    yearStart (year + 1) = yearStart year + if IsLeap (year + 1) then 366 else 365 := by
  simp only [yearStart, IsLeap]
  split_ifs with h <;> omega

/-- The start of a year, by its place in the era, the century and the four years. -/
theorem yearStart_eq {era century four one : ℤ} (hcentury : 0 ≤ century ∧ century ≤ 3)
    (hfour : 0 ≤ four ∧ four ≤ 24) (hone : 0 ≤ one ∧ one ≤ 3) :
    yearStart (400 * era + 100 * century + 4 * four + one) =
      146097 * era + 36524 * century + 1461 * four + 365 * one := by
  simp only [yearStart]
  omega

theorem isLeap_iff {era century four one : ℤ} (hcentury : 0 ≤ century ∧ century ≤ 3)
    (hfour : 0 ≤ four ∧ four ≤ 24) (hone : 0 ≤ one ∧ one ≤ 3) :
    IsLeap (400 * era + 100 * century + 4 * four + one + 1) ↔
      one = 3 ∧ (four = 24 → century = 3) := by
  simp only [IsLeap]
  omega

/-- Each year has its place. -/
theorem exists_place (year : ℤ) : ∃ era century four one : ℤ,
    year = 400 * era + 100 * century + 4 * four + one ∧ (0 ≤ century ∧ century ≤ 3) ∧
      (0 ≤ four ∧ four ≤ 24) ∧ (0 ≤ one ∧ one ≤ 3) :=
  ⟨year / 400, year % 400 / 100, year % 100 / 4, year % 4, by omega, by omega, by omega, by omega⟩

/-- Each day is in a year. -/
theorem exists_yearStart (number : ℤ) : ∃ (year : ℤ) (day : ℕ),
    number = yearStart year + day ∧ yearStart year + day < yearStart (year + 1) := by
  -- the last century of an era and the last of four years take the day that is left
  obtain ⟨era, century, rest, hrest, hnumber, hcentury, hlast⟩ : ∃ era century rest : ℤ,
      0 ≤ rest ∧ number = 146097 * era + 36524 * century + rest ∧ (0 ≤ century ∧ century ≤ 3) ∧
        (rest < 36524 ∨ rest = 36524 ∧ century = 3) :=
    ⟨number / 146097, min (number % 146097 / 36524) 3,
      number % 146097 - 36524 * min (number % 146097 / 36524) 3, by omega, by omega, by omega,
      by omega⟩
  obtain ⟨four, one, day, hday, hsplit, hfour, hone, hleap⟩ : ∃ four one day : ℤ,
      0 ≤ day ∧ rest = 1461 * four + 365 * one + day ∧ (0 ≤ four ∧ four ≤ 24) ∧
        (0 ≤ one ∧ one ≤ 3) ∧ (day < 365 ∨ day = 365 ∧ one = 3) :=
    ⟨rest / 1461, min (rest % 1461 / 365) 3, rest % 1461 - 365 * min (rest % 1461 / 365) 3,
      by omega, by omega, by omega, by omega, by omega⟩
  lift day to ℕ using hday
  refine ⟨400 * era + 100 * century + 4 * four + one, day, ?_, ?_⟩
  · rw [yearStart_eq hcentury hfour hone]
    omega
  · rw [yearStart_add_one]
    simp only [isLeap_iff hcentury hfour hone]
    split_ifs <;> omega

/-! ## Months -/

/-- The month of a day of a year from March on. -/
def monthOf (day : ℕ) : ℕ :=
  if (5 * day + 2) / 153 < 10 then (5 * day + 2) / 153 + 3 else (5 * day + 2) / 153 - 9

/-- The day of the month. -/
def dayOf (day : ℕ) : ℕ := day - (153 * ((5 * day + 2) / 153) + 2) / 5 + 1

/-- The date of a day of a year from March on. -/
def inYear (year : ℤ) (day : ℕ) : Date :=
  ⟨year + if monthOf day ≤ 2 then 1 else 0, monthOf day, dayOf day⟩

theorem monthOf_range : ∀ leap : Bool, ∀ day < (if leap then 366 else 365),
    1 ≤ monthOf day ∧ monthOf day ≤ 12 ∧ 1 ≤ dayOf day ∧
      dayOf day ≤ monthLength leap (monthOf day) := by
  decide +kernel

theorem monthOf_add_one : ∀ leap : Bool, ∀ day < (if leap then 365 else 364),
    if dayOf day < monthLength leap (monthOf day) then
      monthOf (day + 1) = monthOf day ∧ dayOf (day + 1) = dayOf day + 1
    else if monthOf day < 12 then
      monthOf (day + 1) = monthOf day + 1 ∧ dayOf (day + 1) = 1 ∧ monthOf day ≠ 2
    else monthOf (day + 1) = 1 ∧ dayOf (day + 1) = 1 := by
  decide +kernel

/-- The length of a month depends on the leap day only in February, which is in the next year. -/
theorem daysInMonth_inYear (year : ℤ) (day : ℕ) :
    daysInMonth (inYear year day).year (inYear year day).month =
      monthLength (IsLeap (year + 1)) (monthOf day) := by
  rw [daysInMonth, inYear]
  by_cases hmonth : monthOf day = 2
  · simp [hmonth]
  · simp [monthLength, hmonth]

variable {year : ℤ} {day : ℕ}

theorem lt_of_lt_yearStart (h : yearStart year + day < yearStart (year + 1)) :
    day < if decide (IsLeap (year + 1)) = true then 366 else 365 := by
  rw [yearStart_add_one] at h
  simp only [decide_eq_true_eq]
  split_ifs at h ⊢ <;> omega

theorem isValid_inYear (h : yearStart year + day < yearStart (year + 1)) :
    (inYear year day).IsValid := by
  obtain ⟨hpos, hle, hday, hlast⟩ := monthOf_range _ day (lt_of_lt_yearStart h)
  exact ⟨hpos, hle, hday, (daysInMonth_inYear year day).symm ▸ hlast⟩

theorem next_inYear (year : ℤ) (day : ℕ) : (inYear year day).next =
    if dayOf day < monthLength (IsLeap (year + 1)) (monthOf day) then
      ⟨year + if monthOf day ≤ 2 then 1 else 0, monthOf day, dayOf day + 1⟩
    else if monthOf day < 12 then
      ⟨year + if monthOf day ≤ 2 then 1 else 0, monthOf day + 1, 1⟩
    else ⟨year + (if monthOf day ≤ 2 then 1 else 0) + 1, 1, 1⟩ := by
  rw [next, daysInMonth_inYear]
  rfl

/-- The next day of a year that goes on. -/
theorem next_inYear_of_lt (h : yearStart year + (day + 1 : ℕ) < yearStart (year + 1)) :
    (inYear year day).next = inYear year (day + 1) := by
  have hlt := lt_of_lt_yearStart h
  have hstep := monthOf_add_one (IsLeap (year + 1)) day (by split_ifs at hlt ⊢ <;> omega)
  rw [next_inYear, inYear]
  by_cases hday : dayOf day < monthLength (IsLeap (year + 1)) (monthOf day)
  · rw [if_pos hday] at hstep ⊢
    rw [hstep.1, hstep.2]
  rw [if_neg hday] at hstep ⊢
  by_cases hmonth : monthOf day < 12
  · rw [if_pos hmonth] at hstep ⊢
    obtain ⟨hnext, hfirst, hne⟩ := hstep
    have hyear : monthOf day + 1 ≤ 2 ↔ monthOf day ≤ 2 := by omega
    simp only [hnext, hfirst, hyear]
  · rw [if_neg hmonth] at hstep ⊢
    rw [hstep.1, hstep.2, if_neg (by omega : ¬ monthOf day ≤ 2), if_pos (by decide), add_zero]

/-- The day after the last one of February. -/
theorem next_inYear_last (h : yearStart year + (day + 1 : ℕ) = yearStart (year + 1)) :
    (inYear year day).next = inYear (year + 1) 0 := by
  have hday : day = if decide (IsLeap (year + 1)) = true then 365 else 364 := by
    rw [yearStart_add_one] at h
    simp only [decide_eq_true_eq]
    split_ifs at h ⊢ <;> omega
  have hfebruary : ∀ leap : Bool, monthOf (if leap then 365 else 364) = 2 ∧
      dayOf (if leap then 365 else 364) = monthLength leap 2 := by decide
  obtain ⟨hmonth, hlast⟩ := hfebruary (IsLeap (year + 1))
  rw [next_inYear, hday, hmonth, hlast, if_neg (lt_irrefl _), if_pos (by decide),
    if_pos (by decide)]
  simp [inYear, monthOf, dayOf]

/-! ## Dates of day numbers -/

theorem ofDayNumber_eq {number era : ℤ} {dayOfEra yearOfEra day : ℕ}
    (hera : number.fdiv daysPerEra = era) (hday : (number - era * daysPerEra).toNat = dayOfEra)
    (hyear : (dayOfEra - dayOfEra / 1460 + dayOfEra / 36524 - dayOfEra / 146096) / 365 = yearOfEra)
    (hrest : dayOfEra - (365 * yearOfEra + yearOfEra / 4 - yearOfEra / 100) = day) :
    ofDayNumber number = inYear (era * 400 + yearOfEra) day := by
  subst hera hday hyear hrest
  rfl

section

variable {century four one : ℕ}

/-- The centuries before a day of an era; the last day of the era counts as a fifth one. -/
theorem centuries_eq {rest : ℕ} (hcentury : century ≤ 3)
    (hrest : rest < 36524 ∨ rest = 36524 ∧ century = 3) :
    (36524 * century + rest) / 36524 = century + (36524 * century + rest) / 146096 := by
  rcases hrest with hrest | ⟨rfl, rfl⟩
  · rw [Nat.div_eq_of_lt (by omega : 36524 * century + rest < 146096)]
    omega
  · rfl

/-- The leap days before a day of an era, as if all centuries had them: in the last year of four
they may be one too many. -/
theorem exists_leapDays (hcentury : century ≤ 3) (hfour : four ≤ 24) (hone : one ≤ 3)
    (hday : day < 365 ∨ day = 365 ∧ one = 3) :
    ∃ extra, (36524 * century + (1461 * four + 365 * one + day)) / 1460 =
      25 * century + four + extra ∧ extra ≤ day ∧ day < 365 + extra := by
  have hsplit : 36524 * century + (1461 * four + 365 * one + day) =
      (24 * century + four + 365 * one + day) + 1460 * (25 * century + four) := by ring
  rw [hsplit, Nat.add_mul_div_left _ _ (by decide)]
  by_cases hlast : 24 * century + four + 365 * one + day < 1460
  · exact ⟨0, by rw [Nat.div_eq_of_lt hlast]; omega, by omega, by omega⟩
  · exact ⟨1, by rw [Nat.div_eq_of_lt_le (k := 1) (by omega) (by omega)]; omega, by omega, by omega⟩

/-- The year of a day of an era. -/
theorem yearOfEra_eq {dayOfEra : ℕ} (hcentury : century ≤ 3) (hfour : four ≤ 24) (hone : one ≤ 3)
    (hday : day < 365 ∨ day = 365 ∧ one = 3 ∧ (four = 24 → century = 3))
    (h : dayOfEra = 36524 * century + (1461 * four + 365 * one + day)) :
    (dayOfEra - dayOfEra / 1460 + dayOfEra / 36524 - dayOfEra / 146096) / 365 =
      100 * century + 4 * four + one := by
  have hrest : 1461 * four + 365 * one + day < 36524 ∨
      1461 * four + 365 * one + day = 36524 ∧ century = 3 := by omega
  have hdays : ∀ extra last, extra ≤ day →
      dayOfEra - (25 * century + four + extra) + (century + last) - last =
        (day - extra) + 365 * (100 * century + 4 * four + one) := by
    intro extra last hextra
    omega
  have hcenturies := centuries_eq hcentury hrest
  obtain ⟨extra, hyears, hextra, hlt⟩ :=
    exists_leapDays hcentury hfour hone (hday.imp_right fun h => ⟨h.1, h.2.1⟩)
  rw [← h] at hcenturies hyears
  have hyear : day - extra < 365 := by
    clear hcenturies hyears
    omega
  rw [hyears, hcenturies, hdays _ _ hextra, Nat.add_mul_div_left _ _ (by decide),
    Nat.div_eq_of_lt hyear, Nat.zero_add]

end

/-- **The date of a day is that of its place in the year**, where years start in March. -/
theorem ofDayNumber_yearStart (h : yearStart year + day < yearStart (year + 1)) :
    ofDayNumber (yearStart year + day) = inYear year day := by
  obtain ⟨era, century, four, one, rfl, hcentury, hfour, hone⟩ := exists_place year
  rw [yearStart_add_one] at h
  simp only [isLeap_iff hcentury hfour hone, yearStart_eq hcentury hfour hone] at h ⊢
  have hlt : day < 365 ∨ day = 365 ∧ one = 3 ∧ (four = 24 → century = 3) := by
    split_ifs at h <;> omega
  lift century to ℕ using hcentury.1
  lift four to ℕ using hfour.1
  lift one to ℕ using hone.1
  have hyear : 400 * era + 100 * (century : ℤ) + 4 * four + one =
      era * 400 + (100 * century + 4 * four + one : ℕ) := by
    push_cast
    ring
  rw [hyear]
  set dayOfEra := 36524 * century + (1461 * four + 365 * one + day) with hdayOfEra
  have hyearOfEra := yearOfEra_eq (by omega) (by omega) (by omega) (by omega) hdayOfEra
  refine ofDayNumber_eq ?_ ?_ hyearOfEra ?_
  · rw [daysPerEra, Int.fdiv_eq_ediv_of_nonneg _ (by decide)]
    omega
  · rw [daysPerEra]
    omega
  · omega

theorem isValid_ofDayNumber (number : ℤ) : (ofDayNumber number).IsValid := by
  obtain ⟨year, day, rfl, h⟩ := exists_yearStart number
  rw [ofDayNumber_yearStart h]
  exact isValid_inYear h

/-- **One day more is the next day of the calendar.** -/
theorem ofDayNumber_add_one (number : ℤ) :
    ofDayNumber (number + 1) = (ofDayNumber number).next := by
  obtain ⟨year, day, rfl, h⟩ := exists_yearStart number
  rw [ofDayNumber_yearStart h]
  rcases (show yearStart year + (day + 1 : ℕ) ≤ yearStart (year + 1) by omega).lt_or_eq with
    hlt | hlast
  · rw [next_inYear_of_lt hlt, ← ofDayNumber_yearStart hlt, Nat.cast_succ, add_assoc]
  · have hlength := yearStart_add_one (year + 1)
    rw [next_inYear_last hlast, ← ofDayNumber_yearStart, ← hlast, Nat.cast_succ, Nat.cast_zero,
      add_zero, add_assoc]
    split_ifs at hlength <;> omega

theorem monotone_ofDayNumber : Monotone ofDayNumber :=
  monotone_int_of_le_succ fun number => by
    rw [ofDayNumber_add_one]
    exact le_next _

/-- The day numbers of the years that can be shown. -/
theorem natAbs_le_of_inRange {number : ℤ} (h : (ofDayNumber number).InRange) :
    number.natAbs ≤ 100000000 := by
  obtain ⟨year, day, rfl, hday⟩ := exists_yearStart number
  rw [ofDayNumber_yearStart hday, InRange, inYear] at h
  have hyear : -262144 ≤ year ∧ year ≤ 262142 := by
    simp only at h
    split_ifs at h <;> omega
  have hstart : -97000000 ≤ yearStart year ∧ yearStart year ≤ 97000000 := by
    simp only [yearStart]
    omega
  rw [yearStart_add_one] at hday
  split_ifs at hday <;> omega

end TableExport.Date
