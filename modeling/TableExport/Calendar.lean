import TableExport.Numeric.Literal

/-!
# The calendar

Dates of the proleptic Gregorian calendar by their day number. Day 0 is the first of March of year
0, so that the leap day is the last day of a year of twelve months from March to February.

* `Date.ofDayNumber` is the date of a day.
* `Date.InRange` says which dates can be shown.
* `Date.render` writes a date in ISO form.
-/

namespace TableExport

/-- A date of the proleptic Gregorian calendar. -/
structure Date where
  year : Int
  month : Nat
  day : Nat
  deriving DecidableEq, Inhabited

namespace Date

/-- Days of 400 years. -/
def daysPerEra : Int := 146097

/-- The date of a day number. -/
def ofDayNumber (number : Int) : Date :=
  let era := number.fdiv daysPerEra
  let dayOfEra := (number - era * daysPerEra).toNat
  let yearOfEra := (dayOfEra - dayOfEra / 1460 + dayOfEra / 36524 - dayOfEra / 146096) / 365
  let dayOfYear := dayOfEra - (365 * yearOfEra + yearOfEra / 4 - yearOfEra / 100)
  let shifted := (5 * dayOfYear + 2) / 153
  let day := dayOfYear - (153 * shifted + 2) / 5 + 1
  let month := if shifted < 10 then shifted + 3 else shifted - 9
  let year := era * 400 + yearOfEra + if month ≤ 2 then 1 else 0
  ⟨year, month, day⟩

/-- The dates that can be shown: the years from -262143 to 262142. -/
def InRange (date : Date) : Prop := -262143 ≤ date.year ∧ date.year ≤ 262142

instance (date : Date) : Decidable date.InRange := inferInstanceAs (Decidable (_ ∧ _))

/-- Digits with zeros in front up to a width. -/
def padded (width n : Nat) : String :=
  let digits := Nat.toDigits 10 n
  String.ofList (List.replicate (width - digits.length) '0' ++ digits)

/-- A year in four digits; outside the years 0 to 9999 it has a sign. -/
def renderYear (year : Int) : String :=
  if year < 0 then "-" ++ padded 4 year.natAbs
  else if 9999 < year then "+" ++ padded 4 year.natAbs
  else padded 4 year.natAbs

/-- The ISO form of a date. -/
def render (date : Date) : String :=
  renderYear date.year ++ "-" ++ padded 2 date.month ++ "-" ++ padded 2 date.day

end Date

end TableExport
