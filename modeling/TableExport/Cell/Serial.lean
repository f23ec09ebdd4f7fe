import TableExport.Calendar
import TableExport.Cell.Kind

/-!
# Serial dates and times

A serial number holds days before the point and a part of a day after it. A text that is no number,
and a day outside the calendar, have no date; a day count beyond the day arithmetic is refused.

* `Serial.dayOffset` brings both date systems to one count, in which the 29 February 1900 that never
  was takes no place.
* `Serial.dateText`, `Serial.timeText` and `Serial.dateTimeText` write the parts.
-/

namespace TableExport

/-- A day count beyond what the day arithmetic takes. -/
structure DayOverflow where
  days : Int
  deriving DecidableEq

namespace Serial

/-- The day number of 30 December 1899. -/
def epoch : Int := 693899

/-- The greatest distance in days: that of `2 ^ 63 - 1` milliseconds. -/
def maxDays : Nat := 106751991167

/-- What is added to a serial day. Days from 1904 start 1462 later; in the days from 1900 a day 60
that never was shifts those before it by one. -/
def dayOffset (days : Int) (system : DateSystem) : Int :=
  match system with
  | .from1904 => 1462
  | .from1900 => if days < 60 then 1 else 0

/-- The date a number of days after 30 December 1899, if the calendar has it. -/
def date? (days : Int) : Except DayOverflow (Option Date) :=
  if maxDays < days.natAbs then .error ⟨days⟩
  else
    let date := Date.ofDayNumber (epoch + days)
    .ok (if date.InRange then some date else none)

/-- The date of a serial number, `none` when the text is no number or the calendar has no such
day. -/
def dateText (value : String) (system : DateSystem) : Except DayOverflow (Option String) :=
  match Literal.double? value with
  | none => .ok none
  | some number =>
    let days := number.toInt64
    (date? (days + dayOffset days system)).map fun date => date.map Date.render

/-- Digits with zeros in front up to a width, where a minus sign counts as a digit. -/
def paddedInt (width : Nat) (n : Int) : String :=
  if n < 0 then "-" ++ Date.padded (width - 1) n.natAbs else Date.padded width n.natAbs

/-- Milliseconds of a day. -/
def millisecondsPerDay : Nat := 86400000

/-- The milliseconds of the fraction of a serial number, rounded. -/
def milliseconds (number : Binary64) : Int :=
  ((number.fraction.mul (Binary64.ofNat millisecondsPerDay)).rounded).getD 0

/-- The clock time of a number of milliseconds; the milliseconds are shown when there are any. -/
def clockText (total : Int) : String :=
  let millis := total.tmod 1000
  let seconds := (total.tdiv 1000).tmod 60
  let minutes := ((total.tdiv 1000).tdiv 60).tmod 60
  let hours := ((total.tdiv 1000).tdiv 60).tdiv 60
  let clock := paddedInt 2 hours ++ ":" ++ paddedInt 2 minutes ++ ":" ++ paddedInt 2 seconds
  if 0 < millis then clock ++ "." ++ paddedInt 3 millis else clock

/-- The time of a serial number, `none` when the text is no number. -/
def timeText (value : String) : Option String :=
  (Literal.double? value).map fun number => clockText (milliseconds number)

/-- The date and the time of a serial number. -/
def dateTimeText (value : String) (system : DateSystem) : Except DayOverflow (Option String) :=
  (dateText value system).map fun date =>
    date.bind fun date => (timeText value).map fun time => date ++ " " ++ time

end Serial

end TableExport
