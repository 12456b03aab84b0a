/-
Timestamps without a time zone: a day of the proleptic Gregorian calendar and a time of day to the
nanosecond, their text, and the timestamp of a number of seconds since 1970. A time within a leap
second has a thousand million nanoseconds or more. Texts name leap seconds after second 59 only, but a
time may be set within one after any second.
-/
import RowMapper.Number.Integer

namespace RowMapper.Calendar

def isLeapYear (year : Int) : Bool := year % 4 = 0 && (year % 100 ≠ 0 || year % 400 = 0)

def daysInMonth (year : Int) (month : Nat) : Nat :=
  if month = 2 then if isLeapYear year then 29 else 28
  else if month = 4 ∨ month = 6 ∨ month = 9 ∨ month = 11 then 30
  else 31

/-- Whether the day is in the calendar, which spans the years -262143 to 262142. -/
def isDate (year : Int) (month day : Nat) : Bool :=
  -262143 ≤ year && year ≤ 262142 && 1 ≤ month && month ≤ 12 && 1 ≤ day &&
    day ≤ daysInMonth year month

/-- Whether the time is one of a day, leap seconds included. -/
def isTime (hour minute second nanos : Nat) : Bool :=
  hour < 24 && minute < 60 && second < 60 && nanos < 2000000000

structure Timestamp where
  year : Int
  month : Nat
  day : Nat
  hour : Nat
  minute : Nat
  second : Nat
  nanos : Nat
  date_valid : isDate year month day = true
  time_valid : isTime hour minute second nanos = true
  deriving DecidableEq

namespace Timestamp

/-- The timestamp with these fields, if there is one. -/
def ofFields (year : Int) (month day hour minute second nanos : Nat) : Option Timestamp :=
  if date_valid : isDate year month day = true then
    if time_valid : isTime hour minute second nanos = true then
      some ⟨year, month, day, hour, minute, second, nanos, date_valid, time_valid⟩
    else none
  else none

/-! ## Seconds since 1970 -/

/-- The day that lies `days` after the first of January 1970, counted in eras of 400 years
that begin in March, so that a leap day ends its year. -/
def civilOfDays (days : Int) : Int × Nat × Nat :=
  let shifted := days + 719468
  let era := shifted.fdiv 146097
  let dayOfEra := (shifted - era * 146097).toNat
  let yearOfEra := (dayOfEra - dayOfEra / 1460 + dayOfEra / 36524 - dayOfEra / 146096) / 365
  let dayOfYear := dayOfEra - (365 * yearOfEra + yearOfEra / 4 - yearOfEra / 100)
  let marchMonth := (5 * dayOfYear + 2) / 153
  let day := dayOfYear - (153 * marchMonth + 2) / 5 + 1
  let month := if marchMonth < 10 then marchMonth + 3 else marchMonth - 9
  let year : Int := yearOfEra + era * 400
  (if month ≤ 2 then year + 1 else year, month, day)

/-- The timestamp of a number of seconds since 1970, if the calendar has its day. -/
def ofEpochSeconds (seconds : Int) : Option Timestamp :=
  let days := seconds.fdiv 86400
  let rest := (seconds - days * 86400).toNat
  let (year, month, day) := civilOfDays days
  ofFields year month day (rest / 3600) (rest / 60 % 60) (rest % 60) 0

/-! ## Text -/

/-- Four digits for the years 0 to 9999, else a sign and at least four. -/
def yearText (year : Int) : String :=
  if year < 0 then "-" ++ Number.paddedDigits 4 year.natAbs
  else if year ≤ 9999 then Number.paddedDigits 4 year.natAbs
  else "+" ++ Number.paddedDigits 4 year.natAbs

/-- Nothing, or a point and as many of 3, 6 or 9 digits as the fraction needs. -/
def fractionText (nanos : Nat) : String :=
  if nanos = 0 then ""
  else if nanos % 1000000 = 0 then "." ++ Number.paddedDigits 3 (nanos / 1000000)
  else if nanos % 1000 = 0 then "." ++ Number.paddedDigits 6 (nanos / 1000)
  else "." ++ Number.paddedDigits 9 nanos

/-- The text of a timestamp; a leap second is written as the second that follows, as second 60
after second 59. -/
def text (t : Timestamp) : String :=
  let two := Number.paddedDigits 2
  let second := t.second + t.nanos / 1000000000
  yearText t.year ++ "-" ++ two t.month ++ "-" ++ two t.day ++ " " ++ two t.hour ++ ":" ++
    two t.minute ++ ":" ++ two second ++ fractionText (t.nanos % 1000000000)

end Timestamp

end RowMapper.Calendar
