import RegisterEvolution.Decimal.Layout

/-!
# `Journal.Clock` — the time of a record as text

A moment is a count of seconds since the beginning of 1970, Universal Time, in which every day has 86,400 seconds.
The date follows the Gregorian calendar, also before its introduction.
-/

namespace RegisterEvolution.Clock

/-- The seconds of a day. -/
def secondsOfDay : Int := 86400

/-- A number with two digits at least. -/
def twoDigits (n : Nat) : String := String.ofList (Decimal.padded 2 n)

/-- Hours, minutes and seconds. -/
def timeText (moment : Int) : String :=
  let second := (moment % secondsOfDay).toNat
  ":".intercalate [twoDigits (second / 3600), twoDigits (second / 60 % 60), twoDigits (second % 60)]

/-- A day of the calendar. -/
structure Date where
  year : Int
  month : Nat
  day : Nat
  deriving Repr, DecidableEq

/--
The date of the day with the given number, counted from the first of January 1970. Years are counted from the first
of March, so that a leap day ends its year, and in eras of 400 years, all of which have 146,097 days.
-/
def Date.ofDay (day : Int) : Date :=
  let shifted := day + 719468
  let era := shifted / 146097
  let dayOfEra := (shifted % 146097).toNat
  let yearOfEra := (dayOfEra - dayOfEra / 1460 + dayOfEra / 36524 - dayOfEra / 146096) / 365
  let dayOfYear := dayOfEra - (365 * yearOfEra + yearOfEra / 4 - yearOfEra / 100)
  let month := (5 * dayOfYear + 2) / 153
  let isNextYear := 10 ≤ month
  { year := era * 400 + yearOfEra + (if isNextYear then 1 else 0)
    month := if isNextYear then month - 9 else month + 3
    day := dayOfYear - (153 * month + 2) / 5 + 1 }

/-- Year, month and day. -/
def dateText (moment : Int) : String :=
  let date := Date.ofDay (moment / secondsOfDay)
  "-".intercalate [String.ofList (Decimal.padded 4 date.year.toNat), twoDigits date.month, twoDigits date.day]

end RegisterEvolution.Clock
