import Mathlib.Data.Nat.Notation

/-!
# Dates as text

`toISOString` writes a moment, given in milliseconds since the epoch, the way JavaScript's
`Date` does: the proleptic Gregorian calendar in UTC.  The day is found by counting in eras of
400 years that begin in March, so that the leap day is the last day of a year.
-/

namespace Text

/-- Year, month and day of the `n`-th day since the epoch. -/
def civilDate (n : ℕ) : ℕ × ℕ × ℕ :=
  let day := n + 719468
  let dayOfEra := day % 146097
  let yearOfEra := (dayOfEra - dayOfEra / 1460 + dayOfEra / 36524 - dayOfEra / 146096) / 365
  let dayOfYear := dayOfEra - (365 * yearOfEra + yearOfEra / 4 - yearOfEra / 100)
  let month := (5 * dayOfYear + 2) / 153
  let year := yearOfEra + day / 146097 * 400
  (if month < 10 then year else year + 1, if month < 10 then month + 3 else month - 9,
    dayOfYear - (153 * month + 2) / 5 + 1)

/-- The decimal digits, filled up with zeros to a width. -/
def padded (width n : ℕ) : List Char :=
  let digits := Nat.toDigits 10 n
  List.replicate (width - digits.length) '0' ++ digits

/-- `new Date(ms).toISOString()`. -/
def toISOString (ms : ℕ) : String :=
  let (year, month, day) := civilDate (ms / 86400000)
  let second := ms / 1000 % 86400
  String.ofList (padded 4 year ++ '-' :: padded 2 month ++ '-' :: padded 2 day ++
    'T' :: padded 2 (second / 3600) ++ ':' :: padded 2 (second / 60 % 60) ++
    ':' :: padded 2 (second % 60) ++ '.' :: padded 3 (ms % 1000) ++ ['Z'])

end Text
