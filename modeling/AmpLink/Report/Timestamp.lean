import AmpLink.Number.Decimal

/-!
# Times in reports

A time is shown as a clock time in tables and as a full date and time in JSON, both in UTC. Dates come
from the count of days by the rules of the Gregorian calendar, years before the first one included.
-/

namespace AmpLink

/-- A time as reports show it. -/
structure Timestamp where
  /-- Hours, minutes and seconds. -/
  clock : String
  /-- Date and time with the mark of UTC. -/
  full : String
  deriving DecidableEq, Repr

namespace Timestamp

/-- A number with at least `width` digits. -/
def padded (width n : Nat) : List Char :=
  let ds := Decimal.digits n
  List.replicate (width - ds.length) '0' ++ ds

/-- Year, month and day of a count of days since the start of 1970. Years are counted from March, so
that the leap day is the last of its year. -/
def civil (days : Int) : Int × Nat × Nat :=
  let z := days + 719468
  let era := z.fdiv 146097
  let dayOfEra := (z - era * 146097).toNat
  let yearOfEra := (dayOfEra - dayOfEra / 1460 + dayOfEra / 36524 - dayOfEra / 146096) / 365
  let dayOfYear := dayOfEra - (365 * yearOfEra + yearOfEra / 4 - yearOfEra / 100)
  let m := (5 * dayOfYear + 2) / 153
  let day := dayOfYear - (153 * m + 2) / 5 + 1
  let month := if m < 10 then m + 3 else m - 9
  (yearOfEra + era * 400 + (if month ≤ 2 then 1 else 0), month, day)

/-- Four digits, and a sign outside of the years that have four. -/
def yearChars (y : Int) : List Char :=
  if 0 ≤ y ∧ y ≤ 9999 then padded 4 y.toNat
  else (if y < 0 then '-' else '+') :: padded 4 y.natAbs

/-- The time a number of seconds after the start of 1970. -/
def ofUnix (seconds : Int) : Timestamp :=
  let days := seconds.fdiv 86400
  let rest := (seconds - days * 86400).toNat
  let (year, month, day) := civil days
  let clock := padded 2 (rest / 3600) ++ ':' :: padded 2 (rest / 60 % 60) ++ ':' :: padded 2 (rest % 60)
  { clock := .ofList clock
    full := .ofList (yearChars year ++ '-' :: padded 2 month ++ '-' :: padded 2 day ++
      'T' :: clock ++ ['Z']) }

end Timestamp
end AmpLink
