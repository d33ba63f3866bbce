/-!
# Dates

A date is a year, a month and a day of the Gregorian calendar, which is extended to all years; the year
0 lies in front of the year 1.  `Date.days` counts the days from the first day of the year 1, and
`Date.ofDays` leads back.
-/

namespace TypedVocabulary

structure Date where
  year : Int
  month : Nat
  day : Nat
deriving DecidableEq

namespace Date

def isLeap (year : Int) : Bool := year % 4 = 0 && (year % 100 ≠ 0 || year % 400 = 0)

/-- the length of a month; February is long where no year is given -/
def monthLength (year? : Option Int) (month : Nat) : Nat :=
  if month = 2 then (if year?.all isLeap then 29 else 28)
  else if [4, 6, 9, 11].contains month then 30
  else 31

/-- the lengths of the months of a year in their order -/
def monthLengths (year : Int) : List Nat := (List.range 12).map fun i => monthLength (some year) (i + 1)

/-- the days in front of a year -/
def daysBefore (year : Int) : Int :=
  let past := year - 1
  365 * past + past / 4 - past / 100 + past / 400

/-- how many days lie between the first day of the year 1 and a date -/
def days (d : Date) : Int :=
  daysBefore d.year + ((monthLengths d.year).take (d.month - 1)).foldl Nat.add 0 + d.day - 1

/-- the month in which a day of a year lies, and the day of that month, given the months from the first
one on -/
def inMonth (month day : Nat) : List Nat → Nat × Nat
  | [] => (month, day + 1)
  | length :: lengths =>
    if day < length || lengths.isEmpty then (month, day + 1)
    else inMonth (month + 1) (day - length) lengths

/-- the date of a day: 400 years have 146097 days, and the years among them are counted off by 100, 4 and 1 -/
def ofDays (days : Int) : Date :=
  let rest := (days % 146097).toNat
  let centuries := min (rest / 36524) 3
  let rest := rest - 36524 * centuries
  let leaps := rest / 1461
  let rest := rest - 1461 * leaps
  let years := min (rest / 365) 3
  let year : Int := 400 * (days / 146097) + 100 * centuries + 4 * leaps + years + 1
  let (month, day) := inMonth 1 (rest - 365 * years) (monthLengths year)
  ⟨year, month, day⟩

end Date

end TypedVocabulary
