import TypedVocabulary.Calendar.Date
import TypedVocabulary.Decimal.Fixed

/-!
# Written moments

A moment is written as some of its parts, from the year to the second, in a pattern, and perhaps its
distance from universal time.  What is read is a place on the timeline: the parts that a pattern leaves
out are filled in, and 24 o'clock is the beginning of the next day.  The place is written in the same
pattern.
-/

namespace TypedVocabulary

/-- the parts of a moment as they are written -/
structure Moment where
  year : Option Int
  month : Option Nat
  day : Option Nat
  hour : Nat
  minute : Nat
  /-- in units of a fixed-point decimal -/
  second : Int
  /-- how many minutes the clock is ahead of universal time -/
  zone : Option Int

/-- a part of a pattern, or a mark between parts -/
inductive MomentPart where
  | mark (c : Char)
  | year
  | month
  | day
  | hour
  | minute
  | second
deriving DecidableEq

namespace MomentPart

def date : List MomentPart := [.year, .mark '-', .month, .mark '-', .day]

def time : List MomentPart := [.hour, .mark ':', .minute, .mark ':', .second]

/-- the pattern of a datatype of moments -/
def pattern? (datatype : String) : Option (List MomentPart) :=
  [("dateTime", date ++ .mark 'T' :: time), ("date", date), ("time", time),
    ("gYearMonth", [.year, .mark '-', .month]), ("gYear", [.year]),
    ("gMonthDay", [.mark '-', .mark '-', .month, .mark '-', .day]),
    ("gDay", [.mark '-', .mark '-', .mark '-', .day]),
    ("gMonth", [.mark '-', .mark '-', .month])].lookup datatype

end MomentPart

namespace Moment

/-! ## reading -/

/-- two digits that make up a number in a range, and what stands behind them -/
def twoDigits? (low high : Nat) (s : List Char) : Option (Nat × List Char) :=
  let digits := s.takeWhile Char.isDigit
  let n := Decimal.natOf digits
  if digits.length = 2 && low ≤ n && n ≤ high then some (n, s.drop 2) else none

/-- four digits, or more that begin with no zero -/
def year? (s : List Char) : Option (Int × List Char) :=
  let negative := s.head? = some '-'
  let s := if negative then s.tail else s
  let digits := s.takeWhile Char.isDigit
  let n : Int := Decimal.natOf digits
  if digits.length = 4 || (4 < digits.length && digits.head? ≠ some '0') then
    some (if negative then -n else n, s.drop digits.length)
  else none

/-- two digits and perhaps places behind a point, below 60 -/
def second? (s : List Char) : Option (Int × List Char) := do
  let number := s.takeWhile fun c => c.isDigit || c = '.'
  let value ← Fixed.ofText? (.ofList number)
  let isWritten := (number.takeWhile (· ≠ '.')).length = 2 && number.getLast? ≠ some '.'
  if isWritten && value.units < 60 * Fixed.unit then
    some (value.units, s.drop number.length)
  else none

/-- nothing, universal time, or a distance of at most 14 hours -/
def zone? : List Char → Option (Option Int)
  | [] => some none
  | ['Z'] => some (some 0)
  | sign :: s => do
    let (hours, s) ← twoDigits? 0 14 s
    match s with
    | ':' :: s =>
      let (minutes, s) ← twoDigits? 0 (if hours = 14 then 0 else 59) s
      let distance : Int := 60 * hours + minutes
      if !s.isEmpty then none
      else if sign = '+' then some (some distance)
      else if sign = '-' then some (some (-distance))
      else none
    | _ => none

/-- a part of a moment -/
def readPart? (m : Moment) (s : List Char) : MomentPart → Option (Moment × List Char)
  | .mark c => if s.head? = some c then some (m, s.tail) else none
  | .year => (year? s).map fun (n, s) => ({ m with year := some n }, s)
  | .month => (twoDigits? 1 12 s).map fun (n, s) => ({ m with month := some n }, s)
  | .day => (twoDigits? 1 31 s).map fun (n, s) => ({ m with day := some n }, s)
  | .hour => (twoDigits? 0 24 s).map fun (n, s) => ({ m with hour := n }, s)
  | .minute => (twoDigits? 0 59 s).map fun (n, s) => ({ m with minute := n }, s)
  | .second => (second? s).map fun (n, s) => ({ m with second := n }, s)

/-- the day is one of its month, and behind 24 o'clock only minutes or only seconds may follow -/
def isValid (m : Moment) : Bool :=
  (match m.month, m.day with
    | some month, some day => day ≤ Date.monthLength m.year month
    | _, _ => true) && (m.hour ≠ 24 || m.minute = 0 || m.second = 0)

def ofText? (pattern : List MomentPart) (text : String) : Option Moment := do
  let (m, s) ← pattern.foldlM (fun (m, s) part => readPart? m s part)
    (⟨none, none, none, 0, 0, 0, none⟩, text.toList)
  let zone ← zone? s
  if m.isValid then some { m with zone } else none

/-! ## writing -/

/-- digits with zeros in front of them -/
def padded (width n : Nat) : String :=
  let digits := toString n
  String.ofList (List.replicate (width - digits.length) '0') ++ digits

def secondText (second : Int) : String :=
  (if second < 10 * Fixed.unit then "0" else "") ++ Decimal.text ⟨false, second.toNat, -18⟩

def partText (m : Moment) : MomentPart → String
  | .mark c => String.singleton c
  | .year =>
    let year := m.year.getD 0
    (if year < 0 then "-" else "") ++ padded 4 year.natAbs
  | .month => padded 2 (m.month.getD 0)
  | .day => padded 2 (m.day.getD 0)
  | .hour => padded 2 m.hour
  | .minute => padded 2 m.minute
  | .second => secondText m.second

def zoneText (minutes : Int) : String :=
  if minutes = 0 then "Z"
  else
    (if minutes < 0 then "-" else "+") ++ padded 2 (minutes.natAbs / 60) ++ ":" ++
      padded 2 (minutes.natAbs % 60)

def text (m : Moment) (pattern : List MomentPart) : String :=
  String.join (pattern.map m.partText) ++ (m.zone.map zoneText).getD ""

/-! ## the timeline -/

/-- the date, with the last day of 1972 for what is left out -/
def date (m : Moment) : Date :=
  let year := m.year.getD 1972
  let month := m.month.getD 12
  ⟨year, month, m.day.getD (Date.monthLength (some year) month)⟩

/-- the place on the timeline, from the first day of the year 1 in universal time -/
def place? (m : Moment) : Option Fixed := do
  let minutes : Int := 1440 * m.date.days + 60 * m.hour + m.minute - m.zone.getD 0
  let place ← Fixed.ofUnits? (60 * minutes * Fixed.unit)
  Fixed.ofUnits? (place.units + m.second)

/-- all parts of a place on the timeline -/
def ofPlace (place : Fixed) (zone : Option Int) : Moment :=
  let seconds := place.whole + 60 * zone.getD 0
  let date := Date.ofDays (seconds / 86400)
  { year := some date.year
    month := some date.month
    day := some date.day
    hour := (seconds % 86400 / 3600).toNat
    minute := (seconds % 3600 / 60).toNat
    second := place.units % (60 * Fixed.unit)
    zone }

/-- the one written form of a moment that is written in a pattern -/
def canonical? (pattern : List MomentPart) (text : String) : Option String := do
  let m ← ofText? pattern text
  let place ← m.place?
  return (ofPlace place m.zone).text pattern

end Moment

end TypedVocabulary
