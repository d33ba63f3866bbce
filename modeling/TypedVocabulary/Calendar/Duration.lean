import TypedVocabulary.Decimal.Fixed
import TypedVocabulary.Text.Rest

/-!
# Durations

A duration is a number of months and a number of seconds, both of one sign.  It is written as counts of
years, months and days and, behind a `T`, of hours, minutes and seconds; of months twelve are written as
a year, and so on.
-/

namespace TypedVocabulary

structure Duration where
  months : Int
  seconds : Fixed

namespace Duration

/-! ## reading -/

/-- what a count counts -/
inductive Measure where
  | months (each : Nat)
  | seconds (each : Nat)
  /-- seconds, with places behind a point -/
  | decimalSeconds
deriving DecidableEq

def dateMeasures : List (Char × Measure) :=
  [('Y', .months 12), ('M', .months 1), ('D', .seconds 86400)]

def timeMeasures : List (Char × Measure) :=
  [('H', .seconds 3600), ('M', .seconds 60), ('S', .decimalSeconds)]

/-- what is read so far, and the measures that may follow -/
structure Reading where
  months : Option Nat
  /-- in units of a fixed-point decimal -/
  seconds : Option Nat
  inTime : Bool
  measures : List (Char × Measure)

/-- a count with its measure -/
def Reading.add? (r : Reading) (number : List Char) (mark : Char) : Option Reading := do
  let left := r.measures.dropWhile (·.1 ≠ mark)
  let (_, measure) ← left.head?
  let isWhole := !number.isEmpty && number.all Char.isDigit
  match measure with
  | .months each =>
    if isWhole then
      some { r with months := some (r.months.getD 0 + each * Decimal.natOf number), measures := left.tail }
    else none
  | .seconds each =>
    if isWhole then
      some { r with
        seconds := some (r.seconds.getD 0 + each * Decimal.natOf number * Fixed.unit)
        measures := left.tail }
    else none
  | .decimalSeconds => do
    let count ← Fixed.ofText? (.ofList number)
    return { r with seconds := some (r.seconds.getD 0 + count.units.toNat), measures := left.tail }

/-- a count, or the mark in front of the time of day -/
def Reading.step? (r : Reading) (c : Char) (s : List Char) : Option (Reading × Rest s) :=
  if c = 'T' then
    if r.inTime then none else some ({ r with inTime := true, measures := timeMeasures }, .all s)
  else
    let isNumberChar (c : Char) := c.isDigit || c = '.'
    let number := s.takeWhile isNumberChar
    match (Rest.drop number.length s).text with
    | mark :: _ =>
      if isNumberChar c then
        (r.add? (c :: number) mark).map (·, Rest.drop (number.length + 1) s)
      else none
    | [] => none

/-- which counts a datatype of durations allows -/
structure Scope where
  months : Bool
  seconds : Bool
  /-- the text of no time at all -/
  zero : String

def scope? (datatype : String) : Option Scope :=
  [("duration", ⟨true, true, "PT0S"⟩), ("yearMonthDuration", ⟨true, false, "P0M"⟩),
    ("dayTimeDuration", ⟨false, true, "PT0S"⟩)].lookup datatype

def ofText? (scope : Scope) (text : String) : Option Duration := do
  let negative := text.toList.head? = some '-'
  let r ← match if negative then text.toList.tail else text.toList with
    | 'P' :: s => readAll Reading.step? ⟨none, none, false, dateMeasures⟩ s
    | _ => none
  let signed (n : Nat) : Int := if negative then -n else n
  let months := signed (r.months.getD 0)
  let seconds ← Fixed.ofUnits? (signed (r.seconds.getD 0))
  if (r.months.isSome || r.seconds.isSome) && (scope.months || r.months.isNone) &&
      (scope.seconds || r.seconds.isNone) && -Int.pow 2 63 ≤ months && months < Int.pow 2 63 then
    some ⟨months, seconds⟩
  else none

/-! ## writing -/

/-- a count with its mark, unless it is zero -/
def countText (n : Nat) (mark : String) : String := if n = 0 then "" else toString n ++ mark

def text (scope : Scope) (d : Duration) : String :=
  let months := d.months.natAbs
  let units := d.seconds.units.natAbs
  let seconds := units / Fixed.unit
  let rest := units % (60 * Fixed.unit)
  let time := countText (seconds % 86400 / 3600) "H" ++ countText (seconds % 3600 / 60) "M" ++
    if rest = 0 then "" else Decimal.text ⟨false, rest, -18⟩ ++ "S"
  if months = 0 && units = 0 then scope.zero
  else
    (if d.months < 0 || d.seconds.units < 0 then "-" else "") ++ "P" ++
      countText (months / 12) "Y" ++ countText (months % 12) "M" ++ countText (seconds / 86400) "D" ++
      if time.isEmpty then "" else "T" ++ time

/-- the one written form of a duration -/
def canonical? (scope : Scope) (text : String) : Option String :=
  (ofText? scope text).map (·.text scope)

end Duration

end TypedVocabulary
