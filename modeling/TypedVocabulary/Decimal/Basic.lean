/-!
# Decimals

A decimal is a sign, a whole number and a power of ten.  `ofText?` reads one with or without an
exponent; `text` writes one without an exponent and without needless zeros, `scientific` with one digit
in front of the point.
-/

namespace TypedVocabulary

structure Decimal where
  negative : Bool
  digits : Nat
  exponent : Int
deriving DecidableEq, Repr

namespace Decimal

/-- a sign, and what stands behind it -/
def cutSign : List Char → Bool × List Char
  | '-' :: s => (true, s)
  | '+' :: s => (false, s)
  | s => (false, s)

def natOf (digits : List Char) : Nat := digits.foldl (fun n c => 10 * n + (c.toNat - 48)) 0

/-- digits that make up a whole number, perhaps with a sign -/
def int? (s : List Char) : Option Int :=
  let (negative, digits) := cutSign s
  if !digits.isEmpty && digits.all Char.isDigit then
    some (if negative then -(natOf digits : Int) else natOf digits)
  else none

/-- digits around a point, at least one, with the exponent given -/
def ofMantissa? (negative : Bool) (s : List Char) (exponent : Int) : Option Decimal :=
  let whole := s.takeWhile Char.isDigit
  let fraction? := match s.dropWhile Char.isDigit with
    | [] => some []
    | '.' :: f => if f.all Char.isDigit then some f else none
    | _ => none
  fraction?.bind fun fraction =>
    if whole.isEmpty && fraction.isEmpty then none
    else some ⟨negative, natOf (whole ++ fraction), exponent - fraction.length⟩

/-- reads a decimal; an exponent counts only where it is allowed -/
def ofText? (withExponent : Bool) (text : String) : Option Decimal :=
  let (negative, s) := cutSign text.toList
  let isMark (c : Char) : Bool := withExponent && (c = 'e' || c = 'E')
  match s.dropWhile (!isMark ·) with
  | [] => ofMantissa? negative s 0
  | _ :: e => (int? e).bind fun e => ofMantissa? negative (s.takeWhile (!isMark ·)) e

/-- the number times a power of ten that makes it whole, and that power -/
def ratio (d : Decimal) : Nat × Nat :=
  if 0 ≤ d.exponent then (d.digits * Nat.pow 10 d.exponent.toNat, 1)
  else (d.digits, Nat.pow 10 (-d.exponent).toNat)

/-- how many digits of a number above one stand in front of the point; below a tenth it is negative -/
def places (d : Decimal) : Int := (Nat.repr d.digits).length + d.exponent

/-- the same number with as few digits as it needs; zero has no sign -/
def trimmed (d : Decimal) : Decimal :=
  if d.digits = 0 then ⟨false, 0, 0⟩
  else
    let zeros := ((Nat.repr d.digits).toList.reverse.takeWhile (· = '0')).length
    ⟨d.negative, d.digits / Nat.pow 10 zeros, d.exponent + zeros⟩

/-- a sign, the digits in front of the point, and those behind it if there are any -/
def text (d : Decimal) : String :=
  let all :=
    if 0 ≤ d.exponent then (Nat.repr d.digits).toList ++ List.replicate d.exponent.toNat '0'
    else (Nat.repr d.digits).toList
  let places := (-d.exponent).toNat
  let padded := List.replicate (places + 1 - all.length) '0' ++ all
  let whole := if d.digits = 0 then ['0'] else padded.take (padded.length - places)
  let fraction := ((padded.drop (padded.length - places)).reverse.dropWhile (· = '0')).reverse
  String.ofList ((if d.negative then ['-'] else []) ++ whole ++
    if fraction.isEmpty then [] else '.' :: fraction)

/-- a sign, one digit, a point, the other digits or a zero, and the power of ten -/
def scientific (d : Decimal) : String :=
  let s := (Nat.repr d.digits).toList
  let fraction := if s.tail.isEmpty then ['0'] else s.tail
  String.ofList ((if d.negative then ['-'] else []) ++ s.take 1 ++ '.' :: fraction) ++ "E" ++
    toString (d.places - 1)

end Decimal

end TypedVocabulary
