import TypedVocabulary.Decimal.Basic

/-!
# Binary fractions and their shortest decimals

A binary format holds the numbers `m * 2 ^ q` with `m` below a power of two and `q` in a range.
`nearest?` rounds a ratio to the format, a tie to the even side.  `shortest?` gives the decimal with the
fewest digits that rounds to the same number, of two the nearer one.
-/

namespace TypedVocabulary

structure BinaryFormat where
  precision : Nat
  minExponent : Int
  maxExponent : Int

namespace BinaryFormat

/-- 53 bits, as in a 64-bit word -/
def double : BinaryFormat := ⟨53, -1074, 971⟩

/-- 24 bits, as in a 32-bit word -/
def single : BinaryFormat := ⟨24, -149, 104⟩

/-- a ratio as the nearest whole number, a tie as the even one -/
def roundHalfEven (num den : Nat) : Nat :=
  let n := num / den
  let twice := 2 * (num % den)
  if den < twice || (twice = den && n % 2 = 1) then n + 1 else n

/-- a ratio in units of a power of two, rounded -/
def scaled (num den : Nat) (q : Int) : Nat :=
  if 0 ≤ q then roundHalfEven num (den * Nat.pow 2 q.toNat)
  else roundHalfEven (num * Nat.pow 2 (-q).toNat) den

/-- the number nearest to a ratio above zero, as a multiple of a power of two; none if it is too large -/
def nearest? (f : BinaryFormat) (num den : Nat) : Option (Nat × Int) :=
  let low : Int := max f.minExponent ((num.log2 : Int) - den.log2 - f.precision)
  let q := if scaled num den low < Nat.pow 2 f.precision then low else low + 1
  let m := scaled num den q
  let (m, q) := if m < Nat.pow 2 f.precision then (m, q) else (m / 2, q + 1)
  if q ≤ f.maxExponent then some (m, q) else none

/-- `num / den` rounded to multiples of a power of ten, downwards and upwards, the nearer one first -/
def neighbours (num den : Nat) (exponent : Int) : List Decimal :=
  let (num, den) :=
    if 0 ≤ exponent then (num, den * Nat.pow 10 exponent.toNat)
    else (num * Nat.pow 10 (-exponent).toNat, den)
  let n := num / den
  let down := ⟨false, n, exponent⟩
  let up := ⟨false, n + 1, exponent⟩
  if 2 * (num % den) ≤ den then [down, up] else [up, down]

/-- the decimal with the fewest digits for the number nearest to a ratio above zero -/
def shortest? (f : BinaryFormat) (num den : Nat) : Option Decimal := do
  let value ← f.nearest? num den
  let (n, d) :=
    if 0 ≤ value.2 then (value.1 * Nat.pow 2 value.2.toNat, 1)
    else (value.1, Nat.pow 2 (-value.2).toNat)
  if n = 0 then some ⟨false, 0, 0⟩
  else
    let top : Int := if d ≤ n then (Nat.repr (n / d)).length else 1 - (Nat.repr (d / n)).length
    let candidates := (List.range 20).flatMap fun (k : Nat) => neighbours n d (top - k)
    candidates.find? fun c => 0 < c.digits && f.nearest? c.ratio.1 c.ratio.2 = some value

end BinaryFormat

end TypedVocabulary
