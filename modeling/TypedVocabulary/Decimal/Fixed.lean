import TypedVocabulary.Decimal.Basic

/-!
# Fixed-point decimals

A fixed-point decimal is a whole number of units, `10 ^ 18` of which make one, and fits into 128 bits.
-/

namespace TypedVocabulary

structure Fixed where
  units : Int
  fits : -Int.pow 2 127 ≤ units ∧ units < Int.pow 2 127

namespace Fixed

/-- how many units make one -/
def unit : Nat := Nat.pow 10 18

def ofUnits? (units : Int) : Option Fixed :=
  if h : -Int.pow 2 127 ≤ units ∧ units < Int.pow 2 127 then some ⟨units, h⟩ else none

/-- a decimal without an exponent, with at most 18 places that count -/
def ofText? (text : String) : Option Fixed :=
  (Decimal.ofText? false text).bind fun d =>
    let (num, den) := d.ratio
    let units : Int := num * unit / den
    if num * unit % den = 0 then ofUnits? (if d.negative then -units else units) else none

def text (f : Fixed) : String := Decimal.text ⟨f.units < 0, f.units.natAbs, -18⟩

/-- the whole part, what is behind the point cut off -/
def whole (f : Fixed) : Int := f.units.tdiv unit

end Fixed

end TypedVocabulary
