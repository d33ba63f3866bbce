/-!
# Ranges of characters

A class of characters is given as ranges of their numbers, both ends included.
-/

namespace TypedVocabulary

/-- a character in one of some ranges -/
def isInRanges (ranges : List (Nat × Nat)) (c : Char) : Bool :=
  ranges.any fun r => r.1 ≤ c.toNat && c.toNat ≤ r.2

end TypedVocabulary
