import TypedVocabulary.Text.CharRange

/-!
# Blank characters and words

`isBlank` is the Unicode property White_Space: 25 characters in ten ranges.  The words of a text
are its longest runs of characters that are not blank; nothing else separates them.
-/

namespace TypedVocabulary

/-- the ranges of the White_Space property, both ends included -/
def blankRanges : List (Nat × Nat) :=
  [(0x09, 0x0D), (0x20, 0x20), (0x85, 0x85), (0xA0, 0xA0), (0x1680, 0x1680), (0x2000, 0x200A),
    (0x2028, 0x2029), (0x202F, 0x202F), (0x205F, 0x205F), (0x3000, 0x3000)]

def isBlank (c : Char) : Bool := isInRanges blankRanges c

/-- a text of blanks only -/
def isBlankText (s : String) : Bool := s.toList.all isBlank

/-- the words of a text, after the characters `word` (last one first) of an open word -/
def wordsFrom (word : List Char) : List Char → List (List Char)
  | [] => if word.isEmpty then [] else [word.reverse]
  | c :: cs =>
    if isBlank c then
      if word.isEmpty then wordsFrom [] cs else word.reverse :: wordsFrom [] cs
    else wordsFrom (c :: word) cs

def words (s : String) : List String := (wordsFrom [] s.toList).map String.ofList

/-- every line with its line feed -/
def unlines (ls : List String) : String := String.join (ls.map (· ++ "\n"))

end TypedVocabulary
