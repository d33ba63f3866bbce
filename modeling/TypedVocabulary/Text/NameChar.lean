import TypedVocabulary.Text.CharRange

/-!
# Characters of names

The names of RDF documents and of XML are made of the same characters.  Some of them may not begin a name.
-/

namespace TypedVocabulary

/-- the characters outside ASCII that may begin a name -/
def nameRanges : List (Nat × Nat) :=
  [(0xC0, 0xD6), (0xD8, 0xF6), (0xF8, 0x2FF), (0x370, 0x37D), (0x37F, 0x1FFF), (0x200C, 0x200D),
    (0x2070, 0x218F), (0x2C00, 0x2FEF), (0x3001, 0xD7FF), (0xF900, 0xFDCF), (0xFDF0, 0xFFFD),
    (0x10000, 0xEFFFF)]

/-- the characters outside ASCII that may only follow in a name -/
def followRanges : List (Nat × Nat) := [(0xB7, 0xB7), (0x300, 0x36F), (0x203F, 0x2040)]

def isNameLetter (c : Char) : Bool := c.isAlpha || isInRanges nameRanges c

def isNameStart (c : Char) : Bool := isNameLetter c || c = '_'

def isNameChar (c : Char) : Bool := isNameStart c || c = '-' || c.isDigit || isInRanges followRanges c

/-- a name without a colon, as it may stand on either side of one -/
def isSimpleName (s : String) : Bool :=
  match s.toList with
  | c :: s => isNameStart c && s.all fun c => isNameChar c || c = '.'
  | [] => false

end TypedVocabulary
