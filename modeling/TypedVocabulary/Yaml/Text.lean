import TypedVocabulary.Text.ByteOrderMark
import TypedVocabulary.Text.Rest

/-!
# Characters of YAML

Lines end with a line feed, a carriage return, both, or one of three Unicode line ends.  `normalize?`
refuses the characters that no document may hold and writes all line ends but two as line feeds.  A run
of blanks and line ends inside a scalar is a gap; `gapText` folds it.
-/

namespace TypedVocabulary.Yaml

/-- a line end of a normalized text -/
def isBreak (c : Char) : Bool := c = '\n' || c.toNat = 0x2028 || c.toNat = 0x2029

def isSpacing (c : Char) : Bool := c = ' ' || c = '\t'

def isGap (c : Char) : Bool := isSpacing c || isBreak c

/-- a blank, a line end or the end of the text comes next -/
def atGap : List Char → Bool
  | [] => true
  | c :: _ => isGap c

/-- may stand in a document -/
def isAllowed (c : Char) : Bool :=
  let n := c.toNat
  n = 9 || n = 10 || n = 13 || (32 ≤ n && n ≤ 126) || n = 0x85 || (0xA0 ≤ n && n ≤ 0xFFFD) || 0x10000 ≤ n

/-- carriage returns, with or without a line feed, and next-line characters become line feeds -/
def unifyBreaks : List Char → List Char
  | '\r' :: '\n' :: s => '\n' :: unifyBreaks s
  | c :: s => (if c = '\r' || c.toNat = 0x85 then '\n' else c) :: unifyBreaks s
  | [] => []

/-- a text without its byte order mark, with its line ends unified -/
def normalize? (s : List Char) : Option (List Char) :=
  let s := withoutByteOrderMark s
  if s.all isAllowed then some (unifyBreaks s) else none

/-- three dashes or three dots that end a document, where a line begins -/
def isMark : List Char → Bool
  | '-' :: '-' :: '-' :: s => atGap s
  | '.' :: '.' :: '.' :: s => atGap s
  | _ => false

/-- what a gap inside a scalar stands for: blanks alone for themselves, one line feed for a blank, and more
line ends for all but the first -/
def gapText (gap : List Char) : List Char :=
  match gap.filter isBreak with
  | [] => gap
  | ['\n'] => [' ']
  | '\n' :: breaks => breaks
  | breaks => breaks

end TypedVocabulary.Yaml
