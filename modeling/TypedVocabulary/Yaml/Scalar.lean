import TypedVocabulary.Yaml.Text
import TypedVocabulary.Text.Hex

/-!
# Scalars of YAML

The five ways to write a scalar: plain, in single or double quotes, and as a literal or folded block.  Each
reader gives the value and what is left of the text.
-/

namespace TypedVocabulary.Yaml

/-! ## plain scalars -/

def isFlowMark (c : Char) : Bool := c = ',' || c = '[' || c = ']' || c = '\x7b' || c = '\x7d'

/-- a colon in front of these is refused within brackets -/
def isColonStop : List Char → Bool
  | c :: _ => isFlowMark c || c = '?'
  | [] => false

/-- a plain scalar ends in front of `c`, which follows `gap` (last character first) -/
def endsPlain (inFlow : Bool) (indent column : Nat) (gap : List Char) (c : Char) (s : List Char) : Bool :=
  (!gap.isEmpty && c = '#') || (gap.any isBreak && !inFlow && column < indent) ||
    (column = 0 && isMark (c :: s)) || (c = ':' && atGap s) || (inFlow && isFlowMark c)

/-- a plain scalar from a column on, after a gap: its value, and whether a line ends behind it -/
def plainFrom (inFlow : Bool) (indent column : Nat) (gap : List Char) :
    (s : List Char) → Option (List Char × Bool × Rest s)
  | [] => some ([], gap.any isBreak, .all [])
  | c :: s =>
    if isBreak c then
      (plainFrom inFlow indent 0 (c :: gap) s).map fun (v, b, r) => (v, b, r.behind)
    else if isSpacing c then
      if c = '\t' && gap.any isBreak && column < indent then none
      else
        (plainFrom inFlow indent (column + 1) (c :: gap) s).map fun (v, b, r) => (v, b, r.behind)
    else if endsPlain inFlow indent column gap c s then some ([], gap.any isBreak, .all (c :: s))
    else if inFlow && c = ':' && isColonStop s then none
    else
      (plainFrom inFlow indent (column + 1) [] s).map fun (v, b, r) =>
        (gapText gap.reverse ++ c :: v, b, r.behind)

/-! ## quoted scalars -/

/-- what follows an opening single quote and a gap (last character first) -/
def singleQuotedFrom (gap : List Char) : (s : List Char) → Option (Read s)
  | [] => none
  | c :: s =>
    if isGap c then ahead [] (singleQuotedFrom (c :: gap) s)
    else if gap.head?.any isBreak && isMark (c :: s) then none
    else if c = '\'' then
      match s with
      | '\'' :: t => ahead (gapText gap.reverse ++ ['\'']) (ahead [] (singleQuotedFrom [] t))
      | t => some (gapText gap.reverse, (Rest.all t).behind)
    else ahead (gapText gap.reverse ++ [c]) (singleQuotedFrom [] s)

/-- where a reader stands between double quotes -/
inductive QuotePlace where
  /-- after a gap (last character first); it is joined where an escaped line end opens it -/
  | text (gap : List Char) (joined : Bool)
  /-- after a backslash -/
  | escape
  /-- before the last digits of a character's number -/
  | digits (left value : Nat)

/-- the characters that stand for one other character after a backslash -/
def escapes : List (Char × Nat) :=
  [('0', 0), ('a', 7), ('b', 8), ('t', 9), ('\t', 9), ('n', 10), ('v', 11), ('f', 12), ('r', 13),
    ('e', 27), (' ', 32), ('"', 34), ('/', 47), ('\\', 92), ('N', 0x85), ('_', 0xA0), ('L', 0x2028),
    ('P', 0x2029)]

/-- how many hexadecimal digits follow -/
def escapeDigits? (c : Char) : Option Nat := [('x', 2), ('u', 4), ('U', 8)].lookup c

def joinedText (gap : List Char) (joined : Bool) : List Char :=
  if joined then gap.filter isBreak else gapText gap

/-- what follows an opening double quote -/
def doubleQuotedFrom : QuotePlace → (s : List Char) → Option (Read s)
  | _, [] => none
  | .text gap joined, c :: s =>
    if isGap c then ahead [] (doubleQuotedFrom (.text (c :: gap) joined) s)
    else if (gap.head?.any isBreak || joined && gap.isEmpty) && isMark (c :: s) then none
    else if c = '"' then some (joinedText gap.reverse joined, (Rest.all s).behind)
    else if c = '\\' then ahead (joinedText gap.reverse joined) (doubleQuotedFrom .escape s)
    else ahead (joinedText gap.reverse joined ++ [c]) (doubleQuotedFrom (.text [] false) s)
  | .escape, c :: s =>
    if isBreak c then ahead [] (doubleQuotedFrom (.text [] true) s)
    else
      match escapes.lookup c, escapeDigits? c with
      | some n, _ => ahead [Char.ofNat n] (doubleQuotedFrom (.text [] false) s)
      | none, some n => ahead [] (doubleQuotedFrom (.digits n 0) s)
      | none, none => none
  | .digits left value, c :: s =>
    match hexValue? c with
    | none => none
    | some d =>
      if 1 < left then ahead [] (doubleQuotedFrom (.digits (left - 1) (16 * value + d)) s)
      else if (16 * value + d).isValidChar then
        ahead [Char.ofNat (16 * value + d)] (doubleQuotedFrom (.text [] false) s)
      else none

/-! ## block scalars -/

/-- what becomes of the line ends behind a block -/
inductive Chomping where
  | strip
  | clip
  | keep
deriving DecidableEq

def chomping? (c : Char) : Option Chomping := [('-', .strip), ('+', .keep)].lookup c

/-- a digit that gives a block's indentation -/
def increment? (c : Char) : Option Nat := if '1' ≤ c && c ≤ '9' then some (c.toNat - 48) else none

/-- the signs behind the mark of a block -/
def blockSigns? : List Char → Option (Chomping × Option Nat)
  | [] => some (.clip, none)
  | [a] => ((chomping? a).map (·, none)).or ((increment? a).map (.clip, some ·))
  | [a, b] =>
    match chomping? a, increment? b, increment? a, chomping? b with
    | some h, some n, _, _ => some (h, some n)
    | _, _, some n, some h => some (h, some n)
    | _, _, _, _ => none
  | _ => none

/-- a line, and its line end unless the text ends first -/
structure Line where
  content : List Char
  ending : List Char

def lines : List Char → List Line
  | [] => []
  | c :: s =>
    if isBreak c then ⟨[], [c]⟩ :: lines s
    else
      match lines s with
      | [] => [⟨[c], []⟩]
      | l :: ls => ⟨c :: l.content, l.ending⟩ :: ls

def Line.length (l : Line) : Nat := l.content.length + l.ending.length

/-- the number of blanks in front of a line -/
def Line.indent (l : Line) : Nat := (l.content.takeWhile (· = ' ')).length

/-- the indentation that the first lines of a block show -/
def shownIndent? : List Line → Option Nat
  | [] => some 0
  | l :: ls =>
    match l.content.drop l.indent with
    | [] => (shownIndent? ls).map (max l.indent)
    | c :: _ => if c = '\t' then none else some l.indent

/-- the lines of a block without their indentation; a line with less of it ends the block, unless it is
empty -/
def blockLines? (indent : Nat) : List Line → Option (List Line)
  | [] => some []
  | l :: ls =>
    let content := l.content.drop (min l.indent indent)
    if content.isEmpty && l.ending.isEmpty then some []
    else if content.isEmpty || indent ≤ l.indent then
      (blockLines? indent ls).map (⟨content, l.ending⟩ :: ·)
    else if content.head? = some '\t' then none
    else some []

/-- a line of a block with the line ends of the empty lines behind it -/
structure Stretch where
  line : Line
  breaks : List Char

/-- the line ends of the empty lines in front of a block, and its stretches -/
def stretches : List Line → List Char × List Stretch
  | [] => ([], [])
  | l :: ls =>
    let (breaks, rest) := stretches ls
    if l.content.isEmpty then (l.ending ++ breaks, rest) else ([], ⟨l, breaks⟩ :: rest)

/-- between two lines that begin with no blank, folding turns a line feed into a blank or drops it -/
def stretchText (folded : Bool) : List Stretch → List Char
  | [] => []
  | [a] => a.line.content
  | a :: b :: rest =>
    let flush (l : Line) := !l.content.head?.any isSpacing
    let ending :=
      if folded && a.line.ending = ['\n'] && flush a.line && flush b.line then
        if a.breaks.isEmpty then [' '] else []
      else a.line.ending
    a.line.content ++ ending ++ a.breaks ++ stretchText folded (b :: rest)

def blockText (folded : Bool) (chomping : Chomping) (ls : List Line) : List Char :=
  let (before, body) := stretches ls
  let breaks := (body.getLast?.map (·.breaks)).getD []
  let ending := (body.getLast?.map (·.line.ending)).getD []
  match chomping with
  | .strip => (if body.isEmpty then [] else before) ++ stretchText folded body
  | .clip => (if body.isEmpty then [] else before) ++ stretchText folded body ++ ending
  | .keep => before ++ stretchText folded body ++ ending ++ breaks

/-- what follows the mark of a block, in a collection whose entries stand `floor` columns in or more -/
def blockScalar? (folded : Bool) (parent : Option Nat) (s : List Char) : Option (Read s) := do
  let signs := s.takeWhile fun c => c = '+' || c = '-' || c.isDigit
  let (chomping, increment) ← blockSigns? signs
  let margin := (s.drop signs.length).takeWhile isSpacing
  let header := signs ++ margin
  let comment := match s.drop header.length with
    | '#' :: t => '#' :: t.takeWhile (!isBreak ·)
    | _ => []
  let ending ← match s.drop (header ++ comment).length with
    | [] => some []
    | c :: _ => if isBreak c then some [c] else none
  let top := (header ++ comment ++ ending).length
  let body := lines (s.drop top)
  let floor := match parent with
    | some column => column + 1
    | none => 0
  let indent ← match increment with
    | some n => some (parent.getD 0 + n)
    | none => (shownIndent? body).map fun n => max (max n floor) 1
  let taken ← blockLines? indent body
  let length := ((body.take taken.length).map Line.length).foldl Nat.add 0
  return (blockText folded chomping taken, .drop (top + length) s)

end TypedVocabulary.Yaml
