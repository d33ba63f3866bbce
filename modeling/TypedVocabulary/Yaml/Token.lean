import TypedVocabulary.Yaml.Scalar

/-!
# Tokens of YAML

A document is read as tokens in which its layout is explicit: a block collection opens where an entry
stands further in than those around it, and closes where one stands further out.

A key is known only by the colon behind it.  A node that begins where a key may begin is a candidate;
when a colon follows on the same line, the marks of a key are put in front of it.
-/

namespace TypedVocabulary.Yaml

inductive Token where
  | directive
  | documentStart
  | documentEnd
  | blockSequence
  | blockMapping
  | blockEnd
  | flowSequence
  | flowSequenceEnd
  | flowMapping
  | flowMappingEnd
  | dash
  | comma
  | key
  | value
  | scalar (plain : Bool) (text : String)
deriving DecidableEq

/-- a place in a text -/
structure Place where
  line : Nat
  column : Nat
  offset : Nat

/-- the place behind a text -/
def Place.after (p : Place) (s : List Char) : Place :=
  s.foldl (fun p c =>
    if isBreak c then ⟨p.line + 1, 0, p.offset + 1⟩
    else ⟨p.line, p.column + 1, p.offset + 1⟩) p

/-- a node that may turn out to be a key -/
structure Candidate where
  place : Place
  /-- how many tokens stand in front of it -/
  index : Nat
  /-- it has to be a key, for it stands where the entries of a mapping stand -/
  required : Bool

/-- what is known behind a front of a text -/
structure Layout where
  place : Place
  /-- the last token first -/
  tokens : List Token
  /-- the columns of the open block collections, the innermost first -/
  columns : List Nat
  candidate : Option Candidate
  /-- the candidates outside of each open flow collection, the innermost first -/
  outer : List (Option Candidate)
  keyAllowed : Bool

namespace Layout

def start : Layout := ⟨⟨0, 0, 0⟩, [], [], none, [], true⟩

def inFlow (l : Layout) : Bool := !l.outer.isEmpty

def emit (l : Layout) (t : Token) : Layout := { l with tokens := t :: l.tokens }

/-- puts a token behind the first `index` ones -/
def emitAt (l : Layout) (index : Nat) (t : Token) : Layout :=
  let n := l.tokens.length - index
  { l with tokens := l.tokens.take n ++ t :: l.tokens.drop n }

/-- opens a block collection at a column, unless one is open there -/
def openBlock (l : Layout) (column index : Nat) (t : Token) : Layout :=
  if !l.inFlow && l.columns.head?.all (· < column) then
    { l.emitAt index t with columns := column :: l.columns }
  else l

/-- closes the block collections whose column has a property -/
def closeWhile (l : Layout) (p : Nat → Bool) : Layout :=
  if l.inFlow then l
  else
    { l with
      tokens := (l.columns.takeWhile p).map (fun _ => .blockEnd) ++ l.tokens
      columns := l.columns.dropWhile p }

/-- the candidate is no key -/
def dropCandidate? (l : Layout) : Option Layout :=
  if l.candidate.any (·.required) then none else some { l with candidate := none }

/-- the node that begins here may be a key, if one is allowed -/
def offer? (l : Layout) : Option Layout :=
  if l.keyAllowed then
    l.dropCandidate?.map fun l =>
      let required := !l.inFlow && l.columns.head? = some l.place.column
      { l with candidate := some ⟨l.place, l.tokens.length, required⟩ }
  else some l

/-- a candidate counts on its line and for 1024 characters -/
def isStale (p : Place) (c : Candidate) : Bool :=
  c.place.line < p.line || c.place.offset + 1024 < p.offset

/-- drops the candidates that are too far back -/
def dropStale? (l : Layout) : Option Layout :=
  if (l.candidate :: l.outer).any fun c => c.any fun c => isStale l.place c && c.required then none
  else
    let fresh (c : Option Candidate) := c.filter fun c => !isStale l.place c
    some { l with candidate := fresh l.candidate, outer := l.outer.map fresh }

/-- moves behind a character and what a reader took after it -/
def move {s : List Char} (l : Layout) (c : Char) (r : Rest s) : Layout × Rest s :=
  ({ l with place := l.place.after (c :: r.front) }, r)

/-! ## tokens -/

def openFlow? (l : Layout) (t : Token) : Option Layout :=
  l.offer?.map fun l =>
    { l.emit t with outer := l.candidate :: l.outer, candidate := none, keyAllowed := true }

def closeFlow? (l : Layout) (t : Token) : Option Layout :=
  l.dropCandidate?.map fun l =>
    { l.emit t with candidate := l.outer.head?.join, outer := l.outer.tail, keyAllowed := false }

/-- an entry of a block sequence, or an explicit key -/
def entry? (l : Layout) (collection t : Token) (keyAfter : Bool) : Option Layout :=
  if !l.inFlow && !l.keyAllowed then none
  else
    (l.openBlock l.place.column l.tokens.length collection).dropCandidate?.map fun l =>
      { l.emit t with keyAllowed := keyAfter }

/-- a colon: the candidate, if there is one, is a key -/
def value? (l : Layout) : Option Layout :=
  match l.candidate with
  | some c =>
    let l := (l.emitAt c.index .key).openBlock c.place.column c.index .blockMapping
    some { l.emit .value with candidate := none, keyAllowed := false }
  | none =>
    if l.inFlow then some { l.emit .value with keyAllowed := false }
    else if l.keyAllowed then
      some ((l.openBlock l.place.column l.tokens.length .blockMapping).emit .value)
    else none

/-- a mark or a directive closes everything -/
def endDocument? (l : Layout) (t : Token) : Option Layout :=
  ((l.closeWhile fun _ => true).dropCandidate?).map fun l => { l.emit t with keyAllowed := false }

/-- at most nine digits that make up one of some numbers below ten -/
def isVersionPart (numbers : List Char) (digits : List Char) : Bool :=
  digits.length ≤ 9 && numbers.any fun n => digits.dropWhile (· = '0') = [n]

/-- the only directive that is understood: version 1.1 or 1.2, and perhaps a comment -/
def isDirective (line : List Char) : Bool :=
  let version := (line.drop 4).dropWhile isSpacing
  let minor := (version.dropWhile Char.isDigit).drop 1
  let behind := (minor.dropWhile Char.isDigit).dropWhile isSpacing
  line.take 4 = "YAML".toList && (line.drop 4).head?.any isSpacing &&
    isVersionPart ['1'] (version.takeWhile Char.isDigit) &&
    (version.dropWhile Char.isDigit).head? = some '.' &&
    isVersionPart ['1', '2'] (minor.takeWhile Char.isDigit) &&
    (behind.isEmpty || behind.head? = some '#')

/-- begins no plain scalar -/
def isIndicator (c : Char) : Bool := "-?:,[]\x7b\x7d#&*!|>'\"%@".toList.contains c || c.toNat = 0x60

def startsPlain (inFlow : Bool) (c : Char) (s : List Char) : Bool :=
  !(isGap c || isIndicator c) || (c = '-' && !atGap s) ||
    (!inFlow && (c = '?' || c = ':') && !atGap s)

/-- a token that begins with `c` -/
def token? (l : Layout) (c : Char) (s : List Char) : Option (Layout × Rest s) :=
  let column := l.place.column
  let one (r : Option Layout) := r.map (·.move c (Rest.all s))
  if column = 0 && c = '%' then
    if isDirective (s.takeWhile (!isBreak ·)) then
      (l.endDocument? .directive).map (·.move c (Rest.dropWhile (!isBreak ·) s))
    else none
  else if column = 0 && isMark (c :: s) then
    (l.endDocument? (if c = '-' then .documentStart else .documentEnd)).map (·.move c (Rest.drop 2 s))
  else if c = '[' then one (l.openFlow? .flowSequence)
  else if c = '\x7b' then one (l.openFlow? .flowMapping)
  else if c = ']' then one (l.closeFlow? .flowSequenceEnd)
  else if c = '\x7d' then one (l.closeFlow? .flowMappingEnd)
  else if c = ',' then
    one (l.dropCandidate?.map fun l => { l.emit .comma with keyAllowed := true })
  else if c = '-' && atGap s then one (l.entry? .blockSequence .dash true)
  else if c = '?' && (l.inFlow || atGap s) then one (l.entry? .blockMapping .key (!l.inFlow))
  else if c = ':' && (l.inFlow || atGap s) then one l.value?
  else if (c = '|' || c = '>') && !l.inFlow then do
    let l ← l.dropCandidate?
    let (v, r) ← blockScalar? (c = '>') l.columns.head? s
    return { l.emit (.scalar false (.ofList v)) with keyAllowed := true }.move c r
  else if c = '\'' || c = '"' then do
    let l ← l.offer?
    let (v, r) ← if c = '"' then doubleQuotedFrom (.text [] false) s else singleQuotedFrom [] s
    return { l.emit (.scalar false (.ofList v)) with keyAllowed := false }.move c r
  else if startsPlain l.inFlow c s then do
    let l ← l.offer?
    let floor := match l.columns.head? with
      | some column => column + 1
      | none => 0
    let (v, lineEnds, r) ← plainFrom l.inFlow floor (column + 1) [] s
    return { l.emit (.scalar true (.ofList (c :: v))) with keyAllowed := lineEnds }.move c r
  else none

/-- one step: a blank, a line end, a comment or a token; a byte order mark may begin a line -/
def step? (l : Layout) (c : Char) (s : List Char) : Option (Layout × Rest s) :=
  if c = ' ' || (c = '\t' && (l.inFlow || !l.keyAllowed)) || (isByteOrderMark c && l.place.column = 0) then
    some (l.move c (Rest.all s))
  else if isBreak c then
    some ({ l with keyAllowed := l.keyAllowed || !l.inFlow }.move c (Rest.all s))
  else if c = '#' then some (l.move c (Rest.dropWhile (!isBreak ·) s))
  else do
    let l ← l.dropStale?
    (l.closeWhile (l.place.column < ·)).token? c s

end Layout

/-- the tokens of a text -/
def tokens? (s : String) : Option (List Token) := do
  let l ← readAll Layout.step? .start (← normalize? s.toList)
  let l ← (← l.dropStale?).closeWhile (fun _ => true) |>.dropCandidate?
  return l.tokens.reverse

end TypedVocabulary.Yaml
