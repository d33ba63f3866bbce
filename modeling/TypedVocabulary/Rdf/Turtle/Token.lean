import TypedVocabulary.Text.Rest
import TypedVocabulary.Text.Hex
import TypedVocabulary.Text.NameChar
import TypedVocabulary.Rdf.LanguageTag

/-!
# Tokens of Turtle

Names, blank nodes, literals and marks.  The same tokens, without prefixes, numbers, words and the
richer strings, make up N-Triples; `plain` asks for those.
-/

namespace TypedVocabulary.Rdf.Turtle

/-! ## tokens -/

/-- an IRI reference, or a prefix with a local name -/
inductive Name where
  | iri (reference : String)
  | prefixed (label name : String)
deriving DecidableEq

/-- what stands behind a literal's text -/
inductive LiteralKind where
  | simple
  | language (tag : String)
  | datatype (name : Name)
deriving DecidableEq

inductive Token where
  | name (n : Name)
  | blank (label : String)
  | literal (value : String) (kind : LiteralKind)
  /-- an at sign and a word: a language, or the name of a directive -/
  | atWord (word : String)
  | datatypeMark
  /-- a number with the local name of its datatype -/
  | number (text datatype : String)
  | word (text : String)
  | mark (c : Char)
deriving DecidableEq

/-! ## strings -/

/-- where a reader stands inside a string or an IRI -/
inductive EscapePlace where
  | text
  | escape
  | digits (left value : Nat)

/-- the escapes of one character in a string -/
def stringEscapes : List (Char × Char) :=
  [('t', '\t'), ('b', '\x08'), ('n', '\n'), ('r', '\r'), ('f', '\x0c'), ('"', '"'), ('\'', '\''),
    ('\\', '\\')]

/-- how many hexadecimal digits follow -/
def numberDigits? (c : Char) : Option Nat := [('u', 4), ('U', 8)].lookup c

/-- text with escapes up to a place where `ends?` gives how many more characters end it -/
def escapedFrom (ends? : Char → List Char → Option Nat) (allowed : Char → Bool)
    (escapes : List (Char × Char)) : EscapePlace → (s : List Char) → Option (Read s)
  | _, [] => none
  | .text, c :: s =>
    match ends? c s with
    | some n => some ([], (Rest.drop n s).behind)
    | none =>
      if c = '\\' then ahead [] (escapedFrom ends? allowed escapes .escape s)
      else if allowed c then ahead [c] (escapedFrom ends? allowed escapes .text s)
      else none
  | .escape, c :: s =>
    match escapes.lookup c, numberDigits? c with
    | some e, _ => ahead [e] (escapedFrom ends? allowed escapes .text s)
    | none, some n => ahead [] (escapedFrom ends? allowed escapes (.digits n 0) s)
    | none, none => none
  | .digits left value, c :: s =>
    match hexValue? c with
    | none => none
    | some d =>
      if 1 < left then
        ahead [] (escapedFrom ends? allowed escapes (.digits (left - 1) (16 * value + d)) s)
      else if (16 * value + d).isValidChar then
        ahead [Char.ofNat (16 * value + d)] (escapedFrom ends? allowed escapes .text s)
      else none

def isLineEnd (c : Char) : Bool := c = '\n' || c = '\r'

/-- a string on one line, behind its quote -/
def shortString? (quote : Char) (s : List Char) : Option (Read s) :=
  escapedFrom (fun c _ => if c = quote then some 0 else none) (!isLineEnd ·) stringEscapes .text s

/-- a string over several lines, behind its three quotes -/
def longString? (quote : Char) (s : List Char) : Option (Read s) :=
  escapedFrom (fun c s => if c = quote && s.take 2 = [quote, quote] then some 2 else none)
    (fun _ => true) stringEscapes .text s

/-- a string behind its first quote -/
def string? (quote : Char) (s : List Char) : Option (Read s) :=
  if s.take 2 = [quote, quote] then
    let r := Rest.drop 2 s
    (longString? quote r.text).map fun (v, t) => (v, r.trans t)
  else shortString? quote s

/-- an IRI behind its opening angle bracket -/
def iri? (s : List Char) : Option (Read s) :=
  escapedFrom (fun c _ => if c = '>' then some 0 else none) (fun c => c ≠ '<' && !isLineEnd c) []
    .text s

/-! ## names -/

/-- characters of a name, and single dots between them -/
def label : (s : List Char) → Read s
  | [] => ([], .all [])
  | c :: s =>
    if isNameChar c || (c = '.' && s.head?.any isNameChar) then
      let (v, r) := label s
      (c :: v, r.behind)
    else ([], .all (c :: s))

/-- the characters that a backslash keeps in a local name -/
def localEscapes : List Char := "_~.-!$&'()*+,;=/?#@%".toList

/-- a local name, whose first character may not be a dash -/
def localName (first : Bool) : (s : List Char) → Read s
  | [] => ([], .all [])
  | '\\' :: e :: s =>
    if localEscapes.contains e then
      let (v, r) := localName false s
      (e :: v, r.behind.behind)
    else ([], .all ('\\' :: e :: s))
  | '%' :: a :: b :: s =>
    if (hexValue? a).isSome && (hexValue? b).isSome then
      let (v, r) := localName false s
      ('%' :: a :: b :: v, r.behind.behind.behind)
    else ([], .all ('%' :: a :: b :: s))
  | c :: s =>
    if isNameStart c || c.isDigit || c = ':' || (!first && isNameChar c) then
      let (v, r) := localName false s
      (c :: v, r.behind)
    else if !first && c = '.' then
      let (v, r) := localName false s
      if v.isEmpty then ([], .all (c :: s)) else (c :: v, r.behind)
    else ([], .all (c :: s))

/-- a word behind an at sign: blocks with dashes between them, the first of which begins with a letter -/
def isAtWord (word : List Char) : Bool :=
  word.head?.any Char.isAlpha && (word.splitOn '-').all (!·.isEmpty) && isLanguageTag (.ofList word)

/-! ## numbers -/

/-- the digits of an exponent behind its mark, with their sign -/
def exponent? (s : List Char) : Option (List Char) :=
  let sign := (s.take 1).takeWhile fun c => c = '+' || c = '-'
  let digits := (s.drop sign.length).takeWhile Char.isDigit
  if digits.isEmpty then none else some (sign ++ digits)

/-- the text of a number at the front, with the local name of its datatype -/
def number? (s : List Char) : Option (List Char × String) :=
  let sign := (s.take 1).takeWhile fun c => c = '+' || c = '-'
  let whole := (s.drop sign.length).takeWhile Char.isDigit
  let behind := s.drop (sign ++ whole).length
  let point := (behind.take 1).takeWhile (· = '.')
  let places := (behind.drop point.length).takeWhile Char.isDigit
  let mark := ((behind.drop (point ++ places).length).take 1).takeWhile fun c => c = 'e' || c = 'E'
  if whole.isEmpty && places.isEmpty then none
  else if !mark.isEmpty then
    (exponent? (behind.drop (point ++ places ++ mark).length)).map fun e =>
      (sign ++ whole ++ point ++ places ++ mark ++ e, "double")
  else if places.isEmpty then some (sign ++ whole, "integer")
  else some (sign ++ whole ++ point ++ places, "decimal")

/-! ## texts -/

def isBlankChar (c : Char) : Bool := c = ' ' || c = '\t' || isLineEnd c

/-- a name or a word that begins with `c`; a prefix does not end with a dot, and behind a name with
escapes the text goes on -/
def wordOrName? (c : Char) (s : List Char) : Option (Token × Rest s) :=
  let front := (c :: s).takeWhile fun c => isNameChar c || c = '.'
  if (c :: s)[front.length]? = some ':' then
    let start := Rest.drop front.length s
    let (name, r) := localName true start.text
    if front.getLast? = some '.' || (r.front.contains '\\' && r.text.all (· = '.')) then none
    else some (.name (.prefixed (.ofList front) (.ofList name)), start.trans r)
  else
    let word := (front.reverse.dropWhile (· = '.')).reverse
    some (.word (.ofList word), Rest.drop (word.length - 1) s)

/-- a token that begins with `c` -/
def token? (plain : Bool) (c : Char) (s : List Char) : Option (Token × Rest s) :=
  let full := !plain
  if c = '<' then (iri? s).map fun (v, r) => (.name (.iri (.ofList v)), r)
  else if c = '_' then
    match s with
    | ':' :: t =>
      let (v, r) := label t
      if v.head?.any fun c => isNameStart c || c.isDigit then
        some (.blank (.ofList v), r.behind)
      else none
    | _ => none
  else if c = '"' || (full && c = '\'') then
    (if full then string? c s else shortString? c s).map fun (v, r) =>
      (.literal (.ofList v) .simple, r)
  else if c = '@' then
    let tag := s.takeWhile fun c => c.isAlphanum || c = '-'
    if isAtWord tag then some (.atWord (.ofList tag), Rest.drop tag.length s) else none
  else if c = '^' then
    match s with
    | '^' :: t => some (.datatypeMark, (Rest.all t).behind)
    | _ => none
  else if full && (c.isDigit || c = '+' || c = '-' || (c = '.' && s.head?.any Char.isDigit)) then
    (number? (c :: s)).map fun (text, datatype) =>
      (.number (.ofList text) datatype, Rest.drop (text.length - 1) s)
  else if c = '.' || (full && ";,[]()".toList.contains c) then some (.mark c, .all s)
  else if full && (isNameLetter c || c = ':') then wordOrName? c s
  else none

/-- a blank, a comment or a token at the front of a text -/
def step? (plain : Bool) (ts : List Token) (c : Char) (s : List Char) :
    Option (List Token × Rest s) :=
  if isBlankChar c then some (ts, .all s)
  else if c = '#' then some (ts, Rest.dropWhile (!isLineEnd ·) s)
  else (token? plain c s).map fun (t, r) => (t :: ts, r)

/-- joins literals with what stands behind them -/
def annotate : List Token → List Token
  | .literal v .simple :: .atWord tag :: ts => .literal v (.language tag) :: annotate ts
  | .literal v .simple :: .datatypeMark :: .name n :: ts => .literal v (.datatype n) :: annotate ts
  | t :: ts => t :: annotate ts
  | [] => []

/-- the tokens of a text -/
def tokens? (plain : Bool) (s : String) : Option (List Token) :=
  (readAll (step? plain) [] s.toList).map fun ts => annotate ts.reverse

end TypedVocabulary.Rdf.Turtle
