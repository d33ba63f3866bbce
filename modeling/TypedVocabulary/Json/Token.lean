import TypedVocabulary.Text.Rest
import TypedVocabulary.Text.Hex

/-!
# Tokens of JSON

Marks, strings, numbers and words.  A character beyond the first plane is escaped as two halves, and a half
alone is refused.
-/

namespace TypedVocabulary.Json

inductive Token where
  | mark (c : Char)
  | text (s : String)
  | number (digits : String)
  | word (s : String)
deriving DecidableEq

/-! ## strings -/

/-- where a reader stands inside a string; a first half is kept until the second one comes -/
inductive StringPlace where
  | text
  | escape
  | digits (left value : Nat) (half : Option Nat)
  | secondEscape (half : Nat)
  | secondMark (half : Nat)

/-- the escapes of one character -/
def escapes : List (Char × Char) :=
  [('"', '"'), ('\\', '\\'), ('/', '/'), ('b', '\x08'), ('f', '\x0c'), ('n', '\n'), ('r', '\r'),
    ('t', '\t')]

def isFirstHalf (n : Nat) : Bool := 0xD800 ≤ n && n < 0xDC00

def isSecondHalf (n : Nat) : Bool := 0xDC00 ≤ n && n < 0xE000

/-- the character that two halves stand for -/
def joinHalves (first second : Nat) : Char :=
  Char.ofNat (0x10000 + 0x400 * (first - 0xD800) + (second - 0xDC00))

/-- what follows an opening quote -/
def stringFrom : StringPlace → (s : List Char) → Option (Read s)
  | _, [] => none
  | .text, c :: s =>
    if c = '"' then some ([], (Rest.all s).behind)
    else if c = '\\' then ahead [] (stringFrom .escape s)
    else if c.toNat < 32 then none
    else ahead [c] (stringFrom .text s)
  | .escape, c :: s =>
    if c = 'u' then ahead [] (stringFrom (.digits 4 0 none) s)
    else
      match escapes.lookup c with
      | some e => ahead [e] (stringFrom .text s)
      | none => none
  | .digits left value half, c :: s =>
    match hexValue? c with
    | none => none
    | some d =>
      let n := 16 * value + d
      if 1 < left then ahead [] (stringFrom (.digits (left - 1) n half) s)
      else
        match half with
        | some h => if isSecondHalf n then ahead [joinHalves h n] (stringFrom .text s) else none
        | none =>
          if isFirstHalf n then ahead [] (stringFrom (.secondEscape n) s)
          else if isSecondHalf n then none
          else ahead [Char.ofNat n] (stringFrom .text s)
  | .secondEscape half, c :: s => if c = '\\' then ahead [] (stringFrom (.secondMark half) s) else none
  | .secondMark half, c :: s =>
    if c = 'u' then ahead [] (stringFrom (.digits 4 0 (some half)) s) else none

/-! ## numbers -/

/-- digits that begin with a zero only if they are one -/
def isWhole : List Char → Bool
  | ['0'] => true
  | c :: s => c ≠ '0' && (c :: s).all Char.isDigit
  | [] => false

/-- digits behind the mark of an exponent, and perhaps a sign -/
def isExponent : List Char → Bool
  | [] => true
  | _ :: s =>
    let digits := match s with
      | '+' :: t | '-' :: t => t
      | t => t
    !digits.isEmpty && digits.all Char.isDigit

/-- a number as JSON writes it -/
def isNumber (s : List Char) : Bool :=
  let s := match s with
    | '-' :: t => t
    | t => t
  let isMark (c : Char) : Bool := c = 'e' || c = 'E'
  let mantissa := s.takeWhile (!isMark ·)
  let fraction := mantissa.dropWhile (· ≠ '.')
  isWhole (mantissa.takeWhile (· ≠ '.')) &&
    (fraction.isEmpty || (1 < fraction.length && fraction.tail.all Char.isDigit)) &&
    isExponent (s.dropWhile (!isMark ·))

def isNumberChar (c : Char) : Bool := c.isDigit || "+-.eE".toList.contains c

/-! ## texts -/

def token? (c : Char) (s : List Char) : Option (Token × Rest s) :=
  if "[]\x7b\x7d,:".toList.contains c then some (.mark c, .all s)
  else if c = '"' then (stringFrom .text s).map fun (v, r) => (.text (.ofList v), r)
  else if c.isAlpha then
    let word := s.takeWhile Char.isAlpha
    some (.word (.ofList (c :: word)), Rest.drop word.length s)
  else
    let number := s.takeWhile isNumberChar
    if isNumber (c :: number) then
      some (.number (.ofList (c :: number)), Rest.drop number.length s)
    else none

/-- a blank or a token at the front of a text -/
def step? (ts : List Token) (c : Char) (s : List Char) : Option (List Token × Rest s) :=
  if [' ', '\t', '\n', '\r'].contains c then some (ts, .all s)
  else (token? c s).map fun (t, r) => (t :: ts, r)

def tokens? (s : String) : Option (List Token) := (readAll step? [] s.toList).map List.reverse

end TypedVocabulary.Json
