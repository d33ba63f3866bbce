import TypedVocabulary.Decimal.Basic
import TypedVocabulary.Text.Hex
import TypedVocabulary.Text.NameChar

/-!
# Authorities

The authority of an IRI is a host, perhaps behind a user and perhaps with the number of a port.  A host
is a name or, in brackets, an address: eight groups of hexadecimal digits, where one gap may stand for
groups of zeros and four numbers with dots for the last two groups.
-/

namespace TypedVocabulary.Rdf

/-! ## characters -/

/-- the code points outside ASCII that an IRI may hold -/
def iriRanges : List (Nat × Nat) :=
  [(0xA0, 0xD7FF), (0xF900, 0xFDCF), (0xFDF0, 0xFFEF), (0x10000, 0x1FFFD), (0x20000, 0x2FFFD),
    (0x30000, 0x3FFFD), (0x40000, 0x4FFFD), (0x50000, 0x5FFFD), (0x60000, 0x6FFFD),
    (0x70000, 0x7FFFD), (0x80000, 0x8FFFD), (0x90000, 0x9FFFD), (0xA0000, 0xAFFFD),
    (0xB0000, 0xBFFFD), (0xC0000, 0xCFFFD), (0xD0000, 0xDFFFD), (0xE1000, 0xEFFFD)]

/-- the private code points, legal in a query only -/
def privateRanges : List (Nat × Nat) :=
  [(0xE000, 0xF8FF), (0xF0000, 0xFFFFD), (0x100000, 0x10FFFD)]

/-- a character that needs no escape in any part -/
def isIriChar (c : Char) : Bool :=
  c.isAlphanum || "!$&'()*+,-.;=_~".toList.contains c || isInRanges iriRanges c

def isPathChar (c : Char) : Bool := isIriChar c || c = ':' || c = '@' || c = '/'

def isFragmentChar (c : Char) : Bool := isPathChar c || c = '?'

def isQueryChar (c : Char) : Bool := isFragmentChar c || isInRanges privateRanges c

/-- a character of a scheme, after the first -/
def isSchemeChar (c : Char) : Bool := c.isAlphanum || c == '+' || c == '.' || c == '-'

/-- characters with a property, and escapes of a percent sign and two hexadecimal digits -/
def isLegal (p : Char → Bool) : List Char → Bool
  | '%' :: a :: b :: s => (hexValue? a).isSome && (hexValue? b).isSome && isLegal p s
  | c :: s => c ≠ '%' && p c && isLegal p s
  | [] => true

/-! ## addresses -/

/-- a number up to 255 without needless zeros -/
def isOctet (s : List Char) : Bool :=
  !s.isEmpty && s.length ≤ 3 && s.all Char.isDigit && (s.length = 1 || s.head? ≠ some '0') &&
    Decimal.natOf s ≤ 255

/-- four numbers with dots between them -/
def isDottedAddress (s : List Char) : Bool :=
  let parts := s.splitOn '.'
  parts.length = 4 && parts.all isOctet

def isGroup (s : List Char) : Bool :=
  !s.isEmpty && s.length ≤ 4 && s.all fun c => (hexValue? c).isSome

/-- how many groups a text with colons stands for; four numbers stand for two, and only at the end -/
def groupCount? (atEnd : Bool) (s : List Char) : Option Nat :=
  let parts := s.splitOn ':'
  let last := parts.getLast?.getD []
  if s.isEmpty then some 0
  else if !parts.dropLast.all isGroup then none
  else if isGroup last then some parts.length
  else if atEnd && isDottedAddress last then some (parts.length + 1)
  else none

/-- what stands around the first two colons in a row -/
def cutGap? : List Char → Option (List Char × List Char)
  | ':' :: ':' :: s => some ([], s)
  | c :: s => (cutGap? s).map fun (front, rest) => (c :: front, rest)
  | [] => none

/-- eight groups, or fewer around a gap -/
def isAddress (s : List Char) : Bool :=
  match cutGap? s with
  | none => groupCount? true s = some 8
  | some (front, rest) =>
    match groupCount? false front, groupCount? true rest with
    | some m, some n => m + n ≤ 7
    | _, _ => false

/-- an address of a later version: its number, a dot, and anything that is legal in a name or a colon -/
def isFutureAddress : List Char → Bool
  | c :: s =>
    let version := s.takeWhile (· ≠ '.')
    let rest := s.drop (version.length + 1)
    (c = 'v' || c = 'V') && !version.isEmpty && version.all (fun c => (hexValue? c).isSome) &&
      !rest.isEmpty && rest.all fun c => c.toNat < 128 && (isIriChar c || c = ':')
  | [] => false

/-! ## hosts -/

/-- nothing, or the digits of a port behind a colon -/
def isPort : List Char → Bool
  | [] => true
  | c :: digits => c = ':' && digits.all Char.isDigit

/-- an address in brackets or a name, and perhaps a port -/
def isHost : List Char → Bool
  | '[' :: s =>
    let address := s.takeWhile (· ≠ ']')
    address.length < s.length && (isAddress address || isFutureAddress address) &&
      isPort (s.drop (address.length + 1))
  | s => isLegal isIriChar (s.takeWhile (· ≠ ':')) && isPort (s.dropWhile (· ≠ ':'))

/-- a host behind a user, if there is an at sign -/
def isAuthority (s : List Char) : Bool :=
  match s.dropWhile fun c => c ≠ '@' && c ≠ '[' with
  | '@' :: host =>
    isLegal (fun c => isIriChar c || c = ':') (s.takeWhile (· ≠ '@')) && isHost host
  | _ => isHost s

end TypedVocabulary.Rdf
