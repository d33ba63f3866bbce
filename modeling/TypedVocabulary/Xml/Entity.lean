import TypedVocabulary.Decimal.Basic
import TypedVocabulary.Text.Blank
import TypedVocabulary.Text.Hex

/-!
# Entities of XML

Between an ampersand and a semicolon stands the number of a character or the name of an entity.  Five
entities have a meaning from the start; the type of a document may declare more.
-/

namespace TypedVocabulary.Xml

/-- what the names of entities stand for, the last declaration first -/
abbrev Entities := List (String × String)

namespace Entities

def standard : Entities := [("amp", "&"), ("lt", "<"), ("gt", ">"), ("quot", "\""), ("apos", "'")]

/-- the character with a number, in decimal or hexadecimal digits; there is no character 0 -/
def character? (digits : List Char) : Option Char :=
  let number? := match digits with
    | 'x' :: digits => if digits.isEmpty then none else hexNumber? digits
    | _ =>
      if digits.isEmpty || !digits.all Char.isDigit then none
      else some (Decimal.natOf digits)
  number?.bind fun n => if n ≠ 0 && n.isValidChar then some (Char.ofNat n) else none

/-- what stands for a name between an ampersand and a semicolon -/
def value? (es : Entities) : List Char → Option (List Char)
  | '#' :: digits => (character? digits).map ([·])
  | name => (es.lookup (.ofList name)).map String.toList

/-- a text without entities, after the characters of an open entity if there is one, last one first -/
def plainFrom (es : Entities) : Option (List Char) → List Char → Option (List Char)
  | none, [] => some []
  | some _, [] => none
  | none, c :: s => if c = '&' then plainFrom es (some []) s else (plainFrom es none s).map (c :: ·)
  | some name, c :: s =>
    if c = ';' then
      match es.value? name.reverse, plainFrom es none s with
      | some value, some t => some (value ++ t)
      | _, _ => none
    else plainFrom es (some (c :: name)) s

def plain? (es : Entities) (raw : String) : Option String :=
  (plainFrom es none raw.toList).map String.ofList

/-! ## declarations -/

def isAsciiBlank (c : Char) : Bool := c = ' ' || ('\t' ≤ c && c ≤ '\r' && c ≠ '\x0b')

/-- what stands behind the keyword of a declaration: a name, perhaps behind a percent sign, and a value
in quotes -/
def declare? (es : Entities) (s : List Char) : Option Entities := do
  let s := match s.dropWhile isBlank with
    | '%' :: t => t.dropWhile isBlank
    | t => t
  let name := s.takeWhile (!isAsciiBlank ·)
  match (s.drop (name.length + 1)).dropWhile isBlank with
  | '"' :: t =>
    let value := t.takeWhile (· ≠ '"')
    let behind := (t.drop (value.length + 1)).dropWhile isBlank
    if name.length < s.length && behind.head? = some '>' then
      return (.ofList name, ← es.plain? (.ofList value)) :: es
    else none
  | _ => none

/-- the entities with those that the type of a document declares -/
def declareAll? (es : Entities) (documentType : String) : Option Entities :=
  (documentType.toList.splitOn '<').tail.foldlM (fun es s =>
    if "!ENTITY".toList.isPrefixOf s then es.declare? (s.drop 7) else some es) es

end Entities

/-- a text in which the characters of markup are written as entities -/
def escaped (s : String) : String :=
  String.ofList (s.toList.flatMap fun c =>
    match Entities.standard.find? (·.2 = String.singleton c) with
    | some (name, _) => '&' :: name.toList ++ [';']
    | none => [c])

end TypedVocabulary.Xml
