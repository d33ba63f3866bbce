import TypedVocabulary.Text.ByteOrderMark
import TypedVocabulary.Text.Rest

/-!
# Markup of XML

A text is cut into tags and the texts between them.  Comments and instructions leave nothing behind.
Every end tag closes the element that was opened last; elements that are still open where the text ends
are left open.  Texts and values are kept as they are written, with their entities.
-/

namespace TypedVocabulary.Xml

/-- the attributes of a tag in their order, with their values as they are written -/
abbrev Attributes := List (String × String)

inductive Markup where
  | opening (name : String) (attributes : Attributes)
  | closing (name : String)
  /-- a text with its entities -/
  | text (raw : String)
  /-- a text without entities -/
  | verbatim (s : String)
  /-- the inside of a declaration of the document's type -/
  | documentType (inside : String)

def isSpace (c : Char) : Bool := c = ' ' || c = '\t' || c = '\n' || c = '\r'

def isSpaceText (s : String) : Bool := s.toList.all isSpace

/-! ## ends -/

/-- what stands in front of a mark -/
def upTo (mark : List Char) : (s : List Char) → Option (Read s)
  | [] => none
  | c :: s =>
    if mark.isPrefixOf (c :: s) then some ([], Rest.drop mark.length (c :: s))
    else ahead [c] (upTo mark s)

/-- the inside of a tag, up to an angle bracket that is not within quotes -/
def tagFrom : Option Char → (s : List Char) → Option (Read s)
  | _, [] => none
  | none, c :: s =>
    if c = '>' then some ([], (Rest.all s).behind)
    else ahead [c] (tagFrom (if c = '"' || c = '\'' then some c else none) s)
  | some quote, c :: s => ahead [c] (tagFrom (if c = quote then none else some quote) s)

/-- the inside of a declaration, up to the angle bracket that closes it -/
def declarationFrom : Nat → (s : List Char) → Option (Read s)
  | _, [] => none
  | depth, c :: s =>
    if c = '>' && depth = 0 then some ([], (Rest.all s).behind)
    else
      let depth := if c = '<' then depth + 1 else if c = '>' then depth - 1 else depth
      ahead [c] (declarationFrom depth s)

/-! ## tags -/

/-- an attribute that begins with `c`; blanks between attributes are skipped -/
def attribute? (attributes : Attributes) (c : Char) (s : List Char) : Option (Attributes × Rest s) :=
  if isSpace c then some (attributes, .all s)
  else
    let isStop (c : Char) := isSpace c || c = '='
    let key := String.ofList (c :: s.takeWhile (!isStop ·))
    match (s.dropWhile (!isStop ·)).dropWhile isSpace with
    | '=' :: t =>
      match t.dropWhile isSpace with
      | quote :: t =>
        let value := t.takeWhile (· ≠ quote)
        if (quote = '"' || quote = '\'') && value.length < t.length then
          some (attributes ++ [(key, .ofList value)], Rest.drop (s.length - (t.length - value.length - 1)) s)
        else none
      | [] => none
    | _ => none

/-- the markup of a start tag with a given inside; an element that is closed at once gives its end as well -/
def startTag? (inside : List Char) : Option (List Markup) := do
  let closed := inside.getLast? = some '/'
  let inside := if closed then inside.dropLast else inside
  let name := inside.takeWhile (!isSpace ·)
  let attributes ← readAll attribute? [] (inside.drop name.length)
  let opening := Markup.opening (.ofList name) attributes
  if !(attributes.map (·.1)).Nodup then none
  else some (if closed then [opening, .closing (.ofList name)] else [opening])

/-! ## instructions -/

/-- the names of the only encoding that is read -/
def encodings : List String :=
  ["unicode-1-1-utf-8", "unicode11utf8", "unicode20utf8", "utf-8", "utf8", "x-unicode20utf8"]

/-- the attributes of a tag up to one with a given name -/
def attributesUpTo? (name : String) (s : List Char) : Option Attributes :=
  readAll (fun attributes c s =>
    if (attributes.lookup name).isSome then some (attributes, .all s) else attribute? attributes c s) [] s

/-- an instruction is fine unless it declares another encoding -/
def isInstruction (inside : List Char) : Bool :=
  if inside.take 3 = ['x', 'm', 'l'] && inside[3]?.all isSpace then
    match attributesUpTo? "encoding" (inside.drop 3) with
    | some attributes =>
      (attributes.lookup "encoding").all fun e =>
        encodings.contains (String.ofList (e.toList.map Char.toLower))
    | none => false
  else true

/-! ## texts -/

/-- the markup of a tag or declaration behind its angle bracket -/
def markup? (s : List Char) : Option (List Markup × Rest s) :=
  match s with
  | [] => none
  | '/' :: s => do
    let (inside, r) ← tagFrom none s
    let name := (inside.reverse.dropWhile isSpace).reverse
    return ([.closing (.ofList name)], r.behind)
  | '?' :: s => do
    let (inside, r) ← upTo "?>".toList s
    if s.head? ≠ some '>' && isInstruction inside then some ([], r.behind) else none
  | '!' :: s =>
    if "--".toList.isPrefixOf s then do
      let (_, r) ← upTo "-->".toList (Rest.drop 2 s).text
      return ([], ((Rest.drop 2 s).trans r).behind)
    else if "[CDATA[".toList.isPrefixOf s then do
      let (v, r) ← upTo "]]>".toList (Rest.drop 7 s).text
      return ([.verbatim (.ofList v)], ((Rest.drop 7 s).trans r).behind)
    else if (s.take 7).map Char.toUpper = "DOCTYPE".toList then do
      let (inside, r) ← declarationFrom 0 (Rest.drop 7 s).text
      if inside.all isSpace then none
      else some ([.documentType (.ofList inside)], ((Rest.drop 7 s).trans r).behind)
    else none
  | c :: s => do
    let (inside, r) ← tagFrom none (c :: s)
    return (← startTag? inside, r)

/-- markup at the front of a text -/
def step? (ms : List Markup) (c : Char) (s : List Char) : Option (List Markup × Rest s) :=
  if c = '<' then (markup? s).map fun (new, r) => (new.reverse ++ ms, r)
  else some (.text (.ofList (c :: s.takeWhile (· ≠ '<'))) :: ms, Rest.dropWhile (· ≠ '<') s)

/-- the names of the open elements behind some markup, the innermost first -/
def opened? (names : List String) : Markup → Option (List String)
  | .opening name _ => some (name :: names)
  | .closing name => if names.head? = some name then some names.tail else none
  | _ => some names

/-- the markup of a text, behind its byte order mark if it has one -/
def read? (s : String) : Option (List Markup) := do
  let ms ← readAll step? [] (withoutByteOrderMark s.toList)
  let _ ← ms.reverse.foldlM opened? []
  return ms.reverse

end TypedVocabulary.Xml
