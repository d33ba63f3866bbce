import TypedVocabulary.Calendar.Duration
import TypedVocabulary.Calendar.Moment
import TypedVocabulary.Decimal.Binary

/-!
# Literals

A literal is a text with a datatype, and a language if it is a text of a language.  A literal of a datatype of
numbers, truth values, moments or durations is kept in one written form, so that literals of equal value are
equal; a text that is not of its datatype is kept as it is.
-/

namespace TypedVocabulary.Rdf

structure Literal where
  value : String
  language : Option String
  datatype : String
deriving DecidableEq, Repr

/-! ## names -/

def rdfName (name : String) : String := "http://www.w3.org/1999/02/22-rdf-syntax-ns#" ++ name

def xsdName (name : String) : String := "http://www.w3.org/2001/XMLSchema#" ++ name

/-- the local name of a datatype of the schema -/
def xsdLocal? (datatype : String) : Option String :=
  if datatype.startsWith (xsdName "") then some (String.ofList (datatype.toList.drop (xsdName "").length))
  else none

/-! ## written forms -/

/-- the datatypes whose values are whole numbers -/
def wholeTypes : List String :=
  ["integer", "byte", "short", "int", "long", "unsignedByte", "unsignedShort", "unsignedInt",
    "unsignedLong", "positiveInteger", "negativeInteger", "nonPositiveInteger", "nonNegativeInteger"]

/-- the written form of a whole number of 64 bits -/
def wholeText? (value : String) : Option String :=
  (Decimal.int? value.toList).bind fun n =>
    if -Int.pow 2 63 ≤ n && n < Int.pow 2 63 then some (toString n) else none

def booleanText? (value : String) : Option String :=
  if value = "true" || value = "1" then some "true"
  else if value = "false" || value = "0" then some "false"
  else none

/-- what is no number has two written forms, but is shown as one -/
def negativeNaN : String := "-NaN"

/-- the written form of what a word says, ASCII case aside -/
def wordText? (value : String) : Option String :=
  let (negative, word) := Decimal.cutSign value.toList
  let signed (text : String) := if negative then "-" ++ text else text
  let lower := String.ofList (word.map Char.toLower)
  if lower = "inf" || lower = "infinity" then some (signed "INF")
  else if lower = "nan" then some (if negative then negativeNaN else "NaN")
  else none

/-- the written form of a binary fraction; a number beyond `10 ^ 400` is infinite, and its inverse is zero -/
def binaryText? (f : BinaryFormat) (value : String) : Option String :=
  match Decimal.ofText? true value with
  | none => wordText? value
  | some d =>
    let infinite := if d.negative then "-INF" else "INF"
    let zero := if d.negative then "-0" else "0"
    if d.digits = 0 || d.places < -400 then some zero
    else if 400 < d.places then some infinite
    else
      match f.shortest? d.ratio.1 d.ratio.2 with
      | some s => some { s with negative := d.negative }.text
      | none => some infinite

/-- a text and a datatype in the form in which they are kept; a datatype may be kept as a wider one -/
def keptForm? (value datatype : String) : Option (String × String) := do
  let name ← xsdLocal? datatype
  if wholeTypes.contains name then (wholeText? value).map (·, xsdName "integer")
  else
    let name := if name = "dateTimeStamp" then "dateTime" else name
    let text ← match name with
      | "boolean" => booleanText? value
      | "decimal" => (Fixed.ofText? value).map Fixed.text
      | "double" => binaryText? .double value
      | "float" => binaryText? .single value
      | _ =>
        match MomentPart.pattern? name, Duration.scope? name with
        | some pattern, _ => Moment.canonical? pattern value
        | none, some scope => Duration.canonical? scope value
        | none, none => none
    return (text, xsdName name)

namespace Literal

def simple (value : String) : Literal := ⟨value, none, xsdName "string"⟩

def tagged (value language : String) : Literal :=
  ⟨value, some (String.ofList (language.toList.map Char.toLower)), rdfName "langString"⟩

/-- a literal of a datatype in its one written form; a value that is not of the datatype is kept -/
def typed (value datatype : String) : Literal :=
  match keptForm? value datatype with
  | some (text, datatype) => ⟨text, none, datatype⟩
  | none => ⟨value, none, datatype⟩

/-- a typed literal in a text that names its datatype; a text of a language has to name the language -/
def typed? (value datatype : String) : Option Literal :=
  if datatype = rdfName "langString" then none else some (typed value datatype)

/-- the text of a literal as it is shown -/
def text (l : Literal) : String :=
  if l.value = negativeNaN && (l.datatype = xsdName "double" || l.datatype = xsdName "float") then "NaN"
  else l.value

end Literal

end TypedVocabulary.Rdf
