import TypedVocabulary.Decimal.Basic
import TypedVocabulary.Rdf.JsonLd.Context
import TypedVocabulary.Rdf.LanguageTag
import TypedVocabulary.Rdf.Term

/-!
# Values of JSON-LD

A text, a number or a truth value is a literal, whose datatype or language comes from the meaning of its
property.  An object with a value or a language is a literal too, which gives its own datatype or
language.
-/

namespace TypedVocabulary.Rdf.JsonLd

/-! ## plain values -/

/-- a number as an integer if it is whole and has at most 21 digits, else as a double -/
def numberLiteral (digits : String) (datatype : Option String) : Literal :=
  let isDouble := datatype = some (xsdName "double")
  match (Decimal.ofText? true digits).map Decimal.trimmed with
  | some d =>
    if 0 ≤ d.exponent && d.places ≤ 21 && !isDouble then .typed d.text (datatype.getD (xsdName "integer"))
    else .typed d.scientific (datatype.getD (xsdName "double"))
  | none => .typed digits (datatype.getD (xsdName "double"))

def boolLiteral (b : Bool) (datatype : Option String) : Literal :=
  .typed (if b then "true" else "false") (datatype.getD (xsdName "boolean"))

/-- a text of a language; none if the language is not written as a tag -/
def languageLiteral? (s language : String) : Option Literal :=
  if isLanguageTag language then some (.tagged s language) else none

/-- a coercion that names a datatype -/
def datatype? (m : Option Meaning) : Option String :=
  (m.bind (·.coercion)).filter fun t => !t.startsWith "@"

/-- a text as the value of a property -/
def textTerm? (c : Context) (m : Option Meaning) (s : String) : Option Term :=
  match m.bind (·.coercion) with
  | some "@id" => ((c.reference? s).bind Node.ofText?).map .node
  | some "@vocab" => ((c.type? s).bind Node.ofText?).map .node
  | _ =>
    match datatype? m, (m.bind (·.language)).getD c.language with
    | some datatype, _ => some (.literal (.typed s datatype))
    | none, some language => (languageLiteral? s language).map .literal
    | none, none => some (.literal (.simple s))

/-! ## objects that are literals -/

/-- the member of an object under a keyword or a name for it -/
def member? (c : Context) (ms : List (String × Json)) (keyword : String) : Option Json :=
  (ms.find? fun m => c.property? m.1 = some keyword).map (·.2)

/-- what a text or a list of texts stands for as types -/
def types? (c : Context) : Json → Option (List String)
  | .string s => some (c.type? s).toList
  | .array js =>
    (js.mapM fun (j : Json) => match j with
      | .string s => some (c.type? s).toList
      | _ => none).map List.flatten
  | _ => none

def isLiteral (c : Context) (ms : List (String × Json)) : Bool :=
  (member? c ms "@value").isSome || (member? c ms "@language").isSome

/-- a literal has no properties of its own, and few keywords -/
def mayDescribeLiteral (name : String) : Bool :=
  ["@context", "@value", "@type", "@language", "@index"].contains name ||
    !(keywords.contains name || name.toList.contains ':')

/-- the literal that an object stands for; none without a value or with a language that is no tag -/
def literal? (c : Context) (ms : List (String × Json)) : Option (Option Literal) := do
  if !ms.all fun m => (c.property? m.1).all mayDescribeLiteral then none
  let types ← ((member? c ms "@type").map (types? c)).getD (some [])
  if 1 < types.length then none
  let language ← match member? c ms "@language" with
    | none => some none
    | some (.string s) => some (some s)
    | some _ => none
  match (member? c ms "@value").getD .null, types.head?, language with
  | .null, _, _ => some none
  | .string s, none, some l => some (languageLiteral? s l)
  | j, datatype, none =>
    if !datatype.all isIri then none
    match j with
    | .string s => some (some ((datatype.map (.typed s)).getD (.simple s)))
    | .number digits => some (some (numberLiteral digits datatype))
    | .bool b => some (some (boolLiteral b datatype))
    | _ => none
  | _, _, _ => none

end TypedVocabulary.Rdf.JsonLd
