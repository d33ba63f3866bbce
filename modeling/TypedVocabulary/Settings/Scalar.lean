/-!
# Scalars

Some ranges are not classes but primitive values.  A table of primitives says which scalar each of them is
written as; dates and times are strings, because the declarations describe the written form.
-/

namespace TypedVocabulary

inductive Scalar where
  | string
  | number
  | boolean
deriving DecidableEq, Repr

namespace Scalar

def typeName : Scalar → String
  | .string => "string"
  | .number => "number"
  | .boolean => "boolean"

def ofTypeName? (s : String) : Option Scalar := [string, number, boolean].find? (·.typeName == s)

end Scalar

/-- the primitive ranges in the order of their first mention -/
structure Primitives where
  entries : List (String × Scalar)
deriving DecidableEq, Repr

namespace Primitives

def empty : Primitives := ⟨[]⟩

def get? (p : Primitives) (range : String) : Option Scalar := p.entries.lookup range

/-- a repeated name keeps its place and takes the new scalar -/
def set (p : Primitives) (range : String) (scalar : Scalar) : Primitives :=
  if (p.get? range).isSome then
    ⟨p.entries.map fun e => if e.1 = range then (range, scalar) else e⟩
  else ⟨p.entries ++ [(range, scalar)]⟩

def ofList (es : List (String × Scalar)) : Primitives :=
  es.foldl (fun p e => p.set e.1 e.2) empty

/-- the data types of the schema.org vocabulary -/
def schemaOrg : Primitives :=
  ⟨[("Text", .string), ("URL", .string), ("CssSelectorType", .string), ("XPathType", .string),
    ("PronounceableText", .string), ("Boolean", .boolean), ("Number", .number),
    ("Integer", .number), ("Float", .number), ("Date", .string), ("DateTime", .string),
    ("Time", .string)]⟩

end Primitives

end TypedVocabulary
