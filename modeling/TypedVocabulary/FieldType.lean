import TypedVocabulary.Identifier.Table
import TypedVocabulary.Graph.Basic
import TypedVocabulary.Settings.Scalar

/-!
# Types of fields

The values of a property are taken from its ranges.  A primitive range allows its scalar; a class allows
its interface or, because a node may be referred to by its IRI, a string; any other range allows a
string.  The alternatives of a property are those of its ranges in name order, each once, and a field
holds one value or an array of values.  A property without ranges is not constrained.
-/

namespace TypedVocabulary

/-- the type of a field -/
inductive FieldType where
  | unconstrained
  /-- one value of the alternatives, or an array of such values -/
  | values (alternatives : List String)
deriving DecidableEq, Repr

namespace FieldType

/-- what one range allows -/
def rangeAlternatives (primitives : Primitives) (table : IdentifierTable) (range : String) :
    List String :=
  match primitives.get? range with
  | some scalar => [scalar.typeName]
  | none =>
    match table.get? range with
    | some identifier => [identifier, "string"]
    | none => ["string"]

/-- every member at its first place -/
def distinct : List String → List String
  | [] => []
  | x :: xs => x :: (distinct xs).filter (· ≠ x)

/-- the alternatives of a set of ranges -/
def alternatives (primitives : Primitives) (table : IdentifierTable) (ranges : NameSet) :
    List String :=
  distinct (ranges.toList.flatMap (rangeAlternatives primitives table))

/-- the type of the fields of a property with the given ranges -/
def ofRanges (primitives : Primitives) (table : IdentifierTable) (ranges : List String) :
    FieldType :=
  if ranges.isEmpty then .unconstrained
  else .values (alternatives primitives table (NameSet.ofList ranges))

/-- the union of the alternatives -/
def unionText (alternatives : List String) : String := " | ".intercalate alternatives

/-- the union of a field's alternatives, if it is constrained -/
def union? : FieldType → Option String
  | .unconstrained => none
  | .values as => some (unionText as)

def text : FieldType → String
  | .unconstrained => "unknown"
  | .values as => unionText as ++ " | Array<" ++ unionText as ++ ">"

end FieldType

end TypedVocabulary
