import TypedVocabulary.Settings.Basic
import TypedVocabulary.Text.Template
import TypedVocabulary.Yaml.Node

/-!
# Written settings

Settings are written as a YAML mapping of three sections, each a mapping of fields; what is left out
keeps its default.  A field may not be given twice and unknown fields do not count.  Any scalar is a
text; a truth value is a plain one.

Before a text is read its placeholders are filled in.
-/

namespace TypedVocabulary

namespace Settings

open Yaml (Node)

/-! ## values -/

/-- the text of a scalar -/
def text? : Node → Option String
  | .scalar _ s => some s
  | _ => none

/-- the plain scalars that stand for no value -/
def isNull (s : String) : Bool := ["", "~", "null", "Null", "NULL"].contains s

/-- a text, or nothing -/
def optionalText? : Node → Option (Option String)
  | .scalar plain s => some (if plain && isNull s then none else some s)
  | _ => none

def truth? : Node → Option Bool
  | .scalar true s =>
    if ["true", "True", "TRUE"].contains s then some true
    else if ["false", "False", "FALSE"].contains s then some false
    else none
  | _ => none

def scalar? (n : Node) : Option Scalar := (text? n).bind Scalar.ofTypeName?

/-! ## sections -/

/-- the entries of a mapping whose keys are scalars; the scalar that is left out has none -/
def entries? : Node → Option (List (String × Node))
  | .scalar true "" => some []
  | .mapping es => es.mapM fun e => (text? e.1).map (·, e.2)
  | _ => none

/-- the fields of a section, each of the names at most once -/
def fields? (names : List String) (n : Node) : Option (List (String × Node)) :=
  (entries? n).bind fun es =>
    if names.all fun name => (es.filter (·.1 = name)).length ≤ 1 then some es else none

/-- the value of a field, or its default -/
def field? {α : Type} (fields : List (String × Node)) (name : String) (default : α)
    (read? : Node → Option α) : Option α :=
  match fields.lookup name with
  | some n => read? n
  | none => some default

def dialect? (n : Node) : Option Dialect := do
  let d := Dialect.schemaOrg
  let fields ← fields? ["namespace", "type_predicate", "class_type", "property_type", "subclass_of",
    "domain_includes", "range_includes", "comment"] n
  return {
    namespaceIri := ← field? fields "namespace" d.namespaceIri text?
    typePredicate := ← field? fields "type_predicate" d.typePredicate text?
    classType := ← field? fields "class_type" d.classType text?
    propertyType := ← field? fields "property_type" d.propertyType text?
    subclassOf := ← field? fields "subclass_of" d.subclassOf text?
    domainIncludes? := ← field? fields "domain_includes" d.domainIncludes? optionalText?
    rangeIncludes? := ← field? fields "range_includes" d.rangeIncludes? optionalText?
    comment := ← field? fields "comment" d.comment text? }

def primitives? (n : Node) : Option Primitives := do
  let es ← (← entries? n).mapM fun e => (scalar? e.2).map (e.1, ·)
  return .ofList es

def output? (n : Node) : Option OutputSettings := do
  let o := OutputSettings.plain
  let fields ← fields? ["include_docs", "header", "base_type_name"] n
  return {
    includeDocs := ← field? fields "include_docs" o.includeDocs truth?
    header := ← field? fields "header" o.header optionalText?
    baseName := ← field? fields "base_type_name" o.baseName text? }

def ofNode? (n : Node) : Option Settings := do
  let s := schemaOrg
  let fields ← fields? ["vocabulary", "primitives", "generator"] n
  return {
    dialect := ← field? fields "vocabulary" s.dialect dialect?
    primitives := ← field? fields "primitives" s.primitives primitives?
    output := ← field? fields "generator" s.output output? }

/-- the settings that a text describes once its placeholders are filled in; a blank text describes the
default -/
def ofText (value? : String → Option String) (text : String) : Except ConfigFault Settings :=
  let text := substitute value? text
  if isBlankText text then check schemaOrg
  else
    match (Yaml.document? text).bind ofNode? with
    | some s => check s
    | none => .error .notYaml

end Settings

end TypedVocabulary
