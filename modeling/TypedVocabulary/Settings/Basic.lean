import TypedVocabulary.Settings.Scalar
import TypedVocabulary.Settings.Dialect
import TypedVocabulary.Identifier.Basic
import TypedVocabulary.Text.Blank
import TypedVocabulary.Failure
import TypedVocabulary.Rdf.Iri

/-!
# Settings

The settings of a compilation: the dialect of the vocabulary, its primitive ranges and the form of the output.
Without any settings the schema.org vocabulary is compiled.

`Settings.check` demands that every IRI of the dialect is absolute and that the base type name is an
identifier; the first offence in the order of the fields is reported.
-/

namespace TypedVocabulary

/-- the form of the output -/
structure OutputSettings where
  /-- emit the vocabulary's comments -/
  includeDocs : Bool
  /-- a text for the head of the output -/
  header : Option String
  /-- the interface that every class extends -/
  baseName : String
deriving DecidableEq, Repr

def OutputSettings.plain : OutputSettings := ⟨true, none, "JsonLdNode"⟩

structure Settings where
  dialect : Dialect
  primitives : Primitives
  output : OutputSettings
deriving DecidableEq, Repr

namespace Settings

def schemaOrg : Settings := ⟨.schemaOrg, .schemaOrg, .plain⟩

instance : Inhabited Settings := ⟨schemaOrg⟩

/-- a scheme, a colon and at least one character, none of them blank -/
def isAbsoluteText : List Char → Bool
  | [] => false
  | c :: s =>
    c.isAlpha && match s.dropWhile Rdf.isSchemeChar with
      | ':' :: rest => !rest.isEmpty && rest.all fun c => !isBlank c
      | _ => false

/-- the IRIs of a dialect, each with the name of its setting -/
def checkedIris (d : Dialect) : List (String × String) :=
  [("vocabulary.namespace", d.namespaceIri), ("vocabulary.class_type", d.classType),
    ("vocabulary.property_type", d.propertyType), ("vocabulary.type_predicate", d.typePredicate),
    ("vocabulary.subclass_of", d.subclassOf), ("vocabulary.domain_includes", d.domainIncludes),
    ("vocabulary.range_includes", d.rangeIncludes), ("vocabulary.comment", d.comment)]

/-- the first offence, if there is one -/
def fault? (s : Settings) : Option ConfigFault :=
  match (checkedIris s.dialect).find? fun e => !isAbsoluteText e.2.toList with
  | some (field, value) => some (.notAbsolute field value)
  | none =>
    if isIdentifier s.output.baseName then none else some (.notIdentifier s.output.baseName)

def check (s : Settings) : Except ConfigFault Settings :=
  match s.fault? with
  | some fault => .error fault
  | none => .ok s

end Settings

end TypedVocabulary
