import TypedVocabulary.Report

/-!
# Manifests

A manifest says about a vocabulary what its declarations encode, for readers that do not read declarations: an
entry for every class, in the order of the declarations, an entry for every property and the collisions of
identifiers.
-/

namespace TypedVocabulary

structure ClassEntry where
  name : String
  iri : String
  /-- empty where the class has none -/
  identifier : String
  parents : List String
  /-- the parents that its declaration names -/
  extending : List String
  properties : List String
  unresolved : Bool
  comment : Option String
deriving DecidableEq, Repr

structure PropertyEntry where
  name : String
  iri : String
  domains : List String
  ranges : List String
  /-- the text of its type -/
  type : String
  comment : Option String
deriving DecidableEq, Repr

structure Manifest where
  namespaceIri : String
  classes : List ClassEntry
  properties : List PropertyEntry
  collisions : List Collision
deriving DecidableEq, Repr

/-! ## the manifest of a vocabulary -/

namespace Vocabulary

def classEntry (v : Vocabulary) (c : ClassDecl) : ClassEntry where
  name := c.name
  iri := c.iri
  identifier := (v.identifier? c.name).getD ""
  parents := (NameSet.ofList c.parents).toList
  extending := (v.extendable c.name).toList
  properties := (v.graph.effectiveProperties c.name).toList
  unresolved := v.linearization.unresolved.contains c.name
  comment := if v.settings.output.includeDocs then c.comment else none

def propertyEntry (v : Vocabulary) (p : PropertyDecl) : PropertyEntry where
  name := p.name
  iri := p.iri
  domains := (NameSet.ofList p.domains).toList
  ranges := (NameSet.ofList p.ranges).toList
  type := (v.fieldType p).text
  comment := if v.settings.output.includeDocs then p.comment else none

def manifest (v : Vocabulary) : Manifest where
  namespaceIri := v.settings.dialect.namespaceIri
  classes := v.orderedClasses.map v.classEntry
  properties := v.graph.properties.values.map v.propertyEntry
  collisions := v.identifiers.collisions

end Vocabulary

/-! ## its text -/

/-- the member for a comment, if there is one -/
def commentMember : Option String → List (String × Json)
  | some comment => [("comment", .string comment)]
  | none => []

def ClassEntry.toJson (e : ClassEntry) : Json :=
  .object <|
    [("name", .string e.name), ("iri", .string e.iri), ("identifier", .string e.identifier),
      ("parents", Json.strings e.parents), ("extends", Json.strings e.extending),
      ("properties", Json.strings e.properties), ("unresolved", .bool e.unresolved)] ++
    commentMember e.comment

def PropertyEntry.toJson (e : PropertyEntry) : Json :=
  .object <|
    [("name", .string e.name), ("iri", .string e.iri), ("domains", Json.strings e.domains),
      ("ranges", Json.strings e.ranges), ("type", .string e.type)] ++
    commentMember e.comment

namespace Manifest

def toJson (m : Manifest) : Json :=
  .object [("namespace", .string m.namespaceIri), ("classes", .array (m.classes.map ClassEntry.toJson)),
    ("properties", .array (m.properties.map PropertyEntry.toJson)),
    ("collisions", .array (m.collisions.map Collision.toJson))]

def text (m : Manifest) : String := m.toJson.render ++ "\n"

end Manifest

end TypedVocabulary
