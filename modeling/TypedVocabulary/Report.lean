import TypedVocabulary.Vocabulary
import TypedVocabulary.Json.Basic

/-!
# Reports

A report counts what was compiled and lists what compilation took in without complaint: classes on or below a
cycle of parents, properties that no class has, parents that are not declared, and names whose
identifiers collide.
-/

namespace TypedVocabulary

structure Report where
  namespaceIri : String
  classes : Nat
  properties : Nat
  unresolvedClasses : List String
  unattachedProperties : List String
  /-- a class and a parent of it that is not declared -/
  danglingParents : List (String × String)
  collisions : List Collision
deriving DecidableEq, Repr

namespace Vocabulary

def report (v : Vocabulary) : Report where
  namespaceIri := v.settings.dialect.namespaceIri
  classes := v.graph.classes.size
  properties := v.graph.properties.size
  unresolvedClasses := v.linearization.unresolved
  unattachedProperties :=
    (v.graph.properties.values.filter fun p => !p.domains.any v.graph.isClass).map (·.name)
  danglingParents :=
    v.graph.classes.values.flatMap fun c =>
      (c.parents.filter fun parent => !v.graph.isClass parent).map (c.name, ·)
  collisions := v.identifiers.collisions

end Vocabulary

/-! ## its text -/

def Collision.toJson (c : Collision) : Json :=
  .object [("identifier", .string c.identifier), ("kept_by", .string c.keptBy),
    ("renamed", .array (c.renamed.map Json.pair))]

namespace Report

/-- a heading with a count, and its entries; nothing where there are none -/
def block (heading : String) (count : Nat) (entries : List String) : List String :=
  if count = 0 then [] else ["", heading ++ " (" ++ toString count ++ "):"] ++ entries

def collisionLines (c : Collision) : List String :=
  ("  " ++ c.identifier ++ " kept by " ++ c.keptBy) ::
    c.renamed.map fun r => "    " ++ r.1 ++ " -> " ++ r.2

/-- the report in words -/
def text (r : Report) : String :=
  unlines <|
    ["Vocabulary: " ++ r.namespaceIri, "Classes:    " ++ toString r.classes,
      "Properties: " ++ toString r.properties] ++
    block "Classes on or below a subclass cycle" r.unresolvedClasses.length
      (r.unresolvedClasses.map ("  " ++ ·)) ++
    block "Undeclared superclasses" r.danglingParents.length
      (r.danglingParents.map fun d => "  " ++ d.1 ++ " -> " ++ d.2) ++
    block "Properties without a declared domain" r.unattachedProperties.length
      (r.unattachedProperties.map ("  " ++ ·)) ++
    block "Identifier collisions" r.collisions.length (r.collisions.flatMap collisionLines)

/-- the report as an object -/
def toJson (r : Report) : Json :=
  .object [("namespace", .string r.namespaceIri), ("classes", .ofNat r.classes),
    ("properties", .ofNat r.properties), ("unresolved_classes", Json.strings r.unresolvedClasses),
    ("unattached_properties", Json.strings r.unattachedProperties),
    ("dangling_parents", .array (r.danglingParents.map Json.pair)),
    ("collisions", .array (r.collisions.map Collision.toJson))]

end Report

end TypedVocabulary
