import TypedVocabulary.Names.NameMap

/-!
# Graphs of classes and properties

A graph holds the classes and the properties that a vocabulary declares, each under its local name.  Edges
are names: the parents of a class, the domains and ranges of a property.  They may name classes that the
vocabulary never declares; those are kept, and passed over wherever inheritance is followed.
-/

namespace TypedVocabulary

/-- a class -/
structure ClassDecl where
  /-- its local name -/
  name : String
  iri : String
  /-- the local names of its direct superclasses, in the order they were found -/
  parents : List String
  /-- the properties that have this class among their domains -/
  properties : NameSet
  comment : Option String
deriving DecidableEq

/-- a property -/
structure PropertyDecl where
  /-- its local name -/
  name : String
  iri : String
  /-- the classes that it belongs to -/
  domains : List String
  /-- the classes and primitives that its values are taken from -/
  ranges : List String
  comment : Option String
deriving DecidableEq

/-- a class without edges -/
def ClassDecl.named (name iri : String) : ClassDecl := ⟨name, iri, [], ∅, none⟩

/-- a property without edges -/
def PropertyDecl.named (name iri : String) : PropertyDecl := ⟨name, iri, [], [], none⟩

/-- the classes and properties of a vocabulary, by local name -/
structure Graph where
  classes : NameMap ClassDecl
  properties : NameMap PropertyDecl
deriving DecidableEq

namespace Graph

def empty : Graph := ⟨∅, ∅⟩

instance : Inhabited Graph := ⟨empty⟩

def class? (g : Graph) (name : String) : Option ClassDecl := g.classes.get? name

def property? (g : Graph) (name : String) : Option PropertyDecl := g.properties.get? name

def isClass (g : Graph) (name : String) : Bool := g.classes.contains name

/-- the parents of a class that are declared, in order and as often as they are listed -/
def resolvableParents (g : Graph) (name : String) : List String :=
  match g.class? name with
  | some c => c.parents.filter g.isClass
  | none => []

/-- enters a property at the classes `domains`, as far as they are declared -/
def attach (property : String) (classes : NameMap ClassDecl) (domains : List String) :
    NameMap ClassDecl :=
  domains.foldl
    (fun classes d => classes.modify d fun c => { c with properties := c.properties.insert property })
    classes

/-- enters every property at the declared classes among its domains -/
def attachProperties (g : Graph) : Graph :=
  { g with
    classes := g.properties.values.foldl (fun classes p => attach p.name classes p.domains) g.classes }

theorem isClass_iff {g : Graph} {name : String} : g.isClass name = true ↔ name ∈ g.classes.keys :=
  NameMap.contains_iff

/-- graphs that answer every look-up alike are equal -/
theorem ext_lookups {g h : Graph} (hc : ∀ n, g.class? n = h.class? n)
    (hp : ∀ n, g.property? n = h.property? n) : g = h := by
  have hclasses : g.classes = h.classes := NameMap.ext_get? hc
  have hproperties : g.properties = h.properties := NameMap.ext_get? hp
  cases g
  cases h
  cases hclasses
  cases hproperties
  rfl

end Graph

end TypedVocabulary
