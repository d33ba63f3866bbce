import TypedVocabulary.Extraction
import TypedVocabulary.Graph.Ancestors
import TypedVocabulary.Graph.Linearization
import TypedVocabulary.FieldType
import TypedVocabulary.Settings.Basic

/-!
# Compiled vocabularies

A compiled vocabulary is a graph together with what every output needs: the order of its classes and their
identifiers.  `extendable` lists the parents that the declaration of a class may name: all that are
declared, except those that share a cycle with the class and come after it.
-/

namespace TypedVocabulary

structure Vocabulary where
  settings : Settings
  graph : Graph
  linearization : Linearization
  identifiers : IdentifierTable

namespace Vocabulary

/-- orders and names the classes of a graph -/
def ofGraph (settings : Settings) (graph : Graph) : Vocabulary where
  settings := settings
  graph := graph
  linearization := graph.linearize
  identifiers := .ofNames graph.classes.keySet [settings.output.baseName]

/-- compiles the vocabulary that a source describes -/
def ofSource (settings : Settings) (source : Source) : Vocabulary :=
  ofGraph settings (Extraction.extract source settings.dialect)

def identifier? (v : Vocabulary) (name : String) : Option String := v.identifiers.get? name

/-- the classes in the order of their declarations -/
def orderedClasses (v : Vocabulary) : List ClassDecl :=
  v.linearization.order.filterMap v.graph.class?

/-- whether a class is declared before another -/
def placedBefore (v : Vocabulary) (a b : String) : Bool :=
  match v.linearization.position? a, v.linearization.position? b with
  | some i, some j => i < j
  | _, _ => false

/-- whether a class may extend a parent: it is placed earlier, or is not below the class -/
def mayExtend (v : Vocabulary) (name parent : String) : Bool :=
  parent ≠ name && (v.placedBefore parent name || decide (name ∉ v.graph.ancestors parent))

/-- the parents that the declaration of a class names -/
def extendable (v : Vocabulary) (name : String) : NameSet :=
  match v.linearization.position? name with
  | none => ∅
  | some _ => NameSet.ofList ((v.graph.resolvableParents name).filter (v.mayExtend name))

def fieldType (v : Vocabulary) (p : PropertyDecl) : FieldType :=
  .ofRanges v.settings.primitives v.identifiers p.ranges

end Vocabulary

end TypedVocabulary
