import TypedVocabulary.Rdf.Iri
import TypedVocabulary.Rdf.Literal

/-!
# RDF terms

A statement joins a subject and an object by a predicate, perhaps within a named graph.  Subjects are
IRIs and blank nodes; objects may also be literals.
-/

namespace TypedVocabulary.Rdf

/-- a blank node has a label in its document, or a number given to it by a reader -/
inductive Node where
  | iri (text : String)
  | blank (label : String)
  | fresh (number : Nat)
deriving DecidableEq, Repr

/-- a label of a blank node: as a name, but it may begin with a digit, hold colons, and hold dots inside -/
def isLabel (s : String) : Bool :=
  let s := s.toList
  s.head?.any (fun c => isNameStart c || c.isDigit || c = ':') &&
    s.all (fun c => isNameChar c || c = ':' || c = '.') && s.getLast? ≠ some '.'

/-- the node that a text names: a blank node by a label behind `_:`, or an IRI -/
def Node.ofText? (s : String) : Option Node :=
  match s.toList with
  | '_' :: ':' :: label =>
    if isLabel (.ofList label) then some (.blank (.ofList label)) else none
  | _ => if isIri s then some (.iri s) else none

inductive Term where
  | node (n : Node)
  | literal (l : Literal)
deriving DecidableEq, Repr

structure Quad where
  subject : Node
  predicate : String
  object : Term
  graph : Option Node
deriving DecidableEq, Repr

end TypedVocabulary.Rdf
