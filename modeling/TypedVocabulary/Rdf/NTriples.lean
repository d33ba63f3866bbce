import TypedVocabulary.Rdf.Turtle.Token
import TypedVocabulary.Rdf.Iri
import TypedVocabulary.Rdf.Term

/-!
# N-Triples

A document lists statements: a subject, a predicate, an object and a dot, each statement on a line of its own.
All IRIs are absolute.
-/

namespace TypedVocabulary.Rdf.NTriples

open Turtle (Token Name LiteralKind)

def iri? : Name → Option String
  | .iri text => if isIri text then some text else none
  | .prefixed .. => none

def node? : Token → Option Node
  | .name n => (iri? n).map .iri
  | .blank label => some (.blank label)
  | _ => none

def literal? (value : String) : LiteralKind → Option Literal
  | .simple => some (.simple value)
  | .language tag => some (.tagged value tag)
  | .datatype n => (iri? n).bind (Literal.typed? value)

def term? : Token → Option Term
  | .literal value kind => (literal? value kind).map .literal
  | t => (node? t).map .node

/-- the statement of a line, if the line is not empty -/
def line? : List Token → Option (List Quad)
  | [] => some []
  | [s, .name p, o, .mark '.'] => do return [⟨← node? s, ← iri? p, ← term? o, none⟩]
  | _ => none

/-- the statements of a text -/
def read? (text : String) : Option (List Quad) := do
  let lines := text.toList.splitOnP Turtle.isLineEnd
  return (← lines.mapM fun l => (Turtle.tokens? true (.ofList l)).bind line?).flatten

end TypedVocabulary.Rdf.NTriples
