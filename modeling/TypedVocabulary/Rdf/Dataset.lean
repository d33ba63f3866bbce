import TypedVocabulary.Rdf.Term
import TypedVocabulary.Source

/-!
# Datasets

A dataset is a set of statements.  As a source it answers with the IRIs and the values of literals, over all
graphs, and leaves blank nodes out; the statement that came last answers first.
-/

namespace TypedVocabulary.Rdf

structure Dataset where
  /-- the last statement first -/
  quads : List Quad
  nodup : quads.Nodup

namespace Dataset

def empty : Dataset := ⟨[], List.nodup_nil⟩

def insert (d : Dataset) (q : Quad) : Dataset :=
  if h : q ∈ d.quads then d else ⟨q :: d.quads, List.nodup_cons.2 ⟨h, d.nodup⟩⟩

/-- the statements of a list, the first one first -/
def ofList (qs : List Quad) : Dataset := qs.foldl insert empty

def size (d : Dataset) : Nat := d.quads.length

end Dataset

/-- the text of a term that is not blank -/
def Term.text? : Term → Option String
  | .node (.iri text) => some text
  | .node _ => none
  | .literal l => some l.text

def Node.iri? : Node → Option String
  | .iri text => some text
  | _ => none

def Dataset.source (d : Dataset) : Source where
  objects s p :=
    (d.quads.filter fun q => q.subject = .iri s ∧ q.predicate = p).filterMap (·.object.text?)
  subjects p o :=
    (d.quads.filter fun q => q.predicate = p ∧ q.object = .node (.iri o)).filterMap (·.subject.iri?)

end TypedVocabulary.Rdf
