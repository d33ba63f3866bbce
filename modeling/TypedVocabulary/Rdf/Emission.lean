import TypedVocabulary.Rdf.Term

/-!
# Emission

A reader that walks over a tree emits statements as it goes and numbers the blank nodes that have no
label.  It fails as a whole where a part of the tree is malformed.
-/

namespace TypedVocabulary.Rdf

structure Emitted where
  /-- the last statement first -/
  quads : List Quad
  /-- how many blank nodes have been numbered -/
  numbered : Nat

abbrev Emission := StateT Emitted Option

/-- where statements go: into the default graph or a named one, or nowhere if its name is no name of a node -/
abbrev Place := Option (Option Node)

namespace Emission

def fresh : Emission Node :=
  modifyGet fun e => (.fresh e.numbered, { e with numbered := e.numbered + 1 })

/-- a statement, unless its subject or its place is missing -/
def state (place : Place) (subject : Option Node) (predicate : String) (object : Term) : Emission Unit :=
  match place, subject with
  | some graph, some s => modify fun e => { e with quads := ⟨s, predicate, object, graph⟩ :: e.quads }
  | _, _ => pure ()

/-- an outcome that may be missing -/
def ofOption {α : Type} : Option α → Emission α
  | some a => pure a
  | none => failure

/-- a list of terms as cells; its first cell, or the empty list -/
def cells (place : Place) : List Term → Emission Node
  | [] => pure (.iri (rdfName "nil"))
  | t :: ts => do
    let cell ← fresh
    state place cell (rdfName "first") t
    state place cell (rdfName "rest") (.node (← cells place ts))
    return cell

/-- the statements that are emitted, in their order -/
def quads? (e : Emission Unit) : Option (List Quad) :=
  (e.run ⟨[], 0⟩).map fun r => r.2.quads.reverse

end Emission

end TypedVocabulary.Rdf
