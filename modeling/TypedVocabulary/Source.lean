/-!
# Sources of statements

A source answers two questions about its statements: the objects of a subject and a predicate, and the
subjects of a predicate and an object.  A list of triples answers in its own order, a repeated triple as
often as it occurs.
-/

namespace TypedVocabulary

structure Triple where
  subject : String
  predicate : String
  object : String
deriving DecidableEq, Repr

structure Source where
  objects : (subject predicate : String) → List String
  subjects : (predicate object : String) → List String

def Source.ofTriples (ts : List Triple) : Source where
  objects s p := (ts.filter fun t => t.subject = s ∧ t.predicate = p).map Triple.object
  subjects p o := (ts.filter fun t => t.predicate = p ∧ t.object = o).map Triple.subject

end TypedVocabulary
