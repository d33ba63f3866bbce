import TypedVocabulary.Failure
import TypedVocabulary.Rdf.Dataset
import TypedVocabulary.Rdf.NTriples
import TypedVocabulary.Rdf.Turtle.Statements
import TypedVocabulary.Rdf.JsonLd.Statements
import TypedVocabulary.Rdf.RdfXml.Statements

/-!
# Reading documents

A document is read as a whole: where a part of it is malformed, none of its statements count.  The base
IRI must be an IRI, except in the format that has no relative references.
-/

namespace TypedVocabulary

namespace DocumentFormat

/-- the statements of a text in a format -/
def quads? (format : DocumentFormat) (base : Option String) (text : String) : Option (List Rdf.Quad) :=
  match format with
  | .jsonLd => Rdf.JsonLd.read? base text
  | .turtle => Rdf.Turtle.read? base text
  | .nTriples => Rdf.NTriples.read? text
  | .rdfXml => Rdf.RdfXml.read? base text

/-- a base IRI that the format can use -/
def acceptsBase (format : DocumentFormat) (base : Option String) : Bool :=
  format = .nTriples || base.all Rdf.isIri

/-- the dataset of a document; a document that is no text is malformed -/
def read (format : DocumentFormat) (base : Option String) (text? : Option String) :
    Except Failure Rdf.Dataset :=
  if format.acceptsBase base then
    match text?.bind (format.quads? base) with
    | some qs => .ok (.ofList qs)
    | none => .error (.document (.malformed format) none)
  else .error (.config .badBaseIri)

end DocumentFormat

end TypedVocabulary
