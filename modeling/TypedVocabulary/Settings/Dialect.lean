/-!
# Dialects

A dialect names the IRIs that give statements their meaning: the namespace whose terms are compiled, the
predicates that classify terms and join them, and the two kinds of terms.
-/

namespace TypedVocabulary

structure Dialect where
  /-- the IRIs that begin with it are the vocabulary's own -/
  namespaceIri : String
  /-- joins a term to its kind -/
  typePredicate : String
  /-- the kind of classes -/
  classType : String
  /-- the kind of properties -/
  propertyType : String
  /-- joins a class to a superclass -/
  subclassOf : String
  /-- joins a property to a class that it belongs to, unless the namespace has its own -/
  domainIncludes? : Option String
  /-- joins a property to a class or primitive of its values, unless the namespace has its own -/
  rangeIncludes? : Option String
  /-- joins a term to its documentation -/
  comment : String
deriving DecidableEq, Repr

namespace Dialect

def rdf (name : String) : String := "http://www.w3.org/1999/02/22-rdf-syntax-ns#" ++ name

def rdfs (name : String) : String := "http://www.w3.org/2000/01/rdf-schema#" ++ name

/-- the dialect of the schema.org vocabulary -/
def schemaOrg : Dialect where
  namespaceIri := "https://schema.org/"
  typePredicate := rdf "type"
  classType := rdfs "Class"
  propertyType := rdf "Property"
  subclassOf := rdfs "subClassOf"
  domainIncludes? := none
  rangeIncludes? := none
  comment := rdfs "comment"

def domainIncludes (d : Dialect) : String :=
  d.domainIncludes?.getD (d.namespaceIri ++ "domainIncludes")

def rangeIncludes (d : Dialect) : String :=
  d.rangeIncludes?.getD (d.namespaceIri ++ "rangeIncludes")

/-- what follows the namespace in an IRI of the vocabulary, if anything does -/
def localName? (d : Dialect) (iri : String) : Option String :=
  if d.namespaceIri.toList.isPrefixOf iri.toList && d.namespaceIri.toList.length < iri.toList.length then
    some (String.ofList (iri.toList.drop d.namespaceIri.toList.length))
  else none

end Dialect

end TypedVocabulary
