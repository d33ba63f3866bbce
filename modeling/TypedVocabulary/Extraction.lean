import TypedVocabulary.Source
import TypedVocabulary.Settings.Dialect
import TypedVocabulary.Graph.Basic
import TypedVocabulary.Text.Blank

/-!
# Extraction

The graph of a vocabulary is read off a source in steps, each of which fills in one kind of edge.  Extraction
never fails: a term with missing or foreign edges just ends up with fewer of them.  Values outside the
namespace are passed over; names inside it that the vocabulary never declares are kept.
-/

namespace TypedVocabulary

/-- the local names of the given IRIs, those of other namespaces left out -/
def Dialect.localNames (d : Dialect) (iris : List String) : List String :=
  iris.filterMap d.localName?

/-- adds the names that are not in the list yet, in order -/
def addNew (names : List String) (more : List String) : List String :=
  more.foldl (fun ns n => if n ∈ ns then ns else ns ++ [n]) names

/-- the smallest of the names, by code point -/
def smallest? : List String → Option String
  | [] => none
  | x :: xs => some (xs.foldl (fun m y => if y < m then y else m) x)

namespace Extraction

variable (source : Source) (d : Dialect)

/-- the subjects of a kind -/
def typed (kind : String) : List String := source.subjects d.typePredicate kind

/-- declares every subject of the kind of classes -/
def collectClasses (g : Graph) : Graph :=
  { g with
    classes := (typed source d d.classType).foldl
      (fun classes iri => match d.localName? iri with
        | some name => classes.insertIfNew name (.named name iri)
        | none => classes)
      g.classes }

/-- declares every subject of the kind of properties -/
def collectProperties (g : Graph) : Graph :=
  { g with
    properties := (typed source d d.propertyType).foldl
      (fun properties iri => match d.localName? iri with
        | some name => properties.insertIfNew name (.named name iri)
        | none => properties)
      g.properties }

/-- adds the superclasses of every class to its parents -/
def resolveSubclassing (g : Graph) : Graph :=
  { g with
    classes := g.classes.map fun c =>
      { c with parents := addNew c.parents (d.localNames (source.objects c.iri d.subclassOf)) } }

/-- sets the domains and ranges of every property -/
def resolveDomainsAndRanges (g : Graph) : Graph :=
  { g with
    properties := g.properties.map fun p =>
      { p with
        domains := addNew [] (d.localNames (source.objects p.iri d.domainIncludes))
        ranges := addNew [] (d.localNames (source.objects p.iri d.rangeIncludes)) } }

/-- the smallest comment of a term that is not blank: the choice does not depend on any order -/
def comment? (iri : String) : Option String :=
  smallest? ((source.objects iri d.comment).filter fun c => !isBlankText c)

/-- sets the comment of every class and property -/
def collectComments (g : Graph) : Graph :=
  { classes := g.classes.map fun c => { c with comment := comment? source d c.iri }
    properties := g.properties.map fun p => { p with comment := comment? source d p.iri } }

/-- the graph of a source -/
def extract : Graph :=
  Graph.attachProperties <| collectComments source d <| resolveDomainsAndRanges source d <|
    resolveSubclassing source d <| collectProperties source d <| collectClasses source d .empty

end Extraction

end TypedVocabulary
