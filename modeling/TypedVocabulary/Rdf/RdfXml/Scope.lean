import TypedVocabulary.Rdf.Iri
import TypedVocabulary.Rdf.LanguageTag
import TypedVocabulary.Rdf.Literal
import TypedVocabulary.Xml.Entity
import TypedVocabulary.Xml.Markup

/-!
# Scopes of RDF/XML

The attributes of an element give meaning to prefixes, to relative IRIs and to texts, for the element
and all that it holds.
-/

namespace TypedVocabulary.Rdf.RdfXml

open Xml (Attributes Entities)

/-- what the attributes of the elements around set -/
structure Scope where
  /-- the innermost meaning of a prefix first, as it is written; there is one for names without a prefix
  as well -/
  prefixes : List (Option String × String)
  base : Option String
  language : Option String

namespace Scope

def xmlIri : String := "http://www.w3.org/XML/1998/namespace"

def xmlnsIri : String := "http://www.w3.org/2000/xmlns/"

def start (base : Option String) : Scope :=
  ⟨[(some "xml", xmlIri), (some "xmlns", xmlnsIri)], base, none⟩

/-- a name's prefix, if it has one, and what stands behind it -/
def cutName (name : String) : Option String × String :=
  match name.toList.dropWhile (· ≠ ':') with
  | _ :: rest => (some (.ofList (name.toList.takeWhile (· ≠ ':'))), .ofList rest)
  | [] => (none, name)

/-- the text that a name of an element or attribute stands for; an attribute has to have a prefix -/
def nameText? (s : Scope) (es : Entities) (name : String) (isElement : Bool) : Option String :=
  let (label, rest) := cutName name
  match s.prefixes.lookup label with
  | some meaning =>
    if meaning.isEmpty || (label.isNone && !isElement) then none else es.plain? (meaning ++ rest)
  | none => none

/-- the scope with the meaning of a prefix; those of XML itself are fixed -/
def bind? (s : Scope) (label : Option String) (meaning : String) : Option Scope :=
  let bound := { s with prefixes := (label, meaning) :: s.prefixes }
  match label with
  | none => some bound
  | some "xml" => if meaning = xmlIri then some s else none
  | some "xmlns" => none
  | some _ => if meaning = xmlIri || meaning = xmlnsIri then none else some bound

/-- the scope inside of an element as far as prefixes go -/
def bindAll? (s : Scope) (attributes : Attributes) : Option Scope :=
  attributes.foldlM (fun s a =>
    match cutName a.1 with
    | (none, "xmlns") => s.bind? none a.2
    | (some "xmlns", label) => s.bind? (some label) a.2
    | _ => some s) s

/-- the scope inside of an element -/
def inside? (s : Scope) (es : Entities) (attributes : Attributes) : Option Scope := do
  let s ← s.bindAll? attributes
  attributes.foldlM (fun s a =>
    match a.1 with
    | "xml:base" =>
      (es.plain? a.2).bind fun base => if isIri base then some { s with base := some base } else none
    | "xml:lang" =>
      (es.plain? a.2).bind fun tag => if isLanguageTag tag then some { s with language := some tag } else none
    | _ => some s) s

def literal (s : Scope) (text : String) (datatype : Option String) : Literal :=
  match datatype, s.language with
  | some t, _ => .typed text t
  | none, some language => .tagged text language
  | none, none => .simple text

end Scope

end TypedVocabulary.Rdf.RdfXml
