import TypedVocabulary.Rdf.RdfXml.Scope
import TypedVocabulary.Text.NameChar

/-!
# What attributes give in RDF/XML

An attribute names a node, says how the content of an element is read, or states a property of the node.
-/

namespace TypedVocabulary.Rdf.RdfXml

open Xml (Attributes Entities)

/-- the local name of an IRI of the syntax itself -/
def syntaxName? (iri : String) : Option String :=
  if iri.startsWith (rdfName "") then some (String.ofList (iri.toList.drop (rdfName "").length)) else none

/-- the attributes of an element by what they mean; names of nodes are resolved -/
structure Given where
  id : Option String
  label : Option String
  about : Option String
  resource : Option String
  datatype : Option String
  type : Option String
  /-- as it is written -/
  parseType : Option String
  /-- the properties that attributes state -/
  properties : List (String × String)

namespace Given

/-- a value that has to be a simple name -/
def name? (value : String) : Option String := if isSimpleName value then some value else none

/-- adds an attribute with the text that its name stands for -/
def add? (g : Given) (es : Entities) (name raw : String) : Option Given :=
  let value? := es.plain? raw
  match syntaxName? name with
  | some "ID" => (value?.bind name?).map fun id => { g with id := some ("#" ++ id) }
  | some "nodeID" => (value?.bind name?).map fun label => { g with label := some label }
  | some "bagID" => (value?.bind name?).map fun _ => g
  | some "about" => value?.map fun text => { g with about := some text }
  | some "resource" => value?.map fun text => { g with resource := some text }
  | some "datatype" => value?.map fun text => { g with datatype := some text }
  | some "type" => value?.map fun text => { g with type := some text }
  | some "parseType" => some { g with parseType := some raw }
  | some "aboutEach" | some "aboutEachPrefix" | some "li" | some "RDF" => none
  | _ =>
    if isIri name then value?.map fun text => { g with properties := g.properties ++ [(name, text)] }
    else none

/-- what is given by the attributes of an element, in the scope inside of it; those of XML itself do not
count -/
def ofAttributes? (es : Entities) (s : Scope) (attributes : Attributes) : Option Given := do
  let own := attributes.filter fun a => !a.1.startsWith "xml"
  let nothing : Given := ⟨none, none, none, none, none, none, none, []⟩
  let g ← own.foldlM (fun g a => (s.nameText? es a.1 false).bind (g.add? es · a.2)) nothing
  let resolved? (text? : Option String) : Option (Option String) := text?.mapM (resolve? s.base)
  return { g with
    id := ← resolved? g.id
    about := ← resolved? g.about
    resource := ← resolved? g.resource
    datatype := ← resolved? g.datatype
    type := ← resolved? g.type }

end Given

end TypedVocabulary.Rdf.RdfXml
