import TypedVocabulary.Rdf.RdfXml.Given
import TypedVocabulary.Rdf.Term

/-!
# Statements of RDF/XML

Elements stand in turn for nodes and for properties.  The name of a node's element is its type, its
attributes and the elements inside of it are its properties; a property's object is an attribute, a text
or a node.  The markup is read with a stack of frames: what each open element stands for, and the scope
inside of it.  A property is stated where its element ends.
-/

namespace TypedVocabulary.Rdf.RdfXml

open Xml (Attributes Entities Markup)

/-- a property of a subject whose object is not known yet, and the name of its statement if it has one -/
structure Property where
  subject : Node
  predicate : String
  id : Option String

inductive Object where
  | node (n : Node)
  | text (s : String)

/-- an object that nothing but blanks may join -/
def Object.isSettled : Object → Bool
  | .node _ => true
  | .text s => !Xml.isSpaceText s

/-- what an open element stands for -/
inductive Slot where
  /-- the whole document -/
  | document
  /-- the element around all nodes -/
  | nodes
  /-- a node, with the number of its last numbered member -/
  | node (subject : Node) (members : Nat)
  | property (p : Property) (datatype : Option String) (object : Option Object)
  /-- a property with a list of nodes, the last one first -/
  | collection (p : Property) (items : List Node)
  /-- a property whose object is the markup inside of it, the last part first, with the number of its
  open elements; markup of an unknown kind is read but not stated -/
  | markup (p : Property) (isStated : Bool) (opened : Nat) (parts : List String)

structure Frame where
  scope : Scope
  slot : Slot

/-- what is known behind the first markup of a document -/
structure Reading where
  entities : Entities
  /-- the names that were given to nodes and statements -/
  ids : List String
  /-- the last statement first -/
  quads : List Quad
  /-- how many blank nodes have been numbered -/
  numbered : Nat
  /-- the innermost frame first -/
  frames : List Frame

namespace Reading

def start (base : Option String) : Reading :=
  ⟨.standard, [], [], 0, [⟨.start base, .document⟩]⟩

def fresh (r : Reading) : Node × Reading :=
  (.fresh r.numbered, { r with numbered := r.numbered + 1 })

def state (r : Reading) (subject : Node) (predicate : String) (object : Term) : Reading :=
  { r with quads := ⟨subject, predicate, object, none⟩ :: r.quads }

/-- states a property, behind what is said about its statement if it has a name -/
def complete (r : Reading) (p : Property) (object : Term) : Reading :=
  let r := match p.id with
    | some id =>
      let part (r : Reading) (name : String) (t : Term) := r.state (.iri id) (rdfName name) t
      let r := part r "type" (.node (.iri (rdfName "Statement")))
      let r := part r "subject" (.node p.subject)
      let r := part r "predicate" (.node (.iri p.predicate))
      part r "object" object
    | none => r
  r.state p.subject p.predicate object

/-- states what attributes say about a node: properties, and its type -/
def describe (r : Reading) (s : Scope) (subject : Node) (g : Given) : Reading :=
  let r := g.properties.foldl (fun r p => r.state subject p.1 (.literal (s.literal p.2 none))) r
  match g.type with
  | some type => r.state subject (rdfName "type") (.node (.iri type))
  | none => r

/-- no name is given twice -/
def claim? (r : Reading) : Option String → Option Reading
  | some id => if r.ids.contains id then none else some { r with ids := id :: r.ids }
  | none => some r

def push (r : Reading) (scope : Scope) (slot : Slot) : Reading :=
  { r with frames := ⟨scope, slot⟩ :: r.frames }

/-! ## start tags -/

/-- the names of the syntax that stand for no node and no property -/
def reservedNames : List String :=
  ["RDF", "ID", "about", "parseType", "resource", "nodeID", "datatype", "li", "aboutEach",
    "aboutEachPrefix", "bagID"]

/-- an element that stands for a node -/
def openNode? (r : Reading) (s : Scope) (name : String) (g : Given) : Option Reading := do
  guard (!(syntaxName? name).any reservedNames.contains && isIri name)
  let (subject, r) ← match g.id, g.label, g.about with
    | some id, none, none => some (.iri id, r)
    | none, some label, none => some (.blank label, r)
    | none, none, some iri => some (.iri iri, r)
    | none, none, none => some r.fresh
    | _, _, _ => none
  let r := r.describe s subject g
  let r := if name = rdfName "Description" then r else r.state subject (rdfName "type") (.node (.iri name))
  return r.push s (.node subject 0)

/-- the predicate that an element's name stands for, `members` being the numbered members so far -/
def predicate? (members : Nat) (name : String) : Option String :=
  if name = rdfName "li" then some (rdfName ("_" ++ toString (members + 1)))
  else if (syntaxName? name).any ("Description" :: reservedNames).contains then none
  else if isIri name then some name
  else none

/-- an element that stands for a property, read as its attributes say -/
def openProperty? (r : Reading) (s : Scope) (p : Property) (g : Given) : Option Reading :=
  match g.parseType with
  | some "Resource" =>
    let (node, r) := r.fresh
    some ((r.complete p (.node node)).push s (.node node 0))
  | some "Collection" => some (r.push s (.collection p []))
  | some kind => some (r.push s (.markup p (kind = "Literal") 0 []))
  | none =>
    match g.resource, g.label with
    | some _, some _ => none
    | some iri, none =>
      some ((r.describe s (.iri iri) g).push s (.property p g.datatype (some (.node (.iri iri)))))
    | none, some label =>
      some ((r.describe s (.blank label) g).push s (.property p g.datatype (some (.node (.blank label)))))
    | none, none =>
      if g.properties.isEmpty && g.type.isNone then some (r.push s (.property p g.datatype none))
      else
        let (node, r) := r.fresh
        some ((r.describe s node g).push s (.property p g.datatype (some (.node node))))

/-- a start tag as it is written within markup -/
def tagText (name : String) (attributes : Attributes) : String :=
  "<" ++ name ++ String.join (attributes.map fun a => " " ++ a.1 ++ "=\"" ++ a.2 ++ "\"") ++ ">"

def open? (r : Reading) (name : String) (attributes : Attributes) : Option Reading :=
  match r.frames with
  | ⟨s, .markup p isStated opened parts⟩ :: outer => do
    let _ ← s.bindAll? attributes
    let parts := tagText name attributes :: parts
    return { r with frames := ⟨s, .markup p isStated (opened + 1) parts⟩ :: outer }
  | ⟨around, slot⟩ :: outer => do
    let s ← around.inside? r.entities attributes
    let name ← s.nameText? r.entities name true
    let g ← Given.ofAttributes? r.entities s attributes
    let r ← r.claim? g.id
    match slot with
    | .document => if name = rdfName "RDF" then some (r.push s .nodes) else r.openNode? s name g
    | .node subject members =>
      let predicate ← predicate? members name
      let members := if name = rdfName "li" then members + 1 else members
      openProperty? { r with frames := ⟨around, .node subject members⟩ :: outer } s
        ⟨subject, predicate, g.id⟩ g
    | _ => r.openNode? s name g
  | [] => none

/-! ## end tags -/

/-- a list of nodes as cells; its first cell, or the empty list -/
def cells (r : Reading) : List Node → Node × Reading
  | [] => (.iri (rdfName "nil"), r)
  | n :: ns =>
    let (rest, r) := cells r ns
    let (cell, r) := r.fresh
    (cell, (r.state cell (rdfName "first") (.node n)).state cell (rdfName "rest") (.node rest))

/-- a node whose element ends is an object where one is awaited -/
def deliver? (r : Reading) (n : Node) : Option Reading :=
  match r.frames with
  | ⟨s, .property p datatype object⟩ :: outer =>
    if object.any Object.isSettled then none
    else some { r with frames := ⟨s, .property p datatype (some (.node n))⟩ :: outer }
  | ⟨s, .collection p items⟩ :: outer =>
    some { r with frames := ⟨s, .collection p (n :: items)⟩ :: outer }
  | _ => some r

def close? (r : Reading) (name : String) : Option Reading :=
  match r.frames with
  | ⟨s, .markup p isStated (opened + 1) parts⟩ :: outer =>
    let parts := ("</" ++ name ++ ">") :: parts
    some { r with frames := ⟨s, .markup p isStated opened parts⟩ :: outer }
  | ⟨s, slot⟩ :: outer =>
    let r := { r with frames := outer }
    match slot with
    | .document | .nodes => some r
    | .node subject _ => r.deliver? subject
    | .property p _ (some (.node n)) => some (r.complete p (.node n))
    | .property p datatype (some (.text t)) => some (r.complete p (.literal (s.literal t datatype)))
    | .property p datatype none => some (r.complete p (.literal (s.literal "" datatype)))
    | .collection p items =>
      let (first, r) := r.cells items.reverse
      some (r.complete p (.node first))
    | .markup p isStated _ parts =>
      let text := String.join parts.reverse
      if !isStated then some r
      else if text.isEmpty then none
      else some (r.complete p (.literal (.typed text (rdfName "XMLLiteral"))))
  | [] => none

/-! ## texts -/

/-- a text without entities -/
def text? (r : Reading) (t : String) : Option Reading :=
  match r.frames with
  | ⟨s, .property p datatype object⟩ :: outer =>
    if !object.any Object.isSettled then
      some { r with frames := ⟨s, .property p datatype (some (.text t))⟩ :: outer }
    else if Xml.isSpaceText t then some r
    else none
  | ⟨s, .markup p isStated opened parts⟩ :: outer =>
    some { r with frames := ⟨s, .markup p isStated opened (Xml.escaped t :: parts)⟩ :: outer }
  | _ => if Xml.isSpaceText t then some r else none

/-- a blank that is written as an entity is no blank where a text may not stand -/
def rawText? (r : Reading) (raw : String) : Option Reading := do
  let r' ← r.text? (← r.entities.plain? raw)
  match r.frames with
  | ⟨_, .property ..⟩ :: _ | ⟨_, .markup ..⟩ :: _ => some r'
  | _ => if Xml.isSpaceText raw then some r' else none

def step? (r : Reading) : Markup → Option Reading
  | .opening name attributes => r.open? name attributes
  | .closing name => r.close? name
  | .text raw => r.rawText? raw
  | .verbatim t => r.text? t
  | .documentType inside => (r.entities.declareAll? inside).map fun es => { r with entities := es }

end Reading

/-- the statements of a text, in their order -/
def read? (base : Option String) (text : String) : Option (List Quad) := do
  let r ← (← Xml.read? text).foldlM Reading.step? (.start base)
  return r.quads.reverse

end TypedVocabulary.Rdf.RdfXml
