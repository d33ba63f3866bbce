import TypedVocabulary.Rdf.JsonLd.Value
import TypedVocabulary.Rdf.Emission
import TypedVocabulary.Json.Reading
import TypedVocabulary.Text.ByteOrderMark

/-!
# Statements of JSON-LD

An object is a node with an IRI, a label or neither; its members are statements about it, and their values are
literals, lists or nodes in turn.  The nodes of a named graph stand under the node that names it.
-/

namespace TypedVocabulary.Rdf.JsonLd

open Emission

/-- the context inside an object -/
def inside (base : Option String) (c : Context) (ms : List (String × Json)) : Emission Context :=
  match ms.lookup "@context" with
  | some j => ofOption (c.ofJson? base j)
  | none => pure c

/-- the node that an object is about; none if its name is no name of a node -/
def subject (c : Context) (ms : List (String × Json)) : Emission (Option Node) :=
  match member? c ms "@id" with
  | none => some <$> fresh
  | some (.string s) => pure ((c.reference? s).bind Node.ofText?)
  | some _ => failure

/-- an object that holds a graph and nothing else about it -/
def isGraphOnly (c : Context) (ms : List (String × Json)) : Bool :=
  (member? c ms "@graph").isSome &&
    ms.all fun m => m.1 = "@context" || c.property? m.1 = some "@graph"

/-- what a member of a node is about -/
inductive MemberKind where
  | types
  | graph
  | property (iri : String)
  /-- read elsewhere, or without a meaning -/
  | other

/-- what a name stands for in a node; some keywords have no place there -/
def memberKind? (c : Context) (name : String) : Option MemberKind :=
  match c.property? name with
  | some "@type" => some .types
  | some "@graph" => some .graph
  | some iri =>
    if ["@context", "@id", "@index", "@list", "@set"].contains iri then some .other
    else if keywords.contains iri then none
    else if iri.toList.contains ':' then some (.property iri)
    else some .other
  | none => some .other

mutual

/-- the nodes of a graph: those of the whole document if `top`, else those under a node -/
def emitNodes (base : Option String) (c : Context) (place : Place) (top : Bool) : Json → Emission Unit
  | .array js => emitAllNodes base c place js
  | .object ms => do
    let c ← inside base c ms
    if isLiteral c ms then
      let _ ← ofOption (literal? c ms)
    else if top && isGraphOnly c ms then emitMembers base c place none place ms
    else
      let s ← subject c ms
      emitMembers base c place s (s.map some) ms
  | _ => pure ()

def emitAllNodes (base : Option String) (c : Context) (place : Place) : List Json → Emission Unit
  | [] => pure ()
  | j :: js => do
    emitNodes base c place false j
    emitAllNodes base c place js

/-- the statements of an object's members about its subject; the nodes under it go into the graph `inner` -/
def emitMembers (base : Option String) (c : Context) (place : Place) (subject : Option Node) (inner : Place) :
    List (String × Json) → Emission Unit
  | [] => pure ()
  | (name, j) :: ms => do
    match ← ofOption (memberKind? c name) with
    | .types =>
      for t in (← ofOption (types? c j)).filterMap Node.ofText? do
        state place subject (rdfName "type") (.node t)
    | .graph => emitNodes base c inner false j
    | .property iri =>
      let meaning := c.meaning? name
      let objects ← emitObjects base c place meaning j
      let objects ← if meaning.any (·.isList) then (fun cell => [.node cell]) <$> cells place objects
        else pure objects
      if isIri iri then
        for o in objects do state place subject iri o
    | .other => pure ()
    emitMembers base c place subject inner ms

/-- the terms that a value stands for, once the statements inside of it are emitted -/
def emitObjects (base : Option String) (c : Context) (place : Place) (m : Option Meaning) :
    Json → Emission (List Term)
  | .null => pure []
  | .bool b => pure [.literal (boolLiteral b (datatype? m))]
  | .number digits => pure [.literal (numberLiteral digits (datatype? m))]
  | .string s => pure (textTerm? c m s).toList
  | .array js => emitAllObjects base c place m js
  | .object ms => do
    let c ← inside base c ms
    if isLiteral c ms then return ((← ofOption (literal? c ms)).map Term.literal).toList
    else if (member? c ms "@list").isSome then
      return [.node (← cells place (← emitUnder base c place m "@list" ms))]
    else if (member? c ms "@set").isSome then emitUnder base c place m "@set" ms
    else
      let s ← subject c ms
      emitMembers base c place s (s.map some) ms
      return (s.map Term.node).toList

def emitAllObjects (base : Option String) (c : Context) (place : Place) (m : Option Meaning) :
    List Json → Emission (List Term)
  | [] => pure []
  | j :: js => do
    let objects ← emitObjects base c place m j
    return objects ++ (← emitAllObjects base c place m js)

/-- the terms under a keyword of an object -/
def emitUnder (base : Option String) (c : Context) (place : Place) (m : Option Meaning)
    (keyword : String) : List (String × Json) → Emission (List Term)
  | [] => pure []
  | (name, j) :: ms =>
    if c.property? name = some keyword then emitObjects base c place m j
    else emitUnder base c place m keyword ms

end

/-- the statements of a text -/
def read? (base : Option String) (text : String) : Option (List Quad) :=
  (Json.ofText? (.ofList (withoutByteOrderMark text.toList))).bind fun j =>
    (emitNodes base (.start base) (some none) true j).quads?

end TypedVocabulary.Rdf.JsonLd
