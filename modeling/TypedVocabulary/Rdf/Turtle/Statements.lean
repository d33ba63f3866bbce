import TypedVocabulary.Rdf.Turtle.Token
import TypedVocabulary.Rdf.Iri
import TypedVocabulary.Rdf.Term

/-!
# Statements of Turtle

A subject is followed by predicates, and each of them by objects.  Subjects and objects may be blank nodes in
brackets with predicates of their own, or lists.  The tokens are read with a stack of slots: what is open, and
what comes next in it.
-/

namespace TypedVocabulary.Rdf.Turtle

/-- in front of a predicate -/
inductive Lead where
  /-- behind a subject: a predicate has to come -/
  | subject
  /-- behind an opening bracket -/
  | bracket
  /-- behind a semicolon -/
  | further
  /-- behind a subject that is a pair of brackets with predicates of its own -/
  | bracketed
deriving DecidableEq

/-- what is open, and what comes next in it -/
inductive Slot where
  /-- behind the name of a directive, which ends with a dot if it began with an at sign -/
  | prefixLabel (dotted : Bool)
  | prefixIri (dotted : Bool) (label : String)
  | baseIri (dotted : Bool)
  | directiveEnd
  /-- a predicate, an object, and the mark behind an object -/
  | predicate (subject : Node) (lead : Lead)
  | object (subject : Node) (predicate : String)
  | objectEnd (subject : Node) (predicate : String)
  /-- the inside of brackets -/
  | bracket (node : Node)
  /-- an item of a list, with its first and last cell so far -/
  | items (cells : Option (Node × Node))

/-- what is known behind the first tokens of a document -/
structure Reading where
  base : Option String
  prefixes : List (String × String)
  /-- the last statement first -/
  quads : List Quad
  /-- how many blank nodes have been numbered -/
  numbered : Nat
  /-- the innermost slot first; none between statements -/
  slots : List Slot

namespace Reading

def start (base : Option String) : Reading := ⟨base, [], [], 0, []⟩

def iri? (r : Reading) : Name → Option String
  | .iri reference => resolve? r.base reference
  | .prefixed label name => do
    let text := (← r.prefixes.lookup label) ++ name
    if isIri text then some text else none

def fresh (r : Reading) : Node × Reading :=
  (.fresh r.numbered, { r with numbered := r.numbered + 1 })

def state (r : Reading) (subject : Node) (predicate : String) (object : Term) : Reading :=
  { r with quads := ⟨subject, predicate, object, none⟩ :: r.quads }

/-- puts a term where one is awaited; `lead` is what follows it as a subject -/
def place? (r : Reading) (t : Term) (lead : Lead) : Option Reading :=
  match r.slots, t with
  | [], .node n => some { r with slots := [.predicate n lead] }
  | .object s p :: outer, t => some { r.state s p t with slots := .objectEnd s p :: outer }
  | .items cells :: outer, t =>
    let (cell, r) := r.fresh
    let r := r.state cell (rdfName "first") t
    match cells with
    | none => some { r with slots := .items (some (cell, cell)) :: outer }
    | some (first, last) =>
      some { r.state last (rdfName "rest") (.node cell) with
        slots := .items (some (first, cell)) :: outer }
  | _, _ => none

/-- a slot that waits for a term -/
def awaitsTerm (r : Reading) : Bool :=
  match r.slots with
  | [] | .object .. :: _ | .items _ :: _ => true
  | _ => false

def literal? (r : Reading) (value : String) : LiteralKind → Option Literal
  | .simple => some (.simple value)
  | .language tag => some (.tagged value tag)
  | .datatype n => (r.iri? n).bind (Literal.typed? value)

/-! ## tokens -/

def name? (r : Reading) (n : Name) : Option Reading :=
  match r.slots, n with
  | .prefixLabel dotted :: _, .prefixed label "" =>
    some { r with slots := [.prefixIri dotted label] }
  | .prefixIri dotted label :: _, .iri _ => do
    let text ← r.iri? n
    some { r with prefixes := (label, text) :: r.prefixes, slots := if dotted then [.directiveEnd] else [] }
  | .baseIri dotted :: _, .iri _ => do
    let text ← r.iri? n
    some { r with base := some text, slots := if dotted then [.directiveEnd] else [] }
  | .predicate s _ :: outer, n => do
    let p ← r.iri? n
    some { r with slots := .object s p :: outer }
  | _, n => do r.place? (.node (.iri (← r.iri? n))) .subject

/-- a directive opens between statements -/
def directive? (r : Reading) (name : String) (dotted : Bool) : Option Reading :=
  if !r.slots.isEmpty then none
  else if name = "prefix" then some { r with slots := [.prefixLabel dotted] }
  else if name = "base" then some { r with slots := [.baseIri dotted] }
  else none

def word? (r : Reading) (text : String) : Option Reading :=
  match r.slots, text with
  | .predicate s _ :: outer, "a" => some { r with slots := .object s (rdfName "type") :: outer }
  | _, "true" | _, "false" => r.place? (.literal (.typed text (xsdName "boolean"))) .subject
  | _, _ => r.directive? (String.ofList (text.toList.map Char.toLower)) false

def mark? (r : Reading) (c : Char) : Option Reading :=
  match c, r.slots with
  | '.', [.directiveEnd] | '.', [.objectEnd ..] | '.', [.predicate _ .further]
  | '.', [.predicate _ .bracketed] =>
    some { r with slots := [] }
  | ';', .objectEnd s _ :: outer | ';', .predicate s .further :: outer =>
    some { r with slots := .predicate s .further :: outer }
  | ',', .objectEnd s p :: outer => some { r with slots := .object s p :: outer }
  | ']', .predicate n .bracket :: .bracket _ :: outer =>
    place? { r with slots := outer } (.node n) .subject
  | ']', .objectEnd .. :: .bracket n :: outer | ']', .predicate _ .further :: .bracket n :: outer =>
    place? { r with slots := outer } (.node n) .bracketed
  | ')', .items none :: outer => place? { r with slots := outer } (.node (.iri (rdfName "nil"))) .subject
  | ')', .items (some (first, last)) :: outer =>
    place? { r.state last (rdfName "rest") (.node (.iri (rdfName "nil"))) with slots := outer }
      (.node first) .subject
  | '[', slots =>
    if r.awaitsTerm then
      let (n, r) := r.fresh
      some { r with slots := .predicate n .bracket :: .bracket n :: slots }
    else none
  | '(', slots => if r.awaitsTerm then some { r with slots := .items none :: slots } else none
  | _, _ => none

def step? (r : Reading) : Token → Option Reading
  | .name n => r.name? n
  | .blank label => r.place? (.node (.blank label)) .subject
  | .literal value kind => do r.place? (.literal (← r.literal? value kind)) .subject
  | .atWord name => r.directive? name true
  | .datatypeMark => none
  | .number text datatype => r.place? (.literal (.typed text (xsdName datatype))) .subject
  | .word text => r.word? text
  | .mark c => r.mark? c

end Reading

/-- the statements of a text, in their order -/
def read? (base : Option String) (text : String) : Option (List Quad) := do
  let r ← (← tokens? false text).foldlM Reading.step? (.start base)
  if r.slots.isEmpty then some r.quads.reverse else none

end TypedVocabulary.Rdf.Turtle
