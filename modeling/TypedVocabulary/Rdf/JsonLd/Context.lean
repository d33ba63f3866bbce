import TypedVocabulary.Json.Basic
import TypedVocabulary.Rdf.Iri

/-!
# Contexts of JSON-LD

A context gives meaning to the short names of a document: terms stand for IRIs, and a term whose IRI ends in a
mark that separates parts is also a prefix.  Terms of one context may be defined by each other.
-/

namespace TypedVocabulary.Rdf.JsonLd

/-- the words with a meaning of their own -/
def keywords : List String :=
  ["@base", "@container", "@context", "@direction", "@graph", "@id", "@import", "@included", "@index",
    "@json", "@language", "@list", "@nest", "@none", "@prefix", "@propagate", "@protected", "@reverse",
    "@set", "@type", "@value", "@version", "@vocab"]

/-- what a term stands for -/
structure Meaning where
  iri : String
  isPrefix : Bool
  /-- the datatype of its values, or that they are IRIs -/
  coercion : Option String
  /-- the language of its values; it may be given as none -/
  language : Option (Option String)
  /-- its values form one list -/
  isList : Bool

/-- a meaning names a keyword, a blank node or an IRI, and its values have a kind or a datatype -/
def Meaning.isValid (m : Meaning) : Bool :=
  (keywords.contains m.iri && m.iri ≠ "@context" || m.iri.startsWith "_:" || isIri m.iri) &&
    m.coercion.all fun t => ["@id", "@vocab", "@json", "@none"].contains t || isIri t

structure Context where
  /-- the last definition first -/
  terms : List (String × Option Meaning)
  /-- in front of names that are not defined -/
  vocabulary : Option String
  base : Option String
  language : Option String

namespace Context

def start (base : Option String) : Context := ⟨[], none, base, none⟩

/-- the text in front of the first colon, and the text behind it -/
def cutColon? (s : String) : Option (String × String) :=
  match s.toList.dropWhile (· ≠ ':') with
  | _ :: rest => some (.ofList (s.toList.takeWhile (· ≠ ':')), .ofList rest)
  | [] => none

/-- an at sign and letters -/
def looksLikeKeyword (s : String) : Bool :=
  match s.toList with
  | '@' :: letters => !letters.isEmpty && letters.all Char.isAlpha
  | _ => false

def meaning? (c : Context) (term : String) : Option Meaning := (c.terms.lookup term).join

/-- a text as a prefix and what stands behind its colon; a blank node or a text with an authority has none -/
def cutPrefix? (s : String) : Option (String × String) :=
  (cutColon? s).filter fun (front, rest) => front ≠ "_" && !rest.startsWith "//"

/-- a text behind a prefix, or as it is if it is an IRI or the label of a blank node -/
def compact? (c : Context) (s : String) : Option String :=
  match cutColon? s, cutPrefix? s with
  | none, _ => none
  | some _, none => some s
  | some _, some (front, rest) =>
    match (c.meaning? front).filter (·.isPrefix) with
    | some m => some (m.iri ++ rest)
    | none => if isIri s then some s else none

/-- a text that is not defined: behind a prefix, or behind the vocabulary, or resolved -/
def undefined (c : Context) (inVocabulary isRelative : Bool) (s : String) : String :=
  match c.compact? s with
  | some iri => iri
  | none =>
    match if inVocabulary then c.vocabulary else none with
    | some v => v ++ s
    | none => if isRelative then (resolve? c.base s).getD s else s

/-- what a text stands for; a text that only looks like a keyword and a term without a meaning stand for
nothing -/
def expanded? (c : Context) (inVocabulary isRelative : Bool) (s : String) : Option String :=
  if keywords.contains s then some s
  else if looksLikeKeyword s then none
  else
    match c.terms.lookup s with
    | some (some m) =>
      if inVocabulary || keywords.contains m.iri then some m.iri
      else some (c.undefined inVocabulary isRelative s)
    | some none => if inVocabulary then none else some (c.undefined inVocabulary isRelative s)
    | none => some (c.undefined inVocabulary isRelative s)

/-- the name of a property -/
def property? (c : Context) (name : String) : Option String := c.expanded? true false name

/-- the name of a node; what is no IRI is resolved -/
def reference? (c : Context) (s : String) : Option String := c.expanded? false true s

/-- the name of a type -/
def type? (c : Context) (s : String) : Option String := c.expanded? true true s

/-! ## definitions -/

/-- a prefix ends in one of these -/
def isSeparator (c : Char) : Bool := ":/?#[]@".toList.contains c

/-- a text, or nothing -/
def textOrNull? : Json → Option (Option String)
  | .string s => some (some s)
  | .null => some none
  | _ => none

/-- a simple definition of a term makes it a prefix if its IRI ends like one -/
def endsLikePrefix (term iri : String) : Bool :=
  !term.toList.contains ':' && !term.toList.contains '/' &&
    (iri.startsWith "_:" || iri.toList.getLast?.any isSeparator)

/-- a term that is written like an IRI stands for what it says -/
def agrees (c : Context) (term iri : String) : Bool :=
  let inner := (term.toList.drop 1).dropLast
  !(inner.contains ':' || term.toList.contains '/') || c.undefined true false term = iri

/-- the name that a definition gives to a term -/
def defined? (c : Context) (term s : String) : Option (Option String) :=
  if s = term then some (some (c.undefined true false term))
  else
    match c.property? s with
    | some iri => if c.agrees term iri then some (some iri) else none
    | none => some none

/-- what may stand in the definition of a term -/
def definitionKeywords : List String :=
  ["@container", "@context", "@direction", "@id", "@index", "@language", "@nest", "@prefix", "@protected",
    "@type"]

/-- the meaning that a definition gives to a term; without a name of its own the term is its own name -/
def define? (c : Context) (term : String) : Json → Option (Option Meaning)
  | .null => some none
  | .string s => do
    let iri? ← c.defined? term s
    return iri?.map fun iri => ⟨iri, endsLikePrefix term iri, none, none, false⟩
  | .object ms => do
    if !ms.all (definitionKeywords.contains ·.1) then none
    let iri? ← match ms.lookup "@id" with
      | none => c.defined? term term
      | some .null => some none
      | some (.string s) => c.defined? term s
      | some _ => none
    let coercion ← match ms.lookup "@type" with
      | none => some none
      | some (.string s) => some (c.property? s)
      | some _ => none
    let language ← match ms.lookup "@language" with
      | none => some none
      | some j => (textOrNull? j).map some
    let isPrefix := match ms.lookup "@prefix" with
      | some (.bool true) => true
      | _ => false
    let isList := match ms.lookup "@container" with
      | some (.string "@list") | some (.array [.string "@list"]) => true
      | _ => false
    return iri?.map fun iri => ⟨iri, isPrefix, coercion, language, isList⟩
  | _ => none

/-- the texts of a definition that other definitions may explain -/
def definingTexts : Json → List String
  | .string s => [s]
  | .object ms => ["@id", "@type"].filterMap fun key =>
    match ms.lookup key with
    | some (.string s) => some s
    | _ => none
  | _ => []

/-- some names that have to be defined before a term -/
def needs (names : List String) (term : String) (j : Json) : List String :=
  let texts := (definingTexts j).filter (· ≠ term)
  (texts ++ (term :: texts).filterMap fun s => (cutPrefix? s).map (·.1)).filter names.contains

/-- defines the terms that need none of those that are left -/
def defineReady? (c : Context) (left : List (String × Json)) : Option (Context × List (String × Json)) := do
  let isReady (m : String × Json) : Bool := (needs (left.map (·.1)) m.1 m.2).isEmpty
  let terms ← (left.filter isReady).mapM fun m => (c.define? m.1 m.2).map (m.1, ·)
  if terms.all fun t => !t.1.isEmpty && t.2.all Meaning.isValid then
    return ({ c with terms := terms ++ c.terms }, left.filter (!isReady ·))
  else none

/-- the keywords that a context may set -/
def settings? (c : Context) : List (String × Json) → Option Context
  | [] => some c
  | (key, j) :: ms => do
    let c ← settings? c ms
    match key with
    | "@vocab" =>
      let vocabulary := (← textOrNull? j).bind c.type?
      if vocabulary.all fun v => v.startsWith "_:" || isIri v then some { c with vocabulary } else none
    | "@base" =>
      match ← textOrNull? j with
      | none => some { c with base := none }
      | some s => (resolve? c.base s).map fun base => { c with base := some base }
    | "@language" => (textOrNull? j).map fun s => { c with language := s }
    | "@version" | "@propagate" | "@protected" => some c
    | _ => if keywords.contains key then none else some c

/-- a context extended by the members of an object; as many rounds as there are terms define them all,
unless some of them need each other in a circle -/
def extend? (c : Context) (ms : List (String × Json)) : Option Context := do
  let c ← c.settings? ms
  let definitions := ms.filter fun m => !keywords.contains m.1 && !looksLikeKeyword m.1
  let names := definitions.map (·.1)
  let outer := { c with terms := c.terms.filter fun t => !names.contains t.1 }
  let (d, left) ← definitions.foldlM (fun s _ => s.1.defineReady? s.2) (outer, definitions)
  if left.isEmpty then some d else none

/-- a context extended by one of a document: an object, a list of contexts, or nothing, which begins anew -/
def ofJson? (base : Option String) (c : Context) : Json → Option Context
  | .null => some (start base)
  | .object ms => c.extend? ms
  | .array js =>
    js.foldlM (fun c j =>
      match j with
      | .null => some (start base)
      | .object ms => c.extend? ms
      | _ => none) c
  | _ => none

end Context

end TypedVocabulary.Rdf.JsonLd
