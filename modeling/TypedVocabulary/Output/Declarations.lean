import TypedVocabulary.Vocabulary
import TypedVocabulary.Text.CommentBlock
import TypedVocabulary.Text.Quoted

/-!
# TypeScript declarations

The declarations of a vocabulary are a base interface with the keys of every node, one interface for
each class, and three tables: the union of the class names, the interface of each class name and the
identifier of each class name.  They are built as a value first, `Vocabulary.declarations`, and
`Declarations.lines` is its text.

Building fails where the base type name cannot be declared, and where a class has a name without an
identifier.
-/

namespace TypedVocabulary

/-- a property of an interface -/
structure Field where
  comment : Option String
  /-- the name of the property -/
  key : String
  type : FieldType
deriving DecidableEq

/-- the interface of a class -/
structure Interface where
  comment : Option String
  /-- the identifier that it is declared under -/
  name : String
  /-- the interfaces that it extends, the base first -/
  supertypes : List String
  /-- the name of the class, which its nodes carry as their type -/
  className : String
  fields : List Field
deriving DecidableEq

/-- everything that is declared for a vocabulary -/
structure Declarations where
  namespaceIri : String
  header : Option String
  baseName : String
  interfaces : List Interface
  classNames : List String
  /-- class names and identifiers in name order -/
  identifiers : List (String × String)
deriving DecidableEq

/-! ## building the declarations -/

namespace Vocabulary

/-- a comment, if comments are wanted -/
def comment? (v : Vocabulary) (comment : Option String) : Option String :=
  if v.settings.output.includeDocs then comment else none

def field (v : Vocabulary) (p : PropertyDecl) : Field where
  comment := v.comment? p.comment
  key := p.name
  type := v.fieldType p

/-- a field for every property of a class or of its ancestors that is declared, in name order -/
def fields (v : Vocabulary) (name : String) : List Field :=
  ((v.graph.effectiveProperties name).toList.filterMap v.graph.property?).map v.field

def identifier (v : Vocabulary) (name : String) : Except GenerationFault String :=
  match v.identifier? name with
  | some identifier => .ok identifier
  | none => .error (.noIdentifier name)

def interfaceOf (v : Vocabulary) (c : ClassDecl) : Except GenerationFault Interface := do
  let name ← v.identifier c.name
  let parents ← (v.extendable c.name).toList.mapM v.identifier
  return {
    comment := v.comment? c.comment
    name
    supertypes := v.settings.output.baseName :: parents
    className := c.name
    fields := v.fields c.name }

def declarations (v : Vocabulary) : Except GenerationFault Declarations := do
  if !isDeclarationName v.settings.output.baseName then
    throw (.config (.unusableBase v.settings.output.baseName))
  let interfaces ← v.orderedClasses.mapM v.interfaceOf
  return {
    namespaceIri := v.settings.dialect.namespaceIri
    header := v.settings.output.header
    baseName := v.settings.output.baseName
    interfaces
    classNames := v.graph.classes.keys
    identifiers := v.identifiers.toList }

end Vocabulary

/-! ## the text of the declarations -/

/-- the lines of a comment block, if there is a comment -/
def blockLines (comment : Option String) (indent : String) : List String :=
  match comment with
  | some text => commentLines text indent
  | none => []

def Field.lines (f : Field) : List String :=
  blockLines f.comment "  " ++ ["  " ++ quote f.key ++ "?: " ++ f.type.text ++ ";"]

namespace Interface

def headLine (i : Interface) : String :=
  "export interface " ++ i.name ++ " extends " ++ ", ".intercalate i.supertypes ++ " \x7b"

/-- the type of a class's nodes: its name, or that of a class below it -/
def typeLine (i : Interface) : String := "  \"@type\"?: " ++ quote i.className ++ " | string;"

def lines (i : Interface) : List String :=
  blockLines i.comment "" ++ [i.headLine, i.typeLine] ++ i.fields.flatMap Field.lines ++ ["\x7d", ""]

end Interface

namespace Declarations

/-- the notice at the head of the output -/
def bannerLines (d : Declarations) : List String :=
  ["/**", " * Generated by vocabc from the " ++ withoutTerminators d.namespaceIri ++ " vocabulary.",
    " * Do not edit by hand."] ++
  (match d.header with
    | some header => (commentText header commentWidth).map (" * " ++ ·)
    | none => []) ++
  [" */", ""]

/-- the keys that every node may have -/
def baseLines (d : Declarations) : List String :=
  ["export interface " ++ d.baseName ++ " \x7b",
    "  \"@context\"?: string | Record<string, unknown> | " ++
      "Array<string | Record<string, unknown>>;",
    "  \"@type\"?: string;", "  \"@id\"?: string;", "\x7d", ""]

/-- the members of the union, the last with the semicolon that ends it -/
def unionMembers : List String → List String
  | [] => []
  | [name] => ["  | " ++ quote name ++ ";"]
  | name :: names => ("  | " ++ quote name) :: unionMembers names

def unionLines (d : Declarations) : List String :=
  (match d.classNames with
    | [] => ["export type " ++ classNameUnion ++ " = never;"]
    | names => ("export type " ++ classNameUnion ++ " =") :: unionMembers names) ++ [""]

def typeMapLines (d : Declarations) : List String :=
  ["export interface " ++ classTypeMap ++ " \x7b"] ++
  d.identifiers.map (fun e => "  " ++ quote e.1 ++ ": " ++ e.2 ++ ";") ++ ["\x7d", ""]

def tableHead : String :=
  "export const " ++ classIdentifierTable ++ ": Readonly<Record<" ++ classNameUnion ++
    ", string>> ="

def tableLines (d : Declarations) : List String :=
  match d.identifiers with
  | [] => [tableHead ++ " \x7b\x7d;"]
  | es =>
    [tableHead ++ " \x7b"] ++ es.map (fun e => "  " ++ quote e.1 ++ ": " ++ quote e.2 ++ ",") ++
      ["\x7d;"]

def lines (d : Declarations) : List String :=
  d.bannerLines ++ d.baseLines ++ d.interfaces.flatMap Interface.lines ++ d.unionLines ++
    d.typeMapLines ++ d.tableLines

def text (d : Declarations) : String := unlines d.lines

end Declarations

end TypedVocabulary
