import TypedVocabulary.Output.Declarations
import TypedVocabulary.Output.Manifest

/-!
# Generators

A generator turns a compiled vocabulary into one text.  A registry keeps generators under their names: a
name is never given away twice, and asking for a name that is not there tells the names that are.
-/

namespace TypedVocabulary

structure Generator where
  name : String
  description : String
  /-- the extension of the files that it writes -/
  extension : String
  fileName : String
  generate : Vocabulary → Except GenerationFault String

namespace Generator

def typescript : Generator where
  name := "typescript"
  description := "Generate TypeScript interfaces and lookup tables from a JSON-LD vocabulary"
  extension := "ts"
  fileName := "vocabulary.ts"
  generate v := v.declarations.map Declarations.text

def manifest : Generator where
  name := "manifest"
  description := "Generate a JSON manifest of classes, properties and identifiers"
  extension := "json"
  fileName := "vocabulary.json"
  generate v := .ok v.manifest.text

/-- a text with blanks behind it up to a width -/
def column (width : Nat) (s : String) : String :=
  s ++ String.ofList (List.replicate (width - s.length) ' ')

/-- the line that presents a generator -/
def listing (g : Generator) : String :=
  column 12 g.name ++ " ." ++ column 6 g.extension ++ " " ++ g.description

end Generator

/-- generators by name -/
structure Registry where
  generators : NameMap Generator

namespace Registry

def empty : Registry := ⟨∅⟩

/-- the registry of the generators above -/
def standard : Registry :=
  ⟨(NameMap.empty.insert Generator.typescript.name Generator.typescript).insert
    Generator.manifest.name Generator.manifest⟩

def names (r : Registry) : List String := r.generators.keys

def get? (r : Registry) (name : String) : Option Generator := r.generators.get? name

def register (r : Registry) (g : Generator) : Except GenerationFault Registry :=
  if r.generators.contains g.name then .error (.config (.generatorExists g.name))
  else .ok ⟨r.generators.insert g.name g⟩

def require (r : Registry) (name : String) : Except GenerationFault Generator :=
  match r.get? name with
  | some g => .ok g
  | none => .error (.config (.unknownGenerator name r.names))

/-- all generators in name order -/
def toList (r : Registry) : List Generator := r.generators.values

end Registry

end TypedVocabulary
