import TypedVocabulary.Document.Format

/-!
# Commands

A command compiles a document and writes one output of it, inspects a document, or lists the generators.
-/

namespace TypedVocabulary

/-- where a document comes from and how it is read -/
structure InputOptions where
  /-- a path, or a location that is requested -/
  location : String
  format : Option DocumentFormat
  baseIri : Option String
  /-- the path of the settings -/
  config : Option String
deriving DecidableEq, Repr

inductive Command where
  /-- write what the named generator gives, to a path if there is one -/
  | generate (input : InputOptions) (generator : String) (output : Option String)
  /-- report on a document, in words or as JSON -/
  | inspect (input : InputOptions) (json : Bool)
  | generators
deriving DecidableEq, Repr

/-- why a command line gives no command; help and the version are asked for in the same way -/
inductive UsageFault where
  | help
  | version
  /-- there are no arguments at all -/
  | nothingGiven
  | noCommand
  | unknownCommand
  | unknownArgument
  | unexpectedValue
  | invalidValue
  | conflict
  | missingArgument
deriving DecidableEq, Repr

/-- only what was asked for is a success -/
def UsageFault.exitCode : UsageFault → Nat
  | .help | .version => 0
  | _ => 2

end TypedVocabulary
