import TypedVocabulary.Document.Format
import TypedVocabulary.Http.Status

/-!
# Failures

A run fails for a cause.  Irregularities of a vocabulary are never among the causes: undeclared parents,
properties without domains and cycles are taken in and reported.  `message` is the wording of each
failure.
-/

namespace TypedVocabulary

/-- what is wrong with a configuration -/
inductive ConfigFault where
  | notYaml
  | notAbsolute (field value : String)
  | notIdentifier (base : String)
  | reservedBase (base : String)
  | unusableBase (base : String)
  | unknownGenerator (name : String) (known : List String)
  | generatorExists (name : String)
  | badBaseIri
  | other (text : String)
deriving DecidableEq, Repr

def ConfigFault.message : ConfigFault → String
  | .notYaml => "Failed to parse YAML config"
  | .notAbsolute field value => field ++ " must be an absolute IRI, got '" ++ value ++ "'"
  | .notIdentifier base =>
    "generator.base_type_name must be a valid identifier, got '" ++ base ++ "'"
  | .reservedBase base => "generator.base_type_name '" ++ base ++ "' is a reserved TypeScript name"
  | .unusableBase base =>
    "Base type name '" ++ base ++ "' is not a usable TypeScript declaration name"
  | .unknownGenerator name known =>
    "Unknown generator '" ++ name ++ "', expected one of: " ++ ", ".intercalate known
  | .generatorExists name => "Generator '" ++ name ++ "' is already registered"
  | .badBaseIri => "Invalid base IRI"
  | .other text => text

/-- why a generator gives no output -/
inductive GenerationFault where
  | config (fault : ConfigFault)
  /-- a class whose name has no identifier -/
  | noIdentifier (className : String)
  | formatting
  | serialization (text : String)
  | other (text : String)
deriving DecidableEq, Repr

def GenerationFault.message : GenerationFault → String
  | .config fault => "Configuration error: " ++ fault.message
  | .noIdentifier className =>
    "Code generation failed: no identifier assigned to class '" ++ className ++ "'"
  | .formatting => "Formatting failed: an error occurred when formatting an argument"
  | .serialization text => "Serialization failed: " ++ text
  | .other text => "Code generation failed: " ++ text

/-- why a document is no document of its format -/
inductive DocumentFault where
  | malformed (format : DocumentFormat)
  | other (text : String)
deriving DecidableEq, Repr

def DocumentFault.message : DocumentFault → String
  | .malformed format => "Failed to parse " ++ format.label ++ " document"
  | .other text => text

/-- why a request gives no document -/
inductive FetchFault where
  | status (code : Nat)
  | other (reason : String)
deriving DecidableEq, Repr

def FetchFault.message : FetchFault → String
  | .status code => "HTTP " ++ Status.text code
  | .other reason => reason

/-- why a file cannot be read or written -/
inductive FileFault where
  | notFound
  | isDirectory
  | notDirectory
  | exists
  | nameTooLong
  | nulInName
  | notUtf8
  | other (text : String)
deriving DecidableEq, Repr

def FileFault.message : FileFault → String
  | .notFound => "No such file or directory (os error 2)"
  | .isDirectory => "Is a directory (os error 21)"
  | .notDirectory => "Not a directory (os error 20)"
  | .exists => "File exists (os error 17)"
  | .nameTooLong => "File name too long (os error 36)"
  | .nulInName => "file name contained an unexpected NUL byte"
  | .notUtf8 => "stream did not contain valid UTF-8"
  | .other text => text

/-- how a run can fail -/
inductive Failure where
  | document (fault : DocumentFault) (location : Option String)
  | fetch (url : String) (fault : FetchFault)
  | config (fault : ConfigFault)
  | generation (text : String)
  | file (fault : FileFault)
  | serialization (text : String)
  /-- a message of its own, with the text of an underlying error -/
  | other (text : String) (source : Option String)
deriving DecidableEq, Repr

namespace Failure

def message : Failure → String
  | .document fault none => "Failed to parse vocabulary document: " ++ fault.message
  | .document fault (some location) =>
    "Failed to parse vocabulary document '" ++ location ++ "': " ++ fault.message
  | .fetch url fault => "Failed to fetch '" ++ url ++ "': " ++ fault.message
  | .config fault => "Configuration error: " ++ fault.message
  | .generation text => "Generation failed: " ++ text
  | .file fault => "IO error: " ++ fault.message
  | .serialization text => "Serialization error: " ++ text
  | .other text _ => text

/-- the text of the underlying error -/
def source? : Failure → Option String
  | .file fault => some fault.message
  | .other _ source => source
  | _ => none

/-- a fault of a generator as a failure of the run; configuration faults stay what they are -/
def ofGeneration : GenerationFault → Failure
  | .config fault => .config fault
  | fault => .generation fault.message

end Failure

end TypedVocabulary
