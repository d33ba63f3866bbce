/-!
# Document formats

A vocabulary document is written in one of four formats.  The format of a document that does not name
one is read off the extension of its location: the part behind the last dot of the last path component,
in front of any query or fragment.
-/

namespace TypedVocabulary

inductive DocumentFormat where
  | jsonLd
  | turtle
  | nTriples
  | rdfXml
deriving DecidableEq, Repr

namespace DocumentFormat

/-- the name of a format in messages -/
def label : DocumentFormat → String
  | .jsonLd => "JsonLd"
  | .turtle => "Turtle"
  | .nTriples => "NTriples"
  | .rdfXml => "RdfXml"

/-- the name of a format as an option value -/
def optionName : DocumentFormat → String
  | .jsonLd => "json-ld"
  | .turtle => "turtle"
  | .nTriples => "n-triples"
  | .rdfXml => "rdf-xml"

def all : List DocumentFormat := [.jsonLd, .turtle, .nTriples, .rdfXml]

def ofOptionName? (s : String) : Option DocumentFormat := all.find? fun f => f.optionName == s

/-- the extensions, in lower case, of the files of a format -/
def extensions : DocumentFormat → List String
  | .jsonLd => ["jsonld", "json"]
  | .turtle => ["ttl"]
  | .nTriples => ["nt"]
  | .rdfXml => ["rdf", "owl", "xml"]

/-- the format whose files have the extension; ASCII letters count in either case -/
def ofExtension? (extension : String) : Option DocumentFormat :=
  all.find? fun f =>
    f.extensions.contains (String.ofList (extension.toList.map Char.toLower))

/-! ## the extension of a location -/

/-- the components of a path; empty ones and inner `.` do not count -/
def components (path : List Char) : List (List Char) :=
  (path.splitOn '/').filter fun c => !c.isEmpty && c != ['.']

/-- what stands behind the last dot of a file name, if something stands before it -/
def extensionOf? (name : List Char) : Option (List Char) :=
  if name = ['.', '.'] then none
  else
    let extension := (name.reverse.takeWhile (· ≠ '.')).reverse
    match name.reverse.dropWhile (· ≠ '.') with
    | '.' :: _ :: _ => some extension
    | _ => none

/-- the extension of the file that a path leads to -/
def pathExtension? (path : List Char) : Option String :=
  (components path).getLast?.bind fun name => (extensionOf? name).map String.ofList

/-- a location without its query and fragment -/
def withoutQuery (location : List Char) : List Char :=
  location.takeWhile fun c => c ≠ '?' && c ≠ '#'

/-- the format that a location suggests -/
def infer (location : String) : DocumentFormat :=
  ((pathExtension? (withoutQuery location.toList)).bind ofExtension?).getD .jsonLd

end DocumentFormat

/-- a location that is requested and not read from a file -/
def isRemote (location : String) : Bool :=
  "http://".toList.isPrefixOf location.toList || "https://".toList.isPrefixOf location.toList

end TypedVocabulary
