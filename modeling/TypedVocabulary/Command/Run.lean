import TypedVocabulary.Command.Basic
import TypedVocabulary.Command.FileTree
import TypedVocabulary.Document.Reading
import TypedVocabulary.Output.Generator
import TypedVocabulary.Report
import TypedVocabulary.Settings.Written

/-!
# Running commands

A command is run in surroundings that it only reads: files, replies to requests and variables.  What
comes of it is a failure or one effect, a text that is printed or saved.  That can still fail: saving
leaves the directories that it has made, and printing what a console has shown of the text.
-/

namespace TypedVocabulary

/-- what a request brings -/
inductive Reply where
  | failed (reason : String)
  /-- a status, and the body or why it could not be read -/
  | response (code : Nat) (body : Except String ByteArray)

structure Surroundings where
  read : String → Except FileFault ByteArray
  request : String → Reply
  value? : String → Option String

/-- what comes of a command -/
inductive Effect where
  | print (text : String)
  | save (path text : String)
deriving DecidableEq

/-- where texts are printed -/
structure Console where
  /-- what is shown of a text that cannot be printed as a whole, and why the rest is not -/
  fault? : String → Option (String × FileFault)

namespace Surroundings

/-- the body of a successful reply -/
def fetch (s : Surroundings) (url : String) : Except Failure ByteArray :=
  match s.request url with
  | .failed reason => .error (.fetch url (.other reason))
  | .response code body =>
    if Status.isSuccess code then
      match body with
      | .ok content => .ok content
      | .error reason => .error (.fetch url (.other reason))
    else .error (.fetch url (.status code))

/-- the content at a path or remote location -/
def content (s : Surroundings) (location : String) : Except Failure ByteArray :=
  if isRemote location then s.fetch location else (s.read location).mapError .file

/-- settings whose base name can be declared -/
def checkBase (settings : Settings) : Except Failure Settings :=
  if isDeclarationName settings.output.baseName then .ok settings
  else .error (.config (.reservedBase settings.output.baseName))

/-- the settings at a path, or the default ones -/
def settings (s : Surroundings) : Option String → Except Failure Settings
  | none => checkBase .schemaOrg
  | some path =>
    match s.read path with
    | .error fault => .error (.file fault)
    | .ok content =>
      match String.fromUTF8? content with
      | none => .error (.file .notUtf8)
      | some text =>
        match Settings.ofText s.value? text with
        | .error fault => .error (.config fault)
        | .ok settings => checkBase settings

/-- a failure of a document that names its location -/
def locatedFailure (location : String) : Failure → Failure
  | .document fault _ => .document fault (some location)
  | failure => failure

/-- the dataset of a document; a remote one is its own base -/
def dataset (s : Surroundings) (o : InputOptions) : Except Failure Rdf.Dataset := do
  let format := o.format.getD (DocumentFormat.infer o.location)
  let content ← s.content o.location
  let base := o.baseIri.or (if isRemote o.location then some o.location else none)
  (format.read base (String.fromUTF8? content)).mapError (locatedFailure o.location)

/-- the vocabulary of a document, compiled -/
def vocabulary (s : Surroundings) (o : InputOptions) : Except Failure Vocabulary := do
  let settings ← s.settings o.config
  let dataset ← s.dataset o
  return .ofSource settings dataset.source

end Surroundings

/-- the text or the object that reports on a vocabulary -/
def Report.shown (json : Bool) (r : Report) : String :=
  if json then r.toJson.render ++ "\n" else r.text

namespace Command

/-- what comes of a command -/
def effect (s : Surroundings) : Command → Except Failure Effect
  | .generate input name output => do
    let generator ← (Registry.standard.require name).mapError Failure.ofGeneration
    let v ← s.vocabulary input
    let text ← (generator.generate v).mapError Failure.ofGeneration
    return match output with
      | some path => .save path text
      | none => .print text
  | .inspect input json => do return .print ((← s.vocabulary input).report.shown json)
  | .generators => .ok (.print (unlines (Registry.standard.toList.map Generator.listing)))

/-- what is left when a command has ended: the text that was printed, the files, and why it failed -/
structure Outcome where
  printed : String
  files : FileTree
  failure : Option Failure

/-- runs a command on a console and files -/
def runOn (console : Console) (files : FileTree) (request : String → Reply)
    (value? : String → Option String) (c : Command) : Outcome :=
  match c.effect ⟨files.read, request, value?⟩ with
  | .error failure => ⟨"", files, some failure⟩
  | .ok (.print text) =>
    match console.fault? text with
    | none => ⟨text, files, none⟩
    | some (shown, fault) => ⟨shown, files, some (.file fault)⟩
  | .ok (.save path text) =>
    let (after, fault) := files.save path text.toUTF8
    ⟨"", after, fault.map .file⟩

/-- runs a command on files, and on a console that shows every text -/
def run (files : FileTree) (request : String → Reply) (value? : String → Option String)
    (c : Command) : Outcome := c.runOn ⟨fun _ => none⟩ files request value?

end Command

end TypedVocabulary
