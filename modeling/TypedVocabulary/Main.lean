import TypedVocabulary.Command.Arguments
import TypedVocabulary.Command.Run

/-!
# The program

Reads what a command needs, runs it and carries out its effect.  Failures are told on the error stream.
-/

namespace TypedVocabulary

/-- how the program is called -/
def usage : String :=
  unlines ["usage: vocabc [-v | -q] COMMAND", "",
    "  generate -i INPUT [-F FORMAT] [--base-iri IRI] [-c SETTINGS] [-g GENERATOR] [-o OUTPUT]",
    "  inspect -i INPUT [-F FORMAT] [--base-iri IRI] [-c SETTINGS] [--json]",
    "  generators"]

/-- a fault of the file system under its number -/
def FileFault.ofCode (code : UInt32) (text : String) : FileFault :=
  (([(2, .notFound), (17, .exists), (20, .notDirectory), (21, .isDirectory), (36, .nameTooLong)] :
    List (UInt32 × FileFault)).lookup code).getD (.other text)

def FileFault.ofError (e : IO.Error) : FileFault :=
  match e with
  | .noFileOrDirectory _ code _ | .inappropriateType _ code _ | .alreadyExists _ code _
  | .invalidArgument _ code _ => .ofCode code (toString e)
  | e => .other (toString e)

/-- the outcome of an action, with its faults as values -/
def attempt {α : Type} (action : IO α) : IO (Except FileFault α) := do
  match ← action.toBaseIO with
  | .ok a => return .ok a
  | .error e => return .error (.ofError e)

/-- the options of a command that reads a document -/
def Command.input? : Command → Option InputOptions
  | .generate input _ _ => some input
  | .inspect input _ => some input
  | .generators => none

/-- the paths that a command reads -/
def Command.paths (c : Command) : List String :=
  (c.input?.map fun o =>
    o.config.toList ++ if isRemote o.location then [] else [o.location]).getD []

/-- what a command can read: files, and the variables that its settings name; requests are not answered -/
def surroundings (c : Command) : IO Surroundings := do
  let contents ← c.paths.mapM fun (path : String) => do
    return (path, ← attempt (IO.FS.readBinFile path))
  let settings? := (c.input?.bind (·.config)).bind fun path => contents.lookup path
  let names := match settings? with
    | some (.ok content) => placeholderNames ((String.fromUTF8? content).getD "")
    | _ => []
  let values ← names.mapM fun name => do return (name, ← IO.getEnv name)
  return {
    read := fun path => (contents.lookup path).getD (.error .notFound)
    request := fun _ => .failed "requests are not supported"
    value? := fun name => (values.lookup name).join }

def Effect.perform : Effect → IO (Except FileFault Unit)
  | .print text => attempt do
    IO.print text
    (← IO.getStdout).flush
  | .save path text => attempt do
    unless (FileTree.parent path).isEmpty do IO.FS.createDirAll (FileTree.parent path)
    IO.FS.writeBinFile path text.toUTF8

/-- runs the command of a command line; the result is the exit code -/
def runArguments (arguments : List String) : IO UInt32 := do
  match Arguments.parse arguments with
  | .error fault =>
    if fault.exitCode = 0 then IO.print usage else IO.eprint usage
    return fault.exitCode.toUInt32
  | .ok command =>
    match command.effect (← surroundings command) with
    | .error failure =>
      IO.eprintln failure.message
      return 1
    | .ok effect =>
      match ← effect.perform with
      | .ok _ => return 0
      | .error fault =>
        IO.eprintln (Failure.file fault).message
        return 1

end TypedVocabulary

def main (arguments : List String) : IO UInt32 := TypedVocabulary.runArguments arguments
