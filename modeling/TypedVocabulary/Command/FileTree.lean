import TypedVocabulary.Names.NameMap
import TypedVocabulary.Failure

/-!
# File trees

A file tree holds files and directories, under their paths from its root.  A path is walked step by step,
from the root if it begins with a slash and from the working directory if it does not: each step but the
last has to lead to a directory, and `..` leads back, from the root to the root.  The directories on the
way to the working directory are always there.

Nothing is undone: directories that were made before a fault stay.
-/

namespace TypedVocabulary

inductive FileEntry where
  | directory
  | file (content : ByteArray)

structure FileTree where
  /-- what stands under each path -/
  entries : NameMap FileEntry
  /-- the steps from the root to the directory that paths without a slash in front begin in -/
  workingDirectory : List String

namespace FileTree

/-- a tree without files -/
def empty : FileTree := ⟨∅, ["tmp", "vocabc"]⟩

/-! ## paths -/

/-- the path of steps -/
def join (steps : List String) : String := "/".intercalate steps

/-- the steps of a path; those that stay where they are do not count -/
def steps (path : String) : List String :=
  ((path.toList.splitOn '/').map String.ofList).filter fun s => s ≠ "" && s ≠ "."

/-- a part of a path that stays where it is -/
def stays (part : List Char) : Bool := part = [] || part = ['.']

/-- a path that only leads to a directory -/
def wantsDirectory (path : String) : Bool := (path.toList.splitOn '/').getLast?.any stays

/-- the path in front of the last step -/
def parent (path : String) : String :=
  let behind := (path.toList.splitOn '/').reverse.dropWhile stays
  String.ofList (['/'].intercalate ((behind.drop 1).dropWhile stays).reverse)

/-- the longest name of a file and the longest path, in bytes -/
def maxName : Nat := 255

def maxPath : Nat := 4095

/-- where a path begins -/
def start (t : FileTree) (path : String) : List String :=
  if path.toList.head? = some '/' then [] else t.workingDirectory

/-- what stands at the end of steps from the root -/
def entry? (t : FileTree) (steps : List String) : Option FileEntry :=
  if steps.isPrefixOf t.workingDirectory then some .directory else t.entries.get? (join steps)

/-- where steps lead; there may be nothing at the last one -/
def walk (t : FileTree) (here : List String) : List String → Except FileFault (List String)
  | [] => .ok here
  | s :: rest =>
    match t.entry? here with
    | some .directory =>
      if s = ".." then walk t here.dropLast rest
      else if maxName < s.utf8ByteSize then .error .nameTooLong
      else walk t (here ++ [s]) rest
    | some (.file _) => .error .notDirectory
    | none => .error .notFound

/-- why a path leads nowhere, whatever the files are -/
def pathFault? (path : String) : Option FileFault :=
  if path.toList.contains '\x00' then some .nulInName
  else if path.isEmpty then some .notFound
  else if maxPath < path.utf8ByteSize then some .nameTooLong
  else none

/-- where a path leads -/
def locate (t : FileTree) (path : String) : Except FileFault (List String) :=
  match pathFault? path with
  | some fault => .error fault
  | none => t.walk (t.start path) (steps path)

/-! ## operations -/

/-- the content of the file at a path -/
def read (t : FileTree) (path : String) : Except FileFault ByteArray :=
  match t.locate path with
  | .error fault => .error fault
  | .ok there =>
    match t.entry? there with
    | none => .error .notFound
    | some .directory => .error .isDirectory
    | some (.file content) => if wantsDirectory path then .error .notDirectory else .ok content

/-- puts something at the end of steps -/
def put (t : FileTree) (steps : List String) (e : FileEntry) : FileTree :=
  { t with entries := t.entries.insert (join steps) e }

/-- makes the directories along steps that are not there, and tells what stopped it -/
def makeDirectories (t : FileTree) (here : List String) : List String → FileTree × Option FileFault
  | [] => (t, none)
  | s :: rest =>
    if s = ".." then makeDirectories t here.dropLast rest
    else
      match t.entry? (here ++ [s]) with
      | some .directory => makeDirectories t (here ++ [s]) rest
      | some (.file _) => (t, some (if rest.isEmpty then .exists else .notDirectory))
      | none =>
        if maxName < s.utf8ByteSize then (t, some .nameTooLong)
        else makeDirectories (t.put (here ++ [s]) .directory) (here ++ [s]) rest

/-- makes the directories in front of a path -/
def makeParent (t : FileTree) (path : String) : FileTree × Option FileFault :=
  if (parent path).isEmpty then (t, none)
  else
    match pathFault? (parent path) with
    | some fault => (t, some fault)
    | none => t.makeDirectories (t.start (parent path)) (steps (parent path))

/-- puts a content into the file at a path, a new one if there is none -/
def write (t : FileTree) (path : String) (content : ByteArray) : Except FileFault FileTree :=
  match t.locate path with
  | .error fault => .error fault
  | .ok there =>
    match t.entry? there with
    | some .directory => .error .isDirectory
    | some (.file _) =>
      if wantsDirectory path then .error .notDirectory
      else .ok (t.put there (.file content))
    | none =>
      if wantsDirectory path then
        .error (if path.toList.getLast? = some '/' then .isDirectory else .notFound)
      else .ok (t.put there (.file content))

/-- puts a content into the file at a path, behind the directories that it needs -/
def save (t : FileTree) (path : String) (content : ByteArray) : FileTree × Option FileFault :=
  match t.makeParent path with
  | (made, some fault) => (made, some fault)
  | (made, none) =>
    match made.write path content with
    | .ok after => (after, none)
    | .error fault => (made, some fault)

/-- a tree of given files, each at its path -/
def ofFiles (files : List (String × ByteArray)) : FileTree :=
  files.foldl (fun t f =>
    match t.save f.1 f.2 with
    | (after, none) => after
    | (_, some _) => t) empty

/-- the files below the working directory, with their paths from there -/
def files (t : FileTree) : List (String × ByteArray) :=
  t.entries.entries.filterMap fun e =>
    match e.2 with
    | .file content =>
      (t.workingDirectory.isPrefixOf? (steps e.1)).map fun below => (join below, content)
    | .directory => none

end FileTree

end TypedVocabulary
