import TypedVocabulary.Command.Basic

/-!
# Command lines

Arguments are read from left to right.  Switches stand in front of the command's name and behind it; an
option takes its value from the same argument or from the next one, and its value is checked when the
next switch comes.  A switch that is given twice conflicts with itself.
-/

namespace TypedVocabulary.Arguments

/-! ## switches -/

inductive Key where
  | verbose
  | quiet
  | help
  | version
  | input
  | format
  | baseIri
  | config
  | generator
  | output
  | json
deriving DecidableEq

namespace Key

def long : Key → String
  | .verbose => "verbose"
  | .quiet => "quiet"
  | .help => "help"
  | .version => "version"
  | .input => "input"
  | .format => "format"
  | .baseIri => "base-iri"
  | .config => "config"
  | .generator => "generator"
  | .output => "output"
  | .json => "json"

def short? : Key → Option Char
  | .verbose => some 'v'
  | .quiet => some 'q'
  | .help => some 'h'
  | .version => some 'V'
  | .input => some 'i'
  | .format => some 'F'
  | .config => some 'c'
  | .generator => some 'g'
  | .output => some 'o'
  | .baseIri | .json => none

def takesValue : Key → Bool
  | .input | .format | .baseIri | .config | .generator | .output => true
  | _ => false

/-- paths are not empty, and a format is one of four -/
def accepts : Key → String → Bool
  | .format, value => (DocumentFormat.ofOptionName? value).isSome
  | .config, value | .output, value => !value.isEmpty
  | _, _ => true

end Key

/-! ## places -/

/-- in front of a command's name, or behind it -/
inductive Place where
  | front
  | generate
  | inspect
  | generators
deriving DecidableEq

namespace Place

/-- the switches that are known at a place -/
def keys : Place → List Key
  | .front => [.verbose, .quiet, .help, .version]
  | .generate =>
    [.verbose, .quiet, .help, .input, .format, .baseIri, .config, .generator, .output]
  | .inspect => [.verbose, .quiet, .help, .input, .format, .baseIri, .config, .json]
  | .generators => [.verbose, .quiet, .help]

/-- the place behind a command's name -/
def ofName? (name : String) : Option Place :=
  [("generate", generate), ("inspect", inspect), ("generators", generators)].lookup name

def findLong? (p : Place) (name : String) : Option Key := p.keys.find? fun k => k.long = name

def findShort? (p : Place) (c : Char) : Option Key := p.keys.find? fun k => k.short? = some c

end Place

/-! ## reading -/

/-- the switches so far -/
structure Given where
  values : List (Key × String)
  /-- an option that waits for its value, or for its value to be checked -/
  pending : Option (Key × Option String)

namespace Given

def none : Given := ⟨[], .none⟩

def value? (g : Given) (k : Key) : Option String := g.values.lookup k

def has (g : Given) (k : Key) : Bool := (g.value? k).isSome

/-- takes a switch with its value, the empty one for a switch without -/
def take (g : Given) (k : Key) (value : String) : Except UsageFault Given :=
  if g.has k then .error .conflict
  else if k.accepts value then .ok ⟨g.values ++ [(k, value)], .none⟩
  else .error .invalidValue

/-- checks the option that is pending -/
def settle (g : Given) : Except UsageFault Given :=
  match g.pending with
  | .none => .ok g
  | some (_, .none) => .error .invalidValue
  | some (k, some value) => take { g with pending := .none } k value

/-- takes a switch without a value -/
def flag (g : Given) (k : Key) : Except UsageFault Given := do
  let g ← g.settle
  match k with
  | .help => .error .help
  | .version => .error .version
  | k => g.take k ""

/-- takes an option with the value that stands in its own argument, if one does -/
def option (g : Given) (k : Key) (value : Option String) : Except UsageFault Given := do
  let g ← g.settle
  match value with
  | some value => g.take k value
  | .none => return { g with pending := some (k, .none) }

/-- an argument that begins with two dashes -/
def long (g : Given) (p : Place) (name : String) (value : Option String) : Except UsageFault Given :=
  match p.findLong? name with
  | .none => .error .unknownArgument
  | some k =>
    if k.takesValue then g.option k value
    else if value.isSome then .error .unexpectedValue
    else g.flag k

/-- the letters behind one dash; those behind an option are its value -/
def short (g : Given) (p : Place) : List Char → Except UsageFault Given
  | [] => .ok g
  | c :: more =>
    match p.findShort? c with
    | .none => .error .unknownArgument
    | some k =>
      if k.takesValue then
        match more with
        | [] => g.option k .none
        | '=' :: value => g.option k (some (.ofList value))
        | value => g.option k (some (.ofList value))
      else
        match g.flag k with
        | .ok g => short g p more
        | .error fault => .error fault

end Given

/-- the help command names one command or none -/
def helpFault (names : List String) : UsageFault :=
  match names with
  | [] | ["help"] => .help
  | [name] => if (Place.ofName? name).isSome then .help else .unknownCommand
  | _ => .unknownCommand

/-- the name and the value of an argument behind its two dashes -/
def cutLong (s : List Char) : String × Option String :=
  match s.dropWhile (· ≠ '=') with
  | _ :: value => (.ofList (s.takeWhile (· ≠ '=')), some (.ofList value))
  | [] => (.ofList s, none)

/-- an argument behind two dashes alone, where no switches come any more -/
def strayFault (p : Place) (argument : String) : UsageFault :=
  if p = .front && (Place.ofName? argument).isNone && argument ≠ "help" then .unknownCommand
  else .unknownArgument

/-- the switches at a place, and the command behind it with its arguments -/
def read (p : Place) (g : Given) : List String → Except UsageFault (Given × Option (Place × List String))
  | [] => do return (← g.settle, none)
  | argument :: rest =>
    match argument.toList with
    | ['-', '-'] =>
      match rest with
      | [] => do return (← g.settle, none)
      | stray :: _ => .error (strayFault p stray)
    | '-' :: '-' :: s =>
      match g.long p (cutLong s).1 (cutLong s).2 with
      | .ok g => read p g rest
      | .error fault => .error fault
    | '-' :: c :: s =>
      match g.short p (c :: s) with
      | .ok g => read p g rest
      | .error fault => .error fault
    | _ =>
      match g.pending, p with
      | some (k, none), _ => read p { g with pending := some (k, some argument) } rest
      | _, .front =>
        match Place.ofName? argument with
        | some inner => .ok (g, some (inner, rest))
        | none => .error (if argument = "help" then helpFault rest else .unknownCommand)
      | _, _ => .error .unknownArgument

/-! ## commands -/

/-- verbose and quiet exclude each other -/
def checkConflict (g : Given) : Except UsageFault Unit :=
  if g.has .verbose && g.has .quiet then .error .conflict else .ok ()

def inputOptions (g : Given) : Except UsageFault InputOptions :=
  match g.value? .input with
  | some location =>
    .ok ⟨location, (g.value? .format).bind DocumentFormat.ofOptionName?, g.value? .baseIri,
      g.value? .config⟩
  | none => .error .missingArgument

/-- the command at a place behind its name -/
def commandAt (p : Place) (g : Given) : Except UsageFault Command :=
  match p with
  | .front => .error .noCommand
  | .generate => do
    return .generate (← inputOptions g) ((g.value? .generator).getD "typescript") (g.value? .output)
  | .inspect => do return .inspect (← inputOptions g) (g.has .json)
  | .generators => .ok .generators

/-- the command of a command line -/
def parse (arguments : List String) : Except UsageFault Command := do
  match ← read .front .none arguments with
  | (g, none) => .error (if g.values.isEmpty then .nothingGiven else .noCommand)
  | (g, some (p, rest)) =>
    let (inner, _) ← read p .none rest
    checkConflict inner
    let command ← commandAt p inner
    checkConflict g
    return command

end TypedVocabulary.Arguments
