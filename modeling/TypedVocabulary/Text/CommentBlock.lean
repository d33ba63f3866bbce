import TypedVocabulary.Text.Fill

/-!
# Comment blocks

A comment block opens with `/**`, has one line ` * …` for each line of the filled text and closes with
` */`.  The two characters that would close it early are kept apart by a backslash before the text is
filled; filling never brings a `*` and a `/` together, since it only changes blanks.
-/

namespace TypedVocabulary

/-- puts a backslash between every `*` and a `/` that follows it -/
def splitTerminators : List Char → List Char
  | '*' :: '/' :: s => '*' :: '\\' :: '/' :: splitTerminators s
  | c :: s => c :: splitTerminators s
  | [] => []

def withoutTerminators (s : String) : String := String.ofList (splitTerminators s.toList)

/-- the bytes that a line of comment text may fill behind its leading star, less those of an indent -/
def commentWidth : Nat := 76

/-- the filled text of a comment, line by line -/
def commentText (text : String) (width : Nat) : List String := wrap width (withoutTerminators text)

/-- the lines of a comment block; a blank text has none -/
def commentLines (text indent : String) : List String :=
  match commentText text (commentWidth - indent.utf8ByteSize) with
  | [] => []
  | ls => (indent ++ "/**") :: ls.map (fun l => indent ++ " * " ++ l) ++ [indent ++ " */"]

/-- the comment block as a text; a blank text has none -/
def commentBlock? (text indent : String) : Option String :=
  match commentLines text indent with
  | [] => none
  | ls => some (unlines ls)

end TypedVocabulary
