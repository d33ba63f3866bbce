import TypedVocabulary.Text.Blank

/-!
# Filling lines

Words are laid on lines greedily: a word joins the open line, after one space, as long as the line
stays within the width; otherwise it opens the next line.  Lengths are counted in UTF-8 bytes.  A
word that is longer than the width stands alone on its line.
-/

namespace TypedVocabulary

/-- the lines of `line` followed by the given words -/
def fillFrom (width : Nat) (line : String) : List String → List String
  | [] => [line]
  | w :: ws =>
    if line.utf8ByteSize + 1 + w.utf8ByteSize ≤ width then fillFrom width (line ++ " " ++ w) ws
    else line :: fillFrom width w ws

def fill (width : Nat) : List String → List String
  | [] => []
  | w :: ws => fillFrom width w ws

/-- a text refilled: runs of blanks, line ends included, count as one space -/
def wrap (width : Nat) (text : String) : List String := fill width (words text)

theorem fill_nil (width : Nat) : fill width [] = [] := rfl

theorem fillFrom_ne_nil (width : Nat) (line : String) (ws : List String) :
    fillFrom width line ws ≠ [] := by
  induction ws generalizing line with
  | nil => simp [fillFrom]
  | cons w ws ih =>
    unfold fillFrom
    split
    · exact ih _
    · simp

theorem fill_eq_nil_iff {width : Nat} {ws : List String} : fill width ws = [] ↔ ws = [] := by
  cases ws with
  | nil => simp [fill]
  | cons w ws => simp [fill, fillFrom_ne_nil]

end TypedVocabulary
