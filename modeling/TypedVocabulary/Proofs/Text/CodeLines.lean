import Mathlib.Data.List.Basic
import TypedVocabulary.Proofs.Identifier.Candidates
import TypedVocabulary.Proofs.Text.Literals
import TypedVocabulary.Proofs.Text.Wrapping

/-!
# Lines of code

A text is read line by line.  A comment line is one that goes on, behind the spaces it may begin with, with
a star or with the opening of a comment block; the code lines of a text are all others.

* `textLines_unlines`        lines are read back from their text;
* `codeLines_unlines`        the code lines of some lines are those of each of them;
* `codeLines_comment`, `codeLines_code`   what a line begins with decides, if it is one line;
* `codeLines_commentLines`   a comment block has no code line, whatever its text is;
* `oneLine_quote`            a literal never ends its line, whatever it stands for.

Fixed parts of lines are given as lists of characters, which the literals in the text unify with: the
characters of a literal are then known without decoding it.
-/

namespace TypedVocabulary

def textLines (text : String) : List String := (text.toList.splitOn '\n').map String.ofList

/-- a comment, or the inside or the end of one -/
def isCommentText : List Char → Bool
  | '*' :: _ => true
  | '/' :: '*' :: '*' :: _ => true
  | _ => false

/-- a comment behind the spaces at the head of the line -/
def opensComment (cs : List Char) : Bool := isCommentText (cs.dropWhile (· = ' '))

def isCommentLine (line : String) : Bool := opensComment line.toList

/-- the lines of a text that are left once its comment lines are deleted -/
def codeLines (text : String) : List String := (textLines text).filter fun l => !isCommentLine l

section
variable {s t rest indent : String} {front cs : List Char}

/-! ## texts of one line -/

/-- without line feeds -/
def OneLine (s : String) : Prop := '\n' ∉ s.toList

instance (s : String) : Decidable (OneLine s) := inferInstanceAs (Decidable ('\n' ∉ s.toList))

theorem oneLine_append : OneLine (s ++ t) ↔ OneLine s ∧ OneLine t := by
  unfold OneLine
  rw [String.toList_append, List.mem_append, not_or]

theorem OneLine.append (hs : OneLine s) (ht : OneLine t) : OneLine (s ++ t) :=
  oneLine_append.mpr ⟨hs, ht⟩

theorem oneLine_ofList (h : '\n' ∉ cs) : OneLine (String.ofList cs) := by
  unfold OneLine
  rw [String.toList_ofList]
  exact h

theorem OneLine.intercalate {parts : List String} (hs : OneLine s) (hp : ∀ p ∈ parts, OneLine p) :
    OneLine (s.intercalate parts) := not_mem_intercalate hs hp

theorem oneLine_of_isIdentifier (h : isIdentifier s = true) : OneLine s :=
  not_mem_of_isIdentifier h (by decide)

theorem oneLine_of_mem_wrap {width : Nat} {text : String} (h : s ∈ wrap width text) :
    OneLine s := by
  intro hs
  rcases mem_wrap_line h hs with e | hb
  · exact absurd e (by decide)
  · exact absurd hb (by decide)

theorem oneLine_quote (s : String) : OneLine (quote s) := by
  unfold OneLine quote
  rw [String.toList_ofList, List.mem_append, List.mem_cons, List.mem_singleton]
  rintro ((h | h) | h)
  · exact absurd h (by decide)
  · exact Quoted.lineEnd_not_mem (by decide) s.toList h
  · exact absurd h (by decide)

/-! ## lines of a text -/

theorem unlines_cons (l : String) (ls : List String) : unlines (l :: ls) = l ++ "\n" ++ unlines ls := by
  unfold unlines
  rw [List.map_cons, String.join_cons]

theorem unlines_append (ls ms : List String) : unlines (ls ++ ms) = unlines ls ++ unlines ms := by
  unfold unlines
  rw [List.map_append, String.join_append]

theorem textLines_append (s t : String) :
    textLines (s ++ "\n" ++ t) = textLines s ++ textLines t := by
  have hsplit := List.splitOn_append_cons_self (a := '\n') s.toList t.toList
  have hchars : (s ++ "\n" ++ t).toList = s.toList ++ '\n' :: t.toList := by
    rw [String.toList_append, String.toList_append, List.append_assoc]
    rfl
  unfold textLines
  rw [hchars, hsplit, List.map_append]

theorem textLines_oneLine (h : OneLine s) : textLines s = [s] := by
  unfold textLines
  rw [List.splitOn_eq_singleton h, List.map_singleton, String.ofList_toList]

/-- **Lines are read back**, with nothing behind the last line end. -/
theorem textLines_unlines {ls : List String} (h : ∀ l ∈ ls, OneLine l) :
    textLines (unlines ls) = ls ++ [""] := by
  induction ls with
  | nil => rfl
  | cons l ls ih =>
    have hls := ih fun l' hl' => h l' (List.mem_cons_of_mem _ hl')
    rw [unlines_cons, textLines_append, textLines_oneLine (h l (List.mem_cons_self ..)), hls]
    rfl

/-! ## code lines -/

theorem codeLines_append (s t : String) :
    codeLines (s ++ "\n" ++ t) = codeLines s ++ codeLines t := by
  unfold codeLines
  rw [textLines_append, List.filter_append]

/-- **The code lines of some lines are those of each of them.** -/
theorem codeLines_unlines (ls : List String) :
    codeLines (unlines ls) = ls.flatMap codeLines ++ [""] := by
  induction ls with
  | nil => rfl
  | cons l ls ih =>
    rw [unlines_cons, codeLines_append, ih, List.flatMap_cons, List.append_assoc]

theorem codeLines_oneLine (h : OneLine s) :
    codeLines s = if isCommentLine s = true then [] else [s] := by
  unfold codeLines
  rw [textLines_oneLine h, List.filter_singleton]
  cases isCommentLine s <;> rfl

/-! ## what a line begins with -/

theorem isCommentText_append (h : isCommentText front = true) (cs : List Char) :
    isCommentText (front ++ cs) = true := by
  unfold isCommentText at h
  split at h
  · rfl
  · rfl
  · cases h

theorem opensComment_append (h : opensComment front = true) (cs : List Char) :
    opensComment (front ++ cs) = true := by
  unfold opensComment at *
  rw [List.dropWhile_append]
  cases hd : front.dropWhile (· = ' ') with
  | nil =>
    rw [hd] at h
    cases h
  | cons c ds =>
    rw [hd] at h
    exact isCommentText_append h cs

/-- the first character besides spaces opens no comment -/
def opensCode (front : List Char) : Bool :=
  (front.dropWhile (· = ' ')).head?.any fun c => c ≠ '*' && c ≠ '/'

theorem opensComment_of_opensCode (h : opensCode front = true) (cs : List Char) :
    opensComment (front ++ cs) = false := by
  unfold opensCode at h
  unfold opensComment
  rw [List.dropWhile_append]
  cases hd : front.dropWhile (· = ' ') with
  | nil =>
    rw [hd] at h
    cases h
  | cons c ds =>
    rw [hd] at h
    have hc : c ≠ '*' ∧ c ≠ '/' := by simpa using h
    show isCommentText (c :: (ds ++ cs)) = false
    unfold isCommentText
    split
    · rename_i e
      exact absurd (List.cons.inj e).1 hc.1
    · rename_i e
      exact absurd (List.cons.inj e).1 hc.2
    · rfl

theorem isCommentLine_ofList_append (front : List Char) (rest : String) :
    isCommentLine (String.ofList front ++ rest) = opensComment (front ++ rest.toList) := by
  unfold isCommentLine
  rw [String.toList_append, String.toList_ofList]

theorem codeLines_comment (hfront : opensComment front = true) (hf : '\n' ∉ front)
    (hr : OneLine rest) : codeLines (String.ofList front ++ rest) = [] := by
  have hone : OneLine (String.ofList front ++ rest) := (oneLine_ofList hf).append hr
  rw [codeLines_oneLine hone, isCommentLine_ofList_append, opensComment_append hfront, if_pos rfl]

theorem codeLines_code (hfront : opensCode front = true) (hf : '\n' ∉ front)
    (hr : OneLine rest) :
    codeLines (String.ofList front ++ rest) = [String.ofList front ++ rest] := by
  have hone : OneLine (String.ofList front ++ rest) := (oneLine_ofList hf).append hr
  rw [codeLines_oneLine hone, isCommentLine_ofList_append, opensComment_of_opensCode hfront,
    if_neg Bool.false_ne_true]

theorem codeLines_ofList (hf : '\n' ∉ cs) :
    codeLines (String.ofList cs) = if opensComment cs = true then [] else [String.ofList cs] := by
  rw [codeLines_oneLine (oneLine_ofList hf)]
  unfold isCommentLine
  rw [String.toList_ofList]

/-! ## comment blocks -/

/-- spaces only -/
def isIndent (s : String) : Bool := s.toList.all (· = ' ')

theorem opensComment_indent (h : isIndent indent = true) (cs : List Char) :
    opensComment (indent.toList ++ cs) = opensComment cs := by
  unfold opensComment
  rw [List.dropWhile_append_of_pos (List.all_eq_true.mp h)]

theorem oneLine_indent (h : isIndent indent = true) : OneLine indent := fun hs =>
  absurd (List.all_eq_true.mp h _ hs) (by decide)

theorem codeLines_indented (hi : isIndent indent = true) (hfront : opensComment front = true)
    (hf : '\n' ∉ front) (hr : OneLine rest) :
    codeLines (indent ++ String.ofList front ++ rest) = [] := by
  have hone : '\n' ∉ indent.toList ++ front := by
    rw [List.mem_append, not_or]
    exact ⟨oneLine_indent hi, hf⟩
  have hchars : indent ++ String.ofList front = String.ofList (indent.toList ++ front) := by
    rw [String.ofList_append, String.ofList_toList]
  rw [hchars]
  exact codeLines_comment ((opensComment_indent hi front).trans hfront) hone hr

/-- **A comment block has no code line**, whatever its text is. -/
theorem codeLines_commentLines (text : String) (hi : isIndent indent = true) :
    (commentLines text indent).flatMap codeLines = [] := by
  have hopen : codeLines (indent ++ "/**") = [] := by
    rw [← String.append_empty (s := indent ++ "/**")]
    exact codeLines_indented hi rfl (by decide) (by decide)
  have hclose : codeLines (indent ++ " */") = [] := by
    rw [← String.append_empty (s := indent ++ " */")]
    exact codeLines_indented hi rfl (by decide) (by decide)
  have hline : ∀ l ∈ commentText text (commentWidth - indent.utf8ByteSize),
      codeLines (indent ++ " * " ++ l) = [] := fun l hl =>
    codeLines_indented hi rfl (by decide) (oneLine_of_mem_wrap hl)
  unfold commentLines
  split
  · rfl
  · rw [List.flatMap_append, List.flatMap_cons, hopen, List.flatMap_map,
      List.flatMap_eq_nil_iff.mpr hline, List.flatMap_singleton, hclose]
    rfl

/-! ## literals -/

theorem codeLines_quoted (hi : isIndent indent = true) (s : String) (hr : OneLine rest) :
    codeLines (indent ++ quote s ++ rest) = [indent ++ quote s ++ rest] := by
  have hone : OneLine (indent ++ quote s) := (oneLine_indent hi).append (oneLine_quote s)
  have hchars : indent ++ quote s = String.ofList (indent ++ quote s).toList :=
    String.ofList_toList.symm
  have hfront : opensCode (indent ++ quote s).toList = true := by
    unfold opensCode
    rw [String.toList_append, toList_quote, List.dropWhile_append_of_pos (List.all_eq_true.mp hi)]
    rfl
  rw [hchars]
  exact codeLines_code hfront hone hr

end

end TypedVocabulary
