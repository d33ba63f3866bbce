/-!
# Placeholders

A placeholder is `${name}`, `${name:default}` or `${name:-default}`: the name is a run of at least one
character other than `}` and `:`, the default a run, perhaps empty, of characters other than `}`, and a
`-` right after the colon belongs to neither.  A template is a text cut from left to right at its
placeholders; a `${` that starts none is ordinary text.  Filling in a template looks at each placeholder
once, so inserted values are never read again.
-/

namespace TypedVocabulary

/-- a part of a template -/
inductive Piece where
  | char (c : Char)
  | placeholder (name default : List Char)
deriving DecidableEq, Repr

/-- what follows the dash that may open a default -/
def afterDash : List Char → List Char
  | '-' :: s => s
  | s => s

/-- a placeholder's name and default, and what follows it, from the text after `${` -/
def placeholderAt? (s : List Char) : Option (List Char × List Char × List Char) :=
  let name := s.takeWhile fun c => c ≠ '}' && c ≠ ':'
  if name.isEmpty then none
  else match s.dropWhile fun c => c ≠ '}' && c ≠ ':' with
    | '}' :: rest => some (name, [], rest)
    | ':' :: s =>
      match (afterDash s).dropWhile (· ≠ '}') with
      | '}' :: rest => some (name, (afterDash s).takeWhile (· ≠ '}'), rest)
      | _ => none
    | _ => none

theorem length_dropWhile_le {α : Type} (p : α → Bool) (s : List α) :
    (s.dropWhile p).length ≤ s.length := (List.dropWhile_suffix p).length_le

theorem length_afterDash_le (s : List Char) : (afterDash s).length ≤ s.length := by
  unfold afterDash
  split <;> simp

theorem placeholderAt?_shorter {s name default rest : List Char}
    (h : placeholderAt? s = some (name, default, rest)) : rest.length < s.length := by
  have h1 := length_dropWhile_le (fun c => c ≠ '}' && c ≠ ':') s
  unfold placeholderAt? at h
  simp only at h
  split at h
  · exact absurd h (by simp)
  · split at h
    · rename_i r e
      rw [e, List.length_cons] at h1
      cases h
      omega
    · rename_i t e
      rw [e, List.length_cons] at h1
      split at h
      · rename_i r e'
        cases h
        have h2 := length_dropWhile_le (· ≠ '}') (afterDash t)
        have h3 := length_afterDash_le t
        rw [e', List.length_cons] at h2
        omega
      · exact absurd h (by simp)
    · exact absurd h (by simp)

/-- cuts a text at its placeholders, each as far left as possible -/
def template : List Char → List Piece
  | '$' :: '{' :: s =>
    match h : placeholderAt? s with
    | some (name, default, rest) =>
      have : rest.length < s.length := placeholderAt?_shorter h
      .placeholder name default :: template rest
    | none => .char '$' :: template ('{' :: s)
  | c :: s => .char c :: template s
  | [] => []
termination_by s => s.length

/-- the text of a piece, with values from `value?`; without a value the default stands -/
def Piece.fillIn (value? : String → Option String) : Piece → List Char
  | .char c => [c]
  | .placeholder name default =>
    match value? (String.ofList name) with
    | some v => v.toList
    | none => default

/-- the names in a text's placeholders -/
def placeholderNames (text : String) : List String :=
  (template text.toList).filterMap fun p =>
    match p with
    | .placeholder name _ => some (String.ofList name)
    | .char _ => none

/-- a text with its placeholders replaced -/
def substitute (value? : String → Option String) (text : String) : String :=
  String.ofList ((template text.toList).flatMap (Piece.fillIn value?))

end TypedVocabulary
