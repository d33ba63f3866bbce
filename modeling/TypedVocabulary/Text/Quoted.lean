/-!
# Double-quoted literals

A literal stands between double quotes.  Inside, the quote and the backslash are preceded by a backslash,
and the characters that would end a line, the tabulator and NUL have a letter of their own; every other
character stands for itself.
-/

namespace TypedVocabulary.Quoted

/-- how one character is written between the quotes -/
def encodeChar : Char → List Char
  | '\\' => ['\\', '\\']
  | '"' => ['\\', '"']
  | '\n' => ['\\', 'n']
  | '\r' => ['\\', 'r']
  | '\t' => ['\\', 't']
  | '\x00' => ['\\', '0']
  | '\u2028' => ['\\', 'u', '2', '0', '2', '8']
  | '\u2029' => ['\\', 'u', '2', '0', '2', '9']
  | c => [c]

def encode (s : List Char) : List Char := s.flatMap encodeChar

theorem encode_nil : encode [] = [] := rfl
theorem encode_cons (c : Char) (s : List Char) : encode (c :: s) = encodeChar c ++ encode s := rfl
theorem encode_append (s t : List Char) : encode (s ++ t) = encode s ++ encode t :=
  List.flatMap_append

end TypedVocabulary.Quoted

namespace TypedVocabulary

/-- the literal that stands for `s` -/
def quote (s : String) : String := String.ofList ('"' :: Quoted.encode s.toList ++ ['"'])

end TypedVocabulary
