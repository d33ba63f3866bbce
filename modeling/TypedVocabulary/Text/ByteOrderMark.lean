/-!
# The byte order mark

A text may begin with a mark that says in which order its bytes stand.  The mark is not a part of what
is written.
-/

namespace TypedVocabulary

def isByteOrderMark (c : Char) : Bool := c.toNat = 0xFEFF

/-- a text behind its byte order mark if it has one -/
def withoutByteOrderMark : List Char → List Char
  | c :: s => if isByteOrderMark c then s else c :: s
  | [] => []

end TypedVocabulary
