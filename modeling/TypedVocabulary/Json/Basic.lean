/-!
# JSON values

A JSON value, with the members of an object in their order and a number as its digits.  `render` writes
a value over several lines, two columns further in for each level; an empty array or object stays on its
line.
-/

namespace TypedVocabulary

inductive Json where
  | null
  | bool (b : Bool)
  /-- a number as it is written -/
  | number (digits : String)
  | string (s : String)
  | array (items : List Json)
  | object (members : List (String × Json))

namespace Json

instance : Inhabited Json := ⟨.null⟩

def ofNat (n : Nat) : Json := .number (toString n)

def strings (ss : List String) : Json := .array (ss.map .string)

def pair (p : String × String) : Json := strings [p.1, p.2]

/-! ## strings -/

def hexDigit (n : Nat) : Char := if n < 10 then Char.ofNat (48 + n) else Char.ofNat (87 + n)

/-- how one character is written in a string -/
def encodeChar (c : Char) : List Char :=
  if c = '"' then ['\\', '"']
  else if c = '\\' then ['\\', '\\']
  else if c = '\n' then ['\\', 'n']
  else if c = '\r' then ['\\', 'r']
  else if c = '\t' then ['\\', 't']
  else if c.toNat = 8 then ['\\', 'b']
  else if c.toNat = 12 then ['\\', 'f']
  else if c.toNat < 32 then
    ['\\', 'u', '0', '0', hexDigit (c.toNat / 16), hexDigit (c.toNat % 16)]
  else [c]

def quoted (s : String) : String := String.ofList ('"' :: s.toList.flatMap encodeChar ++ ['"'])

/-! ## values -/

/-- the start of a line at a depth -/
def newLine (depth : Nat) : String := "\n" ++ String.ofList (List.replicate (2 * depth) ' ')

mutual

def renderAt (depth : Nat) : Json → String
  | .null => "null"
  | .bool b => if b then "true" else "false"
  | .number digits => digits
  | .string s => quoted s
  | .array [] => "[]"
  | .array (j :: js) =>
    "[" ++ newLine (depth + 1) ++ renderAt (depth + 1) j ++ renderItems (depth + 1) js ++
      newLine depth ++ "]"
  | .object [] => "\x7b\x7d"
  | .object ((key, j) :: ms) =>
    "\x7b" ++ newLine (depth + 1) ++ quoted key ++ ": " ++ renderAt (depth + 1) j ++
      renderMembers (depth + 1) ms ++ newLine depth ++ "\x7d"

/-- the items after the first -/
def renderItems (depth : Nat) : List Json → String
  | [] => ""
  | j :: js => "," ++ newLine depth ++ renderAt depth j ++ renderItems depth js

/-- the members after the first -/
def renderMembers (depth : Nat) : List (String × Json) → String
  | [] => ""
  | (key, j) :: ms =>
    "," ++ newLine depth ++ quoted key ++ ": " ++ renderAt depth j ++ renderMembers depth ms

end

def render (j : Json) : String := renderAt 0 j

end Json

end TypedVocabulary
