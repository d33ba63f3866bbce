import TypedVocabulary.Json.Basic
import TypedVocabulary.Json.Token

/-!
# Reading JSON

The tokens of a text are read with a stack of slots: each open array or object keeps its entries so far
and knows what comes next.  Of the members of an object with one key the last one counts.
-/

namespace TypedVocabulary.Json

/-- what is open, with its entries, the last one first, and what comes next in it -/
inductive Slot where
  /-- the whole text -/
  | text
  /-- an item, or the end of an array without items -/
  | first
  | item (items : List Json)
  | itemEnd (items : List Json)
  /-- a key, or the end of an object without members -/
  | firstKey
  | key (members : List (String × Json))
  | colon (members : List (String × Json)) (key : String)
  | value (members : List (String × Json)) (key : String)
  | valueEnd (members : List (String × Json))

/-- a text that is read in part, the innermost slot first, or as a whole -/
inductive Growth where
  | under (slots : List Slot)
  | whole (j : Json)

namespace Growth

/-- members, the last one first, without those whose key comes again behind them -/
def lastMembers : List (String × Json) → List (String × Json)
  | [] => []
  | m :: ms => m :: (lastMembers ms).filter (·.1 ≠ m.1)

/-- puts a value into the innermost slot -/
def place? (j : Json) : List Slot → Option Growth
  | [.text] => some (.whole j)
  | .first :: outer => some (.under (.itemEnd [j] :: outer))
  | .item items :: outer => some (.under (.itemEnd (j :: items) :: outer))
  | .value members key :: outer => some (.under (.valueEnd ((key, j) :: members) :: outer))
  | _ => none

def awaitsValue : List Slot → Bool
  | .text :: _ | .first :: _ | .item _ :: _ | .value .. :: _ => true
  | _ => false

def mark? (c : Char) (slots : List Slot) : Option Growth :=
  match c, slots with
  | '[', slots => if awaitsValue slots then some (.under (.first :: slots)) else none
  | '\x7b', slots => if awaitsValue slots then some (.under (.firstKey :: slots)) else none
  | ']', .first :: outer => place? (.array []) outer
  | ']', .itemEnd items :: outer => place? (.array items.reverse) outer
  | '\x7d', .firstKey :: outer => place? (.object []) outer
  | '\x7d', .valueEnd members :: outer => place? (.object (lastMembers members).reverse) outer
  | ',', .itemEnd items :: outer => some (.under (.item items :: outer))
  | ',', .valueEnd members :: outer => some (.under (.key members :: outer))
  | ':', .colon members key :: outer => some (.under (.value members key :: outer))
  | _, _ => none

def step? : Growth → Token → Option Growth
  | .under slots, .mark c => mark? c slots
  | .under (.firstKey :: outer), .text key => some (.under (.colon [] key :: outer))
  | .under (.key members :: outer), .text key => some (.under (.colon members key :: outer))
  | .under slots, .text s => place? (.string s) slots
  | .under slots, .number digits => place? (.number digits) slots
  | .under slots, .word "true" => place? (.bool true) slots
  | .under slots, .word "false" => place? (.bool false) slots
  | .under slots, .word "null" => place? .null slots
  | _, _ => none

end Growth

/-- the value that a text is written for -/
def ofText? (s : String) : Option Json := do
  match ← (← tokens? s).foldlM Growth.step? (.under [.text]) with
  | .whole j => some j
  | .under _ => none

end TypedVocabulary.Json
