import TypedVocabulary.Yaml.Token

/-!
# Nodes of YAML

A document is a scalar, a sequence or a mapping.  Its tokens are read with a stack of slots: each open
collection keeps its entries so far and knows what comes next, and a node that is complete goes into the
slot that waits for it.  A place where a node may be left out holds the empty scalar.
-/

namespace TypedVocabulary.Yaml

inductive Node where
  /-- a plain scalar is written without quotes and not as a block -/
  | scalar (plain : Bool) (text : String)
  | sequence (items : List Node)
  | mapping (entries : List (Node × Node))

/-- a node that is left out -/
def Node.empty : Node := .scalar true ""

/-- an open collection with its entries, the last one first, and what comes next -/
inductive Slot where
  /-- the whole document -/
  | document
  /-- a block sequence behind a dash, and in front of one -/
  | blockItem (items : List Node)
  | blockItems (items : List Node)
  /-- a block sequence that stands no further in than its mapping -/
  | compactItem (items : List Node)
  | compactItems (items : List Node)
  /-- a block mapping: a key, its colon, its value, the next entry -/
  | blockKey (entries : List (Node × Node))
  | blockKeyed (entries : List (Node × Node)) (key : Node)
  | blockValue (entries : List (Node × Node)) (key : Node)
  | blockEntries (entries : List (Node × Node))
  /-- a flow sequence: an item, or a comma -/
  | flowItem (items : List Node)
  | flowItems (items : List Node)
  /-- an item of a flow sequence that is one entry of a mapping -/
  | pairKey (items : List Node)
  | pairKeyed (items : List Node) (key : Node)
  | pairValue (items : List Node) (key : Node)
  /-- a flow mapping: an entry, a marked key, its colon, its value, a comma -/
  | flowEntry (entries : List (Node × Node))
  | flowKey (entries : List (Node × Node))
  | flowKeyed (entries : List (Node × Node)) (key : Node)
  | flowValue (entries : List (Node × Node)) (key : Node)
  | flowEntries (entries : List (Node × Node))

namespace Slot

/-- the tokens in front of which a slot's node is left out -/
def emptyBefore : Slot → List Token
  | .blockItem _ => [.dash, .blockEnd]
  | .compactItem _ => [.dash, .key, .value, .blockEnd]
  | .blockKey _ | .blockValue .. => [.key, .value, .blockEnd]
  | .flowKey _ => [.value, .comma, .flowMappingEnd]
  | .flowValue .. => [.comma, .flowMappingEnd]
  | .pairKey _ => [.value, .comma, .flowSequenceEnd]
  | .pairValue .. => [.comma, .flowSequenceEnd]
  | _ => []

/-- a slot that waits for a node -/
def isOpen : Slot → Bool
  | .document | .blockItem _ | .compactItem _ | .blockKey _ | .blockValue .. | .flowItem _
  | .pairKey _ | .pairValue .. | .flowEntry _ | .flowKey _ | .flowValue .. => true
  | _ => false

/-- a slot that waits for a node and takes block collections -/
def takesBlock : Slot → Bool
  | .document | .blockItem _ | .compactItem _ | .blockKey _ | .blockValue .. => true
  | _ => false

end Slot

/-- a document that is read in part, the innermost slot first, or as a whole -/
inductive Growth where
  | under (slots : List Slot)
  | whole (node : Node)

namespace Growth

/-- puts a node into the innermost slot -/
def place? (n : Node) : List Slot → Option Growth
  | [.document] => some (.whole n)
  | .blockItem items :: outer => some (.under (.blockItems (n :: items) :: outer))
  | .compactItem items :: outer => some (.under (.compactItems (n :: items) :: outer))
  | .blockKey entries :: outer => some (.under (.blockKeyed entries n :: outer))
  | .blockValue entries key :: outer => some (.under (.blockEntries ((key, n) :: entries) :: outer))
  | .flowItem items :: outer => some (.under (.flowItems (n :: items) :: outer))
  | .pairKey items :: outer => some (.under (.pairKeyed items n :: outer))
  | .pairValue items key :: outer =>
    some (.under (.flowItems (.mapping [(key, n)] :: items) :: outer))
  | .flowEntry entries :: outer => some (.under (.flowEntries ((n, .empty) :: entries) :: outer))
  | .flowKey entries :: outer => some (.under (.flowKeyed entries n :: outer))
  | .flowValue entries key :: outer => some (.under (.flowEntries ((key, n) :: entries) :: outer))
  | _ => none

/-- fills the innermost slot where the token shows that its node is left out -/
def withOmitted? (t : Token) : Growth → Option Growth
  | .under (slot :: outer) =>
    if slot.emptyBefore.contains t then place? .empty (slot :: outer)
    else some (.under (slot :: outer))
  | g => some g

/-- ends a compact sequence in front of anything but a dash -/
def withoutCompact? (t : Token) : Growth → Option Growth
  | .under (.compactItems items :: outer) =>
    if t = .dash then some (.under (.compactItems items :: outer))
    else place? (.sequence items.reverse) outer
  | g => some g

/-- a key in front of anything but a colon has no value -/
def withValue (t : Token) : Growth → Growth
  | .under (slot :: outer) =>
    if t = .value then .under (slot :: outer)
    else
      match slot with
      | .blockKeyed entries key => .under (.blockEntries ((key, .empty) :: entries) :: outer)
      | .flowKeyed entries key => .under (.flowEntries ((key, .empty) :: entries) :: outer)
      | .pairKeyed items key => .under (.flowItems (.mapping [(key, .empty)] :: items) :: outer)
      | slot => .under (slot :: outer)
  | g => g

/-- a token that begins a node -/
def begin? (slots : List Slot) (slot : Slot) (t : Token) : Option Growth :=
  match t with
  | .scalar plain text => place? (.scalar plain text) slots
  | .flowSequence => if slot.isOpen then some (.under (.flowItem [] :: slots)) else none
  | .flowMapping => if slot.isOpen then some (.under (.flowEntry [] :: slots)) else none
  | .blockSequence => if slot.takesBlock then some (.under (.blockItems [] :: slots)) else none
  | .blockMapping => if slot.takesBlock then some (.under (.blockEntries [] :: slots)) else none
  | _ => none

/-- a token behind which nothing is left out -/
def next? (t : Token) : Growth → Option Growth
  | .under (slot :: outer) =>
    match slot, t with
    | .blockItems items, .dash => some (.under (.blockItem items :: outer))
    | .blockItems items, .blockEnd => place? (.sequence items.reverse) outer
    | .compactItems items, .dash => some (.under (.compactItem items :: outer))
    | .blockKey entries, .dash => some (.under (.compactItem [] :: .blockKey entries :: outer))
    | .blockValue entries key, .dash =>
      some (.under (.compactItem [] :: .blockValue entries key :: outer))
    | .blockKeyed entries key, .value => some (.under (.blockValue entries key :: outer))
    | .blockEntries entries, .key => some (.under (.blockKey entries :: outer))
    | .blockEntries entries, .blockEnd => place? (.mapping entries.reverse) outer
    | .flowItem items, .key => some (.under (.pairKey items :: outer))
    | .flowItem items, .flowSequenceEnd => place? (.sequence items.reverse) outer
    | .flowItems items, .comma => some (.under (.flowItem items :: outer))
    | .flowItems items, .flowSequenceEnd => place? (.sequence items.reverse) outer
    | .pairKeyed items key, .value => some (.under (.pairValue items key :: outer))
    | .flowEntry entries, .key => some (.under (.flowKey entries :: outer))
    | .flowEntry entries, .flowMappingEnd => place? (.mapping entries.reverse) outer
    | .flowKeyed entries key, .value => some (.under (.flowValue entries key :: outer))
    | .flowEntries entries, .comma => some (.under (.flowEntry entries :: outer))
    | .flowEntries entries, .flowMappingEnd => place? (.mapping entries.reverse) outer
    | slot, t => begin? (slot :: outer) slot t
  | _ => none

def step? (g : Growth) (t : Token) : Option Growth := do
  next? t (withValue t (← withoutCompact? t (← withOmitted? t g)))

end Growth

/-- the node that a document's tokens make up -/
def Node.ofTokens? (ts : List Token) : Option Node := do
  match ← ts.foldlM Growth.step? (.under [.document]) with
  | .whole n => some n
  | .under _ => none

/-- a token that stands between documents -/
def Token.isOutside : Token → Bool
  | .directive | .documentStart | .documentEnd => true
  | _ => false

/-- the only document of a text; a text without one stands for the empty scalar -/
def document? (s : String) : Option Node := do
  let ts ← tokens? s
  let marked := if ts.head? = some .directive then ts.tail else ts
  let (content, hasStart) := match marked with
    | .documentStart :: ts => (ts, true)
    | ts => (ts, false)
  guard (hasStart || ts.head? ≠ some .directive)
  let body := content.takeWhile (!·.isOutside)
  let after := content.dropWhile (!·.isOutside)
  guard (after.all (· = .documentEnd))
  guard (hasStart || !body.isEmpty || after.isEmpty)
  if body.isEmpty then some Node.empty else Node.ofTokens? body

end TypedVocabulary.Yaml
