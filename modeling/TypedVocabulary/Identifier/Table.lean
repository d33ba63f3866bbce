import TypedVocabulary.Identifier.Basic
import TypedVocabulary.Names.NameMap

/-!
# Identifiers for a set of names

Names that lead to the same identifier form a group.  In code point order, the first name of a group keeps
the identifier and every other name gets the identifier with the smallest number, from 2 on, that is
still free.

Both searches look for the first candidate outside a list of names.  The candidates never repeat, so a
listed candidate can be struck off the list once it was met: the search ends because the list gets
shorter.
-/

namespace TypedVocabulary

/-! ## the first free candidate -/

/-- the first of `s`, `s_`, `s__`, … that is not in `blocked` -/
def padFree (blocked : List String) (s : String) : String :=
  if h : s ∈ blocked then padFree (blocked.erase s) (s ++ "_") else s
termination_by blocked.length
decreasing_by
  have := List.length_pos_of_mem h
  rw [List.length_erase_of_mem h]
  omega

def numbered (base : String) (n : Nat) : String := base ++ "_" ++ toString n

/-- the first of `base_n`, `base_(n+1)`, … that is not in `taken` -/
def numberFree (taken : List String) (base : String) (n : Nat) : String :=
  if h : numbered base n ∈ taken then numberFree (taken.erase (numbered base n)) base (n + 1)
  else numbered base n
termination_by taken.length
decreasing_by
  have := List.length_pos_of_mem h
  rw [List.length_erase_of_mem h]
  omega

/-! ## groups -/

/-- two or more names that lead to one identifier -/
structure Collision where
  identifier : String
  /-- the name that keeps the identifier -/
  keptBy : String
  /-- the other names, each with the identifier it gets instead -/
  renamed : List (String × String)
deriving DecidableEq, Repr

/-- the identifier that a name asks for, with `reserved` identifiers beside the built-in ones -/
def requestedIdentifier (reserved : List String) (name : String) : String :=
  padFree (reservedNames ++ reserved) (sanitize name)

/-- numbers the names of a group that do not keep its identifier -/
def renameAll (blocked : List String) (base : String) :
    List String → List String → List (String × String) × List String
  | taken, [] => ([], taken)
  | taken, name :: names =>
    let identifier := numberFree (taken ++ blocked) base 2
    let rest := renameAll blocked base (identifier :: taken) names
    ((name, identifier) :: rest.1, rest.2)

/-- one group after the other: who keeps the identifier, who gets which instead -/
def settle (blocked : List String) :
    List String → List (String × List String) → List Collision
  | _, [] => []
  | taken, (_, []) :: groups => settle blocked taken groups
  | taken, (base, first :: others) :: groups =>
    let r := renameAll blocked base taken others
    ⟨base, first, r.1⟩ :: settle blocked r.2 groups

/-- the identifiers in increasing order, each with the names that ask for it -/
def groupsOf (requests : List (String × String)) : List (String × List String) :=
  (NameSet.ofList (requests.map Prod.snd)).toList.map fun identifier =>
    (identifier, (requests.filter (·.2 = identifier)).map Prod.fst)

/-! ## the table -/

/-- the identifiers of a set of names -/
structure IdentifierTable where
  identifiers : NameMap String
  collisions : List Collision
deriving DecidableEq

namespace IdentifierTable

/-- every name of a group with its identifier -/
def assignments (c : Collision) : List (String × String) := (c.keptBy, c.identifier) :: c.renamed

/-- gives every name an identifier that is neither a reserved name nor in `reserved` -/
def ofNames (names : NameSet) (reserved : List String) : IdentifierTable :=
  let requests := names.toList.map fun name => (name, requestedIdentifier reserved name)
  let groups := groupsOf requests
  let settled := settle (reservedNames ++ reserved) (groups.map Prod.fst) groups
  { identifiers := NameMap.ofList (settled.flatMap assignments)
    collisions := settled.filter fun c => !c.renamed.isEmpty }

def get? (t : IdentifierTable) (name : String) : Option String := t.identifiers.get? name

/-- names and identifiers in name order -/
def toList (t : IdentifierTable) : List (String × String) := t.identifiers.entries

def size (t : IdentifierTable) : Nat := t.identifiers.size

end IdentifierTable

end TypedVocabulary
