import TypedVocabulary.Graph.Basic

/-!
# Ancestors

The ancestors of a class are the declared classes, other than itself, that its resolvable parents lead to.
They are collected depth first.  The classes that were not met yet are kept in a list, and a class leaves
it when it is met: the search ends on cyclic parents, and the class that it started from, never in that
list, is never collected.
-/

namespace TypedVocabulary

/-- the names in `fresh` that `next` leads to from the names on the stack, through names in `fresh` -/
def collect (next : String → List String) (fresh : List String) : List String → List String
  | [] => []
  | x :: stack =>
    if h : x ∈ fresh then x :: collect next (fresh.erase x) (next x ++ stack)
    else collect next fresh stack
termination_by stack => (fresh.length, stack.length)
decreasing_by
  · have := List.length_pos_of_mem h
    rw [List.length_erase_of_mem h]
    exact Prod.Lex.left _ _ (by omega)
  · exact Prod.Lex.right _ (Nat.lt_succ_self _)

namespace Graph

/-- the declared classes, other than `name`, that following parents from `name` leads to -/
def ancestors (g : Graph) (name : String) : NameSet :=
  NameSet.ofList
    (collect g.resolvableParents (g.classes.keys.erase name) (g.resolvableParents name))

/-- the properties of a class and of its ancestors -/
def effectiveProperties (g : Graph) (name : String) : NameSet :=
  match g.class? name with
  | none => ∅
  | some c =>
    (g.ancestors name).toList.foldl
      (fun properties a => match g.class? a with
        | some c => properties.union c.properties
        | none => properties)
      c.properties

end Graph

end TypedVocabulary
