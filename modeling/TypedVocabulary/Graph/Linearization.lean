import TypedVocabulary.Graph.Basic

/-!
# Linearization

Classes are placed one at a time.  A class is ready when every entry among its resolvable parents has been
placed; ready classes wait in a queue, at first in code point order, later in the order in which they
become ready, and those that become ready together in code point order.  Classes that never become
ready lie on a cycle of parents or below one; they come last, in code point order.

With every class that is placed either the queue or the list of waiting classes gets shorter, and none of
them takes in a class that the other did not hold, so the queue runs empty.
-/

namespace TypedVocabulary

/-- an order of all classes -/
structure Linearization where
  /-- every class once -/
  order : List String
  /-- the tail of the order: the classes that never became ready -/
  unresolved : List String
deriving DecidableEq, Repr

/-- a class that is not ready -/
structure Waiting where
  name : String
  /-- its resolvable parents, an entry for each time they are listed -/
  parents : List String
  /-- the number of entries whose class is not placed yet -/
  missing : Nat
deriving DecidableEq, Repr

namespace Waiting

/-- notes that the class `placed` has been placed -/
def note (placed : String) (w : Waiting) : Waiting :=
  { w with missing := w.missing - w.parents.count placed }

def isReady (w : Waiting) : Bool := w.missing == 0

/-- all waiting classes, with `placed` noted -/
def noteAll (placed : String) (ws : List Waiting) : List Waiting := ws.map (note placed)

/-- the names of the classes that are ready -/
def readyNames (ws : List Waiting) : List String := (ws.filter isReady).map name

/-- the classes that are not ready -/
def notReady (ws : List Waiting) : List Waiting := ws.filter fun w => !w.isReady

theorem length_noteAll (placed : String) (ws : List Waiting) :
    (noteAll placed ws).length = ws.length := List.length_map ..

theorem length_readyNames_add (ws : List Waiting) :
    (readyNames ws).length + (notReady ws).length = ws.length := by
  induction ws with
  | nil => rfl
  | cons w ws ih =>
    unfold readyNames notReady at ih ⊢
    cases h : w.isReady <;> simp [h] at ih ⊢ <;> omega

end Waiting

/-- places the classes of the queue and all that become ready; the second list was never ready -/
def placeAll : List String → List Waiting → List String × List Waiting
  | [], waiting => ([], waiting)
  | name :: queue, waiting =>
    let noted := Waiting.noteAll name waiting
    let placed := placeAll (queue ++ Waiting.readyNames noted) (Waiting.notReady noted)
    (name :: placed.1, placed.2)
termination_by queue waiting => queue.length + waiting.length
decreasing_by
  have h1 := Waiting.length_noteAll name waiting
  have h2 := Waiting.length_readyNames_add (Waiting.noteAll name waiting)
  simp only [List.length_append, List.length_cons]
  omega

namespace Graph

/-- every class in code point order, with all its resolvable parents missing -/
def waitingList (g : Graph) : List Waiting :=
  g.classes.keys.map fun name =>
    let parents := g.resolvableParents name
    ⟨name, parents, parents.length⟩

/-- the order in which classes are emitted -/
def linearize (g : Graph) : Linearization :=
  let placed := placeAll (Waiting.readyNames g.waitingList) (Waiting.notReady g.waitingList)
  let unresolved := placed.2.map Waiting.name
  ⟨placed.1 ++ unresolved, unresolved⟩

end Graph

namespace Linearization

/-- the place of a class in the order -/
def position? (l : Linearization) (name : String) : Option Nat := l.order.idxOf? name

/-- the place of every class -/
def positions (l : Linearization) : NameMap Nat := NameMap.ofList l.order.zipIdx

end Linearization

end TypedVocabulary
