import Mathlib.Data.List.Perm.Basic
import TypedVocabulary.Proofs.Graph.Placing
import TypedVocabulary.Proofs.Names.Lookups

/-!
# Graphs that list their edges in another order

`Graph.Reordered g h`: the graphs declare the same terms, and what they list for a term (parents, domains,
ranges) are permutations of each other.  `Graph.SameShape g h` says less, for the comments of terms are
left open, and it is all that inheritance sees:

* `Graph.SameShape.ancestors`, `Graph.SameShape.effectiveProperties`   these are sets, and exact for the
                                                edge relation, which is the same;
* `Graph.SameShape.linearize`          the order of classes is the same, for it depends on the edges alone;
* `Graph.withoutComments_sameShape`    a graph has the shape of itself without comments.
-/

namespace TypedVocabulary
open Relation

/-! ## the relations -/

/-- the same class, its parents perhaps in another order -/
structure ClassDecl.Reordered (c d : ClassDecl) : Prop where
  name : c.name = d.name
  iri : c.iri = d.iri
  parents : c.parents.Perm d.parents
  properties : c.properties = d.properties
  comment : c.comment = d.comment

/-- the same property, its domains and ranges perhaps in another order -/
structure PropertyDecl.Reordered (p q : PropertyDecl) : Prop where
  name : p.name = q.name
  iri : p.iri = q.iri
  domains : p.domains.Perm q.domains
  ranges : p.ranges.Perm q.ranges
  comment : p.comment = q.comment

/-- the same terms, their edges perhaps in another order -/
structure Graph.Reordered (g h : Graph) : Prop where
  class? : ∀ n, Option.Rel ClassDecl.Reordered (g.class? n) (h.class? n)
  property? : ∀ n, Option.Rel PropertyDecl.Reordered (g.property? n) (h.property? n)

/-- the same edges and properties, the parents perhaps in another order -/
structure ClassDecl.SameEdges (c d : ClassDecl) : Prop where
  parents : c.parents.Perm d.parents
  properties : c.properties = d.properties

/-- the same ranges, perhaps in another order -/
structure PropertyDecl.SameEdges (p q : PropertyDecl) : Prop where
  ranges : p.ranges.Perm q.ranges

/-- the same terms, their edges perhaps in another order and their comments perhaps different -/
structure Graph.SameShape (g h : Graph) : Prop where
  class? : ∀ n, Option.Rel ClassDecl.SameEdges (g.class? n) (h.class? n)
  property? : ∀ n, Option.Rel PropertyDecl.SameEdges (g.property? n) (h.property? n)

theorem rel_cases {α : Type} {r : α → α → Prop} {x y : Option α} (h : Option.Rel r x y) :
    (x = none ∧ y = none) ∨ ∃ a b, x = some a ∧ y = some b ∧ r a b := by
  cases h with
  | none => exact Or.inl ⟨rfl, rfl⟩
  | some h => exact Or.inr ⟨_, _, rfl, rfl, h⟩

theorem isSome_eq_of_rel {α : Type} {r : α → α → Prop} {x y : Option α} (h : Option.Rel r x y) :
    x.isSome = y.isSome := by
  cases h <;> rfl

theorem rel_imp {α : Type} {r q : α → α → Prop} {x y : Option α} (h : Option.Rel r x y)
    (hrq : ∀ a b, r a b → q a b) : Option.Rel q x y := by
  cases h with
  | none => exact .none
  | some h => exact .some (hrq _ _ h)

theorem ClassDecl.Reordered.sameEdges {c d : ClassDecl} (h : c.Reordered d) : c.SameEdges d :=
  ⟨h.parents, h.properties⟩

theorem PropertyDecl.Reordered.sameEdges {p q : PropertyDecl} (h : p.Reordered q) :
    p.SameEdges q := ⟨h.ranges⟩

theorem Graph.Reordered.sameShape {g h : Graph} (hr : g.Reordered h) : g.SameShape h where
  class? n := rel_imp (hr.class? n) fun _ _ => ClassDecl.Reordered.sameEdges
  property? n := rel_imp (hr.property? n) fun _ _ => PropertyDecl.Reordered.sameEdges

/-! ## inheritance -/

namespace Graph.SameShape
variable {g h : Graph} {c p : String}

theorem isClass (hs : g.SameShape h) : g.isClass = h.isClass :=
  funext fun c => isSome_eq_of_rel (hs.class? c)

theorem classKeys (hs : g.SameShape h) : g.classes.keys = h.classes.keys :=
  NameMap.keys_congr fun c => isSome_eq_of_rel (hs.class? c)

theorem propertyKeys (hs : g.SameShape h) : g.properties.keys = h.properties.keys :=
  NameMap.keys_congr fun p => isSome_eq_of_rel (hs.property? p)

theorem resolvableParents (hs : g.SameShape h) :
    (g.resolvableParents c).Perm (h.resolvableParents c) := by
  unfold Graph.resolvableParents
  rw [hs.isClass]
  rcases rel_cases (hs.class? c) with ⟨hg, hh⟩ | ⟨a, b, hg, hh, hab⟩
  · rw [hg, hh]
  · rw [hg, hh]
    exact hab.parents.filter _

theorem hasParent (hs : g.SameShape h) : g.HasParent = h.HasParent := by
  funext a b
  exact propext (hs.resolvableParents.mem_iff)

theorem ancestors (hs : g.SameShape h) : g.ancestors c = h.ancestors c :=
  NameSet.ext fun a => by rw [mem_ancestors, mem_ancestors, hs.hasParent]

theorem properties_eq (hs : g.SameShape h) :
    (∃ d, g.class? c = some d ∧ p ∈ d.properties) ↔ ∃ d, h.class? c = some d ∧ p ∈ d.properties := by
  rcases rel_cases (hs.class? c) with ⟨hg, hh⟩ | ⟨a, b, hg, hh, hab⟩
  · rw [hg, hh]
  · simp only [hg, hh, Option.some.injEq, exists_eq_left', hab.properties]

/-- **Effective properties do not depend on the order of edges, nor on comments.** -/
theorem effectiveProperties (hs : g.SameShape h) :
    g.effectiveProperties c = h.effectiveProperties c := by
  refine NameSet.ext fun p => ?_
  rw [mem_effectiveProperties, mem_effectiveProperties, hs.hasParent]
  simp only [exists_and_left, hs.properties_eq]

/-- **The order of classes does not depend on the order of edges, nor on comments.** -/
theorem linearize (hs : g.SameShape h) : g.linearize = h.linearize :=
  linearize_congr hs.classKeys hs.hasParent

end Graph.SameShape

/-! ## without comments -/

def ClassDecl.withoutComment (c : ClassDecl) : ClassDecl := { c with comment := none }

def PropertyDecl.withoutComment (p : PropertyDecl) : PropertyDecl := { p with comment := none }

def Graph.withoutComments (g : Graph) : Graph :=
  ⟨g.classes.map ClassDecl.withoutComment, g.properties.map PropertyDecl.withoutComment⟩

namespace Graph
variable (g : Graph)

theorem class?_withoutComments (n : String) :
    g.withoutComments.class? n = (g.class? n).map ClassDecl.withoutComment :=
  NameMap.get?_map _ g.classes n

theorem property?_withoutComments (n : String) :
    g.withoutComments.property? n = (g.property? n).map PropertyDecl.withoutComment :=
  NameMap.get?_map _ g.properties n

theorem withoutComments_sameShape : g.withoutComments.SameShape g where
  class? n := by
    rw [class?_withoutComments]
    cases g.class? n with
    | none => exact .none
    | some c => exact .some ⟨.refl _, rfl⟩
  property? n := by
    rw [property?_withoutComments]
    cases g.property? n with
    | none => exact .none
    | some p => exact .some ⟨.refl _⟩

end Graph

end TypedVocabulary
