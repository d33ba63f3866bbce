import Mathlib.Data.Fintype.Pigeonhole
import TypedVocabulary.Proofs.Graph.Placing

/-!
# What is left over

Classes that are never placed are exactly those on a cycle of parents or below one.

* `exists_cycle`                  a finite set in which every member has a successor holds a cycle;
* `Graph.OnOrBelowCycle`          following parents leads to a class that leads back to itself;
* `Graph.mem_unresolved_iff`      such classes, and no others, are left over;
* `Graph.linearize_topological`   the leftover in code point order at the end, and in front of it every
                                  class behind its parents.

A class that is left over misses a parent, and that parent is left over too: the leftover holds a cycle
above each of its members.  A placed class stands behind its parents, so following parents from it only
leads forward to the front and never returns.
-/

namespace TypedVocabulary
open Relation

/-! ## cycles of finite sets -/

section
variable {r : String → String → Prop} {xs : List String} {x : String}

/-- a walk that takes `next` at every member follows the relation -/
theorem reflTransGen_iterate {next : {x // x ∈ xs} → {x // x ∈ xs}}
    (hnext : ∀ a, r a.1 (next a).1) (a : {x // x ∈ xs}) (n : Nat) :
    ReflTransGen r a.1 (next^[n] a).1 := by
  induction n with
  | zero => exact .refl
  | succ n ih =>
    rw [Function.iterate_succ_apply']
    exact ih.tail (hnext _)

/-- **Where every member of a finite set leads to a member, each leads to a cycle.** -/
theorem exists_cycle (h : ∀ x ∈ xs, ∃ y ∈ xs, r x y) (hx : x ∈ xs) :
    ∃ d, ReflTransGen r x d ∧ TransGen r d d := by
  choose next hmem hnext using h
  let step : {x // x ∈ xs} → {x // x ∈ xs} := fun a => ⟨next a.1 a.2, hmem a.1 a.2⟩
  have hstep : ∀ a, r a.1 (step a).1 := fun a => hnext a.1 a.2
  -- the walk from `x` cannot visit new members for ever
  obtain ⟨i, j, hne, heq⟩ :=
    Finite.exists_ne_map_eq_of_infinite fun n : Nat => step^[n] ⟨x, hx⟩
  wlog hij : i < j generalizing i j
  · exact this j i hne.symm heq.symm (by omega)
  refine ⟨(step^[i] ⟨x, hx⟩).1, reflTransGen_iterate hstep ⟨x, hx⟩ i, ?_⟩
  have hsplit : j = (j - i - 1) + 1 + i := by omega
  have hback : step^[j - i - 1] (step (step^[i] ⟨x, hx⟩)) = step^[i] ⟨x, hx⟩ := by
    rw [← Function.iterate_succ_apply, ← Function.iterate_add_apply, ← hsplit]
    exact heq.symm
  have hwalk := reflTransGen_iterate hstep (step (step^[i] ⟨x, hx⟩)) (j - i - 1)
  rw [hback] at hwalk
  exact .head' (hstep _) hwalk

end

namespace Graph

/-- following parents from the class, in no step or in some, leads to a class that leads back to itself -/
def OnOrBelowCycle (g : Graph) (c : String) : Prop :=
  ∃ d, ReflTransGen g.HasParent c d ∧ TransGen g.HasParent d d

/-! ## placed classes -/

section
variable {g : Graph} {c d p : String}

theorem placed_nodup (g : Graph) : g.placed.Nodup := by
  have h := g.placed_spec.1.nodup
  rwa [List.append_nil] at h

/-- a placed class splits the order behind all its parents -/
theorem exists_split_placed (hc : c ∈ g.placed) :
    ∃ front back, g.placed = front ++ c :: back ∧ ∀ p, g.HasParent c p → p ∈ front := by
  obtain ⟨front, back, e⟩ := List.append_of_mem hc
  exact ⟨front, back, e, missing_eq_zero.mp (g.placed_spec.1.ordered front c back e)⟩

theorem idxOf_placed_lt (hc : c ∈ g.placed) (h : g.HasParent c p) :
    g.placed.idxOf p < g.placed.idxOf c := by
  obtain ⟨front, back, e, hfront⟩ := exists_split_placed hc
  have hp : p ∈ front := hfront p h
  have hnot : c ∉ front := by
    have hn := g.placed_nodup
    rw [e, List.nodup_append] at hn
    exact fun hm => hn.2.2 c hm c (List.mem_cons_self ..) rfl
  have hlt : front.idxOf p < front.length := List.idxOf_lt_length_of_mem hp
  rw [e, List.idxOf_append_of_mem hp, List.idxOf_append_of_notMem hnot, List.idxOf_cons_self]
  omega

/-- following parents from a placed class leads to earlier places -/
theorem idxOf_placed_lt_of_transGen (hc : c ∈ g.placed) (h : TransGen g.HasParent c d) :
    d ∈ g.placed ∧ g.placed.idxOf d < g.placed.idxOf c := by
  induction h with
  | single hs => exact ⟨(mem_placed.mp hc).2 _ hs, idxOf_placed_lt hc hs⟩
  | tail _ hs ih =>
    have hlt := idxOf_placed_lt ih.1 hs
    exact ⟨(mem_placed.mp ih.1).2 _ hs, Nat.lt_trans hlt ih.2⟩

theorem not_onOrBelowCycle_of_placed (hc : c ∈ g.placed) : ¬ g.OnOrBelowCycle c := by
  rintro ⟨d, hcd, hdd⟩
  have hd : d ∈ g.placed := by
    rcases reflTransGen_iff_eq_or_transGen.mp hcd with rfl | hcd
    · exact hc
    · exact (idxOf_placed_lt_of_transGen hc hcd).1
  exact Nat.lt_irrefl _ (idxOf_placed_lt_of_transGen hd hdd).2

/-! ## the leftover -/

theorem exists_parent_unresolved (hc : c ∈ g.linearize.unresolved) :
    ∃ p ∈ g.linearize.unresolved, g.HasParent c p := by
  obtain ⟨hclass, hnot⟩ := mem_unresolved.mp hc
  have hmiss : ¬ ∀ p, g.HasParent c p → p ∈ g.placed := fun h => hnot (mem_placed.mpr ⟨hclass, h⟩)
  push Not at hmiss
  obtain ⟨p, hp, hout⟩ := hmiss
  exact ⟨p, mem_unresolved.mpr ⟨hp.isClass_right, hout⟩, hp⟩

theorem OnOrBelowCycle.isClass (h : g.OnOrBelowCycle c) : g.isClass c = true := by
  obtain ⟨d, hcd, hdd⟩ := h
  obtain ⟨p, hcp, _⟩ := TransGen.head'_iff.mp (TransGen.trans_right hcd hdd)
  exact hcp.isClass_left

/-- **What is left over lies on a cycle of parents or below one, and all that does is left over.** -/
theorem mem_unresolved_iff : c ∈ g.linearize.unresolved ↔ g.OnOrBelowCycle c := by
  constructor
  · exact exists_cycle fun x hx => exists_parent_unresolved hx
  · intro h
    refine mem_unresolved.mpr ⟨h.isClass, fun hc => ?_⟩
    exact not_onOrBelowCycle_of_placed hc h

theorem unresolved_increasing (g : Graph) : g.linearize.unresolved.Pairwise (· < ·) := by
  rw [unresolved_eq]
  exact g.classes.keys_increasing.filter _

theorem unresolved_suffix (g : Graph) : g.linearize.unresolved <:+ g.linearize.order :=
  ⟨g.placed, g.order_eq.symm⟩

end

end Graph

/-- the class `a` stands before the class `b` -/
def Linearization.Before (l : Linearization) (a b : String) : Prop :=
  ∃ i j, l.position? a = some i ∧ l.position? b = some j ∧ i < j

namespace Graph

/-- a placed class has the same place in the whole order -/
theorem position?_of_placed {g : Graph} {c : String} (hc : c ∈ g.placed) :
    g.linearize.position? c = some (g.placed.idxOf c) := by
  have hlt : g.placed.idxOf c < g.placed.length := List.idxOf_lt_length_of_mem hc
  rw [position?_eq_some_iff, order_eq, List.getElem?_append_left hlt, List.getElem?_idxOf hc]

theorem before_of_placed {g : Graph} {c p : String} (hc : c ∈ g.placed) (h : g.HasParent c p) :
    g.linearize.Before p c := by
  have hp : p ∈ g.placed := (mem_placed.mp hc).2 p h
  exact ⟨_, _, position?_of_placed hp, position?_of_placed hc, idxOf_placed_lt hc h⟩

/-- **The order is topological, and its leftover is exact.**  What is left over comes last, in code point
order, and consists of the classes on a cycle of parents or below one.  No other class has a parent
among them, and all parents of such a class stand before it. -/
theorem linearize_topological (g : Graph) :
    (∀ c, c ∈ g.linearize.unresolved ↔ g.isClass c = true ∧ g.OnOrBelowCycle c) ∧
      g.linearize.unresolved.Pairwise (· < ·) ∧
      g.linearize.unresolved <:+ g.linearize.order ∧
      ∀ c, g.isClass c = true → c ∉ g.linearize.unresolved → ∀ p, g.HasParent c p →
        p ∉ g.linearize.unresolved ∧ g.linearize.Before p c := by
  refine ⟨fun c => ?_, g.unresolved_increasing, g.unresolved_suffix, fun c hclass hc p hp => ?_⟩
  · rw [mem_unresolved_iff]
    exact (and_iff_right_of_imp OnOrBelowCycle.isClass).symm
  · have hplaced : c ∈ g.placed := by
      by_contra hnot
      exact hc (mem_unresolved.mpr ⟨hclass, hnot⟩)
    have hparent : p ∈ g.placed := (mem_placed.mp hplaced).2 p hp
    exact ⟨fun h => (mem_unresolved.mp h).2 hparent, before_of_placed hplaced hp⟩

/-- a class that lists a parent twice and one that is not declared, a cycle of two classes, a class below
it, and a class that is its own parent -/
def tangled : Graph :=
  let declare (name : String) (parents : List String) : String × ClassDecl :=
    (name, { ClassDecl.named name name with parents := parents })
  ⟨.ofList [declare "Thing" [], declare "Person" ["Thing", "Thing", "Wraith"],
    declare "Left" ["Right"], declare "Right" ["Left", "Thing"], declare "Below" ["Left", "Person"],
    declare "Self" ["Self"]], ∅⟩

example : tangled.linearize =
    ⟨["Thing", "Person", "Below", "Left", "Right", "Self"], ["Below", "Left", "Right", "Self"]⟩ := by
  decide +kernel

end Graph
end TypedVocabulary
