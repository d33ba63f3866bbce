import Mathlib.Data.List.Flatten
import Mathlib.Data.List.Perm.Subperm
import Mathlib.Logic.Function.Iterate
import TypedVocabulary.Proofs.Graph.Reachability

/-!
# Searching with a set of seen names

Ancestors can also be collected with a stack and the set of the names seen so far.  A name that comes
off the stack is passed over where it is the start of the search or was seen before; any other name is
seen now, and its parents go on the stack, the last one on top.

* `Search.turn`               one turn of this loop;
* `Graph.Searching.turn`      what a turn keeps: nothing but what the start leads to is seen or waits,
                              and what the start and the seen names lead to directly is not lost;
* `Graph.length_stack`        how many names wait after a number of turns;
* `Graph.ancestors_reached`   the loop ends, after as many turns as names were put on the stack, and has
                              seen the ancestors.

Neither the stack nor the set of seen names measures the loop: the stack may hold a name many times,
and the start is passed over without being seen.  What every turn lowers by one is the difference of
the names put on the stack, for which the ancestors account, and the turns made.
-/

namespace TypedVocabulary
open Relation

/-! ## the loop -/

/-- the state of the search -/
structure Search where
  seen : NameSet
  /-- the names that wait, the next one first -/
  stack : List String
deriving DecidableEq

/-- takes a name off the stack, unless it is empty -/
def Search.turn (parents : String → List String) (start : String) (s : Search) : Search :=
  match s.stack with
  | [] => s
  | x :: stack =>
    if x = start ∨ x ∈ s.seen then ⟨s.seen, stack⟩
    else ⟨s.seen.insert x, (parents x).reverse ++ stack⟩

section
variable {parents : String → List String} {start x : String} {seen : NameSet} {stack : List String}

theorem Search.turn_pass (h : x = start ∨ x ∈ seen) :
    Search.turn parents start ⟨seen, x :: stack⟩ = ⟨seen, stack⟩ := if_pos h

theorem Search.turn_see (h : ¬ (x = start ∨ x ∈ seen)) :
    Search.turn parents start ⟨seen, x :: stack⟩ =
      ⟨seen.insert x, (parents x).reverse ++ stack⟩ := if_neg h

end

theorem insertName_perm {x : String} {ys : List String} (h : x ∉ ys) :
    (insertName x ys).Perm (x :: ys) := by
  induction ys with
  | nil => exact List.Perm.refl _
  | cons y ys ih =>
    have hy : x ≠ y := fun e => h (e ▸ List.mem_cons_self ..)
    rw [insertName, if_neg hy]
    split
    · exact List.Perm.refl _
    · exact ((ih fun hx => h (List.mem_cons_of_mem _ hx)).cons y).trans (List.Perm.swap x y ys)

/-! ## the search on a graph -/

namespace Graph

/-- the search for the ancestors of `name` at its start -/
def search (g : Graph) (name : String) : Search := ⟨∅, (g.resolvableParents name).reverse⟩

/-- the search after `n` turns -/
def searchAfter (g : Graph) (name : String) (n : Nat) : Search :=
  (Search.turn g.resolvableParents name)^[n] (g.search name)

/-- the names that are put on the stack until all of `seen` are seen -/
def stacked (g : Graph) (name : String) (seen : NameSet) : List String :=
  g.resolvableParents name ++ seen.toList.flatMap g.resolvableParents

/-- what every turn keeps -/
structure Searching (g : Graph) (name : String) (s : Search) : Prop where
  seen : ∀ a ∈ s.seen, a ≠ name ∧ TransGen g.HasParent name a
  waiting : ∀ a ∈ s.stack, TransGen g.HasParent name a
  /-- a step from the start or a seen name leads to the start, to a seen name or to one that waits -/
  closed : ∀ a b, a = name ∨ a ∈ s.seen → g.HasParent a b → b = name ∨ b ∈ s.seen ∨ b ∈ s.stack

section
variable {g : Graph} {name a x : String} {seen : NameSet} {stack : List String} {s : Search}

theorem searching_start (g : Graph) (name : String) : g.Searching name (g.search name) where
  seen a ha := absurd ha (NameSet.not_mem_empty a)
  waiting a ha := TransGen.single (List.mem_reverse.mp ha)
  closed a b ha hb := by
    rcases ha with rfl | ha
    · exact Or.inr (Or.inr (List.mem_reverse.mpr hb))
    · exact absurd ha (NameSet.not_mem_empty a)

theorem Searching.pass (h : g.Searching name ⟨seen, x :: stack⟩) (hx : x = name ∨ x ∈ seen) :
    g.Searching name ⟨seen, stack⟩ := by
  refine ⟨h.seen, fun a ha => h.waiting a (List.mem_cons_of_mem _ ha), fun a b ha hb => ?_⟩
  rcases h.closed a b ha hb with hb | hb | hb
  · exact Or.inl hb
  · exact Or.inr (Or.inl hb)
  · rcases List.mem_cons.mp hb with rfl | hb
    · rw [← or_assoc]
      exact Or.inl hx
    · exact Or.inr (Or.inr hb)

theorem Searching.see (h : g.Searching name ⟨seen, x :: stack⟩) (hx : x ≠ name) :
    g.Searching name ⟨seen.insert x, (g.resolvableParents x).reverse ++ stack⟩ := by
  have hled : TransGen g.HasParent name x := h.waiting x (List.mem_cons_self ..)
  refine ⟨fun a ha => ?_, fun a ha => ?_, fun a b ha hb => ?_⟩
  · rcases NameSet.mem_insert.mp ha with rfl | ha
    · exact ⟨hx, hled⟩
    · exact h.seen a ha
  · rcases List.mem_append.mp ha with ha | ha
    · exact hled.tail (List.mem_reverse.mp ha)
    · exact h.waiting a (List.mem_cons_of_mem _ ha)
  · show b = name ∨ b ∈ seen.insert x ∨ b ∈ (g.resolvableParents x).reverse ++ stack
    rw [NameSet.mem_insert, List.mem_append, List.mem_reverse]
    -- the parents of the name that is seen now are those that are put on the stack now
    by_cases e : a = x
    · exact Or.inr (Or.inr (Or.inl (e ▸ hb)))
    · have ha : a = name ∨ a ∈ seen :=
        ha.imp_right fun ha => (NameSet.mem_insert.mp ha).resolve_left e
      rcases h.closed a b ha hb with hb | hb | hb
      · exact Or.inl hb
      · exact Or.inr (Or.inl (Or.inr hb))
      · rcases List.mem_cons.mp hb with rfl | hb
        · exact Or.inr (Or.inl (Or.inl rfl))
        · exact Or.inr (Or.inr (Or.inr hb))

theorem Searching.turn (h : g.Searching name s) :
    g.Searching name (s.turn g.resolvableParents name) := by
  obtain ⟨seen, stack⟩ := s
  cases stack with
  | nil => exact h
  | cons x stack =>
    by_cases hx : x = name ∨ x ∈ seen
    · rw [Search.turn_pass hx]
      exact h.pass hx
    · rw [Search.turn_see hx]
      exact h.see fun e => hx (Or.inl e)

theorem searchAfter_succ (g : Graph) (name : String) (n : Nat) : g.searchAfter name (n + 1) =
    (g.searchAfter name n).turn g.resolvableParents name :=
  Function.iterate_succ_apply' ..

theorem searching_after (g : Graph) (name : String) (n : Nat) :
    g.Searching name (g.searchAfter name n) := by
  induction n with
  | zero => exact g.searching_start name
  | succ n ih =>
    rw [searchAfter_succ]
    exact ih.turn

/-! ## what the search finds -/

theorem Searching.subset (h : g.Searching name s) (ha : a ∈ s.seen) : a ∈ g.ancestors name :=
  mem_ancestors.mpr (h.seen a ha)

/-- once nothing waits, no step leads out of the seen names -/
theorem Searching.seen_eq (h : g.Searching name s) (hs : s.stack = []) :
    s.seen = g.ancestors name := by
  refine NameSet.ext fun a => ⟨h.subset, fun ha => ?_⟩
  have hstep : ∀ a b, a = name ∨ a ∈ s.seen → g.HasParent a b → b = name ∨ b ∈ s.seen := by
    intro a b ha hb
    have hb' := h.closed a b ha hb
    rw [hs] at hb'
    exact hb'.imp_right fun hb' => hb'.resolve_right (List.not_mem_nil)
  obtain ⟨hne, hled⟩ := mem_ancestors.mp ha
  have hreached : ∀ b, TransGen g.HasParent name b → b = name ∨ b ∈ s.seen := by
    intro b hb
    induction hb with
    | single hb => exact hstep name _ (Or.inl rfl) hb
    | tail _ hb ih => exact hstep _ _ ih hb
  exact (hreached a hled).resolve_left hne

/-! ## how long it takes -/

theorem length_stacked_insert (ha : a ∉ seen) :
    (g.stacked name (seen.insert a)).length =
      (g.stacked name seen).length + (g.resolvableParents a).length := by
  have hperm : (seen.insert a).toList.Perm (a :: seen.toList) := insertName_perm ha
  have hlength := (hperm.flatMap_right g.resolvableParents).length_eq
  rw [List.flatMap_cons, List.length_append] at hlength
  unfold stacked
  rw [List.length_append, List.length_append, hlength]
  omega

theorem length_stacked_le (h : ∀ a ∈ seen, a ∈ g.ancestors name) :
    (g.stacked name seen).length ≤ (g.stacked name (g.ancestors name)).length := by
  have hsubset : seen.toList ⊆ (g.ancestors name).toList := h
  obtain ⟨found, hperm, hsub⟩ := seen.toList_nodup.subperm hsubset
  have hle := (hsub.flatMap g.resolvableParents).length_le
  rw [(hperm.flatMap_right g.resolvableParents).length_eq] at hle
  unfold stacked
  rw [List.length_append, List.length_append]
  omega

/-- **As many names wait as were put on the stack and not taken off.** -/
theorem length_stack (g : Graph) (name : String) (n : Nat) : (g.searchAfter name n).stack.length =
    (g.stacked name (g.searchAfter name n).seen).length - n := by
  induction n with
  | zero =>
    show (g.resolvableParents name).reverse.length = (g.resolvableParents name ++ []).length - 0
    rw [List.length_reverse, List.append_nil, Nat.sub_zero]
  | succ n ih =>
    rw [searchAfter_succ]
    generalize g.searchAfter name n = s at ih
    obtain ⟨seen, stack⟩ := s
    cases stack with
    | nil =>
      change 0 = (g.stacked name seen).length - n at ih
      show 0 = (g.stacked name seen).length - (n + 1)
      omega
    | cons x stack =>
      change stack.length + 1 = (g.stacked name seen).length - n at ih
      by_cases hx : x = name ∨ x ∈ seen
      · rw [Search.turn_pass hx]
        show stack.length = (g.stacked name seen).length - (n + 1)
        omega
      · rw [Search.turn_see hx]
        show ((g.resolvableParents x).reverse ++ stack).length =
          (g.stacked name (seen.insert x)).length - (n + 1)
        rw [List.length_append, List.length_reverse,
          length_stacked_insert fun h => hx (Or.inr h)]
        omega

/-- **The loop ends, and has seen the ancestors.**  Its stack is empty from the turn on that takes off
the last of the names put on it, the parents of the start and of every ancestor.  What it has seen
then are the declared classes, other than the start, that one or more edges lead to; there are none
where the start is not declared. -/
theorem ancestors_reached (g : Graph) (name : String) :
    let turns := (g.stacked name (g.ancestors name)).length
    (∀ n, (g.searchAfter name n).stack = [] ↔ turns ≤ n) ∧
    (∀ n, turns ≤ n → g.searchAfter name n = ⟨g.ancestors name, []⟩) ∧
    (∀ a, a ∈ g.ancestors name ↔
      g.isClass a = true ∧ a ≠ name ∧ TransGen g.HasParent name a) ∧
    (g.isClass name = false → g.ancestors name = ∅) := by
  intro turns
  have hends : ∀ n, (g.searchAfter name n).stack = [] ↔ turns ≤ n := by
    intro n
    have hn := g.length_stack name n
    have hle : (g.stacked name (g.searchAfter name n).seen).length ≤ turns :=
      length_stacked_le fun _ => (g.searching_after name n).subset
    constructor
    · intro h
      rw [h, (g.searching_after name n).seen_eq h, List.length_nil] at hn
      omega
    · intro h
      apply List.eq_nil_of_length_eq_zero
      omega
  refine ⟨hends, fun n hn => ?_, fun a => ?_, fun hname => ?_⟩
  · have hstack := (hends n).mpr hn
    rw [← (g.searching_after name n).seen_eq hstack, ← hstack]
  · rw [mem_ancestors]
    refine ⟨fun h => ⟨?_, h⟩, And.right⟩
    obtain ⟨_, _, hb⟩ := TransGen.tail'_iff.mp h.2
    exact hb.isClass_right
  · refine NameSet.ext fun a => ⟨fun ha => ?_, fun ha => absurd ha (NameSet.not_mem_empty a)⟩
    obtain ⟨_, hb, _⟩ := TransGen.head'_iff.mp (mem_ancestors.mp ha).2
    rw [hb.isClass_left] at hname
    cases hname

end

end Graph

end TypedVocabulary
