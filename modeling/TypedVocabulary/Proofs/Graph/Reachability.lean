import Mathlib.Logic.Relation
import TypedVocabulary.Graph.Ancestors
import TypedVocabulary.Proofs.Names.Lookups

/-!
# What following parents leads to

`HasParent g` is the edge relation that inheritance follows: from a declared class to a parent that is
declared as well.  The depth-first search of `Graph.ancestors` is exact for it:

* `mem_collect`              the search finds what the stack leads to without leaving `fresh`;
* `Graph.mem_ancestors`      the ancestors of a class are the other classes that one or more edges
                             lead to;
* `Graph.mem_effectiveProperties`   a class has the properties of all classes that it leads to in any
                             number of steps, its own among them also where it lies on a cycle.

A path inside `fresh` may visit the class that is struck off next; `last_visit` cuts it behind the
last such visit, and what is left stays inside the shorter list.
-/

namespace TypedVocabulary
open Relation

/-! ## the search -/

section
variable (next : String → List String)

/-- a step of the search that stays among the names in `fresh` -/
def StepsWithin (fresh : List String) (a b : String) : Prop := b ∈ next a ∧ b ∈ fresh

variable {next} {fresh : List String} {x z y : String}

theorem StepsWithin.of_erase (h : ReflTransGen (StepsWithin next (fresh.erase x)) z y) :
    ReflTransGen (StepsWithin next fresh) z y :=
  ReflTransGen.mono (fun _ _ hs => ⟨hs.1, List.mem_of_mem_erase hs.2⟩) _ _ h

/-- a path ends at `x`, never visits `x`, or leaves `x` for a last time -/
theorem last_visit (hz : z ∈ fresh)
    (h : ReflTransGen (StepsWithin next fresh) z y) :
    y = x ∨ (z ∈ fresh.erase x ∧ ReflTransGen (StepsWithin next (fresh.erase x)) z y) ∨
      ∃ w ∈ next x, w ∈ fresh.erase x ∧ ReflTransGen (StepsWithin next (fresh.erase x)) w y := by
  induction h with
  | refl =>
    by_cases e : z = x
    · exact Or.inl e
    · exact Or.inr (Or.inl ⟨(List.mem_erase_of_ne e).mpr hz, .refl⟩)
  | @tail b c _ hs ih =>
    by_cases e : c = x
    · exact Or.inl e
    · have hc : c ∈ fresh.erase x := (List.mem_erase_of_ne e).mpr hs.2
      rcases ih with rfl | ⟨hz', hp⟩ | ⟨w, hw, hw', hp⟩
      · exact Or.inr (Or.inr ⟨c, hs.1, hc, .refl⟩)
      · exact Or.inr (Or.inl ⟨hz', hp.tail ⟨hs.1, hc⟩⟩)
      · exact Or.inr (Or.inr ⟨w, hw, hw', hp.tail ⟨hs.1, hc⟩⟩)

/-- the search finds what the names on the stack lead to among the fresh names -/
theorem mem_collect {stack : List String} (hf : fresh.Nodup) :
    y ∈ collect next fresh stack ↔
      ∃ z ∈ stack, z ∈ fresh ∧ ReflTransGen (StepsWithin next fresh) z y := by
  induction fresh, stack using collect.induct next with
  | case1 fresh => simp [collect]
  | case2 fresh x stack hx ih =>
    rw [collect, dif_pos hx, List.mem_cons, ih (hf.erase x)]
    constructor
    · rintro (rfl | ⟨z, hz, hz', hp⟩)
      · exact ⟨y, List.mem_cons_self .., hx, .refl⟩
      · rcases List.mem_append.mp hz with hz | hz
        · have hzf := List.mem_of_mem_erase hz'
          exact ⟨x, List.mem_cons_self .., hx, .head ⟨hz, hzf⟩ (StepsWithin.of_erase hp)⟩
        · exact ⟨z, List.mem_cons_of_mem _ hz, List.mem_of_mem_erase hz', StepsWithin.of_erase hp⟩
    · rintro ⟨z, hz, hz', hp⟩
      -- a path through `x` is taken up behind its last visit, by a name that `x` puts on the stack
      rcases last_visit hz' hp with e | ⟨hzx, hp⟩ | ⟨w, hw, hw', hp⟩
      · exact Or.inl e
      · have hne : z ≠ x := fun e => hf.not_mem_erase (e ▸ hzx)
        have hzs := (List.mem_cons.mp hz).resolve_left hne
        exact Or.inr ⟨z, List.mem_append_right _ hzs, hzx, hp⟩
      · exact Or.inr ⟨w, List.mem_append_left _ hw, hw', hp⟩
  | case3 fresh x stack hx ih =>
    rw [collect, dif_neg hx, ih hf]
    constructor
    · rintro ⟨z, hz, h⟩
      exact ⟨z, List.mem_cons_of_mem _ hz, h⟩
    · rintro ⟨z, hz, hz', hp⟩
      rcases List.mem_cons.mp hz with rfl | hz
      · exact absurd hz' hx
      · exact ⟨z, hz, hz', hp⟩

end

/-! ## ancestors -/

namespace Graph

/-- `b` is a declared parent of the declared class `a` -/
def HasParent (g : Graph) (a b : String) : Prop := b ∈ g.resolvableParents a

section
variable {g : Graph} {a b c p : String}

theorem hasParent_iff : g.HasParent a b ↔
    ∃ d, g.class? a = some d ∧ b ∈ d.parents ∧ g.isClass b = true := by
  unfold HasParent resolvableParents
  cases g.class? a <;> simp

theorem HasParent.isClass_left (h : g.HasParent a b) : g.isClass a = true := by
  obtain ⟨d, hd, _⟩ := hasParent_iff.mp h
  show (g.class? a).isSome = true
  rw [hd]; rfl

theorem HasParent.isClass_right (h : g.HasParent a b) : g.isClass b = true := by
  obtain ⟨_, _, _, hb⟩ := hasParent_iff.mp h
  exact hb

/-- **The ancestors of a class are the other classes that one or more edges lead to.** -/
theorem mem_ancestors : a ∈ g.ancestors c ↔ a ≠ c ∧ TransGen g.HasParent c a := by
  unfold ancestors
  rw [NameSet.mem_ofList, mem_collect (g.classes.keys_nodup.erase c)]
  constructor
  · rintro ⟨z, hz, hz', hp⟩
    have ha : a ∈ g.classes.keys.erase c := by
      rcases ReflTransGen.cases_tail hp with rfl | ⟨_, _, hs⟩
      · exact hz'
      · exact hs.2
    refine ⟨fun e => g.classes.keys_nodup.not_mem_erase (e ▸ ha), ?_⟩
    exact TransGen.head' hz (ReflTransGen.mono (fun _ _ hs => hs.1) _ _ hp)
  · rintro ⟨hne, hp⟩
    induction hp with
    | single hs =>
      have ha := isClass_iff.mp (HasParent.isClass_right hs)
      exact ⟨_, hs, (List.mem_erase_of_ne hne).mpr ha, .refl⟩
    | @tail b a _ hs ih =>
      have ha := (List.mem_erase_of_ne hne).mpr (isClass_iff.mp (HasParent.isClass_right hs))
      -- where the path comes back to `c`, its last step alone leads to `a`
      by_cases e : b = c
      · exact ⟨a, e ▸ hs, ha, .refl⟩
      · obtain ⟨z, hz, hz', hp⟩ := ih e
        exact ⟨z, hz, hz', hp.tail ⟨hs, ha⟩⟩

/-! ## effective properties -/

/-- a fold whose steps each add what `added` says adds it for every name -/
theorem mem_foldl_of_step {f : NameSet → String → NameSet} {added : String → Prop}
    (hf : ∀ s a, p ∈ f s a ↔ p ∈ s ∨ added a) (names : List String) (s : NameSet) :
    p ∈ names.foldl f s ↔ p ∈ s ∨ ∃ a ∈ names, added a := by
  induction names generalizing s with
  | nil => simp
  | cons a names ih => rw [List.foldl_cons, ih, hf]; simp [or_assoc]

/-- **A class has the properties of every class that its parents lead to, its own included.** -/
theorem mem_effectiveProperties : p ∈ g.effectiveProperties c ↔
    ∃ a d, ReflTransGen g.HasParent c a ∧ g.class? a = some d ∧ p ∈ d.properties := by
  unfold effectiveProperties
  cases hc : g.class? c with
  | none =>
    refine ⟨fun h => absurd h (NameSet.not_mem_empty p), ?_⟩
    rintro ⟨a, d, hp, ha, _⟩
    rcases ReflTransGen.cases_head hp with rfl | ⟨b, hs, _⟩
    · rw [hc] at ha; cases ha
    · obtain ⟨d', hd', _⟩ := hasParent_iff.mp hs
      rw [hc] at hd'; cases hd'
  | some d =>
    show p ∈ (g.ancestors c).toList.foldl _ d.properties ↔ _
    rw [mem_foldl_of_step fun s a =>
      show _ ↔ p ∈ s ∨ ∃ d, g.class? a = some d ∧ p ∈ d.properties by cases g.class? a <;> simp]
    simp only [NameSet.mem_toList, mem_ancestors]
    constructor
    · rintro (h | ⟨a, ⟨_, hp⟩, d', hd', h⟩)
      · exact ⟨c, d, .refl, hc, h⟩
      · exact ⟨a, d', hp.to_reflTransGen, hd', h⟩
    · rintro ⟨a, d', hp, hd', h⟩
      by_cases e : a = c
      · subst e
        rw [hc] at hd'
        cases hd'
        exact Or.inl h
      · rcases reflTransGen_iff_eq_or_transGen.mp hp with e' | hp
        · exact absurd e' e
        · exact Or.inr ⟨a, ⟨e, hp⟩, d', hd', h⟩

end

end Graph

end TypedVocabulary
