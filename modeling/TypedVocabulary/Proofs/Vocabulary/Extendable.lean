import TypedVocabulary.Proofs.Graph.Precedence
import TypedVocabulary.Proofs.Vocabulary.Hierarchy

/-!
# Parents by their names

Which parents a declaration names is decided by places in the order of classes, and said here without them:

* `Vocabulary.placedBefore_of_mutual`   classes that lead to each other stand in the order of their names;
* `Vocabulary.mem_extendable_iff_names`   a parent is left out when it leads back to the class and has
                                        the greater name;
* `Vocabulary.extendable_by_names`      the whole list, on graphs with cycles and without.

Both ends of an edge that can be closed to a cycle are left over, and what is left over is in the order of
names.  A parent that does not lead back is kept at any place, so no other place has to be known.
-/

namespace TypedVocabulary
open Relation

namespace Vocabulary
variable {settings : Settings} {g : Graph} {c p : String}

/-- **Two classes that lead to each other stand in the order of their names.** -/
theorem placedBefore_of_mutual (hpc : TransGen g.HasParent p c) (hcp : TransGen g.HasParent c p) :
    (ofGraph settings g).placedBefore p c = true ↔ p < c := by
  have hp : p ∈ g.linearize.unresolved := Graph.mem_unresolved_iff.mpr ⟨p, .refl, hpc.trans hcp⟩
  have hc : c ∈ g.linearize.unresolved := Graph.mem_unresolved_iff.mpr ⟨c, .refl, hcp.trans hpc⟩
  exact placedBefore_iff.trans (Graph.before_of_unresolved_iff hp hc)

/-- **A parent is left out exactly when it leads back to the class and has the greater name.** -/
theorem mem_extendable_iff_names : p ∈ (ofGraph settings g).extendable c ↔
    g.HasParent c p ∧ p ≠ c ∧ ¬ (c ∈ g.ancestors p ∧ c < p) := by
  rw [mem_extendable]
  refine and_congr_right fun h => and_congr_right fun hne => ?_
  by_cases hback : c ∈ g.ancestors p
  · have hpc : TransGen g.HasParent p c := (Graph.mem_ancestors.mp hback).2
    rw [placedBefore_of_mutual hpc (.single h)]
    constructor
    · rintro (hlt | hout) ⟨-, hgt⟩
      · exact String.lt_asymm hlt hgt
      · exact hout hback
    · intro hnot
      exact Or.inl (lt_of_not_lt_of_ne (fun hgt => hnot ⟨hback, hgt⟩) hne.symm)
  · constructor
    · rintro - ⟨hin, -⟩
      exact hback hin
    · intro _
      exact Or.inr hback

theorem mem_extendable_of_acyclic (h : ∀ a, ¬ TransGen g.HasParent a a) :
    p ∈ (ofGraph settings g).extendable c ↔ g.HasParent c p := by
  rw [mem_extendable_iff_names]
  refine and_iff_left_of_imp fun hcp => ⟨?_, ?_⟩
  · rintro rfl
    exact h _ (.single hcp)
  · rintro ⟨hback, -⟩
    exact h _ (.head hcp (Graph.mem_ancestors.mp hback).2)

theorem mem_extendable_of_mutual (h : g.HasParent c p) (hback : TransGen g.HasParent p c) :
    p ∈ (ofGraph settings g).extendable c ↔ p < c := by
  rw [mem_extendable_iff_names]
  constructor
  · rintro ⟨-, hne, hnot⟩
    have hin : c ∈ g.ancestors p := Graph.mem_ancestors.mpr ⟨hne.symm, hback⟩
    exact lt_of_not_lt_of_ne (fun hgt => hnot ⟨hin, hgt⟩) hne.symm
  · intro hlt
    refine ⟨h, ?_, fun hgt => String.lt_asymm hlt hgt.2⟩
    rintro rfl
    exact String.lt_irrefl _ hlt

/-- **The parents that a declaration names.**  They are listed in code point order, each once: the declared
parents other than the class itself, without those that have the class among their ancestors and a
greater name.  Where no class leads back to itself all declared parents are named, and of the edges on
a cycle exactly those to a smaller name. -/
theorem extendable_by_names (settings : Settings) (g : Graph) (c : String) :
    let named := (ofGraph settings g).extendable c
    named.toList.Pairwise (· < ·) ∧
      (∀ p, p ∈ named.toList ↔ g.HasParent c p ∧ p ≠ c ∧ ¬ (c ∈ g.ancestors p ∧ c < p)) ∧
      ((∀ a, ¬ TransGen g.HasParent a a) → ∀ p, p ∈ named.toList ↔ g.HasParent c p) ∧
      ∀ p, g.HasParent c p → TransGen g.HasParent p c → (p ∈ named.toList ↔ p < c) := by
  intro named
  refine ⟨named.increasing, fun p => mem_extendable_iff_names, fun h p => ?_, fun p hp hback => ?_⟩
  · exact mem_extendable_of_acyclic h
  · exact mem_extendable_of_mutual hp hback

/-- of the two edges between a class to the left and one to the right, that to the left is kept -/
example :
    let v := ofGraph .schemaOrg Graph.tangled
    "Left" ∈ v.extendable "Right" ∧ "Right" ∉ v.extendable "Left" := by
  have hlr : "Right" ∈ Graph.tangled.resolvableParents "Left" := by decide +kernel
  have hrl : "Left" ∈ Graph.tangled.resolvableParents "Right" := by decide +kernel
  refine ⟨(mem_extendable_of_mutual hrl (.single hlr)).mpr (by decide), fun h => ?_⟩
  have hlt : "Right" < "Left" := (mem_extendable_of_mutual hlr (.single hrl)).mp h
  exact absurd hlt (by decide)

end Vocabulary

end TypedVocabulary
