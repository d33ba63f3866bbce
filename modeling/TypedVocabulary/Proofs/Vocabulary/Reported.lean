import TypedVocabulary.Report
import TypedVocabulary.Proofs.Graph.Leftover
import TypedVocabulary.Proofs.Vocabulary.Fields

/-!
# What a report accounts for

Compilation refuses no statement about the terms of a vocabulary.  A subclass statement that does not come
out as an `extends` clause, and a property that comes out as a field of no class, are in the report.

* `Vocabulary.danglingParents_eq`         the parents that are listed as undeclared, and in which order;
* `Vocabulary.mem_unattachedProperties`   the properties that are listed as unattached;
* `Vocabulary.onCycle_of_left_out`        a declared parent that is left out shares a cycle with the
                                          class, so both of them are listed as unresolved;
* `Vocabulary.absorbed_reported`          every subclass statement and every property is accounted for.
-/

namespace TypedVocabulary
open Relation

/-- one of three statements holds, and the others do not -/
def ExactlyOne (a b c : Prop) : Prop := a ∧ ¬ b ∧ ¬ c ∨ ¬ a ∧ b ∧ ¬ c ∨ ¬ a ∧ ¬ b ∧ c

/-- the parents of a class that are not declared, in the order in which they are listed -/
def Graph.undeclaredParents (g : Graph) (name : String) : List String :=
  match g.class? name with
  | some c => c.parents.filter fun parent => !g.isClass parent
  | none => []

theorem Graph.mem_undeclaredParents {g : Graph} {c q : String} : q ∈ g.undeclaredParents c ↔
    (∃ k, g.class? c = some k ∧ q ∈ k.parents) ∧ ¬ g.isClass q = true := by
  unfold Graph.undeclaredParents
  cases g.class? c <;> simp

namespace Vocabulary

/-- the class `q` is declared, and the declaration of `c` does not name it -/
def LeavesOut (v : Vocabulary) (c q : String) : Prop := v.graph.isClass q = true ∧ ¬ v.Extends c q

/-! ## the lists of a report -/

section
variable {settings : Settings} {g : Graph} {c p q : String}

/-- a report lists the undeclared parents class by class, in the order of names -/
theorem danglingParents_eq (hk : g.KeyedByName) : (ofGraph settings g).report.danglingParents =
    g.classes.keys.flatMap fun c => (g.undeclaredParents c).map (c, ·) := by
  show g.classes.values.flatMap _ = _
  unfold NameMap.values NameMap.keys
  rw [List.flatMap_map, List.flatMap_map]
  refine List.flatMap_congr fun e he => ?_
  have hget : g.class? e.1 = some e.2 := NameMap.mem_entries_iff.mp he
  have hname : e.2.name = e.1 := hk.className e.1 e.2 hget
  unfold Graph.undeclaredParents
  rw [hget, hname]
  rfl

/-- **Undeclared parents are listed with their classes, and nothing else is.** -/
theorem mem_danglingParents (hk : g.KeyedByName) :
    (c, q) ∈ (ofGraph settings g).report.danglingParents ↔
      (∃ k, g.class? c = some k ∧ q ∈ k.parents) ∧ ¬ g.isClass q = true := by
  rw [danglingParents_eq hk, List.mem_flatMap]
  constructor
  · rintro ⟨n, _, h⟩
    obtain ⟨_, hq, e⟩ := List.mem_map.mp h
    cases e
    exact Graph.mem_undeclaredParents.mp hq
  · intro h
    obtain ⟨k, hc, _⟩ := h.1
    refine ⟨c, NameMap.mem_keys_iff.mpr ⟨k, hc⟩, List.mem_map.mpr ⟨q, ?_, rfl⟩⟩
    exact Graph.mem_undeclaredParents.mpr h

/-- **Properties without a declared domain are listed, and no others.** -/
theorem mem_unattachedProperties (hk : g.KeyedByName) :
    p ∈ (ofGraph settings g).report.unattachedProperties ↔
      ∃ d, g.property? p = some d ∧ ∀ c ∈ d.domains, ¬ g.isClass c = true := by
  show p ∈ (g.properties.values.filter _).map _ ↔ _
  simp only [List.mem_map, List.mem_filter, NameMap.mem_values, Bool.not_eq_true',
    List.any_eq_false]
  constructor
  · rintro ⟨d, ⟨⟨n, hn⟩, hfree⟩, rfl⟩
    have hname : d.name = n := hk.propertyName n d hn
    exact ⟨d, hname ▸ hn, hfree⟩
  · rintro ⟨d, hp, hfree⟩
    exact ⟨d, ⟨⟨p, hp⟩, hfree⟩, hk.propertyName p d hp⟩

/-! ## parents that are left out -/

/-- **A parent that is left out shares a cycle with the class.** -/
theorem onCycle_of_left_out (h : g.HasParent c q) (hout : ¬ (ofGraph settings g).Extends c q) :
    TransGen g.HasParent c c ∧ TransGen g.HasParent q q := by
  by_cases e : q = c
  · subst e
    exact ⟨.single h, .single h⟩
  · have hback : c ∈ g.ancestors q := by
      by_contra hnot
      exact hout (mem_extendable.mpr ⟨h, e, Or.inr hnot⟩)
    have hqc : TransGen g.HasParent q c := (Graph.mem_ancestors.mp hback).2
    exact ⟨.head h hqc, hqc.tail h⟩

theorem unresolved_of_left_out (h : g.HasParent c q)
    (hout : ¬ (ofGraph settings g).Extends c q) :
    c ∈ (ofGraph settings g).report.unresolvedClasses ∧
      q ∈ (ofGraph settings g).report.unresolvedClasses := by
  obtain ⟨hc, hq⟩ := onCycle_of_left_out h hout
  exact ⟨Graph.mem_unresolved_iff.mpr ⟨c, .refl, hc⟩, Graph.mem_unresolved_iff.mpr ⟨q, .refl, hq⟩⟩

end

/-! ## statements -/

section
variable {settings : Settings} {ts : List Triple} {c p q : String}

/-- a subclass statement about a declared class enters a parent -/
theorem mem_parents_extract {d : Dialect} (hc : StatesClass ts d c) (hq : q ≠ "")
    (h : ⟨d.iri c, d.subclassOf, d.iri q⟩ ∈ ts) :
    ∃ k, (Extraction.extract (.ofTriples ts) d).class? c = some k ∧ q ∈ k.parents := by
  refine ⟨_, class?_extract_iff.mpr ⟨hc, rfl⟩, mem_addNew.mpr (Or.inr ?_)⟩
  exact Dialect.mem_localNames.mpr ⟨Source.mem_objects.mpr h, hq⟩

/-- a declared superclass is kept or left out, one that is not declared is listed as dangling -/
theorem subclass_accounted (hc : StatesClass ts settings.dialect c) (hq : q ≠ "")
    (h : ⟨settings.dialect.iri c, settings.dialect.subclassOf, settings.dialect.iri q⟩ ∈ ts) :
    let v := ofSource settings (.ofTriples ts)
    ExactlyOne (v.Extends c q) ((c, q) ∈ v.report.danglingParents) (v.LeavesOut c q) := by
  intro v
  have hk : v.graph.KeyedByName := Extraction.extract_keyedByName _ _
  have hdangling : (c, q) ∈ v.report.danglingParents ↔ ¬ v.graph.isClass q = true := by
    refine (mem_danglingParents hk).trans (and_iff_right ?_)
    exact mem_parents_extract hc hq h
  have hkept : v.Extends c q → v.graph.isClass q = true := fun hx =>
    (Extends.hasParent hx).isClass_right
  unfold ExactlyOne LeavesOut
  rw [hdangling]
  by_cases hx : v.Extends c q
  · exact Or.inl ⟨hx, not_not.mpr (hkept hx), fun hout => hout.2 hx⟩
  · by_cases hdecl : v.graph.isClass q = true
    · exact Or.inr (Or.inr ⟨hx, not_not.mpr hdecl, hdecl, hx⟩)
    · exact Or.inr (Or.inl ⟨hx, hdecl, fun hout => hdecl hout.1⟩)

/-- a property is listed as unattached when no class has it -/
theorem unattached_iff (hp : StatesProperty ts settings.dialect p) :
    let v := ofSource settings (.ofTriples ts)
    p ∈ v.report.unattachedProperties ↔
      ∀ c, v.graph.isClass c = true → p ∉ v.graph.effectiveProperties c := by
  intro v
  have hk : v.graph.KeyedByName := Extraction.extract_keyedByName _ _
  have hread : v.graph.property? p = some (Extraction.propertyRead (.ofTriples ts) settings.dialect p) :=
    Extraction.property?_extract.trans (if_pos (declared_ofTriples.mpr hp))
  have hdomains : ∀ k, StatesClass ts settings.dialect k →
      (k ∈ (Extraction.propertyRead (.ofTriples ts) settings.dialect p).domains ↔
        StatesDomain ts settings.dialect p k) := by
    intro k hdecl
    unfold Extraction.propertyRead StatesDomain
    rw [mem_addNew, Dialect.mem_localNames, Source.mem_objects, and_iff_right hdecl,
      and_iff_left hdecl.1]
    exact or_iff_right List.not_mem_nil
  refine (mem_unattachedProperties hk).trans ?_
  constructor
  · rintro ⟨d, hd, hfree⟩ c - hmem
    obtain ⟨_, k, _, hdom⟩ := mem_effectiveProperties_extract.mp hmem
    cases hread.symm.trans hd
    exact hfree k ((hdomains k hdom.1).mpr hdom) (isClass_extract_iff.mpr hdom.1)
  · intro hnone
    refine ⟨_, hread, fun k hk hclass => hnone k hclass ?_⟩
    -- a declared domain has the property itself
    have hdom := (hdomains k (isClass_extract_iff.mp hclass)).mp hk
    exact mem_effectiveProperties_extract.mpr ⟨hp, k, .refl, hdom⟩

/-- **Nothing that compilation absorbs goes unreported.**  A superclass that a statement gives a declared
class is named by the declaration of the class, or listed as dangling, or declared and left out, and
only one of these; in the last case both classes are listed as unresolved.  And the unattached
properties are those that no class has. -/
theorem absorbed_reported (settings : Settings) (ts : List Triple) :
    let v := ofSource settings (.ofTriples ts)
    let d := settings.dialect
    (∀ c q, StatesClass ts d c → q ≠ "" → ⟨d.iri c, d.subclassOf, d.iri q⟩ ∈ ts →
      ExactlyOne (v.Extends c q) ((c, q) ∈ v.report.danglingParents) (v.LeavesOut c q) ∧
      (v.LeavesOut c q → c ∈ v.report.unresolvedClasses ∧ q ∈ v.report.unresolvedClasses)) ∧
    ∀ p, StatesProperty ts d p → (p ∈ v.report.unattachedProperties ↔
      ∀ c, v.graph.isClass c = true → p ∉ v.graph.effectiveProperties c) := by
  refine ⟨fun c q hc hq h => ⟨subclass_accounted hc hq h, fun hout => ?_⟩,
    fun p hp => unattached_iff hp⟩
  have hparent : (Extraction.extract (.ofTriples ts) settings.dialect).HasParent c q :=
    hasParent_extract.mpr ⟨hc, isClass_extract_iff.mp hout.1, h⟩
  exact unresolved_of_left_out hparent hout.2

end

theorem absorbed_reported_twoCycle :
    let v := ofSource .schemaOrg (.ofTriples twoCycle)
    v.LeavesOut "Cat" "Dog" ∧
      "Cat" ∈ v.report.unresolvedClasses ∧ "Dog" ∈ v.report.unresolvedClasses := by
  intro v
  have hcat : StatesClass twoCycle .schemaOrg "Cat" := by decide +kernel
  have hdog : StatesClass twoCycle .schemaOrg "Dog" := by decide +kernel
  have hback : v.graph.HasParent "Dog" "Cat" :=
    hasParent_extract.mpr ⟨hdog, hcat, by decide +kernel⟩
  have hout : v.LeavesOut "Cat" "Dog" := by
    refine ⟨isClass_extract_iff.mpr hdog, fun h => ?_⟩
    -- the way back from the dog to the cat does not end earlier
    have hbefore : v.placedBefore "Dog" "Cat" = true := Extends.placedBefore h (.single hback)
    exact absurd hbefore (by decide +kernel)
  have h := (absorbed_reported .schemaOrg twoCycle).1 "Cat" "Dog" hcat (by decide) (by decide +kernel)
  exact ⟨hout, h.2 hout⟩

/-- the same statements, and a property without a domain -/
example :
    let d := Dialect.schemaOrg
    let r := (ofSource .schemaOrg
      (.ofTriples (⟨d.iri "floats", d.typePredicate, d.propertyType⟩ :: twoCycle))).report
    r.unresolvedClasses = ["Cat", "Dog"] ∧ r.danglingParents = [("Dog", "Wolf")] ∧
      r.unattachedProperties = ["floats"] := by
  decide +kernel

end Vocabulary

end TypedVocabulary
