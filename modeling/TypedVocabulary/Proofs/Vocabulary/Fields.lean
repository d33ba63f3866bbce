import TypedVocabulary.Proofs.Extraction.Statements
import TypedVocabulary.Proofs.Vocabulary.Interfaces

/-!
# The fields of a class

What the fields of a class are can be said in terms of statements alone: they are the declared properties
with a domain among the classes that subclass statements lead to, the class itself included.

* `StatesSubclass`, `StatesDomain`     what single statements say about declared terms;
* `hasParent_extract`                  following parents is following subclass statements;
* `mem_effectiveProperties_extract`    which properties a class has;
* `Vocabulary.class_fields`            which fields its interface has.

Statements about terms of other namespaces, about names that are never declared, and repeated statements
say nothing more; and a cycle of subclasses makes its members share all their properties.
-/

namespace TypedVocabulary
open Relation

/-! ## what statements say -/

section
variable (ts : List Triple) (d : Dialect)

/-- a statement puts the class `a` below the class `b`, and both are declared -/
def StatesSubclass (a b : String) : Prop :=
  StatesClass ts d a ∧ StatesClass ts d b ∧ ⟨d.iri a, d.subclassOf, d.iri b⟩ ∈ ts

/-- a statement names the class `c` as a domain of the property `p`, and the class is declared -/
def StatesDomain (p c : String) : Prop :=
  StatesClass ts d c ∧ ⟨d.iri p, d.domainIncludes, d.iri c⟩ ∈ ts

end

/-! ## properties -/

section
variable {ts : List Triple} {d : Dialect} {a b c n p : String}

/-- **Following parents is following subclass statements.** -/
theorem hasParent_extract :
    (Extraction.extract (.ofTriples ts) d).HasParent a b ↔ StatesSubclass ts d a b := by
  rw [Graph.hasParent_iff, isClass_extract_iff]
  constructor
  · rintro ⟨k, hk, hb, hdecl⟩
    obtain ⟨ha, rfl⟩ := class?_extract_iff.mp hk
    rcases mem_addNew.mp hb with hb | hb
    · exact absurd hb (List.not_mem_nil)
    · exact ⟨ha, hdecl, Source.mem_objects.mp (Dialect.mem_localNames.mp hb).1⟩
  · rintro ⟨ha, hb, h⟩
    refine ⟨_, class?_extract_iff.mpr ⟨ha, rfl⟩, mem_addNew.mpr (Or.inr ?_), hb⟩
    exact Dialect.mem_localNames.mpr ⟨Source.mem_objects.mpr h, hb.1⟩

/-- **A class has the properties with a domain among the classes that it is below.** -/
theorem mem_effectiveProperties_extract :
    p ∈ (Extraction.extract (.ofTriples ts) d).effectiveProperties c ↔
      StatesProperty ts d p ∧
        ∃ k, ReflTransGen (StatesSubclass ts d) c k ∧ StatesDomain ts d p k := by
  have hsteps : (Extraction.extract (.ofTriples ts) d).HasParent = StatesSubclass ts d := by
    funext a b
    exact propext hasParent_extract
  rw [Graph.mem_effectiveProperties, hsteps]
  constructor
  · rintro ⟨k, _, hpath, hk, hp⟩
    obtain ⟨hdecl, rfl⟩ := class?_extract_iff.mp hk
    obtain ⟨hprop, _, hdom⟩ := Extraction.mem_propertiesAt_extract.mp hp
    exact ⟨declared_ofTriples.mp hprop, k, hpath, hdecl, Source.mem_objects.mp hdom⟩
  · rintro ⟨hprop, k, hpath, hdecl, hdom⟩
    refine ⟨k, _, hpath, class?_extract_iff.mpr ⟨hdecl, rfl⟩, ?_⟩
    exact Extraction.mem_propertiesAt_extract.mpr
      ⟨declared_ofTriples.mpr hprop, hdecl.1, Source.mem_objects.mpr hdom⟩

end

/-! ## fields -/

namespace Vocabulary

section
variable {settings : Settings} {ts : List Triple} {c : String}

/-- every property of a class has a field -/
theorem map_key_fields : ((ofSource settings (.ofTriples ts)).fields c).map Field.key =
    ((ofSource settings (.ofTriples ts)).graph.effectiveProperties c).toList := by
  unfold fields
  rw [List.map_map]
  refine map_filterMap_eq fun p hp => ?_
  have hprop := (mem_effectiveProperties_extract.mp (NameSet.mem_toList.mp hp)).1
  obtain ⟨q, hq⟩ := Option.isSome_iff_exists.mp (isSome_property?_extract.mpr hprop)
  exact ⟨q, hq, (Extraction.extract_keyedByName _ _).propertyName p q hq⟩

/-- **The fields of a class are the properties of all classes that statements put it below**, its own
among them, each once and in name order.  That is so on any statements: with cycles and diamonds of
subclasses, and with superclasses and domains that are foreign, undeclared or repeated. -/
theorem class_fields (settings : Settings) (ts : List Triple) (c : String)
    (hc : (ofSource settings (.ofTriples ts)).graph.isClass c = true) :
    (∀ k, (ofSource settings (.ofTriples ts)).graph.isClass k = true ↔
      StatesClass ts settings.dialect k) ∧
    (∀ p, ((ofSource settings (.ofTriples ts)).graph.property? p).isSome ↔
      StatesProperty ts settings.dialect p) ∧
    ((ofSource settings (.ofTriples ts)).graph.effectiveProperties c).toList.Pairwise (· < ·) ∧
    (∀ p, p ∈ (ofSource settings (.ofTriples ts)).graph.effectiveProperties c ↔
      StatesProperty ts settings.dialect p ∧
        ∃ k, ReflTransGen (StatesSubclass ts settings.dialect) c k ∧
          StatesDomain ts settings.dialect p k) ∧
    ∀ d, (ofSource settings (.ofTriples ts)).declarations = .ok d →
      ∃ i, d.interfaces.filter (·.className = c) = [i] ∧
        i.fields.map Field.key =
          ((ofSource settings (.ofTriples ts)).graph.effectiveProperties c).toList := by
  refine ⟨fun k => isClass_extract_iff, fun p => isSome_property?_extract, NameSet.increasing _,
    fun p => mem_effectiveProperties_extract, fun d hd => ?_⟩
  obtain ⟨i, hi, rfl, hfilter⟩ := exists_interface (Extraction.extract_keyedByName _ _) hd hc
  refine ⟨i, hfilter, ?_⟩
  rw [(interface_spec hd hi).2.2]
  exact map_key_fields

end

/-- two classes below each other, one of them also below a class that is not declared -/
def twoCycle : List Triple :=
  let d := Dialect.schemaOrg
  [⟨d.iri "Cat", d.typePredicate, d.classType⟩, ⟨d.iri "Dog", d.typePredicate, d.classType⟩,
    ⟨d.iri "Cat", d.subclassOf, d.iri "Dog"⟩, ⟨d.iri "Dog", d.subclassOf, d.iri "Cat"⟩,
    ⟨d.iri "Dog", d.subclassOf, d.iri "Wolf"⟩,
    ⟨d.iri "purrs", d.typePredicate, d.propertyType⟩,
    ⟨d.iri "barks", d.typePredicate, d.propertyType⟩,
    ⟨d.iri "purrs", d.domainIncludes, d.iri "Cat"⟩,
    ⟨d.iri "barks", d.domainIncludes, d.iri "Dog"⟩]

theorem class_fields_twoCycle :
    ∃ d, (ofSource .schemaOrg (.ofTriples twoCycle)).declarations = .ok d ∧
      ∃ i, d.interfaces.filter (·.className = "Cat") = [i] ∧
        "purrs" ∈ i.fields.map Field.key ∧ "barks" ∈ i.fields.map Field.key := by
  have hc : (ofSource .schemaOrg (.ofTriples twoCycle)).graph.isClass "Cat" = true := by
    decide +kernel
  have hcat : StatesClass twoCycle .schemaOrg "Cat" := by decide +kernel
  have hdog : StatesClass twoCycle .schemaOrg "Dog" := by decide +kernel
  obtain ⟨_, _, _, hmem, hfields⟩ := class_fields .schemaOrg twoCycle "Cat" hc
  obtain ⟨d, hd⟩ := declarations_isOk .schemaOrg
    (Extraction.extract_keyedByName (.ofTriples twoCycle) .schemaOrg) rfl
  obtain ⟨i, hi, hkeys⟩ := hfields d hd
  refine ⟨d, hd, i, hi, ?_, ?_⟩
  · rw [hkeys]
    exact (hmem "purrs").mpr ⟨by decide +kernel, "Cat", .refl, hcat, by decide +kernel⟩
  · rw [hkeys]
    exact (hmem "barks").mpr ⟨by decide +kernel, "Dog",
      .single ⟨hcat, hdog, by decide +kernel⟩, hdog, by decide +kernel⟩

end Vocabulary

end TypedVocabulary
