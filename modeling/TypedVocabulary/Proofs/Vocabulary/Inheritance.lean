import TypedVocabulary.Proofs.Output.Lines
import TypedVocabulary.Proofs.Vocabulary.Fields

/-!
# Inherited fields

An interface restates all fields of the interfaces that it extends, line by line, so no `extends` clause
takes in a field that is missing or has another type:

* `Graph.effectiveProperties_of_hasParent`   a class has the properties of its parents;
* `Vocabulary.fields_of_hasParent`           and the fields of its parents;
* `Vocabulary.eq_of_mem_fields`              a field is the same in every class that has it;
* `Vocabulary.child_restates_parent`         the same of the interfaces that are declared.

A class on a cycle is not among its own ancestors, so the ancestors of a parent need not be ancestors of
the child.  What the child leads to in any number of steps, none included, does take in what the parent
leads to, and the properties of a class are those of all classes that it leads to in that sense.
-/

namespace TypedVocabulary
open Relation

theorem Graph.effectiveProperties_of_hasParent {g : Graph} {c p q : String} (h : g.HasParent c p)
    (hq : q ∈ g.effectiveProperties p) : q ∈ g.effectiveProperties c := by
  obtain ⟨a, k, hpath, ha, hk⟩ := mem_effectiveProperties.mp hq
  exact mem_effectiveProperties.mpr ⟨a, k, .head h hpath, ha, hk⟩

namespace Vocabulary

/-! ## fields -/

section
variable {v : Vocabulary} {c p : String} {f f' : Field}

theorem mem_fields : f ∈ v.fields c ↔
    ∃ q ∈ v.graph.effectiveProperties c, ∃ k, v.graph.property? q = some k ∧ v.field k = f := by
  unfold fields
  simp only [List.mem_map, List.mem_filterMap, NameSet.mem_toList]
  constructor
  · rintro ⟨k, ⟨q, hq, hk⟩, hf⟩
    exact ⟨q, hq, k, hk, hf⟩
  · rintro ⟨q, hq, k, hk, hf⟩
    exact ⟨k, ⟨q, hq, hk⟩, hf⟩

theorem fields_of_hasParent (h : v.graph.HasParent c p) (hf : f ∈ v.fields p) :
    f ∈ v.fields c := by
  obtain ⟨q, hq, k, hk, rfl⟩ := mem_fields.mp hf
  exact mem_fields.mpr ⟨q, Graph.effectiveProperties_of_hasParent h hq, k, hk, rfl⟩

theorem property?_key (hk : v.graph.KeyedByName) (hf : f ∈ v.fields c) :
    (v.graph.property? f.key).map v.field = some f := by
  obtain ⟨q, _, k, hq, rfl⟩ := mem_fields.mp hf
  -- the field was found under `q` and is called after `k`, which keeps its key
  have hkey : (v.field k).key = q := hk.propertyName q k hq
  rw [hkey, hq, Option.map_some]

/-- **A field is the same in every class that has it.** -/
theorem eq_of_mem_fields (hk : v.graph.KeyedByName) (hf : f ∈ v.fields c) (hf' : f' ∈ v.fields p)
    (e : f.key = f'.key) : f = f' := by
  have h := property?_key hk hf
  rw [e, property?_key hk hf'] at h
  exact (Option.some.inj h).symm

end

/-! ## interfaces -/

section
variable {settings : Settings} {g : Graph} {d : Declarations} {c p s : String}

theorem fieldLines_of_extends {v : Vocabulary} {i j : Interface} (hd : v.declarations = .ok d)
    (hi : i ∈ d.interfaces) (hj : j ∈ d.interfaces)
    (h : v.graph.HasParent i.className j.className) :
    (∀ f ∈ j.fields, f ∈ i.fields) ∧ ∀ l ∈ j.fieldLines, l ∈ i.fieldLines := by
  have hfields : ∀ f ∈ j.fields, f ∈ i.fields := by
    rw [(interface_spec hd hi).2.2, (interface_spec hd hj).2.2]
    exact fun f => fields_of_hasParent h
  refine ⟨hfields, fun l hl => ?_⟩
  obtain ⟨f, hf, rfl⟩ := List.mem_map.mp hl
  exact List.mem_map.mpr ⟨f, hfields f hf, rfl⟩

theorem exists_extended (hk : g.KeyedByName) (hd : (ofGraph settings g).declarations = .ok d)
    {i : Interface} (hi : i ∈ d.interfaces) (hs : s ∈ i.supertypes) :
    s = d.baseName ∨ ∃ j ∈ d.interfaces, j.name = s ∧
      (ofGraph settings g).Extends i.className j.className := by
  obtain ⟨_, ⟨parents, hparents, hsup⟩, _⟩ := interface_spec hd hi
  obtain ⟨_, _, _, rfl⟩ := declarations_eq_ok_iff.mp hd
  rw [hsup] at hs
  rcases List.mem_cons.mp hs with e | hs
  · exact Or.inl e
  · obtain ⟨p, hp, hps⟩ := forall₂_mem_right hparents hs
    have hclass : g.isClass p = true := (Extends.hasParent hp).isClass_right
    obtain ⟨j, hj, rfl, _⟩ := exists_interface hk hd hclass
    have hname : some j.name = some s := (interface_spec hd hj).1.symm.trans hps
    exact Or.inr ⟨j, hj, Option.some.inj hname, hp⟩

theorem mem_supertypes_of_extends {v : Vocabulary} (hd : v.declarations = .ok d) {i j : Interface}
    (hi : i ∈ d.interfaces) (hj : j ∈ d.interfaces) (h : v.Extends i.className j.className) :
    j.name ∈ i.supertypes := by
  obtain ⟨_, ⟨parents, hparents, hsup⟩, _⟩ := interface_spec hd hi
  obtain ⟨n, hn, hname⟩ := forall₂_mem_right hparents.flip h
  have e : some j.name = some n := (interface_spec hd hj).1.symm.trans hname
  rw [hsup, Option.some.inj e]
  exact List.mem_cons_of_mem _ hn

/-- **An interface restates the fields of its parents.**  In a graph that keeps its terms under their
names, a class has all properties of every parent that its declaration names.  When declarations are
built, each of the two has one interface; that of the class extends that of the parent and is written
with every line in which the parent declares a field.  Fields with one key have one type in all
interfaces; and what an interface extends is the base, which declares no property, or an interface whose
fields it all has. -/
theorem child_restates_parent (settings : Settings) (g : Graph) (hk : g.KeyedByName) :
    (∀ c p, (ofGraph settings g).Extends c p →
      ∀ q ∈ g.effectiveProperties p, q ∈ g.effectiveProperties c) ∧
    ∀ text, Generator.typescript.generate (ofGraph settings g) = .ok text →
      ∃ d, (ofGraph settings g).declarations = .ok d ∧ text = unlines d.lines ∧
        (∀ c p, (ofGraph settings g).Extends c p → ∃ i j,
          d.interfaces.filter (·.className = c) = [i] ∧
          d.interfaces.filter (·.className = p) = [j] ∧
          j.name ∈ i.supertypes ∧ ∀ l ∈ j.fieldLines, l ∈ i.fieldLines ∧ l ∈ i.lines) ∧
        (∀ i ∈ d.interfaces, ∀ j ∈ d.interfaces, ∀ f ∈ i.fields, ∀ f' ∈ j.fields,
          f.key = f'.key → f.type = f'.type) ∧
        ∀ i ∈ d.interfaces, ∀ s ∈ i.supertypes, s = d.baseName ∨
          ∃ j ∈ d.interfaces, j.name = s ∧ ∀ f ∈ j.fields, f ∈ i.fields := by
  refine ⟨fun c p h q => Graph.effectiveProperties_of_hasParent h.hasParent, fun text htext => ?_⟩
  obtain ⟨d, hd, hlines⟩ := Generator.typescript_generate_eq_ok_iff.mp htext
  refine ⟨d, hd, hlines, fun c p h => ?_, fun i hi j hj f hf f' hf' e => ?_, fun i hi s hs => ?_⟩
  · obtain ⟨i, hi, rfl, hone⟩ := exists_interface hk hd h.hasParent.isClass_left
    obtain ⟨j, hj, rfl, hone'⟩ := exists_interface hk hd h.hasParent.isClass_right
    refine ⟨i, j, hone, hone', mem_supertypes_of_extends hd hi hj h, fun l hl => ?_⟩
    have hline := (fieldLines_of_extends hd hi hj h.hasParent).2 l hl
    exact ⟨hline, i.fieldLines_subset hline⟩
  · rw [(interface_spec hd hi).2.2] at hf
    rw [(interface_spec hd hj).2.2] at hf'
    rw [eq_of_mem_fields hk hf hf' e]
  · rcases exists_extended hk hd hi hs with e | ⟨j, hj, hname, h⟩
    · exact Or.inl e
    · exact Or.inr ⟨j, hj, hname, (fieldLines_of_extends hd hi hj h.hasParent).1⟩

end

/-- the dog of the cycle extends the cat, and purrs as it does -/
theorem child_restates_parent_twoCycle :
    ∃ d i, (ofSource .schemaOrg (.ofTriples twoCycle)).declarations = .ok d ∧
      d.interfaces.filter (·.className = "Dog") = [i] ∧
      "  \"purrs\"?: unknown;" ∈ i.lines := by
  have hk := Extraction.extract_keyedByName (.ofTriples twoCycle) .schemaOrg
  have hkept : "Cat" ∈ (ofSource .schemaOrg (.ofTriples twoCycle)).extendable "Dog" := by
    decide +kernel
  have hline : ((ofSource .schemaOrg (.ofTriples twoCycle)).graph.property? "purrs").map
      (fun k => ((ofSource .schemaOrg (.ofTriples twoCycle)).field k).line) =
        some "  \"purrs\"?: unknown;" := by
    decide +kernel
  have hpurrs : "purrs" ∈
      (ofSource .schemaOrg (.ofTriples twoCycle)).graph.effectiveProperties "Cat" :=
    mem_effectiveProperties_extract.mpr
      ⟨by decide +kernel, "Cat", .refl, by decide +kernel, by decide +kernel⟩
  obtain ⟨text, htext⟩ := generate_isOk .schemaOrg hk rfl
  obtain ⟨d, hd, _, hrestated, _⟩ := (child_restates_parent .schemaOrg _ hk).2 _ htext
  obtain ⟨i, j, hi, hj, _, hlines⟩ := hrestated "Dog" "Cat" hkept
  obtain ⟨k, hprop, hl⟩ := Option.map_eq_some_iff.mp hline
  have hmem : j ∈ d.interfaces.filter (·.className = "Cat") := hj ▸ List.mem_singleton.mpr rfl
  obtain ⟨hmem, hname⟩ := List.mem_filter.mp hmem
  have hfields := (interface_spec hd hmem).2.2
  rw [of_decide_eq_true hname] at hfields
  refine ⟨d, i, hd, hi, (hlines _ (List.mem_map.mpr ⟨_, ?_, hl⟩)).2⟩
  rw [hfields]
  exact mem_fields.mpr ⟨"purrs", hpurrs, k, hprop, rfl⟩

end Vocabulary

end TypedVocabulary
