import TypedVocabulary.Proofs.Output.Keys
import TypedVocabulary.Proofs.Vocabulary.Fields
import TypedVocabulary.Proofs.Vocabulary.TypeNames

/-!
# The keys of an interface

Properties have different names, and so have their keys.  But names are taken as they are, also those that are
keys of every node already.

* `UnambiguousKeys`             no key twice, and no key of the base besides the type;
* `Vocabulary.unambiguous_iff`  the keys of a class are so when no property of it has a key of the base;
* `Vocabulary.interface_keys`   what statements have to leave out for all interfaces to be so.
-/

namespace TypedVocabulary
open Relation

/-- no key is declared twice, and behind the first one, the type, none of the base interface -/
def UnambiguousKeys (keys : List String) : Prop :=
  keys.Nodup ∧ ∀ k ∈ keys.tail, k ∉ baseKeys.map quote

theorem mem_map_quote {k : String} {ks : List String} : quote k ∈ ks.map quote ↔ k ∈ ks :=
  List.mem_map_of_injective fun _ _ => quote_injective

theorem unambiguousKeys_iff {ks : List String} (h : ks.Nodup) :
    UnambiguousKeys (quote "@type" :: ks.map quote) ↔ ∀ k ∈ baseKeys, k ∉ ks := by
  have hks : (ks.map quote).Nodup := h.map fun _ _ => quote_injective
  unfold UnambiguousKeys
  rw [List.nodup_cons, mem_map_quote, List.tail_cons, and_iff_left hks, List.forall_mem_map]
  simp only [mem_map_quote]
  constructor
  · rintro ⟨-, hdisjoint⟩ k hk hmem
    exact hdisjoint k hmem hk
  · intro hfree
    exact ⟨hfree "@type" (by decide), fun k hmem hk => hfree k hk hmem⟩

namespace Vocabulary

section
variable {settings : Settings} {ts : List Triple} {d : Declarations} {i : Interface}

/-- the keys of a class are the type and the properties -/
theorem keysOf_class (hd : (ofSource settings (.ofTriples ts)).declarations = .ok d)
    (hi : i ∈ d.interfaces) : keysOf i.name d.lines = quote "@type" ::
      ((ofSource settings (.ofTriples ts)).graph.effectiveProperties i.className).toList.map quote := by
  have hk := Extraction.extract_keyedByName (.ofTriples ts) settings.dialect
  have hname : isIdentifier i.name = true :=
    (interfaceNames_free hd (List.mem_cons_of_mem _ (List.mem_map_of_mem hi))).1
  rw [Declarations.keysOf_interface (declaredNames_nodup hk hd) hi hname, ← map_key_fields,
    (interface_spec hd hi).2.2, List.map_map]
  rfl

theorem unambiguous_iff (hd : (ofSource settings (.ofTriples ts)).declarations = .ok d)
    (hi : i ∈ d.interfaces) : UnambiguousKeys (keysOf i.name d.lines) ↔
      ∀ k ∈ baseKeys,
        k ∉ (ofSource settings (.ofTriples ts)).graph.effectiveProperties i.className := by
  rw [keysOf_class hd hi]
  exact unambiguousKeys_iff (NameSet.toList_nodup _)

/-- a property with a key of the base shows in the class that is its domain -/
theorem not_unambiguous {k c : String} (hk : k ∈ baseKeys)
    (hd : (ofSource settings (.ofTriples ts)).declarations = .ok d)
    (hprop : StatesProperty ts settings.dialect k) (hdom : StatesDomain ts settings.dialect k c) :
    ∃ i ∈ d.interfaces, i.className = c ∧ ¬ UnambiguousKeys (keysOf i.name d.lines) := by
  obtain ⟨i, hi, rfl, -⟩ := exists_interface (Extraction.extract_keyedByName _ _) hd
    (isClass_extract_iff.mpr hdom.1)
  refine ⟨i, hi, rfl, fun h => ?_⟩
  have hmem : k ∈ (ofSource settings (.ofTriples ts)).graph.effectiveProperties i.className :=
    mem_effectiveProperties_extract.mpr ⟨hprop, i.className, .refl, hdom⟩
  exact (unambiguous_iff hd hi).mp h k hk hmem

/-- **The keys of interfaces.**  The base interface has its three keys, and the interface of a class has the
type and, each once and in name order, the properties of the class.  Its keys are unambiguous exactly
when no property of the class is called like a key of the base, and those of all interfaces when no
statement gives a property of such a name a domain. -/
theorem interface_keys (settings : Settings) (ts : List Triple) (text : String)
    (htext : Generator.typescript.generate (ofSource settings (.ofTriples ts)) = .ok text) :
    let v := ofSource settings (.ofTriples ts)
    ∃ d, v.declarations = .ok d ∧ text = unlines d.lines ∧
      keysOf d.baseName d.lines = baseKeys.map quote ∧
      (∀ i ∈ d.interfaces,
        keysOf i.name d.lines =
          quote "@type" :: (v.graph.effectiveProperties i.className).toList.map quote ∧
        (keysOf i.name d.lines).tail.Nodup ∧
        (UnambiguousKeys (keysOf i.name d.lines) ↔
          ∀ k ∈ baseKeys, k ∉ v.graph.effectiveProperties i.className)) ∧
      ((∀ i ∈ d.interfaces, UnambiguousKeys (keysOf i.name d.lines)) ↔
        ∀ k ∈ baseKeys, StatesProperty ts settings.dialect k →
          ∀ c, ¬ StatesDomain ts settings.dialect k c) := by
  intro v
  obtain ⟨d, hd, hlines⟩ := Generator.typescript_generate_eq_ok_iff.mp htext
  have hbase : isIdentifier d.baseName = true := (interfaceNames_free hd (List.mem_cons_self ..)).1
  refine ⟨d, hd, hlines, Declarations.keysOf_base hbase,
    fun i hi => ⟨keysOf_class hd hi, ?_, unambiguous_iff hd hi⟩, ?_⟩
  · rw [keysOf_class hd hi]
    exact (NameSet.toList_nodup _).map fun _ _ => quote_injective
  · constructor
    · intro hall k hk hprop c hdom
      obtain ⟨i, hi, -, hnot⟩ := not_unambiguous hk hd hprop hdom
      exact hnot (hall i hi)
    · intro hnone i hi
      refine (unambiguous_iff hd hi).mpr fun k hk hmem => ?_
      obtain ⟨hprop, c, -, hdom⟩ := mem_effectiveProperties_extract.mp hmem
      exact hnone k hk hprop c hdom

theorem interface_keys_twoCycle :
    ∃ text, Generator.typescript.generate (ofSource .schemaOrg (.ofTriples twoCycle)) = .ok text ∧
      ∃ d : Declarations, text = unlines d.lines ∧
        ∀ i ∈ d.interfaces, UnambiguousKeys (keysOf i.name d.lines) := by
  have hnone : ∀ k ∈ baseKeys, ¬ StatesProperty twoCycle .schemaOrg k := by decide +kernel
  obtain ⟨text, htext⟩ := generate_isOk .schemaOrg
    (Extraction.extract_keyedByName (.ofTriples twoCycle) .schemaOrg) rfl
  obtain ⟨d, _, hlines, _, _, hall⟩ := interface_keys .schemaOrg twoCycle text htext
  exact ⟨text, htext, d, hlines, hall.mpr fun k hk hprop => absurd hprop (hnone k hk)⟩

/-- a class with a property that is called like the type -/
def typedThing : List Triple :=
  let d := Dialect.schemaOrg
  [⟨d.iri "Thing", d.typePredicate, d.classType⟩,
    ⟨d.iri "@type", d.typePredicate, d.propertyType⟩,
    ⟨d.iri "@type", d.domainIncludes, d.iri "Thing"⟩]

/-- its interface declares the type twice -/
theorem interface_keys_typedThing :
    ∃ d, (ofSource .schemaOrg (.ofTriples typedThing)).declarations = .ok d ∧
      Generator.typescript.generate (ofSource .schemaOrg (.ofTriples typedThing)) =
        .ok (unlines d.lines) ∧
      ∃ i ∈ d.interfaces, i.className = "Thing" ∧
        2 ≤ (keysOf i.name d.lines).count (quote "@type") ∧ ¬ (keysOf i.name d.lines).Nodup := by
  have hk := Extraction.extract_keyedByName (.ofTriples typedThing) .schemaOrg
  obtain ⟨d, hd⟩ := declarations_isOk .schemaOrg hk rfl
  have hthing : StatesClass typedThing .schemaOrg "Thing" := by decide +kernel
  have hprop : StatesProperty typedThing .schemaOrg "@type" := by decide +kernel
  have hdom : StatesDomain typedThing .schemaOrg "@type" "Thing" := ⟨hthing, by decide +kernel⟩
  obtain ⟨i, hi, hclass, -⟩ := exists_interface hk hd (isClass_extract_iff.mpr hthing)
  have hmem : quote "@type" ∈ ((ofSource .schemaOrg (.ofTriples typedThing)).graph.effectiveProperties
      i.className).toList.map quote := by
    rw [hclass]
    exact mem_map_quote.mpr (mem_effectiveProperties_extract.mpr ⟨hprop, "Thing", .refl, hdom⟩)
  have hcount : 2 ≤ (keysOf i.name d.lines).count (quote "@type") := by
    have hpos := List.count_pos_iff.mpr hmem
    rw [keysOf_class hd hi, List.count_cons_self]
    omega
  refine ⟨d, hd, Generator.typescript_generate_eq_ok_iff.mpr ⟨d, hd, rfl⟩, i, hi, hclass, hcount,
    fun hnodup => ?_⟩
  have := List.nodup_iff_count_le_one.mp hnodup (quote "@type")
  omega

end

end Vocabulary

end TypedVocabulary
