import TypedVocabulary.Proofs.Extraction
import TypedVocabulary.Proofs.Vocabulary.Shape

/-!
# The order of statements

A vocabulary is compiled from a set of statements: neither their order nor their repetition shows in any
output.

* `Extraction.extract_reordered`      sources with the same answers have graphs that differ at most
                                      in the order of edges;
* `Vocabulary.declarations_congr`, `Vocabulary.manifest_congr`   no output shows that order, and
                                      neither does a failure;
* `Vocabulary.statement_order_irrelevant`   both for lists of triples.
-/

namespace TypedVocabulary

/-! ## extraction -/

/-- the same answers, in any order and with any repetition -/
structure Source.Agree (s t : Source) : Prop where
  objects : ∀ subject predicate object,
    object ∈ s.objects subject predicate ↔ object ∈ t.objects subject predicate
  subjects : ∀ predicate object subject,
    subject ∈ s.subjects predicate object ↔ subject ∈ t.subjects predicate object

theorem Source.agree_ofTriples {ts us : List Triple} (h : ∀ t, t ∈ ts ↔ t ∈ us) :
    (ofTriples ts).Agree (ofTriples us) where
  objects _ _ _ := by rw [mem_objects, mem_objects, h]
  subjects _ _ _ := by rw [mem_subjects, mem_subjects, h]

namespace Extraction

section
variable {s t : Source} {d : Dialect} {n : String}

theorem declared_congr (h : s.Agree t) (kind n : String) :
    Declared s d kind n ↔ Declared t d kind n :=
  and_congr_right fun _ => h.subjects ..

theorem addNew_localNames_perm (h : s.Agree t) (subject predicate : String) :
    (addNew [] (d.localNames (s.objects subject predicate))).Perm
      (addNew [] (d.localNames (t.objects subject predicate))) := by
  rw [List.perm_ext_iff_of_nodup (addNew_nodup List.nodup_nil) (addNew_nodup List.nodup_nil)]
  intro z
  rw [mem_addNew, mem_addNew, Dialect.mem_localNames, Dialect.mem_localNames, h.objects]

theorem comment?_congr (h : s.Agree t) (iri : String) : comment? s d iri = comment? t d iri :=
  smallest?_congr fun c => by rw [List.mem_filter, List.mem_filter, h.objects]

theorem propertiesAt_congr (h : s.Agree t) (n : String) :
    (extract s d).propertiesAt n = (extract t d).propertiesAt n :=
  NameSet.ext fun p => by
    rw [mem_propertiesAt_extract, mem_propertiesAt_extract, declared_congr h, h.objects]

/-- **Sources with the same answers have the same graph, up to the order of edges.** -/
theorem extract_reordered (h : s.Agree t) : (extract s d).Reordered (extract t d) where
  class? n := by
    rw [class?_extract, class?_extract, propertiesAt_congr h]
    by_cases hd : Declared s d d.classType n
    · rw [if_pos hd, if_pos ((declared_congr h _ n).mp hd)]
      exact .some ⟨rfl, rfl, addNew_localNames_perm h _ _, rfl, comment?_congr h _⟩
    · rw [if_neg hd, if_neg fun hd' => hd ((declared_congr h _ n).mpr hd')]
      exact .none
  property? n := by
    rw [property?_extract, property?_extract]
    by_cases hd : Declared s d d.propertyType n
    · rw [if_pos hd, if_pos ((declared_congr h _ n).mp hd)]
      exact .some ⟨rfl, rfl, addNew_localNames_perm h _ _, addNew_localNames_perm h _ _,
        comment?_congr h _⟩
    · rw [if_neg hd, if_neg fun hd' => hd ((declared_congr h _ n).mpr hd')]
      exact .none

end

end Extraction

/-! ## outputs -/

namespace Vocabulary

section
variable {settings : Settings} {g h : Graph}

theorem orderedClasses_congr (hr : g.Reordered h) : List.Forall₂ ClassDecl.Reordered
    (ofGraph settings g).orderedClasses (ofGraph settings h).orderedClasses := by
  unfold orderedClasses
  rw [linearization_congr settings settings hr.sameShape]
  exact forall₂_filterMap hr.class? _

theorem properties_congr (hr : g.Reordered h) :
    List.Forall₂ PropertyDecl.Reordered g.properties.values h.properties.values := by
  rw [NameMap.values_eq, NameMap.values_eq, hr.sameShape.propertyKeys]
  exact forall₂_filterMap hr.property? _

/-! ## declarations -/

theorem field_congr (hr : g.Reordered h) {p q : PropertyDecl} (hpq : p.Reordered q) :
    (ofGraph settings g).field p = (ofGraph settings h).field q := by
  unfold field
  rw [fieldType_congr rfl rfl hr.sameShape hpq.sameEdges, hpq.name, hpq.comment]
  rfl

theorem fields_congr (hr : g.Reordered h) (c : String) :
    (ofGraph settings g).fields c = (ofGraph settings h).fields c := by
  unfold fields
  have he : (ofGraph settings g).graph.effectiveProperties c =
      (ofGraph settings h).graph.effectiveProperties c := hr.sameShape.effectiveProperties
  rw [he]
  exact map_congr_forall₂ (forall₂_filterMap hr.property? _) fun _ _ hpq => field_congr hr hpq

theorem interfaceOf_congr (hr : g.Reordered h) {c d : ClassDecl} (hcd : c.Reordered d) :
    (ofGraph settings g).interfaceOf c = (ofGraph settings h).interfaceOf d := by
  unfold interfaceOf
  rw [identifier_congr rfl hr.sameShape, hcd.name, extendable_congr settings settings hr.sameShape,
    fields_congr hr, hcd.comment]
  rfl

/-- **The declarations do not show the order of edges, and neither does a failure to build them.** -/
theorem declarations_congr (hr : g.Reordered h) :
    (ofGraph settings g).declarations = (ofGraph settings h).declarations := by
  have hi : (ofGraph settings g).orderedClasses.mapM (ofGraph settings g).interfaceOf =
      (ofGraph settings h).orderedClasses.mapM (ofGraph settings h).interfaceOf :=
    mapM_congr_forall₂ (orderedClasses_congr hr) fun _ _ hcd => interfaceOf_congr hr hcd
  have hk : (ofGraph settings g).graph.classes.keys = (ofGraph settings h).graph.classes.keys :=
    hr.sameShape.classKeys
  unfold declarations
  rw [hi, hk, identifiers_congr rfl hr.sameShape]
  rfl

/-! ## manifests -/

theorem classEntry_congr (hr : g.Reordered h) {c d : ClassDecl} (hcd : c.Reordered d) :
    (ofGraph settings g).classEntry c = (ofGraph settings h).classEntry d := by
  have he : (ofGraph settings g).graph.effectiveProperties d.name =
      (ofGraph settings h).graph.effectiveProperties d.name := hr.sameShape.effectiveProperties
  unfold classEntry
  rw [hcd.name, hcd.iri, hcd.comment, NameSet.ofList_perm hcd.parents,
    identifier?_congr rfl hr.sameShape, extendable_congr settings settings hr.sameShape,
    linearization_congr settings settings hr.sameShape, he]
  rfl

theorem propertyEntry_congr (hr : g.Reordered h) {p q : PropertyDecl} (hpq : p.Reordered q) :
    (ofGraph settings g).propertyEntry p = (ofGraph settings h).propertyEntry q := by
  unfold propertyEntry
  rw [hpq.name, hpq.iri, hpq.comment, NameSet.ofList_perm hpq.domains,
    NameSet.ofList_perm hpq.ranges, fieldType_congr rfl rfl hr.sameShape hpq.sameEdges]
  rfl

/-- **The manifest does not show the order of edges.** -/
theorem manifest_congr (hr : g.Reordered h) :
    (ofGraph settings g).manifest = (ofGraph settings h).manifest := by
  have hc : (ofGraph settings g).orderedClasses.map (ofGraph settings g).classEntry =
      (ofGraph settings h).orderedClasses.map (ofGraph settings h).classEntry :=
    map_congr_forall₂ (orderedClasses_congr hr) fun _ _ hcd => classEntry_congr hr hcd
  have hp : (ofGraph settings g).graph.properties.values.map (ofGraph settings g).propertyEntry =
      (ofGraph settings h).graph.properties.values.map (ofGraph settings h).propertyEntry :=
    map_congr_forall₂ (properties_congr hr) fun _ _ hpq => propertyEntry_congr hr hpq
  unfold manifest
  rw [hc, hp, identifiers_congr rfl hr.sameShape]
  rfl

end

/-! ## generators -/

/-- **Neither the order of statements nor their repetition shows in an output.**  Lists with the same
triples are compiled to the same text, or fail alike. -/
theorem statement_order_irrelevant (settings : Settings) (ts us : List Triple)
    (h : ∀ t, t ∈ ts ↔ t ∈ us) :
    Generator.typescript.generate (ofSource settings (.ofTriples ts)) =
        Generator.typescript.generate (ofSource settings (.ofTriples us)) ∧
      Generator.manifest.generate (ofSource settings (.ofTriples ts)) =
        Generator.manifest.generate (ofSource settings (.ofTriples us)) := by
  have hr := Extraction.extract_reordered (d := settings.dialect) (Source.agree_ofTriples h)
  have hd : (ofSource settings (.ofTriples ts)).declarations =
      (ofSource settings (.ofTriples us)).declarations := declarations_congr hr
  have hm : (ofSource settings (.ofTriples ts)).manifest =
      (ofSource settings (.ofTriples us)).manifest := manifest_congr hr
  constructor
  · rw [Generator.typescript_generate, Generator.typescript_generate, hd]
  · rw [Generator.manifest_generate, Generator.manifest_generate, hm]

/-- a class, a property of it and the property's comments -/
def smallVocabulary : List Triple :=
  let d := Dialect.schemaOrg
  [⟨d.iri "Cat", d.typePredicate, d.classType⟩, ⟨d.iri "Dog", d.typePredicate, d.classType⟩,
    ⟨d.iri "Cat", d.subclassOf, d.iri "Dog"⟩, ⟨d.iri "Cat", d.subclassOf, d.iri "Cat"⟩,
    ⟨d.iri "purrs", d.typePredicate, d.propertyType⟩,
    ⟨d.iri "purrs", d.domainIncludes, d.iri "Cat"⟩,
    ⟨d.iri "purrs", d.comment, "Loudly."⟩, ⟨d.iri "purrs", d.comment, "At night."⟩]

/-- the statements told twice, forwards and backwards -/
theorem statement_order_irrelevant_reverse :
    Generator.typescript.generate (ofSource .schemaOrg (.ofTriples smallVocabulary)) =
        Generator.typescript.generate
          (ofSource .schemaOrg (.ofTriples (smallVocabulary.reverse ++ smallVocabulary))) ∧
      Generator.manifest.generate (ofSource .schemaOrg (.ofTriples smallVocabulary)) =
        Generator.manifest.generate
          (ofSource .schemaOrg (.ofTriples (smallVocabulary.reverse ++ smallVocabulary))) :=
  statement_order_irrelevant .schemaOrg smallVocabulary (smallVocabulary.reverse ++ smallVocabulary)
    fun t => by rw [List.mem_append, List.mem_reverse, or_self]

end Vocabulary

end TypedVocabulary
