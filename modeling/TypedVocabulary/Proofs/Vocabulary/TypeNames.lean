import TypedVocabulary.Proofs.Output.Types
import TypedVocabulary.Proofs.Vocabulary.Interfaces

/-!
# Type names

The declarations declare no name twice, and use none that they do not declare, besides a few built-in ones.
The types are read off the lines, those of the base interface and of the keys `@type` included.

* `Vocabulary.declaredNames_nodup`   the base, the classes and the three tables have different names;
* `Vocabulary.declared_of_mem_types`   a name in a type of an interface is built in or that of an interface;
* `Vocabulary.type_names_closed`     both, for every graph that keeps its terms under their names.

The context of a node is a record, and that is built in as well (`Vocabulary.type_names_record`).

Names of classes are arbitrary texts.  What separates their identifiers from each other, from the base and
from the tables is the table of identifiers: it is injective, and it keeps all reserved names and the base
name free.  What ties a name in a type to an interface is that both come from that table.
-/

namespace TypedVocabulary

/-- the built-in types that the fields of classes are made of -/
def builtinTypes : List String := ["string", "number", "boolean", "unknown", "Array"]

/-! ## alternatives -/

namespace FieldType

theorem mem_distinct {x : String} {xs : List String} : x ∈ distinct xs ↔ x ∈ xs := by
  induction xs with
  | nil => exact Iff.rfl
  | cons y ys ih =>
    rw [distinct, List.mem_cons, List.mem_cons, List.mem_filter, ih]
    by_cases h : x = y <;> simp [h]

theorem typeName_builtin (s : Scalar) : s.typeName ∈ builtinTypes := by
  cases s <;> decide

theorem isIdentifier_builtin {n : String} (h : n ∈ builtinTypes) : isIdentifier n = true := by
  simp only [builtinTypes, List.mem_cons, List.not_mem_nil, or_false] at h
  rcases h with rfl | rfl | rfl | rfl | rfl <;> rfl

/-- an alternative is built in or the identifier of a range -/
theorem mem_alternatives {primitives : Primitives} {table : IdentifierTable} {ranges : NameSet}
    {a : String} (h : a ∈ alternatives primitives table ranges) :
    a ∈ builtinTypes ∨ ∃ range, table.get? range = some a := by
  rw [alternatives, mem_distinct, List.mem_flatMap] at h
  obtain ⟨range, _, h⟩ := h
  unfold rangeAlternatives at h
  split at h
  · rename_i scalar _
    rw [List.mem_singleton.mp h]
    exact Or.inl (typeName_builtin scalar)
  · split at h
    · rename_i identifier hget
      rcases List.mem_cons.mp h with rfl | h
      · exact Or.inr ⟨range, hget⟩
      · rw [List.mem_singleton.mp h]
        exact Or.inl (by decide)
    · rw [List.mem_singleton.mp h]
      exact Or.inl (by decide)

theorem isIdentifier_of_mem_alternatives {primitives : Primitives} {table : IdentifierTable}
    {ranges : NameSet} {a : String} (hid : ∀ n i, table.get? n = some i → isIdentifier i = true)
    (h : a ∈ alternatives primitives table ranges) : isIdentifier a = true := by
  rcases mem_alternatives h with hb | ⟨n, hn⟩
  · exact isIdentifier_builtin hb
  · exact hid n a hn

end FieldType

namespace Vocabulary

section
variable {settings : Settings} {g : Graph} {d : Declarations} {n i : String}

/-! ## different names -/

theorem identifier?_not_reserved (h : (ofGraph settings g).identifier? n = some i) :
    i ∉ reservedNames := fun hi => IdentifierTable.get?_free h (List.mem_append_left _ hi)

theorem isIdentifier_identifier? (h : (ofGraph settings g).identifier? n = some i) :
    isIdentifier i = true := IdentifierTable.get?_form h

theorem baseName_of_declarations (hd : (ofGraph settings g).declarations = .ok d) :
    d.baseName = settings.output.baseName ∧ isDeclarationName d.baseName = true := by
  obtain ⟨hb, _, _, rfl⟩ := declarations_eq_ok_iff.mp hd
  exact ⟨rfl, hb⟩

/-- the base and the interfaces of classes have identifiers that are not reserved -/
theorem interfaceNames_free (hd : (ofGraph settings g).declarations = .ok d)
    (h : n ∈ d.interfaceNames) : isIdentifier n = true ∧ n ∉ reservedNames := by
  rcases List.mem_cons.mp h with rfl | h
  · exact isDeclarationName_spec (baseName_of_declarations hd).2
  · obtain ⟨i, hi, rfl⟩ := List.mem_map.mp h
    have hname := (interface_spec hd hi).1
    exact ⟨isIdentifier_identifier? hname, identifier?_not_reserved hname⟩

theorem interfaceNames_nodup (hk : g.ClassesByName) (hd : (ofGraph settings g).declarations = .ok d) :
    d.interfaceNames.Nodup := by
  refine List.nodup_cons.mpr ⟨fun h => ?_, interfaces_nodup hk hd⟩
  obtain ⟨i, hi, e⟩ := List.mem_map.mp h
  exact identifier?_ne_base (interface_spec hd hi).1 (e.trans (baseName_of_declarations hd).1)

theorem declaredNames_eq (hd : (ofGraph settings g).declarations = .ok d) :
    d.declaredNames = d.interfaceNames ++ [classNameUnion, classTypeMap, classIdentifierTable] :=
  Declarations.declaredNames_eq (interfaceNames_free hd (List.mem_cons_self ..)).1 fun _ hi =>
    (interfaceNames_free hd (List.mem_cons_of_mem _ (List.mem_map.mpr ⟨_, hi, rfl⟩))).1

/-- **No name is declared twice.** -/
theorem declaredNames_nodup (hk : g.ClassesByName) (hd : (ofGraph settings g).declarations = .ok d) :
    d.declaredNames.Nodup := by
  have htables : [classNameUnion, classTypeMap, classIdentifierTable] ⊆ reservedNames := fun _ h =>
    List.mem_append_right _ h
  rw [declaredNames_eq hd, List.nodup_append]
  refine ⟨interfaceNames_nodup hk hd, by decide, fun a ha b hb e => ?_⟩
  exact (interfaceNames_free hd ha).2 (htables (e ▸ hb))

/-! ## names in types -/

/-- the identifier of a class is the name of an interface -/
theorem mem_interfaceNames (hk : g.KeyedByName) (hd : (ofGraph settings g).declarations = .ok d)
    (h : (ofGraph settings g).identifier? n = some i) : i ∈ d.interfaceNames := by
  have hn : g.isClass n = true := isSome_identifier?.mp (by rw [h]; rfl)
  obtain ⟨j, hj, rfl, _⟩ := exists_interface hk hd hn
  have e := (interface_spec hd hj).1.symm.trans h
  rw [← Option.some.inj e]
  exact List.mem_cons_of_mem _ (List.mem_map.mpr ⟨j, hj, rfl⟩)

theorem mem_supertypes (hk : g.KeyedByName) (hd : (ofGraph settings g).declarations = .ok d)
    {j : Interface} (hj : j ∈ d.interfaces) (h : n ∈ j.supertypes) : n ∈ d.interfaceNames := by
  obtain ⟨_, ⟨parents, hparents, hsup⟩, _⟩ := interface_spec hd hj
  rw [hsup] at h
  rcases List.mem_cons.mp h with rfl | h
  · exact List.mem_cons.mpr (Or.inl (baseName_of_declarations hd).1.symm)
  · obtain ⟨p, _, hp⟩ := forall₂_mem_right hparents h
    exact mem_interfaceNames hk hd hp

/-- a name in the type of a field is built in or comes from the table of identifiers -/
theorem mem_typeNames_field {v : Vocabulary} {c : String} {f : Field} (hf : f ∈ v.fields c)
    (hid : ∀ m i, v.identifier? m = some i → isIdentifier i = true)
    (h : n ∈ typeNames f.type.text) : n ∈ builtinTypes ∨ ∃ m, v.identifier? m = some n := by
  obtain ⟨p, _, rfl⟩ := List.mem_map.mp hf
  have halt : ∀ a ∈ FieldType.alternatives v.settings.primitives v.identifiers (.ofList p.ranges),
      a ∈ builtinTypes ∨ ∃ m, v.identifier? m = some a := fun _ => FieldType.mem_alternatives
  have hform : ∀ a ∈ FieldType.alternatives v.settings.primitives v.identifiers (.ofList p.ranges),
      isIdentifier a = true := fun _ => FieldType.isIdentifier_of_mem_alternatives hid
  change n ∈ typeNames (FieldType.ofRanges _ _ p.ranges).text at h
  unfold FieldType.ofRanges at h
  split at h
  · rw [FieldType.text, typeNames_identifier rfl] at h
    rw [List.mem_singleton.mp h]
    exact Or.inl (by decide)
  · rw [FieldType.typeNames_text hform] at h
    rcases List.mem_append.mp h with h | h
    · exact halt n h
    · rcases List.mem_cons.mp h with rfl | h
      · exact Or.inl (by decide)
      · exact halt n h

theorem exists_lines_eq (hd : (ofGraph settings g).declarations = .ok d) :
    ∃ front rest, d.lines = front ++ d.baseHead :: Declarations.contextLine :: rest ∧
      typesIn (front ++ d.baseHead :: rest) =
        ["string", "string"] ++ d.interfaces.flatMap Interface.types ++
          d.identifiers.map Prod.snd :=
  Declarations.exists_lines_eq (interfaceNames_free hd (List.mem_cons_self ..)).1 fun _ hi =>
    (interfaceNames_free hd (List.mem_cons_of_mem _ (List.mem_map_of_mem hi))).1

/-- **A name in a type of an interface is built in or the name of an interface.** -/
theorem declared_of_mem_types (hk : g.KeyedByName) (hd : (ofGraph settings g).declarations = .ok d)
    {j : Interface} (hj : j ∈ d.interfaces) {type : String} (htype : type ∈ j.types)
    (h : n ∈ typeNames type) : n ∈ builtinTypes ∨ n ∈ d.interfaceNames := by
  unfold Interface.types at htype
  rcases List.mem_cons.mp htype with rfl | htype
  · have hsuper : ∀ m ∈ j.supertypes, isIdentifier m = true := fun m hm =>
      (interfaceNames_free hd (mem_supertypes hk hd hj hm)).1
    rw [typeNames_intercalate ⟨by decide, by decide⟩ (by decide) hsuper] at h
    exact Or.inr (mem_supertypes hk hd hj h)
  · rcases List.mem_cons.mp htype with rfl | htype
    · -- the name of the class is a literal
      rw [typeNames_quote] at h
      have hstring : n ∈ ["string"] := h
      rw [List.mem_singleton.mp hstring]
      exact Or.inl (by decide)
    · obtain ⟨f, hf, rfl⟩ := List.mem_map.mp htype
      rw [(interface_spec hd hj).2.2] at hf
      rcases mem_typeNames_field hf (fun _ _ => isIdentifier_identifier?) h with hb | ⟨m, hm⟩
      · exact Or.inl hb
      · exact Or.inr (mem_interfaceNames hk hd hm)

/-- a type in the table of types is the name of an interface -/
theorem declared_of_mem_identifiers (hk : g.KeyedByName)
    (hd : (ofGraph settings g).declarations = .ok d) {type : String}
    (htype : type ∈ d.identifiers.map Prod.snd) (h : n ∈ typeNames type) : n ∈ d.interfaceNames := by
  obtain ⟨_, _, _, rfl⟩ := declarations_eq_ok_iff.mp hd
  obtain ⟨⟨m, i⟩, he, rfl⟩ := List.mem_map.mp htype
  have hm : (ofGraph settings g).identifier? m = some i := NameMap.mem_entries_iff.mp he
  rw [typeNames_identifier (isIdentifier_identifier? hm), List.mem_singleton] at h
  rw [h]
  exact mem_interfaceNames hk hd hm

/-- **What is generated declares no name twice, and uses none that it does not declare.**  The names are
read off its lines: the base, the interfaces of the classes, one for each, and the three tables.  In all
lines but one, every name in a list of supertypes, in the type of a field or among the types of classes
is built in or the name of an interface.  That one stands behind the line that opens the base interface
and gives it the key for the context, whose type is made of built-in ones and of `Record`. -/
theorem type_names_closed (settings : Settings) (g : Graph) (text : String) (hk : g.KeyedByName)
    (htext : Generator.typescript.generate (ofGraph settings g) = .ok text) :
    ∃ d, (ofGraph settings g).declarations = .ok d ∧ text = unlines d.lines ∧
      d.declaredNames.Nodup ∧
      d.declaredNames =
        d.interfaceNames ++ [classNameUnion, classTypeMap, classIdentifierTable] ∧
      (d.interfaces.map Interface.className).Perm g.classes.keys ∧
      ∃ front rest, d.lines = front ++ d.baseHead :: Declarations.contextLine :: rest ∧
        (∀ type ∈ typesIn (front ++ d.baseHead :: rest), ∀ n ∈ typeNames type,
          n ∈ builtinTypes ∨ n ∈ d.interfaceNames) ∧
        ∀ type ∈ typesIn [Declarations.contextLine], ∀ n ∈ typeNames type,
          n ∈ builtinTypes ∨ n = "Record" := by
  obtain ⟨d, hd, hlines⟩ := Generator.typescript_generate_eq_ok_iff.mp htext
  obtain ⟨front, rest, hsplit, htypes⟩ := exists_lines_eq hd
  refine ⟨d, hd, hlines, declaredNames_nodup hk hd, declaredNames_eq hd, ?_, front, rest, hsplit,
    fun type htype n hn => ?_, fun type htype n hn => ?_⟩
  · rw [map_className hk hd]
    exact g.linearize_perm
  · rw [htypes, List.append_assoc] at htype
    rcases List.mem_append.mp htype with htype | htype
    · obtain rfl : type = "string" := by simpa using htype
      have hstring : n ∈ ["string"] := hn
      rw [List.mem_singleton.mp hstring]
      exact Or.inl (by decide)
    · rcases List.mem_append.mp htype with htype | htype
      · obtain ⟨i, hi, htype⟩ := List.mem_flatMap.mp htype
        exact declared_of_mem_types hk hd hi htype hn
      · exact Or.inr (declared_of_mem_identifiers hk hd htype hn)
  · rw [Declarations.typesIn_contextLine, List.mem_singleton] at htype
    rw [htype, Declarations.typeNames_contextType] at hn
    have hcases : ∀ m ∈ ["string", "Record", "string", "unknown"] ++
        "Array" :: ["string", "Record", "string", "unknown"], m ∈ builtinTypes ∨ m = "Record" := by
      decide
    exact hcases n hn

/-- the name of records is kept free for the language -/
theorem record_not_declared (hd : (ofGraph settings g).declarations = .ok d) :
    "Record" ∉ d.declaredNames := by
  rw [declaredNames_eq hd, List.mem_append, not_or]
  exact ⟨fun h => (interfaceNames_free hd h).2 (by decide), by decide⟩

end

/-- classes called like the base, a word of the language and a built-in type, and two that are spelled
alike -/
def clashingClasses : List Triple :=
  ["JsonLdNode", "class", "string", "Foo-Bar", "Foo_Bar"].map fun name =>
    ⟨Dialect.schemaOrg.iri name, Dialect.schemaOrg.typePredicate, Dialect.schemaOrg.classType⟩

theorem type_names_closed_clashing :
    ∃ text, ∃ d : Declarations, Generator.typescript.generate
        (ofSource .schemaOrg (.ofTriples clashingClasses)) = .ok text ∧
      text = unlines d.lines ∧
      d.declaredNames.Nodup ∧
      (d.interfaces.map Interface.className).Perm
        ["Foo-Bar", "Foo_Bar", "JsonLdNode", "class", "string"] ∧
      ∃ front rest, d.lines = front ++ d.baseHead :: Declarations.contextLine :: rest ∧
        ∀ type ∈ typesIn (front ++ d.baseHead :: rest), ∀ n ∈ typeNames type,
          n ∈ builtinTypes ∨ n ∈ d.interfaceNames := by
  have hk := Extraction.extract_keyedByName (.ofTriples clashingClasses) .schemaOrg
  have hkeys : (Extraction.extract (.ofTriples clashingClasses) .schemaOrg).classes.keys =
      ["Foo-Bar", "Foo_Bar", "JsonLdNode", "class", "string"] := by decide +kernel
  obtain ⟨d, hd⟩ := declarations_isOk .schemaOrg hk rfl
  have htext := Generator.typescript_generate_eq_ok_iff.mpr ⟨d, hd, rfl⟩
  obtain ⟨d, _, hlines, hnodup, _, hperm, front, rest, hsplit, hused, _⟩ :=
    type_names_closed .schemaOrg _ _ hk htext
  rw [hkeys] at hperm
  exact ⟨_, d, htext, hlines, hnodup, hperm, front, rest, hsplit, hused⟩

/-- a class on its own -/
def oneClass : List Triple :=
  [⟨Dialect.schemaOrg.iri "Thing", Dialect.schemaOrg.typePredicate, Dialect.schemaOrg.classType⟩]

/-- its output uses a name that is neither declared in it nor one of the types that fields are made of -/
theorem type_names_record :
    ∃ d : Declarations, (ofSource .schemaOrg (.ofTriples oneClass)).declarations = .ok d ∧
      Generator.typescript.generate (ofSource .schemaOrg (.ofTriples oneClass)) =
        .ok (unlines d.lines) ∧
      ∃ type ∈ typesIn d.lines, "Record" ∈ typeNames type ∧
        "Record" ∉ builtinTypes ∧ "Record" ∉ d.declaredNames := by
  have hk := Extraction.extract_keyedByName (.ofTriples oneClass) .schemaOrg
  obtain ⟨d, hd⟩ := declarations_isOk .schemaOrg hk rfl
  obtain ⟨front, rest, hsplit, _⟩ := exists_lines_eq hd
  have hmem : Declarations.contextType ∈ typesIn d.lines := by
    have hline : d.lines = front ++ [d.baseHead] ++ ([Declarations.contextLine] ++ rest) := by
      rw [hsplit, List.append_assoc, List.singleton_append, List.singleton_append]
    rw [hline, typesIn_append, typesIn_append _ rest, Declarations.typesIn_contextLine]
    exact List.mem_append_right _ (List.mem_append_left _ (List.mem_singleton.mpr rfl))
  have hrecord : "Record" ∈ typeNames Declarations.contextType := by
    rw [Declarations.typeNames_contextType]
    decide
  exact ⟨d, hd, Generator.typescript_generate_eq_ok_iff.mpr ⟨d, hd, rfl⟩, _, hmem, hrecord,
    by decide, record_not_declared hd⟩

end Vocabulary

end TypedVocabulary
