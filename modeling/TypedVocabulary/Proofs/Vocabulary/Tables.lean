import TypedVocabulary.Proofs.Output.Tables
import TypedVocabulary.Proofs.Vocabulary.TypeNames

/-!
# The tables agree with the interfaces

Three tables and the interfaces of an output name the classes, and each comes from a part of the vocabulary of
its own: the union from the graph, two tables from the identifiers, the interfaces from the order of the
classes.

* `Vocabulary.map_fst_identifiers`     the table of identifiers has the names of the graph;
* `Vocabulary.interfaces_identifiers`  the interfaces are its entries, in another order;
* `Vocabulary.tables_agree`            all that is read off the output are the same entries.
-/

namespace TypedVocabulary

namespace Vocabulary

section
variable {settings : Settings} {g : Graph} {d : Declarations}

theorem map_fst_identifiers (settings : Settings) (g : Graph) :
    (ofGraph settings g).identifiers.toList.map Prod.fst = g.classes.keys := by
  show (ofGraph settings g).identifiers.identifiers.keys = _
  refine NameMap.keys_congr fun n => ?_
  rw [Bool.eq_iff_iff]
  exact isSome_identifier?

theorem tables_of_declarations (hd : (ofGraph settings g).declarations = .ok d) :
    d.classNames = g.classes.keys ∧ d.identifiers = (ofGraph settings g).identifiers.toList := by
  obtain ⟨_, _, _, rfl⟩ := declarations_eq_ok_iff.mp hd
  exact ⟨rfl, rfl⟩

/-- **The interfaces are the entries of the table of identifiers**, in the order of the classes. -/
theorem interfaces_identifiers (hk : g.ClassesByName)
    (hd : (ofGraph settings g).declarations = .ok d) :
    (d.interfaces.map fun i => (i.className, i.name)).Perm d.identifiers := by
  obtain ⟨_, hids⟩ := tables_of_declarations hd
  have hinterfaces : (d.interfaces.map fun i => (i.className, i.name)).Nodup := by
    refine List.Nodup.of_map Prod.fst ?_
    rw [List.map_map]
    exact map_className_nodup hk hd
  have hentries : d.identifiers.Nodup := by
    refine List.Nodup.of_map Prod.fst ?_
    rw [hids, map_fst_identifiers]
    exact g.classes.keys_nodup
  rw [List.perm_ext_iff_of_nodup hinterfaces hentries]
  rintro ⟨n, name⟩
  rw [hids, IdentifierTable.mem_toList, List.mem_map]
  constructor
  · rintro ⟨i, hi, e⟩
    cases e
    exact (interface_spec hd hi).1
  · intro h
    have hclass : g.isClass n = true := isSome_identifier?.mp (Option.isSome_of_eq_some h)
    have hmem : n ∈ d.interfaces.map Interface.className := by
      rw [map_className hk hd]
      exact Graph.mem_linearize.mpr hclass
    obtain ⟨i, hi, rfl⟩ := List.mem_map.mp hmem
    -- the interface has the identifier of its class, and there is one
    have hname := (interface_spec hd hi).1.symm.trans h
    exact ⟨i, hi, by rw [Option.some.inj hname]⟩

/-- **The tables agree with the interfaces.**  In a graph that keeps its classes under their names, all that
is read off the lines of an output are the same entries, a class name and an identifier each: the entries
of the two tables in the order of the names, which are those of the graph, and the names alone in the
union.  No literal and no identifier stands in two of them.  The interfaces that carry a class name are
the entries once more, and none of their identifiers is declared a second time. -/
theorem tables_agree (settings : Settings) (g : Graph) (text : String) (hk : g.ClassesByName)
    (htext : Generator.typescript.generate (ofGraph settings g) = .ok text) :
    ∃ (d : Declarations) (entries : List (String × String)),
      (ofGraph settings g).declarations = .ok d ∧ text = unlines d.lines ∧
      entries.map Prod.fst = g.classes.keys ∧ g.classes.keys.Pairwise (· < ·) ∧
      (bodyOf classNameUnion d.lines).filterMap memberOf? = entries.map (fun e => quote e.1) ∧
      (bodyOf classTypeMap d.lines).filterMap (entryOf? ';') =
        entries.map (fun e => (quote e.1, e.2)) ∧
      (bodyOf classIdentifierTable d.lines).filterMap (entryOf? ',') =
        entries.map (fun e => (quote e.1, quote e.2)) ∧
      (entries.map fun e => quote e.1).Nodup ∧ (entries.map Prod.snd).Nodup ∧
      (classInterfaces d.lines).Perm (entries.map fun e => (e.2, quote e.1)) ∧
      ∀ e ∈ entries, d.declaredNames.count e.2 = 1 := by
  obtain ⟨d, hd, hlines⟩ := Generator.typescript_generate_eq_ok_iff.mp htext
  obtain ⟨hclasses, hids⟩ := tables_of_declarations hd
  have hfree : ∀ n ∈ d.interfaceNames, isIdentifier n = true ∧ n ∉ reservedNames := fun _ h =>
    interfaceNames_free hd h
  have hnames : ∀ i ∈ d.interfaces, isIdentifier i.name = true := fun i hi =>
    (hfree i.name (List.mem_cons_of_mem _ (List.mem_map_of_mem hi))).1
  have hfst : d.identifiers.map Prod.fst = g.classes.keys := by
    rw [hids]
    exact map_fst_identifiers settings g
  have hperm := interfaces_identifiers hk hd
  refine ⟨d, d.identifiers, hd, hlines, hfst, g.classes.keys_increasing, ?_,
    Declarations.typeMap_read hfree, Declarations.table_read hfree, ?_, ?_, ?_, fun e he => ?_⟩
  · rw [Declarations.unionMembers_read hfree, hclasses, ← hfst, List.map_map]
    rfl
  · have hquoted : (g.classes.keys.map quote).Nodup :=
      g.classes.keys_nodup.map fun _ _ => quote_injective
    rw [← hfst, List.map_map] at hquoted
    exact hquoted
  · rw [hids]
    exact IdentifierTable.identifiers_nodup _ _
  · rw [Declarations.interfaces_read hnames]
    have hshown := hperm.map fun e => (e.2, quote e.1)
    rw [List.map_map] at hshown
    exact hshown
  · obtain ⟨i, hi, rfl⟩ := List.mem_map.mp (hperm.mem_iff.mpr he)
    refine List.count_eq_one_of_mem (declaredNames_nodup hk hd) ?_
    rw [declaredNames_eq hd]
    exact List.mem_append_left _ (List.mem_cons_of_mem _ (List.mem_map_of_mem hi))

end

/-- classes on a cycle whose names ask for one identifier, and one whose name has to be escaped -/
def entangledClasses : List Triple :=
  (["Foo-Bar", "Foo_Bar", "say \"hi\""].map fun name =>
    ⟨Dialect.schemaOrg.iri name, Dialect.schemaOrg.typePredicate, Dialect.schemaOrg.classType⟩) ++
  [("Foo-Bar", "Foo_Bar"), ("Foo_Bar", "Foo-Bar")].map fun e =>
    ⟨Dialect.schemaOrg.iri e.1, Dialect.schemaOrg.subclassOf, Dialect.schemaOrg.iri e.2⟩

theorem tables_agree_entangled :
    ∃ text, ∃ (d : Declarations) (entries : List (String × String)),
      Generator.typescript.generate (ofSource .schemaOrg (.ofTriples entangledClasses)) = .ok text ∧
      text = unlines d.lines ∧
      entries.map Prod.fst = ["Foo-Bar", "Foo_Bar", "say \"hi\""] ∧
      (bodyOf classNameUnion d.lines).filterMap memberOf? =
        ["\"Foo-Bar\"", "\"Foo_Bar\"", "\"say \\\"hi\\\"\""] ∧
      (bodyOf classTypeMap d.lines).filterMap (entryOf? ';') =
        entries.map (fun e => (quote e.1, e.2)) ∧
      (bodyOf classIdentifierTable d.lines).filterMap (entryOf? ',') =
        entries.map (fun e => (quote e.1, quote e.2)) ∧
      (entries.map Prod.snd).Nodup ∧
      (classInterfaces d.lines).Perm (entries.map fun e => (e.2, quote e.1)) ∧
      ∀ e ∈ entries, d.declaredNames.count e.2 = 1 := by
  have hk := Extraction.extract_keyedByName (.ofTriples entangledClasses) .schemaOrg
  have hkeys : (Extraction.extract (.ofTriples entangledClasses) .schemaOrg).classes.keys =
      ["Foo-Bar", "Foo_Bar", "say \"hi\""] := by decide +kernel
  obtain ⟨text, htext⟩ := generate_isOk .schemaOrg hk rfl
  obtain ⟨d, entries, _, hlines, hfst, _, hunion, htypes, htable, _, hnodup, hperm, honce⟩ :=
    tables_agree .schemaOrg _ text hk.className htext
  rw [hkeys] at hfst
  have hquoted : entries.map (fun e => quote e.1) = (entries.map Prod.fst).map quote := by
    rw [List.map_map]
    rfl
  rw [hquoted, hfst] at hunion
  exact ⟨text, d, entries, htext, hlines, hfst, hunion.trans (by decide +kernel), htypes, htable,
    hnodup, hperm, honce⟩

end Vocabulary

end TypedVocabulary
