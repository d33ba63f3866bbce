import TypedVocabulary.Proofs.Output.Lines
import TypedVocabulary.Proofs.Vocabulary.Shape
import TypedVocabulary.Proofs.Vocabulary.TypeNames

/-!
# Documentation

Comments, the header and the choice to emit comments show in comment lines only.

* `Vocabulary.declarations_withoutDocs`   taking the comments out of a graph, and the header out of the
                                          settings, takes them out of the declarations, and nothing else;
* `Vocabulary.declarations_inline`        the names and types of declarations never end their lines;
* `Vocabulary.documentation_irrelevant`   vocabularies that are the same without documentation have the
                                          same code lines, or fail alike.

No step that orders or names classes, or follows their parents, reads a comment, so each of them gives the
same on the graph without comments.  A name is an arbitrary text, but it stands between quotes or is
spelled as an identifier: it neither ends its line nor makes it a comment.
-/

namespace TypedVocabulary

/-! ## without documentation -/

/-- no header, and comments are not emitted -/
def Settings.withoutDocs (s : Settings) : Settings :=
  { s with output := { s.output with includeDocs := false, header := none } }

/-! ## declarations -/

namespace Vocabulary

section
variable (s : Settings) (g : Graph) (c : String)

theorem orderedClasses_withoutDocs : (ofGraph s.withoutDocs g.withoutComments).orderedClasses =
    (ofGraph s g).orderedClasses.map ClassDecl.withoutComment := by
  unfold orderedClasses
  rw [linearization_congr s.withoutDocs s g.withoutComments_sameShape, List.map_filterMap]
  exact List.filterMap_congr fun n _ => g.class?_withoutComments n

theorem field_withoutDocs (p : PropertyDecl) :
    (ofGraph s.withoutDocs g.withoutComments).field p.withoutComment =
      ((ofGraph s g).field p).withoutDocs := by
  have htype : (ofGraph s.withoutDocs g.withoutComments).fieldType p.withoutComment =
      (ofGraph s g).fieldType p := fieldType_congr rfl rfl g.withoutComments_sameShape ⟨.refl _⟩
  unfold field
  rw [htype]
  rfl

theorem fields_withoutDocs : (ofGraph s.withoutDocs g.withoutComments).fields c =
    ((ofGraph s g).fields c).map Field.withoutDocs := by
  have heffective : (ofGraph s.withoutDocs g.withoutComments).graph.effectiveProperties c =
      (ofGraph s g).graph.effectiveProperties c :=
    g.withoutComments_sameShape.effectiveProperties
  have hlookup : (ofGraph s.withoutDocs g.withoutComments).graph.property? = fun n =>
      ((ofGraph s g).graph.property? n).map PropertyDecl.withoutComment :=
    funext g.property?_withoutComments
  unfold fields
  rw [heffective, hlookup, ← List.map_filterMap, List.map_map, List.map_map]
  exact List.map_congr_left fun p _ => field_withoutDocs s g p

theorem interfaceOf_withoutDocs (k : ClassDecl) :
    (ofGraph s.withoutDocs g.withoutComments).interfaceOf k.withoutComment =
      ((ofGraph s g).interfaceOf k).map Interface.withoutDocs := by
  have hname : k.withoutComment.name = k.name := rfl
  have hidentifier : (ofGraph s.withoutDocs g.withoutComments).identifier =
      (ofGraph s g).identifier := identifier_congr rfl g.withoutComments_sameShape
  have hparents := extendable_congr s.withoutDocs s g.withoutComments_sameShape k.name
  unfold interfaceOf
  rw [hidentifier, hname, hparents, fields_withoutDocs, map_bind]
  refine bind_congr fun name => ?_
  rw [map_bind]
  exact bind_congr fun parents => rfl

/-- **Without documentation the declarations are the same, and so is a failure to build them.** -/
theorem declarations_withoutDocs : (ofGraph s.withoutDocs g.withoutComments).declarations =
    (ofGraph s g).declarations.map Declarations.withoutDocs := by
  have hkeys : (ofGraph s.withoutDocs g.withoutComments).graph.classes.keys =
      (ofGraph s g).graph.classes.keys := g.withoutComments_sameShape.classKeys
  have hidentifiers : (ofGraph s.withoutDocs g.withoutComments).identifiers =
      (ofGraph s g).identifiers := identifiers_congr rfl g.withoutComments_sameShape
  unfold declarations
  rw [orderedClasses_withoutDocs, mapM_map (interfaceOf_withoutDocs s g), hkeys, hidentifiers]
  show (if (!isDeclarationName s.output.baseName) = true then _ else _) =
    Except.map _ (if (!isDeclarationName s.output.baseName) = true then _ else _)
  cases isDeclarationName s.output.baseName with
  | false => rfl
  | true =>
    cases (ofGraph s g).orderedClasses.mapM (ofGraph s g).interfaceOf <;> rfl

theorem codeLines_generate : (Generator.typescript.generate (ofGraph s g)).map codeLines =
    (Generator.typescript.generate (ofGraph s.withoutDocs g.withoutComments)).map codeLines := by
  rw [Generator.typescript_generate, Generator.typescript_generate, declarations_withoutDocs]
  cases (ofGraph s g).declarations with
  | error => rfl
  | ok d => exact congrArg Except.ok d.codeLines_withoutDocs.symm

end

/-! ## names in lines -/

theorem oneLine_fieldType {v : Vocabulary}
    (hid : ∀ n i, v.identifier? n = some i → isIdentifier i = true) (p : PropertyDecl) :
    OneLine (v.fieldType p).text := by
  have halt : ∀ a ∈ FieldType.alternatives v.settings.primitives v.identifiers (.ofList p.ranges),
      OneLine a := fun _ ha =>
    oneLine_of_isIdentifier (FieldType.isIdentifier_of_mem_alternatives hid ha)
  have hunion := OneLine.intercalate (s := " | ") (by decide) halt
  unfold fieldType FieldType.ofRanges
  split
  · exact oneLine_ofList (by decide)
  · exact ((hunion.append (by decide)).append hunion).append (by decide)

/-- **Names and types never end their lines.** -/
theorem declarations_inline {s : Settings} {g : Graph} {d : Declarations}
    (hd : (ofGraph s g).declarations = .ok d) : d.Inline := by
  have hid : ∀ n i, (ofGraph s g).identifier? n = some i → OneLine i := fun _ _ h =>
    oneLine_of_isIdentifier (isIdentifier_identifier? h)
  obtain ⟨hbase, hdeclared⟩ := baseName_of_declarations hd
  have hone : OneLine d.baseName := oneLine_of_isIdentifier (isDeclarationName_spec hdeclared).1
  refine ⟨hone, fun i hi => ?_, fun e he => ?_⟩
  · obtain ⟨hname, ⟨parents, hparents, hsup⟩, hfields⟩ := interface_spec hd hi
    refine ⟨hid _ _ hname, fun n hn => ?_, fun f hf => ?_⟩
    · rw [hsup] at hn
      rcases List.mem_cons.mp hn with rfl | hn
      · exact hbase ▸ hone
      · obtain ⟨p, _, hp⟩ := forall₂_mem_right hparents hn
        exact hid p n hp
    · rw [hfields] at hf
      obtain ⟨p, _, rfl⟩ := List.mem_map.mp hf
      exact oneLine_fieldType (fun _ _ => isIdentifier_identifier?) p
  · obtain ⟨_, _, _, rfl⟩ := declarations_eq_ok_iff.mp hd
    exact hid e.1 e.2 (NameMap.mem_entries_iff.mp he)

/-- **Documentation never changes the declarations.**  Take two graphs that are the same without comments,
under settings that are the same without the header and the choice to emit comments.  Generating fails on
both with the same fault, or their texts are the same once all comment lines are deleted.  What is left of
a text then is the body of its declarations without documentation, line by line: no name can make a line
of the body a comment. -/
theorem documentation_irrelevant (s t : Settings) (g h : Graph)
    (hs : s.withoutDocs = t.withoutDocs) (hg : g.withoutComments = h.withoutComments) :
    (Generator.typescript.generate (ofGraph s g)).map codeLines =
        (Generator.typescript.generate (ofGraph t h)).map codeLines ∧
      ∀ text, Generator.typescript.generate (ofGraph s g) = .ok text →
        ∃ d, (ofGraph s g).declarations = .ok d ∧ text = unlines d.lines ∧
          codeLines text =
            codeLines d.noticeLine ++ [""] ++ d.withoutDocs.bodyLines ++ [""] := by
  constructor
  · rw [codeLines_generate s g, codeLines_generate t h, hs, hg]
  · intro text htext
    obtain ⟨d, hd, rfl⟩ := Generator.typescript_generate_eq_ok_iff.mp htext
    exact ⟨d, hd, rfl, Declarations.codeLines_text (declarations_inline hd)⟩

/-- a class that may have a comment -/
def commented (comment : Option String) : Graph :=
  ⟨NameMap.empty.insert "Cat" ⟨"Cat", "https://schema.org/Cat", [], ∅, comment⟩, ∅⟩

theorem commented_keyedByName (comment : Option String) : (commented comment).KeyedByName where
  className n c h := by
    have hcat := (NameMap.get?_insert NameMap.empty "Cat" n _).symm.trans h
    split at hcat
    · rename_i hn
      cases hcat
      exact hn.symm
    · cases hcat
  propertyName n p h := by cases h

/-- a header, and no comments -/
def headed : Settings :=
  { Settings.schemaOrg with output := ⟨false, some "* Cats", "JsonLdNode"⟩ }

/-- a comment that would end its block and declare something -/
theorem documentation_irrelevant_commented :
    ∃ text bare,
      Generator.typescript.generate
        (ofGraph .schemaOrg (commented (some "Purrs. */\nexport interface Dog \x7b"))) = .ok text ∧
      Generator.typescript.generate (ofGraph headed (commented none)) = .ok bare ∧
      codeLines text = codeLines bare := by
  obtain ⟨text, htext⟩ := generate_isOk .schemaOrg
    (commented_keyedByName (some "Purrs. */\nexport interface Dog \x7b")) rfl
  obtain ⟨bare, hbare⟩ := generate_isOk headed (commented_keyedByName none) rfl
  obtain ⟨hsame, _⟩ := documentation_irrelevant .schemaOrg headed
    (commented (some "Purrs. */\nexport interface Dog \x7b")) (commented none) rfl rfl
  rw [htext, hbare] at hsame
  exact ⟨_, _, htext, hbare, Except.ok.inj hsame⟩

end Vocabulary

end TypedVocabulary
