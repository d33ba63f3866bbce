import TypedVocabulary.Command.Run
import TypedVocabulary.Proofs.Vocabulary.Fields

/-!
# When generating fails

Declarations are generated from any graph, also from one that keeps a class under a key that is not its
name.  Such a class may be without an identifier, and only then is there no interface for it:

* `Vocabulary.interfaceOf_of_not_isClass`, `Vocabulary.exists_interfaceOf`   for one class;
* `Vocabulary.declarations_eq_error`   for a graph: the base name comes first, then the classes in the
                                       order of their declarations;
* `Vocabulary.generation_fails`        and what it means for settings that were accepted.

The parents of a class never make it fail, even in such a graph: what a declaration names is a key.
Graphs that are extracted keep their terms under their names, and settings are accepted only with a base
name that can be declared, so the two faults never meet a user.
-/

namespace TypedVocabulary

namespace Vocabulary

section
variable {settings : Settings} {g : Graph} {c : ClassDecl} {fault : GenerationFault}

theorem interfaceOf_of_not_isClass (h : g.isClass c.name = false) :
    (ofGraph settings g).interfaceOf c = .error (.noIdentifier c.name) := by
  have hnone : (ofGraph settings g).identifier? c.name = none := by
    rw [← Option.not_isSome_iff_eq_none, isSome_identifier?, h]
    exact Bool.false_ne_true
  have hname : (ofGraph settings g).identifier c.name = .error (.noIdentifier c.name) := by
    unfold identifier
    rw [hnone]
  exact bind_eq_error_iff.mpr (Or.inl hname)

theorem isOk_interfaceOf (settings : Settings) (g : Graph) (c : ClassDecl) :
    ((ofGraph settings g).interfaceOf c).isOk = g.isClass c.name := by
  cases h : g.isClass c.name with
  | false =>
    rw [interfaceOf_of_not_isClass h]
    rfl
  | true =>
    obtain ⟨i, hi⟩ := exists_interfaceOf settings h
    rw [hi]
    rfl

theorem interfaces_eq_error :
    (ofGraph settings g).orderedClasses.mapM (ofGraph settings g).interfaceOf = .error fault ↔
      ∃ c, (ofGraph settings g).orderedClasses.find? (fun c => !g.isClass c.name) = some c ∧
        fault = .noIdentifier c.name := by
  rw [mapM_eq_error_iff]
  -- a class fails exactly when its name is no key, so both sides look for the same class
  simp only [isOk_interfaceOf]
  refine exists_congr fun c => and_congr_right fun hc => ?_
  have hname : g.isClass c.name = false := by simpa using List.find?_some hc
  rw [interfaceOf_of_not_isClass hname, Except.error.injEq]
  exact eq_comm

/-- **The base name comes first, then the classes in the order of their declarations.** -/
theorem declarations_eq_error : (ofGraph settings g).declarations = .error fault ↔
    (isDeclarationName settings.output.baseName = false ∧
      fault = .config (.unusableBase settings.output.baseName)) ∨
    (isDeclarationName settings.output.baseName = true ∧
      ∃ c, (ofGraph settings g).orderedClasses.find? (fun c => !g.isClass c.name) = some c ∧
        fault = .noIdentifier c.name) := by
  rw [declarations_eq_error_iff, interfaces_eq_error]
  exact Iff.rfl

theorem exists_find?_iff (settings : Settings) :
    (∃ c, (ofGraph settings g).orderedClasses.find? (fun c => !g.isClass c.name) = some c) ↔
      ∃ n c, g.class? n = some c ∧ g.isClass c.name = false := by
  rw [← Option.isSome_iff_exists, List.find?_isSome]
  constructor
  · rintro ⟨c, hc, h⟩
    obtain ⟨n, hn⟩ := mem_orderedClasses.mp hc
    exact ⟨n, c, hn, by simpa using h⟩
  · rintro ⟨n, c, hn, h⟩
    exact ⟨c, mem_orderedClasses.mpr ⟨n, hn⟩, by simpa using h⟩

end

end Vocabulary

/-! ## settings that were accepted -/

namespace Surroundings
variable {s : Surroundings} {settings accepted : Settings} {path : Option String}

theorem checkBase_eq_ok_iff : checkBase settings = .ok accepted ↔
    isDeclarationName settings.output.baseName = true ∧ settings = accepted := by
  unfold checkBase
  cases isDeclarationName settings.output.baseName <;> simp

theorem isDeclarationName_of_settings (h : s.settings path = .ok accepted) :
    isDeclarationName accepted.output.baseName = true := by
  -- whatever was read, the base name is checked last
  have hchecked : ∃ settings, checkBase settings = .ok accepted := by
    unfold Surroundings.settings at h
    split at h
    · exact ⟨_, h⟩
    · split at h
      · cases h
      · split at h
        · cases h
        · split at h
          · cases h
          · exact ⟨_, h⟩
  obtain ⟨settings, hchecked⟩ := hchecked
  obtain ⟨hbase, rfl⟩ := checkBase_eq_ok_iff.mp hchecked
  exact hbase

end Surroundings

namespace Vocabulary

/-- **When generating declarations fails.**  On any graph it fails for the base name, if that cannot be
declared, and else for the first class, in the order of their declarations, whose name is not a key of the
graph; without either it does not fail.  So both generators give an output for every source, under all
settings that a command accepts. -/
theorem generation_fails (settings : Settings) (g : Graph) :
    (∀ fault, Generator.typescript.generate (ofGraph settings g) = .error fault ↔
      (isDeclarationName settings.output.baseName = false ∧
        fault = .config (.unusableBase settings.output.baseName)) ∨
      (isDeclarationName settings.output.baseName = true ∧
        ∃ c, (ofGraph settings g).orderedClasses.find? (fun c => !g.isClass c.name) = some c ∧
          fault = .noIdentifier c.name)) ∧
    ((∃ fault, Generator.typescript.generate (ofGraph settings g) = .error fault) ↔
      isDeclarationName settings.output.baseName = false ∨
        ∃ n c, g.class? n = some c ∧ g.isClass c.name = false) ∧
    ∀ (s : Surroundings) (path : Option String) (accepted : Settings),
      s.settings path = .ok accepted → ∀ source,
        (∃ text, Generator.typescript.generate (ofSource accepted source) = .ok text) ∧
          ∃ text, Generator.manifest.generate (ofSource accepted source) = .ok text := by
  refine ⟨fun fault => ?_, ?_, fun s path accepted haccepted source => ⟨?_, ?_⟩⟩
  · rw [Generator.typescript_generate_eq_error_iff, declarations_eq_error]
  · simp only [Generator.typescript_generate_eq_error_iff, declarations_eq_error]
    rw [← exists_find?_iff settings]
    constructor
    · rintro ⟨_, ⟨hbase, _⟩ | ⟨_, c, hc, _⟩⟩
      · exact Or.inl hbase
      · exact Or.inr ⟨c, hc⟩
    · intro h
      cases hbase : isDeclarationName settings.output.baseName with
      | false => exact ⟨_, Or.inl ⟨rfl, rfl⟩⟩
      | true =>
        rcases h with h | ⟨c, hc⟩
        · exact absurd (hbase.symm.trans h) (by decide)
        · exact ⟨_, Or.inr ⟨rfl, c, hc, rfl⟩⟩
  · exact generate_isOk accepted (Extraction.extract_keyedByName source accepted.dialect)
      (Surroundings.isDeclarationName_of_settings haccepted)
  · exact ⟨_, Generator.manifest_generate _⟩

/-- two classes, one of which has taken the name of a third -/
def misnamed : Graph :=
  ⟨(NameMap.empty.insert "Animal" (.named "Beast" "https://schema.org/Beast")).insert "Place"
    (.named "Place" "https://schema.org/Place"), ∅⟩

theorem generation_fails_misnamed :
    Generator.typescript.generate (ofGraph .schemaOrg misnamed) = .error (.noIdentifier "Beast") ∧
      ∃ text, Generator.typescript.generate (ofSource .schemaOrg (.ofTriples twoCycle)) =
        .ok text := by
  obtain ⟨hfails, _, haccepted⟩ := generation_fails .schemaOrg misnamed
  refine ⟨(hfails _).mpr (Or.inr ⟨rfl, .named "Beast" "https://schema.org/Beast", ?_, rfl⟩), ?_⟩
  · decide +kernel
  · have hdefault : Surroundings.settings
        ⟨fun _ => .error .notFound, fun _ => .failed "", fun _ => none⟩ none = .ok .schemaOrg :=
      Surroundings.checkBase_eq_ok_iff.mpr ⟨rfl, rfl⟩
    exact (haccepted _ none .schemaOrg hdefault _).1

end Vocabulary

end TypedVocabulary
