import TypedVocabulary.Proofs.Vocabulary.Failing

/-!
# Base names

The base type name of the settings is looked at three times: when settings are checked, when a command
takes them up and when declarations are generated.  Each has its own fault, and they fit together: what the
check demands is the form of an identifier, and what the other two add is that the name is not reserved.

* `Settings.check_eq_ok_iff`   the settings that the check accepts;
* `base_names_agree`           the three tests, and the normal form behind them.
-/

namespace TypedVocabulary

namespace Settings
variable {s : Settings}

theorem fault?_eq_none_iff : s.fault? = none ↔
    (∀ e ∈ checkedIris s.dialect, isAbsoluteText e.2.toList = true) ∧
      isIdentifier s.output.baseName = true := by
  unfold fault?
  split
  · rename_i field value hfind
    have hmem := List.mem_of_find?_eq_some hfind
    have hoffence : isAbsoluteText value.toList = false := by simpa using List.find?_some hfind
    refine iff_of_false (by simp) fun h => ?_
    have habsolute := h.1 _ hmem
    rw [hoffence] at habsolute
    cases habsolute
  · rename_i hfind
    have hall : ∀ e ∈ checkedIris s.dialect, isAbsoluteText e.2.toList = true := fun e he => by
      simpa using List.find?_eq_none.mp hfind e he
    rw [and_iff_right hall]
    cases isIdentifier s.output.baseName <;> simp

theorem check_eq_ok_iff : s.check = .ok s ↔
    (∀ e ∈ checkedIris s.dialect, isAbsoluteText e.2.toList = true) ∧
      HasIdentifierForm s.output.baseName := by
  rw [← isIdentifier_iff, ← fault?_eq_none_iff]
  unfold check
  cases s.fault? <;> simp

end Settings

/-- **Sanitized names are a normal form, and the tests of a base name agree with it.**  Sanitizing gives an
identifier that is not reserved and leaves it alone from then on; so a name can be declared as it is exactly
if it is one.  Of a base name, the check of settings demands the form of an identifier.  The command
demands besides that it is not reserved, and that is all that declarations can reject it for, on any graph. -/
theorem base_names_agree :
    (∀ name, HasIdentifierForm (sanitize name) ∧ sanitize name ∉ reservedNames ∧
      sanitize (sanitize name) = sanitize name ∧
      (isDeclarationName name = true ↔ HasIdentifierForm name ∧ name ∉ reservedNames)) ∧
    ∀ settings : Settings,
      let base := settings.output.baseName
      (settings.check = .ok settings ↔
        (∀ e ∈ Settings.checkedIris settings.dialect,
          Settings.isAbsoluteText e.2.toList = true) ∧ HasIdentifierForm base) ∧
      (Surroundings.checkBase settings = .ok settings ↔
        HasIdentifierForm base ∧ base ∉ reservedNames) ∧
      ∀ g, Generator.typescript.generate (.ofGraph settings g) =
          .error (.config (.unusableBase base)) ↔
        ¬ (HasIdentifierForm base ∧ base ∉ reservedNames) := by
  have hdeclared : ∀ {name}, isDeclarationName name = true ↔
      HasIdentifierForm name ∧ name ∉ reservedNames := fun {name} => by
    rw [isDeclarationName_iff, isIdentifier_iff]
  refine ⟨fun name => ⟨isIdentifier_iff.mp (isIdentifier_sanitize name), sanitize_not_mem name,
    sanitize_sanitize name, hdeclared⟩, fun settings => ⟨Settings.check_eq_ok_iff, ?_, fun g => ?_⟩⟩
  · rw [Surroundings.checkBase_eq_ok_iff, and_iff_left rfl]
    exact hdeclared
  · rw [Generator.typescript_generate_eq_error_iff, Vocabulary.declarations_eq_error, ← hdeclared,
      Bool.not_eq_true]
    constructor
    · rintro (⟨h, -⟩ | ⟨-, _, -, e⟩)
      · exact h
      · cases e
    · exact fun h => Or.inl ⟨h, rfl⟩

end TypedVocabulary
