import TypedVocabulary.Proofs.Graph.Reordering
import TypedVocabulary.Proofs.Vocabulary.Hierarchy

/-!
# Vocabularies of one shape

Graphs of one shape differ in the order of edges and in comments.  Compiled under settings with one base
name they have the same order of classes, the same identifiers and the same hierarchy, and under one table
of primitives the same types; what else the settings say does not matter:

* `Vocabulary.linearization_congr`, `Vocabulary.extendable_congr`   under any settings;
* `Vocabulary.identifiers_congr`, `Vocabulary.identifier_congr`     under one base name;
* `Vocabulary.fieldType_congr`                                      also under the same primitives.
-/

namespace TypedVocabulary

theorem NameSet.ofList_perm {xs ys : List String} (h : xs.Perm ys) : ofList xs = ofList ys :=
  ofList_congr fun _ => h.mem_iff

namespace Vocabulary

section
variable (s t : Settings) {g h : Graph}

theorem linearization_congr (hg : g.SameShape h) :
    (ofGraph s g).linearization = (ofGraph t h).linearization := hg.linearize

theorem placedBefore_congr (hg : g.SameShape h) (a b : String) :
    (ofGraph s g).placedBefore a b = (ofGraph t h).placedBefore a b := by
  unfold placedBefore
  rw [linearization_congr s t hg]

theorem extendable_congr (hg : g.SameShape h) (c : String) :
    (ofGraph s g).extendable c = (ofGraph t h).extendable c := by
  refine NameSet.ext fun p => ?_
  rw [mem_extendable, mem_extendable, hg.hasParent, hg.ancestors, placedBefore_congr s t hg]

end

section
variable {s t : Settings} {g h : Graph}

theorem identifiers_congr (hb : s.output.baseName = t.output.baseName) (hg : g.SameShape h) :
    (ofGraph s g).identifiers = (ofGraph t h).identifiers := by
  have hk : g.classes.keySet = h.classes.keySet :=
    NameSet.ext fun n => by rw [NameMap.mem_keySet, NameMap.mem_keySet, hg.classKeys]
  show IdentifierTable.ofNames _ _ = IdentifierTable.ofNames _ _
  rw [hk, hb]

theorem identifier?_congr (hb : s.output.baseName = t.output.baseName) (hg : g.SameShape h) :
    (ofGraph s g).identifier? = (ofGraph t h).identifier? := by
  funext n
  unfold identifier?
  rw [identifiers_congr hb hg]

theorem identifier_congr (hb : s.output.baseName = t.output.baseName) (hg : g.SameShape h) :
    (ofGraph s g).identifier = (ofGraph t h).identifier := by
  funext n
  unfold identifier
  rw [identifier?_congr hb hg]

theorem fieldType_congr (hb : s.output.baseName = t.output.baseName)
    (hp : s.primitives = t.primitives) (hg : g.SameShape h) {p q : PropertyDecl}
    (hpq : p.SameEdges q) : (ofGraph s g).fieldType p = (ofGraph t h).fieldType q := by
  have hprim : (ofGraph s g).settings.primitives = (ofGraph t h).settings.primitives := hp
  unfold fieldType FieldType.ofRanges
  rw [identifiers_congr hb hg, hprim, NameSet.ofList_perm hpq.ranges, hpq.ranges.isEmpty_eq]

end

end Vocabulary

end TypedVocabulary
