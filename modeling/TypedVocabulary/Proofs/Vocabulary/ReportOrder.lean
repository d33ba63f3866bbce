import TypedVocabulary.Command.Run
import TypedVocabulary.Proofs.Vocabulary.Reported
import TypedVocabulary.Proofs.Vocabulary.StatementOrder

/-!
# Reports and the order of statements

Outputs do not show the order of statements.  Reports do, in one place: the undeclared parents of a class are
listed as the statements first give them.

* `Vocabulary.danglingParents_perm`   these lists are permutations of each other, class by class;
* `Vocabulary.report_reordered`       everything else in a report is free of the order of edges;
* `Vocabulary.report_eq_iff`          so reports are equal when the undeclared parents of each class are;
* `Vocabulary.report_order`           which statements have one report only.

A class with one undeclared parent can list it in one way only.  With two of them there are two ways: to
say either statement once more, in front of all others, changes no answer of the source but puts that
parent first.
-/

namespace TypedVocabulary

/-- blocks of known lengths can be told apart in a concatenation -/
theorem flatMap_eq_flatMap_iff {α β : Type} {f g : α → List β} {xs : List α}
    (hlen : ∀ a ∈ xs, (f a).length = (g a).length) :
    xs.flatMap f = xs.flatMap g ↔ ∀ a ∈ xs, f a = g a := by
  induction xs with
  | nil => simp
  | cons x xs ih =>
    have ih := ih fun a ha => hlen a (List.mem_cons_of_mem _ ha)
    rw [List.flatMap_cons, List.flatMap_cons, List.forall_mem_cons, ← ih]
    constructor
    · intro h
      exact List.append_inj h (hlen x (List.mem_cons_self ..))
    · rintro ⟨h1, h2⟩
      rw [h1, h2]

/-- lists of one element, repeated or not, have only one order -/
theorem eq_of_perm_of_forall_eq {α : Type} {xs ys : List α} (h : xs.Perm ys)
    (hone : ∀ x ∈ xs, ∀ y ∈ ys, x = y) : xs = ys := by
  have hall : ∀ zs : List α, zs.Pairwise fun _ _ => True := fun zs =>
    List.pairwise_of_forall fun _ _ => trivial
  exact h.eq_of_pairwise (fun x y hx hy _ _ => hone x hx y hy) (hall xs) (hall ys)

theorem prefix_addNew (names more : List String) : names <+: addNew names more := by
  induction more generalizing names with
  | nil => exact List.prefix_refl names
  | cons x more ih =>
    refine List.IsPrefix.trans ?_ (ih (if x ∈ names then names else names ++ [x]))
    split
    · exact List.prefix_refl names
    · exact List.prefix_append names [x]

/-! ## undeclared parents -/

theorem Graph.Reordered.undeclaredParents {g h : Graph} (hr : g.Reordered h) (c : String) :
    (g.undeclaredParents c).Perm (h.undeclaredParents c) := by
  unfold Graph.undeclaredParents
  rw [hr.sameShape.isClass]
  rcases rel_cases (hr.class? c) with ⟨hg, hh⟩ | ⟨a, b, hg, hh, hab⟩
  · rw [hg, hh]
  · rw [hg, hh]
    exact hab.parents.filter _

namespace Vocabulary

section
variable {settings : Settings} {g h : Graph}

theorem danglingParents_perm (hg : g.KeyedByName) (hh : h.KeyedByName) (hr : g.Reordered h) :
    (ofGraph settings h).report.danglingParents.Perm (ofGraph settings g).report.danglingParents := by
  rw [danglingParents_eq hg, danglingParents_eq hh, hr.sameShape.classKeys]
  exact List.Perm.flatMap_left _ fun c _ => (hr.undeclaredParents c).symm.map _

theorem map_fst_danglingParents (hg : g.KeyedByName) (hh : h.KeyedByName) (hr : g.Reordered h) :
    (ofGraph settings h).report.danglingParents.map Prod.fst =
      (ofGraph settings g).report.danglingParents.map Prod.fst := by
  rw [danglingParents_eq hg, danglingParents_eq hh, hr.sameShape.classKeys, List.map_flatMap,
    List.map_flatMap]
  refine List.flatMap_congr fun c _ => ?_
  rw [List.map_map, List.map_map]
  show List.map (fun _ => c) _ = List.map (fun _ => c) _
  rw [List.map_const', List.map_const', (hr.undeclaredParents c).length_eq]

theorem unattachedProperties_congr (settings : Settings) (hr : g.Reordered h) :
    (ofGraph settings h).report.unattachedProperties =
      (ofGraph settings g).report.unattachedProperties := by
  show (h.properties.values.filter fun p => !p.domains.any h.isClass).map PropertyDecl.name =
    (g.properties.values.filter fun p => !p.domains.any g.isClass).map PropertyDecl.name
  rw [hr.sameShape.isClass]
  symm
  refine map_congr_forall₂ (List.rel_filter ?_ (properties_congr hr)) fun _ _ hpq => hpq.name
  intro p q hpq
  show (!p.domains.any h.isClass) = true ↔ (!q.domains.any h.isClass) = true
  rw [hpq.domains.any_eq]

/-- **Only the undeclared parents of a report show the order of edges.** -/
theorem report_reordered (hr : g.Reordered h) : (ofGraph settings h).report =
    { (ofGraph settings g).report with
      danglingParents := (ofGraph settings h).report.danglingParents } := by
  have hclasses : h.classes.size = g.classes.size := by
    rw [← NameMap.length_keys, ← NameMap.length_keys, hr.sameShape.classKeys]
  have hproperties : h.properties.size = g.properties.size := by
    rw [← NameMap.length_keys, ← NameMap.length_keys, hr.sameShape.propertyKeys]
  have hunresolved : h.linearize.unresolved = g.linearize.unresolved := by
    rw [hr.sameShape.linearize]
  have hcollisions : (ofGraph settings h).identifiers = (ofGraph settings g).identifiers :=
    (identifiers_congr rfl hr.sameShape).symm
  have hunattached := unattachedProperties_congr settings hr
  show Report.mk _ h.classes.size h.properties.size h.linearize.unresolved
    (ofGraph settings h).report.unattachedProperties _
    (ofGraph settings h).identifiers.collisions = _
  rw [hclasses, hproperties, hunresolved, hunattached, hcollisions]
  rfl

theorem report_eq_iff (hg : g.KeyedByName) (hh : h.KeyedByName) (hr : g.Reordered h) :
    (ofGraph settings h).report = (ofGraph settings g).report ↔
      ∀ c, g.isClass c = true → h.undeclaredParents c = g.undeclaredParents c := by
  have hreport : (ofGraph settings h).report = (ofGraph settings g).report ↔
      (ofGraph settings h).report.danglingParents = (ofGraph settings g).report.danglingParents := by
    constructor
    · intro e
      rw [e]
    · intro e
      rw [report_reordered hr, e]
  rw [hreport, danglingParents_eq hg, danglingParents_eq hh, ← hr.sameShape.classKeys,
    flatMap_eq_flatMap_iff]
  · refine forall_congr' fun c => ?_
    rw [Graph.isClass_iff, List.map_inj_right fun _ _ e => congrArg Prod.snd e]
  · intro c _
    rw [List.length_map, List.length_map, (hr.undeclaredParents c).length_eq]

end

end Vocabulary

/-! ## statements -/

/-- a statement puts the declared class `c` below `q`, which is not declared -/
def StatesDangling (ts : List Triple) (d : Dialect) (c q : String) : Prop :=
  StatesClass ts d c ∧ q ≠ "" ∧ ¬ StatesClass ts d q ∧ ⟨d.iri c, d.subclassOf, d.iri q⟩ ∈ ts

section
variable {ts us : List Triple} {d : Dialect} {c q q' : String}

theorem statesDangling_congr (h : ∀ t, t ∈ us ↔ t ∈ ts) :
    StatesDangling us d c q ↔ StatesDangling ts d c q := by
  unfold StatesDangling StatesClass
  simp only [h]

theorem undeclaredParents_extract (hc : StatesClass ts d c) :
    (Extraction.extract (.ofTriples ts) d).undeclaredParents c =
      (addNew [] (namesStated ts d (d.iri c) d.subclassOf)).filter fun q =>
        !(Extraction.extract (.ofTriples ts) d).isClass q := by
  unfold Graph.undeclaredParents
  rw [class?_extract_iff.mpr ⟨hc, rfl⟩]
  rfl

theorem mem_undeclaredParents_extract (hc : StatesClass ts d c) :
    q ∈ (Extraction.extract (.ofTriples ts) d).undeclaredParents c ↔ StatesDangling ts d c q := by
  rw [undeclaredParents_extract hc, List.mem_filter, mem_addNew_namesStated, Bool.not_eq_true',
    ← Bool.not_eq_true, isClass_extract_iff]
  unfold StatesDangling
  rw [and_iff_right hc]
  tauto

/-- to say once more that `c` is below `q` says nothing new -/
theorem StatesDangling.mem_cons_iff (h : StatesDangling ts d c q) (t : Triple) :
    t ∈ ⟨d.iri c, d.subclassOf, d.iri q⟩ :: ts ↔ t ∈ ts := by
  rw [List.mem_cons]
  exact or_iff_right_of_imp fun e => e ▸ h.2.2.2

/-- but said in front of all others it puts this parent first -/
theorem StatesDangling.head?_undeclaredParents (h : StatesDangling ts d c q) :
    ((Extraction.extract (.ofTriples (⟨d.iri c, d.subclassOf, d.iri q⟩ :: ts)) d).undeclaredParents
      c).head? = some q := by
  obtain ⟨hc, hne, hq, -⟩ := (statesDangling_congr h.mem_cons_iff).mpr h
  have hname : d.localName? (d.iri q) = some q := Dialect.localName?_eq_some_iff.mpr ⟨rfl, hne⟩
  have hfirst : namesStated (⟨d.iri c, d.subclassOf, d.iri q⟩ :: ts) d (d.iri c) d.subclassOf =
      q :: namesStated ts d (d.iri c) d.subclassOf := by
    unfold namesStated Dialect.localNames Source.ofTriples
    simp [hname]
  obtain ⟨rest, hrest⟩ := prefix_addNew [q] (namesStated ts d (d.iri c) d.subclassOf)
  rw [undeclaredParents_extract hc, hfirst]
  show (List.filter _ (addNew [q] _)).head? = _
  have hout : (!(Extraction.extract
      (.ofTriples (⟨d.iri c, d.subclassOf, d.iri q⟩ :: ts)) d).isClass q) = true := by
    rw [Bool.not_eq_true', ← Bool.not_eq_true, isClass_extract_iff]
    exact hq
  rw [← hrest, List.singleton_append, List.filter_cons, if_pos hout]
  rfl

end

namespace Vocabulary

/-- **What a report shows of the order of statements.**  Lists with the same triples have reports that
differ in the order of undeclared parents at most, and there class by class.  All of them have the
same report exactly when the statements give no class two undeclared parents. -/
theorem report_order (settings : Settings) (ts : List Triple) :
    let d := settings.dialect
    let report := fun us => (ofSource settings (.ofTriples us)).report
    (∀ us, (∀ t, t ∈ us ↔ t ∈ ts) →
      report us = { report ts with danglingParents := (report us).danglingParents } ∧
      (report us).danglingParents.Perm (report ts).danglingParents ∧
      (report us).danglingParents.map Prod.fst = (report ts).danglingParents.map Prod.fst) ∧
    ((∀ us, (∀ t, t ∈ us ↔ t ∈ ts) → report us = report ts) ↔
      ∀ c q q', StatesDangling ts d c q → StatesDangling ts d c q' → q = q') := by
  intro d report
  have hk : ∀ us, (Extraction.extract (.ofTriples us) d).KeyedByName := fun us =>
    Extraction.extract_keyedByName _ _
  have hr : ∀ us, (∀ t, t ∈ us ↔ t ∈ ts) → (Extraction.extract (.ofTriples ts) d).Reordered
      (Extraction.extract (.ofTriples us) d) := fun us h =>
    Extraction.extract_reordered (Source.agree_ofTriples fun t => (h t).symm)
  refine ⟨fun us h => ⟨report_reordered (hr us h), danglingParents_perm (hk ts) (hk us) (hr us h),
    map_fst_danglingParents (hk ts) (hk us) (hr us h)⟩, ?_⟩
  constructor
  · intro hall c q q' hq hq'
    have hfirst : ∀ p, StatesDangling ts d c p →
        ((Extraction.extract (.ofTriples ts) d).undeclaredParents c).head? = some p := by
      intro p hp
      have hsame := hp.mem_cons_iff
      have he := (report_eq_iff (hk ts) (hk _) (hr _ hsame)).mp (hall _ hsame) c
        (isClass_extract_iff.mpr hp.1)
      rw [← he]
      exact hp.head?_undeclaredParents
    exact Option.some.inj ((hfirst q hq).symm.trans (hfirst q' hq'))
  · intro hone us h
    apply (report_eq_iff (hk ts) (hk us) (hr us h)).mpr
    intro c hc
    have hc' : StatesClass ts d c := isClass_extract_iff.mp hc
    have hcu : StatesClass us d c := ⟨hc'.1, (h _).mpr hc'.2⟩
    apply eq_of_perm_of_forall_eq ((hr us h).undeclaredParents c).symm
    intro q hq q' hq'
    exact hone c q q' ((statesDangling_congr h).mp ((mem_undeclaredParents_extract hcu).mp hq))
      ((mem_undeclaredParents_extract hc').mp hq')

/-- a class below two that are not declared -/
def strayParents : List Triple :=
  let d := Dialect.schemaOrg
  [⟨d.iri "Cat", d.typePredicate, d.classType⟩, ⟨d.iri "Cat", d.subclassOf, d.iri "Zed"⟩,
    ⟨d.iri "Cat", d.subclassOf, d.iri "Abe"⟩]

/-- told backwards, the same statements have another report, in words and as an object -/
theorem report_order_strayParents :
    let report := fun us => (ofSource .schemaOrg (.ofTriples us)).report
    (∀ t, t ∈ strayParents.reverse ↔ t ∈ strayParents) ∧
      (report strayParents).danglingParents = [("Cat", "Zed"), ("Cat", "Abe")] ∧
      (report strayParents.reverse).danglingParents = [("Cat", "Abe"), ("Cat", "Zed")] ∧
      ∀ json, (report strayParents.reverse).shown json ≠ (report strayParents).shown json := by
  refine ⟨fun t => List.mem_reverse, by decide +kernel, by decide +kernel, fun json => ?_⟩
  cases json <;> decide +kernel

end Vocabulary

end TypedVocabulary
