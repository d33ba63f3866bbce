import TypedVocabulary.Extraction
import TypedVocabulary.Proofs.Names.Lookups

/-!
# What extraction reads

Five passes and the attaching of properties build a graph.  Here they are put together: what the graph
of a source answers for a name is read off the source directly.

* `Extraction.class?_extract`, `Extraction.property?_extract`   the class and the property of a name;
* `Extraction.mem_propertiesAt_extract`   the properties that have a class among their domains;
* `Extraction.extract_keyedByName`   every term is kept under its own name;
* `smallest?_eq_some_iff`   the comment of a term is the smallest, wherever it stands.
-/

namespace TypedVocabulary

/-! ## sources -/

section
variable {ts : List Triple} {subject predicate object : String}

theorem Source.mem_objects : object ∈ (ofTriples ts).objects subject predicate ↔
    ⟨subject, predicate, object⟩ ∈ ts := by
  unfold ofTriples
  simp only [List.mem_map, List.mem_filter, decide_eq_true_eq]
  constructor
  · rintro ⟨t, ⟨ht, rfl, rfl⟩, rfl⟩
    exact ht
  · intro h
    exact ⟨_, ⟨h, rfl, rfl⟩, rfl⟩

theorem Source.mem_subjects : subject ∈ (ofTriples ts).subjects predicate object ↔
    ⟨subject, predicate, object⟩ ∈ ts := by
  unfold ofTriples
  simp only [List.mem_map, List.mem_filter, decide_eq_true_eq]
  constructor
  · rintro ⟨t, ⟨ht, rfl, rfl⟩, rfl⟩
    exact ht
  · intro h
    exact ⟨_, ⟨h, rfl, rfl⟩, rfl⟩

end

/-! ## names and lists -/

/-- the IRI of a local name -/
def Dialect.iri (d : Dialect) (name : String) : String := d.namespaceIri ++ name

section
variable {d : Dialect} {iri n : String} {iris names more : List String}

theorem Dialect.iri_injective (h : d.iri n = d.iri iri) : n = iri := by
  have e := congrArg String.toList h
  unfold Dialect.iri at e
  rw [String.toList_append, String.toList_append] at e
  exact String.toList_injective (List.append_cancel_left e)

/-- a local name is what is left of an IRI behind the namespace; something must be left -/
theorem Dialect.localName?_eq_some_iff : d.localName? iri = some n ↔ iri = d.iri n ∧ n ≠ "" := by
  unfold localName? Dialect.iri
  constructor
  · intro h
    split at h
    · rename_i hp
      rw [Bool.and_eq_true, List.isPrefixOf_iff_prefix, decide_eq_true_eq] at hp
      obtain ⟨⟨rest, hrest⟩, hlen⟩ := hp
      cases h
      rw [← hrest, List.drop_left]
      refine ⟨String.toList_injective (by simp [hrest]), fun e => ?_⟩
      rw [String.ofList_eq_empty_iff] at e
      subst e
      rw [← hrest, List.append_nil] at hlen
      exact absurd hlen (Nat.lt_irrefl _)
    · cases h
  · rintro ⟨rfl, hn⟩
    have hlen : 0 < n.toList.length := by
      rw [List.length_pos_iff]
      exact fun e => hn (String.toList_injective e)
    have hp : (d.namespaceIri.toList.isPrefixOf (d.namespaceIri ++ n).toList &&
        decide (d.namespaceIri.toList.length < (d.namespaceIri ++ n).toList.length)) = true := by
      rw [String.toList_append, Bool.and_eq_true, List.isPrefixOf_iff_prefix, decide_eq_true_eq,
        List.length_append]
      exact ⟨List.prefix_append .., by omega⟩
    rw [if_pos hp, String.toList_append, List.drop_left, String.ofList_toList]

theorem Dialect.mem_localNames : n ∈ d.localNames iris ↔ d.iri n ∈ iris ∧ n ≠ "" := by
  unfold localNames
  rw [List.mem_filterMap]
  constructor
  · rintro ⟨iri, hi, h⟩
    obtain ⟨rfl, hn⟩ := localName?_eq_some_iff.mp h
    exact ⟨hi, hn⟩
  · rintro ⟨hi, hn⟩
    exact ⟨d.iri n, hi, localName?_eq_some_iff.mpr ⟨rfl, hn⟩⟩

theorem mem_addNew : n ∈ addNew names more ↔ n ∈ names ∨ n ∈ more := by
  induction more generalizing names with
  | nil => simp [addNew]
  | cons x more ih =>
    show n ∈ addNew (if x ∈ names then names else names ++ [x]) more ↔ _
    rw [ih]
    split <;> grind

theorem addNew_nodup (h : names.Nodup) : (addNew names more).Nodup := by
  induction more generalizing names with
  | nil => exact h
  | cons x more ih =>
    show (addNew (if x ∈ names then names else names ++ [x]) more).Nodup
    refine ih ?_
    split
    · exact h
    · rename_i hx
      exact List.nodup_append.mpr ⟨h, List.pairwise_singleton _ x, by grind⟩

end

/-! ## the smallest name -/

/-- the fold ends at a name that it met, and no name that it met is below it -/
theorem smallestFrom_spec (x : String) (xs : List String) :
    let m := xs.foldl (fun m y => if y < m then y else m) x
    m ∈ x :: xs ∧ ∀ y ∈ x :: xs, m ≤ y := by
  induction xs generalizing x with
  | nil =>
    refine ⟨List.mem_cons_self .., fun y hy => ?_⟩
    rw [List.mem_singleton.mp hy]
    exact String.le_refl x
  | cons z xs ih =>
    obtain ⟨hm, hmin⟩ := ih (if z < x then z else x)
    -- the first step is below both names that it compares, and the rest is below the step
    have hw : (if z < x then z else x) ≤ x ∧ (if z < x then z else x) ≤ z := by
      split
      · rename_i h
        exact ⟨String.not_lt.mp (String.lt_asymm h), String.le_refl z⟩
      · rename_i h
        exact ⟨String.le_refl x, String.not_lt.mp h⟩
    have hmw := hmin _ (List.mem_cons_self ..)
    rw [List.foldl_cons]
    refine ⟨?_, fun y hy => ?_⟩
    · rcases List.mem_cons.mp hm with e | hm
      · rw [e]
        split <;> simp
      · exact List.mem_cons_of_mem _ (List.mem_cons_of_mem _ hm)
    · rcases List.mem_cons.mp hy with rfl | hy
      · exact String.le_trans hmw hw.1
      · rcases List.mem_cons.mp hy with rfl | hy
        · exact String.le_trans hmw hw.2
        · exact hmin y (List.mem_cons_of_mem _ hy)

/-- **The smallest of some names is a member that no other is below.** -/
theorem smallest?_eq_some_iff {xs : List String} {m : String} :
    smallest? xs = some m ↔ m ∈ xs ∧ ∀ y ∈ xs, m ≤ y := by
  cases xs with
  | nil => simp [smallest?]
  | cons x xs =>
    obtain ⟨hm, hmin⟩ := smallestFrom_spec x xs
    constructor
    · intro h
      cases h
      exact ⟨hm, hmin⟩
    · rintro ⟨hm', hmin'⟩
      exact congrArg some (String.le_antisymm (hmin m hm') (hmin' _ hm))

theorem smallest?_eq_none_iff {xs : List String} : smallest? xs = none ↔ xs = [] := by
  cases xs <;> simp [smallest?]

theorem smallest?_congr {xs ys : List String} (h : ∀ x, x ∈ xs ↔ x ∈ ys) :
    smallest? xs = smallest? ys := by
  refine Option.ext fun m => ?_
  rw [smallest?_eq_some_iff, smallest?_eq_some_iff]
  simp only [h]

/-! ## attaching properties -/

namespace Graph

/-- the names of the properties that have the class `n` among their domains -/
def propertiesAt (g : Graph) (n : String) : NameSet :=
  NameSet.ofList ((g.properties.values.filter fun p => n ∈ p.domains).map (·.name))

section
variable {g : Graph} {classes : NameMap ClassDecl} {n p : String}

theorem mem_propertiesAt : p ∈ g.propertiesAt n ↔
    ∃ k q, g.property? k = some q ∧ n ∈ q.domains ∧ q.name = p := by
  unfold propertiesAt
  rw [NameSet.mem_ofList, List.mem_map]
  simp only [List.mem_filter, decide_eq_true_eq, NameMap.mem_values]
  constructor
  · rintro ⟨q, ⟨⟨k, hk⟩, hn⟩, rfl⟩
    exact ⟨k, q, hk, hn, rfl⟩
  · rintro ⟨k, q, hk, hn, rfl⟩
    exact ⟨q, ⟨⟨k, hk⟩, hn⟩, rfl⟩

/-- the class `c` with the properties `s` besides its own -/
def withProperties (s : NameSet) (c : ClassDecl) : ClassDecl :=
  { c with properties := c.properties.union s }

theorem withProperties_withProperties (s t : NameSet) (c : ClassDecl) :
    withProperties t (withProperties s c) = withProperties (s.union t) c := by
  refine congrArg (ClassDecl.mk c.name c.iri c.parents · c.comment) (NameSet.ext fun x => ?_)
  simp only [withProperties, NameSet.mem_union, or_assoc]

/-- a property is entered at the classes among its domains -/
theorem get?_attach (p : String) (domains : List String) :
    (attach p classes domains).get? n =
      (classes.get? n).map (withProperties (if n ∈ domains then .ofList [p] else ∅)) := by
  induction domains generalizing classes with
  | nil => exact (Option.map_id' (x := classes.get? n)).symm
  | cons d domains ih =>
    show (attach p (classes.modify d (withProperties (.ofList [p]))) domains).get? n = _
    rw [ih, NameMap.get?_modify]
    by_cases e : n = d
    · have hn : n ∈ d :: domains := e ▸ List.mem_cons_self ..
      rw [if_pos e, if_pos hn, Option.map_map]
      refine Option.map_congr fun c _ => ?_
      rw [Function.comp_apply, withProperties_withProperties]
      refine congrArg (withProperties · c) (NameSet.ext fun x => ?_)
      split <;> simp
    · rw [if_neg e]
      simp only [List.mem_cons, e, false_or]

theorem get?_foldl_attach (ps : List PropertyDecl) :
    (ps.foldl (fun classes p => attach p.name classes p.domains) classes).get? n =
      (classes.get? n).map
        (withProperties (.ofList ((ps.filter fun p => n ∈ p.domains).map (·.name)))) := by
  induction ps generalizing classes with
  | nil => exact (Option.map_id' (x := classes.get? n)).symm
  | cons p ps ih =>
    rw [List.foldl_cons, ih, get?_attach, Option.map_map]
    refine Option.map_congr fun c _ => ?_
    rw [Function.comp_apply, withProperties_withProperties]
    refine congrArg (withProperties · c) (NameSet.ext fun x => ?_)
    rw [List.filter_cons]
    split <;> simp_all

/-- **Every property is entered at the classes among its domains, and nowhere else.** -/
theorem class?_attachProperties :
    g.attachProperties.class? n = (g.class? n).map (withProperties (g.propertiesAt n)) :=
  get?_foldl_attach g.properties.values

end

end Graph

/-- every class and every property is kept under its own name -/
structure Graph.KeyedByName (g : Graph) : Prop where
  className : ∀ n c, g.class? n = some c → c.name = n
  propertyName : ∀ n p, g.property? n = some p → p.name = n

/-- every class is kept under its own name -/
def Graph.ClassesByName (g : Graph) : Prop := ∀ n c, g.class? n = some c → c.name = n

instance {g : Graph} : Coe g.KeyedByName g.ClassesByName := ⟨Graph.KeyedByName.className⟩

/-! ## the passes -/

namespace Extraction

section
variable (source : Source) (d : Dialect)

/-- the source declares the name `n` as a term of a kind -/
def Declared (kind n : String) : Prop := n ≠ "" ∧ d.iri n ∈ typed source d kind

instance (kind n : String) : Decidable (Declared source d kind n) := instDecidableAnd

/-- the class `n` as the statements about its IRI describe it -/
def classRead (properties : NameSet) (n : String) : ClassDecl where
  name := n
  iri := d.iri n
  parents := addNew [] (d.localNames (source.objects (d.iri n) d.subclassOf))
  properties := properties
  comment := comment? source d (d.iri n)

/-- the property `n` as the statements about its IRI describe it -/
def propertyRead (n : String) : PropertyDecl where
  name := n
  iri := d.iri n
  domains := addNew [] (d.localNames (source.objects (d.iri n) d.domainIncludes))
  ranges := addNew [] (d.localNames (source.objects (d.iri n) d.rangeIncludes))
  comment := comment? source d (d.iri n)

end

section
variable {source : Source} {d : Dialect} {n p : String}

/-- declaring enters a value for every local name among the IRIs -/
theorem get?_declare {α : Type} (f : String → String → α) (iris : List String) (m : NameMap α) :
    (iris.foldl (fun m iri => match d.localName? iri with
        | some name => m.insertIfNew name (f name iri)
        | none => m) m).get? n =
      (m.get? n).or (if n ≠ "" ∧ d.iri n ∈ iris then some (f n (d.iri n)) else none) := by
  induction iris generalizing m with
  | nil => simp
  | cons iri iris ih =>
    rw [List.foldl_cons, ih]
    cases h : d.localName? iri with
    | none =>
      have hne : ¬ (n ≠ "" ∧ d.iri n = iri) := fun ⟨hn, e⟩ => by
        rw [Dialect.localName?_eq_some_iff.mpr ⟨e.symm, hn⟩] at h
        cases h
      grind
    | some name =>
      obtain ⟨rfl, hn⟩ := Dialect.localName?_eq_some_iff.mp h
      show ((m.insertIfNew name _).get? n).or _ = _
      rw [NameMap.get?_insertIfNew, Option.or_assoc]
      by_cases e : n = name
      · subst e
        rw [if_pos rfl, if_pos (⟨hn, List.mem_cons_self ..⟩ : n ≠ "" ∧ d.iri n ∈ d.iri n :: iris)]
        rfl
      · have hne : d.iri n ≠ d.iri name := fun h => e (Dialect.iri_injective h)
        rw [if_neg e, Option.none_or]
        simp only [List.mem_cons, hne, false_or]

theorem class?_collectClasses (g : Graph) : (collectClasses source d g).class? n =
    (g.class? n).or
      (if Declared source d d.classType n then some (.named n (d.iri n)) else none) :=
  get?_declare ClassDecl.named (typed source d d.classType) g.classes

theorem property?_collectProperties (g : Graph) : (collectProperties source d g).property? n =
    (g.property? n).or
      (if Declared source d d.propertyType n then some (.named n (d.iri n)) else none) :=
  get?_declare PropertyDecl.named (typed source d d.propertyType) g.properties

theorem class?_resolveSubclassing (g : Graph) : (resolveSubclassing source d g).class? n =
    (g.class? n).map fun c =>
      { c with parents := addNew c.parents (d.localNames (source.objects c.iri d.subclassOf)) } :=
  NameMap.get?_map ..

theorem property?_resolveDomainsAndRanges (g : Graph) :
    (resolveDomainsAndRanges source d g).property? n = (g.property? n).map fun p =>
      { p with
        domains := addNew [] (d.localNames (source.objects p.iri d.domainIncludes))
        ranges := addNew [] (d.localNames (source.objects p.iri d.rangeIncludes)) } :=
  NameMap.get?_map ..

theorem class?_collectComments (g : Graph) : (collectComments source d g).class? n =
    (g.class? n).map fun c => { c with comment := comment? source d c.iri } :=
  NameMap.get?_map ..

theorem property?_collectComments (g : Graph) : (collectComments source d g).property? n =
    (g.property? n).map fun p => { p with comment := comment? source d p.iri } :=
  NameMap.get?_map ..

/-! ## the graph -/

/-- **The property of a name is what the statements about its IRI say, if it is declared.** -/
theorem property?_extract : (extract source d).property? n =
    if Declared source d d.propertyType n then some (propertyRead source d n) else none := by
  show (collectComments source d _).property? n = _
  rw [property?_collectComments, property?_resolveDomainsAndRanges]
  show Option.map _ (Option.map _ ((collectProperties source d _).property? n)) = _
  rw [property?_collectProperties]
  show Option.map _ (Option.map _ ((none : Option PropertyDecl).or _)) = _
  split <;> rfl

/-- **The class of a name is what the statements about its IRI say, if it is declared**, with the
properties that have it among their domains. -/
theorem class?_extract : (extract source d).class? n =
    if Declared source d d.classType n then
      some (classRead source d ((extract source d).propertiesAt n) n)
    else none := by
  unfold extract
  rw [Graph.class?_attachProperties, class?_collectComments]
  show Option.map _ (Option.map _ ((resolveSubclassing source d _).class? n)) = _
  rw [class?_resolveSubclassing]
  show Option.map _ (Option.map _ (Option.map _ ((collectClasses source d _).class? n))) = _
  rw [class?_collectClasses]
  show Option.map _ (Option.map _ (Option.map _ ((none : Option ClassDecl).or _))) = _
  split
  · refine congrArg some (congrArg (ClassDecl.mk n (d.iri n) _ · _) (NameSet.ext fun p => ?_))
    rw [NameSet.mem_union]
    exact or_iff_right (NameSet.not_mem_empty p)
  · rfl

theorem isClass_extract :
    (extract source d).isClass n = true ↔ Declared source d d.classType n := by
  show ((extract source d).class? n).isSome = true ↔ _
  rw [class?_extract]
  split <;> simp_all

/-- **A class has the declared properties that name it among their domains.** -/
theorem mem_propertiesAt_extract : p ∈ (extract source d).propertiesAt n ↔
    Declared source d d.propertyType p ∧
      n ≠ "" ∧ d.iri n ∈ source.objects (d.iri p) d.domainIncludes := by
  rw [Graph.mem_propertiesAt]
  constructor
  · rintro ⟨k, q, hk, hn, rfl⟩
    rw [property?_extract] at hk
    split at hk
    · rename_i hdecl
      cases hk
      rcases mem_addNew.mp hn with hn | hn
      · exact absurd hn (List.not_mem_nil)
      · obtain ⟨hi, hne⟩ := Dialect.mem_localNames.mp hn
        exact ⟨hdecl, hne, hi⟩
    · cases hk
  · rintro ⟨hdecl, hne, hi⟩
    refine ⟨p, propertyRead source d p, ?_, ?_, rfl⟩
    · rw [property?_extract, if_pos hdecl]
    · exact mem_addNew.mpr (Or.inr (Dialect.mem_localNames.mpr ⟨hi, hne⟩))

/-- **Extraction keeps every term under its own name.** -/
theorem extract_keyedByName (source : Source) (d : Dialect) : (extract source d).KeyedByName where
  className n c h := by
    rw [class?_extract] at h
    split at h
    · cases h
      rfl
    · cases h
  propertyName n p h := by
    rw [property?_extract] at h
    split at h
    · cases h
      rfl
    · cases h

end

end Extraction

end TypedVocabulary
