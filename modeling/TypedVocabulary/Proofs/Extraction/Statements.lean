import Mathlib.Data.List.Induction
import Mathlib.Data.List.Perm.Basic
import TypedVocabulary.Proofs.Extraction

/-!
# Graphs that statements describe

What extraction does in steps can be said at once.  A list of statements describes a graph: which terms it
declares, and what is recorded of each of them.

* `Describes`                      the description, read off the statements alone;
* `FirstStated.of_addNew`          names are listed once, in the order in which statements first give them;
* `Extraction.leastComment_iff`    the comment of a term is the least that is not blank;
* `Extraction.extract_eq_iff`      extraction gives the graph that the statements describe.

A description leaves nothing open, so the last statement goes both ways: no other graph is described.
-/

namespace TypedVocabulary

/-! ## what statements say -/

section
variable (ts : List Triple) (d : Dialect)

/-- a statement declares the class `c` -/
def StatesClass (c : String) : Prop := c ≠ "" ∧ ⟨d.iri c, d.typePredicate, d.classType⟩ ∈ ts

/-- a statement declares the property `p` -/
def StatesProperty (p : String) : Prop := p ≠ "" ∧ ⟨d.iri p, d.typePredicate, d.propertyType⟩ ∈ ts

instance (c : String) : Decidable (StatesClass ts d c) := instDecidableAnd

instance (p : String) : Decidable (StatesProperty ts d p) := instDecidableAnd

/-- `m` is a comment on a term, and not of blanks only -/
def StatesComment (iri m : String) : Prop :=
  ⟨iri, d.comment, m⟩ ∈ ts ∧ ∃ c ∈ m.toList, isBlank c = false

/-- the least comment on a term, if there is a comment -/
def LeastComment (iri : String) : Option String → Prop
  | some m => StatesComment ts d iri m ∧ ∀ m', StatesComment ts d iri m' → m ≤ m'
  | none => ∀ m, ¬ StatesComment ts d iri m

/-- the names of the vocabulary that a subject is joined to, in the order in which they first are -/
structure FirstStated (subject predicate : String) (names : List String) : Prop where
  mem_iff : ∀ n, n ∈ names ↔ n ≠ "" ∧ ⟨subject, predicate, d.iri n⟩ ∈ ts
  ordered : names.Pairwise fun a b =>
    ts.idxOf ⟨subject, predicate, d.iri a⟩ < ts.idxOf ⟨subject, predicate, d.iri b⟩

/-- what is recorded of the class `n`; its properties are those with it among their domains -/
structure DescribesClass (g : Graph) (n : String) (c : ClassDecl) : Prop where
  name : c.name = n
  iri : c.iri = d.iri n
  parents : FirstStated ts d (d.iri n) d.subclassOf c.parents
  properties : ∀ p, p ∈ c.properties ↔ ∃ q, g.property? p = some q ∧ n ∈ q.domains
  comment : LeastComment ts d (d.iri n) c.comment

/-- what is recorded of the property `n` -/
structure DescribesProperty (n : String) (p : PropertyDecl) : Prop where
  name : p.name = n
  iri : p.iri = d.iri n
  domains : FirstStated ts d (d.iri n) d.domainIncludes p.domains
  ranges : FirstStated ts d (d.iri n) d.rangeIncludes p.ranges
  comment : LeastComment ts d (d.iri n) p.comment

structure Describes (g : Graph) : Prop where
  isClass_iff : ∀ n, g.isClass n = true ↔ StatesClass ts d n
  isProperty_iff : ∀ n, (g.property? n).isSome = true ↔ StatesProperty ts d n
  classes : ∀ n c, g.class? n = some c → DescribesClass ts d g n c
  properties : ∀ n p, g.property? n = some p → DescribesProperty ts d n p

end

/-! ## declarations -/

section
variable {ts : List Triple} {d : Dialect} {c n p : String}

theorem declared_ofTriples {kind : String} : Extraction.Declared (.ofTriples ts) d kind n ↔
    n ≠ "" ∧ ⟨d.iri n, d.typePredicate, kind⟩ ∈ ts :=
  and_congr_right fun _ => Source.mem_subjects

theorem isClass_extract_iff :
    (Extraction.extract (.ofTriples ts) d).isClass c = true ↔ StatesClass ts d c :=
  Extraction.isClass_extract.trans declared_ofTriples

theorem isSome_property?_extract :
    ((Extraction.extract (.ofTriples ts) d).property? p).isSome ↔ StatesProperty ts d p := by
  rw [Extraction.property?_extract]
  refine Iff.trans ?_ declared_ofTriples
  split <;> simp_all

theorem class?_extract_iff {k : ClassDecl} :
    (Extraction.extract (.ofTriples ts) d).class? c = some k ↔ StatesClass ts d c ∧
      Extraction.classRead (.ofTriples ts) d
        ((Extraction.extract (.ofTriples ts) d).propertiesAt c) c = k := by
  rw [Extraction.class?_extract]
  split
  · rename_i h
    rw [Option.some.injEq]
    exact (and_iff_right (declared_ofTriples.mp h)).symm
  · rename_i h
    exact ⟨fun e => absurd e (by simp), fun e => absurd (declared_ofTriples.mpr e.1) h⟩

end

/-! ## names in the order of statements -/

section
variable {ts : List Triple} {d : Dialect} {subject predicate n : String} {xs names : List String}

theorem addNew_concat : addNew xs (names ++ [n]) =
    if n ∈ addNew xs names then addNew xs names else addNew xs names ++ [n] :=
  List.foldl_append

/-- the names that a subject is joined to, as often as they are -/
def namesStated (ts : List Triple) (d : Dialect) (subject predicate : String) : List String :=
  d.localNames ((Source.ofTriples ts).objects subject predicate)

theorem mem_namesStated : n ∈ namesStated ts d subject predicate ↔
    n ≠ "" ∧ ⟨subject, predicate, d.iri n⟩ ∈ ts := by
  unfold namesStated
  rw [Dialect.mem_localNames, Source.mem_objects, and_comm]

theorem mem_addNew_namesStated : n ∈ addNew [] (namesStated ts d subject predicate) ↔
    n ≠ "" ∧ ⟨subject, predicate, d.iri n⟩ ∈ ts := by
  rw [mem_addNew, mem_namesStated]
  exact or_iff_right List.not_mem_nil

/-- a further statement gives a further name or none -/
theorem namesStated_concat (ts : List Triple) (d : Dialect) (subject predicate : String)
    (t : Triple) :
    namesStated (ts ++ [t]) d subject predicate = namesStated ts d subject predicate ∨
      ∃ n, namesStated (ts ++ [t]) d subject predicate =
        namesStated ts d subject predicate ++ [n] := by
  unfold namesStated Dialect.localNames Source.ofTriples
  simp only [List.filter_append, List.map_append, List.filterMap_append]
  by_cases h : t.subject = subject ∧ t.predicate = predicate
  · cases hn : d.localName? t.object with
    | none =>
      left
      simp [h, hn]
    | some n =>
      right
      exact ⟨n, by simp [h, hn]⟩
  · left
    simp [h]

/-- **Names are listed once, in the order in which statements first give them.** -/
theorem FirstStated.of_addNew :
    FirstStated ts d subject predicate (addNew [] (namesStated ts d subject predicate)) where
  mem_iff n := mem_addNew_namesStated
  ordered := by
    -- statements are added at the end: a name keeps its place, and a new name gets the last one
    induction ts using List.reverseRecOn with
    | nil => exact .nil
    | append_singleton ts t ih =>
      have hplace : ∀ a ∈ addNew [] (namesStated ts d subject predicate),
          (ts ++ [t]).idxOf ⟨subject, predicate, d.iri a⟩ =
            ts.idxOf ⟨subject, predicate, d.iri a⟩ := by
        intro a ha
        exact List.idxOf_append_of_mem (mem_addNew_namesStated.mp ha).2
      have hold : (addNew [] (namesStated ts d subject predicate)).Pairwise fun a b =>
          (ts ++ [t]).idxOf ⟨subject, predicate, d.iri a⟩ <
            (ts ++ [t]).idxOf ⟨subject, predicate, d.iri b⟩ := by
        refine ih.imp_of_mem fun {a b} ha hb hab => ?_
        rw [hplace a ha, hplace b hb]
        exact hab
      rcases namesStated_concat ts d subject predicate t with h | ⟨n, h⟩
      · rw [h]
        exact hold
      · have hn : n ≠ "" := by
          have hmem : n ∈ namesStated (ts ++ [t]) d subject predicate := by
            rw [h]
            exact List.mem_append_right _ (List.mem_singleton.mpr rfl)
          exact (mem_namesStated.mp hmem).1
        rw [h, addNew_concat]
        split
        · exact hold
        · rename_i hnew
          refine List.pairwise_append.mpr ⟨hold, List.pairwise_singleton _ n, ?_⟩
          intro a ha b hb
          rw [List.mem_singleton.mp hb, hplace a ha]
          have hnot : ⟨subject, predicate, d.iri n⟩ ∉ ts := by
            intro hin
            exact hnew (mem_addNew_namesStated.mpr ⟨hn, hin⟩)
          have hlt := List.idxOf_lt_length_of_mem (mem_addNew_namesStated.mp ha).2
          rw [List.idxOf_append_of_notMem hnot]
          omega

/-- such a list has each name once -/
theorem FirstStated.nodup (h : FirstStated ts d subject predicate names) : names.Nodup := by
  refine h.ordered.imp fun {a b} hab e => ?_
  rw [e] at hab
  exact Nat.lt_irrefl _ hab

/-- there is one such list -/
theorem FirstStated.unique (hx : FirstStated ts d subject predicate xs)
    (hn : FirstStated ts d subject predicate names) : xs = names := by
  have hperm : xs.Perm names := (List.perm_ext_iff_of_nodup hx.nodup hn.nodup).mpr fun n => by
    rw [hx.mem_iff, hn.mem_iff]
  refine hperm.eq_of_pairwise ?_ hx.ordered hn.ordered
  intro a b _ _ hab hba
  exact absurd hab (Nat.lt_asymm hba)

end

/-! ## comments -/

section
variable {ts : List Triple} {d : Dialect} {iri m : String} {comment : Option String}

theorem mem_filter_comments :
    m ∈ ((Source.ofTriples ts).objects iri d.comment).filter (fun c => !isBlankText c) ↔
      StatesComment ts d iri m := by
  unfold StatesComment isBlankText
  rw [List.mem_filter, Source.mem_objects]
  simp

/-- **The comment of a term is the least that is not blank.** -/
theorem Extraction.leastComment_iff :
    LeastComment ts d iri comment ↔ Extraction.comment? (.ofTriples ts) d iri = comment := by
  unfold Extraction.comment?
  cases comment with
  | some m =>
    rw [smallest?_eq_some_iff, mem_filter_comments]
    simp only [mem_filter_comments]
    rfl
  | none =>
    rw [smallest?_eq_none_iff, List.eq_nil_iff_forall_not_mem]
    simp only [mem_filter_comments]
    rfl

end

/-! ## the graph -/

/-- values that are there for the same names, and agree where they are, are the same -/
theorem option_eq_of_isSome_iff {α : Type} {x y : Option α} (hs : x.isSome = true ↔ y.isSome = true)
    (h : ∀ a b, x = some a → y = some b → a = b) : x = y := by
  cases x with
  | none =>
    cases y with
    | none => rfl
    | some b => exact absurd (hs.mpr rfl) Bool.false_ne_true
  | some a =>
    cases y with
    | none => exact absurd (hs.mp rfl) Bool.false_ne_true
    | some b => rw [h a b rfl rfl]

section
variable {ts : List Triple} {d : Dialect} {g h : Graph} {n : String}

theorem LeastComment.unique {iri : String} {x y : Option String} (hx : LeastComment ts d iri x)
    (hy : LeastComment ts d iri y) : x = y :=
  (Extraction.leastComment_iff.mp hx).symm.trans (Extraction.leastComment_iff.mp hy)

theorem DescribesProperty.unique {p q : PropertyDecl} (hp : DescribesProperty ts d n p)
    (hq : DescribesProperty ts d n q) : p = q := by
  have hname : p.name = q.name := hp.name.trans hq.name.symm
  have hiri : p.iri = q.iri := hp.iri.trans hq.iri.symm
  have hdomains : p.domains = q.domains := hp.domains.unique hq.domains
  have hranges : p.ranges = q.ranges := hp.ranges.unique hq.ranges
  have hcomment : p.comment = q.comment := hp.comment.unique hq.comment
  cases p
  cases q
  simp_all

theorem DescribesClass.unique {c k : ClassDecl} (hp : ∀ p, g.property? p = h.property? p)
    (hc : DescribesClass ts d g n c) (hk : DescribesClass ts d h n k) : c = k := by
  have hname : c.name = k.name := hc.name.trans hk.name.symm
  have hiri : c.iri = k.iri := hc.iri.trans hk.iri.symm
  have hparents : c.parents = k.parents := hc.parents.unique hk.parents
  have hproperties : c.properties = k.properties := NameSet.ext fun p => by
    rw [hc.properties, hk.properties, hp]
  have hcomment : c.comment = k.comment := hc.comment.unique hk.comment
  cases c
  cases k
  simp_all

/-- a description fits one graph -/
theorem Describes.unique (hg : Describes ts d g) (hh : Describes ts d h) : g = h := by
  have hproperty : ∀ n, g.property? n = h.property? n := fun n =>
    option_eq_of_isSome_iff ((hg.isProperty_iff n).trans (hh.isProperty_iff n).symm)
      fun p q hp hq => (hg.properties n p hp).unique (hh.properties n q hq)
  have hclass : ∀ n, g.class? n = h.class? n := fun n =>
    option_eq_of_isSome_iff ((hg.isClass_iff n).trans (hh.isClass_iff n).symm)
      fun c k hc hk => (hg.classes n c hc).unique hproperty (hh.classes n k hk)
  exact Graph.ext_lookups hclass hproperty

theorem describes_extract (ts : List Triple) (d : Dialect) :
    Describes ts d (Extraction.extract (.ofTriples ts) d) where
  isClass_iff n := isClass_extract_iff
  isProperty_iff n := isSome_property?_extract
  properties n p hp := by
    rw [Extraction.property?_extract] at hp
    split at hp
    · cases hp
      exact ⟨rfl, rfl, .of_addNew, .of_addNew, Extraction.leastComment_iff.mpr rfl⟩
    · cases hp
  classes n c hc := by
    obtain ⟨hdecl, rfl⟩ := class?_extract_iff.mp hc
    refine ⟨rfl, rfl, .of_addNew, fun p => ?_, Extraction.leastComment_iff.mpr rfl⟩
    show p ∈ (Extraction.extract (.ofTriples ts) d).propertiesAt n ↔ _
    rw [Graph.mem_propertiesAt]
    constructor
    · rintro ⟨k, q, hq, hn, rfl⟩
      rw [(Extraction.extract_keyedByName _ d).propertyName k q hq]
      exact ⟨q, hq, hn⟩
    · rintro ⟨q, hq, hn⟩
      exact ⟨p, q, hq, hn, (Extraction.extract_keyedByName _ d).propertyName p q hq⟩

/-- **Extraction gives the graph that the statements describe**, whatever they are: repeated, about foreign
or undeclared terms, a term declared in both kinds, or predicates of the dialect that coincide. -/
theorem Extraction.extract_eq_iff (ts : List Triple) (d : Dialect) (g : Graph) :
    Extraction.extract (.ofTriples ts) d = g ↔ Describes ts d g := by
  constructor
  · rintro rfl
    exact describes_extract ts d
  · intro hg
    exact (describes_extract ts d).unique hg

end

end TypedVocabulary
