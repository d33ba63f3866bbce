import TypedVocabulary.Proofs.Vocabulary.TypeNames

/-!
# Unions of alternatives

The union of a constrained field is split at its bars, and what comes out is settled by the ranges.

* `unionParts_unionText`          identifiers are read back from their union;
* `FieldType.mem_rangeAlternatives`   what one range allows;
* `FieldType.distinct_pairwise`   the alternatives stand in the order of the ranges that allow them first;
* `FieldType.union_exact`         which alternatives there are, in which order, for any ranges.

An identifier from the table is no scalar, because the names of scalars are reserved, and it belongs
to one class only; so each alternative shows why it is there.
-/

namespace TypedVocabulary

/-! ## splitting a union -/

/-- the parts between the bars of a union, the leftmost bar first -/
def splitAtBars : List Char → List (List Char)
  | [] => [[]]
  | ' ' :: '|' :: ' ' :: cs => [] :: splitAtBars cs
  | c :: cs => (splitAtBars cs).modifyHead (c :: ·)

def unionParts (text : String) : List String := (splitAtBars text.toList).map String.ofList

theorem splitAtBars_bar (cs : List Char) : splitAtBars (" | ".toList ++ cs) = [] :: splitAtBars cs :=
  rfl

theorem splitAtBars_append {cs : List Char} (hcs : ' ' ∉ cs) (rest : List Char) :
    splitAtBars (cs ++ rest) = (splitAtBars rest).modifyHead (cs ++ ·) := by
  induction cs with
  | nil =>
    rw [List.nil_append]
    cases splitAtBars rest <;> rfl
  | cons c cs ih =>
    rw [List.mem_cons, not_or] at hcs
    rw [List.cons_append, splitAtBars, ih hcs.2]
    · cases splitAtBars rest <;> rfl
    · intro _ e
      exact absurd e.symm hcs.1

/-- **Identifiers are read back from their union.** -/
theorem unionParts_unionText {as : List String} (hne : as ≠ [])
    (h : ∀ a ∈ as, isIdentifier a = true) : unionParts (FieldType.unionText as) = as := by
  unfold unionParts FieldType.unionText
  induction as with
  | nil => exact absurd rfl hne
  | cons a as ih =>
    have ha : ' ' ∉ a.toList := not_mem_of_isIdentifier (h a (List.mem_cons_self ..)) (by decide)
    cases as with
    | nil =>
      have hsplit := splitAtBars_append ha []
      rw [List.append_nil] at hsplit
      rw [String.intercalate_singleton, hsplit]
      simp [splitAtBars]
    | cons b as =>
      have htail := ih (List.cons_ne_nil b as) fun c hc => h c (List.mem_cons_of_mem _ hc)
      rw [String.intercalate_cons_cons, String.toList_append, String.toList_append,
        List.append_assoc, splitAtBars_append ha, splitAtBars_bar, List.modifyHead_cons,
        List.map_cons, htail, List.append_nil, String.ofList_toList]

namespace FieldType

/-! ## every member at its first place -/

theorem distinct_nodup (xs : List String) : (distinct xs).Nodup := by
  induction xs with
  | nil => exact List.nodup_nil
  | cons x xs ih =>
    refine List.nodup_cons.mpr ⟨fun h => ?_, ih.filter _⟩
    exact of_decide_eq_true (List.mem_filter.mp h).2 rfl

theorem distinct_sublist (xs : List String) : (distinct xs).Sublist xs := by
  induction xs with
  | nil => exact List.Sublist.refl _
  | cons x xs ih => exact (List.filter_sublist.trans ih).cons_cons x

theorem distinct_append (xs ys : List String) :
    distinct (xs ++ ys) = distinct xs ++ (distinct ys).filter (· ∉ xs) := by
  induction xs with
  | nil => simp [distinct]
  | cons x xs ih =>
    rw [List.cons_append, distinct, distinct, ih, List.filter_append, List.filter_filter,
      List.cons_append]
    simp [List.mem_cons, not_or]

/-! ## ranges -/

section
variable {primitives : Primitives} {table : IdentifierTable} {a b r s : String}

/-- **What one range allows.** -/
theorem mem_rangeAlternatives : a ∈ rangeAlternatives primitives table r ↔
    (∃ scalar, primitives.get? r = some scalar ∧ a = scalar.typeName) ∨
      primitives.get? r = none ∧ (table.get? r = some a ∨ a = "string") := by
  unfold rangeAlternatives
  cases primitives.get? r with
  | some scalar => simp
  | none => cases table.get? r <;> simp [eq_comm]

theorem rangeAlternatives_ne_nil (primitives : Primitives) (table : IdentifierTable) (r : String) :
    rangeAlternatives primitives table r ≠ [] := by
  unfold rangeAlternatives
  split
  · exact List.cons_ne_nil _ _
  · split <;> exact List.cons_ne_nil _ _

/-- a range that allows two alternatives allows a string last -/
theorem rangeAlternatives_pairwise (primitives : Primitives) (table : IdentifierTable) (r : String) :
    (rangeAlternatives primitives table r).Pairwise fun _ b => b = "string" := by
  unfold rangeAlternatives
  split
  · exact List.pairwise_singleton _ _
  · split
    · simp
    · exact List.pairwise_singleton _ _

/-- `r` is the first of the ranges that allows `a` -/
def FirstAllows (primitives : Primitives) (table : IdentifierTable) (ranges : List String)
    (a r : String) : Prop :=
  r ∈ ranges ∧ a ∈ rangeAlternatives primitives table r ∧
    ∀ s ∈ ranges, a ∈ rangeAlternatives primitives table s → r ≤ s

/-- an earlier range allows `a` first, or the range that does allows `b`, a string, as well -/
def Precedes (primitives : Primitives) (table : IdentifierTable) (ranges : List String)
    (a b : String) : Prop :=
  ∃ r s, FirstAllows primitives table ranges a r ∧ FirstAllows primitives table ranges b s ∧
    (r < s ∨ r = s ∧ b = "string")

variable {ranges : List String}

theorem FirstAllows.head (h : (r :: ranges).Pairwise (· < ·))
    (ha : a ∈ rangeAlternatives primitives table r) :
    FirstAllows primitives table (r :: ranges) a r := by
  refine ⟨List.mem_cons_self .., ha, fun s hs _ => ?_⟩
  rcases List.mem_cons.mp hs with rfl | hs
  · exact String.le_refl s
  · exact String.not_lt.mp (String.lt_asymm ((List.pairwise_cons.mp h).1 s hs))

theorem FirstAllows.tail (h : FirstAllows primitives table ranges a s)
    (ha : a ∉ rangeAlternatives primitives table r) :
    FirstAllows primitives table (r :: ranges) a s := by
  refine ⟨List.mem_cons_of_mem _ h.1, h.2.1, fun q hq haq => ?_⟩
  rcases List.mem_cons.mp hq with rfl | hq
  · exact absurd haq ha
  · exact h.2.2 q hq haq

theorem exists_firstAllows (h : ranges.Pairwise (· < ·))
    (ha : a ∈ ranges.flatMap (rangeAlternatives primitives table)) :
    ∃ r, FirstAllows primitives table ranges a r := by
  induction ranges with
  | nil => exact absurd ha (List.not_mem_nil)
  | cons r ranges ih =>
    by_cases har : a ∈ rangeAlternatives primitives table r
    · exact ⟨r, .head h har⟩
    · rw [List.flatMap_cons, List.mem_append] at ha
      obtain ⟨s, hs⟩ := ih (List.pairwise_cons.mp h).2 (ha.resolve_left har)
      exact ⟨s, hs.tail har⟩

/-- **Alternatives stand in the order of the ranges that allow them first.** -/
theorem distinct_pairwise (h : ranges.Pairwise (· < ·)) :
    (distinct (ranges.flatMap (rangeAlternatives primitives table))).Pairwise
      (Precedes primitives table ranges) := by
  induction ranges with
  | nil => exact List.Pairwise.nil
  | cons r ranges ih =>
    obtain ⟨hr, hranges⟩ := List.pairwise_cons.mp h
    rw [List.flatMap_cons, distinct_append, List.pairwise_append]
    refine ⟨?_, ?_, fun a ha b hb => ?_⟩
    · have hpair := (rangeAlternatives_pairwise primitives table r).sublist (distinct_sublist _)
      refine hpair.imp_of_mem fun ha hb hstring => ?_
      exact ⟨r, r, .head h (mem_distinct.mp ha), .head h (mem_distinct.mp hb), Or.inr ⟨rfl, hstring⟩⟩
    · refine ((ih hranges).filter _).imp_of_mem fun {a b} ha hb hab => ?_
      obtain ⟨p, q, hp, hq, horder⟩ := hab
      have hout : ∀ c ∈ (distinct (ranges.flatMap (rangeAlternatives primitives table))).filter
          (· ∉ rangeAlternatives primitives table r), c ∉ rangeAlternatives primitives table r :=
        fun c hc => of_decide_eq_true (List.mem_filter.mp hc).2
      exact ⟨p, q, hp.tail (hout a ha), hq.tail (hout b hb), horder⟩
    · obtain ⟨hb, hbr⟩ := List.mem_filter.mp hb
      obtain ⟨s, hs⟩ := exists_firstAllows hranges (mem_distinct.mp hb)
      exact ⟨r, s, .head h (mem_distinct.mp ha), hs.tail (of_decide_eq_true hbr),
        Or.inl (hr s hs.1)⟩

theorem FirstAllows.congr {xs ys : List String} (h : ∀ r, r ∈ xs ↔ r ∈ ys)
    (ha : FirstAllows primitives table xs a r) : FirstAllows primitives table ys a r :=
  ⟨(h r).mp ha.1, ha.2.1, fun s hs => ha.2.2 s ((h s).mpr hs)⟩

/-! ## sets of ranges -/

theorem mem_alternatives_ofList : a ∈ alternatives primitives table (.ofList ranges) ↔
    ∃ r ∈ ranges, a ∈ rangeAlternatives primitives table r := by
  unfold alternatives
  rw [mem_distinct, List.mem_flatMap]
  simp only [NameSet.mem_toList, NameSet.mem_ofList]

theorem alternatives_pairwise (primitives : Primitives) (table : IdentifierTable)
    (ranges : List String) : (alternatives primitives table (.ofList ranges)).Pairwise
      (Precedes primitives table ranges) := by
  refine (distinct_pairwise (NameSet.increasing _)).imp fun hab => ?_
  obtain ⟨r, s, hr, hs, horder⟩ := hab
  exact ⟨r, s, hr.congr fun _ => NameSet.mem_ofList, hs.congr fun _ => NameSet.mem_ofList, horder⟩

theorem alternatives_ne_nil (primitives : Primitives) (table : IdentifierTable)
    (h : ranges ≠ []) : alternatives primitives table (.ofList ranges) ≠ [] := by
  obtain ⟨r, hr⟩ := List.exists_mem_of_ne_nil ranges h
  obtain ⟨a, ha⟩ := List.exists_mem_of_ne_nil _ (rangeAlternatives_ne_nil primitives table r)
  exact List.ne_nil_of_mem (mem_alternatives_ofList.mpr ⟨r, hr, ha⟩)

theorem union?_ofRanges (primitives : Primitives) (table : IdentifierTable) (h : ranges ≠ []) :
    (ofRanges primitives table ranges).union? =
      some (unionText (alternatives primitives table (.ofList ranges))) := by
  unfold ofRanges
  rw [List.isEmpty_eq_false_iff.mpr h]
  rfl

theorem ofRanges_congr (primitives : Primitives) (table : IdentifierTable) {xs ys : List String}
    (h : ∀ r, r ∈ xs ↔ r ∈ ys) : ofRanges primitives table xs = ofRanges primitives table ys := by
  have hempty : xs.isEmpty = ys.isEmpty := by
    rw [Bool.eq_iff_iff, List.isEmpty_iff, List.isEmpty_iff, List.eq_nil_iff_forall_not_mem,
      List.eq_nil_iff_forall_not_mem]
    simp only [h]
  unfold ofRanges
  rw [hempty, NameSet.ofList_congr h]

end

/-! ## with a table of identifiers -/

section
variable {primitives : Primitives} {names : NameSet} {reserved ranges : List String}
  {name i r : String}

theorem typeName_injective {s t : Scalar} (h : s.typeName = t.typeName) : s = t := by
  cases s <;> cases t <;> first | rfl | exact absurd h (by decide)

theorem ne_typeName (h : (IdentifierTable.ofNames names reserved).get? name = some i)
    (scalar : Scalar) : i ≠ scalar.typeName := by
  rintro rfl
  have hreserved : scalar.typeName ∈ reservedNames := by cases scalar <;> decide
  exact IdentifierTable.get?_free h (List.mem_append_left _ hreserved)

/-- **A scalar is there for a primitive, and a string also for what is no primitive.** -/
theorem typeName_mem_rangeAlternatives {scalar : Scalar} :
    scalar.typeName ∈ rangeAlternatives primitives (.ofNames names reserved) r ↔
      primitives.get? r = some scalar ∨ primitives.get? r = none ∧ scalar = .string := by
  rw [mem_rangeAlternatives]
  constructor
  · rintro (⟨t, hr, e⟩ | ⟨hr, h | e⟩)
    · rw [typeName_injective e]
      exact Or.inl hr
    · exact absurd rfl (ne_typeName h scalar)
    · exact Or.inr ⟨hr, typeName_injective e⟩
  · rintro (hr | ⟨hr, rfl⟩)
    · exact Or.inl ⟨scalar, hr, rfl⟩
    · exact Or.inr ⟨hr, Or.inr rfl⟩

/-- **The identifier of a class is there for this class, unless it is a primitive.** -/
theorem identifier_mem_rangeAlternatives
    (h : (IdentifierTable.ofNames names reserved).get? name = some i) :
    i ∈ rangeAlternatives primitives (.ofNames names reserved) r ↔
      r = name ∧ primitives.get? name = none := by
  rw [mem_rangeAlternatives]
  constructor
  · rintro (⟨t, _, e⟩ | ⟨hr, hget | e⟩)
    · exact absurd e (ne_typeName h t)
    · obtain rfl := IdentifierTable.get?_inj hget h
      exact ⟨rfl, hr⟩
    · exact absurd e (ne_typeName h .string)
  · rintro ⟨rfl, hr⟩
    exact Or.inr ⟨hr, Or.inl h⟩

end

/-- **The union of a constrained field is exact, and shows its alternatives.**  Split at its bars, it has
no alternative twice.  A string is there where a range is written as one or is no primitive, a number
or a boolean where a range is written as one, the identifier of a class where the class is a range
and no primitive, and nothing else.  The alternatives stand in the order of the ranges that allow
them first.  And the type of a field depends on the set of its ranges only. -/
theorem union_exact (primitives : Primitives) (names : NameSet) (reserved ranges : List String)
    (hranges : ranges ≠ []) :
    let table := IdentifierTable.ofNames names reserved
    ∃ union, (ofRanges primitives table ranges).union? = some union ∧
      (unionParts union).Nodup ∧
      ("string" ∈ unionParts union ↔
        ∃ r ∈ ranges, primitives.get? r = some .string ∨ primitives.get? r = none) ∧
      ("number" ∈ unionParts union ↔ ∃ r ∈ ranges, primitives.get? r = some .number) ∧
      ("boolean" ∈ unionParts union ↔ ∃ r ∈ ranges, primitives.get? r = some .boolean) ∧
      (∀ name identifier, table.get? name = some identifier →
        (identifier ∈ unionParts union ↔ name ∈ ranges ∧ primitives.get? name = none)) ∧
      (∀ a ∈ unionParts union, a ∈ ["string", "number", "boolean"] ∨
        ∃ name, table.get? name = some a) ∧
      (unionParts union).Pairwise (Precedes primitives table ranges) ∧
      ∀ xs ys : List String, (∀ r, r ∈ xs ↔ r ∈ ys) →
        (ofRanges primitives table xs).text = (ofRanges primitives table ys).text := by
  intro table
  have hparts : unionParts (unionText (alternatives primitives table (.ofList ranges))) =
      alternatives primitives table (.ofList ranges) :=
    unionParts_unionText (alternatives_ne_nil primitives table hranges) fun a ha =>
      isIdentifier_of_mem_alternatives (fun _ _ => IdentifierTable.get?_form) ha
  have hscalar : ∀ scalar : Scalar,
      scalar.typeName ∈ alternatives primitives table (.ofList ranges) ↔ ∃ r ∈ ranges,
        primitives.get? r = some scalar ∨ primitives.get? r = none ∧ scalar = .string := by
    intro scalar
    rw [mem_alternatives_ofList]
    simp only [table, typeName_mem_rangeAlternatives]
  refine ⟨_, union?_ofRanges primitives table hranges, ?_⟩
  rw [hparts]
  refine ⟨distinct_nodup _, ?_, ?_, ?_, fun name i h => ?_, fun a ha => ?_,
    alternatives_pairwise primitives table ranges,
    fun xs ys h => congrArg text (ofRanges_congr primitives table h)⟩
  · simpa [Scalar.typeName] using hscalar .string
  · simpa [Scalar.typeName] using hscalar .number
  · simpa [Scalar.typeName] using hscalar .boolean
  · rw [mem_alternatives_ofList]
    simp only [table, identifier_mem_rangeAlternatives h]
    constructor
    · rintro ⟨r, hr, rfl, hnone⟩
      exact ⟨hr, hnone⟩
    · rintro ⟨hr, hnone⟩
      exact ⟨name, hr, rfl, hnone⟩
  · obtain ⟨r, _, hr⟩ := mem_alternatives_ofList.mp ha
    rcases mem_rangeAlternatives.mp hr with ⟨scalar, _, rfl⟩ | ⟨_, hget | rfl⟩
    · exact Or.inl (by cases scalar <;> decide)
    · exact Or.inr ⟨r, hget⟩
    · exact Or.inl (by decide)

/-- a class, given twice, a class that shares its name with a primitive, a number and a name that nothing
declares -/
def mixedRanges : List String := ["Text", "Person", "Integer", "Ghost", "Person"]

theorem union_exact_mixed :
    mixedRanges ≠ [] ∧ ∃ union, (ofRanges .schemaOrg
        (.ofNames (.ofList ["Person", "Text", "3DModel"]) ["Thing"]) mixedRanges).union? = some union ∧
      (unionParts union).Nodup ∧ "string" ∈ unionParts union ∧ "number" ∈ unionParts union ∧
      "boolean" ∉ unionParts union ∧ "Person" ∈ unionParts union ∧ "Text" ∉ unionParts union := by
  have hne : mixedRanges ≠ [] := List.cons_ne_nil _ _
  obtain ⟨union, hunion, hnodup, hstring, hnumber, hboolean, hclass, _⟩ :=
    union_exact .schemaOrg (.ofList ["Person", "Text", "3DModel"]) ["Thing"] mixedRanges hne
  have hperson := hclass "Person" "Person" (by decide +kernel)
  have htext := hclass "Text" "Text" (by decide +kernel)
  exact ⟨hne, union, hunion, hnodup, hstring.mpr (by decide), hnumber.mpr (by decide),
    fun h => absurd (hboolean.mp h) (by decide), hperson.mpr (by decide),
    fun h => absurd (htext.mp h) (by decide)⟩

end FieldType

end TypedVocabulary
