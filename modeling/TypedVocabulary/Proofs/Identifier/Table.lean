import Mathlib.Data.List.Nodup
import Mathlib.Data.List.Perm.Basic
import TypedVocabulary.Proofs.Identifier.Candidates
import TypedVocabulary.Proofs.Names.Lookups

/-!
# The table of identifiers

Groups are settled one after the other, and every identifier that is given away is taken from then on.
The identifiers of all groups are taken before the first group is settled, so a numbered form can
meet neither one of them nor a form that was given away earlier:

* `settle_nodup`                  no identifier is given away twice;
* `IdentifierTable.isSome_get?`   exactly the names of the set have an identifier;
* `IdentifierTable.get?_inj`      different names have different identifiers;
* `IdentifierTable.get?_free`     an identifier is none of the blocked names;
* `IdentifierTable.get?_form`     it has the form of an identifier;
* `IdentifierTable.ofNames_spec`  all of this, for any list of names.
-/

namespace TypedVocabulary

/-! ## one group -/

section
variable {blocked taken : List String} {base x : String} {names : List String}

theorem renameAll_cons (name : String) :
    renameAll blocked base taken (name :: names) =
      ((name, numberFree (taken ++ blocked) base 2) ::
          (renameAll blocked base (numberFree (taken ++ blocked) base 2 :: taken) names).1,
        (renameAll blocked base (numberFree (taken ++ blocked) base 2 :: taken) names).2) := rfl

theorem map_fst_renameAll (blocked taken : List String) (base : String) (names : List String) :
    (renameAll blocked base taken names).1.map Prod.fst = names := by
  induction names generalizing taken with
  | nil => rfl
  | cons name names ih => rw [renameAll_cons, List.map_cons, ih]

/-- after a group its new identifiers are taken as well -/
theorem mem_renameAll_taken : x ∈ (renameAll blocked base taken names).2 ↔
    x ∈ (renameAll blocked base taken names).1.map Prod.snd ∨ x ∈ taken := by
  induction names generalizing taken with
  | nil => simp [renameAll]
  | cons name names ih =>
    rw [renameAll_cons, ih, List.map_cons, List.mem_cons, List.mem_cons]
    exact or_left_comm.trans or_assoc.symm

/-- the new identifiers of a group are numbered forms that were free -/
theorem mem_renameAll (h : x ∈ (renameAll blocked base taken names).1.map Prod.snd) :
    x ∉ taken ∧ x ∉ blocked ∧ ∃ n, 2 ≤ n ∧ x = numbered base n := by
  induction names generalizing taken with
  | nil => exact absurd h (List.not_mem_nil)
  | cons name names ih =>
    rw [renameAll_cons, List.map_cons, List.mem_cons] at h
    rcases h with rfl | h
    · obtain ⟨n, hn, he, hfree, _⟩ := numberFree_spec (taken ++ blocked) base 2
      rw [← he, List.mem_append, not_or] at hfree
      exact ⟨hfree.1, hfree.2, n, hn, he⟩
    · obtain ⟨h1, h2, h3⟩ := ih h
      exact ⟨fun hx => h1 (List.mem_cons_of_mem _ hx), h2, h3⟩

theorem renameAll_nodup (blocked taken : List String) (base : String) (names : List String) :
    ((renameAll blocked base taken names).1.map Prod.snd).Nodup := by
  induction names generalizing taken with
  | nil => exact List.nodup_nil
  | cons name names ih =>
    rw [renameAll_cons, List.map_cons, List.nodup_cons]
    exact ⟨fun h => (mem_renameAll h).1 (List.mem_cons_self ..), ih _⟩

end

/-! ## all groups -/

/-- every name with the identifier that it gets -/
def assigned (settled : List Collision) : List (String × String) :=
  settled.flatMap IdentifierTable.assignments

theorem assigned_cons (c : Collision) (settled : List Collision) :
    assigned (c :: settled) = (c.keptBy, c.identifier) :: c.renamed ++ assigned settled := rfl

section
variable {blocked taken : List String} {groups : List (String × List String)} {x : String}

/-- the names of all groups get an identifier, in order -/
theorem map_fst_settle (blocked taken : List String) (groups : List (String × List String)) :
    (assigned (settle blocked taken groups)).map Prod.fst = groups.flatMap Prod.snd := by
  induction taken, groups using settle.induct blocked with
  | case1 => rfl
  | case2 taken base groups ih => exact ih
  | case3 taken base first others groups r ih =>
    rw [settle, assigned_cons, List.map_append, List.map_cons, ih, map_fst_renameAll]
    rfl

/-- an identifier is that of its group, or a numbered form that was free -/
theorem mem_settle (h : x ∈ (assigned (settle blocked taken groups)).map Prod.snd) :
    x ∈ groups.map Prod.fst ∨
      x ∉ taken ∧ x ∉ blocked ∧ ∃ base ∈ groups.map Prod.fst, ∃ n, 2 ≤ n ∧ x = numbered base n := by
  induction taken, groups using settle.induct blocked with
  | case1 => exact absurd h (List.not_mem_nil)
  | case2 taken base groups ih =>
    rcases ih h with h | ⟨h1, h2, b, hb, h3⟩
    · exact Or.inl (List.mem_cons_of_mem _ h)
    · exact Or.inr ⟨h1, h2, b, List.mem_cons_of_mem _ hb, h3⟩
  | case3 taken base first others groups r ih =>
    rw [settle, assigned_cons, List.map_append, List.map_cons, List.mem_append, List.mem_cons] at h
    rcases h with (rfl | h) | h
    · exact Or.inl (List.mem_cons_self ..)
    · obtain ⟨h1, h2, h3⟩ := mem_renameAll h
      exact Or.inr ⟨h1, h2, base, List.mem_cons_self .., h3⟩
    · rcases ih h with h | ⟨h1, h2, b, hb, h3⟩
      · exact Or.inl (List.mem_cons_of_mem _ h)
      · exact Or.inr ⟨fun hx => h1 (mem_renameAll_taken.mpr (Or.inr hx)), h2, b,
          List.mem_cons_of_mem _ hb, h3⟩

/-- **No identifier is given away twice.** -/
theorem settle_nodup (hg : (groups.map Prod.fst).Nodup) (ht : groups.map Prod.fst ⊆ taken) :
    ((assigned (settle blocked taken groups)).map Prod.snd).Nodup := by
  induction taken, groups using settle.induct blocked with
  | case1 => exact List.nodup_nil
  | case2 taken base groups ih =>
    exact ih (List.nodup_cons.mp hg).2 fun _ h => ht (List.mem_cons_of_mem _ h)
  | case3 taken base first others groups r ih =>
    obtain ⟨hbase, hrest⟩ := List.nodup_cons.mp hg
    have hbt : base ∈ taken := ht (List.mem_cons_self ..)
    have hgt : groups.map Prod.fst ⊆ taken := fun _ h => ht (List.mem_cons_of_mem _ h)
    have hr : ∀ y, y ∈ taken → y ∈ r.2 := fun y hy => mem_renameAll_taken.mpr (Or.inr hy)
    rw [settle, assigned_cons, List.map_append, List.map_cons, List.nodup_append]
    refine ⟨List.nodup_cons.mpr ⟨fun h => (mem_renameAll h).1 hbt, renameAll_nodup ..⟩,
      ih hrest fun y hy => hr y (hgt hy), ?_⟩
    -- what this group gives away is taken when the later groups are settled
    intro y hy z hz e
    subst e
    rcases List.mem_cons.mp hy with rfl | hy
    · rcases mem_settle hz with h | ⟨h, _⟩
      · exact hbase h
      · exact h (hr _ hbt)
    · rcases mem_settle hz with h | ⟨h, _⟩
      · exact (mem_renameAll hy).1 (hgt h)
      · exact h (mem_renameAll_taken.mpr (Or.inl hy))

end

/-! ## groups by request -/

theorem map_fst_groupsOf (requests : List (String × String)) :
    (groupsOf requests).map Prod.fst = (NameSet.ofList (requests.map Prod.snd)).toList := by
  unfold groupsOf
  rw [List.map_map]
  exact List.map_id _

theorem groupsOf_nodup (requests : List (String × String)) :
    ((groupsOf requests).map Prod.fst).Nodup := by
  rw [map_fst_groupsOf]
  exact NameSet.toList_nodup _

theorem mem_groupsOf {requests : List (String × String)} {x : String} :
    x ∈ (groupsOf requests).map Prod.fst ↔ x ∈ requests.map Prod.snd := by
  rw [map_fst_groupsOf]
  exact NameSet.mem_ofList

theorem mem_group {requests : List (String × String)} {i n : String} :
    n ∈ (requests.filter (·.2 = i)).map Prod.fst ↔ (n, i) ∈ requests := by
  simp

theorem mem_groupsOf_names {requests : List (String × String)} {n : String} :
    n ∈ (groupsOf requests).flatMap Prod.snd ↔ n ∈ requests.map Prod.fst := by
  unfold groupsOf
  rw [List.flatMap_map, List.mem_flatMap, List.mem_map]
  constructor
  · rintro ⟨i, _, h⟩
    exact ⟨(n, i), mem_group.mp h, rfl⟩
  · rintro ⟨⟨n, i⟩, h, rfl⟩
    exact ⟨i, NameSet.mem_ofList.mpr (List.mem_map.mpr ⟨_, h, rfl⟩), mem_group.mpr h⟩

/-- the groups hold no name twice -/
theorem groupsOf_names_nodup {requests : List (String × String)} (h : (requests.map Prod.fst).Nodup) :
    ((groupsOf requests).flatMap Prod.snd).Nodup := by
  unfold groupsOf
  rw [List.flatMap_map, List.nodup_flatMap]
  refine ⟨fun i _ => (h.sublist (List.filter_sublist.map _)), ?_⟩
  refine (NameSet.increasing _).imp fun {i j} hij n hi hj => ?_
  have e := List.inj_on_of_nodup_map h (mem_group.mp hi) (mem_group.mp hj) rfl
  exact String.ne_of_lt hij (congrArg Prod.snd e)

/-! ## the table -/

/-- the names of a set with the identifiers that they ask for -/
def requestsOf (names : NameSet) (reserved : List String) : List (String × String) :=
  names.toList.map fun name => (name, requestedIdentifier reserved name)

/-- how the groups of a set are settled -/
def settledNames (names : NameSet) (reserved : List String) : List Collision :=
  settle (reservedNames ++ reserved) ((groupsOf (requestsOf names reserved)).map Prod.fst)
    (groupsOf (requestsOf names reserved))

theorem map_fst_requestsOf (names : NameSet) (reserved : List String) :
    (requestsOf names reserved).map Prod.fst = names.toList := by
  unfold requestsOf
  rw [List.map_map]
  exact List.map_id _

theorem requestsOf_nodup (names : NameSet) (reserved : List String) :
    ((requestsOf names reserved).map Prod.fst).Nodup := by
  rw [map_fst_requestsOf]
  exact names.toList_nodup

theorem isIdentifier_requested (reserved : List String) (name : String) :
    isIdentifier (requestedIdentifier reserved name) = true := by
  unfold requestedIdentifier
  obtain ⟨k, hk, _⟩ := padFree_spec (reservedNames ++ reserved) (sanitize name)
  rw [hk]
  exact isIdentifier_padded (isIdentifier_sanitize name) k

/-- what the groups ask for is free, and has the form of an identifier -/
theorem mem_groupsOf_requests {names : NameSet} {reserved : List String} {x : String}
    (h : x ∈ (groupsOf (requestsOf names reserved)).map Prod.fst) :
    x ∉ reservedNames ++ reserved ∧ isIdentifier x = true := by
  rw [mem_groupsOf] at h
  unfold requestsOf at h
  rw [List.map_map] at h
  obtain ⟨name, _, rfl⟩ := List.mem_map.mp h
  exact ⟨padFree_not_mem _ _, isIdentifier_requested reserved name⟩

namespace IdentifierTable

section
variable {names : NameSet} {reserved : List String} {a b i : String}

/-- the table answers with what was assigned -/
theorem get?_ofNames : (ofNames names reserved).get? a = some i ↔
    (a, i) ∈ assigned (settledNames names reserved) := by
  have h : ((assigned (settledNames names reserved)).map Prod.fst).Nodup := by
    unfold settledNames
    rw [map_fst_settle]
    exact groupsOf_names_nodup (requestsOf_nodup names reserved)
  exact NameMap.get?_ofList h

/-- **Exactly the names of the set have an identifier.** -/
theorem isSome_get? : ((ofNames names reserved).get? a).isSome ↔ a ∈ names := by
  have h : a ∈ (assigned (settledNames names reserved)).map Prod.fst ↔ a ∈ names := by
    unfold settledNames
    rw [map_fst_settle, mem_groupsOf_names, map_fst_requestsOf]
    exact NameSet.mem_toList
  rw [← h, Option.isSome_iff_exists, List.mem_map]
  constructor
  · rintro ⟨i, hi⟩
    exact ⟨(a, i), get?_ofNames.mp hi, rfl⟩
  · rintro ⟨⟨a, i⟩, hi, rfl⟩
    exact ⟨i, get?_ofNames.mpr hi⟩

/-- **Different names have different identifiers.** -/
theorem get?_inj (ha : (ofNames names reserved).get? a = some i)
    (hb : (ofNames names reserved).get? b = some i) : a = b := by
  have h : ((assigned (settledNames names reserved)).map Prod.snd).Nodup :=
    settle_nodup (groupsOf_nodup _) (List.Subset.refl _)
  have e := List.inj_on_of_nodup_map h (get?_ofNames.mp ha) (get?_ofNames.mp hb) rfl
  exact congrArg Prod.fst e

theorem mem_map_snd_assigned (h : (ofNames names reserved).get? a = some i) :
    i ∈ (assigned (settledNames names reserved)).map Prod.snd :=
  List.mem_map.mpr ⟨(a, i), get?_ofNames.mp h, rfl⟩

/-- **An identifier is neither a reserved name nor one of the names kept free.** -/
theorem get?_free (h : (ofNames names reserved).get? a = some i) :
    i ∉ reservedNames ++ reserved := by
  rcases mem_settle (mem_map_snd_assigned h) with h | ⟨_, h, _⟩
  · exact (mem_groupsOf_requests h).1
  · exact h

/-- **An identifier has the form of one.** -/
theorem get?_form (h : (ofNames names reserved).get? a = some i) : isIdentifier i = true := by
  rcases mem_settle (mem_map_snd_assigned h) with h | ⟨_, _, base, hb, n, _, rfl⟩
  · exact (mem_groupsOf_requests h).2
  · exact isIdentifier_numbered (mem_groupsOf_requests hb).2 n

theorem mem_toList {t : IdentifierTable} : (a, i) ∈ t.toList ↔ t.get? a = some i :=
  NameMap.mem_entries_iff

theorem identifiers_nodup (names : NameSet) (reserved : List String) :
    ((ofNames names reserved).toList.map Prod.snd).Nodup := by
  have hentries : (ofNames names reserved).toList.Nodup :=
    List.Nodup.of_map Prod.fst (ofNames names reserved).identifiers.keys_nodup
  refine hentries.map_on ?_
  rintro ⟨a, i⟩ ha ⟨b, j⟩ hb e
  -- one identifier in two entries belongs to one name
  obtain rfl : i = j := e
  rw [get?_inj (mem_toList.mp ha) (mem_toList.mp hb)]

end

/-- **The table is total, injective and legal**, whatever the names are and however often they are
given: each of them has exactly one identifier and nothing else has one, no two have the same, and
every identifier has the form of one and is neither reserved nor kept free. -/
theorem ofNames_spec (names reserved : List String) :
    let table := ofNames (.ofList names) reserved
    (∀ name ∈ names, ∃! identifier, (name, identifier) ∈ table.toList) ∧
      (∀ name identifier, (name, identifier) ∈ table.toList → name ∈ names) ∧
      (∀ name identifier,
        (name, identifier) ∈ table.toList ↔ table.get? name = some identifier) ∧
      (table.toList.map Prod.fst).Nodup ∧ (table.toList.map Prod.snd).Nodup ∧
      (∀ name ∈ names, ∀ other ∈ names, name ≠ other → table.get? name ≠ table.get? other) ∧
      ∀ name identifier, (name, identifier) ∈ table.toList →
        HasIdentifierForm identifier ∧ identifier ∉ reservedNames ∧ identifier ∉ reserved := by
  intro table
  have hhas : ∀ name, name ∈ names ↔ ∃ identifier, table.get? name = some identifier := by
    intro name
    rw [← Option.isSome_iff_exists, isSome_get?, NameSet.mem_ofList]
  refine ⟨fun name hname => ?_, fun name identifier h => ?_, fun _ _ => mem_toList,
    table.identifiers.keys_nodup, identifiers_nodup _ _, fun name hname other _ hne e => ?_,
    fun name identifier h => ?_⟩
  · obtain ⟨identifier, h⟩ := (hhas name).mp hname
    refine ⟨identifier, mem_toList.mpr h, fun j hj => ?_⟩
    exact Option.some.inj ((mem_toList.mp hj).symm.trans h)
  · exact (hhas name).mpr ⟨identifier, mem_toList.mp h⟩
  · obtain ⟨identifier, h⟩ := (hhas name).mp hname
    exact hne (get?_inj h (e.symm.trans h))
  · have hget : table.get? name = some identifier := mem_toList.mp h
    have hfree := get?_free hget
    rw [List.mem_append, not_or] at hfree
    exact ⟨isIdentifier_iff.mp (get?_form hget), hfree⟩

end IdentifierTable

end TypedVocabulary
