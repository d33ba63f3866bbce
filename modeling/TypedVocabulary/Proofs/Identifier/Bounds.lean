import Mathlib.Data.List.Perm.Subperm
import TypedVocabulary.Proofs.Identifier.Numbering

/-!
# How far the searches go

Both searches for a free identifier end soon: their candidates are pairwise different, so no more of them
can be in the way than there are names to be in the way (`count_le_of_taken`).  A search with a limit gives
up when it gets there; the table can be built with such searches (`ofNamesWithin?`), and it is the same
table as soon as the limits are as large as the names and the reserved names are many.

* `padWithin?_eq`, `numberWithin?_eq`    a search finds the same within its limit;
* `renameWithin?_eq`, `settleWithin?_eq`   so does every search for a group, and for all groups: what is
                                         taken grows by the names that were renamed, and by no others;
* `IdentifierTable.ofNames_bounded`      no search for a table goes further than its limit.
-/

namespace TypedVocabulary

/-! ## searches with a limit -/

/-- the first of `s`, `s_`, `s__`, … that is not in `blocked`, with at most that many underscores -/
def padWithin? (blocked : List String) (s : String) : Nat → Option String
  | 0 => if s ∈ blocked then none else some s
  | n + 1 => if s ∈ blocked then padWithin? blocked (s ++ "_") n else some s

/-- the first of `base_2`, …, `base_limit` that is not in `taken` -/
def numberWithin? (limit : Nat) (taken : List String) (base : String) : Option String :=
  ((List.range' 2 (limit - 1)).map (numbered base)).find? (· ∉ taken)

/-- numbers the names of a group that do not keep its identifier, with numbers up to `limit` -/
def renameWithin? (limit : Nat) (blocked : List String) (base : String) :
    List String → List String → Option (List (String × String) × List String)
  | taken, [] => some ([], taken)
  | taken, name :: names => do
    let identifier ← numberWithin? limit (taken ++ blocked) base
    let rest ← renameWithin? limit blocked base (identifier :: taken) names
    return ((name, identifier) :: rest.1, rest.2)

/-- settles one group after the other, with numbers up to `limit` -/
def settleWithin? (limit : Nat) (blocked : List String) :
    List String → List (String × List String) → Option (List Collision)
  | _, [] => some []
  | taken, (_, []) :: groups => settleWithin? limit blocked taken groups
  | taken, (base, first :: others) :: groups => do
    let r ← renameWithin? limit blocked base taken others
    let rest ← settleWithin? limit blocked r.2 groups
    return ⟨base, first, r.1⟩ :: rest

/-! ## candidates in the way -/

section
variable {blocked taken : List String} {base s : String} {limit k n : Nat}

/-- **No more candidates are in the way than there are names.** -/
theorem count_le_of_taken {f : Nat → String} (hf : Function.Injective f) (start : Nat) {count : Nat}
    (h : ∀ j < count, f (start + j) ∈ taken) : count ≤ taken.length := by
  have hinj : Function.Injective fun j => f (start + j) := fun i j e => Nat.add_left_cancel (hf e)
  have hnodup : ((List.range count).map fun j => f (start + j)).Nodup := List.nodup_range.map hinj
  have hsub : (List.range count).map (fun j => f (start + j)) ⊆ taken := by
    intro x hx
    obtain ⟨j, hj, rfl⟩ := List.mem_map.mp hx
    exact h j (List.mem_range.mp hj)
  have hlength := (List.subperm_of_subset hnodup hsub).length_le
  rwa [List.length_map, List.length_range] at hlength

theorem padded_injective (s : String) : Function.Injective (padded s) := by
  intro j k e
  have hlength := congrArg (fun t => t.toList.length) e
  simpa [padded] using hlength

/-- **Padding takes no more underscores than there are blocked names.** -/
theorem exists_padFree_le (blocked : List String) (s : String) :
    ∃ k ≤ blocked.length, padFree blocked s = padded s k ∧ padded s k ∉ blocked ∧
      ∀ j < k, padded s j ∈ blocked := by
  obtain ⟨k, hk, hfree, hmin⟩ := padFree_spec blocked s
  have hcount : k ≤ blocked.length := by
    apply count_le_of_taken (padded_injective s) 0
    intro j hj
    rw [Nat.zero_add]
    exact hmin j hj
  exact ⟨k, hcount, hk, hfree, hmin⟩

theorem padWithin?_padded (hfree : padded s k ∉ blocked) (hmin : ∀ j < k, padded s j ∈ blocked)
    (hk : k ≤ n) : padWithin? blocked s n = some (padded s k) := by
  induction k generalizing s n with
  | zero =>
    rw [padded_zero] at hfree ⊢
    cases n <;> exact if_neg hfree
  | succ k ih =>
    cases n with
    | zero => exact absurd hk (Nat.not_succ_le_zero k)
    | succ n =>
      have hs : s ∈ blocked := by
        rw [← padded_zero s]
        exact hmin 0 (Nat.succ_pos k)
      rw [padded_succ] at hfree ⊢
      rw [padWithin?, if_pos hs]
      apply ih hfree _ (Nat.le_of_succ_le_succ hk)
      intro j hj
      rw [← padded_succ]
      exact hmin (j + 1) (Nat.succ_lt_succ hj)

theorem padWithin?_eq (h : blocked.length ≤ n) : padWithin? blocked s n = some (padFree blocked s) := by
  obtain ⟨k, hk, he, hfree, hmin⟩ := exists_padFree_le blocked s
  rw [he]
  exact padWithin?_padded hfree hmin (Nat.le_trans hk h)

/-- **Numbering goes no further than there are names in the way.** -/
theorem exists_numberFree_le (taken : List String) (base : String) :
    ∃ m, 2 ≤ m ∧ m ≤ 2 + taken.length ∧ numberFree taken base 2 = numbered base m ∧
      numbered base m ∉ taken ∧ ∀ j, 2 ≤ j → j < m → numbered base j ∈ taken := by
  obtain ⟨m, hm, he, hfree, hmin⟩ := numberFree_spec taken base 2
  have hcount : m - 2 ≤ taken.length := by
    apply count_le_of_taken (fun _ _ => numbered_injective) 2
    intro j hj
    exact hmin (2 + j) (by omega) (by omega)
  exact ⟨m, hm, by omega, he, hfree, hmin⟩

theorem numberWithin?_eq (h : 2 + taken.length ≤ limit) :
    numberWithin? limit taken base = some (numberFree taken base 2) := by
  obtain ⟨m, hm, hle, he, hfree, hmin⟩ := exists_numberFree_le taken base
  have hfind : (List.range' 2 (limit - 1)).find? (fun n => decide (numbered base n ∉ taken)) = some m := by
    rw [List.find?_range'_eq_some]
    refine ⟨by simpa using hfree, ?_, fun j hj hjm => by simpa using hmin j hj hjm⟩
    rw [List.mem_range'_1]
    omega
  unfold numberWithin?
  rw [List.find?_map, he]
  exact congrArg (Option.map (numbered base)) hfind

theorem numberWithin?_numbered (h : numberWithin? limit taken base = some s) :
    ∃ n, 2 ≤ n ∧ n ≤ limit ∧ s = numbered base n := by
  obtain ⟨n, hn, rfl⟩ := List.mem_map.mp (List.mem_of_find?_eq_some h)
  rw [List.mem_range'_1] at hn
  exact ⟨n, by omega, by omega, rfl⟩

end

/-! ## groups within a limit -/

section
variable {blocked taken : List String} {base : String} {limit : Nat} {names : List String}
variable {groups : List (String × List String)} {e : String × String} {c : Collision}
variable {settled : List Collision} {r : List (String × String) × List String}

theorem length_renameAll_taken (blocked taken : List String) (base : String) (names : List String) :
    (renameAll blocked base taken names).2.length = taken.length + names.length := by
  induction names generalizing taken with
  | nil => rfl
  | cons name names ih =>
    rw [renameAll_cons, ih, List.length_cons, List.length_cons]
    omega

theorem renameWithin?_eq (h : 2 + (taken.length + names.length + blocked.length) ≤ limit) :
    renameWithin? limit blocked base taken names = some (renameAll blocked base taken names) := by
  induction names generalizing taken with
  | nil => rfl
  | cons name names ih =>
    rw [List.length_cons] at h
    have hroom : 2 + (taken ++ blocked).length ≤ limit := by
      rw [List.length_append]
      omega
    have hrest := @ih (numberFree (taken ++ blocked) base 2 :: taken) (by
      rw [List.length_cons]
      omega)
    rw [renameWithin?, numberWithin?_eq hroom, renameAll_cons]
    show (renameWithin? limit blocked base _ names).bind _ = _
    rw [hrest]
    rfl

/-- the names that do not keep the identifier of their group -/
def others (groups : List (String × List String)) : List String := groups.flatMap fun g => g.2.tail

theorem settleWithin?_eq (h : 2 + (taken.length + (others groups).length + blocked.length) ≤ limit) :
    settleWithin? limit blocked taken groups = some (settle blocked taken groups) := by
  induction taken, groups using settle.induct blocked with
  | case1 => rfl
  | case2 taken base groups ih => exact ih h
  | case3 taken base first rest groups r ih =>
    -- the names of this group are taken when the others are settled
    have hothers : (others ((base, first :: rest) :: groups)).length =
        rest.length + (others groups).length := by
      unfold others
      rw [List.flatMap_cons, List.length_append]
      rfl
    have htaken : r.2.length = taken.length + rest.length := length_renameAll_taken ..
    rw [hothers] at h
    have hgroup : renameWithin? limit blocked base taken rest = some r :=
      renameWithin?_eq (by omega)
    have hrest := ih (by omega)
    rw [settleWithin?, hgroup, settle]
    show (settleWithin? limit blocked r.2 groups).bind _ = _
    rw [hrest]
    rfl

theorem renameWithin?_numbered (h : renameWithin? limit blocked base taken names = some r)
    (he : e ∈ r.1) : ∃ n, 2 ≤ n ∧ n ≤ limit ∧ e.2 = numbered base n := by
  induction names generalizing taken r with
  | nil =>
    cases h
    exact absurd he List.not_mem_nil
  | cons name names ih =>
    obtain ⟨identifier, hidentifier, h⟩ := Option.bind_eq_some_iff.mp h
    obtain ⟨rest, hrest, h⟩ := Option.bind_eq_some_iff.mp h
    cases h
    rcases List.mem_cons.mp he with rfl | he
    · exact numberWithin?_numbered hidentifier
    · exact ih hrest he

theorem settleWithin?_numbered (h : settleWithin? limit blocked taken groups = some settled)
    (hc : c ∈ settled) (he : e ∈ c.renamed) :
    ∃ n, 2 ≤ n ∧ n ≤ limit ∧ e.2 = numbered c.identifier n := by
  induction groups generalizing taken settled with
  | nil =>
    cases h
    exact absurd hc List.not_mem_nil
  | cons g groups ih =>
    obtain ⟨base, members⟩ := g
    cases members with
    | nil => exact ih h hc
    | cons first rest =>
      obtain ⟨r, hr, h⟩ := Option.bind_eq_some_iff.mp h
      obtain ⟨later, hlater, h⟩ := Option.bind_eq_some_iff.mp h
      cases h
      rcases List.mem_cons.mp hc with rfl | hc
      · exact renameWithin?_numbered hr he
      · exact ih hlater hc

end

/-! ## the table within limits -/

namespace IdentifierTable

theorem reservedNames_nodup : reservedNames.Nodup := by decide +kernel

/-- how the groups of a set are settled, with at most `appends` underscores behind a name and with numbers
up to `limit` -/
def settledWithin? (appends limit : Nat) (names : NameSet) (reserved : List String) :
    Option (List Collision) := do
  let requests ← names.toList.mapM fun name => do
    let identifier ← padWithin? (reservedNames ++ reserved) (sanitize name) appends
    return (name, identifier)
  settleWithin? limit (reservedNames ++ reserved) ((groupsOf requests).map Prod.fst)
    (groupsOf requests)

/-- the table of a set, built by searches with limits; none if one of them gets to its limit -/
def ofNamesWithin? (appends limit : Nat) (names : NameSet) (reserved : List String) :
    Option IdentifierTable := do
  let settled ← settledWithin? appends limit names reserved
  return {
    identifiers := .ofList (settled.flatMap assignments)
    collisions := settled.filter fun c => !c.renamed.isEmpty }

section
variable {names : NameSet} {reserved : List String} {appends limit : Nat}

theorem length_groups_add_others {groups : List (String × List String)}
    (h : ∀ g ∈ groups, g.2 ≠ []) :
    groups.length + (others groups).length = (groups.flatMap Prod.snd).length := by
  induction groups with
  | nil => rfl
  | cons g groups ih =>
    have hrest := ih fun g' hg => h g' (List.mem_cons_of_mem _ hg)
    have hpos := List.length_pos_iff.mpr (h g (List.mem_cons_self ..))
    unfold others at hrest ⊢
    rw [List.flatMap_cons, List.flatMap_cons, List.length_append, List.length_append,
      List.length_cons, List.length_tail]
    omega

theorem groupsOf_ne_nil {requests : List (String × String)} {g : String × List String}
    (h : g ∈ groupsOf requests) : g.2 ≠ [] := by
  obtain ⟨identifier, hidentifier, rfl⟩ := List.mem_map.mp h
  obtain ⟨⟨name, _⟩, hname, rfl⟩ := List.mem_map.mp (NameSet.mem_ofList.mp hidentifier)
  exact List.ne_nil_of_mem (TypedVocabulary.mem_group.mpr hname)

theorem length_groupsOf_requestsOf (names : NameSet) (reserved : List String) :
    (groupsOf (requestsOf names reserved)).length +
      (others (groupsOf (requestsOf names reserved))).length = names.toList.length := by
  have hnodup := requestsOf_nodup names reserved
  -- every name is in one group, and keeps its identifier or is one of the others
  have hperm : ((groupsOf (requestsOf names reserved)).flatMap Prod.snd).Perm names.toList := by
    rw [← map_fst_requestsOf names reserved]
    apply (List.perm_ext_iff_of_nodup (groupsOf_names_nodup hnodup) hnodup).mpr
    intro name
    exact mem_groupsOf_names
  rw [length_groups_add_others fun g => groupsOf_ne_nil]
  exact hperm.length_eq

/-- **Within their limits the searches settle every group.** -/
theorem settledWithin?_eq (hpad : reservedNames.length + reserved.length ≤ appends)
    (hnumber : 2 + names.toList.length + reservedNames.length + reserved.length ≤ limit) :
    settledWithin? appends limit names reserved = some (settledNames names reserved) := by
  have hrequest : ∀ name, padWithin? (reservedNames ++ reserved) (sanitize name) appends =
      some (requestedIdentifier reserved name) := by
    intro name
    apply padWithin?_eq
    rw [List.length_append]
    exact hpad
  have hrequests : (names.toList.mapM fun name => do
      let identifier ← padWithin? (reservedNames ++ reserved) (sanitize name) appends
      return (name, identifier)) = some (requestsOf names reserved) := by
    simp only [hrequest]
    exact List.mapM_pure
  have hsettle : settleWithin? limit (reservedNames ++ reserved)
      ((groupsOf (requestsOf names reserved)).map Prod.fst) (groupsOf (requestsOf names reserved)) =
        some (settledNames names reserved) := by
    have hlength := length_groupsOf_requestsOf names reserved
    apply settleWithin?_eq
    rw [List.length_map, List.length_append]
    omega
  unfold settledWithin?
  rw [hrequests]
  exact hsettle

end

/-- **No search for a table goes far.**  A name is padded with no more underscores than there are reserved
names, those to be kept free included, and a name that does not keep the identifier of its group gets a
number that is larger than two by no more than there are names and reserved names.  So the table is the
same if every search gives up at these limits or at larger ones: none of them gets there, and none falls
back on anything else.  Numbers of 32 bits with a sign are enough, also for the one that would be tried
next, as long as there are not about 2³¹ names. -/
theorem ofNames_bounded (names : NameSet) (reserved : List String) :
    reservedNames.Nodup ∧
    (∀ name, ∃ k ≤ reservedNames.length + reserved.length,
      requestedIdentifier reserved name = padded (sanitize name) k ∧
      padded (sanitize name) k ∉ reservedNames ++ reserved ∧
      ∀ j < k, padded (sanitize name) j ∈ reservedNames ++ reserved) ∧
    (∀ c ∈ (ofNames names reserved).collisions, ∀ e ∈ c.renamed, ∃ n, 2 ≤ n ∧
      n ≤ 2 + names.toList.length + reservedNames.length + reserved.length ∧
      (ofNames names reserved).get? e.1 = some e.2 ∧ e.2 = numbered c.identifier n) ∧
    (∀ appends limit, reservedNames.length + reserved.length ≤ appends →
      2 + names.toList.length + reservedNames.length + reserved.length ≤ limit →
      ofNamesWithin? appends limit names reserved = some (ofNames names reserved)) ∧
    (names.toList.length + reservedNames.length + reserved.length + 4 ≤ 2 ^ 31 →
      ofNamesWithin? (2 ^ 31) (2 ^ 31 - 2) names reserved = some (ofNames names reserved)) := by
  have hwithin : ∀ appends limit, reservedNames.length + reserved.length ≤ appends →
      2 + names.toList.length + reservedNames.length + reserved.length ≤ limit →
      ofNamesWithin? appends limit names reserved = some (ofNames names reserved) := by
    intro appends limit hpad hnumber
    unfold ofNamesWithin?
    rw [settledWithin?_eq hpad hnumber]
    rfl
  refine ⟨reservedNames_nodup, fun name => ?_, fun c hc e he => ?_, hwithin, fun hfew => ?_⟩
  · obtain ⟨k, hk, hspec⟩ := exists_padFree_le (reservedNames ++ reserved) (sanitize name)
    rw [List.length_append] at hk
    exact ⟨k, hk, hspec⟩
  · have hsettled := (mem_collisions.mp hc).1
    have hlimits : settledWithin? _ _ names reserved = some (settledNames names reserved) :=
      settledWithin?_eq (Nat.le_refl _) (Nat.le_refl _)
    obtain ⟨_, _, hsettle⟩ := Option.bind_eq_some_iff.mp hlimits
    obtain ⟨n, hn, hle, hnumbered⟩ := settleWithin?_numbered hsettle hsettled he
    exact ⟨n, hn, hle, (get?_of_settled hsettled).2 e he, hnumbered⟩
  · apply hwithin
    · omega
    · omega

end IdentifierTable

end TypedVocabulary
