import Mathlib.Data.Nat.Nth
import Mathlib.Data.Set.Finite.Basic
import TypedVocabulary.Proofs.Identifier.Table

/-!
# Which number a name gets

The table in closed form.  A number is free for a base (`IsFree`) where the numbered form of the base is
nobody's request and not blocked, which does not depend on how other groups are settled.  The first
name of a group keeps the base, and the others get the free numbers in increasing order.

* `numbered_inj`      a numbered form shows its base and its number, because digits hold no underscore;
* `numberFree_eq`     with the first `i` free numbers given away, the search finds the next one;
* `settle_eq`         so a group gets its own free numbers, whatever was settled before;
* `IdentifierTable.ofNames_closed_form`   the table and its collisions, read off the names.

What earlier groups gave away are numbered forms of other bases, and these are in the way of no form of
this base: the invariant of a group (`Leaves`) holds when its turn comes.
-/

namespace TypedVocabulary

/-! ## reading a numbered form -/

/-- a list is read back from its end up to the last `c` -/
theorem append_cons_inj {α : Type} {xs ys ds es : List α} {c : α} (hd : c ∉ ds) (he : c ∉ es)
    (h : xs ++ c :: ds = ys ++ c :: es) : xs = ys ∧ ds = es := by
  rcases List.append_eq_append_iff.mp h with ⟨zs, rfl, hz⟩ | ⟨zs, rfl, hz⟩
  · cases zs with
    | nil => exact ⟨(List.append_nil xs).symm, (List.cons.inj hz).2⟩
    | cons z zs =>
      rw [List.cons_append, List.cons.injEq] at hz
      exact absurd (hz.2 ▸ List.mem_append_right zs (List.mem_cons_self ..)) hd
  · cases zs with
    | nil => exact ⟨List.append_nil ys, (List.cons.inj hz).2.symm⟩
    | cons z zs =>
      rw [List.cons_append, List.cons.injEq] at hz
      exact absurd (hz.2 ▸ List.mem_append_right zs (List.mem_cons_self ..)) he

theorem underscore_not_mem_toString (n : Nat) : '_' ∉ (toString n).toList := by
  intro h
  rw [toList_toString] at h
  exact absurd (Nat.isDigit_of_mem_toDigits (by decide) (by decide) h) (by decide)

theorem toList_numbered (base : String) (n : Nat) :
    (numbered base n).toList = base.toList ++ '_' :: (toString n).toList := by
  unfold numbered
  rw [String.toList_append, String.toList_append, List.append_assoc]
  rfl

/-- **A numbered form shows its base and its number.** -/
theorem numbered_inj {b c : String} {m n : Nat} (h : numbered b m = numbered c n) :
    b = c ∧ m = n := by
  have e := congrArg String.toList h
  rw [toList_numbered, toList_numbered] at e
  have hb : b.toList = c.toList :=
    (append_cons_inj (underscore_not_mem_toString m) (underscore_not_mem_toString n) e).1
  obtain rfl : b = c := String.toList_injective hb
  exact ⟨rfl, numbered_injective h⟩

/-! ## free numbers -/

/-- `n` is one of the numbers from 2 on, and its form is none of the names to avoid -/
def IsFree (avoid : List String) (base : String) (n : Nat) : Prop :=
  2 ≤ n ∧ numbered base n ∉ avoid

theorem infinite_isFree (avoid : List String) (base : String) : {n | IsFree avoid base n}.Infinite := by
  have hmet : {n | numbered base n ∈ avoid}.Finite :=
    avoid.finite_toSet.preimage fun _ _ _ _ h => numbered_injective h
  refine ((Set.finite_lt_nat 2).union hmet).infinite_compl.mono fun n hn => ?_
  rw [Set.mem_compl_iff, Set.mem_union, not_or] at hn
  exact ⟨Nat.le_of_not_lt hn.1, hn.2⟩

/-- the names that are not in `taken` are, of the forms of `base`, those of the free numbers behind the
first `i` -/
def Leaves (avoid taken : List String) (base : String) (i : Nat) : Prop :=
  ∀ n, 2 ≤ n → (numbered base n ∉ taken ↔
    IsFree avoid base n ∧ ∀ k < i, Nat.nth (IsFree avoid base) k < n)

section
variable {avoid taken blocked : List String} {base : String} {i : Nat}

/-- **The search finds the next free number.** -/
theorem numberFree_eq (h : Leaves avoid taken base i) :
    numberFree taken base 2 = numbered base (Nat.nth (IsFree avoid base) i) := by
  obtain ⟨m, hm, he, hout, hbelow⟩ := numberFree_spec taken base 2
  have hleast : IsLeast {n | IsFree avoid base n ∧ ∀ k < i, Nat.nth (IsFree avoid base) k < n} m := by
    refine ⟨(h m hm).mp hout, fun n hn => ?_⟩
    by_contra hlt
    have htwo : 2 ≤ n := hn.1.1
    exact (h n htwo).mpr hn (hbelow n htwo (Nat.lt_of_not_le hlt))
  rw [he, hleast.unique (Nat.isLeast_nth_of_infinite (infinite_isFree avoid base) i)]

/-- it is the first of the numbers that were left -/
theorem Leaves.cons (h : Leaves avoid taken base i) :
    Leaves avoid (numbered base (Nat.nth (IsFree avoid base) i) :: taken) base (i + 1) := by
  intro n hn
  rw [List.mem_cons, not_or, h n hn]
  constructor
  · rintro ⟨hne, hf, hlt⟩
    refine ⟨hf, fun k hk => ?_⟩
    rcases Nat.lt_or_eq_of_le (Nat.le_of_lt_succ hk) with hk | rfl
    · exact hlt k hk
    · have hle := (Nat.isLeast_nth_of_infinite (infinite_isFree avoid base) k).2 ⟨hf, hlt⟩
      exact Nat.lt_of_le_of_ne hle fun e => hne (congrArg _ e.symm)
  · rintro ⟨hf, hlt⟩
    refine ⟨fun e => ?_, hf, fun k hk => hlt k (Nat.lt_succ_of_lt hk)⟩
    have hi := hlt i (Nat.lt_succ_self i)
    rw [← numbered_injective e] at hi
    exact Nat.lt_irrefl n hi

/-- **The names of a group get the free numbers in order.** -/
theorem renameAll_eq {names : List String} (h : Leaves avoid (taken ++ blocked) base i) :
    (renameAll blocked base taken names).1 = names.mapIdx fun k name =>
      (name, numbered base (Nat.nth (IsFree avoid base) (i + k))) := by
  induction names generalizing taken i with
  | nil => rfl
  | cons name names ih =>
    have hstep := h.cons
    rw [← numberFree_eq h, ← List.cons_append] at hstep
    rw [renameAll_cons, List.mapIdx_cons, ih hstep, numberFree_eq h]
    simp only [Nat.add_zero, Nat.add_right_comm, Nat.add_assoc]

end

/-! ## all groups -/

/-- names with the forms of the free numbers, in order -/
noncomputable def numberOff (avoid : List String) (base : String) (names : List String) :
    List (String × String) :=
  names.mapIdx fun i name => (name, numbered base (Nat.nth (IsFree avoid base) i))

theorem map_fst_numberOff (avoid : List String) (base : String) (names : List String) :
    (numberOff avoid base names).map Prod.fst = names := by
  apply List.ext_getElem?
  intro i
  rw [numberOff, List.getElem?_map, List.getElem?_mapIdx]
  cases names[i]? <;> rfl

theorem mem_numberOff {avoid names : List String} (base : String) {i : Nat} (h : i < names.length) :
    (names[i], numbered base (Nat.nth (IsFree avoid base) i)) ∈ numberOff avoid base names :=
  List.mem_mapIdx.mpr ⟨i, h, rfl⟩

theorem numberOff_eq_nil_iff {avoid names : List String} {base : String} :
    numberOff avoid base names = [] ↔ names = [] := List.mapIdx_eq_nil_iff

/-- a group with nothing in the way of its numbers but the names to avoid -/
noncomputable def settleAlone (avoid : List String) : String × List String → Option Collision
  | (_, []) => none
  | (base, first :: others) => some ⟨base, first, numberOff avoid base others⟩

section
variable {avoid blocked taken : List String} {groups : List (String × List String)}

/-- **A group gets its own free numbers, whatever was settled before.** -/
theorem settle_eq (hg : (groups.map Prod.fst).Nodup)
    (h : ∀ b ∈ groups.map Prod.fst, Leaves avoid (taken ++ blocked) b 0) :
    settle blocked taken groups = groups.filterMap (settleAlone avoid) := by
  induction taken, groups using settle.induct blocked with
  | case1 => rfl
  | case2 taken base groups ih =>
    exact ih (List.nodup_cons.mp hg).2 fun b hb => h b (List.mem_cons_of_mem _ hb)
  | case3 taken base first others groups r ih =>
    obtain ⟨hbase, hrest⟩ := List.nodup_cons.mp hg
    have hkept : ∀ b ∈ groups.map Prod.fst, Leaves avoid (r.2 ++ blocked) b 0 := by
      intro b hb n hn
      rw [← h b (List.mem_cons_of_mem _ hb) n hn, List.mem_append, List.mem_append]
      -- this group gave away forms of its own base only
      have hother : numbered b n ∉ r.1.map Prod.snd := by
        intro hr
        obtain ⟨_, _, m, _, e⟩ := mem_renameAll hr
        exact hbase ((numbered_inj e).1 ▸ hb)
      have hr : numbered b n ∈ r.2 ↔ numbered b n ∈ taken :=
        mem_renameAll_taken.trans (or_iff_right hother)
      rw [hr]
    have hr : r.1 = numberOff avoid base others := by
      refine (renameAll_eq (h base (List.mem_cons_self ..))).trans ?_
      simp only [numberOff, Nat.zero_add]
    rw [settle, ih hrest hkept, List.filterMap_cons, settleAlone, hr]

end

namespace IdentifierTable

/-- the names that ask for `b`, in order -/
def group (names : NameSet) (reserved : List String) (b : String) : List String :=
  names.toList.filter fun name => requestedIdentifier reserved name = b

/-- what a numbered form must not be: a request, a reserved name or one that is kept free -/
def avoided (names : NameSet) (reserved : List String) : List String :=
  names.toList.map (requestedIdentifier reserved) ++ (reservedNames ++ reserved)

section
variable {names : NameSet} {reserved : List String} {b n i : String} {c : Collision}

theorem mem_group : n ∈ group names reserved b ↔ n ∈ names ∧ requestedIdentifier reserved n = b := by
  unfold group
  rw [List.mem_filter, decide_eq_true_eq]
  rfl

theorem group_increasing (names : NameSet) (reserved : List String) (b : String) :
    (group names reserved b).Pairwise (· < ·) := names.increasing.filter _

theorem map_snd_requestsOf (names : NameSet) (reserved : List String) :
    (requestsOf names reserved).map Prod.snd = names.toList.map (requestedIdentifier reserved) :=
  List.map_map

theorem groupsOf_requestsOf (names : NameSet) (reserved : List String) :
    groupsOf (requestsOf names reserved) =
      (NameSet.ofList (names.toList.map (requestedIdentifier reserved))).toList.map fun b =>
        (b, group names reserved b) := by
  have hgroup : ∀ b, ((requestsOf names reserved).filter (·.2 = b)).map Prod.fst =
      group names reserved b := by
    intro b
    unfold requestsOf
    rw [List.filter_map, List.map_map]
    exact List.map_id _
  unfold groupsOf
  simp only [map_snd_requestsOf, hgroup]

theorem settledNames_eq (names : NameSet) (reserved : List String) :
    settledNames names reserved =
      (NameSet.ofList (names.toList.map (requestedIdentifier reserved))).toList.filterMap fun b =>
        settleAlone (avoided names reserved) (b, group names reserved b) := by
  have hmem : ∀ x, x ∈ (groupsOf (requestsOf names reserved)).map Prod.fst ++
      (reservedNames ++ reserved) ↔ x ∈ avoided names reserved := by
    intro x
    rw [List.mem_append, mem_groupsOf, map_snd_requestsOf]
    exact List.mem_append.symm
  have hleaves : ∀ b ∈ (groupsOf (requestsOf names reserved)).map Prod.fst,
      Leaves (avoided names reserved) ((groupsOf (requestsOf names reserved)).map Prod.fst ++
        (reservedNames ++ reserved)) b 0 := by
    intro b _ n hn
    rw [hmem]
    exact ⟨fun h => ⟨⟨hn, h⟩, fun k hk => absurd hk (Nat.not_lt_zero k)⟩, fun h => h.1.2⟩
  unfold settledNames
  rw [settle_eq (groupsOf_nodup _) hleaves, groupsOf_requestsOf, List.filterMap_map]
  rfl

/-- **How a group is settled is read off the names.** -/
theorem mem_settledNames : c ∈ settledNames names reserved ↔
    ∃ others, group names reserved c.identifier = c.keptBy :: others ∧
      c.renamed = numberOff (avoided names reserved) c.identifier others := by
  rw [settledNames_eq, List.mem_filterMap]
  constructor
  · rintro ⟨b, _, hb⟩
    cases hgroup : group names reserved b with
    | nil =>
      rw [hgroup] at hb
      cases hb
    | cons first others =>
      rw [hgroup] at hb
      cases hb
      exact ⟨others, hgroup, rfl⟩
  · rintro ⟨others, hgroup, hrenamed⟩
    have hfirst : c.keptBy ∈ group names reserved c.identifier :=
      hgroup ▸ List.mem_cons_self ..
    obtain ⟨hname, hrequest⟩ := mem_group.mp hfirst
    refine ⟨c.identifier, NameSet.mem_ofList.mpr (List.mem_map.mpr ⟨_, hname, hrequest⟩), ?_⟩
    rw [hgroup, settleAlone, ← hrenamed]

theorem settledNames_increasing (names : NameSet) (reserved : List String) :
    (settledNames names reserved).Pairwise fun c d => c.identifier < d.identifier := by
  have hidentifier : ∀ b c, settleAlone (avoided names reserved) (b, group names reserved b) =
      some c → c.identifier = b := by
    intro b c h
    cases hgroup : group names reserved b <;> (rw [hgroup] at h; cases h)
    rfl
  rw [settledNames_eq]
  refine (NameSet.increasing _).filterMap _ fun a b hab c hc d hd => ?_
  rw [hidentifier a c hc, hidentifier b d hd]
  exact hab

theorem get?_of_settled (hc : c ∈ settledNames names reserved) :
    (ofNames names reserved).get? c.keptBy = some c.identifier ∧
      ∀ e ∈ c.renamed, (ofNames names reserved).get? e.1 = some e.2 := by
  constructor
  · exact get?_ofNames.mpr (List.mem_flatMap.mpr ⟨c, hc, List.mem_cons_self ..⟩)
  · intro e he
    exact get?_ofNames.mpr (List.mem_flatMap.mpr ⟨c, hc, List.mem_cons_of_mem _ he⟩)

/-- **What the names of a group get.** -/
theorem get?_of_group {first : String} {others : List String}
    (h : group names reserved b = first :: others) :
    (ofNames names reserved).get? first = some b ∧
      ∀ i (hi : i < others.length), (ofNames names reserved).get? others[i] =
        some (numbered b (Nat.nth (IsFree (avoided names reserved) b) i)) := by
  have hsettled : (⟨b, first, numberOff (avoided names reserved) b others⟩ : Collision) ∈
      settledNames names reserved := mem_settledNames.mpr ⟨others, h, rfl⟩
  obtain ⟨hfirst, hothers⟩ := get?_of_settled hsettled
  exact ⟨hfirst, fun i hi => hothers _ (mem_numberOff b hi)⟩

/-! ## collisions -/

theorem mem_collisions : c ∈ (ofNames names reserved).collisions ↔
    c ∈ settledNames names reserved ∧ c.renamed ≠ [] := by
  show c ∈ (settledNames names reserved).filter _ ↔ _
  rw [List.mem_filter, Bool.not_eq_true', List.isEmpty_eq_false_iff]

theorem collisions_increasing (names : NameSet) (reserved : List String) :
    ((ofNames names reserved).collisions.map Collision.identifier).Pairwise (· < ·) :=
  List.pairwise_map.mpr ((settledNames_increasing names reserved).filter _)

/-- **Names collide where two or more of them ask for one identifier.** -/
theorem mem_map_identifier_collisions :
    b ∈ (ofNames names reserved).collisions.map Collision.identifier ↔
      2 ≤ (group names reserved b).length := by
  rw [List.mem_map]
  constructor
  · rintro ⟨c, hc, rfl⟩
    obtain ⟨hc, hne⟩ := mem_collisions.mp hc
    obtain ⟨others, hgroup, hrenamed⟩ := mem_settledNames.mp hc
    rw [hrenamed, Ne, numberOff_eq_nil_iff] at hne
    rw [hgroup, List.length_cons]
    exact Nat.succ_le_succ (List.length_pos_iff.mpr hne)
  · intro h
    cases hgroup : group names reserved b with
    | nil =>
      rw [hgroup] at h
      exact absurd h (by decide)
    | cons first others =>
      rw [hgroup, List.length_cons] at h
      have hne : others ≠ [] := List.length_pos_iff.mp (Nat.le_of_succ_le_succ h)
      refine ⟨⟨b, first, numberOff (avoided names reserved) b others⟩, mem_collisions.mpr ⟨?_, ?_⟩, rfl⟩
      · exact mem_settledNames.mpr ⟨others, hgroup, rfl⟩
      · exact mt numberOff_eq_nil_iff.mp hne

theorem group_of_mem_collisions (hc : c ∈ (ofNames names reserved).collisions) :
    group names reserved c.identifier = c.keptBy :: c.renamed.map Prod.fst := by
  obtain ⟨others, hgroup, hrenamed⟩ := mem_settledNames.mp (mem_collisions.mp hc).1
  rw [hgroup, hrenamed, map_fst_numberOff]

end

/-- **The table in closed form.**  A name asks for its sanitized spelling with the fewest underscores
behind it that make it neither reserved nor one of the names kept free.  Of the names that ask for one
identifier, in order, the first gets it, and the others get the numbered forms with the first, the
second, … number from 2 on whose form nobody asks for and that is not reserved or kept free.  The
collisions are the identifiers that two or more names ask for, in increasing order, each once, with
what these names get. -/
theorem ofNames_closed_form (names : NameSet) (reserved : List String) :
    let table := ofNames names reserved
    let base := requestedIdentifier reserved
    (∀ n, ∃ k, base n = padded (sanitize n) k ∧ base n ∉ reservedNames ++ reserved ∧
      ∀ j < k, padded (sanitize n) j ∈ reservedNames ++ reserved) ∧
    (∀ b, (group names reserved b).Pairwise (· < ·) ∧
      ∀ n, n ∈ group names reserved b ↔ n ∈ names ∧ base n = b) ∧
    (∀ b, {n | IsFree (avoided names reserved) b n}.Infinite) ∧
    (∀ b first others, group names reserved b = first :: others → table.get? first = some b ∧
      ∀ i (h : i < others.length), table.get? others[i] =
        some (numbered b (Nat.nth (IsFree (avoided names reserved) b) i))) ∧
    (table.collisions.map Collision.identifier).Pairwise (· < ·) ∧
    (∀ b, b ∈ table.collisions.map Collision.identifier ↔ 2 ≤ (group names reserved b).length) ∧
    ∀ c ∈ table.collisions,
      group names reserved c.identifier = c.keptBy :: c.renamed.map Prod.fst ∧
      table.get? c.keptBy = some c.identifier ∧ ∀ e ∈ c.renamed, table.get? e.1 = some e.2 := by
  intro table base
  refine ⟨fun n => ?_, fun b => ⟨group_increasing names reserved b, fun n => mem_group⟩,
    fun b => infinite_isFree _ b, fun b first others => get?_of_group,
    collisions_increasing names reserved, fun b => mem_map_identifier_collisions, fun c hc => ?_⟩
  · obtain ⟨k, hk, _, hfewest⟩ := padFree_spec (reservedNames ++ reserved) (sanitize n)
    exact ⟨k, hk, padFree_not_mem _ _, hfewest⟩
  · exact ⟨group_of_mem_collisions hc, get?_of_settled (mem_collisions.mp hc).1⟩

end IdentifierTable

end TypedVocabulary
