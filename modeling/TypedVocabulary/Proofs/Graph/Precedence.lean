import Mathlib.Order.Bounds.Basic
import TypedVocabulary.Proofs.Graph.Leftover

/-!
# Which class comes first

The queue decides the order of the classes that are placed, but the order can be read off the edges: a
class joins the queue when the last of its parents is placed, so classes with an earlier last parent come
first, and among those with the same last parent the smaller name does.

* `idxOf_lt_idxOf_iff`        places in a list whose members are related from front to back;
* `Graph.rank`                one more than the place of the last parent, and zero without parents;
* `Graph.Earlier`             by rank, then by name;
* `Graph.placeAll_earlier`    the placed classes and the queue together are always in this order;
* `Graph.before_of_unresolved_iff`   what is left over is in the order of names;
* `Graph.resolved_order`      the order of the classes that are placed, described by their parents.

Ranks are taken in the list of classes placed so far.  Those of the classes met do not change any more,
since their parents are all in it already; a class that is met in a step has the parent just placed for
its last one.
-/

namespace TypedVocabulary

/-- in a list that relates its members from front to back, the relation compares their places -/
theorem idxOf_lt_idxOf_iff {α : Type} [BEq α] [LawfulBEq α] {r : α → α → Prop} {xs : List α} {a b : α}
    (hxs : xs.Pairwise r) (hasymm : ∀ x y, r x y → ¬ r y x) (ha : a ∈ xs) (hb : b ∈ xs) :
    xs.idxOf a < xs.idxOf b ↔ r a b := by
  have hia : xs.idxOf a < xs.length := List.idxOf_lt_length_of_mem ha
  have hib : xs.idxOf b < xs.length := List.idxOf_lt_length_of_mem hb
  have hget := List.pairwise_iff_getElem.mp hxs
  constructor
  · intro h
    have hr := hget (xs.idxOf a) (xs.idxOf b) hia hib h
    rwa [List.getElem_idxOf hia, List.getElem_idxOf hib] at hr
  · intro hr
    rcases Nat.lt_trichotomy (xs.idxOf a) (xs.idxOf b) with h | h | h
    · exact h
    · have e : a = b := by rw [← List.getElem_idxOf hia, ← List.getElem_idxOf hib]; simp only [h]
      subst e
      exact absurd hr (hasymm a a hr)
    · have hr' := hget (xs.idxOf b) (xs.idxOf a) hib hia h
      rw [List.getElem_idxOf hib, List.getElem_idxOf hia] at hr'
      exact absurd hr' (hasymm a b hr)

/-! ## ranks -/

/-- the greatest of some numbers, and zero where there are none -/
def greatest (ns : List Nat) : Nat := ns.foldr Nat.max 0

theorem greatest_le_iff {ns : List Nat} {n : Nat} : greatest ns ≤ n ↔ ∀ m ∈ ns, m ≤ n := by
  induction ns with
  | nil => simp [greatest]
  | cons m ns ih =>
    rw [List.forall_mem_cons, ← ih]
    exact Nat.max_le

theorem greatest_mem {ns : List Nat} (h : ns ≠ []) : greatest ns ∈ ns := by
  induction ns with
  | nil => exact absurd rfl h
  | cons m ns ih =>
    by_cases hns : ns = []
    · subst hns
      exact List.mem_singleton.mpr (Nat.max_zero m)
    · rcases Nat.le_total m (greatest ns) with hle | hle
      · have e : greatest (m :: ns) = greatest ns := Nat.max_eq_right hle
        rw [e]
        exact List.mem_cons_of_mem _ (ih hns)
      · have e : greatest (m :: ns) = m := Nat.max_eq_left hle
        rw [e]
        exact List.mem_cons_self ..

namespace Graph

/-- one more than the place of the last parent in a list, and zero without parents -/
def rank (g : Graph) (order : List String) (c : String) : Nat :=
  greatest ((g.resolvableParents c).map fun p => order.idxOf p + 1)

section
variable {g : Graph} {order done : List String} {name a b c : String} {n : Nat}

theorem rank_le_iff : g.rank order c ≤ n ↔ ∀ p, g.HasParent c p → order.idxOf p + 1 ≤ n := by
  unfold rank HasParent
  rw [greatest_le_iff, List.forall_mem_map]

theorem idxOf_lt_rank (order : List String) {p : String} (h : g.HasParent c p) :
    order.idxOf p < g.rank order c := rank_le_iff.mp (Nat.le_refl _) p h

theorem rank_eq_zero_iff : g.rank order c = 0 ↔ ∀ p, ¬ g.HasParent c p := by
  constructor
  · intro h p hp
    have := idxOf_lt_rank order hp
    omega
  · intro h
    exact Nat.le_zero.mp (rank_le_iff.mpr fun p hp => absurd hp (h p))

theorem exists_rank_eq (order : List String) (h : ∃ p, g.HasParent c p) :
    ∃ p, g.HasParent c p ∧ g.rank order c = order.idxOf p + 1 := by
  obtain ⟨q, hq⟩ := h
  have hne : (g.resolvableParents c).map (fun p => order.idxOf p + 1) ≠ [] :=
    List.ne_nil_of_mem (List.mem_map_of_mem hq)
  obtain ⟨p, hp, e⟩ := List.mem_map.mp (greatest_mem hne)
  exact ⟨p, hp, e.symm⟩

theorem rank_le_length (h : g.missing done c = 0) : g.rank done c ≤ done.length := by
  refine rank_le_iff.mpr fun p hp => ?_
  have := List.idxOf_lt_length_of_mem (missing_eq_zero.mp h p hp)
  omega

/-- the rank of a class that misses nothing stays when more classes are placed -/
theorem rank_append (h : g.missing done c = 0) (more : List String) :
    g.rank (done ++ more) c = g.rank done c := by
  unfold rank
  refine congrArg greatest (List.map_congr_left fun p hp => ?_)
  have hmem : p ∈ done := missing_eq_zero.mp h p hp
  rw [List.idxOf_append_of_mem hmem]

theorem rank_of_mem_released (hn : name ∉ done) (h : c ∈ g.released done name) :
    g.rank (done ++ [name]) c = done.length + 1 := by
  obtain ⟨-, hmiss, hzero⟩ := mem_released.mp h
  have hle := rank_le_length hzero
  rw [List.length_append, List.length_singleton] at hle
  -- nothing else was placed in this step, so the class placed is a parent
  have hparent : g.HasParent c name := by
    by_contra hnot
    refine hmiss (missing_eq_zero.mpr fun p hp => ?_)
    have hp' : p ∈ done ++ [name] := missing_eq_zero.mp hzero p hp
    rcases List.mem_append.mp hp' with hp' | hp'
    · exact hp'
    · rw [List.mem_singleton] at hp'
      exact absurd (hp' ▸ hp) hnot
  have hlt := idxOf_lt_rank (done ++ [name]) hparent
  rw [List.idxOf_append_of_notMem hn, List.idxOf_cons_self] at hlt
  omega

/-! ## the order by ranks -/

/-- by rank, and by name where the ranks are equal -/
def Earlier (g : Graph) (order : List String) (a b : String) : Prop :=
  g.rank order a < g.rank order b ∨ g.rank order a = g.rank order b ∧ a < b

theorem Earlier.asymm (h : g.Earlier order a b) : ¬ g.Earlier order b a := by
  intro h'
  rcases h with h | ⟨e, h⟩
  · rcases h' with h' | ⟨e', -⟩ <;> omega
  · rcases h' with h' | ⟨-, h'⟩
    · omega
    · exact absurd h' (String.lt_asymm h)

/-- **A step keeps the order**: classes met before have their ranks still, and those that become ready
stand behind them with a higher one. -/
theorem Placing.step_earlier {queue : List String} (h : g.Placing done (name :: queue))
    (hp : (done ++ name :: queue).Pairwise (g.Earlier done)) :
    ((done ++ [name]) ++ (queue ++ g.released done name)).Pairwise (g.Earlier (done ++ [name])) := by
  have hmiss : ∀ c ∈ done ++ name :: queue, g.missing done c = 0 := fun c hc =>
    ((h.mem_iff c).mp hc).2
  have hnew : ∀ c ∈ g.released done name, g.rank (done ++ [name]) c = done.length + 1 :=
    fun c hc => rank_of_mem_released h.not_mem hc
  rw [← List.append_assoc, List.append_assoc done, List.singleton_append]
  refine List.pairwise_append.mpr ⟨?_, ?_, ?_⟩
  · refine hp.imp_of_mem fun {a b} ha hb hab => ?_
    unfold Earlier at hab ⊢
    rwa [rank_append (hmiss a ha), rank_append (hmiss b hb)]
  · refine (g.classes.keys_increasing.filter _).imp_of_mem fun {a b} ha hb hab => ?_
    exact Or.inr ⟨(hnew a ha).trans (hnew b hb).symm, hab⟩
  · intro a ha b hb
    have hle := rank_le_length (hmiss a ha)
    refine Or.inl ?_
    rw [rank_append (hmiss a ha), hnew b hb]
    omega

theorem placing_start_earlier (g : Graph) :
    (g.classes.keys.filter fun c => g.missing [] c = 0).Pairwise (g.Earlier []) := by
  refine (g.classes.keys_increasing.filter _).imp_of_mem fun {a b} ha hb hab => ?_
  have hzero : ∀ c ∈ g.classes.keys.filter (fun c => g.missing [] c = 0), g.rank [] c = 0 := by
    intro c hc
    exact Nat.le_zero.mp (rank_le_length (of_decide_eq_true (List.mem_filter.mp hc).2))
  exact Or.inr ⟨(hzero a ha).trans (hzero b hb).symm, hab⟩

/-- **All steps keep it.** -/
theorem placeAll_earlier {queue : List String} (h : g.Placing done queue)
    (hp : (done ++ queue).Pairwise (g.Earlier done)) :
    (done ++ (placeAll queue (g.waitingAfter done)).1).Pairwise
      (g.Earlier (done ++ (placeAll queue (g.waitingAfter done)).1)) := by
  induction h using Placing.induction with
  | empty done h =>
    rw [List.append_nil] at hp
    rwa [placeAll, List.append_nil]
  | step done name queue h ih =>
    rw [placeAll_step h.not_mem]
    have ih := ih (h.step_earlier hp)
    rwa [List.append_assoc, List.singleton_append] at ih

theorem placed_earlier (g : Graph) : g.placed.Pairwise (g.Earlier g.placed) := by
  unfold placed
  rw [readyNames_waitingList, notReady_waitingList]
  exact placeAll_earlier g.placing_start g.placing_start_earlier

end

end Graph

/-! ## places in the whole order -/

theorem Linearization.before_iff {l : Linearization} {a b : String} {i j : Nat}
    (ha : l.position? a = some i) (hb : l.position? b = some j) : l.Before a b ↔ i < j := by
  constructor
  · rintro ⟨i', j', hi, hj, hij⟩
    rw [ha] at hi
    rw [hb] at hj
    cases hi
    cases hj
    exact hij
  · intro h
    exact ⟨i, j, ha, hb, h⟩

namespace Graph

section
variable {g : Graph} {a b c : String}

theorem before_of_placed_iff (ha : a ∈ g.placed) (hb : b ∈ g.placed) :
    g.linearize.Before a b ↔ g.Earlier g.placed a b := by
  rw [Linearization.before_iff (position?_of_placed ha) (position?_of_placed hb)]
  exact idxOf_lt_idxOf_iff g.placed_earlier (fun _ _ => Earlier.asymm) ha hb

theorem position?_of_unresolved (hc : c ∈ g.linearize.unresolved) :
    g.linearize.position? c = some (g.placed.length + g.linearize.unresolved.idxOf c) := by
  rw [position?_eq_some_iff, order_eq, List.getElem?_append_right (Nat.le_add_right _ _),
    Nat.add_sub_cancel_left, List.getElem?_idxOf hc]

/-- **What is left over is in the order of names.** -/
theorem before_of_unresolved_iff (ha : a ∈ g.linearize.unresolved)
    (hb : b ∈ g.linearize.unresolved) : g.linearize.Before a b ↔ a < b := by
  rw [Linearization.before_iff (position?_of_unresolved ha) (position?_of_unresolved hb),
    Nat.add_lt_add_iff_left]
  exact idxOf_lt_idxOf_iff g.unresolved_increasing (fun _ _ => String.lt_asymm) ha hb

end

/-! ## resolved classes -/

/-- a declared class that is not left over -/
def Resolved (g : Graph) (c : String) : Prop := g.isClass c = true ∧ c ∉ g.linearize.unresolved

/-- the place of the last parent of a class in the order of all classes -/
def LastParentAt (g : Graph) (c : String) (m : Nat) : Prop :=
  IsGreatest {i | ∃ p, g.HasParent c p ∧ g.linearize.position? p = some i} m

section
variable {g : Graph} {a b c : String}

theorem Resolved.mem_placed (h : g.Resolved c) : c ∈ g.placed := by
  by_contra hnot
  exact h.2 (mem_unresolved.mpr ⟨h.1, hnot⟩)

/-- with parents, the rank is one more than the place of the last of them -/
theorem Resolved.exists_lastParentAt (h : g.Resolved c) (hp : ∃ p, g.HasParent c p) :
    ∃ m, g.LastParentAt c m ∧ g.rank g.placed c = m + 1 := by
  obtain ⟨p, hcp, hrank⟩ := exists_rank_eq g.placed hp
  have hpos : ∀ q, g.HasParent c q → g.linearize.position? q = some (g.placed.idxOf q) :=
    fun q hq => position?_of_placed ((Graph.mem_placed.mp h.mem_placed).2 q hq)
  refine ⟨g.placed.idxOf p, ⟨⟨p, hcp, hpos p hcp⟩, ?_⟩, hrank⟩
  rintro i ⟨q, hcq, hq⟩
  rw [hpos q hcq] at hq
  cases hq
  have hlt := idxOf_lt_rank g.placed hcq
  omega

/-- **The order of the resolved classes.**  Those without parents come first, in the order of names.  Any
two others stand as their last parents do, and in the order of names when they have the same last
parent.  So nothing but the sets of parents counts: graphs with the same classes and the same edges
are ordered alike, however often and in whatever order they list their parents. -/
theorem resolved_order (g : Graph) :
    (∀ a b, g.Resolved a → g.Resolved b →
      ((∀ p, ¬ g.HasParent a p) → (∀ p, ¬ g.HasParent b p) → (g.linearize.Before a b ↔ a < b)) ∧
      ((∀ p, ¬ g.HasParent a p) → (∃ p, g.HasParent b p) → g.linearize.Before a b) ∧
      ((∃ p, g.HasParent a p) → (∃ p, g.HasParent b p) →
        ∃ m n, g.LastParentAt a m ∧ g.LastParentAt b n ∧
          (g.linearize.Before a b ↔ m < n ∨ m = n ∧ a < b))) ∧
    ∀ h : Graph, h.classes.keys = g.classes.keys →
      (∀ c p, h.HasParent c p ↔ g.HasParent c p) → h.linearize = g.linearize := by
  refine ⟨fun a b ha hb => ?_, fun h hk hp =>
    linearize_congr hk (funext₂ fun c p => propext (hp c p))⟩
  rw [before_of_placed_iff ha.mem_placed hb.mem_placed]
  unfold Earlier
  refine ⟨fun hna hnb => ?_, fun hna hpb => ?_, fun hpa hpb => ?_⟩
  · rw [rank_eq_zero_iff.mpr hna, rank_eq_zero_iff.mpr hnb]
    simp only [Nat.lt_irrefl, true_and, false_or]
  · obtain ⟨n, -, hn⟩ := hb.exists_lastParentAt hpb
    refine Or.inl ?_
    rw [rank_eq_zero_iff.mpr hna, hn]
    omega
  · obtain ⟨m, hm, hrm⟩ := ha.exists_lastParentAt hpa
    obtain ⟨n, hn, hrn⟩ := hb.exists_lastParentAt hpb
    refine ⟨m, n, hm, hn, ?_⟩
    rw [hrm, hrn, Nat.add_lt_add_iff_right, Nat.add_right_cancel_iff]

/-- the aster comes behind the zebra because plants come behind animals -/
example :
    let declare (name : String) (parents : List String) : String × ClassDecl :=
      (name, { ClassDecl.named name name with parents := parents })
    let g : Graph := ⟨.ofList [declare "Animal" [], declare "Plant" [], declare "Aster" ["Plant"],
      declare "Zebra" ["Animal"]], ∅⟩
    g.linearize.order = ["Animal", "Plant", "Zebra", "Aster"] := by
  decide +kernel

end

end Graph
end TypedVocabulary
