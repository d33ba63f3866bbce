import TypedVocabulary.Proofs.Graph.Order

/-!
# Placing, step by step

Which classes wait, and with how many entries missing, is a function of the classes that are placed
already.  With that the state of placing is two lists, the classes placed and the queue, and a step is
described by the graph alone:

* `Graph.missing`        how many parent entries of a class are not placed, with `Graph.missing_snoc`:
                         placing a class takes off as many as name it;
* `Graph.waitingAfter`   the waiting classes, with `Graph.readyNames_noteAll` and
                         `Graph.notReady_noteAll`: what a step makes of them;
* `Graph.Placing`        what holds after every step: the classes met so far are those that miss nothing,
                         and a placed class stands behind all its parents;
* `Graph.Placing.induction`   the way back from the empty queue, step by step;
* `Graph.placeAll_spec`  the same after all steps, when the queue has run empty;
* `Graph.linearize_congr`   the order depends on the edges alone, not on how often or in which order a
                         class lists them.
-/

namespace TypedVocabulary
namespace Graph

/-! ## missing entries -/

/-- the number of parent entries of a class whose class is not among `done` -/
def missing (g : Graph) (done : List String) (c : String) : Nat :=
  (g.resolvableParents c).countP fun p => p ∉ done

section
variable {g : Graph} {done : List String} {name c : String}

theorem missing_eq_zero : g.missing done c = 0 ↔ ∀ p, g.HasParent c p → p ∈ done := by
  unfold missing HasParent
  rw [List.countP_eq_zero]
  simp only [decide_eq_true_eq, not_not]

theorem missing_nil (g : Graph) (c : String) :
    g.missing [] c = (g.resolvableParents c).length := by
  unfold missing
  rw [List.countP_eq_length]
  simp

/-- the entries outside a list, counted before and after the list gets a new member -/
theorem countP_not_mem_snoc (hn : name ∉ done) (ps : List String) :
    ps.countP (fun p => p ∉ done ++ [name]) + ps.count name = ps.countP (fun p => p ∉ done) := by
  induction ps with
  | nil => rfl
  | cons p ps ih =>
    rw [List.countP_cons, List.countP_cons, List.count_cons]
    by_cases e : p = name
    · subst e
      have h1 : p ∈ done ++ [p] := List.mem_append_right _ (List.mem_cons_self ..)
      have h2 : (if decide (p ∉ done ++ [p]) = true then 1 else 0) = 0 := by simp [h1]
      have h3 : (if decide (p ∉ done) = true then 1 else 0) = 1 := by simp [hn]
      have h4 : (if (p == p) = true then 1 else 0) = 1 := by simp
      omega
    · have h1 : p ∈ done ++ [name] ↔ p ∈ done := by simp [e]
      have h2 : (if (p == name) = true then 1 else 0) = 0 := by simp [e]
      simp only [h1]
      omega

/-- **Placing a class takes off as many entries as name it**, so that no count goes below zero. -/
theorem missing_snoc (hn : name ∉ done) (c : String) :
    g.missing (done ++ [name]) c + (g.resolvableParents c).count name = g.missing done c :=
  countP_not_mem_snoc hn _

theorem missing_snoc_eq_zero (hn : name ∉ done) (h : g.missing done c = 0) :
    g.missing (done ++ [name]) c = 0 := by
  have := missing_snoc (g := g) hn c
  omega

end

/-! ## waiting classes -/

/-- the classes that wait once the classes `done` are placed -/
def waitingAfter (g : Graph) (done : List String) : List Waiting :=
  (g.classes.keys.filter fun c => g.missing done c ≠ 0).map fun c =>
    ⟨c, g.resolvableParents c, g.missing done c⟩

/-- the classes that miss nothing once `name` is placed behind `done`, and did before -/
def released (g : Graph) (done : List String) (name : String) : List String :=
  g.classes.keys.filter fun c => g.missing done c ≠ 0 ∧ g.missing (done ++ [name]) c = 0

section
variable {g : Graph} {done : List String} {name c : String}

theorem map_name_waitingAfter (g : Graph) (done : List String) :
    (g.waitingAfter done).map Waiting.name = g.classes.keys.filter fun c => g.missing done c ≠ 0 := by
  unfold waitingAfter
  rw [List.map_map]
  exact List.map_id _

theorem mem_released : c ∈ g.released done name ↔
    g.isClass c = true ∧ g.missing done c ≠ 0 ∧ g.missing (done ++ [name]) c = 0 := by
  unfold released
  rw [List.mem_filter, decide_eq_true_eq, isClass_iff]

theorem noteAll_waitingAfter (hn : name ∉ done) :
    Waiting.noteAll name (g.waitingAfter done) =
      (g.classes.keys.filter fun c => g.missing done c ≠ 0).map fun c =>
        ⟨c, g.resolvableParents c, g.missing (done ++ [name]) c⟩ := by
  unfold Waiting.noteAll waitingAfter
  rw [List.map_map]
  refine List.map_congr_left fun c _ => ?_
  have h := missing_snoc (g := g) hn c
  have hsub : g.missing done c - (g.resolvableParents c).count name =
      g.missing (done ++ [name]) c := by omega
  rw [← hsub]
  rfl

theorem readyNames_noteAll (hn : name ∉ done) :
    Waiting.readyNames (Waiting.noteAll name (g.waitingAfter done)) = g.released done name := by
  rw [noteAll_waitingAfter hn]
  unfold Waiting.readyNames released
  rw [List.filter_map, List.map_map, List.filter_filter]
  refine (List.map_id _).trans (List.filter_congr fun c _ => ?_)
  rw [Bool.eq_iff_iff]
  simp [Waiting.isReady, and_comm]

theorem notReady_noteAll (hn : name ∉ done) :
    Waiting.notReady (Waiting.noteAll name (g.waitingAfter done)) =
      g.waitingAfter (done ++ [name]) := by
  rw [noteAll_waitingAfter hn]
  unfold Waiting.notReady waitingAfter
  rw [List.filter_map, List.filter_filter]
  refine congrArg (List.map _) (List.filter_congr fun c _ => ?_)
  rw [Bool.eq_iff_iff]
  simp only [Function.comp_apply, Waiting.isReady, Bool.and_eq_true, decide_eq_true_eq,
    Bool.not_eq_true', beq_eq_false_iff_ne]
  exact and_iff_left_of_imp fun h h0 => h (missing_snoc_eq_zero hn h0)

/-- **One step of placing, on the two lists.** -/
theorem placeAll_step (hn : name ∉ done) (queue : List String) :
    placeAll (name :: queue) (g.waitingAfter done) =
      let rest := placeAll (queue ++ g.released done name) (g.waitingAfter (done ++ [name]))
      (name :: rest.1, rest.2) := by
  rw [placeAll]
  simp only [readyNames_noteAll hn, notReady_noteAll hn]

/-- at the start the classes without resolvable parents are ready -/
theorem readyNames_waitingList (g : Graph) : Waiting.readyNames g.waitingList =
    g.classes.keys.filter fun c => g.missing [] c = 0 := by
  unfold Waiting.readyNames waitingList
  rw [List.filter_map, List.map_map]
  refine (List.map_id _).trans (List.filter_congr fun c _ => ?_)
  rw [missing_nil, Bool.eq_iff_iff]
  simp [Waiting.isReady]

theorem notReady_waitingList (g : Graph) :
    Waiting.notReady g.waitingList = g.waitingAfter [] := by
  unfold Waiting.notReady waitingList waitingAfter
  rw [List.filter_map]
  simp only [missing_nil]
  refine congrArg (List.map _) (List.filter_congr fun c _ => ?_)
  rw [Bool.eq_iff_iff]
  simp [Waiting.isReady]

end

/-! ## the invariant -/

/-- what holds of the classes placed and the queue after every step -/
structure Placing (g : Graph) (done queue : List String) : Prop where
  nodup : (done ++ queue).Nodup
  /-- exactly the classes that miss nothing have been met -/
  mem_iff : ∀ c, c ∈ done ++ queue ↔ g.isClass c = true ∧ g.missing done c = 0
  /-- a placed class stands behind its parents -/
  ordered : ∀ front c back, done = front ++ c :: back → g.missing front c = 0

section
variable {g : Graph} {done queue : List String} {name c : String}

theorem Placing.not_mem (h : g.Placing done (name :: queue)) : name ∉ done := fun hd =>
  (List.nodup_append.mp h.nodup).2.2 name hd name (List.mem_cons_self ..) rfl

theorem placing_start (g : Graph) :
    g.Placing [] (g.classes.keys.filter fun c => g.missing [] c = 0) where
  nodup := g.classes.keys_nodup.filter _
  mem_iff c := by rw [List.nil_append, List.mem_filter, decide_eq_true_eq, isClass_iff]
  ordered front c back e := absurd e (by simp)

/-- **A step keeps the invariant.** -/
theorem Placing.step (h : g.Placing done (name :: queue)) :
    g.Placing (done ++ [name]) (queue ++ g.released done name) where
  nodup := by
    have hnew : ∀ a ∈ done ++ name :: queue, ∀ b ∈ g.released done name, a ≠ b := by
      intro a ha b hb e
      subst e
      exact (mem_released.mp hb).2.1 ((h.mem_iff a).mp ha).2
    rw [← List.append_assoc, List.append_assoc done, List.singleton_append]
    exact List.nodup_append.mpr ⟨h.nodup, g.classes.keys_nodup.filter _, hnew⟩
  mem_iff c := by
    rw [← List.append_assoc, List.append_assoc done, List.singleton_append, List.mem_append,
      h.mem_iff, mem_released]
    have hkeep : g.missing done c = 0 → g.missing (done ++ [name]) c = 0 :=
      missing_snoc_eq_zero h.not_mem
    by_cases h0 : g.missing done c = 0
    · simp [h0, hkeep h0]
    · simp [h0]
  ordered front c back e := by
    rcases List.eq_nil_or_concat back with rfl | ⟨back, z, rfl⟩
    · -- the class placed last was in the queue
      obtain ⟨rfl, hc⟩ := List.append_inj' e rfl
      cases hc
      exact ((h.mem_iff name).mp (List.mem_append_right _ (List.mem_cons_self ..))).2
    · rw [List.concat_eq_append, ← List.cons_append, ← List.append_assoc] at e
      exact h.ordered front c back (List.append_inj' e rfl).1

/-- what holds where the queue is empty, and before a step if it does after it, holds in every state -/
theorem Placing.induction {motive : ∀ done queue, g.Placing done queue → Prop}
    (empty : ∀ done (h : g.Placing done []), motive done [] h)
    (step : ∀ done name queue (h : g.Placing done (name :: queue)),
      motive (done ++ [name]) (queue ++ g.released done name) h.step → motive done (name :: queue) h)
    {done queue : List String} (h : g.Placing done queue) : motive done queue h := by
  generalize hw : g.waitingAfter done = waiting
  induction queue, waiting using placeAll.induct generalizing done with
  | case1 waiting => exact empty done h
  | case2 name queue waiting noted =>
    rename_i ih
    subst hw
    have hq : Waiting.readyNames noted = g.released done name := readyNames_noteAll h.not_mem
    have hr : Waiting.notReady noted = g.waitingAfter (done ++ [name]) :=
      notReady_noteAll h.not_mem
    rw [hq, hr] at ih
    exact step done name queue h (ih h.step rfl)

/-- **All steps keep it**, and what is left over waits still. -/
theorem placeAll_spec (h : g.Placing done queue) :
    g.Placing (done ++ (placeAll queue (g.waitingAfter done)).1) [] ∧
      (placeAll queue (g.waitingAfter done)).2 =
        g.waitingAfter (done ++ (placeAll queue (g.waitingAfter done)).1) := by
  induction h using Placing.induction with
  | empty done h =>
    rw [placeAll, List.append_nil]
    exact ⟨h, rfl⟩
  | step done name queue h ih =>
    rw [placeAll_step h.not_mem]
    rw [List.append_assoc, List.singleton_append] at ih
    exact ih

end

/-! ## the placed classes -/

/-- the classes that become ready, in the order in which they are placed -/
def placed (g : Graph) : List String :=
  (placeAll (Waiting.readyNames g.waitingList) (Waiting.notReady g.waitingList)).1

section
variable {g : Graph} {c p : String}

theorem placed_spec (g : Graph) : g.Placing g.placed [] ∧
    (placeAll (Waiting.readyNames g.waitingList) (Waiting.notReady g.waitingList)).2 =
      g.waitingAfter g.placed := by
  unfold placed
  rw [readyNames_waitingList, notReady_waitingList]
  exact placeAll_spec g.placing_start

theorem mem_placed : c ∈ g.placed ↔
    g.isClass c = true ∧ ∀ p, g.HasParent c p → p ∈ g.placed := by
  have h := g.placed_spec.1.mem_iff c
  rw [List.append_nil] at h
  rw [h, missing_eq_zero]

theorem unresolved_eq (g : Graph) : g.linearize.unresolved =
    g.classes.keys.filter fun c => g.missing g.placed c ≠ 0 := by
  rw [← map_name_waitingAfter, ← g.placed_spec.2]
  rfl

theorem order_eq (g : Graph) : g.linearize.order = g.placed ++ g.linearize.unresolved := rfl

theorem mem_unresolved : c ∈ g.linearize.unresolved ↔ g.isClass c = true ∧ c ∉ g.placed := by
  rw [unresolved_eq, List.mem_filter, decide_eq_true_eq, ← isClass_iff, mem_placed,
    ← missing_eq_zero]
  exact and_congr_right fun hc => (by simp [hc])

end

/-! ## graphs with the same edges -/

section
variable {g h : Graph} {done queue : List String} {name : String}

theorem missing_eq_zero_congr (hp : h.HasParent = g.HasParent) (done : List String) (c : String) :
    h.missing done c = 0 ↔ g.missing done c = 0 := by
  rw [missing_eq_zero, missing_eq_zero, hp]

theorem released_congr (hk : h.classes.keys = g.classes.keys) (hp : h.HasParent = g.HasParent)
    (done : List String) (name : String) : h.released done name = g.released done name := by
  unfold released
  rw [hk]
  refine List.filter_congr fun c _ => ?_
  simp only [ne_eq, missing_eq_zero_congr hp]

theorem placeAll_congr (hk : h.classes.keys = g.classes.keys) (hp : h.HasParent = g.HasParent)
    (hg : g.Placing done queue) :
    (placeAll queue (h.waitingAfter done)).1 = (placeAll queue (g.waitingAfter done)).1 := by
  induction hg using Placing.induction with
  | empty done hg => rw [placeAll, placeAll]
  | step done name queue hg ih =>
    rw [placeAll_step hg.not_mem, placeAll_step hg.not_mem, released_congr hk hp]
    exact congrArg (name :: ·) ih

/-- **The order of classes is determined by the edges between them**: which parents are declared, not how
often they are listed, in which order, or beside which undeclared ones. -/
theorem linearize_congr (hk : h.classes.keys = g.classes.keys) (hp : h.HasParent = g.HasParent) :
    h.linearize = g.linearize := by
  have hplaced : h.placed = g.placed := by
    have hstart : (h.classes.keys.filter fun c => h.missing [] c = 0) =
        g.classes.keys.filter fun c => g.missing [] c = 0 := by
      rw [hk]
      exact List.filter_congr fun c _ => by simp only [missing_eq_zero_congr hp]
    unfold placed
    rw [readyNames_waitingList, notReady_waitingList, readyNames_waitingList,
      notReady_waitingList, hstart]
    exact placeAll_congr hk hp g.placing_start
  have hleft : h.linearize.unresolved = g.linearize.unresolved := by
    rw [unresolved_eq, unresolved_eq, hk, hplaced]
    exact List.filter_congr fun c _ => by simp only [ne_eq, missing_eq_zero_congr hp]
  have horder : h.linearize.order = g.linearize.order := by
    rw [order_eq, order_eq, hplaced, hleft]
  show Linearization.mk h.linearize.order h.linearize.unresolved = g.linearize
  rw [horder, hleft]

end

end Graph
end TypedVocabulary
