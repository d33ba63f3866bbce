import TypedVocabulary.Proofs.Graph.Placing

/-!
# Placing by counters

The order can also be found with one counter for each class: the number of its parent entries that are
not placed.  A class that leaves the queue lowers the counter of a child by one for every time the child
lists it, and a child whose counter comes to zero joins the queue.

* `Counting.turn`             one turn of the loop, without a result where a counter is zero before it
                              is lowered;
* `Counting.lower_all`        what the entries of one class do to the counters and to the queue;
* `Graph.turn_countingAfter`  a turn is one step of placing;
* `Graph.turns_linearize`     no turn fails, and after as many turns as there are classes the queue is
                              empty and the loop has found the linearization.

A counter is lowered once for every entry that is struck off, so with `Graph.missing_snoc` it holds what
is missing after every turn, and never less than what the next turn takes.
-/

namespace TypedVocabulary

/-- the state of the loop -/
structure Counting where
  /-- the classes that left the queue -/
  order : List String
  queue : List String
  counters : NameMap Nat
deriving DecidableEq

namespace Counting

/-- lowers the counter of `child` by one, which has no result where the counter is zero -/
def lower (s : Counting) (child : String) : Option Counting :=
  match s.counters.get? child with
  | none => some s
  | some 0 => none
  | some (n + 1) =>
    some { s with
      queue := if n = 0 then s.queue ++ [child] else s.queue
      counters := s.counters.insert child n }

/-- takes a class off the queue, unless it is empty, and lowers the counters of its children -/
def turn (children : String → List String) (s : Counting) : Option Counting :=
  match s.queue with
  | [] => some s
  | name :: queue =>
    (children name).foldlM lower { s with order := s.order ++ [name], queue := queue }

def turns (children : String → List String) : Nat → Counting → Option Counting
  | 0, s => some s
  | n + 1, s => (turn children s).bind (turns children n)

/-- the classes whose counter is not zero -/
def left (s : Counting) : List String := (s.counters.entries.filter fun e => 0 < e.2).map Prod.fst

/-! ## lowering -/

section
variable {s : Counting} {c : String}

theorem lower_succ {n : Nat} (h : s.counters.get? c = some (n + 1)) : s.lower c =
    some { s with
      queue := if n = 0 then s.queue ++ [c] else s.queue
      counters := s.counters.insert c n } := by
  unfold lower
  rw [h]

/-- a counter is lowered `k` times when it holds `k` at least, and joins at the last time if no more -/
theorem lower_replicate {k d : Nat} (hd : s.counters.get? c = some d) (hk : k ≤ d) :
    ∃ t, (List.replicate k c).foldlM lower s = some t ∧ t.order = s.order ∧
      t.queue = s.queue ++ (if k ≠ 0 ∧ k = d then [c] else []) ∧
      ∀ a, t.counters.get? a = if a = c then some (d - k) else s.counters.get? a := by
  induction k generalizing s d with
  | zero =>
    refine ⟨s, rfl, rfl, by simp, fun a => ?_⟩
    by_cases e : a = c
    · rw [if_pos e, e, hd, Nat.sub_zero]
    · rw [if_neg e]
  | succ k ih =>
    obtain ⟨d, rfl⟩ : ∃ m, d = m + 1 := ⟨d - 1, by omega⟩
    have hget := NameMap.get?_insert s.counters c
    obtain ⟨t, ht, horder, hqueue, hcounters⟩ :=
      ih (s := { s with
        queue := if d = 0 then s.queue ++ [c] else s.queue
        counters := s.counters.insert c d }) ((hget c d).trans (if_pos rfl)) (by omega)
    refine ⟨t, ?_, horder, ?_, fun a => ?_⟩
    · rw [List.replicate_succ, List.foldlM_cons, lower_succ hd]
      exact ht
    · rw [hqueue]
      by_cases h0 : d = 0
      · have hk0 : k = 0 := by omega
        simp [h0, hk0]
      · have hiff : (k ≠ 0 ∧ k = d) ↔ (k + 1 ≠ 0 ∧ k + 1 = d + 1) := by omega
        simp only [if_neg h0, hiff]
    · rw [hcounters, Nat.add_sub_add_right]
      by_cases e : a = c
      · rw [if_pos e, if_pos e]
      · rw [if_neg e, if_neg e]
        exact (hget a d).trans (if_neg e)

/-- **Counters that hold enough are lowered, each by the number of its entries**, and the classes that
come to zero join the queue in the order of the names. -/
theorem lower_all {names : List String} (hn : names.Nodup) {k d : String → Nat}
    (hd : ∀ c ∈ names, s.counters.get? c = some (d c)) (hk : ∀ c ∈ names, k c ≤ d c) :
    ∃ t, (names.flatMap fun c => List.replicate (k c) c).foldlM lower s = some t ∧
      t.order = s.order ∧
      t.queue = s.queue ++ (names.filter fun c => k c ≠ 0 ∧ k c = d c) ∧
      ∀ a, t.counters.get? a = if a ∈ names then some (d a - k a) else s.counters.get? a := by
  induction names generalizing s with
  | nil => exact ⟨s, rfl, rfl, by simp, fun a => by simp⟩
  | cons c names ih =>
    obtain ⟨hc, hnames⟩ := List.nodup_cons.mp hn
    obtain ⟨u, hu, huorder, huqueue, hucounters⟩ :=
      lower_replicate (hd c (List.mem_cons_self ..)) (hk c (List.mem_cons_self ..))
    have hdu : ∀ a ∈ names, u.counters.get? a = some (d a) := by
      intro a ha
      have hne : a ≠ c := fun e => hc (e ▸ ha)
      rw [hucounters, if_neg hne]
      exact hd a (List.mem_cons_of_mem _ ha)
    obtain ⟨t, ht, horder, hqueue, hcounters⟩ :=
      ih hnames hdu fun a ha => hk a (List.mem_cons_of_mem _ ha)
    refine ⟨t, ?_, horder.trans huorder, ?_, fun a => ?_⟩
    · rw [List.flatMap_cons, List.foldlM_append, hu]
      exact ht
    · rw [hqueue, huqueue, List.filter_cons, List.append_assoc]
      by_cases hjoin : k c ≠ 0 ∧ k c = d c
      · rw [if_pos hjoin, if_pos (decide_eq_true hjoin), List.singleton_append]
      · rw [if_neg hjoin, if_neg fun h => hjoin (of_decide_eq_true h), List.nil_append]
    · rw [hcounters, hucounters]
      by_cases e : a = c
      · subst e
        simp [hc]
      · simp [e]

end

/-! ## turns -/

section
variable {children : String → List String} {s t : Counting}

theorem turn_of_empty (h : s.queue = []) : turn children s = some s := by
  unfold turn
  rw [h]

theorem turns_of_empty (h : s.queue = []) (n : Nat) : turns children n s = some s := by
  induction n with
  | zero => rfl
  | succ n ih =>
    rw [turns, turn_of_empty h]
    exact ih

theorem turns_add (m n : Nat) (s : Counting) :
    turns children (m + n) s = (turns children m s).bind (turns children n) := by
  induction m generalizing s with
  | zero => rw [Nat.zero_add]; rfl
  | succ m ih =>
    rw [Nat.add_right_comm, turns, turns, Option.bind_assoc]
    exact congrArg _ (funext fun s => ih s)

/-- turns that run the queue empty are followed by turns that change nothing -/
theorem turns_of_le {m n : Nat} (h : turns children m s = some t) (ht : t.queue = [])
    (hmn : m ≤ n) : turns children n s = some t := by
  obtain ⟨k, rfl⟩ : ∃ k, n = m + k := ⟨n - m, by omega⟩
  rw [turns_add, h]
  exact turns_of_empty ht k

/-- turns that succeed begin with turns that succeed -/
theorem turns_isSome_of_le {m n : Nat} (h : turns children m s = some t) (hnm : n ≤ m) :
    ∃ u, turns children n s = some u := by
  obtain ⟨k, rfl⟩ : ∃ k, m = n + k := ⟨m - n, by omega⟩
  rw [turns_add] at h
  cases hu : turns children n s with
  | none =>
    rw [hu] at h
    cases h
  | some u => exact ⟨u, rfl⟩

end

end Counting

/-! ## the loop on a graph -/

namespace Graph

/-- every resolvable parent entry, with the class that lists it -/
def parentEntries (g : Graph) : List (String × String) :=
  g.classes.entries.flatMap fun e => (e.2.parents.filter g.isClass).map (·, e.1)

/-- the classes that list `p` as a parent, each as often as it does -/
def children (g : Graph) (p : String) : List String :=
  (g.parentEntries.filter fun e => e.1 = p).map Prod.snd

/-- the number of resolvable parent entries of every class -/
def counters (g : Graph) : NameMap Nat := g.classes.map fun c => (c.parents.filter g.isClass).length

/-- the loop at its start, with the classes without resolvable parents in the queue -/
def counting (g : Graph) : Counting :=
  ⟨[], (g.counters.entries.filter fun e => e.2 = 0).map Prod.fst, g.counters⟩

/-- the number of entries of every class that are missing -/
def countersAfter (g : Graph) (done : List String) : NameMap Nat :=
  g.classes.map fun c => (c.parents.filter g.isClass).countP fun p => p ∉ done

/-- the loop after the classes `done` have left the queue -/
def countingAfter (g : Graph) (done queue : List String) : Counting :=
  ⟨done, queue, g.countersAfter done⟩

section
variable {g : Graph} {done queue : List String} {name c : String}

theorem get?_countersAfter (g : Graph) (done : List String) (c : String) :
    (g.countersAfter done).get? c =
      if c ∈ g.classes.keys then some (g.missing done c) else none := by
  have hmem : c ∈ g.classes.keys ↔ (g.class? c).isSome = true := isClass_iff.symm
  unfold countersAfter missing resolvableParents
  rw [NameMap.get?_map]
  change Option.map _ (g.class? c) = _
  simp only [hmem]
  cases g.class? c <;> simp

theorem counters_eq (g : Graph) : g.counters = g.countersAfter [] := by
  have hlength : ∀ ps : List String, ps.length = ps.countP fun p => p ∉ ([] : List String) := by
    intro ps
    rw [eq_comm, List.countP_eq_length]
    simp
  unfold counters countersAfter
  simp only [hlength]

theorem map_fst_filter_countersAfter (g : Graph) (done : List String) (p : Nat → Bool) :
    ((g.countersAfter done).entries.filter fun e => p e.2).map Prod.fst =
      g.classes.keys.filter fun c => p (g.missing done c) := by
  rw [NameMap.map_fst_filter_entries]
  unfold countersAfter
  rw [NameMap.keys_map]
  refine List.filter_congr fun c hc => ?_
  rw [← countersAfter, get?_countersAfter, if_pos hc]
  rfl

theorem counting_eq (g : Graph) : g.counting =
    g.countingAfter [] (g.classes.keys.filter fun c => g.missing [] c = 0) := by
  unfold counting countingAfter
  rw [counters_eq, map_fst_filter_countersAfter g [] fun n => n = 0]

theorem left_countingAfter (g : Graph) (done queue : List String) :
    (g.countingAfter done queue).left = g.classes.keys.filter fun c => g.missing done c ≠ 0 := by
  unfold Counting.left countingAfter
  rw [map_fst_filter_countersAfter g done fun n => 0 < n]
  simp only [Nat.pos_iff_ne_zero]

theorem children_eq (g : Graph) (p : String) : g.children p =
    g.classes.keys.flatMap fun c => List.replicate ((g.resolvableParents c).count p) c := by
  have hentries : g.parentEntries =
      g.classes.keys.flatMap fun c => (g.resolvableParents c).map (·, c) := by
    unfold parentEntries NameMap.keys
    rw [List.flatMap_map]
    refine List.flatMap_congr fun e he => ?_
    have hget : g.class? e.1 = some e.2 := NameMap.mem_entries_iff.mp he
    unfold resolvableParents
    rw [hget]
  have hclass : ∀ (c : String) (ps : List String),
      ((ps.map (·, c)).filter fun e => e.1 = p).map Prod.snd = List.replicate (ps.count p) c := by
    intro c ps
    rw [List.filter_map, List.map_map, List.count_eq_length_filter]
    show (List.filter _ ps).map (fun _ => c) = _
    rw [List.map_const']
    rfl
  unfold children
  rw [hentries, List.filter_flatMap, List.map_flatMap]
  exact List.flatMap_congr fun c _ => hclass c _

/-- **A turn of the loop is a step of placing.** -/
theorem turn_countingAfter (h : g.Placing done (name :: queue)) :
    (g.countingAfter done (name :: queue)).turn g.children =
      some (g.countingAfter (done ++ [name]) (queue ++ g.released done name)) := by
  have hsnoc := missing_snoc (g := g) h.not_mem
  have hholds : ∀ c ∈ g.classes.keys,
      (g.countersAfter done).get? c = some (g.missing done c) := by
    intro c hc
    rw [get?_countersAfter, if_pos hc]
  have henough : ∀ c ∈ g.classes.keys,
      (g.resolvableParents c).count name ≤ g.missing done c := by
    intro c _
    have := hsnoc c
    omega
  obtain ⟨t, ht, horder, hqueue, hcounters⟩ := Counting.lower_all
    (s := ⟨done ++ [name], queue, g.countersAfter done⟩) g.classes.keys_nodup hholds henough
  -- a class joins the queue when it misses nothing any more, though it did before
  have hreleased : (g.classes.keys.filter fun c => (g.resolvableParents c).count name ≠ 0 ∧
      (g.resolvableParents c).count name = g.missing done c) = g.released done name := by
    refine List.filter_congr fun c _ => ?_
    have := hsnoc c
    rw [decide_eq_decide]
    omega
  have hafter : t.counters = g.countersAfter (done ++ [name]) := by
    refine NameMap.ext_get? fun a => (hcounters a).trans ?_
    rw [get?_countersAfter, get?_countersAfter]
    split
    · have := hsnoc a
      refine congrArg some ?_
      omega
    · rfl
  rw [hreleased] at hqueue
  have hstate : t = g.countingAfter (done ++ [name]) (queue ++ g.released done name) := by
    obtain ⟨_, _, _⟩ := t
    cases horder
    cases hqueue
    cases hafter
    rfl
  show (g.children name).foldlM Counting.lower _ = _
  rw [children_eq, ← hstate]
  exact ht

/-- as many turns as classes get placed run the queue empty -/
theorem turns_countingAfter (h : g.Placing done queue) :
    Counting.turns g.children (placeAll queue (g.waitingAfter done)).1.length
        (g.countingAfter done queue) =
      some (g.countingAfter (done ++ (placeAll queue (g.waitingAfter done)).1) []) := by
  induction h using Placing.induction with
  | empty done h =>
    rw [placeAll, List.append_nil]
    rfl
  | step done name queue h ih =>
    rw [placeAll_step h.not_mem]
    show Counting.turns g.children (_ + 1) _ = _
    rw [Counting.turns, turn_countingAfter h]
    rw [List.append_assoc, List.singleton_append] at ih
    exact ih

theorem turns_placed (g : Graph) :
    Counting.turns g.children g.placed.length g.counting = some (g.countingAfter g.placed []) := by
  unfold placed
  rw [counting_eq, readyNames_waitingList, notReady_waitingList]
  exact turns_countingAfter g.placing_start

theorem length_placed_le (g : Graph) : g.placed.length ≤ g.classes.size := by
  have h := g.linearize_perm.length_eq
  have hkeys : g.classes.keys.length = g.classes.size := List.length_map _
  rw [order_eq, List.length_append] at h
  omega

/-- **No counter is ever lowered below zero, and the loop ends.**  After as many turns as there are
classes, or more, the queue is empty, and what left it, followed by the classes whose counter is not
zero, is the linearization. -/
theorem turns_linearize (g : Graph) (n : Nat) :
    ∃ s, Counting.turns g.children n g.counting = some s ∧
      (g.classes.size ≤ n → s.queue = [] ∧ g.linearize = ⟨s.order ++ s.left, s.left⟩) := by
  have hplaced := g.length_placed_le
  rcases Nat.lt_or_ge n g.placed.length with hn | hn
  · obtain ⟨s, hs⟩ := Counting.turns_isSome_of_le g.turns_placed (Nat.le_of_lt hn)
    exact ⟨s, hs, fun hsize => absurd hsize (by omega)⟩
  · refine ⟨_, Counting.turns_of_le g.turns_placed rfl hn, fun _ => ⟨rfl, ?_⟩⟩
    rw [left_countingAfter, ← unresolved_eq]
    rfl

end

end Graph
end TypedVocabulary
