import TypedVocabulary.Proofs.Graph.Counters
import TypedVocabulary.Proofs.Vocabulary.Interfaces

/-!
# Places

The place of a class can be read in three ways: by searching the order, from the table of all places, and
off the list of declarations.  As the order holds every class once, all three agree:

* `Graph.get?_positions`               the table answers with the place in the order;
* `Vocabulary.map_some_orderedClasses`  the declarations follow the order, and none is left out;
* `Vocabulary.findIdx?_orderedClasses`  a class is found by its name at its place;
* `Vocabulary.places_agree`            the loop ends, the order is complete and the places agree.
-/

namespace TypedVocabulary

namespace Graph

theorem get?_positions (g : Graph) (c : String) :
    g.linearize.positions.get? c = g.linearize.position? c := by
  have hkeys : (g.linearize.order.zipIdx.map Prod.fst).Nodup := by
    rw [List.zipIdx_map_fst]
    exact g.linearize_nodup
  refine Option.ext fun i => ?_
  unfold Linearization.positions
  rw [NameMap.get?_ofList hkeys, List.mem_zipIdx_iff_getElem?, position?_eq_some_iff]

/-- a declared class has a place, and there are no more places than classes -/
theorem exists_position? {g : Graph} {c : String} (h : g.isClass c = true) :
    ∃ i < g.classes.size, g.linearize.position? c = some i := by
  obtain ⟨i, hi⟩ := Option.isSome_iff_exists.mp (isSome_position?.trans h)
  have hlt := (List.getElem?_eq_some_iff.mp (position?_eq_some_iff.mp hi)).1
  have hsize : g.linearize.order.length = g.classes.size :=
    g.linearize_perm.length_eq.trans (List.length_map _)
  exact ⟨i, hsize ▸ hlt, hi⟩

end Graph

namespace Vocabulary

variable {settings : Settings} {g : Graph} {c : String} {i : Nat}

theorem map_some_orderedClasses (settings : Settings) (g : Graph) :
    (ofGraph settings g).orderedClasses.map some = g.linearize.order.map g.class? := by
  show (g.linearize.order.filterMap g.class?).map some = _
  rw [List.map_filterMap_some_eq_filter_map_isSome, List.filter_eq_self]
  intro k hk
  obtain ⟨c, hc, rfl⟩ := List.mem_map.mp hk
  exact Graph.mem_linearize.mp hc

theorem length_orderedClasses (settings : Settings) (g : Graph) :
    (ofGraph settings g).orderedClasses.length = g.classes.size := by
  have h := congrArg List.length (map_some_orderedClasses settings g)
  rw [List.length_map, List.length_map, g.linearize_perm.length_eq] at h
  exact h.trans (List.length_map _)

theorem getElem?_orderedClasses (h : g.linearize.position? c = some i) :
    (ofGraph settings g).orderedClasses[i]? = g.class? c := by
  have hmap := congrArg (·[i]?) (map_some_orderedClasses settings g)
  simp only [List.getElem?_map, Graph.position?_eq_some_iff.mp h, Option.map_some] at hmap
  obtain ⟨k, hk, e⟩ := Option.map_eq_some_iff.mp hmap
  rw [hk, e]

/-- where every class is kept under its own name, its place is found by its name -/
theorem findIdx?_orderedClasses (settings : Settings) (hk : g.KeyedByName) (c : String) :
    (ofGraph settings g).orderedClasses.findIdx? (·.name = c) = g.linearize.position? c := by
  unfold Linearization.position? List.idxOf?
  rw [← map_name_orderedClasses settings hk, List.findIdx?_map]
  rfl

/-- **The loop ends, the order is complete, and places agree.**  In every graph the loop over the queue
lowers no counter below zero, runs the queue empty in as many turns as there are classes at most and
finds the linearization; its order holds every class once; and a class stands in the order, in the
table of places and among the declarations at one place. -/
theorem places_agree (settings : Settings) (g : Graph) :
    (∀ n, ∃ s, Counting.turns g.children n g.counting = some s ∧
      (g.classes.size ≤ n → s.queue = [] ∧ g.linearize = ⟨s.order ++ s.left, s.left⟩)) ∧
    g.linearize.order.Perm g.classes.keys ∧
    (∀ c, g.linearize.positions.get? c = g.linearize.position? c) ∧
    (ofGraph settings g).orderedClasses.length = g.classes.size ∧
    (∀ c, g.isClass c = true → ∃ i < g.classes.size, g.linearize.position? c = some i ∧
      g.linearize.order[i]? = some c ∧ (ofGraph settings g).orderedClasses[i]? = g.class? c) ∧
    (g.KeyedByName → ∀ c,
      (ofGraph settings g).orderedClasses.findIdx? (·.name = c) = g.linearize.position? c) := by
  refine ⟨g.turns_linearize, g.linearize_perm, g.get?_positions, length_orderedClasses settings g,
    fun c hc => ?_, fun hk => findIdx?_orderedClasses settings hk⟩
  obtain ⟨i, hlt, hi⟩ := Graph.exists_position? hc
  exact ⟨i, hlt, hi, Graph.position?_eq_some_iff.mp hi, getElem?_orderedClasses hi⟩

end Vocabulary

end TypedVocabulary
