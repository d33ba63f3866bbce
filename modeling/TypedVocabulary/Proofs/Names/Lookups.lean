import Mathlib.Data.List.Basic
import TypedVocabulary.Names.NameMap

/-!
# Look-ups in tables

What the operations on tables do to a look-up, and how the lists that a table shows (its keys, its
values) are read off its look-ups:

* `NameMap.get?_ofList`     a table made from entries with different keys answers with its entries;
* `NameMap.values_eq`       the values are what the keys, in order, are looked up to;
* `NameMap.keys_congr`      tables that answer for the same names have the same keys;
* `NameMap.map_fst_filter_entries`   keys picked by their values are keys picked by look-ups.
-/

namespace TypedVocabulary.NameMap

universe u
variable {α β : Type u} {m : NameMap α} {n : NameMap β} {k j : String} {a : α}

theorem contains_eq (m : NameMap α) (k : String) : m.contains k = (m.get? k).isSome := rfl

theorem mem_keys_iff : k ∈ m.keys ↔ ∃ a, m.get? k = some a := by
  rw [← contains_iff, contains_eq, Option.isSome_iff_exists]

theorem mem_keySet : k ∈ m.keySet ↔ k ∈ m.keys := Iff.rfl

theorem keys_nodup (m : NameMap α) : m.keys.Nodup := m.keySet.toList_nodup

theorem length_keys (m : NameMap α) : m.keys.length = m.size := List.length_map ..

/-- tables that answer for the same names have the same keys -/
theorem keys_congr (h : ∀ k, (m.get? k).isSome = (n.get? k).isSome) : m.keys = n.keys := by
  refine eq_of_increasing m.keys_increasing n.keys_increasing fun k => ?_
  rw [← contains_iff, ← contains_iff, contains_eq, contains_eq, h k]

theorem mem_values : a ∈ m.values ↔ ∃ k, m.get? k = some a := by
  unfold values
  rw [List.mem_map]
  constructor
  · rintro ⟨e, he, rfl⟩
    exact ⟨e.1, mem_entries_iff.mp he⟩
  · rintro ⟨k, hk⟩
    exact ⟨(k, a), mem_entries_iff.mpr hk, rfl⟩

/-- the values are what the keys are looked up to -/
theorem values_eq (m : NameMap α) : m.values = m.keys.filterMap m.get? := by
  unfold values keys
  rw [List.filterMap_map, ← List.filterMap_eq_map]
  refine List.filterMap_congr fun e he => ?_
  exact (mem_entries_iff.mp he).symm

/-- keys picked by their values -/
theorem map_fst_filter_entries (m : NameMap α) (p : α → Bool) :
    (m.entries.filter fun e => p e.2).map Prod.fst = m.keys.filter fun k => (m.get? k).any p := by
  unfold keys
  rw [List.filter_map]
  refine congrArg (List.map Prod.fst) (List.filter_congr fun e he => ?_)
  have h : m.get? e.1 = some e.2 := mem_entries_iff.mp he
  rw [Function.comp_apply, h]
  rfl

/-! ## operations -/

theorem keys_map (f : α → β) (m : NameMap α) : (m.map f).keys = m.keys := by
  show (m.entries.map _).map Prod.fst = m.entries.map Prod.fst
  rw [List.map_map]
  rfl

theorem get?_insertIfNew (m : NameMap α) (k j : String) (a : α) :
    (m.insertIfNew k a).get? j = (m.get? j).or (if j = k then some a else none) := by
  unfold insertIfNew
  split
  · rename_i h
    split
    · rename_i e
      obtain ⟨b, hb⟩ := mem_keys_iff.mp (contains_iff.mp h)
      rw [e, hb]
      rfl
    · rw [Option.or_none]
  · rename_i h
    rw [get?_insert]
    split
    · rename_i e
      rw [contains_eq, Bool.not_eq_true, Option.isSome_eq_false_iff, Option.isNone_iff_eq_none] at h
      rw [e, h]
      rfl
    · rw [Option.or_none]

theorem get?_modify (m : NameMap α) (k j : String) (f : α → α) :
    (m.modify k f).get? j = if j = k then (m.get? j).map f else m.get? j := by
  unfold modify
  by_cases e : j = k
  · subst e
    rw [if_pos rfl]
    cases h : m.get? j with
    | none => exact h
    | some a => exact (get?_insert m j j (f a)).trans (if_pos rfl)
  · rw [if_neg e]
    cases h : m.get? k with
    | none => rfl
    | some a => exact (get?_insert m k j (f a)).trans (if_neg e)

theorem get?_foldl_insert {es : List (String × α)} (hes : (es.map Prod.fst).Nodup) (m : NameMap α) :
    (es.foldl (fun m e => m.insert e.1 e.2) m).get? k = some a ↔
      (k, a) ∈ es ∨ (k ∉ es.map Prod.fst ∧ m.get? k = some a) := by
  induction es generalizing m with
  | nil => simp
  | cons e es ih =>
    rw [List.map_cons, List.nodup_cons] at hes
    rw [List.foldl_cons, ih hes.2, get?_insert, List.mem_cons, List.map_cons, List.mem_cons]
    by_cases hk : k = e.1
    · subst hk
      have hnot : (e.1, a) ∉ es := fun h => hes.1 (List.mem_map.mpr ⟨_, h, rfl⟩)
      rw [if_pos rfl, Option.some.injEq]
      constructor
      · rintro (h | ⟨_, rfl⟩)
        · exact absurd h hnot
        · exact Or.inl (Or.inl rfl)
      · rintro ((h | h) | ⟨h, _⟩)
        · exact Or.inr ⟨hes.1, (congrArg Prod.snd h).symm⟩
        · exact absurd h hnot
        · exact absurd (Or.inl rfl) h
    · have hne : (k, a) ≠ e := fun h => hk (congrArg Prod.fst h)
      rw [if_neg hk]
      simp only [hne, hk, false_or]

/-- a table made from entries with different keys answers with its entries -/
theorem get?_ofList {es : List (String × α)} (hes : (es.map Prod.fst).Nodup) :
    (ofList es).get? k = some a ↔ (k, a) ∈ es := by
  unfold ofList
  rw [get?_foldl_insert hes]
  refine ⟨fun h => h.resolve_right ?_, Or.inl⟩
  rintro ⟨_, h⟩
  cases h

end TypedVocabulary.NameMap
