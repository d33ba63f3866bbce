import TypedVocabulary.Names.NameSet

/-!
# Tables keyed by names

A table keyed by names is the list of its entries in increasing key order.  `get?` is its view:

* `NameMap.get?_insert`, `NameMap.get?_map`  what the operations do to a look-up;
* `NameMap.ext_get?`  tables that answer every look-up alike are equal.
-/

namespace TypedVocabulary

universe u v

/-! ## entries in increasing key order -/

section
variable {α : Type u}

/-- the entries with `k ↦ a` put at its place; an entry for `k` is replaced -/
def insertEntry (k : String) (a : α) : List (String × α) → List (String × α)
  | [] => [(k, a)]
  | e :: es =>
    if k < e.1 then (k, a) :: e :: es
    else if k = e.1 then (k, a) :: es
    else e :: insertEntry k a es

/-- the value of the first entry for `k` -/
def findEntry (k : String) : List (String × α) → Option α
  | [] => none
  | e :: es => if k = e.1 then some e.2 else findEntry k es

theorem key_of_mem_insertEntry {k : String} {a : α} {es : List (String × α)} {e : String × α}
    (h : e ∈ insertEntry k a es) : e = (k, a) ∨ e ∈ es := by
  induction es with
  | nil => exact Or.inl (by simpa [insertEntry] using h)
  | cons d es ih =>
    unfold insertEntry at h
    split at h
    · rcases List.mem_cons.mp h with h | h
      · exact Or.inl h
      · exact Or.inr h
    · split at h
      · rcases List.mem_cons.mp h with h | h
        · exact Or.inl h
        · exact Or.inr (List.mem_cons_of_mem _ h)
      · rcases List.mem_cons.mp h with h | h
        · exact Or.inr (h ▸ List.mem_cons_self ..)
        · exact (ih h).imp_right (List.mem_cons_of_mem _)

theorem pairwise_insertEntry {k : String} {a : α} {es : List (String × α)}
    (h : es.Pairwise (fun d e => d.1 < e.1)) :
    (insertEntry k a es).Pairwise (fun d e => d.1 < e.1) := by
  induction es with
  | nil => simp [insertEntry]
  | cons d es ih =>
    have hd := List.pairwise_cons.mp h
    unfold insertEntry
    split
    · rename_i hk
      refine List.pairwise_cons.mpr ⟨fun e he => ?_, h⟩
      rcases List.mem_cons.mp he with rfl | he
      · exact hk
      · exact String.lt_trans hk (hd.1 e he)
    · split
      · rename_i hk
        exact List.pairwise_cons.mpr ⟨fun e he => hk ▸ hd.1 e he, hd.2⟩
      · rename_i hk hne
        refine List.pairwise_cons.mpr ⟨fun e he => ?_, ih hd.2⟩
        rcases key_of_mem_insertEntry he with rfl | he
        · exact lt_of_not_lt_of_ne hk hne
        · exact hd.1 e he

theorem findEntry_insertEntry {k j : String} {a : α} {es : List (String × α)} :
    findEntry j (insertEntry k a es) = if j = k then some a else findEntry j es := by
  induction es with
  | nil => rfl
  | cons d es ih =>
    unfold insertEntry
    split
    · rfl
    · split
      · rename_i hk
        simp only [findEntry, ← hk]
        split <;> rfl
      · rename_i hk
        simp only [findEntry, ih]
        by_cases hj : j = d.1
        · have hjk : ¬ j = k := fun e => hk (e.symm.trans hj)
          rw [if_pos hj, if_neg hjk, if_pos hj]
        · rw [if_neg hj, if_neg hj]

theorem findEntry_eq_none_iff {k : String} {es : List (String × α)} :
    findEntry k es = none ↔ k ∉ es.map Prod.fst := by
  induction es with
  | nil => simp [findEntry]
  | cons d es ih =>
    simp only [findEntry, List.map_cons, List.mem_cons]
    by_cases h : k = d.1 <;> simp [h, ih]

theorem mem_of_findEntry {k : String} {a : α} {es : List (String × α)}
    (h : findEntry k es = some a) : (k, a) ∈ es := by
  induction es with
  | nil => simp [findEntry] at h
  | cons d es ih =>
    unfold findEntry at h
    split at h
    · rename_i hk
      cases h
      exact hk ▸ List.mem_cons_self ..
    · exact List.mem_cons_of_mem _ (ih h)

theorem findEntry_of_mem {k : String} {a : α} {es : List (String × α)}
    (hs : es.Pairwise (fun d e => d.1 < e.1)) (h : (k, a) ∈ es) : findEntry k es = some a := by
  induction es with
  | nil => simp at h
  | cons d es ih =>
    have hd := List.pairwise_cons.mp hs
    unfold findEntry
    rcases List.mem_cons.mp h with rfl | h
    · simp
    · have hlt := hd.1 _ h
      have hne : ¬ k = d.1 := fun e => String.lt_irrefl d.1 (by rwa [e] at hlt)
      rw [if_neg hne]
      exact ih hd.2 h

theorem eq_of_findEntry {ds es : List (String × α)}
    (hd : ds.Pairwise (fun d e => d.1 < e.1)) (he : es.Pairwise (fun d e => d.1 < e.1))
    (h : ∀ k, findEntry k ds = findEntry k es) : ds = es := by
  induction ds generalizing es with
  | nil =>
    cases es with
    | nil => rfl
    | cons e es => simpa [findEntry] using h e.1
  | cons d ds ih =>
    cases es with
    | nil => simpa [findEntry] using h d.1
    | cons e es =>
      have hd' := List.pairwise_cons.mp hd
      have he' := List.pairwise_cons.mp he
      have hk : d.1 = e.1 := by
        rcases Decidable.em (d.1 = e.1) with hk | hk
        · exact hk
        · have h1 : (d.1, d.2) ∈ e :: es :=
            mem_of_findEntry (by rw [← h]; simp [findEntry])
          have h2 : (e.1, e.2) ∈ d :: ds :=
            mem_of_findEntry (by rw [h]; simp [findEntry])
          rcases List.mem_cons.mp h1 with h1 | h1
          · exact absurd (congrArg Prod.fst h1) hk
          · rcases List.mem_cons.mp h2 with h2 | h2
            · exact absurd (congrArg Prod.fst h2).symm hk
            · exact absurd (he'.1 _ h1) (String.lt_asymm (hd'.1 _ h2))
      have hv : d.2 = e.2 := by
        have := h d.1
        simp only [findEntry, if_true] at this
        rw [if_pos hk] at this
        exact Option.some.inj this
      have hde : d = e := by
        cases d; cases e; cases hk; cases hv; rfl
      subst hde
      congr 1
      refine ih hd'.2 he'.2 (fun k => ?_)
      rcases Decidable.em (k = d.1) with hkd | hkd
      · have none_of : ∀ fs : List (String × α), (∀ f ∈ fs, d.1 < f.1) → findEntry k fs = none :=
          fun fs hf => findEntry_eq_none_iff.mpr fun hm => by
            obtain ⟨f, hf', e⟩ := List.mem_map.mp hm
            exact String.lt_irrefl d.1 (by have := hf f hf'; rwa [e, hkd] at this)
        rw [none_of ds hd'.1, none_of es he'.1]
      · have := h k
        simpa only [findEntry, if_neg hkd] using this

end

/-! ## tables -/

/-- a finite table keyed by names -/
structure NameMap (α : Type u) where
  /-- the entries in increasing key order -/
  entries : List (String × α)
  increasing : entries.Pairwise (fun d e => d.1 < e.1)

namespace NameMap

variable {α : Type u} {β : Type v}

instance [DecidableEq α] : DecidableEq (NameMap α) := fun s t =>
  if h : s.entries = t.entries then
    isTrue (by cases s; cases t; cases h; rfl)
  else isFalse (fun e => h (e ▸ rfl))

def empty : NameMap α := ⟨[], List.Pairwise.nil⟩

instance : EmptyCollection (NameMap α) := ⟨empty⟩
instance : Inhabited (NameMap α) := ⟨empty⟩

def get? (m : NameMap α) (k : String) : Option α := findEntry k m.entries

def contains (m : NameMap α) (k : String) : Bool := (m.get? k).isSome

def insert (m : NameMap α) (k : String) (a : α) : NameMap α :=
  ⟨insertEntry k a m.entries, pairwise_insertEntry m.increasing⟩

/-- an entry for `k` is kept as it is -/
def insertIfNew (m : NameMap α) (k : String) (a : α) : NameMap α :=
  if m.contains k then m else m.insert k a

def erase (m : NameMap α) (k : String) : NameMap α :=
  ⟨m.entries.filter (fun e => e.1 ≠ k), m.increasing.filter _⟩

/-- the later of two entries with the same key counts -/
def ofList (es : List (String × α)) : NameMap α :=
  es.foldl (fun m e => m.insert e.1 e.2) empty

def keys (m : NameMap α) : List String := m.entries.map Prod.fst

def values (m : NameMap α) : List α := m.entries.map Prod.snd

def size (m : NameMap α) : Nat := m.entries.length

def map (f : α → β) (m : NameMap α) : NameMap β :=
  ⟨m.entries.map (fun e => (e.1, f e.2)),
    List.pairwise_map.mpr (m.increasing.imp fun h => h)⟩

/-- changes the value of `k`, if there is one -/
def modify (m : NameMap α) (k : String) (f : α → α) : NameMap α :=
  match m.get? k with
  | some a => m.insert k (f a)
  | none => m

theorem ext_get? {s t : NameMap α} (h : ∀ k, s.get? k = t.get? k) : s = t := by
  have e := eq_of_findEntry s.increasing t.increasing h
  cases s; cases t; cases e; rfl

@[simp] theorem get?_empty (k : String) : (∅ : NameMap α).get? k = none := rfl

theorem get?_insert (m : NameMap α) (k j : String) (a : α) :
    (m.insert k a).get? j = if j = k then some a else m.get? j :=
  findEntry_insertEntry

theorem get?_map (f : α → β) (m : NameMap α) (k : String) :
    (m.map f).get? k = (m.get? k).map f := by
  obtain ⟨es, hs⟩ := m
  show findEntry k (es.map _) = (findEntry k es).map f
  clear hs
  induction es with
  | nil => rfl
  | cons e es ih =>
    simp only [List.map_cons, findEntry]
    split
    · rfl
    · exact ih

theorem contains_iff {m : NameMap α} {k : String} : m.contains k = true ↔ k ∈ m.keys := by
  unfold contains get? keys
  cases h : findEntry k m.entries with
  | none => simpa using findEntry_eq_none_iff.mp h
  | some a => simpa using ⟨a, mem_of_findEntry h⟩

theorem mem_entries_iff {m : NameMap α} {k : String} {a : α} :
    (k, a) ∈ m.entries ↔ m.get? k = some a :=
  ⟨fun h => findEntry_of_mem m.increasing h, mem_of_findEntry⟩

theorem keys_increasing (m : NameMap α) : m.keys.Pairwise (· < ·) :=
  List.pairwise_map.mpr m.increasing

/-- the keys as a set -/
def keySet (m : NameMap α) : NameSet := ⟨m.keys, m.keys_increasing⟩

end NameMap

end TypedVocabulary
