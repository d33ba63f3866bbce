/-!
# Sets of names

A finite set of names is the strictly increasing list of its members; names are ordered by code
point.  The list is the view of every operation, and it determines the set:

* `NameSet.mem_insert`, `NameSet.mem_ofList`, `NameSet.mem_union` say what the operations hold;
* `NameSet.ext`  sets with the same members are equal, so the order and the repetition of
  insertions never show.
-/

namespace TypedVocabulary

/-! ## increasing lists of names -/

/-- puts `x` at its place in an increasing list -/
def insertName (x : String) : List String → List String
  | [] => [x]
  | y :: ys => if x < y then x :: y :: ys else if x = y then y :: ys else y :: insertName x ys

theorem mem_insertName {x z : String} {ys : List String} :
    z ∈ insertName x ys ↔ z = x ∨ z ∈ ys := by
  induction ys with
  | nil => simp [insertName]
  | cons y ys ih =>
    unfold insertName
    split
    · simp
    · split
      · rename_i h; simp [h]
      · simp only [List.mem_cons, ih]
        grind

theorem lt_of_not_lt_of_ne {x y : String} (h : ¬ x < y) (hne : x ≠ y) : y < x := by
  rcases Decidable.em (y < x) with h' | h'
  · exact h'
  · exact absurd (String.le_antisymm (String.not_lt.mp h') (String.not_lt.mp h)) hne

theorem pairwise_insertName {x : String} {ys : List String} (h : ys.Pairwise (· < ·)) :
    (insertName x ys).Pairwise (· < ·) := by
  induction ys with
  | nil => simp [insertName]
  | cons y ys ih =>
    have hy := List.pairwise_cons.mp h
    unfold insertName
    split
    · rename_i hxy
      refine List.pairwise_cons.mpr ⟨fun z hz => ?_, h⟩
      rcases List.mem_cons.mp hz with rfl | hz
      · exact hxy
      · exact String.lt_trans hxy (hy.1 z hz)
    · split
      · exact h
      · rename_i hxy hne
        refine List.pairwise_cons.mpr ⟨fun z hz => ?_, ih hy.2⟩
        rcases mem_insertName.mp hz with rfl | hz
        · exact lt_of_not_lt_of_ne hxy hne
        · exact hy.1 z hz

/-- an increasing list is determined by its members -/
theorem eq_of_increasing {xs ys : List String} (hx : xs.Pairwise (· < ·))
    (hy : ys.Pairwise (· < ·)) (h : ∀ z, z ∈ xs ↔ z ∈ ys) : xs = ys := by
  induction xs generalizing ys with
  | nil =>
    cases ys with
    | nil => rfl
    | cons y ys => exact absurd ((h y).mpr (List.mem_cons_self ..)) (List.not_mem_nil)
  | cons x xs ih =>
    cases ys with
    | nil => exact absurd ((h x).mp (List.mem_cons_self ..)) (List.not_mem_nil)
    | cons y ys =>
      have hx' := List.pairwise_cons.mp hx
      have hy' := List.pairwise_cons.mp hy
      have hxy : x = y := by
        rcases List.mem_cons.mp ((h x).mp (List.mem_cons_self ..)) with e | hm
        · exact e
        · rcases List.mem_cons.mp ((h y).mpr (List.mem_cons_self ..)) with e | hm'
          · exact e.symm
          · exact absurd (hx'.1 y hm') (String.lt_asymm (hy'.1 x hm))
      subst hxy
      congr 1
      refine ih hx'.2 hy'.2 (fun z => ⟨fun hz => ?_, fun hz => ?_⟩)
      · rcases List.mem_cons.mp ((h z).mp (List.mem_cons_of_mem _ hz)) with e | hz'
        · exact absurd (e ▸ hx'.1 z hz) (String.lt_irrefl x)
        · exact hz'
      · rcases List.mem_cons.mp ((h z).mpr (List.mem_cons_of_mem _ hz)) with e | hz'
        · exact absurd (e ▸ hy'.1 z hz) (String.lt_irrefl x)
        · exact hz'

/-! ## sets -/

/-- a finite set of names -/
structure NameSet where
  /-- the members, increasing -/
  toList : List String
  increasing : toList.Pairwise (· < ·)

namespace NameSet

instance : DecidableEq NameSet := fun s t =>
  if h : s.toList = t.toList then
    isTrue (by cases s; cases t; cases h; rfl)
  else isFalse (fun e => h (e ▸ rfl))

def empty : NameSet := ⟨[], List.Pairwise.nil⟩

instance : EmptyCollection NameSet := ⟨empty⟩
instance : Inhabited NameSet := ⟨empty⟩

instance : Membership String NameSet := ⟨fun s x => x ∈ s.toList⟩

theorem mem_toList {s : NameSet} {x : String} : x ∈ s.toList ↔ x ∈ s := Iff.rfl

theorem toList_nodup (s : NameSet) : s.toList.Nodup := s.increasing.imp String.ne_of_lt

instance (s : NameSet) (x : String) : Decidable (x ∈ s) :=
  inferInstanceAs (Decidable (x ∈ s.toList))

def insert (s : NameSet) (x : String) : NameSet :=
  ⟨insertName x s.toList, pairwise_insertName s.increasing⟩

def ofList (xs : List String) : NameSet := xs.foldl insert empty

def union (s t : NameSet) : NameSet := t.toList.foldl insert s

def isEmpty (s : NameSet) : Bool := s.toList.isEmpty

@[ext] theorem ext {s t : NameSet} (h : ∀ x, x ∈ s ↔ x ∈ t) : s = t := by
  have e := eq_of_increasing s.increasing t.increasing h
  cases s; cases t; cases e; rfl

@[simp] theorem not_mem_empty (x : String) : ¬ x ∈ (∅ : NameSet) := List.not_mem_nil

@[simp] theorem mem_insert {s : NameSet} {x y : String} : y ∈ s.insert x ↔ y = x ∨ y ∈ s :=
  mem_insertName

theorem mem_foldl_insert {s : NameSet} {xs : List String} {y : String} :
    y ∈ xs.foldl insert s ↔ y ∈ s ∨ y ∈ xs := by
  induction xs generalizing s with
  | nil => simp
  | cons x xs ih =>
    rw [List.foldl_cons, ih, mem_insert, List.mem_cons]
    grind

@[simp] theorem mem_ofList {xs : List String} {y : String} : y ∈ ofList xs ↔ y ∈ xs := by
  rw [ofList, mem_foldl_insert]
  exact ⟨fun h => h.resolve_left (not_mem_empty y), Or.inr⟩

@[simp] theorem mem_union {s t : NameSet} {y : String} : y ∈ s.union t ↔ y ∈ s ∨ y ∈ t :=
  mem_foldl_insert

theorem ofList_toList (s : NameSet) : ofList s.toList = s := ext fun _ => mem_ofList

/-- lists with the same members make the same set -/
theorem ofList_congr {xs ys : List String} (h : ∀ x, x ∈ xs ↔ x ∈ ys) : ofList xs = ofList ys :=
  ext fun x => by rw [mem_ofList, mem_ofList, h]

end NameSet

end TypedVocabulary
