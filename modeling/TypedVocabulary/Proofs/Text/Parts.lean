import Mathlib.Data.List.Basic

/-!
# Parts of a text

The parts of a text are its longest runs of characters that are no breaks.  A separator, which is one break
or more, keeps parts apart, so what is written with separators between is read back:

* `parts_separate`     the parts in front of a separator, and those behind it;
* `parts_eq_self`      a text without breaks is its own part;
* `parts_intercalate`  texts without breaks, with a separator between them, are read back.
-/

namespace TypedVocabulary

/-- the longest runs of characters that are no breaks -/
def parts (isBreak : Char → Bool) (text : String) : List String :=
  ((text.toList.splitOnP isBreak).filter (· ≠ [])).map String.ofList

/-- a text of breaks only, and of one at least -/
def Separates (isBreak : Char → Bool) (sep : String) : Prop :=
  sep.toList ≠ [] ∧ sep.toList.all isBreak = true

/-- a text without breaks that is not empty -/
def IsPart (isBreak : Char → Bool) (text : String) : Prop :=
  text.toList ≠ [] ∧ ∀ c ∈ text.toList, isBreak c = false

section
variable {isBreak : Char → Bool} {s sep : String} {names : List String}

theorem filter_splitOnP_breaks {cs : List Char} (hcs : cs.all isBreak = true) (r : List Char) :
    ((cs ++ r).splitOnP isBreak).filter (· ≠ []) = (r.splitOnP isBreak).filter (· ≠ []) := by
  induction cs with
  | nil => rfl
  | cons c cs ih =>
    rw [List.all_cons, Bool.and_eq_true] at hcs
    have hsplit := List.splitOnP_append_cons [] (cs ++ r) hcs.1
    rw [List.cons_append, ← List.nil_append (c :: (cs ++ r)), hsplit, List.filter_append, ih hcs.2]
    rfl

/-- **A part does not reach over a separator.** -/
theorem parts_separate (hsep : Separates isBreak sep) (s t : String) :
    parts isBreak (s ++ sep ++ t) = parts isBreak s ++ parts isBreak t := by
  obtain ⟨hne, hall⟩ := hsep
  unfold parts
  rw [String.toList_append, String.toList_append]
  cases h : sep.toList with
  | nil => exact absurd h hne
  | cons c cs =>
    rw [h, List.all_cons, Bool.and_eq_true] at hall
    rw [List.append_assoc, List.cons_append, List.splitOnP_append_cons _ _ hall.1,
      List.filter_append, filter_splitOnP_breaks hall.2, List.map_append]

theorem parts_eq_self (h : IsPart isBreak s) : parts isBreak s = [s] := by
  unfold parts
  rw [List.splitOnP_eq_singleton h.2]
  simp [h.1]

/-- **What is written with separators between is read back.** -/
theorem parts_intercalate (hsep : Separates isBreak sep) (hn : ∀ n ∈ names, IsPart isBreak n) :
    parts isBreak (sep.intercalate names) = names := by
  induction names with
  | nil => rw [String.intercalate_nil]; rfl
  | cons n names ih =>
    have hname := parts_eq_self (hn n (List.mem_cons_self ..))
    cases names with
    | nil => rw [String.intercalate_singleton, hname]
    | cons m names =>
      rw [String.intercalate_cons_cons, parts_separate hsep, hname,
        ih fun n h => hn n (List.mem_cons_of_mem _ h)]
      rfl

end

end TypedVocabulary
