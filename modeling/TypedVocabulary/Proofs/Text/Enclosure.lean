import Mathlib.Algebra.Group.Nat.Even
import Mathlib.Data.List.Basic
import TypedVocabulary.Proofs.Text.Literals

/-!
# Nothing leaves its literal

A quote in a literal is harmless where a backslash takes it along, and that depends on how many
backslashes stand in front of it: every second one is taken along itself.

* `Quoted.endsLiteral_of_scan?`   reading stops at the first quote behind an even number of backslashes;
* `quote_ends`                    so a literal ends with its last character, in any text.

A reader that is past some characters does not know them any more, so the induction carries their
backslashes along: they are even in number wherever the reader looks for a quote.
-/

namespace TypedVocabulary

namespace Quoted

section
variable {front s inside rest : List Char} {c : Char}

/-- the backslashes that a text ends with -/
def slashes (s : List Char) : Nat := (s.reverse.takeWhile (· = '\\')).length

theorem slashes_concat (s : List Char) (c : Char) :
    slashes (s ++ [c]) = if c = '\\' then slashes s + 1 else 0 := by
  unfold slashes
  rw [List.reverse_append, List.reverse_singleton, List.singleton_append, List.takeWhile_cons]
  split <;> simp_all

/-- the quote behind `inside` is the first one that no backslash takes along, `front` being read -/
structure EndsLiteral (front inside : List Char) : Prop where
  even : Even (slashes (front ++ inside))
  odd_of_quote : ∀ u v, inside = u ++ '"' :: v → ¬ Even (slashes (front ++ u))

theorem EndsLiteral.nil (h : Even (slashes front)) : EndsLiteral front [] :=
  ⟨by rwa [List.append_nil], fun _ _ e => absurd e.symm (by simp)⟩

/-- one character further -/
theorem EndsLiteral.cons (h : EndsLiteral (front ++ [c]) inside)
    (hc : c = '"' → ¬ Even (slashes front)) : EndsLiteral front (c :: inside) := by
  have hone : ∀ s, front ++ c :: s = front ++ [c] ++ s := fun s => by simp
  refine ⟨hone inside ▸ h.even, fun u v e => ?_⟩
  cases u with
  | nil =>
    rw [List.append_nil]
    exact hc (List.cons.inj e).1
  | cons d u =>
    obtain ⟨rfl, hrest⟩ := List.cons.inj e
    rw [hone u]
    exact h.odd_of_quote u v hrest

/-- **Reading stops at the first quote behind an even number of backslashes.** -/
theorem endsLiteral_of_scan? (hfront : Even (slashes front)) (h : scan? s = some (inside, rest)) :
    s = inside ++ '"' :: rest ∧ EndsLiteral front inside := by
  induction s using scan?.induct generalizing front inside with
  | case1 => cases h
  | case2 s =>
    cases h
    exact ⟨rfl, .nil hfront⟩
  | case3 c s ih =>
    obtain ⟨⟨i, r⟩, hi, e⟩ := Option.map_eq_some_iff.mp h
    cases e
    -- the backslash makes the number odd, and the next character even again
    have hodd : slashes (front ++ ['\\']) = slashes front + 1 := by
      rw [slashes_concat, if_pos rfl]
    have heven : Even (slashes (front ++ ['\\'] ++ [c])) := by
      rw [slashes_concat, hodd]
      split
      · exact hfront.add (by decide : Even 2)
      · exact Even.zero
    obtain ⟨rfl, hends⟩ := ih heven hi
    refine ⟨rfl, .cons (.cons hends fun _ => ?_) fun e => absurd e (by decide)⟩
    rw [hodd, Nat.even_add_one]
    exact not_not_intro hfront
  | case4 c s hquote hslash ih =>
    have hmap : (scan? s).map (fun r => (c :: r.1, r.2)) = some (inside, rest) := by
      rwa [scan?] at h
      all_goals assumption
    obtain ⟨⟨i, r⟩, hi, e⟩ := Option.map_eq_some_iff.mp hmap
    cases e
    have hc : c ≠ '\\' := by
      rintro rfl
      cases s with
      | nil => cases hi
      | cons d s => exact hslash d s rfl rfl
    have heven : Even (slashes (front ++ [c])) := by
      rw [slashes_concat, if_neg hc]
      exact Even.zero
    obtain ⟨rfl, hends⟩ := ih heven hi
    exact ⟨rfl, .cons hends fun e => absurd e hquote⟩

end

end Quoted

/-- **A literal ends with its last character**, whatever it stands for and whatever text follows: a reader
that lets every backslash take the next character along reads it as a whole.  Of the quotes behind its
first character only the last one stands behind an even number of backslashes.  No line ends in it, and
different texts have different literals. -/
theorem quote_ends (s : String) :
    (∀ t, literal? (quote s ++ t).toList = some (quote s, t.toList)) ∧
    (∀ u r, (quote s).toList = '"' :: (u ++ '"' :: r) → (r = [] ↔ Even (Quoted.slashes u))) ∧
    (∀ c ∈ ['\n', '\r', '\u2028', '\u2029'], c ∉ (quote s).toList) ∧
    ∀ t, quote s = quote t ↔ s = t := by
  refine ⟨fun t => ?_, fun u r h => ?_, fun c hc h => ?_, fun t => ⟨quote_injective, ?_⟩⟩
  · rw [String.toList_append]
    exact literal?_quote s t.toList
  · have hends : Quoted.EndsLiteral [] (Quoted.encode s.toList) :=
      (Quoted.endsLiteral_of_scan? Even.zero (Quoted.scan?_encode s.toList [])).2
    rw [toList_quote] at h
    have hinside : Quoted.encode s.toList ++ ['"'] = u ++ '"' :: r := (List.cons.inj h).2
    rcases List.eq_nil_or_concat' r with rfl | ⟨r, c, rfl⟩
    · rw [List.append_cancel_right hinside] at hends
      exact iff_of_true rfl hends.even
    · have hquote : Quoted.encode s.toList = u ++ '"' :: r := by
        rw [← List.cons_append, ← List.append_assoc] at hinside
        exact (List.append_inj' hinside rfl).1
      exact iff_of_false (by simp) (hends.odd_of_quote u r hquote)
  · rw [toList_quote, List.mem_cons, List.mem_append, List.mem_singleton] at h
    rcases h with rfl | h | rfl
    · exact absurd hc (by decide)
    · exact Quoted.lineEnd_not_mem hc s.toList h
    · exact absurd hc (by decide)
  · rintro rfl
    rfl

end TypedVocabulary
