import Mathlib.Data.List.TakeWhile
import TypedVocabulary.Text.Template

/-!
# Placeholders are filled in once

What a placeholder is, how a text is passed from left to right, and that filling in is this pass:

* `placeholderAt?_eq_some_iff`   the reader of placeholders knows exactly the three ways to write one;
* `Pass`                         one pass over a text, with the names that it meets;
* `substitute_single_pass`       every text has one pass, and filling in gives its result.

A place in a text begins at most one placeholder, because its name ends at the first `}` or `:` and its
default at the first `}`.  So a pass has no choice anywhere.
-/

namespace TypedVocabulary

/-! ## the form of placeholders -/

/-- at least one character, none of them `}` or `:` -/
def IsPlaceholderName (name : List Char) : Prop := name ≠ [] ∧ '}' ∉ name ∧ ':' ∉ name

/-- a placeholder with its name and default, as it is written: `${name}`, `${name:default}` where the
default does not begin with a dash, or `${name:-default}` -/
inductive IsPlaceholder : (name default written : List Char) → Prop where
  | bare {name : List Char} (hname : IsPlaceholderName name) :
    IsPlaceholder name [] ('$' :: '{' :: (name ++ ['}']))
  | colon {name default : List Char} (hname : IsPlaceholderName name) (hdefault : '}' ∉ default)
      (hdash : default.head? ≠ some '-') :
    IsPlaceholder name default ('$' :: '{' :: (name ++ ':' :: (default ++ ['}'])))
  | dash {name default : List Char} (hname : IsPlaceholderName name) (hdefault : '}' ∉ default) :
    IsPlaceholder name default ('$' :: '{' :: (name ++ ':' :: '-' :: (default ++ ['}'])))

/-- a placeholder stands at the head of the text -/
def OpensPlaceholder (s : List Char) : Prop :=
  ∃ name default written, IsPlaceholder name default written ∧ written <+: s

section
variable {name default written rest s t : List Char} {c : Char}

/-! ## reading a placeholder -/

section
variable {p : Char → Bool} {run : List Char}

theorem takeWhile_run (hrun : ∀ c ∈ run, p c = true) (hc : p c = false) (s : List Char) :
    (run ++ c :: s).takeWhile p = run := by
  rw [List.takeWhile_append_of_pos hrun, List.takeWhile_cons, hc]
  exact List.append_nil run

theorem eq_run_append (h : s.dropWhile p = c :: rest) : s = s.takeWhile p ++ c :: rest := by
  rw [← h, List.takeWhile_append_dropWhile]

theorem dropWhile_run (hrun : ∀ c ∈ run, p c = true) (hc : p c = false) (s : List Char) :
    (run ++ c :: s).dropWhile p = c :: s := by
  rw [List.dropWhile_append_of_pos hrun, List.dropWhile_cons, hc]
  rfl

end

theorem isPlaceholderName_iff : IsPlaceholderName name ↔
    name ≠ [] ∧ ∀ c ∈ name, (decide (c ≠ '}') && decide (c ≠ ':')) = true := by
  have hnot : ∀ d, d ∉ name ↔ ∀ c ∈ name, c ≠ d := fun d =>
    ⟨fun h c hc e => h (e ▸ hc), fun h hd => h d hd rfl⟩
  unfold IsPlaceholderName
  rw [hnot, hnot, ← forall₂_and]
  simp only [Bool.and_eq_true, decide_eq_true_eq]

theorem placeholderAt?_bare (h : IsPlaceholderName name) (s : List Char) :
    placeholderAt? (name ++ '}' :: s) = some (name, [], s) := by
  obtain ⟨hne, hname⟩ := isPlaceholderName_iff.mp h
  unfold placeholderAt?
  rw [takeWhile_run hname (by decide), dropWhile_run hname (by decide)]
  exact if_neg (by simpa using hne)

theorem placeholderAt?_colon (h : IsPlaceholderName name) (hdefault : '}' ∉ default)
    (ht : afterDash t = default ++ '}' :: s) :
    placeholderAt? (name ++ ':' :: t) = some (name, default, s) := by
  obtain ⟨hne, hname⟩ := isPlaceholderName_iff.mp h
  have hd : ∀ c ∈ default, decide (c ≠ '}') = true := fun c hc =>
    decide_eq_true fun e => hdefault (e ▸ hc)
  unfold placeholderAt?
  rw [takeWhile_run hname (by decide), dropWhile_run hname (by decide)]
  refine (if_neg (by simpa using hne)).trans ?_
  simp only [ht]
  rw [takeWhile_run hd (by decide), dropWhile_run hd (by decide)]
  rfl

theorem afterDash_of_head? (h : s.head? ≠ some '-') : afterDash s = s := by
  unfold afterDash
  split
  · exact absurd rfl h
  · rfl

theorem eq_dash_of_head? (h : s.head? = some '-') : s = '-' :: afterDash s := by
  obtain ⟨t, rfl⟩ := List.head?_eq_some_iff.mp h
  rfl

/-- what is written is read -/
theorem placeholderAt?_of_isPlaceholder (h : IsPlaceholder name default written)
    (e : '$' :: '{' :: t = written ++ s) : placeholderAt? t = some (name, default, s) := by
  cases h with
  | bare hname =>
    have ht : t = name ++ '}' :: s := by simpa using e
    rw [ht]
    exact placeholderAt?_bare hname s
  | colon hname hdefault hdash =>
    have ht : t = name ++ ':' :: (default ++ '}' :: s) := by simpa using e
    have hhead : (default ++ '}' :: s).head? ≠ some '-' := by
      cases default with
      | nil => exact fun h => absurd (Option.some.inj h) (by decide)
      | cons c default => exact hdash
    rw [ht]
    exact placeholderAt?_colon hname hdefault (afterDash_of_head? hhead)
  | dash hname hdefault =>
    have ht : t = name ++ ':' :: '-' :: (default ++ '}' :: s) := by simpa using e
    rw [ht]
    exact placeholderAt?_colon hname hdefault rfl

/-- what is read was written -/
theorem isPlaceholder_of_placeholderAt? (h : placeholderAt? s = some (name, default, rest)) :
    ∃ written, IsPlaceholder name default written ∧ '$' :: '{' :: s = written ++ rest := by
  unfold placeholderAt? at h
  dsimp only at h
  split at h
  · cases h
  · rename_i hempty
    have hne := fun e => hempty (List.isEmpty_iff.mpr e)
    have hpart : ∀ c ∈ s.takeWhile fun c => c ≠ '}' && c ≠ ':',
        (decide (c ≠ '}') && decide (c ≠ ':')) = true := fun c hc =>
      List.mem_takeWhile_imp (p := fun c => c ≠ '}' && c ≠ ':') hc
    have hname := isPlaceholderName_iff.mpr ⟨hne, hpart⟩
    split at h
    · rename_i r e
      have hs := eq_run_append e
      cases h
      exact ⟨_, .bare hname, by simpa using hs⟩
    · rename_i t e
      have hs := eq_run_append e
      split at h
      · rename_i r e
        have ht := eq_run_append e
        have hdefault : '}' ∉ (afterDash t).takeWhile (· ≠ '}') := fun hc =>
          absurd (List.mem_takeWhile_imp hc) (by decide)
        cases h
        -- a dash behind the colon belongs neither to the name nor to the default
        by_cases hdash : t.head? = some '-'
        · refine ⟨_, .dash hname hdefault, ?_⟩
          rw [eq_dash_of_head? hdash, ht] at hs
          simpa using hs
        · rw [afterDash_of_head? hdash] at ht hdefault ⊢
          refine ⟨_, .colon hname hdefault fun hd => hdash ?_, ?_⟩
          · rw [ht, List.head?_append, hd]
            rfl
          · rw [ht] at hs
            simpa using hs
      · cases h
    · cases h

/-- **The reader knows exactly the three ways to write a placeholder.** -/
theorem placeholderAt?_eq_some_iff : placeholderAt? s = some (name, default, rest) ↔
    ∃ written, IsPlaceholder name default written ∧ '$' :: '{' :: s = written ++ rest :=
  ⟨isPlaceholder_of_placeholderAt?, fun ⟨_, h, e⟩ => placeholderAt?_of_isPlaceholder h e⟩

/-! ## cutting a text -/

theorem IsPlaceholder.opens (h : IsPlaceholder name default written) :
    ∃ t, written = '$' :: '{' :: t := by
  cases h <;> exact ⟨_, rfl⟩

theorem OpensPlaceholder.opens (h : OpensPlaceholder s) : ∃ t, s = '$' :: '{' :: t := by
  obtain ⟨name, default, written, hw, rest, rfl⟩ := h
  obtain ⟨t, rfl⟩ := hw.opens
  exact ⟨t ++ rest, rfl⟩

theorem opensPlaceholder_iff :
    OpensPlaceholder ('$' :: '{' :: s) ↔ ∃ r, placeholderAt? s = some r := by
  constructor
  · rintro ⟨name, default, written, h, rest, e⟩
    exact ⟨(name, default, rest), placeholderAt?_eq_some_iff.mpr ⟨written, h, e.symm⟩⟩
  · rintro ⟨⟨name, default, rest⟩, h⟩
    obtain ⟨written, hw, e⟩ := placeholderAt?_eq_some_iff.mp h
    exact ⟨name, default, written, hw, rest, e.symm⟩

theorem template_written (h : IsPlaceholder name default written) (s : List Char) :
    template (written ++ s) = .placeholder name default :: template s := by
  obtain ⟨t, rfl⟩ := h.opens
  have hread : placeholderAt? (t ++ s) = some (name, default, s) :=
    placeholderAt?_eq_some_iff.mpr ⟨_, h, rfl⟩
  rw [List.cons_append, List.cons_append, template.eq_1]
  split
  · rename_i e
    cases hread.symm.trans e
    rfl
  · rename_i e
    cases hread.symm.trans e

theorem template_kept (h : ¬ OpensPlaceholder (c :: s)) :
    template (c :: s) = .char c :: template s := by
  rw [template.eq_def]
  split
  · rename_i t e
    obtain ⟨rfl, rfl⟩ := List.cons.inj e
    split
    · rename_i hread
      exact absurd (opensPlaceholder_iff.mpr ⟨_, hread⟩) h
    · rfl
  · rename_i e
    obtain ⟨rfl, rfl⟩ := List.cons.inj e
    rfl
  · rename_i e
    cases e

end

/-! ## one pass -/

section
variable {value? value?' : String → Option String} {name default s result : List Char}
  {names : List String}

/-- One pass over a text from left to right.  A place that begins a placeholder is replaced by the value of
its name, or by its default where there is none, and the pass goes on behind the placeholder; a character
at any other place is kept. -/
inductive Pass (value? : String → Option String) :
    (text : List Char) → (names : List String) → (result : List Char) → Prop where
  | nil : Pass value? [] [] []
  | kept {c : Char} {s result : List Char} {names : List String}
      (hc : ¬ OpensPlaceholder (c :: s)) (h : Pass value? s names result) :
    Pass value? (c :: s) names (c :: result)
  | value {name default written s result : List Char} {names : List String} {v : String}
      (hw : IsPlaceholder name default written) (hv : value? (String.ofList name) = some v)
      (h : Pass value? s names result) :
    Pass value? (written ++ s) (String.ofList name :: names) (v.toList ++ result)
  | default {name default written s result : List Char} {names : List String}
      (hw : IsPlaceholder name default written) (hv : value? (String.ofList name) = none)
      (h : Pass value? s names result) :
    Pass value? (written ++ s) (String.ofList name :: names) (default ++ result)

/-- the name that a piece asks for -/
def Piece.name? : Piece → Option String
  | .placeholder name _ => some (String.ofList name)
  | .char _ => none

theorem placeholderNames_eq (text : String) :
    placeholderNames text = (template text.toList).filterMap Piece.name? := rfl

theorem toList_substitute (value? : String → Option String) (text : String) :
    (substitute value? text).toList = (template text.toList).flatMap (Piece.fillIn value?) :=
  String.toList_ofList

theorem fillIn_of_value {v : String} (hv : value? (String.ofList name) = some v) :
    Piece.fillIn value? (.placeholder name default) = v.toList := by
  rw [Piece.fillIn, hv]

theorem fillIn_of_none (hv : value? (String.ofList name) = none) :
    Piece.fillIn value? (.placeholder name default) = default := by
  rw [Piece.fillIn, hv]

/-- the pass that a template describes -/
theorem pass_template (value? : String → Option String) (s : List Char) :
    Pass value? s ((template s).filterMap Piece.name?)
      ((template s).flatMap (Piece.fillIn value?)) := by
  induction s using template.induct with
  | case1 s name default rest h _ ih =>
    obtain ⟨written, hw, e⟩ := placeholderAt?_eq_some_iff.mp h
    rw [e, template_written hw, List.flatMap_cons]
    cases hv : value? (String.ofList name) with
    | some v =>
      rw [fillIn_of_value hv]
      exact .value hw hv ih
    | none =>
      rw [fillIn_of_none hv]
      exact .default hw hv ih
  | case2 s h ih =>
    have hc : ¬ OpensPlaceholder ('$' :: '{' :: s) := by
      rw [opensPlaceholder_iff, h]
      exact fun ⟨_, e⟩ => Option.some_ne_none _ e.symm
    rw [template_kept hc]
    exact .kept hc ih
  | case3 c s hfront ih =>
    have hc : ¬ OpensPlaceholder (c :: s) := by
      intro ho
      obtain ⟨t, e⟩ := ho.opens
      exact hfront t (List.cons.inj e).1 (List.cons.inj e).2
    rw [template_kept hc]
    exact .kept hc ih
  | case4 =>
    rw [template.eq_def]
    exact .nil

/-- **A text has one pass.** -/
theorem Pass.eq (h : Pass value? s names result) :
    names = (template s).filterMap Piece.name? ∧
      result = (template s).flatMap (Piece.fillIn value?) := by
  induction h with
  | nil =>
    rw [template.eq_def]
    exact ⟨rfl, rfl⟩
  | kept hc _ ih =>
    obtain ⟨rfl, rfl⟩ := ih
    rw [template_kept hc]
    exact ⟨rfl, rfl⟩
  | value hw hv _ ih =>
    obtain ⟨rfl, rfl⟩ := ih
    rw [template_written hw, List.flatMap_cons, fillIn_of_value hv]
    exact ⟨rfl, rfl⟩
  | default hw hv _ ih =>
    obtain ⟨rfl, rfl⟩ := ih
    rw [template_written hw, List.flatMap_cons, fillIn_of_none hv]
    exact ⟨rfl, rfl⟩

/-- values that agree on the names of a pass allow the same pass -/
theorem Pass.congr (h : Pass value? s names result)
    (hagree : ∀ name ∈ names, value? name = value?' name) : Pass value?' s names result := by
  induction h with
  | nil => exact .nil
  | kept hc _ ih => exact .kept hc (ih hagree)
  | value hw hv _ ih =>
    have hname := hagree _ (List.mem_cons_self ..)
    exact .value hw (hname.symm.trans hv) (ih fun n hn => hagree n (List.mem_cons_of_mem _ hn))
  | default hw hv _ ih =>
    have hname := hagree _ (List.mem_cons_self ..)
    exact .default hw (hname.symm.trans hv) (ih fun n hn => hagree n (List.mem_cons_of_mem _ hn))

end

/-- **Filling in is one pass from left to right.**  Every text has exactly one pass, whatever the values are;
it meets the names of the text, and its result is the text that is filled in.  So only the values of these
names matter. -/
theorem substitute_single_pass (text : String) :
    (∀ value? names result, Pass value? text.toList names result.toList ↔
      names = placeholderNames text ∧ result = substitute value? text) ∧
    ∀ value? value?', (∀ name ∈ placeholderNames text, value? name = value?' name) →
      substitute value? text = substitute value?' text := by
  have hpass : ∀ value?,
      Pass value? text.toList (placeholderNames text) (substitute value? text).toList := by
    intro value?
    rw [placeholderNames_eq, toList_substitute]
    exact pass_template value? text.toList
  have hunique : ∀ value? names result, Pass value? text.toList names result.toList →
      names = placeholderNames text ∧ result = substitute value? text := by
    intro value? names result h
    obtain ⟨hnames, hresult⟩ := h.eq
    rw [← toList_substitute] at hresult
    exact ⟨hnames, String.toList_injective hresult⟩
  refine ⟨fun value? names result => ⟨hunique value? names result, ?_⟩, fun value? value?' h => ?_⟩
  · rintro ⟨rfl, rfl⟩
    exact hpass value?
  · exact (hunique value?' _ _ ((hpass value?).congr h)).2

end TypedVocabulary
