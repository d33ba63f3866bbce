import TypedVocabulary.Proofs.Text.CodeLines

/-!
# Comments stay closed

A comment ends at its first `*/`.  Texts are cleared of it before they are filled, and whatever is then put
between their words is a blank, so no terminator comes back:

* `unclosed_append`         two texts hold none together if none lies across their seam;
* `unclosed_splitTerminators`, `unclosed_of_mem_commentText`   a cleared text, and its filled lines;
* `closesBefore_unlines`    lines without a terminator, and one behind them that ends with it;
* `closesBefore_blockAround`, `textLines_blockAround`   where a comment block is closed, and its lines.
-/

namespace TypedVocabulary

section
variable {s t front rest : List Char} {c : Char}

/-! ## texts without a terminator -/

/-- no `*/` occurs -/
def Unclosed (s : List Char) : Prop := ¬ ['*', '/'] <:+: s

instance (s : List Char) : Decidable (Unclosed s) :=
  inferInstanceAs (Decidable (¬ ['*', '/'] <:+: s))

theorem Unclosed.of_isInfix (h : Unclosed t) (hs : s <:+: t) : Unclosed s := fun hi => h (hi.trans hs)

theorem unclosed_of_not_mem (h : '*' ∉ s) : Unclosed s := fun hi =>
  h (hi.subset (List.mem_cons_self ..))

theorem unclosed_cons : Unclosed (c :: s) ↔ ¬ (c = '*' ∧ s.head? = some '/') ∧ Unclosed s := by
  have hslash : ['/'] <+: s ↔ s.head? = some '/' := by
    cases s with
    | nil => simp
    | cons d s =>
      rw [List.cons_prefix_cons, List.head?_cons, Option.some.injEq, and_iff_left List.nil_prefix]
      exact eq_comm
  unfold Unclosed
  rw [List.infix_cons_iff, not_or, List.cons_prefix_cons, hslash, eq_comm (a := '*')]

/-- **Two texts hold no terminator together** if none begins in one and ends in the other. -/
theorem unclosed_append (h : ¬ (s.getLast? = some '*' ∧ t.head? = some '/')) :
    Unclosed (s ++ t) ↔ Unclosed s ∧ Unclosed t := by
  induction s with
  | nil => exact (and_iff_right (unclosed_of_not_mem List.not_mem_nil)).symm
  | cons c s ih =>
    cases s with
    | nil =>
      have hc : ¬ (c = '*' ∧ t.head? = some '/') := fun hc => h ⟨congrArg some hc.1, hc.2⟩
      have hone : Unclosed [c] :=
        unclosed_cons.mpr ⟨fun hc => absurd hc.2 (by simp), unclosed_of_not_mem List.not_mem_nil⟩
      rw [List.singleton_append, unclosed_cons, and_iff_right hc, and_iff_right hone]
    | cons d s =>
      rw [List.getLast?_cons_cons] at h
      rw [List.cons_append, unclosed_cons, unclosed_cons, ih h, and_assoc]
      rfl

/-- a character that is no part of a terminator keeps two texts apart -/
theorem unclosed_append_cons (hc : c ≠ '*' ∧ c ≠ '/') :
    Unclosed (s ++ c :: t) ↔ Unclosed s ∧ Unclosed t := by
  have hseam : ¬ (s.getLast? = some '*' ∧ (c :: t).head? = some '/') := fun h =>
    hc.2 (Option.some.inj h.2)
  rw [unclosed_append hseam, unclosed_cons, and_iff_right fun h => hc.1 h.1]

/-- a text between two fixed ones -/
theorem unclosed_between {back : List Char} {text : String} (hfront : Unclosed front)
    (hback : Unclosed back) (hlast : front.getLast? ≠ some '*') (hhead : back.head? ≠ some '/')
    (h : Unclosed text.toList) :
    Unclosed (String.ofList front ++ text ++ String.ofList back).toList := by
  rw [String.toList_append, String.toList_append, String.toList_ofList, String.toList_ofList]
  exact (unclosed_append fun h => hhead h.2).mpr
    ⟨(unclosed_append fun h => hlast h.1).mpr ⟨hfront, h⟩, hback⟩

theorem unclosed_ofList (h : Unclosed s) : Unclosed (String.ofList s).toList := by
  rwa [String.toList_ofList]

theorem head?_splitTerminators (s : List Char) : (splitTerminators s).head? = s.head? := by
  unfold splitTerminators
  split <;> rfl

/-- **Splitting leaves no terminator.** -/
theorem unclosed_splitTerminators (s : List Char) : Unclosed (splitTerminators s) := by
  induction s using splitTerminators.induct with
  | case1 s ih =>
    rw [splitTerminators, unclosed_cons, unclosed_cons, unclosed_cons]
    exact ⟨fun h => absurd h.2 (by simp), fun h => absurd h.1 (by decide),
      fun h => absurd h.1 (by decide), ih⟩
  | case2 c s hsplit ih =>
    rw [splitTerminators, unclosed_cons, head?_splitTerminators]
    · -- behind a `*` the split rest begins with a `/` only if the text did
      refine ⟨fun ⟨hc, hs⟩ => ?_, ih⟩
      obtain ⟨t, rfl⟩ := List.head?_eq_some_iff.mp hs
      exact hsplit t hc rfl
    · exact hsplit
  | case3 => exact unclosed_of_not_mem List.not_mem_nil

theorem toList_withoutTerminators (s : String) :
    (withoutTerminators s).toList = splitTerminators s.toList := String.toList_ofList

/-- what is put between `*` and `/` is no blank -/
theorem isBlankText_withoutTerminators (s : String) :
    isBlankText (withoutTerminators s) = isBlankText s := by
  unfold isBlankText
  rw [toList_withoutTerminators]
  induction s.toList using splitTerminators.induct with
  | case1 => rfl
  | case2 c s hsplit ih =>
    rw [splitTerminators, List.all_cons, List.all_cons, ih]
    exact hsplit
  | case3 => rfl

/-! ## filled lines -/

theorem unclosed_spaced {ws : List String} (h : ∀ w ∈ ws, Unclosed w.toList) :
    Unclosed (spaced ws).toList := by
  unfold spaced
  induction ws with
  | nil => exact unclosed_of_not_mem (by decide)
  | cons w ws ih =>
    have hws := ih fun x hx => h x (List.mem_cons_of_mem _ hx)
    have hw := h w (List.mem_cons_self ..)
    cases ws with
    | nil =>
      rw [String.intercalate_singleton]
      exact hw
    | cons x ws =>
      have hchars : (" ".intercalate (w :: x :: ws)).toList =
          w.toList ++ ' ' :: (" ".intercalate (x :: ws)).toList := by
        rw [String.intercalate_cons_cons, String.toList_append, String.toList_append,
          List.append_assoc]
        rfl
      rw [hchars, unclosed_append_cons (by decide)]
      exact ⟨hw, hws⟩

/-- **A line of comment text holds no terminator.** -/
theorem unclosed_of_mem_commentText {text line : String} {width : Nat}
    (h : line ∈ commentText text width) : Unclosed line.toList := by
  obtain ⟨cut, hlines, hflat, -⟩ := exists_cut_wrap width (withoutTerminators text)
  rw [commentText, hlines] at h
  obtain ⟨group, hgroup, rfl⟩ := List.mem_map.mp h
  refine unclosed_spaced fun w hw => ?_
  have hword : w ∈ words (withoutTerminators text) :=
    hflat ▸ List.mem_flatten.mpr ⟨group, hgroup, hw⟩
  have hclear := unclosed_splitTerminators text.toList
  rw [← toList_withoutTerminators] at hclear
  exact hclear.of_isInfix (isInfix_of_mem_words hword)

theorem commentText_eq_nil_iff {text : String} {width : Nat} :
    commentText text width = [] ↔ isBlankText text = true := by
  unfold commentText wrap
  rw [fill_eq_nil_iff, words_eq_nil_iff, isBlankText_withoutTerminators]

/-! ## where a text is closed -/

/-- a `*/` occurs in the text, and `rest` is what stands behind it -/
def ClosesBefore (text rest : String) : Prop := ∃ front, text = front ++ "*/" ++ rest

theorem suffix_append_terminator {v : List Char} (hfront : Unclosed (front ++ ['*']))
    (hrest : Unclosed ('/' :: rest)) :
    '*' :: '/' :: v <:+ front ++ '*' :: '/' :: rest ↔ v = rest := by
  induction front with
  | nil =>
    rw [List.nil_append, List.suffix_cons_iff, List.cons.injEq, List.cons.injEq]
    have hnone : ¬ '*' :: '/' :: v <:+ '/' :: rest := fun h =>
      hrest ((List.prefix_append ['*', '/'] v).isInfix.trans h.isInfix)
    rw [or_iff_left hnone, and_iff_right rfl, and_iff_right rfl]
  | cons c front ih =>
    obtain ⟨hc, hfront⟩ := unclosed_cons.mp hfront
    have hnone : ¬ '*' :: '/' :: v = c :: (front ++ '*' :: '/' :: rest) := by
      intro e
      obtain ⟨rfl, hslash⟩ := List.cons.inj e
      refine hc ⟨rfl, ?_⟩
      cases front with
      | nil => exact absurd (List.cons.inj hslash).1 (by decide)
      | cons d front => exact congrArg some (List.cons.inj hslash).1.symm
    rw [List.cons_append, List.suffix_cons_iff, or_iff_right hnone]
    exact ih hfront

theorem closesBefore_iff {text rest : String} :
    ClosesBefore text rest ↔ '*' :: '/' :: rest.toList <:+ text.toList := by
  have hchars : ∀ front : String,
      (front ++ "*/" ++ rest).toList = front.toList ++ '*' :: '/' :: rest.toList := by
    intro front
    rw [String.toList_append, String.toList_append, List.append_assoc]
    rfl
  constructor
  · rintro ⟨front, rfl⟩
    exact ⟨front.toList, (hchars front).symm⟩
  · rintro ⟨front, e⟩
    refine ⟨String.ofList front, String.toList_injective ?_⟩
    rw [hchars, String.toList_ofList, e]

theorem toList_unlines_cons (l : String) (ls : List String) :
    (unlines (l :: ls)).toList = l.toList ++ '\n' :: (unlines ls).toList := by
  rw [unlines_cons, String.toList_append, String.toList_append, List.append_assoc]
  rfl

theorem unclosed_unlines_append {ls : List String} (hls : ∀ l ∈ ls, Unclosed l.toList)
    (ht : Unclosed t) : Unclosed ((unlines ls).toList ++ t) := by
  induction ls with
  | nil => exact ht
  | cons l ls ih =>
    rw [toList_unlines_cons, List.append_assoc, List.cons_append, unclosed_append_cons (by decide)]
    exact ⟨hls l (List.mem_cons_self ..), ih fun x hx => hls x (List.mem_cons_of_mem _ hx)⟩

/-- **Behind lines without a terminator** a text is closed where its last line is. -/
theorem closesBefore_unlines {ls : List String} {margin rest : String}
    (hls : ∀ l ∈ ls, Unclosed l.toList) (hm : Unclosed (margin.toList ++ ['*'])) :
    ClosesBefore (unlines (ls ++ [margin ++ "*/"])) rest ↔ rest = "\n" := by
  have hchars : (unlines (ls ++ [margin ++ "*/"])).toList =
      (unlines ls).toList ++ margin.toList ++ '*' :: '/' :: "\n".toList := by
    rw [unlines_append, String.toList_append, toList_unlines_cons, String.toList_append,
      List.append_assoc, List.append_assoc]
    rfl
  rw [closesBefore_iff, hchars, suffix_append_terminator, String.toList_inj]
  · rw [List.append_assoc]
    exact unclosed_unlines_append hls hm
  · exact unclosed_of_not_mem (by decide)

/-! ## comment blocks -/

/-- the lines of a comment block around its text -/
def blockAround (indent : String) (inner : List String) : List String :=
  (indent ++ "/**") :: inner.map (indent ++ " * " ++ ·) ++ [indent ++ " */"]

theorem commentBlock?_eq (text indent : String) :
    let inner := commentText text (commentWidth - indent.utf8ByteSize)
    commentBlock? text indent =
      if inner = [] then none else some (unlines (blockAround indent inner)) := by
  unfold commentBlock? commentLines
  cases commentText text (commentWidth - indent.utf8ByteSize) with
  | nil => rfl
  | cons l ls => rfl

section
variable {indent : String} {inner : List String}

theorem unclosed_indent (hi : isIndent indent = true) (t : String) :
    Unclosed (indent ++ t).toList ↔ Unclosed t.toList := by
  have hstar : '*' ∉ indent.toList := fun hs => absurd (List.all_eq_true.mp hi _ hs) (by decide)
  rw [String.toList_append, unclosed_append fun h => hstar (List.mem_of_getLast? h.1),
    and_iff_right (unclosed_of_not_mem hstar)]

/-- **A comment block is closed by its last line only.** -/
theorem closesBefore_blockAround {rest : String} (hi : isIndent indent = true)
    (h : ∀ l ∈ inner, Unclosed l.toList) :
    ClosesBefore (unlines (blockAround indent inner)) rest ↔ rest = "\n" := by
  have hclose : indent ++ " */" = indent ++ " " ++ "*/" := by
    rw [String.append_assoc]
    rfl
  have hmargin : (indent ++ " ").toList ++ ['*'] = (indent ++ " *").toList := by
    rw [String.toList_append, String.toList_append, List.append_assoc]
    rfl
  unfold blockAround
  rw [hclose]
  refine closesBefore_unlines (fun l hl => ?_) ?_
  · rcases List.mem_cons.mp hl with rfl | hl
    · exact (unclosed_indent hi "/**").mpr (by decide)
    · obtain ⟨l, hmem, rfl⟩ := List.mem_map.mp hl
      rw [String.append_assoc, unclosed_indent hi, String.toList_append]
      exact (unclosed_append_cons (s := [' ', '*']) (by decide)).mpr ⟨by decide, h l hmem⟩
  · rw [hmargin, unclosed_indent hi]
    decide

/-- **The lines of a comment block are read back.** -/
theorem textLines_blockAround (hi : isIndent indent = true) (h : ∀ l ∈ inner, OneLine l) :
    textLines (unlines (blockAround indent inner)) = blockAround indent inner ++ [""] := by
  have hindent := oneLine_indent hi
  refine textLines_unlines fun l hl => ?_
  rcases List.mem_append.mp hl with hl | hl
  · rcases List.mem_cons.mp hl with rfl | hl
    · exact hindent.append (by decide)
    · obtain ⟨l, hmem, rfl⟩ := List.mem_map.mp hl
      exact (hindent.append (by decide)).append (h l hmem)
  · rw [List.mem_singleton.mp hl]
    exact hindent.append (by decide)

end

end

end TypedVocabulary
