import Mathlib.Data.List.Basic
import TypedVocabulary.Text.CommentBlock

/-!
# Wrapped text

Wrapping breaks a text into its words and lays the words on lines.  What a line holds is known without
knowing where the lines end:

* `isWord_of_mem_words`   a word is not empty and holds no blank;
* `isInfix_of_mem_words`, `words_eq_nil_iff`   it is a part of the text, and a text of blanks has none;
* `exists_cut_fill`       the lines are the words, cut into groups, with one space between words, and each
                          group is as long as it can be (`Greedy`);
* `mem_wrap_line`         a line holds no blank but the space, so it never holds a line end.

The open word and the open line are accumulators; each lemma on them says what they hold at the start.
-/

namespace TypedVocabulary

/-! ## words -/

/-- not empty, and without blanks -/
def IsWord (w : List Char) : Prop := w ≠ [] ∧ ∀ c ∈ w, isBlank c = false

section
variable {word cs w : List Char}

theorem isWord_reverse (hw : ¬ word.isEmpty = true) (h : ∀ c ∈ word, isBlank c = false) :
    IsWord word.reverse := by
  refine ⟨fun e => hw ?_, fun c hc => h c (List.mem_reverse.mp hc)⟩
  rw [List.reverse_eq_nil_iff] at e
  rw [e]
  rfl

theorem isWord_of_mem_wordsFrom (hword : ∀ c ∈ word, isBlank c = false)
    (hw : w ∈ wordsFrom word cs) : IsWord w := by
  have hnil : ∀ c ∈ ([] : List Char), isBlank c = false := fun _ h => absurd h List.not_mem_nil
  induction cs generalizing word with
  | nil =>
    unfold wordsFrom at hw
    split at hw
    · exact absurd hw List.not_mem_nil
    · rename_i hne
      rw [List.mem_singleton.mp hw]
      exact isWord_reverse hne hword
  | cons c cs ih =>
    unfold wordsFrom at hw
    split at hw
    · split at hw
      · exact ih hnil hw
      · rename_i hne
        rcases List.mem_cons.mp hw with rfl | hw
        · exact isWord_reverse hne hword
        · exact ih hnil hw
    · rename_i hc
      refine ih (fun x hx => ?_) hw
      rcases List.mem_cons.mp hx with rfl | hx
      · exact Bool.eq_false_iff.mpr hc
      · exact hword x hx

theorem isWord_of_mem_words {s x : String} (h : x ∈ words s) : IsWord x.toList := by
  obtain ⟨w, hw, rfl⟩ := List.mem_map.mp h
  rw [String.toList_ofList]
  exact isWord_of_mem_wordsFrom (fun _ h => absurd h List.not_mem_nil) hw

theorem isInfix_of_mem_wordsFrom (hw : w ∈ wordsFrom word cs) : w <:+: word.reverse ++ cs := by
  induction cs generalizing word with
  | nil =>
    unfold wordsFrom at hw
    split at hw
    · exact absurd hw List.not_mem_nil
    · rw [List.mem_singleton.mp hw]
      exact (List.prefix_append word.reverse []).isInfix
  | cons c cs ih =>
    -- a word of the rest, behind the open word and the blank that ends it
    have hrest : w ∈ wordsFrom [] cs → w <:+: word.reverse ++ c :: cs := fun h =>
      (ih h).trans ((List.suffix_cons c cs).trans (List.suffix_append _ _)).isInfix
    unfold wordsFrom at hw
    split at hw
    · split at hw
      · exact hrest hw
      · rcases List.mem_cons.mp hw with rfl | hw
        · exact (List.prefix_append _ _).isInfix
        · exact hrest hw
    · have h := ih hw
      rwa [List.reverse_cons, List.append_assoc, List.singleton_append] at h

/-- **A word is a part of the text.** -/
theorem isInfix_of_mem_words {s x : String} (h : x ∈ words s) : x.toList <:+: s.toList := by
  obtain ⟨w, hw, rfl⟩ := List.mem_map.mp h
  rw [String.toList_ofList]
  exact isInfix_of_mem_wordsFrom hw

theorem wordsFrom_eq_nil_iff : wordsFrom word cs = [] ↔ word = [] ∧ cs.all isBlank = true := by
  induction cs generalizing word with
  | nil =>
    unfold wordsFrom
    split <;> simp_all
  | cons c cs ih =>
    rw [wordsFrom, List.all_cons, Bool.and_eq_true]
    cases hc : isBlank c <;> cases word <;> simp [ih]

theorem words_eq_nil_iff {s : String} : words s = [] ↔ isBlankText s = true := by
  unfold words
  rw [List.map_eq_nil_iff, wordsFrom_eq_nil_iff]
  exact and_iff_right rfl

end

/-! ## lines -/

/-- words with one space between them -/
def spaced (ws : List String) : String := " ".intercalate ws

theorem spaced_singleton (w : String) : spaced [w] = w := String.intercalate_singleton

theorem spaced_concat {ws : List String} (hws : ws ≠ []) (w : String) :
    spaced (ws ++ [w]) = spaced ws ++ " " ++ w := by
  unfold spaced
  rw [String.intercalate_append_of_ne_nil hws (List.cons_ne_nil _ _), String.intercalate_singleton]

theorem utf8ByteSize_spaced_concat {ws : List String} (hws : ws ≠ []) (w : String) :
    (spaced (ws ++ [w])).utf8ByteSize = (spaced ws).utf8ByteSize + 1 + w.utf8ByteSize := by
  rw [spaced_concat hws, String.utf8ByteSize_append, String.utf8ByteSize_append]
  rfl

/-- the words of a line and those of the next: the first word of the next did not fit -/
def Breaks (width : Nat) (line next : List String) : Prop :=
  ∀ w ∈ next.head?, width < (spaced line).utf8ByteSize + 1 + w.utf8ByteSize

/-- words cut into lines, each as long as it can be -/
structure Greedy (width : Nat) (cut : List (List String)) : Prop where
  filled : [] ∉ cut
  fits : ∀ line ∈ cut, 1 < line.length → (spaced line).utf8ByteSize ≤ width
  breaks : cut.IsChain (Breaks width)

section
variable {width : Nat} {line : List String} {cut : List (List String)}

theorem greedy_singleton (hline : line ≠ [])
    (hfits : 1 < line.length → (spaced line).utf8ByteSize ≤ width) : Greedy width [line] where
  filled := by
    rw [List.mem_singleton]
    exact hline.symm
  fits := by
    intro g hg
    rw [List.mem_singleton.mp hg]
    exact hfits
  breaks := List.IsChain.singleton _

/-- a line is put in front of lines whose first word it could not hold -/
theorem Greedy.cons (h : Greedy width cut) (hline : line ≠ [])
    (hfits : 1 < line.length → (spaced line).utf8ByteSize ≤ width)
    (hnext : ∀ w ∈ cut.flatten.head?, width < (spaced line).utf8ByteSize + 1 + w.utf8ByteSize) :
    Greedy width (line :: cut) where
  filled := by
    rw [List.mem_cons, not_or]
    exact ⟨hline.symm, h.filled⟩
  fits := List.forall_mem_cons.mpr ⟨hfits, h.fits⟩
  breaks := by
    cases cut with
    | nil => exact List.IsChain.singleton _
    | cons next rest =>
      refine List.isChain_cons_cons.mpr ⟨?_, h.breaks⟩
      intro w hw
      apply hnext
      rw [List.flatten_cons, List.head?_append, Option.mem_def.mp hw]
      rfl

/-- a word alone on its line may be longer than the width -/
theorem fits_alone (w : String) : 1 < [w].length → (spaced [w]).utf8ByteSize ≤ width :=
  fun h => absurd h (Nat.lt_irrefl 1)

theorem exists_cut_fillFrom (hline : line ≠ [])
    (hfits : 1 < line.length → (spaced line).utf8ByteSize ≤ width) (ws : List String) :
    ∃ cut, fillFrom width (spaced line) ws = cut.map spaced ∧ cut.flatten = line ++ ws ∧
      Greedy width cut := by
  -- the open line is the first group: the next word joins it, or closes it and opens another
  induction ws generalizing line with
  | nil =>
    refine ⟨[line], rfl, ?_, greedy_singleton hline hfits⟩
    rw [List.flatten_singleton, List.append_nil]
  | cons w ws ih =>
    unfold fillFrom
    split
    · rename_i hroom
      have hmore : line ++ [w] ≠ [] := List.append_ne_nil_of_left_ne_nil hline [w]
      have hsize : (spaced (line ++ [w])).utf8ByteSize ≤ width := by
        rw [utf8ByteSize_spaced_concat hline]
        exact hroom
      obtain ⟨cut, hlines, hflat, hgreedy⟩ := ih hmore fun _ => hsize
      refine ⟨cut, ?_, ?_, hgreedy⟩
      · rw [← spaced_concat hline]
        exact hlines
      · rw [hflat, List.append_assoc]
        rfl
    · rename_i hfull
      obtain ⟨cut, hlines, hflat, hgreedy⟩ := ih (List.cons_ne_nil w []) (fits_alone w)
      rw [spaced_singleton] at hlines
      have hnext : ∀ v ∈ cut.flatten.head?, width < (spaced line).utf8ByteSize + 1 + v.utf8ByteSize := by
        intro v hv
        rw [hflat] at hv
        cases hv
        omega
      refine ⟨line :: cut, ?_, ?_, hgreedy.cons hline hfits hnext⟩
      · rw [List.map_cons, hlines]
      · rw [List.flatten_cons, hflat]
        rfl

end

/-- **The lines are the words, cut into groups, each as long as it can be.** -/
theorem exists_cut_fill (width : Nat) (ws : List String) : ∃ cut,
    fill width ws = cut.map spaced ∧ cut.flatten = ws ∧ Greedy width cut := by
  cases ws with
  | nil => exact ⟨[], rfl, rfl, ⟨List.not_mem_nil, nofun, List.IsChain.nil⟩⟩
  | cons w ws =>
    obtain ⟨cut, hlines, hflat, hgreedy⟩ :=
      exists_cut_fillFrom (List.cons_ne_nil w []) (fits_alone w) ws
    rw [spaced_singleton] at hlines
    exact ⟨cut, hlines, hflat, hgreedy⟩

theorem exists_cut_wrap (width : Nat) (text : String) : ∃ cut : List (List String),
    wrap width text = cut.map spaced ∧ cut.flatten = words text ∧ [] ∉ cut := by
  obtain ⟨cut, hlines, hflat, hgreedy⟩ := exists_cut_fill width (words text)
  exact ⟨cut, hlines, hflat, hgreedy.filled⟩

theorem mem_intercalate {sep : String} {parts : List String} {c : Char}
    (h : c ∈ (sep.intercalate parts).toList) :
    c ∈ sep.toList ∨ ∃ s ∈ parts, c ∈ s.toList := by
  induction parts with
  | nil => exact absurd h (by simp)
  | cons s parts ih =>
    cases parts with
    | nil =>
      rw [String.intercalate_singleton] at h
      exact Or.inr ⟨s, List.mem_cons_self .., h⟩
    | cons t parts =>
      rw [String.intercalate_cons_cons, String.toList_append, String.toList_append,
        List.mem_append, List.mem_append] at h
      rcases h with (h | h) | h
      · exact Or.inr ⟨s, List.mem_cons_self .., h⟩
      · exact Or.inl h
      · rcases ih h with h | ⟨u, hu, h⟩
        · exact Or.inl h
        · exact Or.inr ⟨u, List.mem_cons_of_mem _ hu, h⟩

theorem not_mem_intercalate {sep : String} {parts : List String} {c : Char} (hsep : c ∉ sep.toList)
    (hparts : ∀ s ∈ parts, c ∉ s.toList) : c ∉ (sep.intercalate parts).toList := by
  intro h
  rcases mem_intercalate h with h | ⟨s, hs, h⟩
  · exact hsep h
  · exact hparts s hs h

/-- **A line holds no blank but the space.** -/
theorem mem_wrap_line {width : Nat} {text line : String} {c : Char}
    (hline : line ∈ wrap width text) (hc : c ∈ line.toList) : c = ' ' ∨ isBlank c = false := by
  obtain ⟨cut, hlines, hflat, -⟩ := exists_cut_wrap width text
  rw [hlines] at hline
  obtain ⟨group, hgroup, rfl⟩ := List.mem_map.mp hline
  rcases mem_intercalate hc with hc | ⟨w, hw, hc⟩
  · exact Or.inl (List.mem_singleton.mp hc)
  · have hmem : w ∈ words text := hflat ▸ List.mem_flatten.mpr ⟨group, hgroup, hw⟩
    exact Or.inr ((isWord_of_mem_words hmem).2 c hc)

end TypedVocabulary
