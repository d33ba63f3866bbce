import Mathlib.Data.List.Chain
import TypedVocabulary.Proofs.Text.Parts
import TypedVocabulary.Proofs.Text.Wrapping

/-!
# Lines filled greedily

Wrapping a text said of its lines alone: they hold the words of the text in order, and no line could take
the first word of the next.  The words of a line can be read back from it, so the lines of a wrapped text
and the greedy cuts of its words are the same thing:

* `words_eq`         the words of a text are its parts between blanks, without the empty ones;
* `words_spaced`     words with one space between them are read back;
* `fill_flatten`     words are laid on the lines of any greedy cut of them, so there is one such cut;
* `wrap_greedy`      the lines of a wrapped text are told by four properties of theirs.
-/

namespace TypedVocabulary

/-! ## words read back -/

theorem wordsFrom_eq (word cs : List Char) : wordsFrom word cs =
    ((cs.splitOnP isBlank).modifyHead (word.reverse ++ ·)).filter (· ≠ []) := by
  have hkeep : ∀ l : List (List Char), l.modifyHead (fun cs => [] ++ cs) = l := by
    intro l
    cases l <;> rfl
  induction cs generalizing word with
  | nil =>
    rw [List.splitOnP_nil]
    cases word <;> simp [wordsFrom]
  | cons c cs ih =>
    rw [wordsFrom, List.splitOnP_cons_eq_if_modifyHead, ih, ih, List.reverse_nil, hkeep]
    by_cases hc : isBlank c = true
    · rw [if_pos hc, if_pos hc]
      cases word <;> simp
    · rw [if_neg hc, if_neg hc, List.modifyHead_modifyHead]
      have happend : (fun cs => (c :: word).reverse ++ cs) =
          (fun cs => word.reverse ++ cs) ∘ List.cons c := by
        funext cs
        simp
      rw [happend]

/-- **The words of a text are its parts between blanks, without the empty ones.** -/
theorem words_eq (s : String) :
    words s = ((s.toList.splitOnP isBlank).filter (· ≠ [])).map String.ofList := by
  unfold words
  rw [wordsFrom_eq]
  cases s.toList.splitOnP isBlank <;> rfl

/-- **Words with one space between them are read back.** -/
theorem words_spaced {ws : List String} (h : ∀ w ∈ ws, IsWord w.toList) : words (spaced ws) = ws := by
  have hspace : Separates isBlank " " := ⟨by decide, by decide⟩
  rw [words_eq]
  exact parts_intercalate hspace h

theorem map_words_spaced {cut : List (List String)} (h : ∀ w ∈ cut.flatten, IsWord w.toList) :
    (cut.map spaced).map words = cut := by
  rw [List.map_map]
  refine (List.map_congr_left fun line hline => ?_).trans (List.map_id _)
  exact words_spaced fun w hw => h w (List.mem_flatten.mpr ⟨line, hline, hw⟩)

/-! ## one greedy cut -/

section
variable {width : Nat} {line more : List String} {cut rest : List (List String)}

theorem utf8ByteSize_spaced_le (line more : List String) :
    (spaced line).utf8ByteSize ≤ (spaced (line ++ more)).utf8ByteSize := by
  cases line with
  | nil => exact Nat.zero_le _
  | cons w ws =>
    cases more with
    | nil => rw [List.append_nil]
    | cons v vs =>
      have hsplit : spaced (w :: ws ++ v :: vs) = spaced (w :: ws) ++ " " ++ spaced (v :: vs) :=
        String.intercalate_append_of_ne_nil (List.cons_ne_nil w ws) (List.cons_ne_nil v vs)
      rw [hsplit, String.utf8ByteSize_append, String.utf8ByteSize_append]
      omega

theorem Greedy.tail (h : Greedy width (line :: cut)) : Greedy width cut where
  filled := fun hmem => h.filled (List.mem_cons_of_mem _ hmem)
  fits := fun l hl => h.fits l (List.mem_cons_of_mem _ hl)
  breaks := h.breaks.tail

theorem fillFrom_append (hline : line ≠ [])
    (hfits : 1 < (line ++ more).length → (spaced (line ++ more)).utf8ByteSize ≤ width)
    (ws : List String) :
    fillFrom width (spaced line) (more ++ ws) = fillFrom width (spaced (line ++ more)) ws := by
  induction more generalizing line with
  | nil => rw [List.append_nil, List.nil_append]
  | cons w more ih =>
    have hmore : line ++ w :: more = line ++ [w] ++ more := List.append_cons line w more
    have hlong : 1 < (line ++ w :: more).length := by
      have hpos := List.length_pos_iff.mpr hline
      rw [List.length_append, List.length_cons]
      omega
    have hroom : (spaced line).utf8ByteSize + 1 + w.utf8ByteSize ≤ width := by
      rw [← utf8ByteSize_spaced_concat hline]
      apply Nat.le_trans (utf8ByteSize_spaced_le (line ++ [w]) more)
      rw [← hmore]
      exact hfits hlong
    have hopen : line ++ [w] ≠ [] := List.append_ne_nil_of_left_ne_nil hline [w]
    rw [List.cons_append, fillFrom, if_pos hroom, ← spaced_concat hline, hmore]
    rw [hmore] at hfits
    exact ih hopen hfits

theorem fillFrom_flatten (hline : line ≠ []) (h : Greedy width ((line ++ more) :: rest)) :
    fillFrom width (spaced line) (more ++ rest.flatten) =
      spaced (line ++ more) :: rest.map spaced := by
  have hfits := h.fits _ (List.mem_cons_self ..)
  rw [fillFrom_append hline hfits]
  -- each further line opens with a word that the line in front of it could not hold
  induction rest generalizing line more with
  | nil => rfl
  | cons next rest ih =>
    have hrest : Greedy width (next :: rest) := h.tail
    cases next with
    | nil => exact absurd (List.mem_cons_self ..) hrest.filled
    | cons w ws =>
      have hfull : width < (spaced (line ++ more)).utf8ByteSize + 1 + w.utf8ByteSize :=
        (List.isChain_cons_cons.mp h.breaks).1 w rfl
      have hnext := hrest.fits _ (List.mem_cons_self ..)
      have hopen : [w] ≠ [] := List.cons_ne_nil w []
      rw [List.flatten_cons, List.cons_append, fillFrom, if_neg (by omega), ← spaced_singleton w,
        fillFrom_append hopen hnext, ih hopen hrest hnext]
      rfl

/-- **Words are laid on the lines of any greedy cut of them.** -/
theorem fill_flatten (h : Greedy width cut) : fill width cut.flatten = cut.map spaced := by
  cases cut with
  | nil => rfl
  | cons line rest =>
    cases line with
    | nil => exact absurd (List.mem_cons_self ..) h.filled
    | cons w ws =>
      have hflat := fillFrom_flatten (List.cons_ne_nil w []) h
      rw [spaced_singleton] at hflat
      exact hflat

end

/-! ## wrapped texts -/

/-- a greedy cut, told by the lines that its words are read back from -/
theorem greedy_map_words_iff {width : Nat} {lines : List String}
    (hspaced : ∀ line ∈ lines, line = spaced (words line)) :
    Greedy width (lines.map words) ↔
      (∀ line ∈ lines, words line ≠ []) ∧
      (∀ line ∈ lines, 1 < (words line).length → line.utf8ByteSize ≤ width) ∧
      lines.IsChain fun line next => ∀ w ∈ (words next).head?,
        width < line.utf8ByteSize + 1 + w.utf8ByteSize := by
  have hfilled : [] ∉ lines.map words ↔ ∀ line ∈ lines, words line ≠ [] := by
    simp
  have hfits : (∀ g ∈ lines.map words, 1 < g.length → (spaced g).utf8ByteSize ≤ width) ↔
      ∀ line ∈ lines, 1 < (words line).length → line.utf8ByteSize ≤ width := by
    rw [List.forall_mem_map]
    refine forall₂_congr fun line hline => ?_
    rw [← hspaced line hline]
  have hbreaks : (lines.map words).IsChain (Breaks width) ↔
      lines.IsChain fun line next => ∀ w ∈ (words next).head?,
        width < line.utf8ByteSize + 1 + w.utf8ByteSize := by
    rw [List.isChain_map]
    apply List.IsChain.iff_of_mem_imp
    intro line next hline _
    unfold Breaks
    rw [← hspaced line hline]
  rw [← hfilled, ← hfits, ← hbreaks]
  exact ⟨fun h => ⟨h.filled, h.fits, h.breaks⟩, fun h => ⟨h.1, h.2.1, h.2.2⟩⟩

/-- **Wrapping loses nothing, and breaks a line only where it has to.**  The words of a text are its parts
between blanks.  Lines are what wrapping makes of the text exactly if they hold its words in order, each
line is one word or more with one space between them, a line of more than one word is no longer than the
width, and a line, a space and the first word of the next line are longer. -/
theorem wrap_greedy (width : Nat) (text : String) (lines : List String) :
    (∀ s, words s = ((s.toList.splitOnP isBlank).filter (· ≠ [])).map String.ofList) ∧
    (wrap width text = lines ↔
      lines.flatMap words = words text ∧
      (∀ line ∈ lines, words line ≠ [] ∧ line = " ".intercalate (words line)) ∧
      (∀ line ∈ lines, 1 < (words line).length → line.utf8ByteSize ≤ width) ∧
      lines.IsChain fun line next => ∀ w ∈ (words next).head?,
        width < line.utf8ByteSize + 1 + w.utf8ByteSize) := by
  refine ⟨words_eq, fun h => ?_, fun ⟨hwords, hlines, hfits, hbreaks⟩ => ?_⟩
  · obtain ⟨cut, hcut, hflat, hgreedy⟩ := exists_cut_fill width (words text)
    have hcut : lines = cut.map spaced := h.symm.trans hcut
    have hread : lines.map words = cut := by
      rw [hcut]
      apply map_words_spaced
      rw [hflat]
      exact fun w => isWord_of_mem_words
    have hspaced : ∀ line ∈ lines, line = spaced (words line) := by
      rw [← hread, List.map_map] at hcut
      exact List.map_inj_left.mp ((List.map_id lines).trans hcut)
    rw [← hread] at hflat hgreedy
    obtain ⟨hfilled, hfits, hbreaks⟩ := (greedy_map_words_iff hspaced).mp hgreedy
    exact ⟨hflat, fun line hline => ⟨hfilled line hline, hspaced line hline⟩, hfits, hbreaks⟩
  · have hspaced : ∀ line ∈ lines, line = spaced (words line) := fun line hline => (hlines line hline).2
    have hgreedy : Greedy width (lines.map words) := (greedy_map_words_iff hspaced).mpr
      ⟨fun line hline => (hlines line hline).1, hfits, hbreaks⟩
    have hfill := fill_flatten hgreedy
    rw [← List.flatMap_def, hwords, List.map_map] at hfill
    refine hfill.trans ?_
    exact (List.map_congr_left fun line hline => (hspaced line hline).symm).trans (List.map_id _)

end TypedVocabulary
