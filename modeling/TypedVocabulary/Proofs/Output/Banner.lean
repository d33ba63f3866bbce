import TypedVocabulary.Proofs.Output.Lines
import TypedVocabulary.Proofs.Text.Comments

/-!
# Comments of declarations

Declarations hold texts of others in comments: a header and the name of the namespace at their head,
documentation further down.  None of them closes the comment that it stands in:

* `Declarations.unclosed_of_mem_noteLines`   the comment at the head, but for its last line;
* `comments_close_once`                      every block of documentation, and the comment at the head.
-/

namespace TypedVocabulary

namespace Declarations
variable {d : Declarations} {rest : String}

/-- the comment at the head, without the blank line that follows it -/
def banner (d : Declarations) : String := unlines d.bannerLines.dropLast

theorem banner_eq (d : Declarations) : d.banner = unlines (d.noteLines ++ [" */"]) := by
  unfold banner
  rw [bannerLines_eq, List.dropLast_append_of_ne_nil (by simp)]
  rfl

theorem text_eq_banner (d : Declarations) : d.text = d.banner ++ "\n" ++ unlines d.bodyLines := by
  have hbanner : d.bannerLines = d.noteLines ++ [" */"] ++ [""] := by
    rw [bannerLines_eq, List.append_assoc]
    rfl
  unfold text
  rw [lines_eq, unlines_append, hbanner, unlines_append, ← banner_eq]
  rfl

theorem unclosed_noticeLine (d : Declarations) : Unclosed d.noticeLine.toList := by
  refine unclosed_between (by decide) (by decide) (by decide) (by decide) ?_
  rw [toList_withoutTerminators]
  exact unclosed_splitTerminators _

theorem unclosed_of_mem_headerLines {l : String} (h : l ∈ d.headerLines) : Unclosed l.toList := by
  obtain ⟨_, line, hline, rfl⟩ := exists_of_mem_headerLines h
  have hmargin : Unclosed [' ', '*'] := by decide
  rw [String.toList_append]
  exact (unclosed_append_cons (by decide)).mpr ⟨hmargin, unclosed_of_mem_commentText hline⟩

theorem unclosed_of_mem_noteLines {l : String} (h : l ∈ d.noteLines) : Unclosed l.toList := by
  rcases List.mem_append.mp h with h | h
  · rw [List.mem_cons, List.mem_cons, List.mem_singleton] at h
    rcases h with rfl | rfl | rfl
    · exact unclosed_ofList (by decide)
    · exact d.unclosed_noticeLine
    · exact unclosed_ofList (by decide)
  · exact unclosed_of_mem_headerLines h

/-- **The banner is closed by its last line only.** -/
theorem closesBefore_banner : ClosesBefore d.banner rest ↔ rest = "\n" := by
  have hclose : " */" = " " ++ "*/" := rfl
  rw [banner_eq, hclose]
  exact closesBefore_unlines (fun _ => unclosed_of_mem_noteLines) (by decide)

end Declarations

/-- **Comments are closed where they end.**  Under an indent of spaces a text has no comment block where it
is blank.  Otherwise every line of its block is indented, the first opens the block, the last closes it, and
nothing else in it does; so it is with the comment at the head of declarations, whatever the namespace is
called and the header says. -/
theorem comments_close_once (text indent : String) (hi : isIndent indent = true) :
    (commentBlock? text indent = none ↔ isBlankText text = true) ∧
    (∀ block, commentBlock? text indent = some block →
      (∀ rest, ClosesBefore block rest ↔ rest = "\n") ∧
      ∃ inner : List String, textLines block =
        (indent ++ "/**") :: inner.map (indent ++ " * " ++ ·) ++ [indent ++ " */"] ++ [""]) ∧
    ∀ d : Declarations,
      d.text = d.banner ++ "\n" ++ unlines d.bodyLines ∧
      (∃ inner, d.banner = unlines ("/**" :: inner ++ [" */"])) ∧
      ∀ rest, ClosesBefore d.banner rest ↔ rest = "\n" := by
  have hblock := commentBlock?_eq text indent
  have hblank : commentText text (commentWidth - indent.utf8ByteSize) = [] ↔
      isBlankText text = true := commentText_eq_nil_iff
  refine ⟨?_, fun block h => ?_, fun d => ⟨d.text_eq_banner, ⟨_, d.banner_eq⟩, fun rest => ?_⟩⟩
  · rw [hblock, ← hblank, ite_eq_left_iff]
    simp
  · rw [hblock] at h
    split at h
    · exact absurd h (Option.some_ne_none block).symm
    · rw [← Option.some.inj h]
      refine ⟨fun rest => ?_, commentText text (commentWidth - indent.utf8ByteSize), ?_⟩
      · exact closesBefore_blockAround hi fun _ => unclosed_of_mem_commentText
      · exact textLines_blockAround hi fun _ => oneLine_of_mem_wrap
  · exact Declarations.closesBefore_banner

/-- stars and slashes side by side, at a space and around a terminator -/
theorem comments_close_once_starred :
    isIndent "  " = true ∧
      commentBlock? "a **// b * /\n*/" "  " = some "  /**\n   * a **\\// b * / *\\/\n   */\n" ∧
      ∀ rest, ClosesBefore "  /**\n   * a **\\// b * / *\\/\n   */\n" rest ↔ rest = "\n" := by
  have hi : isIndent "  " = true := by decide
  have hblock : commentBlock? "a **// b * /\n*/" "  " =
      some "  /**\n   * a **\\// b * / *\\/\n   */\n" := by decide +kernel
  exact ⟨hi, hblock, ((comments_close_once _ _ hi).2.1 _ hblock).1⟩

end TypedVocabulary
