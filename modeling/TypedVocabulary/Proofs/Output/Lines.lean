import TypedVocabulary.Output.Declarations
import TypedVocabulary.Proofs.Text.CodeLines

/-!
# Lines of declarations

The text of declarations has a banner and a body.  Documentation shows in both, and in comment lines only:

* `Field.lines_eq`, `Interface.fieldLines_subset`   the line that declares a field;
* `Declarations.codeLines_withoutDocs`   taking the documentation out of declarations does not change
                                         the code lines of their text;
* `Declarations.codeLines_text`          these are the code lines of the banner, and the whole body of
                                         the declarations without documentation.

The second statement holds of all declarations.  For the third the names and types in them must not end
their lines.
-/

namespace TypedVocabulary

/-! ## fields -/

/-- the line that declares a field -/
def Field.line (f : Field) : String := "  " ++ quote f.key ++ "?: " ++ f.type.text ++ ";"

theorem Field.lines_eq (f : Field) : f.lines = blockLines f.comment "  " ++ [f.line] := rfl

/-- the lines of an interface that declare its fields -/
def Interface.fieldLines (i : Interface) : List String := i.fields.map Field.line

theorem Interface.fieldLines_subset (i : Interface) : i.fieldLines ⊆ i.lines := by
  intro l hl
  obtain ⟨f, hf, rfl⟩ := List.mem_map.mp hl
  have hline : f.line ∈ f.lines := by
    rw [f.lines_eq]
    exact List.mem_append_right _ (List.mem_singleton.mpr rfl)
  have hfields : f.line ∈ i.fields.flatMap Field.lines := List.mem_flatMap.mpr ⟨f, hf, hline⟩
  exact List.mem_append_left _ (List.mem_append_right _ hfields)

/-! ## without documentation -/

def Field.withoutDocs (f : Field) : Field := { f with comment := none }

def Interface.withoutDocs (i : Interface) : Interface :=
  { i with comment := none, fields := i.fields.map Field.withoutDocs }

def Declarations.withoutDocs (d : Declarations) : Declarations :=
  { d with header := none, interfaces := d.interfaces.map Interface.withoutDocs }

theorem codeLines_blockLines (comment : Option String) {indent : String}
    (hi : isIndent indent = true) : (blockLines comment indent).flatMap codeLines = [] := by
  cases comment with
  | none => rfl
  | some text =>
    rw [blockLines]
    exact codeLines_commentLines text hi

theorem Field.codeLines_lines (f : Field) : f.lines.flatMap codeLines = codeLines f.line := by
  rw [f.lines_eq, List.flatMap_append, codeLines_blockLines _ (by decide), List.flatMap_singleton,
    List.nil_append]

namespace Interface

theorem lines_withoutDocs (i : Interface) :
    i.withoutDocs.lines = [i.headLine, i.typeLine] ++ i.fieldLines ++ ["\x7d", ""] := by
  have hfields : (i.fields.map Field.withoutDocs).flatMap Field.lines = i.fieldLines := by
    rw [List.flatMap_map]
    exact List.map_eq_flatMap.symm
  show [] ++ [i.headLine, i.typeLine] ++ (i.fields.map Field.withoutDocs).flatMap Field.lines ++
    ["\x7d", ""] = _
  rw [hfields]
  rfl

theorem codeLines_withoutDocs (i : Interface) :
    i.withoutDocs.lines.flatMap codeLines = i.lines.flatMap codeLines := by
  have hfields : i.fieldLines.flatMap codeLines =
      (i.fields.flatMap Field.lines).flatMap codeLines := by
    unfold fieldLines
    rw [List.flatMap_map, List.flatMap_assoc]
    exact List.flatMap_congr fun f _ => f.codeLines_lines.symm
  have hblock : (blockLines i.comment "").flatMap codeLines = [] := codeLines_blockLines _ rfl
  rw [lines_withoutDocs, lines]
  simp only [List.flatMap_append, hfields, hblock, List.nil_append]

end Interface

namespace Declarations
variable {d : Declarations}

/-- the line of the banner that names the vocabulary -/
def noticeLine (d : Declarations) : String :=
  " * Generated by vocabc from the " ++ withoutTerminators d.namespaceIri ++ " vocabulary."

/-- the header as it stands in the banner -/
def headerLines (d : Declarations) : List String :=
  match d.header with
  | some header => (commentText header commentWidth).map (" * " ++ ·)
  | none => []

/-- the lines of the banner above the one that closes it -/
def noteLines (d : Declarations) : List String :=
  ["/**", d.noticeLine, " * Do not edit by hand."] ++ d.headerLines

theorem bannerLines_eq (d : Declarations) : d.bannerLines = d.noteLines ++ [" */", ""] := rfl

theorem exists_of_mem_headerLines {l : String} (h : l ∈ d.headerLines) :
    ∃ text, ∃ line ∈ commentText text commentWidth, l = " * " ++ line := by
  unfold headerLines at h
  split at h
  · obtain ⟨line, hline, rfl⟩ := List.mem_map.mp h
    exact ⟨_, line, hline, rfl⟩
  · exact absurd h List.not_mem_nil

/-- everything behind the banner -/
def bodyLines (d : Declarations) : List String :=
  d.baseLines ++ d.interfaces.flatMap Interface.lines ++ d.unionLines ++ d.typeMapLines ++
    d.tableLines

theorem lines_eq (d : Declarations) : d.lines = d.bannerLines ++ d.bodyLines := by
  unfold lines bodyLines
  simp only [List.append_assoc]

/-- the header stands in comment lines, and of the other lines only the one with the namespace may
be broken by what it names -/
theorem codeLines_bannerLines (d : Declarations) :
    d.bannerLines.flatMap codeLines = codeLines d.noticeLine ++ [""] := by
  have hheader : d.headerLines.flatMap codeLines = [] := by
    rw [List.flatMap_eq_nil_iff]
    intro l hl
    obtain ⟨_, line, hline, rfl⟩ := exists_of_mem_headerLines hl
    exact codeLines_comment rfl (by decide) (oneLine_of_mem_wrap hline)
  have hopen : codeLines "/**" = [] := codeLines_ofList (by decide)
  have hnotice : codeLines " * Do not edit by hand." = [] := codeLines_ofList (by decide)
  have hclose : codeLines " */" = [] := codeLines_ofList (by decide)
  have hempty : codeLines "" = [""] := codeLines_ofList (by decide)
  rw [bannerLines_eq, noteLines]
  simp only [List.flatMap_append, List.flatMap_cons, List.flatMap_nil, hopen, hnotice, hclose,
    hempty, hheader, List.nil_append, List.append_nil]

theorem codeLines_bodyLines (d : Declarations) :
    d.withoutDocs.bodyLines.flatMap codeLines = d.bodyLines.flatMap codeLines := by
  have hinterfaces : ((d.interfaces.map Interface.withoutDocs).flatMap
      Interface.lines).flatMap codeLines =
      (d.interfaces.flatMap Interface.lines).flatMap codeLines := by
    rw [List.flatMap_map, List.flatMap_assoc, List.flatMap_assoc]
    exact List.flatMap_congr fun i _ => i.codeLines_withoutDocs
  show (d.baseLines ++ (d.interfaces.map Interface.withoutDocs).flatMap Interface.lines ++
    d.unionLines ++ d.typeMapLines ++ d.tableLines).flatMap codeLines = _
  unfold bodyLines
  simp only [List.flatMap_append, hinterfaces]

theorem codeLines_text_eq (d : Declarations) : codeLines d.text =
    codeLines d.noticeLine ++ [""] ++ d.bodyLines.flatMap codeLines ++ [""] := by
  unfold text
  rw [codeLines_unlines, lines_eq, List.flatMap_append, codeLines_bannerLines]

/-- **Documentation has no code lines.** -/
theorem codeLines_withoutDocs (d : Declarations) :
    codeLines d.withoutDocs.text = codeLines d.text := by
  rw [codeLines_text_eq, codeLines_text_eq, codeLines_bodyLines]
  rfl

end Declarations

/-! ## lines of code only -/

/-- every line is one line, and no comment -/
def AllCode (ls : List String) : Prop := ∀ l ∈ ls, codeLines l = [l]

section
variable {ls ms : List String} {line : String}

theorem AllCode.flatMap_eq (h : AllCode ls) : ls.flatMap codeLines = ls := by
  rw [List.flatMap_congr h, List.flatMap_singleton']

theorem AllCode.append (hl : AllCode ls) (hm : AllCode ms) : AllCode (ls ++ ms) :=
  List.forall_mem_append.mpr ⟨hl, hm⟩

theorem AllCode.cons (hl : codeLines line = [line]) (hm : AllCode ms) : AllCode (line :: ms) :=
  List.forall_mem_cons.mpr ⟨hl, hm⟩

theorem AllCode.nil : AllCode [] := List.forall_mem_nil _

theorem AllCode.map {α : Type} {f : α → String} {as : List α}
    (h : ∀ a ∈ as, codeLines (f a) = [f a]) : AllCode (as.map f) :=
  List.forall_mem_map.mpr h

theorem AllCode.flatMap {α : Type} {f : α → List String} {as : List α}
    (h : ∀ a ∈ as, AllCode (f a)) : AllCode (as.flatMap f) := by
  intro l hl
  obtain ⟨a, ha, hl⟩ := List.mem_flatMap.mp hl
  exact h a ha l hl

end

/-- neither its names nor its types end their lines -/
structure Interface.Inline (i : Interface) : Prop where
  name : OneLine i.name
  supertypes : ∀ s ∈ i.supertypes, OneLine s
  types : ∀ f ∈ i.fields, OneLine f.type.text

/-- neither names nor types end their lines -/
structure Declarations.Inline (d : Declarations) : Prop where
  baseName : OneLine d.baseName
  interfaces : ∀ i ∈ d.interfaces, i.Inline
  identifiers : ∀ e ∈ d.identifiers, OneLine e.2

theorem allCode_close : AllCode ["\x7d", ""] :=
  .cons (codeLines_ofList (by decide)) (.cons (codeLines_ofList (by decide)) .nil)

theorem Interface.allCode_withoutDocs {i : Interface} (h : i.Inline) :
    AllCode i.withoutDocs.lines := by
  have hhead : codeLines i.headLine = [i.headLine] := by
    have hsup : OneLine (", ".intercalate i.supertypes) := .intercalate (by decide) h.supertypes
    unfold headLine
    simp only [String.append_assoc]
    exact codeLines_code rfl (by decide)
      (h.name.append (.append (by decide) (hsup.append (by decide))))
  have htype : codeLines i.typeLine = [i.typeLine] := by
    unfold typeLine
    rw [String.append_assoc]
    exact codeLines_code rfl (by decide) ((oneLine_quote _).append (by decide))
  have hfields : AllCode i.fieldLines := .map fun f hf => by
    unfold Field.line
    rw [String.append_assoc, String.append_assoc]
    exact codeLines_quoted rfl f.key (.append (by decide) ((h.types f hf).append (by decide)))
  rw [lines_withoutDocs]
  exact ((AllCode.cons hhead (.cons htype .nil)).append hfields).append allCode_close

namespace Declarations
variable {d : Declarations}

theorem allCode_baseLines (h : OneLine d.baseName) : AllCode d.baseLines := by
  have hhead : codeLines ("export interface " ++ d.baseName ++ " \x7b") =
      ["export interface " ++ d.baseName ++ " \x7b"] := by
    rw [String.append_assoc]
    exact codeLines_code rfl (by decide) (h.append (by decide))
  have hkeys : AllCode ["  \"@context\"?: string | Record<string, unknown> | " ++
      "Array<string | Record<string, unknown>>;", "  \"@type\"?: string;",
      "  \"@id\"?: string;"] := by
    refine .cons (codeLines_code rfl (by decide) (oneLine_ofList (by decide))) ?_
    exact .cons (codeLines_ofList (by decide)) (.cons (codeLines_ofList (by decide)) .nil)
  exact .cons hhead (hkeys.append allCode_close)

theorem allCode_unionMembers (names : List String) : AllCode (unionMembers names) := by
  have hmember : ∀ name, codeLines ("  | " ++ quote name) = ["  | " ++ quote name] := fun name =>
    codeLines_code rfl (by decide) (oneLine_quote name)
  induction names with
  | nil => exact .nil
  | cons name names ih =>
    cases names with
    | nil =>
      refine .cons ?_ .nil
      rw [String.append_assoc]
      exact codeLines_code rfl (by decide) ((oneLine_quote name).append (by decide))
    | cons => exact .cons (hmember name) ih

theorem allCode_unionLines (d : Declarations) : AllCode d.unionLines := by
  have hname : OneLine classNameUnion := oneLine_ofList (by decide)
  have hhead : ∀ rest : String, OneLine rest →
      codeLines ("export type " ++ classNameUnion ++ rest) =
        ["export type " ++ classNameUnion ++ rest] := by
    intro rest hrest
    rw [String.append_assoc]
    exact codeLines_code rfl (by decide) (hname.append hrest)
  have hend : AllCode [""] := .cons (codeLines_ofList (by decide)) .nil
  unfold unionLines
  split
  · exact .append (.cons (hhead _ (by decide)) .nil) hend
  · exact .append (.cons (hhead _ (by decide)) (allCode_unionMembers _)) hend

theorem allCode_typeMapLines (h : ∀ e ∈ d.identifiers, OneLine e.2) : AllCode d.typeMapLines := by
  have hhead : AllCode ["export interface " ++ classTypeMap ++ " \x7b"] := by
    refine .cons ?_ .nil
    rw [String.append_assoc]
    exact codeLines_code rfl (by decide) (.append (oneLine_ofList (by decide)) (by decide))
  refine .append (.append hhead (.map fun e he => ?_)) allCode_close
  rw [String.append_assoc, String.append_assoc]
  exact codeLines_quoted rfl e.1 (.append (by decide) ((h e he).append (by decide)))

theorem codeLines_tableHead {rest : String} (h : OneLine rest) :
    codeLines (tableHead ++ rest) = [tableHead ++ rest] := by
  have hname : OneLine classNameUnion := oneLine_ofList (by decide)
  have htable : OneLine classIdentifierTable := oneLine_ofList (by decide)
  unfold tableHead
  simp only [String.append_assoc]
  exact codeLines_code rfl (by decide) (htable.append (.append (oneLine_ofList (by decide))
    (hname.append (.append (by decide) h))))

theorem allCode_tableLines (d : Declarations) : AllCode d.tableLines := by
  have hclose : AllCode ["\x7d;"] := .cons (codeLines_ofList (by decide)) .nil
  unfold tableLines
  split
  · exact .cons (codeLines_tableHead (by decide)) .nil
  · refine .append (.append (.cons (codeLines_tableHead (by decide)) .nil)
      (.map fun e _ => ?_)) hclose
    rw [String.append_assoc, String.append_assoc]
    exact codeLines_quoted rfl e.1 (.append (by decide) ((oneLine_quote e.2).append (by decide)))

/-- **What is left of a text is its body without documentation**, and of its banner the name of the
vocabulary where that is broken into lines. -/
theorem codeLines_text (h : d.Inline) : codeLines d.text =
    codeLines d.noticeLine ++ [""] ++ d.withoutDocs.bodyLines ++ [""] := by
  have hinterfaces : AllCode (d.withoutDocs.interfaces.flatMap Interface.lines) := by
    refine .flatMap fun i hi => ?_
    obtain ⟨j, hj, rfl⟩ := List.mem_map.mp hi
    exact Interface.allCode_withoutDocs (h.interfaces j hj)
  have hbody : AllCode d.withoutDocs.bodyLines :=
    ((((allCode_baseLines h.baseName).append hinterfaces).append (allCode_unionLines _)).append
      (allCode_typeMapLines h.identifiers)).append (allCode_tableLines _)
  rw [codeLines_text_eq, ← codeLines_bodyLines, hbody.flatMap_eq]

end Declarations

end TypedVocabulary
