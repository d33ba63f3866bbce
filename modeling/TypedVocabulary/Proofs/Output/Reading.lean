import Mathlib.Data.List.Basic
import TypedVocabulary.Output.Declarations
import TypedVocabulary.Proofs.Identifier.Candidates

/-!
# Names read off lines

What an output declares can be seen in its lines.  A line that opens a declaration begins with one of
three heads and goes on with the name.

* `declaredName?_open`             a line that opens a declaration shows its name;
* `Quiet.filterMap_eq`             lines that do not begin with a head show nothing;
* `Declarations.declaredNames_eq`  what is declared in an output.
-/

namespace TypedVocabulary

/-! ## declared names -/

/-- a character that no identifier holds -/
def isBreak (c : Char) : Bool := !isIdentifierChar c

/-- what the lines that open a declaration begin with -/
def declarationHeads : List String := ["export interface ", "export type ", "export const "]

/-- the name that a line declares, if it opens a declaration -/
def declaredName? (line : String) : Option String :=
  (declarationHeads.findSome? fun head => head.toList.isPrefixOf? line.toList).map fun rest =>
    String.ofList (rest.takeWhile isIdentifierChar)

theorem takeWhile_name {name : String} (hname : isIdentifier name = true) {rest : List Char}
    (hrest : rest.head?.all isBreak = true) :
    String.ofList ((name.toList ++ rest).takeWhile isIdentifierChar) = name := by
  have hall := List.all_eq_true.mp (isIdentifier_chars hname).2
  rw [List.takeWhile_append_of_pos hall]
  cases rest with
  | nil => simp
  | cons c rest =>
    have hc : isIdentifierChar c = false := by simpa [isBreak] using hrest
    rw [List.takeWhile_cons_of_neg (by simp [hc]), List.append_nil, String.ofList_toList]

/-- **A line that opens a declaration shows its name.** -/
theorem declaredName?_open {head name rest : String} (hhead : head ∈ declarationHeads)
    (hname : isIdentifier name = true) (hrest : rest.toList.head?.all isBreak = true) :
    declaredName? (head ++ name ++ rest) = some name := by
  have h : ∀ s, declarationHeads.findSome?
      (fun h => h.toList.isPrefixOf? (head.toList ++ s)) = some s := by
    intro s
    simp only [declarationHeads, List.mem_cons, List.not_mem_nil, or_false] at hhead
    rcases hhead with rfl | rfl | rfl <;> rfl
  unfold declaredName?
  rw [String.toList_append, String.toList_append, List.append_assoc, h, Option.map_some,
    takeWhile_name hname hrest]

/-! ## lines that declare nothing -/

/-- none of the lines begins as a head does -/
def Quiet (lines : List String) : Prop := ∀ l ∈ lines, l.toList.head? ≠ some 'e'

section
variable {ls ms : List String} {line : String}

theorem declaredName?_of_head (h : line.toList.head? ≠ some 'e') : declaredName? line = none := by
  have hnone : ∀ cs, ('e' :: cs).isPrefixOf? line.toList = none := by
    intro cs
    cases hl : line.toList with
    | nil => rfl
    | cons c rest =>
      have hc : ('e' == c) = false := beq_eq_false_iff_ne.mpr fun e => h (by rw [hl, ← e]; rfl)
      rw [List.isPrefixOf?, hc]
      rfl
  unfold declaredName?
  rw [Option.map_eq_none_iff, List.findSome?_eq_none_iff]
  intro head hhead
  simp only [declarationHeads, List.mem_cons, List.not_mem_nil, or_false] at hhead
  rcases hhead with rfl | rfl | rfl <;> exact hnone _

theorem Quiet.filterMap_eq (h : Quiet ls) : ls.filterMap declaredName? = [] := by
  rw [List.filterMap_eq_nil_iff]
  exact fun l hl => declaredName?_of_head (h l hl)

theorem Quiet.append (hl : Quiet ls) (hm : Quiet ms) : Quiet (ls ++ ms) :=
  List.forall_mem_append.mpr ⟨hl, hm⟩

theorem Quiet.cons (hl : line.toList.head? ≠ some 'e') (hm : Quiet ms) : Quiet (line :: ms) :=
  List.forall_mem_cons.mpr ⟨hl, hm⟩

theorem Quiet.nil : Quiet [] := List.forall_mem_nil _

/-- what a line begins with decides -/
theorem head_of_front {front : String} (h : front.toList.head?.any (· ≠ 'e') = true) (s : String) :
    (front ++ s).toList.head? ≠ some 'e' := by
  rw [String.toList_append, List.head?_append]
  cases hf : front.toList.head? with
  | none => rw [hf] at h; cases h
  | some c =>
    rw [hf] at h
    rw [Option.some_or]
    exact fun e => by simp_all

theorem quiet_map {α : Type} {f : α → String} {as : List α}
    (h : ∀ a, (f a).toList.head? ≠ some 'e') : Quiet (as.map f) :=
  List.forall_mem_map.mpr fun a _ => h a

theorem quiet_blockLines (comment : Option String) {indent : String}
    (hi : indent = "" ∨ indent = "  ") : Quiet (blockLines comment indent) := by
  cases comment with
  | none => exact .nil
  | some text =>
    rw [blockLines, commentLines]
    split
    · exact .nil
    · rcases hi with rfl | rfl
      · exact (Quiet.cons (by decide) (quiet_map fun _ => head_of_front rfl _)).append
          (.cons (by decide) .nil)
      · exact (Quiet.cons (by decide) (quiet_map fun _ => head_of_front rfl _)).append
          (.cons (by decide) .nil)

theorem quiet_close : Quiet ["\x7d", ""] := .cons (by decide) (.cons (by decide) .nil)

theorem Field.quiet_lines (f : Field) : Quiet f.lines := by
  have hline : ("  " ++ quote f.key ++ "?: " ++ f.type.text ++ ";").toList.head? ≠ some 'e' := by
    simp only [String.append_assoc]
    exact head_of_front rfl _
  exact (quiet_blockLines f.comment (Or.inr rfl)).append (.cons hline .nil)

end

/-! ## what the lines declare -/

namespace Interface
variable {i : Interface}

/-- what stands behind the line that opens an interface -/
def innerLines (i : Interface) : List String :=
  i.typeLine :: (i.fields.flatMap Field.lines ++ ["\x7d", ""])

theorem lines_eq (i : Interface) :
    i.lines = blockLines i.comment "" ++ i.headLine :: i.innerLines := by
  unfold lines innerLines
  simp only [List.append_assoc, List.cons_append, List.nil_append]

theorem declaredName?_headLine (hname : isIdentifier i.name = true) :
    declaredName? i.headLine = some i.name := by
  unfold headLine
  rw [String.append_assoc, String.append_assoc]
  refine declaredName?_open (by decide) hname ?_
  rw [String.toList_append]
  rfl

theorem quiet_innerLines (i : Interface) : Quiet i.innerLines := by
  have hfields : Quiet (i.fields.flatMap Field.lines) := by
    intro l hl
    obtain ⟨f, _, hf⟩ := List.mem_flatMap.mp hl
    exact f.quiet_lines l hf
  refine .cons ?_ (hfields.append quiet_close)
  unfold typeLine
  rw [String.append_assoc]
  exact head_of_front rfl _

/-- an interface declares its name and nothing else -/
theorem declared_lines (hname : isIdentifier i.name = true) :
    i.lines.filterMap declaredName? = [i.name] := by
  have hblock : Quiet (blockLines i.comment "") := quiet_blockLines i.comment (Or.inl rfl)
  rw [lines_eq, List.filterMap_append, hblock.filterMap_eq, List.filterMap_cons,
    declaredName?_headLine hname, i.quiet_innerLines.filterMap_eq]
  rfl

end Interface

namespace Declarations
variable {d : Declarations}

/-- the names that the lines declare, in the order of their declarations -/
def declaredNames (d : Declarations) : List String := d.lines.filterMap declaredName?

/-- the base interface and the interfaces of the classes -/
def interfaceNames (d : Declarations) : List String := d.baseName :: d.interfaces.map Interface.name

theorem quiet_bannerLines (d : Declarations) : Quiet d.bannerLines := by
  have hnotice : (" * Generated by vocabc from the " ++ withoutTerminators d.namespaceIri ++
      " vocabulary.").toList.head? ≠ some 'e' := by
    rw [String.append_assoc]
    exact head_of_front rfl _
  have hopen : Quiet ["/**", " * Generated by vocabc from the " ++
      withoutTerminators d.namespaceIri ++ " vocabulary.", " * Do not edit by hand."] :=
    .cons (by decide) (.cons hnotice (.cons (by decide) .nil))
  have hclose : Quiet [" */", ""] := .cons (by decide) (.cons (by decide) .nil)
  unfold bannerLines
  refine (hopen.append ?_).append hclose
  split
  · exact quiet_map fun _ => head_of_front rfl _
  · exact .nil

/-- the keys that every node may have, and the end of their interface -/
theorem quiet_baseKeys : Quiet ["  \"@context\"?: string | Record<string, unknown> | " ++
    "Array<string | Record<string, unknown>>;",
    "  \"@type\"?: string;", "  \"@id\"?: string;", "\x7d", ""] := by
  refine .cons (head_of_front rfl _) (.cons ?_ (.cons ?_ (.cons ?_ (.cons ?_ .nil)))) <;> decide

theorem declared_baseLines (hbase : isIdentifier d.baseName = true) :
    d.baseLines.filterMap declaredName? = [d.baseName] := by
  have hhead : declaredName? ("export interface " ++ d.baseName ++ " \x7b") = some d.baseName :=
    declaredName?_open (by decide) hbase (by decide)
  unfold baseLines
  rw [List.filterMap_cons, hhead, quiet_baseKeys.filterMap_eq]

theorem quiet_unionMembers (names : List String) : Quiet (unionMembers names) := by
  induction names with
  | nil => exact .nil
  | cons name names ih =>
    cases names with
    | nil =>
      refine .cons ?_ .nil
      rw [String.append_assoc]
      exact head_of_front rfl _
    | cons => exact .cons (head_of_front rfl _) ih

/-- the line that opens the union -/
def unionHead (d : Declarations) : String :=
  "export type " ++ classNameUnion ++ if d.classNames = [] then " = never;" else " ="

theorem unionLines_eq (d : Declarations) :
    d.unionLines = d.unionHead :: (unionMembers d.classNames ++ [""]) := by
  unfold unionLines unionHead
  cases d.classNames with
  | nil => rfl
  | cons => rw [if_neg (List.cons_ne_nil _ _)]; rfl

theorem declaredName?_unionHead (d : Declarations) :
    declaredName? d.unionHead = some classNameUnion := by
  unfold unionHead
  refine declaredName?_open (by decide) (by decide) ?_
  split <;> decide

theorem declared_unionLines : d.unionLines.filterMap declaredName? = [classNameUnion] := by
  have hend : Quiet [""] := .cons (by decide) .nil
  rw [unionLines_eq, List.filterMap_cons, declaredName?_unionHead,
    ((quiet_unionMembers _).append hend).filterMap_eq]

theorem quiet_typeEntries (es : List (String × String)) :
    Quiet (es.map fun e => "  " ++ quote e.1 ++ ": " ++ e.2 ++ ";") := by
  refine quiet_map fun e => ?_
  simp only [String.append_assoc]
  exact head_of_front rfl _

theorem quiet_identifierEntries (es : List (String × String)) :
    Quiet (es.map fun e => "  " ++ quote e.1 ++ ": " ++ quote e.2 ++ ",") := by
  refine quiet_map fun e => ?_
  simp only [String.append_assoc]
  exact head_of_front rfl _

/-- the entries of the types, and the end of their interface -/
def typeMapBody (d : Declarations) : List String :=
  d.identifiers.map (fun e => "  " ++ quote e.1 ++ ": " ++ e.2 ++ ";") ++ ["\x7d"]

theorem typeMapLines_eq (d : Declarations) : d.typeMapLines =
    ("export interface " ++ classTypeMap ++ " \x7b") :: (d.typeMapBody ++ [""]) := by
  unfold typeMapLines typeMapBody
  simp only [List.append_assoc, List.cons_append, List.nil_append]

theorem declaredName?_typeMapHead :
    declaredName? ("export interface " ++ classTypeMap ++ " \x7b") = some classTypeMap :=
  declaredName?_open (by decide) (by decide) (by decide)

theorem quiet_typeMapBody (d : Declarations) : Quiet (d.typeMapBody ++ [""]) := by
  unfold typeMapBody
  rw [List.append_assoc]
  exact (quiet_typeEntries _).append quiet_close

theorem declared_typeMapLines : d.typeMapLines.filterMap declaredName? = [classTypeMap] := by
  rw [typeMapLines_eq, List.filterMap_cons, declaredName?_typeMapHead,
    d.quiet_typeMapBody.filterMap_eq]

/-- the entries of the identifiers, and the end of their table, where there are any -/
def tableBody (d : Declarations) : List String :=
  match d.identifiers with
  | [] => []
  | es => es.map (fun e => "  " ++ quote e.1 ++ ": " ++ quote e.2 ++ ",") ++ ["\x7d;"]

theorem tableLines_eq (d : Declarations) :
    ∃ rest, d.tableLines = (tableHead ++ rest) :: d.tableBody := by
  unfold tableLines tableBody
  cases d.identifiers with
  | nil => exact ⟨" \x7b\x7d;", rfl⟩
  | cons => exact ⟨" \x7b", rfl⟩

theorem declaredName?_tableHead (rest : String) :
    declaredName? (tableHead ++ rest) = some classIdentifierTable := by
  unfold tableHead
  simp only [String.append_assoc]
  rw [← String.append_assoc]
  refine declaredName?_open (by decide) (by decide) ?_
  rw [String.toList_append]
  rfl

theorem quiet_tableBody (d : Declarations) : Quiet d.tableBody := by
  unfold tableBody
  split
  · exact .nil
  · exact (quiet_identifierEntries _).append (.cons (by decide) .nil)

theorem declared_tableLines : d.tableLines.filterMap declaredName? = [classIdentifierTable] := by
  obtain ⟨rest, hlines⟩ := d.tableLines_eq
  rw [hlines, List.filterMap_cons, declaredName?_tableHead, d.quiet_tableBody.filterMap_eq]

/-- everything in front of the tables -/
def interfaceLines (d : Declarations) : List String :=
  d.bannerLines ++ d.baseLines ++ d.interfaces.flatMap Interface.lines

theorem declared_interfaceLines (hbase : isIdentifier d.baseName = true)
    (hnames : ∀ i ∈ d.interfaces, isIdentifier i.name = true) :
    d.interfaceLines.filterMap declaredName? = d.interfaceNames := by
  have hi : (d.interfaces.flatMap Interface.lines).filterMap declaredName? =
      d.interfaces.map Interface.name := by
    rw [List.filterMap_flatMap, List.map_eq_flatMap]
    exact List.flatMap_congr fun i hi => Interface.declared_lines (hnames i hi)
  unfold interfaceLines interfaceNames
  rw [List.filterMap_append, List.filterMap_append, (quiet_bannerLines d).filterMap_eq,
    declared_baseLines hbase, hi]
  rfl

/-- **What the lines declare: the interfaces and the three tables.** -/
theorem declaredNames_eq (hbase : isIdentifier d.baseName = true)
    (hnames : ∀ i ∈ d.interfaces, isIdentifier i.name = true) :
    d.declaredNames = d.interfaceNames ++ [classNameUnion, classTypeMap, classIdentifierTable] := by
  show (d.interfaceLines ++ d.unionLines ++ d.typeMapLines ++ d.tableLines).filterMap _ = _
  simp only [List.filterMap_append, declared_interfaceLines hbase hnames, declared_unionLines,
    declared_typeMapLines, declared_tableLines, List.append_assoc]
  rfl

end Declarations

end TypedVocabulary
