import Mathlib.Data.List.Basic
import TypedVocabulary.Proofs.Output.Keys
import TypedVocabulary.Proofs.Text.Parts

/-!
# Types read off lines

A type ends its line: it stands behind the key of a field or of an entry, up to a semicolon, or it is the
list of supertypes behind the name of an interface.  The names in it are the longest runs of characters
that identifiers hold, outside of literals.

* `typeNames_intercalate`, `FieldType.typeNames_text`   the names in a list and in the type of a field;
* `typeNames_quote`                a literal shows none, whatever it holds;
* `Interface.typesIn_lines`        the types of an interface, in the order of its lines;
* `Declarations.exists_lines_eq`   all types of an output besides that of the context.
-/

namespace TypedVocabulary

/-! ## names in a type -/

/-- a text without its literals, read from a place inside of one or outside; their quotes stay -/
def unquoted : Bool → List Char → List Char
  | _, [] => []
  | false, '"' :: s => '"' :: unquoted true s
  | false, c :: s => c :: unquoted false s
  | true, '"' :: s => '"' :: unquoted false s
  | true, '\\' :: _ :: s => unquoted true s
  | true, _ :: s => unquoted true s

/-- the longest runs of characters of identifiers in a text, outside of its literals -/
def typeNames (text : String) : List String :=
  parts isBreak (String.ofList (unquoted false text.toList))

/-- a text without quotes -/
def Unquoted (s : String) : Prop := '"' ∉ s.toList

instance (s : String) : Decidable (Unquoted s) := inferInstanceAs (Decidable ('"' ∉ s.toList))

section
variable {s t sep : String} {names : List String}

theorem Unquoted.append (hs : Unquoted s) (ht : Unquoted t) : Unquoted (s ++ t) := by
  unfold Unquoted
  rw [String.toList_append, List.mem_append, not_or]
  exact ⟨hs, ht⟩

theorem Unquoted.intercalate (hsep : Unquoted sep) (hn : ∀ n ∈ names, Unquoted n) :
    Unquoted (sep.intercalate names) := not_mem_intercalate hsep hn

theorem unquoted_of_isIdentifier (h : isIdentifier s = true) : Unquoted s :=
  not_mem_of_isIdentifier h (by decide)

theorem unquoted_eq_self {cs : List Char} (h : '"' ∉ cs) : unquoted false cs = cs := by
  induction cs with
  | nil => rfl
  | cons c cs ih =>
    obtain ⟨hc, hcs⟩ := List.ne_and_not_mem_of_not_mem_cons h
    rw [unquoted, ih hcs]
    exact Ne.symm hc

/-- a text without quotes is read as it is -/
theorem Unquoted.typeNames_eq (h : Unquoted s) : typeNames s = parts isBreak s := by
  unfold typeNames
  rw [unquoted_eq_self h, String.ofList_toList]

theorem unquoted_encodeChar (c : Char) (cs : List Char) :
    unquoted true (Quoted.encodeChar c ++ cs) = unquoted true cs := by
  unfold Quoted.encodeChar
  split
  case h_9 =>
    rw [List.singleton_append, unquoted.eq_def]
    split <;> simp_all
  all_goals rfl

theorem unquoted_encode (cs rest : List Char) :
    unquoted true (Quoted.encode cs ++ '"' :: rest) = '"' :: unquoted false rest := by
  induction cs with
  | nil => rfl
  | cons c cs ih => rw [Quoted.encode_cons, List.append_assoc, unquoted_encodeChar, ih]

/-- **A literal shows no name**, whatever it holds. -/
theorem typeNames_quote (s rest : String) : typeNames (quote s ++ rest) = typeNames rest := by
  have hquote : unquoted false (quote s ++ rest).toList =
      ['"', '"'] ++ unquoted false rest.toList := by
    rw [String.toList_append, toList_quote, List.cons_append, List.append_assoc]
    exact congrArg _ (unquoted_encode s.toList rest.toList)
  unfold typeNames parts
  rw [hquote, String.toList_ofList, String.toList_ofList, filter_splitOnP_breaks (by decide)]

theorem isPart_of_isIdentifier (h : isIdentifier s = true) : IsPart isBreak s := by
  obtain ⟨hne, hall⟩ := isIdentifier_chars h
  refine ⟨hne, fun c hc => ?_⟩
  rw [isBreak, List.all_eq_true.mp hall c hc]
  rfl

theorem typeNames_identifier (h : isIdentifier s = true) : typeNames s = [s] := by
  rw [(unquoted_of_isIdentifier h).typeNames_eq]
  exact parts_eq_self (isPart_of_isIdentifier h)

/-- **Identifiers between separators are what a list shows.** -/
theorem typeNames_intercalate (hsep : Separates isBreak sep) (hquote : Unquoted sep)
    (hn : ∀ n ∈ names, isIdentifier n = true) : typeNames (sep.intercalate names) = names := by
  rw [(hquote.intercalate fun n h => unquoted_of_isIdentifier (hn n h)).typeNames_eq]
  exact parts_intercalate hsep fun n h => isPart_of_isIdentifier (hn n h)

/-- a value or an array of values shows what a value does, and the name of arrays -/
theorem typeNames_orArray (hquote : Unquoted s) (hnames : parts isBreak s = names) :
    typeNames (s ++ " | Array<" ++ s ++ ">") = names ++ "Array" :: names := by
  have hbar : Separates isBreak " | " := ⟨by decide, by decide⟩
  have hopen : Separates isBreak "<" := ⟨by decide, by decide⟩
  have hclose : Separates isBreak ">" := ⟨by decide, by decide⟩
  have harray : parts isBreak "Array" = ["Array"] := parts_eq_self (isPart_of_isIdentifier rfl)
  have hplain : Unquoted (s ++ " | Array<" ++ s ++ ">") :=
    ((hquote.append (by decide)).append hquote).append (by decide)
  have htext : s ++ " | Array<" ++ s ++ ">" = s ++ " | " ++ ("Array" ++ "<" ++ (s ++ ">" ++ "")) := by
    rw [String.append_empty, show " | Array<" = " | " ++ ("Array" ++ "<") from rfl]
    simp only [String.append_assoc]
  rw [hplain.typeNames_eq, htext, parts_separate hbar, parts_separate hopen, parts_separate hclose,
    hnames, harray]
  show names ++ (["Array"] ++ (names ++ [])) = _
  rw [List.append_nil]
  rfl

/-- a type shows its alternatives, and where it is constrained the name of arrays -/
theorem FieldType.typeNames_text (hn : ∀ n ∈ names, isIdentifier n = true) :
    typeNames (FieldType.values names).text = names ++ "Array" :: names := by
  have hbar : Separates isBreak " | " := ⟨by decide, by decide⟩
  apply typeNames_orArray
  · exact .intercalate (by decide) fun n h => unquoted_of_isIdentifier (hn n h)
  · exact parts_intercalate hbar fun n h => isPart_of_isIdentifier (hn n h)

end

/-! ## types in lines -/

/-- the list behind the name in a line that opens an interface -/
def supertypes? (line : String) : Option String :=
  ("export interface ".toList.isPrefixOf? line.toList).bind fun s =>
    (" extends ".toList.isPrefixOf? (s.dropWhile isIdentifierChar)).bind fun list =>
      (" \x7b".toList.isSuffixOf? list).map String.ofList

/-- the type behind the key in a line, that of a field or of an entry -/
def memberType? (line : String) : Option String :=
  ("  ".toList.isPrefixOf? line.toList).bind fun s =>
    (literal? s).bind fun key =>
      (("?: ".toList.isPrefixOf? key.2).or (": ".toList.isPrefixOf? key.2)).bind fun type =>
        (";".toList.isSuffixOf? type).map String.ofList

/-- the type that stands in a line -/
def typeIn? (line : String) : Option String := (supertypes? line).or (memberType? line)

/-- the types that stand in lines -/
def typesIn (lines : List String) : List String := lines.filterMap typeIn?

section
variable {line : String} {ls : List String}

theorem isSuffixOf?_append (s back : String) :
    back.toList.isSuffixOf? (s ++ back).toList = some s.toList := by
  rw [List.isSuffixOf?_eq_some_iff_append_eq, String.toList_append]

theorem typesIn_append (ls ms : List String) : typesIn (ls ++ ms) = typesIn ls ++ typesIn ms :=
  List.filterMap_append

theorem typesIn_map {α : Type} {f g : α → String} (h : ∀ a, typeIn? (f a) = some (g a))
    (as : List α) : typesIn (as.map f) = as.map g := by
  have hread : typeIn? ∘ f = some ∘ g := funext h
  unfold typesIn
  rw [List.filterMap_map, hread, List.filterMap_eq_map]

/-- whether a line begins as those do that open an interface or have a key -/
def opensType (cs : List Char) : Bool :=
  "export interface ".toList.isPrefixOf cs || "  \"".toList.isPrefixOf cs

theorem supertypes?_eq_none (h : "export interface ".toList.isPrefixOf line.toList = false) :
    supertypes? line = none := by
  unfold supertypes?
  rw [Option.bind_eq_none_iff]
  intro s hs
  rw [List.isPrefixOf?_eq_some_iff_append_eq] at hs
  rw [← hs, List.isPrefixOf_iff_prefix.mpr (List.prefix_append _ _)] at h
  cases h

theorem memberType?_eq_none (h : "  \"".toList.isPrefixOf line.toList = false) :
    memberType? line = none := by
  unfold memberType?
  rw [Option.bind_eq_none_iff]
  intro s hs
  rw [List.isPrefixOf?_eq_some_iff_append_eq] at hs
  rw [← hs] at h
  have hliteral : literal? s = none := by
    rw [literal?.eq_def]
    split
    · cases h
    · rfl
  rw [hliteral]
  rfl

/-- **Other lines show no type**, whatever they say. -/
theorem typeIn?_eq_none (h : opensType line.toList = false) : typeIn? line = none := by
  unfold opensType at h
  rw [Bool.or_eq_false_iff] at h
  unfold typeIn?
  rw [supertypes?_eq_none h.1, memberType?_eq_none h.2]
  rfl

theorem typesIn_eq_nil (h : ∀ l ∈ ls, opensType l.toList = false) : typesIn ls = [] := by
  unfold typesIn
  rw [List.filterMap_eq_nil_iff]
  exact fun l hl => typeIn?_eq_none (h l hl)

theorem typesIn_blockLines (comment : Option String) {indent : String}
    (hindent : indent = "" ∨ indent = "  ") : typesIn (blockLines comment indent) = [] := by
  have hopen : opensType (indent ++ "/**").toList = false := by
    rcases hindent with rfl | rfl <;> decide
  have hclose : opensType (indent ++ " */").toList = false := by
    rcases hindent with rfl | rfl <;> decide
  have hline : ∀ l, opensType (indent ++ " * " ++ l).toList = false := by
    intro l
    rw [String.toList_append, String.toList_append]
    rcases hindent with rfl | rfl <;> rfl
  cases comment with
  | none => rfl
  | some text =>
    rw [blockLines, commentLines]
    split
    · rfl
    · refine typesIn_eq_nil (List.forall_mem_append.mpr ⟨List.forall_mem_cons.mpr ⟨hopen, ?_⟩, ?_⟩)
      · exact List.forall_mem_map.mpr fun l _ => hline l
      · exact List.forall_mem_singleton.mpr hclose

/-! ## lines with a type -/

/-- behind a key stands what a semicolon ends -/
theorem typeIn?_key {mark : String} (hmark : mark = "?: " ∨ mark = ": ") (key rest : String) :
    typeIn? ("  " ++ quote key ++ mark ++ rest) =
      (";".toList.isSuffixOf? rest.toList).map String.ofList := by
  have hline : "  " ++ quote key ++ mark ++ rest = "  " ++ (quote key ++ (mark ++ rest)) := by
    simp only [String.append_assoc]
  have hkey := literal?_quote key (mark ++ rest).toList
  have htype : (("?: ".toList.isPrefixOf? (mark ++ rest).toList).or
      (": ".toList.isPrefixOf? (mark ++ rest).toList)) = some rest.toList := by
    rcases hmark with rfl | rfl
    · rw [isPrefixOf?_append]
      rfl
    · rw [isPrefixOf?_append, String.toList_append]
      rfl
  have hmember : memberType? ("  " ++ (quote key ++ (mark ++ rest))) =
      (";".toList.isSuffixOf? rest.toList).map String.ofList := by
    unfold memberType?
    rw [isPrefixOf?_append, Option.bind_some, String.toList_append, hkey, Option.bind_some]
    rw [htype, Option.bind_some]
  have hsuper : supertypes? ("  " ++ (quote key ++ (mark ++ rest))) = none := by
    apply supertypes?_eq_none
    rw [String.toList_append]
    rfl
  unfold typeIn?
  rw [hline, hsuper, hmember, Option.none_or]

/-- **A line with a key shows the type behind it.** -/
theorem typeIn?_member {mark : String} (hmark : mark = "?: " ∨ mark = ": ") (key type : String) :
    typeIn? ("  " ++ quote key ++ mark ++ type ++ ";") = some type := by
  rw [String.append_assoc, typeIn?_key hmark, isSuffixOf?_append, Option.map_some,
    String.ofList_toList]

/-- the literal in an entry of identifiers is no type -/
theorem typeIn?_identifierEntry (key value : String) :
    typeIn? ("  " ++ quote key ++ ": " ++ quote value ++ ",") = none := by
  rw [String.append_assoc, typeIn?_key (Or.inr rfl), Option.map_eq_none_iff,
    Option.eq_none_iff_forall_ne_some]
  intro s hs
  rw [List.isSuffixOf?_eq_some_iff_append_eq, String.toList_append] at hs
  have hsemicolon : ";".toList = [';'] := by decide
  have hcomma : ",".toList = [','] := by decide
  rw [hsemicolon, hcomma] at hs
  have hlast := (List.append_inj' hs rfl).2
  exact absurd hlast (by decide)

/-- behind the name of an interface stand its supertypes, if there are any -/
theorem typeIn?_open {name rest : String} (hname : isIdentifier name = true)
    (hrest : rest.toList.dropWhile isIdentifierChar = rest.toList) :
    typeIn? ("export interface " ++ name ++ rest) =
      (" extends ".toList.isPrefixOf? rest.toList).bind fun list =>
        (" \x7b".toList.isSuffixOf? list).map String.ofList := by
  have hall := List.all_eq_true.mp (isIdentifier_chars hname).2
  have hsuper : supertypes? ("export interface " ++ (name ++ rest)) =
      (" extends ".toList.isPrefixOf? rest.toList).bind fun list =>
        (" \x7b".toList.isSuffixOf? list).map String.ofList := by
    unfold supertypes?
    rw [isPrefixOf?_append, Option.bind_some, String.toList_append,
      List.dropWhile_append_of_pos hall, hrest]
  have hmember : memberType? ("export interface " ++ (name ++ rest)) = none := by
    apply memberType?_eq_none
    rw [String.toList_append]
    rfl
  unfold typeIn?
  rw [String.append_assoc, hsuper, hmember, Option.or_none]

/-- **An opening line shows the supertypes.** -/
theorem typeIn?_headLine {i : Interface} (hname : isIdentifier i.name = true) :
    typeIn? i.headLine = some (", ".intercalate i.supertypes) := by
  have hline : i.headLine =
      "export interface " ++ i.name ++ (" extends " ++ (", ".intercalate i.supertypes ++ " \x7b")) := by
    unfold Interface.headLine
    simp only [String.append_assoc]
  have hblank : (" extends " ++ (", ".intercalate i.supertypes ++ " \x7b")).toList.dropWhile
      isIdentifierChar = (" extends " ++ (", ".intercalate i.supertypes ++ " \x7b")).toList := by
    rw [String.toList_append]
    rfl
  rw [hline, typeIn?_open hname hblank, isPrefixOf?_append, Option.bind_some, isSuffixOf?_append,
    Option.map_some, String.ofList_toList]

end

/-! ## the types of an output -/

theorem Field.typesIn_lines (f : Field) : typesIn f.lines = [f.type.text] := by
  have hline : typeIn? f.line = some f.type.text := typeIn?_member (Or.inl rfl) f.key f.type.text
  rw [f.lines_eq, typesIn_append, typesIn_blockLines _ (Or.inr rfl), List.nil_append]
  exact List.filterMap_cons_some hline

namespace Interface
variable {i : Interface}

/-- the types of an interface: the list of its supertypes, the type of its nodes and those of its fields -/
def types (i : Interface) : List String :=
  ", ".intercalate i.supertypes :: (quote i.className ++ " | string") ::
    i.fields.map fun f => f.type.text

theorem typeIn?_typeLine (i : Interface) :
    typeIn? i.typeLine = some (quote i.className ++ " | string") := by
  rw [typeLine_eq]
  exact typeIn?_member (Or.inl rfl) _ _

/-- **The types of an interface stand in its lines**, in this order and no others. -/
theorem typesIn_lines (hname : isIdentifier i.name = true) : typesIn i.lines = i.types := by
  have hfields : typesIn (i.fields.flatMap Field.lines) = i.fields.map fun f => f.type.text := by
    unfold typesIn
    rw [List.filterMap_flatMap, List.map_eq_flatMap]
    exact List.flatMap_congr fun f _ => f.typesIn_lines
  have hclose : typesIn ["\x7d", ""] = [] := by decide
  have hhead : typesIn [i.headLine, i.typeLine] =
      [", ".intercalate i.supertypes, quote i.className ++ " | string"] := by
    unfold typesIn
    rw [List.filterMap_cons_some (typeIn?_headLine hname), List.filterMap_cons_some i.typeIn?_typeLine]
    rfl
  unfold lines
  rw [typesIn_append, typesIn_append, typesIn_append, typesIn_blockLines _ (Or.inl rfl), hhead, hfields,
    hclose, List.append_nil]
  rfl

end Interface

namespace Declarations
variable {d : Declarations}

/-- a name or a record -/
def contextUnion : String := "string | Record<string, unknown>"

/-- the type of contexts: one, or an array of them -/
def contextType : String := contextUnion ++ " | Array<" ++ contextUnion ++ ">"

/-- the line that gives every node the key for its context -/
def contextLine : String := "  " ++ quote "@context" ++ "?: " ++ contextType ++ ";"

theorem typesIn_contextLine : typesIn [contextLine] = [contextType] :=
  List.filterMap_cons_some (typeIn?_member (Or.inl rfl) "@context" contextType)

/-- **Contexts are records** of values that are not known, or their names. -/
theorem typeNames_contextType : typeNames contextType =
    ["string", "Record", "string", "unknown"] ++ "Array" :: ["string", "Record", "string", "unknown"] :=
  typeNames_orArray (by decide) (by decide)

theorem typesIn_bannerLines (d : Declarations) : typesIn d.bannerLines = [] := by
  have hnotice : opensType d.noticeLine.toList = false := by
    unfold noticeLine
    rw [String.append_assoc, String.toList_append]
    rfl
  have hheader : ∀ l ∈ d.headerLines, opensType l.toList = false := by
    intro l hl
    obtain ⟨_, line, _, rfl⟩ := exists_of_mem_headerLines hl
    rw [String.toList_append]
    rfl
  have hnotes : ∀ l ∈ d.noteLines, opensType l.toList = false := by
    refine List.forall_mem_append.mpr ⟨?_, hheader⟩
    exact List.forall_mem_cons.mpr ⟨rfl, List.forall_mem_cons.mpr ⟨hnotice,
      List.forall_mem_singleton.mpr rfl⟩⟩
  rw [bannerLines_eq]
  exact typesIn_eq_nil (List.forall_mem_append.mpr ⟨hnotes, by decide⟩)

theorem typesIn_unionLines (d : Declarations) : typesIn d.unionLines = [] := by
  have hhead : opensType d.unionHead.toList = false := by
    unfold unionHead
    rw [String.append_assoc, String.toList_append]
    rfl
  have hmembers : ∀ l ∈ unionMembers d.classNames, opensType l.toList = false := by
    intro l hl
    obtain ⟨rest, rfl⟩ := mem_unionMembers hl
    rw [String.toList_append]
    rfl
  rw [unionLines_eq]
  exact typesIn_eq_nil (List.forall_mem_cons.mpr ⟨hhead,
    List.forall_mem_append.mpr ⟨hmembers, by decide⟩⟩)

theorem typesIn_typeMapLines (d : Declarations) :
    typesIn d.typeMapLines = d.identifiers.map Prod.snd := by
  have hhead : typesIn ["export interface " ++ classTypeMap ++ " \x7b"] = [] := by decide
  have hclose : typesIn ["\x7d", ""] = [] := by decide
  have hentries : typesIn (d.identifiers.map fun e => "  " ++ quote e.1 ++ ": " ++ e.2 ++ ";") =
      d.identifiers.map Prod.snd := by
    apply typesIn_map
    exact fun e => typeIn?_member (Or.inr rfl) e.1 e.2
  unfold typeMapLines
  rw [typesIn_append, typesIn_append, hhead, hentries, hclose, List.append_nil]
  rfl

theorem typesIn_tableLines (d : Declarations) : typesIn d.tableLines = [] := by
  have hhead : ∀ rest : String, typesIn [tableHead ++ rest] = [] := by
    intro rest
    refine typesIn_eq_nil (List.forall_mem_singleton.mpr ?_)
    unfold tableHead
    simp only [String.append_assoc]
    rw [String.toList_append]
    rfl
  have hentries : ∀ es : List (String × String),
      typesIn (es.map fun e => "  " ++ quote e.1 ++ ": " ++ quote e.2 ++ ",") = [] := by
    intro es
    unfold typesIn
    rw [List.filterMap_eq_nil_iff, List.forall_mem_map]
    exact fun e _ => typeIn?_identifierEntry e.1 e.2
  have hclose : typesIn ["\x7d;"] = [] := by decide
  unfold tableLines
  split
  · exact hhead _
  · rw [typesIn_append, typesIn_append, hhead, hentries, hclose]
    rfl

/-- the line that opens the base interface -/
def baseHead (d : Declarations) : String := "export interface " ++ d.baseName ++ " \x7b"

/-- **All types of an output besides that of the context**: those of the other two keys of every node, those
of the interfaces and those of the entries.  The line of the context is the first of the base interface. -/
theorem exists_lines_eq (hbase : isIdentifier d.baseName = true)
    (hnames : ∀ i ∈ d.interfaces, isIdentifier i.name = true) :
    ∃ front rest, d.lines = front ++ d.baseHead :: contextLine :: rest ∧
      typesIn (front ++ d.baseHead :: rest) =
        ["string", "string"] ++ d.interfaces.flatMap Interface.types ++
          d.identifiers.map Prod.snd := by
  have hhead : typeIn? d.baseHead = none := typeIn?_open hbase (by decide)
  have hkeys : typesIn ["  \"@type\"?: string;", "  \"@id\"?: string;", "\x7d", ""] =
      ["string", "string"] := by decide
  have hinterfaces : typesIn (d.interfaces.flatMap Interface.lines) =
      d.interfaces.flatMap Interface.types := by
    unfold typesIn
    rw [List.filterMap_flatMap]
    exact List.flatMap_congr fun i hi => Interface.typesIn_lines (hnames i hi)
  have hcontext : contextLine = "  \"@context\"?: string | Record<string, unknown> | " ++
      "Array<string | Record<string, unknown>>;" := by decide
  refine ⟨d.bannerLines, ["  \"@type\"?: string;", "  \"@id\"?: string;", "\x7d", ""] ++
    d.interfaces.flatMap Interface.lines ++ d.unionLines ++ d.typeMapLines ++ d.tableLines, ?_, ?_⟩
  · rw [hcontext]
    unfold lines baseLines baseHead
    simp only [List.append_assoc, List.cons_append, List.nil_append]
  · have hskip : ∀ ls, typesIn (d.baseHead :: ls) = typesIn ls := fun _ =>
      List.filterMap_cons_none hhead
    simp only [typesIn_append, hskip, typesIn_bannerLines, hkeys, hinterfaces, typesIn_unionLines,
      typesIn_typeMapLines, typesIn_tableLines, List.nil_append, List.append_nil]

end Declarations

end TypedVocabulary
