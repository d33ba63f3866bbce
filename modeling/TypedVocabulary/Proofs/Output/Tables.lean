import TypedVocabulary.Proofs.Output.Reading
import TypedVocabulary.Proofs.Text.Literals

/-!
# Tables read off lines

The tables of an output can be read off its lines.  A declaration reaches from the line that opens it to the
next empty line; what it lists are the lines of a certain form in between.

* `bodyOf_eq`                   what stands behind the line that opens a declaration;
* `Declarations.unionMembers_read`, `Declarations.typeMap_read`, `Declarations.table_read`
                                what the three tables list;
* `Declarations.interfaces_read`   the interfaces that carry the name of a class.

Reading goes by the text alone: literals are found by their quotes, declarations by the names in the lines
that open them.
-/

namespace TypedVocabulary

/-! ## lines of a table -/

/-- the literal in a member of a union -/
def memberOf? (line : String) : Option String :=
  ("  | ".toList.isPrefixOf? line.toList).bind fun s =>
    match literal? s with
    | some (name, []) | some (name, [';']) => some name
    | _ => none

/-- the key and the value of an entry that ends with a separator -/
def entryOf? (separator : Char) (line : String) : Option (String × String) :=
  ("  ".toList.isPrefixOf? line.toList).bind fun s =>
    (literal? s).bind fun key =>
      (": ".toList.isPrefixOf? key.2).bind fun value =>
        if value.getLast? = some separator then some (key.1, String.ofList value.dropLast) else none

/-- the literal in the line that gives the type of a class's nodes -/
def typeOf? (line : String) : Option String :=
  ("  \"@type\"?: ".toList.isPrefixOf? line.toList).bind fun s =>
    (literal? s).bind fun name => if name.2 = " | string;".toList then some name.1 else none

/-! ## lines of a table, read -/

section
variable {stop : String} {separator : Char}

/-- a front is cut off -/
theorem isPrefixOf?_append (front rest : String) :
    front.toList.isPrefixOf? (front ++ rest).toList = some rest.toList := by
  rw [List.isPrefixOf?_eq_some_iff_append_eq, String.toList_append]

theorem memberOf?_member (name : String) : memberOf? ("  | " ++ quote name) = some (quote name) := by
  have hname := literal?_quote name []
  unfold memberOf?
  rw [isPrefixOf?_append, Option.bind_some, ← List.append_nil (quote name).toList, hname]

theorem memberOf?_last (name : String) :
    memberOf? ("  | " ++ quote name ++ ";") = some (quote name) := by
  have hname := literal?_quote name ";".toList
  unfold memberOf?
  rw [String.append_assoc, isPrefixOf?_append, Option.bind_some, String.toList_append, hname]
  rfl

/-- **An entry shows its key and its value**, whatever they are. -/
theorem entryOf?_entry (key value : String) (hstop : stop.toList = [separator]) :
    entryOf? separator ("  " ++ quote key ++ ": " ++ value ++ stop) = some (quote key, value) := by
  have hline : "  " ++ quote key ++ ": " ++ value ++ stop =
      "  " ++ (quote key ++ (": " ++ (value ++ stop))) := by
    simp only [String.append_assoc]
  have hkey := literal?_quote key (": " ++ (value ++ stop)).toList
  unfold entryOf?
  rw [hline, isPrefixOf?_append, Option.bind_some, String.toList_append, hkey, Option.bind_some,
    isPrefixOf?_append, Option.bind_some, String.toList_append, hstop, List.getLast?_concat,
    if_pos rfl, List.dropLast_concat, String.ofList_toList]

theorem typeOf?_typeLine (i : Interface) : typeOf? i.typeLine = some (quote i.className) := by
  have hname := literal?_quote i.className " | string;".toList
  unfold typeOf? Interface.typeLine
  rw [String.append_assoc, isPrefixOf?_append, Option.bind_some, String.toList_append, hname]
  show (if " | string;".toList = " | string;".toList then some (quote i.className) else none) = _
  rw [if_pos rfl]

/-- a type has a question mark behind its key, an entry has none -/
theorem typeOf?_entry (key rest : String) :
    typeOf? ("  " ++ quote key ++ ": " ++ rest) = none := by
  unfold typeOf?
  rw [Option.bind_eq_none_iff]
  intro s hs
  exfalso
  rw [List.isPrefixOf?_eq_some_iff_append_eq] at hs
  have hfront : "  \"@type\"?: ".toList =
      "  ".toList ++ ((quote "@type").toList ++ "?: ".toList) := by decide
  have hkeys : (quote "@type").toList ++ ("?: ".toList ++ s) =
      (quote key).toList ++ (": ".toList ++ rest.toList) := by
    simp only [hfront, String.append_assoc, String.toList_append, List.append_assoc] at hs
    exact List.append_cancel_left hs
  have hread := congrArg literal? hkeys
  rw [literal?_quote, literal?_quote] at hread
  cases (Prod.mk.inj (Option.some.inj hread)).2

theorem typeOf?_empty : typeOf? "" = none := rfl

theorem typeOf?_member (rest : String) : typeOf? ("  | " ++ rest) = none := by
  unfold typeOf?
  rw [String.toList_append]
  rfl

end

section
variable {names : List String} {l : String}

theorem mem_unionMembers (h : l ∈ Declarations.unionMembers names) : ∃ rest, l = "  | " ++ rest := by
  induction names with
  | nil => exact absurd h List.not_mem_nil
  | cons name names ih =>
    cases names with
    | nil => exact ⟨quote name ++ ";", by rw [List.mem_singleton.mp h, String.append_assoc]⟩
    | cons =>
      rcases List.mem_cons.mp h with rfl | h
      · exact ⟨quote name, rfl⟩
      · exact ih h

theorem unionMembers_cons (name next : String) (names : List String) :
    Declarations.unionMembers (name :: next :: names) =
      ("  | " ++ quote name) :: Declarations.unionMembers (next :: names) := rfl

theorem filterMap_unionMembers (names : List String) :
    (Declarations.unionMembers names).filterMap memberOf? = names.map quote := by
  induction names with
  | nil => rfl
  | cons name names ih =>
    cases names with
    | nil => exact List.filterMap_cons_some (memberOf?_last name)
    | cons => rw [unionMembers_cons, List.filterMap_cons_some (memberOf?_member name), ih]; rfl

theorem filterMap_entries {line : String × String → String} {shown : String × String → String}
    {separator : Char} {close : String} (hclose : entryOf? separator close = none)
    (h : ∀ e, entryOf? separator (line e) = some (quote e.1, shown e)) (es : List (String × String)) :
    (es.map line ++ [close]).filterMap (entryOf? separator) =
      es.map fun e => (quote e.1, shown e) := by
  have hread : entryOf? separator ∘ line = some ∘ fun e => (quote e.1, shown e) := funext h
  rw [List.filterMap_append, List.filterMap_cons_none hclose, List.filterMap_nil, List.append_nil,
    List.filterMap_map, hread, List.filterMap_eq_map]

theorem ne_empty_of_front {front : String} (h : front ≠ "") (rest : String) : front ++ rest ≠ "" :=
  fun e => h (String.append_eq_empty_iff.mp e).1

theorem empty_not_mem_entries {shown : String × String → String} {stop close : String}
    (hclose : close ≠ "") (es : List (String × String)) :
    "" ∉ es.map (fun e => "  " ++ quote e.1 ++ ": " ++ shown e ++ stop) ++ [close] := by
  rw [List.mem_append, not_or, List.mem_map, List.mem_singleton]
  refine ⟨?_, hclose.symm⟩
  rintro ⟨e, _, h⟩
  simp only [String.append_assoc] at h
  exact ne_empty_of_front (by decide) _ h

end

/-! ## reading -/

/-- the lines of the declaration of a name, from the one behind its first to the next empty line -/
def bodyOf (name : String) (lines : List String) : List String :=
  ((lines.dropWhile fun l => declaredName? l ≠ some name).drop 1).takeWhile (· ≠ "")

/-- the names whose declaration opens with the type of a class's nodes, each with that type -/
def classInterfaces : List String → List (String × String)
  | [] => []
  | l :: lines =>
    ((declaredName? l).bind fun name =>
      (lines.head?.bind typeOf?).map fun type => (name, type)).toList ++ classInterfaces lines

section
variable {name opening : String} {front body rest : List String}

/-- **What stands behind the line that opens a declaration.** -/
theorem bodyOf_eq (hfront : name ∉ front.filterMap declaredName?)
    (hopening : declaredName? opening = some name) (hbody : "" ∉ body)
    (hrest : rest = [] ∨ ∃ more, rest = "" :: more) :
    bodyOf name (front ++ opening :: (body ++ rest)) = body := by
  have hskip : ∀ l ∈ front, (decide (declaredName? l ≠ some name)) = true := by
    intro l hl
    rw [decide_eq_true_eq]
    intro e
    exact hfront (List.mem_filterMap.mpr ⟨l, hl, e⟩)
  have htake : ∀ l ∈ body, (decide (l ≠ "")) = true := by
    intro l hl
    rw [decide_eq_true_eq]
    rintro rfl
    exact hbody hl
  unfold bodyOf
  rw [List.dropWhile_append_of_pos hskip, List.dropWhile_cons_of_neg (by simp [hopening])]
  show (body ++ rest).takeWhile _ = body
  rw [List.takeWhile_append_of_pos htake]
  rcases hrest with rfl | ⟨more, rfl⟩
  · exact List.append_nil body
  · rw [List.takeWhile_cons_of_neg (by simp)]
    exact List.append_nil body

theorem classInterfaces_append_of_quiet (hfront : Quiet front) :
    classInterfaces (front ++ rest) = classInterfaces rest := by
  induction front with
  | nil => rfl
  | cons l front ih =>
    obtain ⟨hl, hfront⟩ := List.forall_mem_cons.mp hfront
    rw [List.cons_append, classInterfaces, declaredName?_of_head hl, ih hfront]
    rfl

theorem classInterfaces_of_typed {type : String} (hopening : declaredName? opening = some name)
    (htype : rest.head?.bind typeOf? = some type) :
    classInterfaces (opening :: rest) = (name, type) :: classInterfaces rest := by
  rw [classInterfaces, hopening, htype]
  rfl

/-- a declaration whose lines give no type is none of a class -/
theorem classInterfaces_of_untyped (hquiet : Quiet body) (htype : ∀ l ∈ body, typeOf? l = none)
    (hrest : body = [] → rest = []) :
    classInterfaces (opening :: (body ++ rest)) = classInterfaces rest := by
  have hfirst : (body ++ rest).head?.bind typeOf? = none := by
    cases body with
    | nil => rw [hrest rfl]; rfl
    | cons l => rw [List.cons_append, List.head?_cons, Option.bind_some, htype l List.mem_cons_self]
  rw [classInterfaces, classInterfaces_append_of_quiet hquiet, hfirst]
  cases declaredName? opening <;> rfl

end

/-! ## interfaces of classes -/

theorem Interface.classInterfaces_lines {i : Interface} (hname : isIdentifier i.name = true)
    (rest : List String) :
    classInterfaces (i.lines ++ rest) = (i.name, quote i.className) :: classInterfaces rest := by
  have hblock : Quiet (blockLines i.comment "") := quiet_blockLines i.comment (Or.inl rfl)
  have htype : (i.innerLines ++ rest).head?.bind typeOf? = some (quote i.className) := by
    unfold innerLines
    rw [List.cons_append, List.head?_cons, Option.bind_some, typeOf?_typeLine]
  rw [lines_eq, List.append_assoc, classInterfaces_append_of_quiet hblock, List.cons_append,
    classInterfaces_of_typed (declaredName?_headLine hname) htype,
    classInterfaces_append_of_quiet i.quiet_innerLines]

namespace Declarations
variable {d : Declarations}

theorem classInterfaces_flatMap {is : List Interface} (h : ∀ i ∈ is, isIdentifier i.name = true)
    (rest : List String) : classInterfaces (is.flatMap Interface.lines ++ rest) =
      is.map (fun i => (i.name, quote i.className)) ++ classInterfaces rest := by
  induction is with
  | nil => rfl
  | cons i is ih =>
    obtain ⟨hi, his⟩ := List.forall_mem_cons.mp h
    rw [List.flatMap_cons, List.append_assoc, Interface.classInterfaces_lines hi, ih his]
    rfl

theorem untyped_baseKeys : ∀ l ∈ ["  \"@context\"?: string | Record<string, unknown> | " ++
    "Array<string | Record<string, unknown>>;",
    "  \"@type\"?: string;", "  \"@id\"?: string;", "\x7d", ""], typeOf? l = none := by
  decide

theorem classInterfaces_baseLines (d : Declarations) (rest : List String) :
    classInterfaces (d.baseLines ++ rest) = classInterfaces rest :=
  classInterfaces_of_untyped quiet_baseKeys untyped_baseKeys (fun h => nomatch h)

theorem classInterfaces_unionLines (d : Declarations) (rest : List String) :
    classInterfaces (d.unionLines ++ rest) = classInterfaces rest := by
  have hquiet : Quiet (unionMembers d.classNames ++ [""]) :=
    (quiet_unionMembers _).append (.cons (by decide) .nil)
  have hmembers : ∀ l ∈ unionMembers d.classNames, typeOf? l = none := by
    intro l hl
    obtain ⟨rest, rfl⟩ := mem_unionMembers hl
    exact typeOf?_member rest
  have htype := List.forall_mem_append.mpr ⟨hmembers, List.forall_mem_singleton.mpr typeOf?_empty⟩
  rw [unionLines_eq, List.cons_append]
  refine classInterfaces_of_untyped hquiet htype fun h => ?_
  exact absurd h (List.append_ne_nil_of_right_ne_nil _ (List.cons_ne_nil _ _))

theorem untyped_entries {es : List (String × String)} {shown : String × String → String}
    {stop close : String} (hclose : typeOf? close = none) :
    ∀ l ∈ es.map (fun e => "  " ++ quote e.1 ++ ": " ++ shown e ++ stop) ++ [close],
      typeOf? l = none := by
  refine List.forall_mem_append.mpr ⟨List.forall_mem_map.mpr fun e _ => ?_,
    List.forall_mem_singleton.mpr hclose⟩
  rw [String.append_assoc, typeOf?_entry]

theorem classInterfaces_typeMapLines (d : Declarations) (rest : List String) :
    classInterfaces (d.typeMapLines ++ rest) = classInterfaces rest := by
  have hbody : ∀ l ∈ d.typeMapBody, typeOf? l = none := untyped_entries rfl
  have htype := List.forall_mem_append.mpr ⟨hbody, List.forall_mem_singleton.mpr typeOf?_empty⟩
  rw [typeMapLines_eq, List.cons_append]
  refine classInterfaces_of_untyped d.quiet_typeMapBody htype fun h => ?_
  exact absurd h (List.append_ne_nil_of_right_ne_nil _ (List.cons_ne_nil _ _))

theorem classInterfaces_tableLines (d : Declarations) : classInterfaces d.tableLines = [] := by
  have htype : ∀ l ∈ d.tableBody, typeOf? l = none := by
    unfold tableBody
    split
    · exact List.forall_mem_nil _
    · exact untyped_entries rfl
  obtain ⟨rest, hlines⟩ := d.tableLines_eq
  rw [hlines, ← List.append_nil d.tableBody]
  exact classInterfaces_of_untyped d.quiet_tableBody htype fun _ => rfl

/-- **The interfaces that carry the name of a class are those of the classes.** -/
theorem interfaces_read (hnames : ∀ i ∈ d.interfaces, isIdentifier i.name = true) :
    classInterfaces d.lines = d.interfaces.map fun i => (i.name, quote i.className) := by
  unfold lines
  simp only [List.append_assoc]
  rw [classInterfaces_append_of_quiet d.quiet_bannerLines, classInterfaces_baseLines,
    classInterfaces_flatMap hnames, classInterfaces_unionLines, classInterfaces_typeMapLines,
    classInterfaces_tableLines, List.append_nil]

/-! ## the three tables -/

section
variable (hnames : ∀ n ∈ d.interfaceNames, isIdentifier n = true ∧ n ∉ reservedNames)
include hnames

/-- nothing in front of the tables declares a name of theirs -/
theorem not_mem_interfaceLines {n : String}
    (hn : n ∈ [classNameUnion, classTypeMap, classIdentifierTable]) :
    n ∉ d.interfaceLines.filterMap declaredName? := by
  have hbase := (hnames d.baseName (List.mem_cons_self ..)).1
  have hi : ∀ i ∈ d.interfaces, isIdentifier i.name = true := fun i hi =>
    (hnames i.name (List.mem_cons_of_mem _ (List.mem_map_of_mem hi))).1
  rw [declared_interfaceLines hbase hi]
  exact fun h => (hnames n h).2 (List.mem_append_right _ hn)

/-- **The union lists the names of the classes.** -/
theorem unionMembers_read :
    (bodyOf classNameUnion d.lines).filterMap memberOf? = d.classNames.map quote := by
  have hlines : d.lines = d.interfaceLines ++ d.unionHead ::
      (unionMembers d.classNames ++ "" :: (d.typeMapLines ++ d.tableLines)) := by
    show d.interfaceLines ++ d.unionLines ++ d.typeMapLines ++ d.tableLines = _
    rw [unionLines_eq]
    simp only [List.append_assoc, List.cons_append, List.nil_append]
  have hbody : "" ∉ unionMembers d.classNames := fun h => by
    obtain ⟨rest, e⟩ := mem_unionMembers h
    exact ne_empty_of_front (by decide) rest e.symm
  rw [hlines, bodyOf_eq (not_mem_interfaceLines hnames (by decide)) d.declaredName?_unionHead hbody
    (Or.inr ⟨_, rfl⟩), filterMap_unionMembers]

/-- **The types list every class with its identifier.** -/
theorem typeMap_read : (bodyOf classTypeMap d.lines).filterMap (entryOf? ';') =
    d.identifiers.map fun e => (quote e.1, e.2) := by
  have hlines : d.lines = (d.interfaceLines ++ d.unionLines) ++
      ("export interface " ++ classTypeMap ++ " \x7b") ::
        (d.typeMapBody ++ "" :: d.tableLines) := by
    show d.interfaceLines ++ d.unionLines ++ d.typeMapLines ++ d.tableLines = _
    rw [typeMapLines_eq]
    simp only [List.append_assoc, List.cons_append, List.nil_append]
  have hfront : classTypeMap ∉ (d.interfaceLines ++ d.unionLines).filterMap declaredName? := by
    rw [List.filterMap_append, declared_unionLines, List.mem_append, not_or]
    exact ⟨not_mem_interfaceLines hnames (by decide), by decide⟩
  have hbody : "" ∉ d.typeMapBody := empty_not_mem_entries (by decide) d.identifiers
  rw [hlines, bodyOf_eq hfront declaredName?_typeMapHead hbody (Or.inr ⟨_, rfl⟩)]
  exact filterMap_entries rfl (fun e => entryOf?_entry e.1 e.2 rfl) d.identifiers

/-- **The identifiers list every class with its identifier**, as a literal. -/
theorem table_read : (bodyOf classIdentifierTable d.lines).filterMap (entryOf? ',') =
    d.identifiers.map fun e => (quote e.1, quote e.2) := by
  obtain ⟨rest, hrest⟩ := d.tableLines_eq
  have hlines : d.lines = (d.interfaceLines ++ d.unionLines ++ d.typeMapLines) ++
      (tableHead ++ rest) :: (d.tableBody ++ []) := by
    show d.interfaceLines ++ d.unionLines ++ d.typeMapLines ++ d.tableLines = _
    rw [hrest, List.append_nil]
  have htable : classIdentifierTable ∈ [classNameUnion, classTypeMap, classIdentifierTable] := by
    decide
  have hunion : classIdentifierTable ∉ [classNameUnion] := by decide
  have hmap : classIdentifierTable ∉ [classTypeMap] := by decide
  have hfront : classIdentifierTable ∉
      (d.interfaceLines ++ d.unionLines ++ d.typeMapLines).filterMap declaredName? := by
    rw [List.filterMap_append, List.filterMap_append, declared_unionLines, declared_typeMapLines,
      List.mem_append, List.mem_append, not_or, not_or]
    exact ⟨⟨not_mem_interfaceLines hnames htable, hunion⟩, hmap⟩
  have hbody : "" ∉ d.tableBody := by
    unfold tableBody
    split
    · exact List.not_mem_nil
    · exact empty_not_mem_entries (by decide) _
  rw [hlines, bodyOf_eq hfront (declaredName?_tableHead rest) hbody (Or.inl rfl)]
  unfold tableBody
  cases d.identifiers with
  | nil => rfl
  | cons e es => exact filterMap_entries rfl (fun e => entryOf?_entry e.1 (quote e.2) rfl) (e :: es)

end

end Declarations

end TypedVocabulary
