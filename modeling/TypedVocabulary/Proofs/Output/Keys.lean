import TypedVocabulary.Proofs.Output.Lines
import TypedVocabulary.Proofs.Output.Tables

/-!
# Keys read off lines

The keys of an interface are the literals with a question mark and a colon behind them, in the lines from the
one that opens the interface to the next empty one.

* `keyOf?_property`             a line with a key shows it, whatever the key is;
* `filterMap_blockLines`        comments show none, whatever they say;
* `Declarations.keysOf_base`    the keys of the base interface;
* `Declarations.keysOf_interface`   the keys of the interface of a class.
-/

namespace TypedVocabulary

/-- the key that a line declares, as a literal -/
def keyOf? (line : String) : Option String :=
  ("  ".toList.isPrefixOf? line.toList).bind fun s =>
    (literal? s).bind fun key => ("?: ".toList.isPrefixOf? key.2).map fun _ => key.1

/-- the keys that the interface of a name declares -/
def keysOf (name : String) (lines : List String) : List String :=
  (bodyOf name lines).filterMap keyOf?

/-- the keys that the base interface gives every node -/
def baseKeys : List String := ["@context", "@type", "@id"]

/-! ## lines -/

/-- **A line with a key shows the key.** -/
theorem keyOf?_property (key type : String) :
    keyOf? ("  " ++ quote key ++ "?: " ++ type) = some (quote key) := by
  have hline : "  " ++ quote key ++ "?: " ++ type = "  " ++ (quote key ++ ("?: " ++ type)) := by
    simp only [String.append_assoc]
  have hkey := literal?_quote key ("?: " ++ type).toList
  unfold keyOf?
  rw [hline, isPrefixOf?_append, Option.bind_some, String.toList_append, hkey, Option.bind_some,
    isPrefixOf?_append, Option.map_some]

/-- where no quote stands behind the indent there is no key -/
theorem keyOf?_of_indented {c : Char} (hc : c ≠ '"') {line : String} {s : List Char}
    (h : line.toList = ' ' :: ' ' :: c :: s) : keyOf? line = none := by
  have hliteral : literal? (c :: s) = none := by
    rw [literal?.eq_def]
    split
    · rename_i e
      exact absurd (List.cons.inj e).1 hc
    · rfl
  have hrest : "  ".toList.isPrefixOf? line.toList = some (c :: s) := by
    rw [h]
    rfl
  unfold keyOf?
  rw [hrest, Option.bind_some, hliteral]
  rfl

/-- the comment of a field goes on behind the indent with a star or the slash in front of one -/
theorem toList_of_mem_blockLines {comment : Option String} {l : String}
    (h : l ∈ blockLines comment "  ") : ∃ c s, c ≠ '"' ∧ l.toList = ' ' :: ' ' :: c :: s := by
  cases comment with
  | none => exact absurd h List.not_mem_nil
  | some text =>
    rw [blockLines, commentLines] at h
    split at h
    · exact absurd h List.not_mem_nil
    · rcases List.mem_append.mp h with h | h
      · rcases List.mem_cons.mp h with rfl | h
        · exact ⟨'/', "**".toList, by decide, rfl⟩
        · obtain ⟨t, _, rfl⟩ := List.mem_map.mp h
          refine ⟨' ', '*' :: ' ' :: t.toList, by decide, ?_⟩
          rw [String.toList_append]
          rfl
      · rw [List.mem_singleton.mp h]
        exact ⟨' ', "*/".toList, by decide, rfl⟩

/-- **The comment of a field shows no key.** -/
theorem filterMap_blockLines (comment : Option String) :
    (blockLines comment "  ").filterMap keyOf? = [] := by
  rw [List.filterMap_eq_nil_iff]
  intro l hl
  obtain ⟨c, s, hc, hs⟩ := toList_of_mem_blockLines hl
  exact keyOf?_of_indented hc hs

theorem Field.filterMap_lines (f : Field) : f.lines.filterMap keyOf? = [quote f.key] := by
  have hline : keyOf? f.line = some (quote f.key) := by
    unfold Field.line
    rw [String.append_assoc]
    exact keyOf?_property f.key _
  rw [f.lines_eq, List.filterMap_append, filterMap_blockLines, List.filterMap_cons_some hline]
  rfl

/-! ## interfaces -/

/-- what stands behind a declared name is read when no name is declared twice -/
theorem bodyOf_of_nodup {name opening : String} {front body rest : List String}
    (hnodup : ((front ++ opening :: (body ++ "" :: rest)).filterMap declaredName?).Nodup)
    (hopening : declaredName? opening = some name) (hbody : "" ∉ body) :
    bodyOf name (front ++ opening :: (body ++ "" :: rest)) = body := by
  rw [List.filterMap_append, List.filterMap_cons_some hopening, List.nodup_append] at hnodup
  have hfront : name ∉ front.filterMap declaredName? := fun h =>
    hnodup.2.2 name h name (List.mem_cons_self ..) rfl
  exact bodyOf_eq hfront hopening hbody (Or.inr ⟨rest, rfl⟩)

namespace Interface
variable {i : Interface}

/-- the lines between the one that opens an interface and the empty one -/
def body (i : Interface) : List String := i.typeLine :: (i.fields.flatMap Field.lines ++ ["\x7d"])

theorem innerLines_eq (i : Interface) : i.innerLines = i.body ++ [""] := by
  unfold innerLines body
  rw [List.cons_append, List.append_assoc]
  rfl

theorem typeLine_eq (i : Interface) : i.typeLine =
    "  " ++ quote "@type" ++ "?: " ++ (quote i.className ++ " | string") ++ ";" := by
  have hfront : "  \"@type\"?: " = "  " ++ quote "@type" ++ "?: " := by decide
  unfold typeLine
  rw [hfront]
  simp only [String.append_assoc]
  rfl

theorem keyOf?_typeLine (i : Interface) : keyOf? i.typeLine = some (quote "@type") := by
  rw [typeLine_eq, String.append_assoc]
  exact keyOf?_property "@type" _

theorem filterMap_body (i : Interface) :
    i.body.filterMap keyOf? = quote "@type" :: i.fields.map fun f => quote f.key := by
  have hfields : (i.fields.flatMap Field.lines).filterMap keyOf? =
      i.fields.map fun f => quote f.key := by
    rw [List.filterMap_flatMap, List.map_eq_flatMap]
    exact List.flatMap_congr fun f _ => f.filterMap_lines
  unfold body
  rw [List.filterMap_cons_some i.keyOf?_typeLine, List.filterMap_append, hfields]
  exact congrArg _ (List.append_nil _)

theorem empty_not_mem_body (i : Interface) : "" ∉ i.body := by
  intro h
  rcases List.mem_cons.mp h with h | h
  · unfold typeLine at h
    rw [String.append_assoc] at h
    exact ne_empty_of_front (by decide) _ h.symm
  · rcases List.mem_append.mp h with h | h
    · obtain ⟨f, _, hf⟩ := List.mem_flatMap.mp h
      rw [f.lines_eq] at hf
      rcases List.mem_append.mp hf with hf | hf
      · obtain ⟨c, s, -, hs⟩ := toList_of_mem_blockLines hf
        exact absurd hs (List.cons_ne_nil _ _).symm
      · have e := List.mem_singleton.mp hf
        unfold Field.line at e
        simp only [String.append_assoc] at e
        exact ne_empty_of_front (by decide) _ e.symm
    · exact absurd (List.mem_singleton.mp h) (by decide)

end Interface

namespace Declarations
variable {d : Declarations} {i : Interface}

/-- **The base interface declares the three keys that every node may have.** -/
theorem keysOf_base (hbase : isIdentifier d.baseName = true) :
    keysOf d.baseName d.lines = baseKeys.map quote := by
  have hopening : declaredName? ("export interface " ++ d.baseName ++ " \x7b") = some d.baseName :=
    declaredName?_open (by decide) hbase (by decide)
  have hfront : d.baseName ∉ d.bannerLines.filterMap declaredName? := by
    rw [d.quiet_bannerLines.filterMap_eq]
    exact List.not_mem_nil
  have hlines : d.lines = d.bannerLines ++ ("export interface " ++ d.baseName ++ " \x7b") ::
      (["  \"@context\"?: string | Record<string, unknown> | " ++
        "Array<string | Record<string, unknown>>;", "  \"@type\"?: string;", "  \"@id\"?: string;",
        "\x7d"] ++ "" :: (d.interfaces.flatMap Interface.lines ++ d.unionLines ++ d.typeMapLines ++
          d.tableLines)) := by
    unfold lines baseLines
    simp only [List.append_assoc, List.cons_append, List.nil_append]
  unfold keysOf
  rw [hlines, bodyOf_eq hfront hopening (by decide) (Or.inr ⟨_, rfl⟩)]
  decide

/-- **The interface of a class declares the type of its nodes and one key for each field.** -/
theorem keysOf_interface (hnodup : d.declaredNames.Nodup) (hi : i ∈ d.interfaces)
    (hname : isIdentifier i.name = true) :
    keysOf i.name d.lines = quote "@type" :: i.fields.map fun f => quote f.key := by
  obtain ⟨before, after, hsplit⟩ := List.append_of_mem hi
  have hlines : d.lines = (d.bannerLines ++ d.baseLines ++ before.flatMap Interface.lines ++
      blockLines i.comment "") ++ i.headLine :: (i.body ++ "" ::
        (after.flatMap Interface.lines ++ d.unionLines ++ d.typeMapLines ++ d.tableLines)) := by
    unfold lines
    rw [hsplit, List.flatMap_append, List.flatMap_cons, i.lines_eq, i.innerLines_eq]
    simp only [List.append_assoc, List.cons_append, List.nil_append]
  unfold declaredNames at hnodup
  rw [hlines] at hnodup
  unfold keysOf
  rw [hlines, bodyOf_of_nodup hnodup (Interface.declaredName?_headLine hname) i.empty_not_mem_body,
    i.filterMap_body]

end Declarations

end TypedVocabulary
