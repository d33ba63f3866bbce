import Mathlib.Data.List.TakeWhile
import TypedVocabulary.Document.Format

/-!
# The format of a location

What the extension of a location is, said of the location itself: the last component of a path is found
without taking the path apart (`EndsIn`), and its extension is what stands behind its last dot.  A path has
one format by its extension (`HasFormat`), and a location without a query and a fragment is given that one:

* `getLast?_components`    the last component of a path;
* `suggested_iff`          the format that the extension of a path names, if it names one;
* `infer_append_mark`      a query or a fragment behind a location changes nothing;
* `infer_format`           what is inferred for a location, with and without them.

A file name may hold the characters that open a query or a fragment.  There a file is given the format of
the path in front of them, whatever its own extension is (`infer_format_numbered`).
-/

namespace TypedVocabulary.DocumentFormat

theorem exists_last_cut {α : Type} {a : α} {l : List α} (h : a ∈ l) :
    ∃ front back, l = front ++ a :: back ∧ a ∉ back := by
  obtain ⟨as, bs, e, hmem⟩ := List.eq_append_cons_of_mem (List.mem_reverse.mpr h)
  refine ⟨bs.reverse, as.reverse, ?_, fun h => hmem (List.mem_reverse.mp h)⟩
  rw [← List.reverse_reverse l, e, List.reverse_append, List.reverse_cons, List.append_assoc,
    List.singleton_append]

/-! ## the last component -/

/-- a part of a path that leads nowhere further: slashes, and single dots behind them -/
inductive Idle : List Char → Prop
  | nil : Idle []
  | slash {rest : List Char} (h : Idle rest) : Idle ('/' :: rest)
  | dot {rest : List Char} (h : Idle rest) : Idle ('/' :: '.' :: rest)

/-- a component that counts -/
def IsComponent (name : List Char) : Prop := name ≠ [] ∧ name ≠ ['.'] ∧ '/' ∉ name

/-- the last component of `path` is `name` -/
def EndsIn (path name : List Char) : Prop :=
  ∃ front rest, path = front ++ name ++ rest ∧ (∀ c ∈ front.getLast?, c = '/') ∧
    IsComponent name ∧ Idle rest

section
variable {path name rest : List Char}

theorem components_append_slash (front back : List Char) :
    components (front ++ '/' :: back) = components front ++ components back := by
  unfold components
  rw [List.splitOn_append_cons_self, List.filter_append]

theorem components_of_isComponent (h : IsComponent name) : components name = [name] := by
  unfold components
  rw [List.splitOn_eq_singleton h.2.2]
  simp [h.1, h.2.1]

theorem components_append_idle (h : Idle rest) (front : List Char) :
    components (front ++ rest) = components front := by
  have hnil : components [] = [] := rfl
  have hdot : components ['.'] = [] := by decide
  induction h generalizing front with
  | nil => rw [List.append_nil]
  | slash _ ih =>
    have hrest := ih []
    rw [List.nil_append, hnil] at hrest
    rw [components_append_slash, hrest, List.append_nil]
  | dot _ ih =>
    rw [components_append_slash, ← List.singleton_append, ih ['.'], hdot, List.append_nil]

theorem Idle.append {more : List Char} (h : Idle rest) (hmore : Idle more) : Idle (rest ++ more) := by
  induction h with
  | nil => exact hmore
  | slash _ ih => exact .slash ih
  | dot _ ih => exact .dot ih

theorem EndsIn.getLast? (h : EndsIn path name) : (components path).getLast? = some name := by
  obtain ⟨front, rest, rfl, hfront, hname, hrest⟩ := h
  rw [components_append_idle hrest]
  by_cases hnil : front = []
  · rw [hnil, List.nil_append, components_of_isComponent hname]
    rfl
  · obtain ⟨last, hlast⟩ := Option.ne_none_iff_exists'.mp (mt List.getLast?_eq_none_iff.mp hnil)
    obtain ⟨dirs, e⟩ := List.getLast?_eq_some_iff.mp hlast
    rw [e, hfront last hlast, List.append_assoc, List.singleton_append, components_append_slash,
      components_of_isComponent hname]
    exact List.getLast?_concat

theorem eq_of_not_isComponent (h : ¬ IsComponent name) (hslash : '/' ∉ name) :
    name = [] ∨ name = ['.'] := by
  by_contra hne
  rw [not_or] at hne
  exact h ⟨hne.1, hne.2, hslash⟩

theorem EndsIn.append (h : EndsIn path name) (hrest : Idle rest) : EndsIn (path ++ rest) name := by
  obtain ⟨front, idle, rfl, hfront, hname, hidle⟩ := h
  exact ⟨front, idle ++ rest, List.append_assoc .., hfront, hname, hidle.append hrest⟩

theorem endsIn_or_components_eq_nil (path : List Char) :
    (∃ name, EndsIn path name) ∨ components path = [] := by
  induction hlength : path.length using Nat.strongRecOn generalizing path with
  | ind n ih =>
  by_cases hslash : '/' ∈ path
  · -- what stands behind the last slash is the component, or leads nowhere further
    obtain ⟨front, back, rfl, hback⟩ := exists_last_cut hslash
    by_cases hname : IsComponent back
    · exact Or.inl ⟨back, front ++ ['/'], [], by simp, by simp, hname, .nil⟩
    · have hidle : Idle ('/' :: back) := by
        rcases eq_of_not_isComponent hname hback with rfl | rfl
        · exact .slash .nil
        · exact .dot .nil
      have hshorter : front.length < n := by
        rw [← hlength, List.length_append, List.length_cons]
        omega
      rcases ih front.length hshorter front rfl with ⟨name, h⟩ | h
      · exact Or.inl ⟨name, h.append hidle⟩
      · exact Or.inr ((components_append_idle hidle front).trans h)
  · by_cases hname : IsComponent path
    · exact Or.inl ⟨path, [], [], (List.append_nil path).symm, nofun, hname, .nil⟩
    · rcases eq_of_not_isComponent hname hslash with rfl | rfl
      · exact Or.inr rfl
      · exact Or.inr (by decide)

/-- **The last component of a path.** -/
theorem getLast?_components : (components path).getLast? = some name ↔ EndsIn path name := by
  constructor
  · intro h
    rcases endsIn_or_components_eq_nil path with ⟨other, hother⟩ | hnil
    · rw [hother.getLast?] at h
      cases h
      exact hother
    · rw [hnil] at h
      cases h
  · exact EndsIn.getLast?

end

/-! ## the extension -/

/-- what stands behind the last dot of `name`, if something stands in front of it -/
def HasExtension (name extension : List Char) : Prop :=
  ∃ stem, name = stem ++ '.' :: extension ∧ stem ≠ [] ∧ '.' ∉ extension

section
variable {path extension name : List Char} {f : DocumentFormat}

theorem extensionOf?_of_hasExtension (h : HasExtension name extension) (hup : name ≠ ['.', '.']) :
    extensionOf? name = some extension := by
  obtain ⟨stem, rfl, hstem, hdot⟩ := h
  have hstop : ∀ c ∈ extension.reverse, decide (c ≠ '.') = true := by
    intro c hc
    have hne : c ≠ '.' := fun e => hdot (e ▸ List.mem_reverse.mp hc)
    simpa using hne
  have hreverse : (stem ++ '.' :: extension).reverse = extension.reverse ++ '.' :: stem.reverse := by
    simp
  have hfirst : decide ('.' ≠ '.') = false := by decide
  unfold extensionOf?
  rw [if_neg hup, hreverse, List.takeWhile_append_of_pos hstop, List.dropWhile_append_of_pos hstop]
  cases hback : stem.reverse with
  | nil => exact absurd (List.reverse_eq_nil_iff.mp hback) hstem
  | cons c cs => simp

theorem hasExtension_of_extensionOf? (h : extensionOf? name = some extension) :
    HasExtension name extension := by
  unfold extensionOf? at h
  split at h
  · cases h
  · dsimp only at h
    split at h
    · rename_i c cs hback
      have hcut := List.takeWhile_append_dropWhile (p := (· ≠ '.')) (l := name.reverse)
      rw [hback] at hcut
      have hname := (List.reverse_reverse name).symm.trans (congrArg List.reverse hcut.symm)
      cases h
      refine ⟨(c :: cs).reverse, ?_, by simp, ?_⟩
      · exact hname.trans (by simp)
      · intro hdot
        have hkept := List.mem_takeWhile_imp (List.mem_reverse.mp hdot)
        exact absurd hkept (by decide)
    · cases h

/-- the extensions of a format, in letters of either case -/
theorem ofExtension?_eq_some_iff {extension : String} : ofExtension? extension = some f ↔
    String.ofList (extension.toList.map Char.toLower) ∈ f.extensions := by
  -- no two formats share an extension
  have hown : ∀ e ∈ f.extensions, all.find? (fun g => g.extensions.contains e) = some f := by
    cases f <;> decide
  constructor
  · intro h
    have hlisted := List.find?_some h
    exact List.contains_iff_mem.mp hlisted
  · intro h
    exact hown _ h

/-- the format that the extension of a path names -/
def Suggests (path : List Char) (f : DocumentFormat) : Prop :=
  ∃ name extension, EndsIn path name ∧ HasExtension name extension ∧
    ofExtension? (String.ofList extension) = some f

/-- **The format that is read off a path is the one that its extension names.** -/
theorem suggested_iff : (pathExtension? path).bind ofExtension? = some f ↔ Suggests path f := by
  unfold pathExtension?
  constructor
  · intro h
    obtain ⟨text, htext, hformat⟩ := Option.bind_eq_some_iff.mp h
    obtain ⟨name, hname, htext⟩ := Option.bind_eq_some_iff.mp htext
    obtain ⟨extension, hextension, rfl⟩ := Option.map_eq_some_iff.mp htext
    exact ⟨name, extension, getLast?_components.mp hname, hasExtension_of_extensionOf? hextension,
      hformat⟩
  · intro ⟨name, extension, hname, hextension, hformat⟩
    have hup : name ≠ ['.', '.'] := by
      -- nothing stands behind the last dot of `..`, and that is no extension of a format
      intro hup
      obtain ⟨stem, hcut, hstem, _⟩ := hextension
      have hlength := congrArg List.length (hup.symm.trans hcut)
      have hpos := List.length_pos_iff.mpr hstem
      rw [List.length_append, List.length_cons] at hlength
      have hnil : extension = [] := List.length_eq_zero_iff.mp (by simp at hlength; omega)
      rw [hnil] at hformat
      cases hformat
    rw [getLast?_components.mpr hname, Option.bind_some,
      extensionOf?_of_hasExtension hextension hup]
    exact hformat

end

/-! ## the format -/

/-- the format of the file at `path` by its extension; one without an extension that names a format counts as
JSON-LD -/
def HasFormat (path : List Char) (f : DocumentFormat) : Prop :=
  Suggests path f ∨ f = .jsonLd ∧ ∀ g, ¬ Suggests path g

theorem hasFormat_iff {path : List Char} {f : DocumentFormat} :
    HasFormat path f ↔ ((pathExtension? path).bind ofExtension?).getD .jsonLd = f := by
  unfold HasFormat
  simp only [← suggested_iff]
  cases (pathExtension? path).bind ofExtension? with
  | none => simp [eq_comm]
  | some g => simp

/-- a character that opens a query or a fragment -/
def IsMark (c : Char) : Prop := c = '?' ∨ c = '#'

section
variable {location rest : String} {path : List Char} {c : Char}

theorem withoutQuery_of_unmarked (h : ∀ c ∈ path, ¬ IsMark c) : withoutQuery path = path := by
  unfold withoutQuery
  apply List.takeWhile_eq_self_iff.mpr
  intro c hc
  have hc := h c hc
  unfold IsMark at hc
  simpa using hc

theorem withoutQuery_append_mark (h : IsMark c) (path rest : List Char) :
    withoutQuery (path ++ c :: rest) = withoutQuery path := by
  have hstop : (decide (c ≠ '?') && decide (c ≠ '#')) = false := by
    rcases h with rfl | rfl <;> decide
  unfold withoutQuery
  induction path with
  | nil => exact List.takeWhile_cons_of_neg (by rw [hstop]; exact Bool.false_ne_true)
  | cons d path ih => rw [List.cons_append, List.takeWhile_cons, List.takeWhile_cons, ih]

/-- **A query or a fragment behind a location changes nothing.** -/
theorem infer_append_mark (h : IsMark c) (location rest : String) :
    infer (location ++ String.singleton c ++ rest) = infer location := by
  have hcut : (location ++ String.singleton c ++ rest).toList =
      location.toList ++ c :: rest.toList := by
    simp
  unfold infer
  rw [hcut, withoutQuery_append_mark h]

theorem exists_path (l : List Char) : ∃ path rest, l = path ++ rest ∧ (∀ c ∈ path, ¬ IsMark c) ∧
    ∀ c ∈ rest.head?, IsMark c := by
  induction l with
  | nil => exact ⟨[], [], rfl, nofun, nofun⟩
  | cons c l ih =>
    by_cases hc : IsMark c
    · refine ⟨[], c :: l, rfl, nofun, ?_⟩
      intro d hd
      cases hd
      exact hc
    · obtain ⟨path, rest, rfl, hpath, hrest⟩ := ih
      exact ⟨c :: path, rest, rfl, List.forall_mem_cons.mpr ⟨hc, hpath⟩, hrest⟩

theorem withoutQuery_append {path rest : List Char} (hpath : ∀ c ∈ path, ¬ IsMark c)
    (hrest : ∀ c ∈ rest.head?, IsMark c) : withoutQuery (path ++ rest) = path := by
  cases rest with
  | nil =>
    rw [List.append_nil]
    exact withoutQuery_of_unmarked hpath
  | cons c rest =>
    rw [withoutQuery_append_mark (hrest c rfl)]
    exact withoutQuery_of_unmarked hpath

theorem hasFormat_infer (location : String) :
    HasFormat (withoutQuery location.toList) (infer location) := hasFormat_iff.mpr rfl

end

/-- **The format of a location follows the extension of its path, up to a query or a fragment.**  A location
has one format by its extension, where the extensions of a format count in letters of either case.  What is
inferred is the format of the path in front of the first `?` or `#`, so a location without them is given its
own, and any other exactly if that path has the same.  One of them behind a location, with any text,
changes nothing.  This holds for remote locations and for files. -/
theorem infer_format (location : String) :
    (∃! f, HasFormat location.toList f) ∧
    (∀ extension f, ofExtension? extension = some f ↔
      String.ofList (extension.toList.map Char.toLower) ∈ f.extensions) ∧
    ((∀ c ∈ location.toList, ¬ IsMark c) → HasFormat location.toList (infer location)) ∧
    (∃ path rest, location.toList = path ++ rest ∧ (∀ c ∈ path, ¬ IsMark c) ∧
      (∀ c ∈ rest.head?, IsMark c) ∧ HasFormat path (infer location) ∧
      (HasFormat location.toList (infer location) ↔
        ∃ f, HasFormat location.toList f ∧ HasFormat path f)) ∧
    ∀ c rest, IsMark c → infer (location ++ String.singleton c ++ rest) = infer location := by
  have hunique : ∀ {path f g}, HasFormat path f → HasFormat path g → f = g := by
    intro path f g hf hg
    exact (hasFormat_iff.mp hf).symm.trans (hasFormat_iff.mp hg)
  have hinfer := hasFormat_infer location
  refine ⟨⟨_, hasFormat_iff.mpr rfl, fun f hf => hunique hf (hasFormat_iff.mpr rfl)⟩,
    fun extension f => ofExtension?_eq_some_iff, fun hplain => ?_, ?_,
    fun c rest hc => infer_append_mark hc location rest⟩
  · rw [withoutQuery_of_unmarked hplain] at hinfer
    exact hinfer
  · obtain ⟨path, rest, hcut, hpath, hrest⟩ := exists_path location.toList
    -- what stands in front of the first mark decides alone
    have hfront : HasFormat path (infer location) := by
      rw [hcut, withoutQuery_append hpath hrest] at hinfer
      exact hinfer
    refine ⟨path, rest, hcut, hpath, hrest, hfront, fun h => ⟨_, h, hfront⟩, ?_⟩
    intro ⟨f, hlocation, hsame⟩
    rw [hunique hfront hsame]
    exact hlocation

/-- a file of numbered terms: what its name goes on with behind the mark does not count -/
theorem infer_format_numbered :
    isRemote "terms#2.ttl" = false ∧ HasFormat "terms#2.ttl".toList .turtle ∧
      infer "terms#2.ttl" = .jsonLd ∧
      ¬ ∀ location, isRemote location = false → HasFormat location.toList (infer location) := by
  have hlocal : isRemote "terms#2.ttl" = false := by decide
  have hformat : HasFormat "terms#2.ttl".toList .turtle := hasFormat_iff.mpr (by decide +kernel)
  have hinfer : infer "terms#2.ttl" = .jsonLd := by decide +kernel
  refine ⟨hlocal, hformat, hinfer, ?_⟩
  intro h
  have hclaimed := h "terms#2.ttl" hlocal
  rw [hinfer, hasFormat_iff, hasFormat_iff.mp hformat] at hclaimed
  cases hclaimed

end TypedVocabulary.DocumentFormat
