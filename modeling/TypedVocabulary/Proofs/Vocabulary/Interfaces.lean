import TypedVocabulary.Proofs.Extraction
import TypedVocabulary.Proofs.Vocabulary.Hierarchy

/-!
# One interface for each class

In a graph that keeps every term under its own name, as extraction does, each class has an identifier and
exactly one interface:

* `Vocabulary.declarations_isOk`       building can only fail for the base name;
* `Vocabulary.map_className`           the interfaces stand in the order of their classes;
* `Vocabulary.exists_interface`        a class has one interface;
* `Vocabulary.interfaces_nodup`        no two interfaces have the same name.
-/

namespace TypedVocabulary

/-- a member whose key no other member has is all that a search by its key finds -/
theorem filter_eq_singleton {α : Type} {f : α → String} {as : List α} {a : α}
    (h : (as.map f).Nodup) (ha : a ∈ as) : as.filter (f · = f a) = [a] := by
  induction as with
  | nil => exact absurd ha (List.not_mem_nil)
  | cons b as ih =>
    obtain ⟨hb, hnd⟩ := List.nodup_cons.mp h
    rcases List.mem_cons.mp ha with rfl | ha
    · have hnone : as.filter (f · = f a) = [] := by
        rw [List.filter_eq_nil_iff]
        intro x hx e
        exact hb (List.mem_map.mpr ⟨x, hx, of_decide_eq_true e⟩)
      rw [List.filter_cons_of_pos (by simp), hnone]
    · have hne : ¬ f b = f a := fun e => hb (e ▸ List.mem_map.mpr ⟨a, ha, rfl⟩)
      rw [List.filter_cons_of_neg (by simpa using hne), ih hnd ha]

/-- names that are looked up to values of these names -/
theorem map_filterMap_eq {α : Type} {f : String → Option α} {key : α → String} {names : List String}
    (h : ∀ n ∈ names, ∃ a, f n = some a ∧ key a = n) : (names.filterMap f).map key = names := by
  rw [List.map_filterMap]
  conv_rhs => rw [← List.filterMap_some (l := names)]
  refine List.filterMap_congr fun n hn => ?_
  obtain ⟨a, ha, e⟩ := h n hn
  rw [ha, Option.map_some, e]

namespace Vocabulary

section
variable {settings : Settings} {g : Graph} {d : Declarations} {c n : String}

/-! ## classes and their identifiers -/

theorem isSome_identifier? : ((ofGraph settings g).identifier? n).isSome ↔ g.isClass n = true := by
  show ((IdentifierTable.ofNames _ _).get? n).isSome ↔ _
  rw [IdentifierTable.isSome_get?, Graph.isClass_iff]
  exact NameMap.mem_keySet

theorem mem_orderedClasses {k : ClassDecl} : k ∈ (ofGraph settings g).orderedClasses ↔
    ∃ n, g.class? n = some k := by
  unfold orderedClasses
  rw [List.mem_filterMap]
  constructor
  · rintro ⟨n, _, h⟩
    exact ⟨n, h⟩
  · rintro ⟨n, h⟩
    refine ⟨n, Graph.mem_linearize.mpr ?_, h⟩
    show (g.class? n).isSome = true
    rw [h]
    rfl

theorem map_name_orderedClasses (settings : Settings) (hk : g.ClassesByName) :
    (ofGraph settings g).orderedClasses.map ClassDecl.name = g.linearize.order := by
  refine map_filterMap_eq fun n hn => ?_
  obtain ⟨k, h⟩ := Option.isSome_iff_exists.mp (Graph.mem_linearize.mp hn)
  exact ⟨k, h, hk n k h⟩

theorem isClass_of_class? {k : ClassDecl} (hk : g.KeyedByName) (h : g.class? n = some k) :
    g.isClass k.name = true := by
  show (g.class? k.name).isSome = true
  rw [hk.className n k h, h]
  rfl

/-! ## building -/

theorem exists_interfaceOf (settings : Settings) {k : ClassDecl} (h : g.isClass k.name = true) :
    ∃ i, (ofGraph settings g).interfaceOf k = .ok i := by
  obtain ⟨name, hname⟩ := Option.isSome_iff_exists.mp (isSome_identifier?.mpr h)
  have hparents : ∀ p ∈ ((ofGraph settings g).extendable k.name).toList,
      ∃ i, (ofGraph settings g).identifier? p = some i := fun p hp =>
    Option.isSome_iff_exists.mp
      (isSome_identifier?.mpr (mem_extendable.mp hp).1.isClass_right)
  obtain ⟨parents, hparents⟩ := exists_forall₂ hparents
  exact ⟨_, interfaceOf_eq_ok_iff.mpr ⟨name, parents, hname, hparents, rfl⟩⟩

theorem interfaceOf_isOk (settings : Settings) (hk : g.KeyedByName) {k : ClassDecl}
    (h : k ∈ (ofGraph settings g).orderedClasses) :
    ∃ i, (ofGraph settings g).interfaceOf k = .ok i := by
  obtain ⟨n, hn⟩ := mem_orderedClasses.mp h
  exact exists_interfaceOf settings (isClass_of_class? hk hn)

/-- **Building fails only where the base name cannot be declared.** -/
theorem declarations_isOk (settings : Settings) (hk : g.KeyedByName)
    (hbase : isDeclarationName settings.output.baseName = true) :
    ∃ d, (ofGraph settings g).declarations = .ok d := by
  obtain ⟨interfaces, hi⟩ := exists_forall₂ fun _ => interfaceOf_isOk settings hk
  exact ⟨_, declarations_eq_ok_iff.mpr ⟨hbase, interfaces, hi, rfl⟩⟩

theorem generate_isOk (settings : Settings) (hk : g.KeyedByName)
    (hbase : isDeclarationName settings.output.baseName = true) :
    ∃ text, Generator.typescript.generate (ofGraph settings g) = .ok text := by
  obtain ⟨d, hd⟩ := declarations_isOk settings hk hbase
  exact ⟨_, Generator.typescript_generate_eq_ok_iff.mpr ⟨d, hd, rfl⟩⟩

/-! ## interfaces -/

theorem className_of_interfaceOf {v : Vocabulary} {k : ClassDecl} {i : Interface}
    (h : v.interfaceOf k = .ok i) : i.className = k.name := by
  obtain ⟨_, _, _, _, rfl⟩ := interfaceOf_eq_ok_iff.mp h
  rfl

/-- **The interfaces stand in the order of their classes.** -/
theorem map_className (hk : g.ClassesByName) (hd : (ofGraph settings g).declarations = .ok d) :
    d.interfaces.map Interface.className = g.linearize.order := by
  obtain ⟨_, interfaces, hf, rfl⟩ := declarations_eq_ok_iff.mp hd
  rw [← map_name_orderedClasses settings hk, eq_comm, ← List.forall₂_eq_eq_eq,
    List.forall₂_map_left_iff, List.forall₂_map_right_iff]
  exact hf.imp fun _ _ h => (className_of_interfaceOf h).symm

theorem map_className_nodup (hk : g.ClassesByName)
    (hd : (ofGraph settings g).declarations = .ok d) :
    (d.interfaces.map Interface.className).Nodup := by
  rw [map_className hk hd]
  exact g.linearize_nodup

/-- **A class has exactly one interface.** -/
theorem exists_interface (hk : g.KeyedByName) (hd : (ofGraph settings g).declarations = .ok d)
    (hc : g.isClass c = true) : ∃ i ∈ d.interfaces, i.className = c ∧
      d.interfaces.filter (·.className = c) = [i] := by
  have hmem : c ∈ d.interfaces.map Interface.className := by
    rw [map_className hk hd]
    exact Graph.mem_linearize.mpr hc
  obtain ⟨i, hi, rfl⟩ := List.mem_map.mp hmem
  exact ⟨i, hi, rfl, filter_eq_singleton (map_className_nodup hk hd) hi⟩

/-- **No two interfaces have the same name.** -/
theorem interfaces_nodup (hk : g.ClassesByName) (hd : (ofGraph settings g).declarations = .ok d) :
    (d.interfaces.map Interface.name).Nodup := by
  -- interfaces of one name would be interfaces of one class
  have h := List.pairwise_map.mp (map_className_nodup hk hd)
  refine List.pairwise_map.mpr (h.imp_of_mem fun {i j} hi hj hne e => hne ?_)
  have hj' := (interface_spec hd hj).1
  rw [← e] at hj'
  exact identifier?_inj (interface_spec hd hi).1 hj'

end

end Vocabulary

end TypedVocabulary
