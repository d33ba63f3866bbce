import Mathlib.Data.List.Forall2
import TypedVocabulary.Output.Generator

/-!
# Building declarations

Declarations are built step by step, and each step can fail.  Here every step is opened once:

* `Vocabulary.interfaceOf_eq_ok_iff`    what the interface of a class holds when it is built;
* `Vocabulary.declarations_eq_ok_iff`   declarations are built exactly when the base name can be
                                        declared and the interface of every class can be built;
* `Vocabulary.interface_spec`           what the interfaces of built declarations hold;
* `Vocabulary.declarations_eq_error_iff`   when building fails, and with which fault;
* `Generator.typescript_generate_eq_ok_iff`   what is generated are the lines of built declarations.
-/

namespace TypedVocabulary

/-! ## lists of steps that can fail -/

section
variable {ε α β γ : Type}

theorem bind_eq_ok_iff {x : Except ε α} {f : α → Except ε β} {b : β} :
    (x >>= f) = .ok b ↔ ∃ a, x = .ok a ∧ f a = .ok b := by
  cases x with
  | error e =>
    constructor
    · intro h
      cases h
    · rintro ⟨a, h, _⟩
      cases h
  | ok a =>
    constructor
    · intro h
      exact ⟨a, rfl, h⟩
    · rintro ⟨a', h, hf⟩
      cases h
      exact hf

theorem bind_eq_error_iff {x : Except ε α} {f : α → Except ε β} {e : ε} :
    (x >>= f) = .error e ↔ x = .error e ∨ ∃ a, x = .ok a ∧ f a = .error e := by
  cases x with
  | error e' =>
    constructor
    · intro h
      cases h
      exact Or.inl rfl
    · rintro (h | ⟨a, h, _⟩)
      · cases h
        rfl
      · cases h
  | ok a =>
    constructor
    · intro h
      exact Or.inr ⟨a, rfl, h⟩
    · rintro (h | ⟨a', h, hf⟩)
      · cases h
      · cases h
        exact hf

/-- a list of steps succeeds when each of them does -/
theorem mapM_eq_ok_iff {f : α → Except ε β} {as : List α} {bs : List β} :
    as.mapM f = .ok bs ↔ List.Forall₂ (fun a b => f a = .ok b) as bs := by
  induction as generalizing bs with
  | nil =>
    rw [List.mapM_nil, List.forall₂_nil_left_iff]
    constructor
    · intro h
      cases h
      rfl
    · rintro rfl
      rfl
  | cons a as ih =>
    rw [List.mapM_cons, bind_eq_ok_iff, List.forall₂_cons_left_iff]
    constructor
    · rintro ⟨b, hb, h⟩
      obtain ⟨bs', hbs, h⟩ := bind_eq_ok_iff.mp h
      cases h
      exact ⟨b, bs', hb, ih.mp hbs, rfl⟩
    · rintro ⟨b, bs', hb, hbs, rfl⟩
      exact ⟨b, hb, bind_eq_ok_iff.mpr ⟨bs', ih.mpr hbs, rfl⟩⟩

/-- a list of steps fails as the first of them that fails -/
theorem mapM_eq_error_iff {f : α → Except ε β} {as : List α} {e : ε} :
    as.mapM f = .error e ↔ ∃ a, as.find? (fun a => !(f a).isOk) = some a ∧ f a = .error e := by
  induction as with
  | nil =>
    rw [List.mapM_nil, List.find?_nil]
    constructor
    · intro h
      cases h
    · rintro ⟨a, h, _⟩
      cases h
  | cons a as ih =>
    rw [List.mapM_cons, bind_eq_error_iff]
    cases ha : f a with
    | error e' =>
      rw [List.find?_cons_of_pos (by rw [ha]; rfl)]
      constructor
      · rintro (h | ⟨b, h, _⟩)
        · exact ⟨a, rfl, ha.trans h⟩
        · cases h
      · rintro ⟨_, h, hf⟩
        cases h
        exact Or.inl (ha.symm.trans hf)
    | ok b =>
      rw [List.find?_cons_of_neg (by rw [ha]; exact Bool.false_ne_true), ← ih]
      constructor
      · rintro (h | ⟨b', _, h⟩)
        · cases h
        · rcases bind_eq_error_iff.mp h with h | ⟨bs, _, h⟩
          · exact h
          · cases h
      · intro h
        exact Or.inr ⟨b, rfl, bind_eq_error_iff.mpr (Or.inl h)⟩

/-- what comes of a list of steps is what comes of its members -/
theorem forall₂_mem_right {r : α → β → Prop} {as : List α} {bs : List β}
    (h : List.Forall₂ r as bs) {b : β} (hb : b ∈ bs) : ∃ a ∈ as, r a b := by
  induction h with
  | nil => exact absurd hb (List.not_mem_nil)
  | cons hr _ ih =>
    rcases List.mem_cons.mp hb with rfl | hb
    · exact ⟨_, List.mem_cons_self .., hr⟩
    · obtain ⟨a, ha, h⟩ := ih hb
      exact ⟨a, List.mem_cons_of_mem _ ha, h⟩

/-- steps that can be taken one by one can be taken in a row -/
theorem exists_forall₂ {r : α → β → Prop} {as : List α} (h : ∀ a ∈ as, ∃ b, r a b) :
    ∃ bs, List.Forall₂ r as bs := by
  induction as with
  | nil => exact ⟨[], .nil⟩
  | cons a as ih =>
    obtain ⟨b, hb⟩ := h a (List.mem_cons_self ..)
    obtain ⟨bs, hbs⟩ := ih fun a ha => h a (List.mem_cons_of_mem _ ha)
    exact ⟨b :: bs, .cons hb hbs⟩

theorem forall₂_filterMap {r : α → α → Prop} {f g : String → Option α}
    (h : ∀ n, Option.Rel r (f n) (g n)) (names : List String) :
    List.Forall₂ r (names.filterMap f) (names.filterMap g) :=
  List.rel_filterMap (R := (· = ·)) (fun a _ e => e ▸ h a) (List.forall₂_same.mpr fun _ _ => rfl)

theorem map_congr_forall₂ {r : α → α → Prop} {f g : α → β} {as bs : List α}
    (hab : List.Forall₂ r as bs) (h : ∀ a b, r a b → f a = g b) : as.map f = bs.map g := by
  induction hab with
  | nil => rfl
  | cons hr _ ih => rw [List.map_cons, List.map_cons, h _ _ hr, ih]

theorem mapM_congr_forall₂ {r : α → α → Prop} {f g : α → Except ε β} {as bs : List α}
    (hab : List.Forall₂ r as bs) (h : ∀ a b, r a b → f a = g b) : as.mapM f = bs.mapM g := by
  induction hab with
  | nil => rfl
  | cons hr _ ih => rw [List.mapM_cons, List.mapM_cons, h _ _ hr, ih]

theorem map_bind {x : Except ε α} {f : α → Except ε β} {g : β → γ} :
    (x >>= f).map g = x >>= fun a => (f a).map g := by
  cases x <;> rfl

/-- steps that do the same up to a change of what goes in and what comes out -/
theorem mapM_map {f : α → Except ε β} {f' : α → Except ε β} {k : α → α} {r : β → β} {as : List α}
    (h : ∀ a, f' (k a) = (f a).map r) : (as.map k).mapM f' = (as.mapM f).map (List.map r) := by
  induction as with
  | nil => rfl
  | cons a as ih =>
    rw [List.map_cons, List.mapM_cons, List.mapM_cons, h, ih]
    cases f a with
    | error => rfl
    | ok b => cases as.mapM f <;> rfl

end

/-! ## interfaces and declarations -/

namespace Vocabulary
variable {v : Vocabulary}

theorem identifier_eq_ok_iff {name i : String} :
    v.identifier name = .ok i ↔ v.identifier? name = some i := by
  unfold identifier
  cases v.identifier? name <;> simp

/-- the identifiers `parents` are those of the classes that `c` may extend -/
def ParentsNamed (v : Vocabulary) (c : String) (parents : List String) : Prop :=
  List.Forall₂ (fun p i => v.identifier? p = some i) (v.extendable c).toList parents

/-- **What the interface of a class holds.** -/
theorem interfaceOf_eq_ok_iff {c : ClassDecl} {i : Interface} :
    v.interfaceOf c = .ok i ↔ ∃ name parents, v.identifier? c.name = some name ∧
      v.ParentsNamed c.name parents ∧
      i = ⟨v.comment? c.comment, name, v.settings.output.baseName :: parents, c.name,
        v.fields c.name⟩ := by
  unfold interfaceOf ParentsNamed
  rw [bind_eq_ok_iff]
  constructor
  · rintro ⟨name, hname, h⟩
    obtain ⟨parents, hparents, h⟩ := bind_eq_ok_iff.mp h
    cases h
    refine ⟨name, parents, identifier_eq_ok_iff.mp hname, ?_, rfl⟩
    exact (mapM_eq_ok_iff.mp hparents).imp fun _ _ => identifier_eq_ok_iff.mp
  · rintro ⟨name, parents, hname, hparents, rfl⟩
    refine ⟨name, identifier_eq_ok_iff.mpr hname, bind_eq_ok_iff.mpr ⟨parents, ?_, rfl⟩⟩
    exact mapM_eq_ok_iff.mpr (hparents.imp fun _ _ => identifier_eq_ok_iff.mpr)

/-- **When declarations are built, and what they hold.** -/
theorem declarations_eq_ok_iff {d : Declarations} :
    v.declarations = .ok d ↔ isDeclarationName v.settings.output.baseName = true ∧
      ∃ interfaces, List.Forall₂ (fun c i => v.interfaceOf c = .ok i) v.orderedClasses interfaces ∧
        d = ⟨v.settings.dialect.namespaceIri, v.settings.output.header,
          v.settings.output.baseName, interfaces, v.graph.classes.keys, v.identifiers.toList⟩ := by
  unfold declarations
  cases hb : isDeclarationName v.settings.output.baseName with
  | false =>
    constructor
    · intro h
      cases h
    · rintro ⟨h, _⟩
      cases h
  | true =>
    show (v.orderedClasses.mapM v.interfaceOf >>= fun interfaces => .ok _) = _ ↔ _
    rw [bind_eq_ok_iff]
    constructor
    · rintro ⟨interfaces, hi, h⟩
      cases h
      exact ⟨rfl, interfaces, mapM_eq_ok_iff.mp hi, rfl⟩
    · rintro ⟨_, interfaces, hi, rfl⟩
      exact ⟨interfaces, mapM_eq_ok_iff.mpr hi, rfl⟩

/-- **When building fails, and with which fault.** -/
theorem declarations_eq_error_iff {fault : GenerationFault} : v.declarations = .error fault ↔
    (isDeclarationName v.settings.output.baseName = false ∧
      fault = .config (.unusableBase v.settings.output.baseName)) ∨
    (isDeclarationName v.settings.output.baseName = true ∧
      v.orderedClasses.mapM v.interfaceOf = .error fault) := by
  unfold declarations
  cases isDeclarationName v.settings.output.baseName with
  | false =>
    constructor
    · intro h
      cases h
      exact Or.inl ⟨rfl, rfl⟩
    · rintro (⟨_, rfl⟩ | ⟨h, _⟩)
      · rfl
      · cases h
  | true =>
    show (v.orderedClasses.mapM v.interfaceOf >>= fun interfaces => .ok _) = _ ↔ _
    rw [bind_eq_error_iff]
    constructor
    · rintro (h | ⟨_, _, h⟩)
      · exact Or.inr ⟨rfl, h⟩
      · cases h
    · rintro (⟨h, _⟩ | ⟨_, h⟩)
      · cases h
      · exact Or.inl h

/-- **What the interfaces hold once they are built.** -/
theorem interface_spec {d : Declarations} (hd : v.declarations = .ok d) {i : Interface}
    (hi : i ∈ d.interfaces) : v.identifier? i.className = some i.name ∧
      (∃ parents, v.ParentsNamed i.className parents ∧
        i.supertypes = v.settings.output.baseName :: parents) ∧
      i.fields = v.fields i.className := by
  obtain ⟨_, interfaces, hf, rfl⟩ := declarations_eq_ok_iff.mp hd
  obtain ⟨c, _, hc⟩ := forall₂_mem_right hf hi
  obtain ⟨name, parents, hname, hparents, rfl⟩ := interfaceOf_eq_ok_iff.mp hc
  exact ⟨hname, ⟨parents, hparents, rfl⟩, rfl⟩

end Vocabulary

/-! ## generators -/

namespace Generator
variable {v : Vocabulary} {text : String}

theorem typescript_generate (v : Vocabulary) :
    typescript.generate v = v.declarations.map Declarations.text := by
  rw [typescript]

theorem manifest_generate (v : Vocabulary) :
    manifest.generate v = .ok v.manifest.text := by
  rw [manifest]

/-- what is generated are the lines of the declarations -/
theorem typescript_generate_eq_ok_iff : typescript.generate v = .ok text ↔
    ∃ d, v.declarations = .ok d ∧ text = unlines d.lines := by
  rw [typescript_generate]
  cases v.declarations with
  | error e =>
    constructor
    · intro h
      cases h
    · rintro ⟨d, h, _⟩
      cases h
  | ok d =>
    constructor
    · intro h
      cases h
      exact ⟨d, rfl, rfl⟩
    · rintro ⟨_, h, rfl⟩
      cases h
      rfl

theorem typescript_generate_eq_error_iff {fault : GenerationFault} :
    typescript.generate v = .error fault ↔ v.declarations = .error fault := by
  rw [typescript_generate]
  cases v.declarations with
  | error e =>
    constructor
    · intro h
      cases h
      rfl
    · intro h
      cases h
      rfl
  | ok d =>
    constructor
    · intro h
      cases h
    · intro h
      cases h

end Generator

end TypedVocabulary
