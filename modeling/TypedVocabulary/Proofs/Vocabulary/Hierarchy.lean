import TypedVocabulary.Proofs.Graph.Order
import TypedVocabulary.Proofs.Identifier.Table
import TypedVocabulary.Proofs.Output.Building

/-!
# The declared hierarchy

A declaration leaves out the parents that would close a cycle.  An edge is kept for one of two reasons:
its parent stands earlier, or its parent does not lead back to the class.

* `Vocabulary.mem_extendable`      which parents are kept;
* `Vocabulary.hierarchy_acyclic`   the kept edges have no cycle, neither between classes nor between
                                   the interfaces that are declared for them.

Along a cycle every parent leads back to its class, so the second reason never applies there: all
edges of a cycle go to earlier places, and none of them can return.  The cycle as a whole, not the
single edge, has to be kept in hand for that (`leads_back`).  Interfaces have no other cycles than
classes: different classes have different identifiers, and the base interface extends nothing.
-/

namespace TypedVocabulary
open Relation

namespace Vocabulary

/-- the declaration of `c` names its parent `p` -/
def Extends (v : Vocabulary) (c p : String) : Prop := p ∈ v.extendable c

/-! ## places -/

section
variable {v : Vocabulary} {a b c : String}

theorem placedBefore_iff : v.placedBefore a b = true ↔
    ∃ i j, v.linearization.position? a = some i ∧ v.linearization.position? b = some j ∧ i < j := by
  unfold placedBefore
  cases v.linearization.position? a <;> cases v.linearization.position? b <;> simp

theorem placedBefore_irrefl : ¬ v.placedBefore a a = true := by
  intro h
  obtain ⟨i, j, hi, hj, hij⟩ := placedBefore_iff.mp h
  rw [hi] at hj
  cases hj
  exact absurd hij (Nat.lt_irrefl i)

theorem placedBefore_trans (hab : v.placedBefore a b = true) (hbc : v.placedBefore b c = true) :
    v.placedBefore a c = true := by
  obtain ⟨i, j, hi, hj, hij⟩ := placedBefore_iff.mp hab
  obtain ⟨j', k, hj', hk, hjk⟩ := placedBefore_iff.mp hbc
  rw [hj] at hj'
  cases hj'
  exact placedBefore_iff.mpr ⟨i, k, hi, hk, Nat.lt_trans hij hjk⟩

end

/-! ## kept edges -/

section
variable {settings : Settings} {g : Graph} {c d p : String}

/-- **A parent is kept when it stands earlier or does not lead back to the class.** -/
theorem mem_extendable : p ∈ (ofGraph settings g).extendable c ↔
    g.HasParent c p ∧ p ≠ c ∧
      ((ofGraph settings g).placedBefore p c = true ∨ c ∉ g.ancestors p) := by
  unfold extendable
  have hpos := Graph.isSome_position? (g := g) (c := c)
  change ((ofGraph settings g).linearization.position? c).isSome = g.isClass c at hpos
  cases h : (ofGraph settings g).linearization.position? c with
  | none =>
    rw [h] at hpos
    refine ⟨fun hp => absurd hp (NameSet.not_mem_empty p), fun hp => ?_⟩
    rw [hp.1.isClass_left] at hpos
    cases hpos
  | some i =>
    simp only [NameSet.mem_ofList, List.mem_filter]
    unfold mayExtend
    simp only [Bool.and_eq_true, Bool.or_eq_true, decide_eq_true_eq]
    exact Iff.rfl

theorem Extends.hasParent (h : (ofGraph settings g).Extends c p) : g.HasParent c p :=
  (mem_extendable.mp h).1

/-- a kept edge whose parent leads back to the class goes to an earlier place -/
theorem Extends.placedBefore (h : (ofGraph settings g).Extends c p)
    (hback : ReflTransGen g.HasParent p c) : (ofGraph settings g).placedBefore p c = true := by
  obtain ⟨_, hne, hp | hp⟩ := mem_extendable.mp h
  · exact hp
  · rcases reflTransGen_iff_eq_or_transGen.mp hback with e | hback
    · exact absurd e.symm hne
    · exact absurd (Graph.mem_ancestors.mpr ⟨hne.symm, hback⟩) hp

/-- a path of kept edges that can be closed to a cycle goes to an earlier place -/
theorem leads_back (h : TransGen (ofGraph settings g).Extends c d)
    (hback : ReflTransGen g.HasParent d c) : (ofGraph settings g).placedBefore d c = true := by
  induction h with
  | single hs => exact Extends.placedBefore hs hback
  | @tail b d hp hs ih =>
    -- the way back from the end closes the last edge as well as the path in front of it
    have hbd : ReflTransGen g.HasParent b c := .head (Extends.hasParent hs) hback
    have hcb : ReflTransGen g.HasParent c b :=
      (TransGen.mono (fun _ _ => Extends.hasParent) _ _ hp).to_reflTransGen
    exact placedBefore_trans (Extends.placedBefore hs (hback.trans hcb)) (ih hbd)

theorem extends_acyclic (settings : Settings) (g : Graph) (c : String) :
    ¬ TransGen (ofGraph settings g).Extends c c := fun h =>
  placedBefore_irrefl (leads_back h .refl)

end

end Vocabulary

/-! ## interfaces -/

/-- an interface of the name `a` is declared, and it extends `b` -/
def Declarations.Extends (d : Declarations) (a b : String) : Prop :=
  ∃ i ∈ d.interfaces, i.name = a ∧ b ∈ i.supertypes

namespace Vocabulary

section
variable {v : Vocabulary} {d : Declarations} {a b : String}

/-- an interface extends the base and the interfaces of the parents that are kept -/
theorem interface_extends (hd : v.declarations = .ok d) (h : d.Extends a b) :
    ∃ c, v.identifier? c = some a ∧
      (b = v.settings.output.baseName ∨ ∃ p, v.Extends c p ∧ v.identifier? p = some b) := by
  obtain ⟨i, hi, rfl, hb⟩ := h
  obtain ⟨hname, ⟨parents, hparents, hsup⟩, _⟩ := interface_spec hd hi
  refine ⟨i.className, hname, ?_⟩
  rw [hsup] at hb
  rcases List.mem_cons.mp hb with e | hb
  · exact Or.inl e
  · obtain ⟨p, hp, hpb⟩ := forall₂_mem_right hparents hb
    exact Or.inr ⟨p, hp, hpb⟩

end

section
variable {settings : Settings} {g : Graph} {d : Declarations} {a b c p i : String}

theorem identifier?_inj (ha : (ofGraph settings g).identifier? c = some i)
    (hb : (ofGraph settings g).identifier? p = some i) : c = p :=
  IdentifierTable.get?_inj ha hb

/-- no class is declared under the name of the base interface -/
theorem identifier?_ne_base (h : (ofGraph settings g).identifier? c = some i) :
    i ≠ settings.output.baseName := by
  rintro rfl
  exact IdentifierTable.get?_free h (List.mem_append_right _ (List.mem_cons_self ..))

/-- a path between interfaces ends at the base or follows a path between classes -/
theorem interface_path (hd : (ofGraph settings g).declarations = .ok d)
    (h : TransGen d.Extends a b) :
    b = settings.output.baseName ∨ ∃ c p, (ofGraph settings g).identifier? c = some a ∧
      (ofGraph settings g).identifier? p = some b ∧ TransGen (ofGraph settings g).Extends c p := by
  induction h with
  | single hs =>
    obtain ⟨c, hc, hb | ⟨p, hp, hpb⟩⟩ := interface_extends hd hs
    · exact Or.inl hb
    · exact Or.inr ⟨c, p, hc, hpb, .single hp⟩
  | tail _ hs ih =>
    obtain ⟨c', hc', hs⟩ := interface_extends hd hs
    rcases ih with e | ⟨c, p, hc, hp, hpath⟩
    · exact absurd e (identifier?_ne_base hc')
    · obtain rfl := identifier?_inj hp hc'
      rcases hs with e | ⟨q, hq, hqb⟩
      · exact Or.inl e
      · exact Or.inr ⟨c, q, hc, hqb, hpath.tail hq⟩

theorem interfaces_acyclic (hd : (ofGraph settings g).declarations = .ok d) (a : String) :
    ¬ TransGen d.Extends a a := by
  intro h
  rcases interface_path hd h with e | ⟨c, p, hc, hp, hpath⟩
  · obtain ⟨b, hs, _⟩ := TransGen.head'_iff.mp h
    obtain ⟨c, hc, _⟩ := interface_extends hd hs
    exact identifier?_ne_base hc e
  · obtain rfl := identifier?_inj hc hp
    exact extends_acyclic settings g c hpath

end

/-- **The declared hierarchy has no cycle**, whatever the parents of the graph are: no chain of kept
parents leads from a class back to itself, and no chain of `extends` lists from an interface back to
itself. -/
theorem hierarchy_acyclic (settings : Settings) (g : Graph) :
    (∀ c, ¬ TransGen (ofGraph settings g).Extends c c) ∧
      ∀ d, (ofGraph settings g).declarations = .ok d → ∀ a, ¬ TransGen d.Extends a a :=
  ⟨extends_acyclic settings g, fun _ hd => interfaces_acyclic hd⟩

end Vocabulary

end TypedVocabulary
