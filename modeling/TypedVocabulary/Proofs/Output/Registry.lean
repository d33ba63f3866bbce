import TypedVocabulary.Output.Generator
import TypedVocabulary.Proofs.Names.Lookups

/-!
# Runs of a registry

A registry is emptied, set back to the generators it comes with, and given generators to register, in any
order and any number of times.  What it holds after a run is told by what was offered to it since it was
last reset: of the generators with one name, the first.

* `register_eq_error_iff`, `require_eq_error_iff`   when a registry refuses, and with which fault;
* `next_eq_iff`         a registry stays as it is when it refuses, and changes when it does not;
* `Holds.next`          one operation keeps the registry in step with what was offered;
* `Registry.runs_keep_first`   what a registry holds, and what it refuses, after every run.
-/

namespace TypedVocabulary.Registry

/-- what is done to a registry -/
inductive Operation where
  | clear
  | restore
  | register (g : Generator)

/-- the registry that an operation gives, unless it fails -/
def perform (r : Registry) : Operation → Except GenerationFault Registry
  | .clear => .ok empty
  | .restore => .ok standard
  | .register g => r.register g

/-- the registry in use after an operation; one that fails gives no other -/
def next (r : Registry) (op : Operation) : Registry :=
  match r.perform op with
  | .ok s => s
  | .error _ => r

/-- the registry in use after a run -/
def after (ops : List Operation) : Registry := ops.foldl next empty

/-! ## single answers -/

section
variable {r : Registry} {g : Generator} {name : String} {fault : GenerationFault}

theorem mem_names : name ∈ r.names ↔ ∃ g, r.get? name = some g := NameMap.mem_keys_iff

theorem get?_eq_none_iff : r.get? name = none ↔ name ∉ r.names := by
  rw [mem_names, ← Option.isSome_iff_exists, Bool.not_eq_true, Option.isSome_eq_false_iff,
    Option.isNone_iff_eq_none]

/-- **A registry refuses the names that it has.** -/
theorem register_eq_error_iff : r.register g = .error fault ↔
    g.name ∈ r.names ∧ fault = .config (.generatorExists g.name) := by
  have hcontains : r.generators.contains g.name = true ↔ g.name ∈ r.names := NameMap.contains_iff
  unfold register
  by_cases h : g.name ∈ r.names
  · rw [if_pos (hcontains.mpr h), Except.error.injEq, and_iff_right h, eq_comm]
  · rw [if_neg (mt hcontains.mp h)]
    simp [h]

/-- **A name that is not there is answered with all that are.** -/
theorem require_eq_error_iff : r.require name = .error fault ↔
    name ∉ r.names ∧ fault = .config (.unknownGenerator name r.names) := by
  unfold require
  rw [← get?_eq_none_iff]
  cases r.get? name with
  | none => simp [eq_comm]
  | some g => simp

theorem require_eq_ok_iff : r.require name = .ok g ↔ r.get? name = some g := by
  unfold require
  cases r.get? name <;> simp

theorem next_register (r : Registry) (g : Generator) :
    r.next (.register g) = ⟨r.generators.insertIfNew g.name g⟩ := by
  show (match r.register g with | .ok s => s | .error _ => r) = _
  unfold register NameMap.insertIfNew
  by_cases h : r.generators.contains g.name = true
  · rw [if_pos h, if_pos h]
  · rw [if_neg h, if_neg h]

theorem get?_next_register (r : Registry) (g : Generator) (name : String) :
    (r.next (.register g)).get? name = (r.get? name).or (if name = g.name then some g else none) := by
  rw [next_register]
  exact NameMap.get?_insertIfNew r.generators g.name name g

/-- **A registry that refuses stays as it is, and one that does not changes.** -/
theorem next_eq_iff : r.next (.register g) = r ↔ g.name ∈ r.names := by
  have hcontains : r.generators.contains g.name = true ↔ g.name ∈ r.names := NameMap.contains_iff
  constructor
  · intro h
    have hget := get?_next_register r g g.name
    rw [h, if_pos rfl] at hget
    rw [mem_names]
    cases hname : r.get? g.name with
    | none =>
      rw [hname] at hget
      cases hget
    | some f => exact ⟨f, rfl⟩
  · intro h
    rw [next_register, NameMap.insertIfNew, if_pos (hcontains.mpr h)]

end

/-! ## runs -/

/-- what was offered since the last reset, after one more operation -/
def offer (offers : List Generator) : Operation → List Generator
  | .clear => []
  | .restore => [.typescript, .manifest]
  | .register g => offers ++ [g]

/-- the generators that a run offers to the registry since its last reset, in order; what the registry comes
with counts as offered by the reset -/
def offered (ops : List Operation) : List Generator := ops.foldl offer []

/-- of the generators with one name, the registry has the first that was offered -/
def Holds (r : Registry) (offers : List Generator) : Prop :=
  ∀ name, r.get? name = offers.find? fun g => g.name = name

section
variable {r : Registry} {offers : List Generator}

theorem find?_name_cons (g : Generator) (gs : List Generator) (name : String) :
    (g :: gs).find? (fun f => f.name = name) =
      if name = g.name then some g else gs.find? fun f => f.name = name := by
  by_cases h : name = g.name
  · rw [if_pos h, List.find?_cons_of_pos (by simpa using h.symm)]
  · rw [if_neg h, List.find?_cons_of_neg (by simpa using Ne.symm h)]

theorem holds_standard : Holds standard [.typescript, .manifest] := by
  intro name
  rw [find?_name_cons, find?_name_cons]
  show (NameMap.insert _ _ _).get? name = _
  rw [NameMap.get?_insert, NameMap.get?_insert]
  -- the manifest was put in last, and its name is not that of the other
  by_cases h : name = Generator.typescript.name
  · subst h
    rfl
  · rw [if_neg h, if_neg h]
    rfl

/-- **Every operation keeps the registry in step with what was offered.** -/
theorem Holds.next (h : r.Holds offers) (op : Operation) : (r.next op).Holds (offer offers op) := by
  cases op with
  | clear => exact fun name => rfl
  | restore => exact holds_standard
  | register g =>
    intro name
    rw [get?_next_register, h name, offer, List.find?_append, find?_name_cons, List.find?_nil]

theorem Holds.foldl (h : r.Holds offers) (ops : List Operation) :
    (ops.foldl Registry.next r).Holds (ops.foldl offer offers) := by
  induction ops generalizing r offers with
  | nil => exact h
  | cons op ops ih => exact ih (h.next op)

theorem holds_after (ops : List Operation) : (after ops).Holds (offered ops) := by
  apply Holds.foldl
  intro name
  rfl

end

theorem after_concat (ops : List Operation) (op : Operation) :
    after (ops ++ [op]) = (after ops).next op := List.foldl_concat ..

/-- **A registry keeps the first generator of each name, and refuses what it cannot take or give.**  Take
any run.  The names are in increasing order; they are the names of the generators offered since the last
reset, and each leads to the first generator of that name, which is stored under its own name.  A generator
is refused exactly if its name is there, and exactly then the registry stays as it is.  A name is refused
exactly if it is not there, with all names that are, in order. -/
theorem runs_keep_first (ops : List Operation) :
    let r := after ops
    let offers := offered ops
    r.names.Pairwise (· < ·) ∧
    (∀ name, name ∈ r.names ↔ ∃ g ∈ offers, g.name = name) ∧
    (∀ name, r.get? name = offers.find? fun g => g.name = name) ∧
    (∀ name g, r.get? name = some g → g.name = name) ∧
    (∀ g fault, r.register g = .error fault ↔
      g.name ∈ r.names ∧ fault = .config (.generatorExists g.name)) ∧
    (∀ g, after (ops ++ [.register g]) = r ↔ g.name ∈ r.names) ∧
    (∀ name fault, r.require name = .error fault ↔
      name ∉ r.names ∧ fault = .config (.unknownGenerator name r.names)) ∧
    (∀ name g, r.require name = .ok g ↔ r.get? name = some g) ∧
    ∀ name, (ConfigFault.unknownGenerator name r.names).message =
      "Unknown generator '" ++ name ++ "', expected one of: " ++ ", ".intercalate r.names := by
  intro r offers
  have hholds : r.Holds offers := holds_after ops
  have hmem : ∀ name, name ∈ r.names ↔ ∃ g ∈ offers, g.name = name := by
    intro name
    rw [← not_iff_not, ← get?_eq_none_iff, hholds name, List.find?_eq_none]
    simp
  have hown : ∀ name g, r.get? name = some g → g.name = name := by
    intro name g hg
    rw [hholds name] at hg
    simpa using List.find?_some hg
  have hunchanged : ∀ g, after (ops ++ [.register g]) = r ↔ g.name ∈ r.names := by
    intro g
    rw [after_concat]
    exact next_eq_iff
  exact ⟨r.generators.keys_increasing, hmem, hholds, hown, fun g fault => register_eq_error_iff,
    hunchanged, fun name fault => require_eq_error_iff, fun name g => require_eq_ok_iff,
    fun name => rfl⟩

end TypedVocabulary.Registry
