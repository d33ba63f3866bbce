import Mathlib.Data.List.Infix
import TypedVocabulary.Text.Hex
import TypedVocabulary.Text.Quoted
import TypedVocabulary.Text.Rest

/-!
# Values of literals

A double-quoted literal as the language reads it in strict mode: characters stand for themselves, a
backslash opens an escape, and the value is a list of 16-bit units.

* `literalValue?`     the value of a text that is one literal;
* `valueFrom?_encode` what a quoted text is read as, character by character;
* `quote_value`       a text is read back from its literal, unless a digit follows a NUL in it; then its
                      literal has no value.

An escape may depend on what follows it.  Of those that are written only `\0` does, so the induction
carries one fact about the rest: a quoted text begins with a digit where the text does.
-/

namespace TypedVocabulary

/-! ## 16-bit units -/

/-- the units of a code point -/
def unitsOf (n : Nat) : List Nat :=
  if n < 0x10000 then [n] else [0xD800 + (n - 0x10000) / 0x400, 0xDC00 + (n - 0x10000) % 0x400]

/-- the units of a text -/
def units (s : List Char) : List Nat := s.flatMap fun c => unitsOf c.toNat

theorem toNat_valid (c : Char) : c.toNat < 0xD800 ∨ 0xDFFF < c.toNat ∧ c.toNat < 0x110000 := c.valid

/-- the first unit shows how many there are, because no character is a half of a pair -/
theorem unitsOf_append_inj {c d : Char} {us vs : List Nat}
    (h : unitsOf c.toNat ++ us = unitsOf d.toNat ++ vs) : c = d ∧ us = vs := by
  have hc := toNat_valid c
  have hd := toNat_valid d
  rw [← Char.toNat_inj]
  unfold unitsOf at h
  split at h <;> split at h <;>
    simp only [List.cons_append, List.nil_append, List.cons.injEq] at h
  · exact h
  · omega
  · omega
  · exact ⟨by omega, h.2.2⟩

theorem unitsOf_ne_nil (n : Nat) : unitsOf n ≠ [] := by
  unfold unitsOf
  split <;> exact List.cons_ne_nil _ _

/-- **A text is known by its units.** -/
theorem units_injective {s t : List Char} (h : units s = units t) : s = t := by
  induction s generalizing t with
  | nil =>
    cases t with
    | nil => rfl
    | cons d t => exact absurd (List.append_eq_nil_iff.mp h.symm).1 (unitsOf_ne_nil _)
  | cons c s ih =>
    cases t with
    | nil => exact absurd (List.append_eq_nil_iff.mp h).1 (unitsOf_ne_nil _)
    | cons d t =>
      obtain ⟨rfl, hrest⟩ := unitsOf_append_inj h
      rw [ih hrest]

/-! ## literals -/

/-- the characters that end a line -/
def lineEnds : List Char := ['\n', '\r', '\u2028', '\u2029']

/-- the letters that stand for a character behind a backslash -/
def letterEscapes : List (Char × Nat) :=
  [('b', 8), ('t', 9), ('n', 10), ('v', 11), ('f', 12), ('r', 13)]

/-- a code point between braces, behind the first of them -/
def braced? (s : List Char) : Option (List Nat × Rest s) :=
  let digits := s.takeWhile (· ≠ '\x7d')
  if digits = [] ∨ '\x7d' ∉ s then none
  else ((hexNumber? digits).filter (· ≤ 0x10FFFF)).map fun n =>
    (unitsOf n, Rest.drop (digits.length + 1) s)

/-- the value of an escape, from the character behind its backslash on -/
def escape? : (s : List Char) → Option (List Nat × Rest s)
  | 'x' :: a :: b :: s =>
    (hexNumber? [a, b]).map fun n => ([n], (Rest.all s).behind.behind.behind)
  | 'u' :: '\x7b' :: s => (braced? s).map fun r => (r.1, r.2.behind.behind)
  | 'u' :: a :: b :: c :: d :: s =>
    (hexNumber? [a, b, c, d]).map fun n => ([n], (Rest.all s).behind.behind.behind.behind.behind)
  | '\r' :: '\n' :: s => some ([], (Rest.all s).behind.behind)
  | '0' :: s => if s.head?.any Char.isDigit then none else some ([0], (Rest.all s).behind)
  | c :: s =>
    if c ∈ lineEnds then some ([], (Rest.all s).behind)
    else if c = 'x' ∨ c = 'u' ∨ c.isDigit then none
    else some (((letterEscapes.lookup c).map ([·])).getD (unitsOf c.toNat), (Rest.all s).behind)
  | [] => none

/-- the value of a literal behind its first quote, if nothing follows the literal -/
def valueFrom? : List Char → Option (List Nat)
  | [] => none
  | c :: s =>
    if c = '"' then if s = [] then some [] else none
    else if c = '\\' then
      match escape? s with
      | none => none
      | some (value, rest) => (valueFrom? rest.text).map (value ++ ·)
    else if c = '\n' ∨ c = '\r' then none
    else (valueFrom? s).map (unitsOf c.toNat ++ ·)
termination_by s => s.length
decreasing_by
  · exact Nat.lt_succ_of_le rest.length_le
  · exact Nat.lt_succ_self _

/-- the value of a text that is one double-quoted literal -/
def literalValue? (text : String) : Option (List Nat) :=
  match text.toList with
  | '"' :: s => valueFrom? s
  | _ => none

/-- the text has this value, and it is the value of no other text (`units_injective`) -/
def Denotes (literal text : String) : Prop := literalValue? literal = some (units text.toList)

/-- a digit follows a NUL -/
def NulBeforeDigit (s : List Char) : Prop := ∃ d : Char, d.isDigit = true ∧ ['\x00', d] <:+: s

/-! ## what is written is read -/

section
variable {c : Char} {s r : List Char}

theorem valueFrom?_escape {value : List Nat}
    (h : (escape? s).map (fun e => (e.1, e.2.text)) = some (value, r)) :
    valueFrom? ('\\' :: s) = (valueFrom? r).map (value ++ ·) := by
  obtain ⟨⟨value, rest⟩, he, e⟩ := Option.map_eq_some_iff.mp h
  cases e
  rw [valueFrom?, if_neg (by decide), if_pos rfl, he]

theorem valueFrom?_encodeChar (hc : c ≠ '\x00') (r : List Char) :
    valueFrom? (Quoted.encodeChar c ++ r) = (valueFrom? r).map (unitsOf c.toNat ++ ·) := by
  unfold Quoted.encodeChar
  split
  case h_6 => exact absurd rfl hc
  case h_9 hslash hquote hline hreturn _ _ _ _ =>
    rw [List.singleton_append, valueFrom?, if_neg hquote, if_neg hslash, if_neg]
    rintro (rfl | rfl)
    · exact hline rfl
    · exact hreturn rfl
  all_goals exact valueFrom?_escape rfl

theorem valueFrom?_nul (r : List Char) : valueFrom? (Quoted.encodeChar '\x00' ++ r) =
    if r.head?.any Char.isDigit then none else (valueFrom? r).map (unitsOf 0 ++ ·) := by
  have he : escape? ('0' :: r) =
      if r.head?.any Char.isDigit then none else some ([0], (Rest.all r).behind) := rfl
  show valueFrom? ('\\' :: '0' :: r) = _
  split
  · rename_i h
    rw [if_pos h] at he
    rw [valueFrom?, if_neg (by decide), if_pos rfl, he]
  · rename_i h
    rw [if_neg h] at he
    exact valueFrom?_escape (by rw [he]; rfl)

/-- a quoted text begins with a digit where the text does -/
theorem head?_encode (s : List Char) :
    (Quoted.encode s ++ ['"']).head?.any Char.isDigit = s.head?.any Char.isDigit := by
  cases s with
  | nil => rfl
  | cons c s =>
    rw [Quoted.encode_cons, List.head?_cons, Option.any_some]
    unfold Quoted.encodeChar
    split <;> rfl

theorem nulBeforeDigit_cons : NulBeforeDigit (c :: s) ↔
    c = '\x00' ∧ s.head?.any Char.isDigit = true ∨ NulBeforeDigit s := by
  unfold NulBeforeDigit
  simp only [List.infix_cons_iff, List.cons_prefix_cons]
  constructor
  · rintro ⟨d, hd, ⟨rfl, t, rfl⟩ | h⟩
    · exact Or.inl ⟨rfl, hd⟩
    · exact Or.inr ⟨d, hd, h⟩
  · rintro (⟨rfl, h⟩ | ⟨d, hd, h⟩)
    · cases s with
      | nil => cases h
      | cons d s => exact ⟨d, h, Or.inl ⟨rfl, s, rfl⟩⟩
    · exact ⟨d, hd, Or.inr h⟩

/-- **Where no digit follows a NUL, a quoted text is read back.** -/
theorem valueFrom?_encode (h : ¬ NulBeforeDigit s) :
    valueFrom? (Quoted.encode s ++ ['"']) = some (units s) := by
  induction s with
  | nil =>
    show valueFrom? ['"'] = some []
    rw [valueFrom?, if_pos rfl, if_pos rfl]
  | cons c s ih =>
    rw [nulBeforeDigit_cons, not_or, not_and] at h
    rw [Quoted.encode_cons, List.append_assoc]
    by_cases hc : c = '\x00'
    · subst hc
      rw [valueFrom?_nul, head?_encode, if_neg (h.1 rfl), ih h.2]
      rfl
    · rw [valueFrom?_encodeChar hc, ih h.2]
      rfl

/-- **Where one does, it has no value.** -/
theorem valueFrom?_encode_eq_none (h : NulBeforeDigit s) :
    valueFrom? (Quoted.encode s ++ ['"']) = none := by
  induction s with
  | nil =>
    obtain ⟨d, _, h⟩ := h
    exact absurd h.length_le (by simp)
  | cons c s ih =>
    rw [Quoted.encode_cons, List.append_assoc]
    by_cases hc : c = '\x00'
    · subst hc
      rw [valueFrom?_nul, head?_encode]
      split
      · rfl
      · rename_i hs
        have hrest := (nulBeforeDigit_cons.mp h).resolve_left fun hd => hs hd.2
        rw [ih hrest]
        rfl
    · have hrest := (nulBeforeDigit_cons.mp h).resolve_left fun hd => hc hd.1
      rw [valueFrom?_encodeChar hc, ih hrest]
      rfl

end

theorem literalValue?_quote (s : String) :
    literalValue? (quote s) = valueFrom? (Quoted.encode s.toList ++ ['"']) := by
  unfold literalValue? quote
  rw [String.toList_ofList]
  rfl

/-- **A literal is read back as the text it was made from, and as no other, exactly where no digit
follows a NUL in the text.**  Where one does, the literal has no value. -/
theorem quote_value (s : String) :
    (∀ t, Denotes (quote s) t ↔ t = s ∧ ¬ NulBeforeDigit s.toList) ∧
    (literalValue? (quote s) = none ↔ NulBeforeDigit s.toList) := by
  have hvalue : ¬ NulBeforeDigit s.toList → Denotes (quote s) s := fun h =>
    (literalValue?_quote s).trans (valueFrom?_encode h)
  have hnone : NulBeforeDigit s.toList → literalValue? (quote s) = none := fun h =>
    (literalValue?_quote s).trans (valueFrom?_encode_eq_none h)
  refine ⟨fun t => ⟨fun ht => ?_, ?_⟩, fun h => ?_, hnone⟩
  · have hs : ¬ NulBeforeDigit s.toList := by
      intro hs
      rw [Denotes, hnone hs] at ht
      cases ht
    refine ⟨String.toList_injective (units_injective ?_), hs⟩
    exact Option.some.inj (ht.symm.trans (hvalue hs))
  · rintro ⟨rfl, hs⟩
    exact hvalue hs
  · by_contra hs
    have hs' := hvalue hs
    rw [Denotes, h] at hs'
    cases hs'

/-- NUL and then a digit: the escape runs into the digit -/
theorem quote_value_nulDigit :
    quote "\x001" = "\"\\01\"" ∧ literalValue? (quote "\x001") = none ∧
      ¬ ∀ s, Denotes (quote s) s := by
  have hnone : literalValue? (quote "\x001") = none := by decide +kernel
  refine ⟨by decide +kernel, hnone, fun h => ?_⟩
  have hvalue := h "\x001"
  rw [Denotes, hnone] at hvalue
  cases hvalue

end TypedVocabulary
