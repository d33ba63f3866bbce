import TypedVocabulary.Identifier.Table

/-!
# Candidates for an identifier

A name asks for its sanitized spelling, padded with underscores, and may get a numbered form of it
instead.  All of these are identifiers, and both searches stop at the first free candidate:

* `isIdentifier_iff`        the test for an identifier, as a form of its characters;
* `isIdentifier_sanitize`   the sanitized spelling of every name is an identifier;
* `sanitize_not_mem`        and not reserved;
* `isDeclarationName_iff`   sanitizing keeps the identifiers that are not reserved, and no other name;
* `padFree_spec`            `padFree` pads with the fewest underscores that lead out of the list;
* `numberFree_spec`         `numberFree` takes the smallest number whose form is not in the list.

A search strikes off a candidate once it was met.  That loses nothing, since the candidates are
pairwise different: padding makes longer, and different numbers have different digits.
-/

namespace TypedVocabulary

/-! ## the form of identifiers -/

theorem isIdentifierChar_of_start {c : Char} (h : isIdentifierStart c = true) :
    isIdentifierChar c = true := by
  simp only [isIdentifierStart, Bool.or_eq_true] at h
  simp only [isIdentifierChar, Char.isAlphanum, Bool.or_eq_true]
  rcases h with (h | h) | h
  · exact Or.inl (Or.inl (Or.inl h))
  · exact Or.inl (Or.inr h)
  · exact Or.inr h

theorem isIdentifierChar_maskChar (c : Char) : isIdentifierChar (maskChar c) = true := by
  unfold maskChar
  split
  · assumption
  · rfl

theorem isIdentifierText_openIdentifier {cs : List Char} (h : cs.all isIdentifierChar = true) :
    isIdentifierText (openIdentifier cs) = true := by
  cases cs with
  | nil => rfl
  | cons c cs =>
    have hcs := List.all_cons.symm.trans h
    by_cases hc : isIdentifierStart c = true
    · rw [openIdentifier, if_pos hc]
      rw [Bool.and_eq_true] at hcs
      simp [isIdentifierText, hc, hcs.2]
    · rw [openIdentifier, if_neg hc]
      exact h

theorem isIdentifier_append {s t : String} (hs : isIdentifier s = true)
    (ht : t.toList.all isIdentifierChar = true) : isIdentifier (s ++ t) = true := by
  unfold isIdentifier at hs ⊢
  rw [String.toList_append]
  cases h : s.toList with
  | nil => rw [h] at hs; exact absurd hs (by simp [isIdentifierText])
  | cons c cs =>
    rw [h, isIdentifierText, Bool.and_eq_true] at hs
    simp [isIdentifierText, hs.1, hs.2, ht]

/-- an identifier is one character or more, each of them allowed -/
theorem isIdentifier_chars {s : String} (h : isIdentifier s = true) :
    s.toList ≠ [] ∧ s.toList.all isIdentifierChar = true := by
  unfold isIdentifier at h
  cases hs : s.toList with
  | nil => rw [hs] at h; exact absurd h (by simp [isIdentifierText])
  | cons c cs =>
    rw [hs, isIdentifierText, Bool.and_eq_true] at h
    refine ⟨List.cons_ne_nil c cs, ?_⟩
    rw [List.all_cons, isIdentifierChar_of_start h.1, h.2]
    rfl

theorem not_mem_of_isIdentifier {s : String} {c : Char} (h : isIdentifier s = true)
    (hc : isIdentifierChar c = false) : c ∉ s.toList := by
  intro hmem
  rw [List.all_eq_true.mp (isIdentifier_chars h).2 c hmem] at hc
  cases hc

/-- an ASCII letter, `_` or `$` -/
def OpensIdentifier (c : Char) : Prop :=
  'A' ≤ c ∧ c ≤ 'Z' ∨ 'a' ≤ c ∧ c ≤ 'z' ∨ c = '_' ∨ c = '$'

/-- one character that opens an identifier, then any number of these and of ASCII digits -/
def HasIdentifierForm (s : String) : Prop :=
  ∃ c cs, s.toList = c :: cs ∧ OpensIdentifier c ∧
    ∀ d ∈ cs, OpensIdentifier d ∨ '0' ≤ d ∧ d ≤ '9'

/-- a test for a range of characters -/
theorem between_iff {a b c : Char} : (decide (a ≤ c) && decide (c ≤ b)) = true ↔ a ≤ c ∧ c ≤ b := by
  rw [Bool.and_eq_true, decide_eq_true_eq, decide_eq_true_eq]

theorem isIdentifierStart_iff {c : Char} : isIdentifierStart c = true ↔ OpensIdentifier c := by
  have hupper : c.isUpper = true ↔ 'A' ≤ c ∧ c ≤ 'Z' := decide_eq_true_iff
  have hlower : c.isLower = true ↔ 'a' ≤ c ∧ c ≤ 'z' := between_iff
  have halpha : c.isAlpha = true ↔ c.isUpper = true ∨ c.isLower = true := Bool.or_eq_true_iff
  unfold isIdentifierStart OpensIdentifier
  rw [Bool.or_eq_true, Bool.or_eq_true, halpha, hupper, hlower, beq_iff_eq, beq_iff_eq, or_assoc,
    or_assoc]

theorem isIdentifierChar_iff {c : Char} :
    isIdentifierChar c = true ↔ OpensIdentifier c ∨ '0' ≤ c ∧ c ≤ '9' := by
  have hdigit : c.isDigit = true ↔ '0' ≤ c ∧ c ≤ '9' := between_iff
  rw [← isIdentifierStart_iff, ← hdigit]
  simp only [isIdentifierChar, isIdentifierStart, Char.isAlphanum, Bool.or_eq_true]
  grind

/-- the test decides the form -/
theorem isIdentifier_iff {s : String} : isIdentifier s = true ↔ HasIdentifierForm s := by
  unfold isIdentifier HasIdentifierForm
  cases s.toList with
  | nil => simp [isIdentifierText]
  | cons c cs =>
    simp only [isIdentifierText, Bool.and_eq_true, List.all_eq_true, isIdentifierStart_iff,
      isIdentifierChar_iff]
    constructor
    · rintro ⟨hc, hcs⟩
      exact ⟨c, cs, rfl, hc, hcs⟩
    · rintro ⟨_, _, e, hc, hcs⟩
      cases e
      exact ⟨hc, hcs⟩

theorem isIdentifier_spelling (name : String) : isIdentifier (identifierSpelling name) = true := by
  unfold isIdentifier identifierSpelling
  rw [String.toList_ofList]
  apply isIdentifierText_openIdentifier
  rw [List.all_map, List.all_eq_true]
  exact fun c _ => isIdentifierChar_maskChar c

theorem isIdentifier_sanitize (name : String) : isIdentifier (sanitize name) = true := by
  show isIdentifier (if isReserved (identifierSpelling name) then _ else _) = true
  split
  · exact isIdentifier_append (isIdentifier_spelling name) rfl
  · exact isIdentifier_spelling name

/-! ## names that can be declared as they are -/

theorem maskChar_eq {c : Char} (h : isIdentifierChar c = true) : maskChar c = c := if_pos h

theorem openIdentifier_eq {cs : List Char} (h : isIdentifierText cs = true) :
    openIdentifier cs = cs := by
  cases cs with
  | nil => cases h
  | cons c cs =>
    rw [isIdentifierText, Bool.and_eq_true] at h
    exact if_pos h.1

/-- an identifier is its own spelling -/
theorem identifierSpelling_eq {name : String} (h : isIdentifier name = true) :
    identifierSpelling name = name := by
  have hchars := List.all_eq_true.mp (isIdentifier_chars h).2
  have hmask : name.toList.map maskChar = name.toList :=
    (List.map_congr_left fun c hc => maskChar_eq (hchars c hc)).trans (List.map_id _)
  unfold identifierSpelling
  rw [hmask, openIdentifier_eq h, String.ofList_toList]

/-- no reserved name ends with the underscore that leads out of them -/
theorem append_underscore_not_mem (name : String) : name ++ "_" ∉ reservedNames := by
  have hlast : ∀ r ∈ reservedNames, r.toList.getLast? ≠ some '_' := by decide +kernel
  intro h
  refine hlast _ h ?_
  rw [String.toList_append]
  exact List.getLast?_concat

theorem isReserved_iff {name : String} : isReserved name = true ↔ name ∈ reservedNames :=
  List.contains_iff_mem

/-- **A sanitized name is not reserved.** -/
theorem sanitize_not_mem (name : String) : sanitize name ∉ reservedNames := by
  show (if isReserved (identifierSpelling name) then _ else _) ∉ reservedNames
  split
  · exact append_underscore_not_mem _
  · rename_i h
    exact fun hmem => h (isReserved_iff.mpr hmem)

/-- **An identifier that is not reserved is kept.** -/
theorem sanitize_eq {name : String} (h : isIdentifier name = true) (hfree : name ∉ reservedNames) :
    sanitize name = name := by
  have hreserved : ¬ isReserved name = true := fun hr => hfree (isReserved_iff.mp hr)
  unfold sanitize
  dsimp only
  rw [identifierSpelling_eq h, if_neg hreserved]

theorem sanitize_sanitize (name : String) : sanitize (sanitize name) = sanitize name :=
  sanitize_eq (isIdentifier_sanitize name) (sanitize_not_mem name)

/-- **A name that can be declared is an identifier and not reserved.** -/
theorem isDeclarationName_spec {name : String} (h : isDeclarationName name = true) :
    isIdentifier name = true ∧ name ∉ reservedNames := by
  have e : sanitize name = name := eq_of_beq h
  exact e ▸ ⟨isIdentifier_sanitize name, sanitize_not_mem name⟩

theorem isDeclarationName_iff {name : String} :
    isDeclarationName name = true ↔ isIdentifier name = true ∧ name ∉ reservedNames :=
  ⟨isDeclarationName_spec, fun h => beq_iff_eq.mpr (sanitize_eq h.1 h.2)⟩

/-! ## padding -/

/-- `s` with `k` underscores behind it -/
def padded (s : String) (k : Nat) : String := s ++ String.ofList (List.replicate k '_')

theorem padded_zero (s : String) : padded s 0 = s := by
  apply String.toList_injective
  simp [padded]

theorem padded_succ (s : String) (k : Nat) : padded s (k + 1) = padded (s ++ "_") k := by
  apply String.toList_injective
  simp [padded, List.replicate_succ]

theorem padded_ne (s : String) (k : Nat) : padded (s ++ "_") k ≠ s := by
  intro e
  have h := congrArg (fun t => t.toList.length) e
  simp [padded] at h

theorem isIdentifier_padded {s : String} (h : isIdentifier s = true) (k : Nat) :
    isIdentifier (padded s k) = true := by
  refine isIdentifier_append h ?_
  rw [String.toList_ofList, List.all_eq_true]
  intro c hc
  rw [List.eq_of_mem_replicate hc]
  rfl

/-- **The search pads with the fewest underscores that lead out of the list.** -/
theorem padFree_spec (blocked : List String) (s : String) :
    ∃ k, padFree blocked s = padded s k ∧ padded s k ∉ blocked ∧
      ∀ j < k, padded s j ∈ blocked := by
  induction blocked, s using padFree.induct with
  | case1 blocked s hs ih =>
    obtain ⟨k, hk, hfree, hmin⟩ := ih
    rw [padFree, dif_pos hs]
    refine ⟨k + 1, hk.trans (padded_succ s k).symm, ?_, ?_⟩
    · rw [padded_succ]
      exact fun h => hfree ((List.mem_erase_of_ne (padded_ne s k)).mpr h)
    · intro j hj
      cases j with
      | zero => rwa [padded_zero]
      | succ j =>
        rw [padded_succ]
        exact List.mem_of_mem_erase (hmin j (by omega))
  | case2 blocked s hs =>
    rw [padFree, dif_neg hs]
    exact ⟨0, (padded_zero s).symm, by rwa [padded_zero], fun j hj => absurd hj (by omega)⟩

theorem padFree_not_mem (blocked : List String) (s : String) : padFree blocked s ∉ blocked := by
  obtain ⟨k, hk, hfree, _⟩ := padFree_spec blocked s
  rwa [hk]

/-! ## numbering -/

theorem toList_toString (n : Nat) : (toString n).toList = Nat.toDigits 10 n := by
  rw [Nat.toString_eq_ofList_toDigits, String.toList_ofList]

theorem numbered_injective {base : String} {m n : Nat} (h : numbered base m = numbered base n) :
    m = n := by
  have e := congrArg String.toList h
  simp only [numbered, String.toList_append, toList_toString] at e
  have hd : Nat.toDigits 10 m = Nat.toDigits 10 n := List.append_cancel_left e
  rw [← Nat.ofDigitChars_ten_toDigits (n := m), hd, Nat.ofDigitChars_ten_toDigits]

theorem isIdentifierChar_of_mem_toString {n : Nat} {c : Char} (h : c ∈ (toString n).toList) :
    isIdentifierChar c = true := by
  rw [toList_toString] at h
  have hd : c.isDigit = true := Nat.isDigit_of_mem_toDigits (by decide) (by decide) h
  simp [isIdentifierChar, Char.isAlphanum, hd]

theorem isIdentifier_numbered {base : String} (h : isIdentifier base = true) (n : Nat) :
    isIdentifier (numbered base n) = true :=
  isIdentifier_append (isIdentifier_append h rfl)
    (List.all_eq_true.mpr fun _ hc => isIdentifierChar_of_mem_toString hc)

/-- **The search takes the smallest number whose form is not in the list.** -/
theorem numberFree_spec (taken : List String) (base : String) (n : Nat) :
    ∃ m, n ≤ m ∧ numberFree taken base n = numbered base m ∧ numbered base m ∉ taken ∧
      ∀ j, n ≤ j → j < m → numbered base j ∈ taken := by
  induction taken, n using numberFree.induct base with
  | case1 taken n hn ih =>
    obtain ⟨m, hm, he, hfree, hmin⟩ := ih
    rw [numberFree, dif_pos hn]
    refine ⟨m, by omega, he, ?_, ?_⟩
    · have hne : numbered base m ≠ numbered base n := fun e => by
        have := numbered_injective e
        omega
      exact fun h => hfree ((List.mem_erase_of_ne hne).mpr h)
    · intro j hj hjm
      rcases Nat.eq_or_lt_of_le hj with rfl | hj
      · exact hn
      · exact List.mem_of_mem_erase (hmin j hj hjm)
  | case2 taken n hn =>
    rw [numberFree, dif_neg hn]
    exact ⟨n, Nat.le_refl n, rfl, hn, fun j h1 h2 => absurd h1 (by omega)⟩

end TypedVocabulary
