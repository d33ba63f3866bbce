/-!
# What is left of a text

A reader takes a front of a text and leaves the rest.  `Rest s` holds what is left of `s`: a suffix, so
a reader cannot invent characters, and its type says so.  `readAll` reads a text item by item; every
item takes at least its first character, so it comes to an end.
-/

namespace TypedVocabulary

structure Rest (s : List Char) where
  text : List Char
  isSuffix : text <:+ s

namespace Rest

variable {s : List Char}

/-- nothing is taken -/
def all (s : List Char) : Rest s := ⟨s, List.suffix_rfl⟩

/-- one more character is taken, in front -/
def behind {c : Char} (r : Rest s) : Rest (c :: s) :=
  ⟨r.text, r.isSuffix.trans (List.suffix_cons c s)⟩

/-- what is left of a rest is left of the text -/
def trans (r : Rest s) (t : Rest r.text) : Rest s := ⟨t.text, t.isSuffix.trans r.isSuffix⟩

theorem length_le (r : Rest s) : r.text.length ≤ s.length := r.isSuffix.length_le

/-- the longest front of characters with a property is taken -/
def dropWhile (p : Char → Bool) (s : List Char) : Rest s := ⟨s.dropWhile p, List.dropWhile_suffix p⟩

/-- a number of characters is taken -/
def drop (n : Nat) (s : List Char) : Rest s := ⟨s.drop n, List.drop_suffix n s⟩

/-- the front that is taken -/
def front (r : Rest s) : List Char := s.take (s.length - r.text.length)

theorem front_append (r : Rest s) : r.front ++ r.text = s := by
  obtain ⟨t, h⟩ := r.isSuffix
  have hl : t.length + r.text.length = s.length := by rw [← List.length_append, h]
  have ht : s.take t.length = t := by
    have := congrArg (List.take t.length) h
    simpa using this.symm
  rw [front, show s.length - r.text.length = t.length by omega, ht, h]

end Rest

/-- characters that are read, and what is left behind them -/
abbrev Read (s : List Char) : Type := List Char × Rest s

/-- characters in front of what is read behind one more character -/
def ahead {s : List Char} {c : Char} (front : List Char) (r : Option (Read s)) :
    Option (Read (c :: s)) := r.map fun r => (front ++ r.1, r.2.behind)

/-- reads a text item by item, each from its first character and what follows it -/
def readAll {σ : Type} (item : σ → Char → (s : List Char) → Option (σ × Rest s)) (state : σ) :
    List Char → Option σ
  | [] => some state
  | c :: s =>
    match item state c s with
    | none => none
    | some (state, rest) => readAll item state rest.text
termination_by s => s.length
decreasing_by exact Nat.lt_succ_of_le rest.length_le

end TypedVocabulary
