import TypedVocabulary.Text.Quoted

/-!
# Literals read back

A literal ends at its first quote that no backslash takes with it.

* `Quoted.lineEnd_not_mem`   no line ends inside a literal;
* `literal?_quote`           a literal in front of a text is read as a whole, whatever follows;
* `quote_injective`          different texts have different literals.
-/

namespace TypedVocabulary

namespace Quoted

/-- the inside of a literal and what follows the literal, from the text behind its first quote -/
def scan? : List Char → Option (List Char × List Char)
  | [] => none
  | '"' :: s => some ([], s)
  | '\\' :: c :: s => (scan? s).map fun r => ('\\' :: c :: r.1, r.2)
  | c :: s => (scan? s).map fun r => (c :: r.1, r.2)

/-- the character that a text between quotes begins with, and what follows it -/
def decodeChar? : List Char → Option (Char × List Char)
  | '\\' :: '\\' :: s => some ('\\', s)
  | '\\' :: '"' :: s => some ('"', s)
  | '\\' :: 'n' :: s => some ('\n', s)
  | '\\' :: 'r' :: s => some ('\r', s)
  | '\\' :: 't' :: s => some ('\t', s)
  | '\\' :: '0' :: s => some ('\x00', s)
  | '\\' :: 'u' :: '2' :: '0' :: '2' :: '8' :: s => some ('\u2028', s)
  | '\\' :: 'u' :: '2' :: '0' :: '2' :: '9' :: s => some ('\u2029', s)
  | '\\' :: _ => none
  | c :: s => some (c, s)
  | [] => none

theorem scan?_encodeChar (c : Char) (s : List Char) :
    scan? (encodeChar c ++ s) = (scan? s).map fun r => (encodeChar c ++ r.1, r.2) := by
  unfold encodeChar
  split
  case h_9 =>
    rw [List.singleton_append, scan?.eq_def]
    split <;> simp_all
  all_goals simp [scan?, Function.comp_def]

/-- **The inside of a literal ends where it was ended.** -/
theorem scan?_encode (cs s : List Char) : scan? (encode cs ++ '"' :: s) = some (encode cs, s) := by
  induction cs with
  | nil => rfl
  | cons c cs ih =>
    rw [encode_cons, List.append_assoc, scan?_encodeChar, ih]
    rfl

theorem decodeChar?_encodeChar (c : Char) (s : List Char) :
    decodeChar? (encodeChar c ++ s) = some (c, s) := by
  unfold encodeChar
  split
  case h_9 =>
    rw [List.singleton_append, decodeChar?.eq_def]
    split <;> simp_all
  all_goals rfl

theorem encode_injective {cs ds : List Char} (h : encode cs = encode ds) : cs = ds := by
  induction cs generalizing ds with
  | nil =>
    cases ds with
    | nil => rfl
    | cons d ds =>
      have hd := decodeChar?_encodeChar d (encode ds)
      rw [← encode_cons, ← h] at hd
      cases hd
  | cons c cs ih =>
    have hc := decodeChar?_encodeChar c (encode cs)
    rw [← encode_cons, h] at hc
    cases ds with
    | nil => cases hc
    | cons d ds =>
      rw [encode_cons, decodeChar?_encodeChar] at hc
      obtain ⟨rfl, hrest⟩ := Prod.mk.inj (Option.some.inj hc)
      rw [ih hrest.symm]

theorem lineEnd_not_mem_encodeChar {c : Char} (hc : c ∈ ['\n', '\r', '\u2028', '\u2029'])
    (d : Char) : c ∉ encodeChar d := by
  have hcases : c = '\n' ∨ c = '\r' ∨ c = '\u2028' ∨ c = '\u2029' := by simpa using hc
  unfold encodeChar
  split
  case h_9 =>
    rw [List.mem_singleton]
    rintro rfl
    simp_all
  all_goals rcases hcases with rfl | rfl | rfl | rfl <;> decide

/-- **No line ends inside a literal.** -/
theorem lineEnd_not_mem {c : Char} (hc : c ∈ ['\n', '\r', '\u2028', '\u2029']) (s : List Char) :
    c ∉ encode s := by
  intro h
  obtain ⟨d, _, hd⟩ := List.mem_flatMap.mp h
  exact lineEnd_not_mem_encodeChar hc d hd

end Quoted

theorem toList_quote (s : String) :
    (quote s).toList = '"' :: (Quoted.encode s.toList ++ ['"']) := by
  unfold quote
  rw [String.toList_ofList, List.cons_append]

/-- the literal that a text begins with, and what follows it -/
def literal? : List Char → Option (String × List Char)
  | '"' :: s => (Quoted.scan? s).map fun r => (String.ofList ('"' :: r.1 ++ ['"']), r.2)
  | _ => none

/-- **A literal is read as a whole**, whatever follows it. -/
theorem literal?_quote (s : String) (rest : List Char) :
    literal? ((quote s).toList ++ rest) = some (quote s, rest) := by
  rw [toList_quote, List.cons_append, List.append_assoc]
  show (Quoted.scan? (Quoted.encode s.toList ++ '"' :: rest)).map _ = _
  rw [Quoted.scan?_encode]
  rfl

/-- **Different texts have different literals.** -/
theorem quote_injective {s t : String} (h : quote s = quote t) : s = t := by
  have e := congrArg String.toList h
  rw [toList_quote, toList_quote] at e
  have hencoded := List.append_cancel_right (List.cons.inj e).2
  exact String.toList_injective (Quoted.encode_injective hencoded)

end TypedVocabulary
