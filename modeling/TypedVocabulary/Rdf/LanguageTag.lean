/-!
# Language tags

A language tag is a list of subtags with dashes between them: a language, then in this order a script, a
region, variants, extensions and a private part, all of which may be left out.  A few tags were
registered as a whole, and a tag may be private altogether.
-/

namespace TypedVocabulary.Rdf

/-- the tags that were registered as a whole -/
def registeredTags : List String :=
  ["en-gb-oed", "i-ami", "i-bnn", "i-default", "i-enochian", "i-hak", "i-klingon", "i-lux", "i-mingo",
    "i-navajo", "i-pwn", "i-tao", "i-tay", "i-tsu", "sgn-be-fr", "sgn-be-nl", "sgn-ch-de", "art-lojban",
    "cel-gaulish", "no-bok", "no-nyn", "zh-guoyu", "zh-hakka", "zh-min", "zh-min-nan", "zh-xiang"]

/-- what the subtag just read was -/
inductive SubtagKind where
  /-- a language of two or three letters, with a number of extensions of three letters behind it -/
  | shortLanguage (extended : Nat)
  | language
  | script
  /-- a region or a variant -/
  | region
  /-- a letter or digit that opens an extension -/
  | singleton
  /-- a part of an extension -/
  | extension
deriving DecidableEq

namespace SubtagKind

def isLanguage : SubtagKind → Bool
  | .shortLanguage _ | .language => true
  | _ => false

/-- a subtag that may stand as a variant -/
def isVariant (s : List Char) : Bool :=
  s.all Char.isAlphanum &&
    (5 ≤ s.length && s.head?.any Char.isAlpha || 4 ≤ s.length && s.head?.any Char.isDigit)

/-- a subtag of two to eight characters behind one of a kind -/
def next? (k : SubtagKind) (s : List Char) : Option SubtagKind :=
  match k with
  | .singleton | .extension => if s.all Char.isAlphanum then some .extension else none
  | _ =>
    let isWord := s.all Char.isAlpha
    match k, s.length with
    | .shortLanguage n, 3 =>
      if isWord then (if n < 3 then some (.shortLanguage (n + 1)) else none)
      else if s.all Char.isDigit then some .region
      else none
    | _, length =>
      if k.isLanguage && length = 4 && isWord then some .script
      else if k ≠ .region && (length = 2 && isWord || length = 3 && s.all Char.isDigit) then some .region
      else if isVariant s then some .region
      else none

/-- subtags that may stand behind one of a kind -/
def allows (k : SubtagKind) : List (List Char) → Bool
  | [] => k ≠ .singleton
  | s :: rest =>
    if s.length = 1 then
      k ≠ .singleton && s.all Char.isAlphanum &&
        if s = ['x'] then !rest.isEmpty && rest.all (·.all Char.isAlphanum)
        else allows .singleton rest
    else
      match k.next? s with
      | some k => k.allows rest
      | none => false

end SubtagKind

/-- a language of two to eight letters and the subtags behind it, all of at most eight characters -/
def isComposedTag (subtags : List (List Char)) : Bool :=
  match subtags with
  | [] => false
  | first :: rest =>
    subtags.all (fun s => !s.isEmpty && s.length ≤ 8) && 2 ≤ first.length && first.all Char.isAlpha &&
      SubtagKind.allows (if first.length < 4 then .shortLanguage 0 else .language) rest

def isLanguageTag (tag : String) : Bool :=
  let lower := tag.toList.map Char.toLower
  match lower with
  | 'x' :: '-' :: own => !own.isEmpty && own.all fun c => c.isAlphanum || c = '-'
  | _ => registeredTags.contains (.ofList lower) || isComposedTag (lower.splitOn '-')

end TypedVocabulary.Rdf
