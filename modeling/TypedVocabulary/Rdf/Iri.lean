import TypedVocabulary.Rdf.Iri.Authority

/-!
# IRIs

A reference to an IRI has up to five parts: scheme, authority, path, query and fragment.  With a scheme
and legal parts it is an IRI, and all of its dots are kept.  Without one it is resolved against a base,
which lends it the parts that it leaves out; then the dots among the segments of its own path lead along
the path of the base.
-/

namespace TypedVocabulary.Rdf

/-! ## parts -/

structure IriParts where
  scheme : Option (List Char)
  authority : Option (List Char)
  path : List Char
  query : Option (List Char)
  fragment : Option (List Char)
deriving DecidableEq

namespace IriParts

/-- what stands in front of a mark, and what stands behind it if it is there -/
def cutAt (mark : Char) (s : List Char) : List Char × Option (List Char) :=
  match s.dropWhile (· ≠ mark) with
  | _ :: t => (s.takeWhile (· ≠ mark), some t)
  | [] => (s, none)

/-- a scheme and what stands behind its colon -/
def cutScheme (s : List Char) : Option (List Char) × List Char :=
  let scheme := s.takeWhile isSchemeChar
  match s.dropWhile isSchemeChar, scheme.head?.any Char.isAlpha with
  | ':' :: t, true => (some scheme, t)
  | _, _ => (none, s)

def ofText (text : List Char) : IriParts :=
  let (s, fragment) := cutAt '#' text
  let (s, query) := cutAt '?' s
  let (scheme, s) := cutScheme s
  match s with
  | '/' :: '/' :: t =>
    ⟨scheme, some (t.takeWhile (· ≠ '/')), t.dropWhile (· ≠ '/'), query, fragment⟩
  | _ => ⟨scheme, none, s, query, fragment⟩

def text (p : IriParts) : List Char :=
  (p.scheme.map (· ++ [':'])).getD [] ++ (p.authority.map ('/' :: '/' :: ·)).getD [] ++ p.path ++
    (p.query.map ('?' :: ·)).getD [] ++ (p.fragment.map ('#' :: ·)).getD []

def legal (p : IriParts) : Bool :=
  p.authority.all isAuthority && isLegal isPathChar p.path && p.query.all (isLegal isQueryChar) &&
    p.fragment.all (isLegal isFragmentChar)

/-! ## resolution -/

/-- one segment less, the last one first; behind a slash one stays -/
def parent : List (List Char) → List (List Char)
  | [_] => [[]]
  | kept => kept.tail

/-- segments put on a path, the last one first: `.` stays where it is and `..` leads back -/
def follow (kept : List (List Char)) : List (List Char) → List (List Char)
  | [] => kept
  | s :: rest =>
    let isDot := s = ['.']
    let isBack := s = ['.', '.']
    let kept := if isBack then parent kept else kept
    if (isDot || isBack) && !rest.isEmpty then follow kept rest
    else follow ((if isDot || isBack then [] else s) :: kept) rest

/-- the segments of a base in front of a relative path, the last one first -/
def trunk (base : IriParts) : List (List Char) :=
  if base.authority.isSome && base.path.isEmpty then [[]]
  else (base.path.splitOn '/').dropLast.reverse

/-- a path that begins with a slash or is relative to a base -/
def pathFrom (base : IriParts) (path : List Char) : List Char :=
  let kept := if path.head? = some '/' then [] else base.trunk
  List.intercalate ['/'] (follow kept (path.splitOn '/')).reverse

/-- a reference without a scheme whose first segment looks as if it had one -/
def hasLooseColon (r : IriParts) : Bool :=
  r.scheme.isNone && r.authority.isNone && (r.path.takeWhile (· ≠ '/')).contains ':'

/-- a path that would be read as an authority -/
def hasLooseSlashes (p : IriParts) : Bool :=
  p.authority.isNone && p.path.take 2 = ['/', '/']

/-- a reference with the parts that it leaves out -/
def resolve (base r : IriParts) : IriParts :=
  if r.scheme.isSome then r
  else if r.authority.isSome then { r with scheme := base.scheme }
  else if r.path.isEmpty then
    ⟨base.scheme, base.authority, base.path, r.query.or base.query, r.fragment⟩
  else ⟨base.scheme, base.authority, base.pathFrom r.path, r.query, r.fragment⟩

end IriParts

/-- an absolute IRI -/
def isIri (s : String) : Bool :=
  let p := IriParts.ofText s.toList
  p.scheme.isSome && p.legal

/-- the IRI that a reference stands for -/
def resolve? (base? : Option String) (reference : String) : Option String :=
  let r := IriParts.ofText reference.toList
  if !r.legal || r.hasLooseColon then none
  else if r.scheme.isSome then some reference
  else
    base?.bind fun base =>
      let p := (IriParts.ofText base.toList).resolve r
      if p.hasLooseSlashes then none else some (String.ofList p.text)

end TypedVocabulary.Rdf
