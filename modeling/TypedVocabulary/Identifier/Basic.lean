/-!
# Identifiers

An identifier opens with an ASCII letter, `_` or `$` and goes on with these and ASCII digits.  `sanitize`
turns every name, the empty one included, into an identifier that is not reserved, and keeps a name that
already is one.
-/

namespace TypedVocabulary

/-! ## reserved names -/

/-- the declaration of the union of all class names -/
def classNameUnion : String := "VocabularyClassName"

/-- the declaration that maps class names to their types -/
def classTypeMap : String := "VocabularyClassTypes"

/-- the declaration that maps class names to identifiers -/
def classIdentifierTable : String := "VOCABULARY_CLASS_IDENTIFIERS"

/-- words of the language, also those of strict mode -/
def reservedWords : List String :=
  ["break", "case", "catch", "class", "const", "continue", "debugger", "default", "delete",
    "do", "else", "enum", "export", "extends", "false", "finally", "for", "function", "if",
    "import", "in", "instanceof", "new", "null", "return", "super", "switch", "this", "throw",
    "true", "try", "typeof", "var", "void", "while", "with", "implements", "interface", "let",
    "package", "private", "protected", "public", "static", "yield"]

/-- words with a meaning in types, and built-in types that a declaration cannot shadow -/
def reservedTypeNames : List String :=
  ["any", "as", "async", "await", "bigint", "boolean", "constructor", "declare", "from", "get",
    "infer", "is", "keyof", "module", "namespace", "never", "number", "object", "of", "readonly",
    "require", "set", "string", "symbol", "type", "undefined", "unique", "unknown", "Array",
    "Readonly", "Record"]

/-- every name that no class may be declared under -/
def reservedNames : List String :=
  reservedWords ++ reservedTypeNames ++ [classNameUnion, classTypeMap, classIdentifierTable]

def isReserved (name : String) : Bool := reservedNames.contains name

/-! ## the form of identifiers -/

def isIdentifierStart (c : Char) : Bool := c.isAlpha || c == '_' || c == '$'

def isIdentifierChar (c : Char) : Bool := c.isAlphanum || c == '_' || c == '$'

def isIdentifierText : List Char → Bool
  | [] => false
  | c :: cs => isIdentifierStart c && cs.all isIdentifierChar

def isIdentifier (name : String) : Bool := isIdentifierText name.toList

/-! ## sanitized names -/

/-- an underscore for every character that identifiers do not hold -/
def maskChar (c : Char) : Char := if isIdentifierChar c then c else '_'

/-- an underscore in front where the first character cannot open an identifier -/
def openIdentifier : List Char → List Char
  | [] => ['_']
  | c :: cs => if isIdentifierStart c then c :: cs else '_' :: c :: cs

/-- the identifier that spells `name` as closely as its characters allow -/
def identifierSpelling (name : String) : String :=
  String.ofList (openIdentifier (name.toList.map maskChar))

/-- the spelling of `name`, with an underscore behind it where it is reserved -/
def sanitize (name : String) : String :=
  let spelling := identifierSpelling name
  if isReserved spelling then spelling ++ "_" else spelling

/-- a name that can be declared as it is -/
def isDeclarationName (name : String) : Bool := sanitize name == name

end TypedVocabulary
