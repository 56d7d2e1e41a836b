import FlowClass.Model.Id
import FlowClass.Text.Basic
import FlowClass.Text.Letter

/-!
# Names

`Names.generate` gives out an identifier that was not given out before: the requested text, or the
text with the smallest number that makes it new. `Names.nameFor` gives an owner that asks twice for
the same text the same identifier.
-/

namespace FlowClass

/-- Who a name or a symbol belongs to. -/
inductive SymbolKey where
  | node (id : NodeId)
  | decl (id : DeclId)
  /-- A parameter of a declaration. -/
  | param (owner : DeclId) (index : Nat)
deriving DecidableEq

/-! ## Identifiers -/

/-- The reserved words of the generated language. -/
def keywords : List String :=
  ["abstract", "as", "base", "bool", "break", "byte", "case", "catch", "char", "checked", "class",
    "const", "continue", "decimal", "default", "delegate", "do", "double", "else", "enum", "event",
    "explicit", "extern", "false", "finally", "fixed", "float", "for", "foreach", "goto", "if",
    "implicit", "in", "int", "interface", "internal", "is", "lock", "long", "namespace", "new",
    "null", "object", "operator", "out", "override", "params", "private", "protected", "public",
    "readonly", "ref", "return", "sbyte", "sealed", "short", "sizeof", "stackalloc", "static",
    "string", "struct", "switch", "this", "throw", "true", "try", "typeof", "uint", "ulong",
    "unchecked", "unsafe", "ushort", "using", "virtual", "void", "volatile", "while"]

def isKeyword (name : String) : Bool :=
  keywords.contains name

/-- A character that may stand in an identifier. -/
def isNameChar (c : Char) : Bool :=
  Text.isLetterOrNumeral c || c = '_'

/-- Makes an identifier of any text: a character that cannot stand in one becomes an underscore, an
underscore goes before a leading digit, and a reserved word is escaped. -/
def identifierOf (text : String) : String :=
  match (Text.trim text.toList).map fun c => if isNameChar c then c else '_' with
  | [] => "_"
  | c :: s =>
    let name := String.ofList (if c.isDigit then '_' :: c :: s else c :: s)
    if isKeyword name then "@" ++ name else name

/-- An identifier, or several with dots between them. -/
def isIdentifier (text : String) : Bool :=
  match text.toList with
  | [] => false
  | c :: s =>
    (Text.isLetter c || c = '_' || c = '@') && s.all fun c => isNameChar c || c = '.'

/-! ## The names of a class -/

structure Names where
  /-- The names that are taken. -/
  used : List String := []
  /-- Where the search for a number starts, per identifier. -/
  suffixes : List (String × Nat) := []
  aliases : List ((SymbolKey × String) × String) := []

namespace Names

/-- Takes a name. -/
def reserve (n : Names) (name : String) : Names :=
  { n with used := name :: n.used }

/-- The first number from `k` on that makes `base` new; one of any `used.length + 1` numbers
does. -/
def freshSuffix (used : List String) (base : String) : Nat → Nat → Nat
  | 0, k => k
  | fuel + 1, k =>
    if used.contains (base ++ toString k) then freshSuffix used base fuel (k + 1) else k

/-- A name that is not taken, which is then taken. -/
def generate (n : Names) (text : String) : String × Names :=
  let base := identifierOf text
  if n.used.contains base then
    let k := freshSuffix n.used base (n.used.length + 1) ((n.suffixes.lookup base).getD 1)
    let name := base ++ toString k
    (name, { n with used := name :: n.used, suffixes := (base, k + 1) :: n.suffixes })
  else (base, { n with used := base :: n.used })

/-- The name that an owner already has for a text. -/
def alias? (n : Names) (owner : SymbolKey) (text : String) : Option String :=
  n.aliases.lookup (owner, text)

/-- The name that an owner has for a text, generated the first time. -/
def nameFor (n : Names) (owner : SymbolKey) (text : String) : String × Names :=
  match n.alias? owner text with
  | some name => (name, n)
  | none =>
    let (name, n) := n.generate text
    (name, { n with aliases := ((owner, text), name) :: n.aliases })

end Names

end FlowClass
