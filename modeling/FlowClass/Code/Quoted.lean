import FlowClass.Text.Basic

/-!
# Quoted text

String and character literals. Control characters are escaped, and a star after a slash as well, so
that no literal can open a comment or look like a marker.
-/

namespace FlowClass.Code

/-- An upper case hexadecimal digit. -/
def hexDigit (d : Nat) : Char :=
  if d < 10 then Char.ofNat ('0'.toNat + d) else Char.ofNat ('A'.toNat + (d - 10))

/-- The last `k` hexadecimal digits of a number, the most significant first. -/
def hexDigits : Nat → Nat → List Char
  | 0, _ => []
  | k + 1, n => hexDigits k (n / 16) ++ [hexDigit (n % 16)]

/-- The escape of a character by its number. -/
def unicodeEscape (c : Char) : List Char :=
  '\\' :: 'u' :: hexDigits 4 c.toNat

/-- What is written for a character between quotes of the given kind. -/
def escaped (quote c : Char) : List Char :=
  if c = quote then ['\\', c]
  else if c = '\\' then ['\\', '\\']
  else if c = '\n' then ['\\', 'n']
  else if c = '\r' then ['\\', 'r']
  else if c = '\t' then ['\\', 't']
  else if c = '\x00' then ['\\', '0']
  else if Text.isControl c then unicodeEscape c
  else [c]

/-- The inside of a string literal; the flag says that a slash stands before. -/
def stringBody : Bool → List Char → List Char
  | _, [] => []
  | slash, c :: s =>
    (if slash && c = '*' then unicodeEscape c else escaped '"' c) ++ stringBody (c = '/') s

def stringLiteral (s : String) : String :=
  String.ofList ('"' :: (stringBody false s.toList ++ ['"']))

def charLiteral (c : Char) : String :=
  String.ofList ('\'' :: (escaped '\'' c ++ ['\'']))

end FlowClass.Code
