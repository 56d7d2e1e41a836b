import FlowClass.Json.Basic
import FlowClass.Number.Shortest
import FlowClass.Text.Basic

/-!
# Writing JSON text

Two layouts: one line without blanks, and one member a line, two blanks deeper per level.
-/

namespace FlowClass.Json

def hexDigit (n : Nat) : Char :=
  if n < 10 then Char.ofNat ('0'.toNat + n) else Char.ofNat ('a'.toNat + n - 10)

/-- A character inside quotes. Only quotes, backslashes and control characters are escaped. -/
def escapeChar (c : Char) : List Char :=
  if c = '"' then ['\\', '"']
  else if c = '\\' then ['\\', '\\']
  else if c = '\n' then ['\\', 'n']
  else if c = '\r' then ['\\', 'r']
  else if c = '\t' then ['\\', 't']
  else if c = '\x08' then ['\\', 'b']
  else if c = '\x0c' then ['\\', 'f']
  else if c.toNat < 0x20 then
    ['\\', 'u', '0', '0', hexDigit (c.toNat / 16), hexDigit (c.toNat % 16)]
  else [c]

def quote (s : String) : String :=
  String.ofList ('"' :: (s.toList.flatMap escapeChar ++ ['"']))

/-- A number; a floating point number shows its point, and one that is not finite is `null`. -/
def numberText : JsonNumber → String
  | .natural n => toString n.toNat
  | .integer n => toString n.toInt
  | .real d =>
    match d.value with
    | .finite negative m q =>
      let text := BinaryFormat.double.positionalText negative m q
      if text.toList.contains '.' then text else text ++ ".0"
    | _ => "null"

mutual

/-- The value on one line. -/
def compact : Json → String
  | .null => "null"
  | .bool b => if b then "true" else "false"
  | .number n => numberText n
  | .text s => quote s
  | .array items => "[" ++ joinText "," (compactItems items) ++ "]"
  | .object members => "\x7b" ++ joinText "," (compactMembers members) ++ "\x7d"
  | .unreadable => "null"

def compactItems : List Json → List String
  | [] => []
  | j :: items => compact j :: compactItems items

def compactMembers : List (String × Json) → List String
  | [] => []
  | (name, j) :: members => (quote name ++ ":" ++ compact j) :: compactMembers members

end

/-- A line break and the blanks of a level. -/
def newLine (level : Nat) : String :=
  "\n" ++ String.ofList (List.replicate (2 * level) ' ')

mutual

/-- The value with one item or member a line. -/
def pretty (level : Nat) : Json → String
  | .array [] => "[]"
  | .array (j :: items) =>
    "[" ++ newLine (level + 1) ++
      joinText ("," ++ newLine (level + 1))
        (pretty (level + 1) j :: prettyItems (level + 1) items) ++
      newLine level ++ "]"
  | .object [] => "\x7b\x7d"
  | .object ((name, j) :: members) =>
    "\x7b" ++ newLine (level + 1) ++
      joinText ("," ++ newLine (level + 1))
        ((quote name ++ ": " ++ pretty (level + 1) j) :: prettyMembers (level + 1) members) ++
      newLine level ++ "\x7d"
  | .null => "null"
  | .bool b => if b then "true" else "false"
  | .number n => numberText n
  | .text s => quote s
  | .unreadable => "null"

def prettyItems (level : Nat) : List Json → List String
  | [] => []
  | j :: items => pretty level j :: prettyItems level items

def prettyMembers (level : Nat) : List (String × Json) → List String
  | [] => []
  | (name, j) :: members => (quote name ++ ": " ++ pretty level j) :: prettyMembers level members

end

end FlowClass.Json
