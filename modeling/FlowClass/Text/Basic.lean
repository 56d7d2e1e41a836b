/-!
# Text as a list of characters

The questions that emitted text is asked (where does a line end, is a part blank, does a piece
occur) are answered on `List Char`, where each answer is a short recursion. `String` enters and
leaves through the wrappers at the end of the file.
-/

namespace FlowClass.Text

/-- Unicode white space: the tab to carriage return block, the space, and the separators. -/
def isBlank (c : Char) : Bool :=
  let n := c.toNat
  (0x09 ≤ n && n ≤ 0x0D) || n == 0x20 || n == 0x85 || n == 0xA0 || n == 0x1680 ||
    (0x2000 ≤ n && n ≤ 0x200A) || n == 0x2028 || n == 0x2029 || n == 0x202F || n == 0x205F ||
    n == 0x3000

/-- Control characters: the two blocks of 32 and the delete character. -/
def isControl (c : Char) : Bool :=
  let n := c.toNat
  n ≤ 0x1F || (0x7F ≤ n && n ≤ 0x9F)

/-- Text without its leading blanks. -/
def trimStart (s : List Char) : List Char :=
  s.dropWhile isBlank

/-- Text without its trailing blanks. -/
def trimEnd (s : List Char) : List Char :=
  (s.reverse.dropWhile isBlank).reverse

/-- Text without blanks at either end. -/
def trim (s : List Char) : List Char :=
  trimEnd (trimStart s)

/-- The rest of `s` after `p`, if `s` starts with `p`. -/
def dropLead : List Char → List Char → Option (List Char)
  | [], s => some s
  | _ :: _, [] => none
  | p :: ps, c :: s => if p = c then dropLead ps s else none

/-- `s` starts with `p`. -/
def startsWith (p s : List Char) : Bool :=
  (dropLead p s).isSome

/-- The text before and after the first occurrence of `p` in `s`. -/
def cutAt (p : List Char) : List Char → Option (List Char × List Char)
  | [] => if p.isEmpty then some ([], []) else none
  | c :: s =>
    match dropLead p (c :: s) with
    | some rest => some ([], rest)
    | none => (cutAt p s).map fun (before, rest) => (c :: before, rest)

/-- The pieces of `s` between occurrences of `sep`; one more than there are occurrences. -/
def splitOn (sep : Char) : List Char → List (List Char)
  | [] => [[]]
  | c :: s =>
    if c = sep then [] :: splitOn sep s
    else
      match splitOn sep s with
      | [] => [[c]]
      | piece :: pieces => (c :: piece) :: pieces

/-- The pieces of a list, with `sep` between each two. -/
def joinWith (sep : List Char) : List (List Char) → List Char
  | [] => []
  | [piece] => piece
  | piece :: pieces => piece ++ sep ++ joinWith sep pieces

/-- Alphabetical order by the numbers of the characters. -/
def le : List Char → List Char → Bool
  | [], _ => true
  | _ :: _, [] => false
  | c :: s, d :: t => c < d || (c = d && le s t)

/-- A decimal number after an optional plus sign. -/
def natural? (s : List Char) : Option Nat :=
  let digits :=
    match s with
    | '+' :: rest => rest
    | rest => rest
  if digits.isEmpty || !digits.all Char.isDigit then none
  else some (digits.foldl (fun n c => 10 * n + (c.toNat - '0'.toNat)) 0)

/-- Drops one trailing carriage return. -/
def dropReturn (s : List Char) : List Char :=
  if s.getLast? = some '\r' then s.dropLast else s

/-- The lines of a text. A line ends at a line feed, before which one carriage return is dropped;
the text after the last line feed counts as a line only if it is not empty. -/
def textLines (s : List Char) : List (List Char) :=
  let pieces := splitOn '\n' s
  let closed := pieces.dropLast.map dropReturn
  match pieces.getLast? with
  | some (c :: rest) => closed ++ [c :: rest]
  | _ => closed

end FlowClass.Text

namespace FlowClass

/-- A text with nothing but white space in it. -/
def blank (s : String) : Bool :=
  s.toList.all Text.isBlank

/-- The pieces joined with `sep` between each two. -/
def joinText (sep : String) : List String → String
  | [] => ""
  | [piece] => piece
  | piece :: pieces => piece ++ sep ++ joinText sep pieces

end FlowClass
