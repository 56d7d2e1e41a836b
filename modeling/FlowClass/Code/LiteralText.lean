import FlowClass.Code.Quoted
import FlowClass.Code.TypeText
import FlowClass.Number.Shortest

/-!
# Spelling of literals

Numbers carry the suffix or the cast that gives them their type. A struct with a well-known constant
for its components is written as that constant.
-/

namespace FlowClass

namespace Code

/-- The constants of vectors, colours and rotations, by type and components. -/
def structConstants : List (String × List Double × String) :=
  let o := Double.ofNat 0
  let i := Double.ofNat 1
  let n := Double.ofInt (-1)
  let h := Double.ofRatio false 1 2
  [("Vector2", [o, o], "zero"), ("Vector2", [i, i], "one"), ("Vector2", [o, i], "up"),
    ("Vector2", [o, n], "down"), ("Vector2", [i, o], "right"), ("Vector2", [n, o], "left"),
    ("Vector3", [o, o, o], "zero"), ("Vector3", [i, i, i], "one"), ("Vector3", [o, i, o], "up"),
    ("Vector3", [o, n, o], "down"), ("Vector3", [i, o, o], "right"), ("Vector3", [n, o, o], "left"),
    ("Vector3", [o, o, i], "forward"), ("Vector3", [o, o, n], "back"),
    ("Vector4", [o, o, o, o], "zero"), ("Vector4", [i, i, i, i], "one"),
    ("Color", [i, o, o, i], "red"), ("Color", [o, i, o, i], "green"),
    ("Color", [o, o, i, i], "blue"), ("Color", [i, i, i, i], "white"),
    ("Color", [o, o, o, i], "black"), ("Color", [o, i, i, i], "cyan"),
    ("Color", [i, o, i, i], "magenta"), ("Color", [o, o, o, o], "clear"),
    ("Color", [h, h, h, i], "gray"), ("Quaternion", [o, o, o, i], "identity")]

/-- The two lists hold the same numbers. -/
def sameNumbers : List Double → List Double → Bool
  | [], [] => true
  | a :: as, b :: bs => a.sameNumber b && sameNumbers as bs
  | _, _ => false

def structConstant? (name : String) (components : List Double) : Option String :=
  (structConstants.find? fun (type, values, _) =>
    type == name && sameNumbers values components).map fun (_, _, constant) => constant

/-- A number in a format, with the names of the values that have no digits. -/
def realText (f : BinaryFormat) (type suffix : String) : BinaryValue → String
  | .notANumber => type ++ ".NaN"
  | .infinite false => type ++ ".PositiveInfinity"
  | .infinite true => type ++ ".NegativeInfinity"
  | .finite negative m q => f.positionalText negative m q ++ suffix

def floatText (d : Double) : String :=
  realText .single "float" "f" d.toSingle.value

def doubleText (d : Double) : String :=
  realText .double "double" "D" d.value

/-- What stands before and after the digits of an integer of a type. -/
def integerMarks (unsigned : Bool) (type : Scalar) : String × String :=
  match type with
  | .byte | .sbyte | .short | .ushort => ("(" ++ type.keyword ++ ")", "")
  | .long => ("", if unsigned then "" else "L")
  | .uint => ("", if unsigned then "U" else "")
  | .ulong => ("", if unsigned then "UL" else "")
  | _ => ("", "")

def arrayText (element : String) (items : List String) : String :=
  if items.isEmpty then "new " ++ element ++ "[0]"
  else "new " ++ element ++ "[] \x7b " ++ joinText ", " items ++ " \x7d"

def listText (list : String) (items : List String) : String :=
  if items.isEmpty then "new " ++ list ++ "()"
  else "new " ++ list ++ "() \x7b " ++ joinText ", " items ++ " \x7d"

/-- The struct with the given components, whose type is spelled `name`. -/
def structText (type : Ty) (name : String) (components : List Double) : String :=
  match type.simpleName?.bind fun simple => structConstant? simple components with
  | some constant => name ++ "." ++ constant
  | none => "new " ++ name ++ "(" ++ joinText ", " (components.map floatText) ++ ")"

end Code

open Code

mutual

def Literal.text : Literal → Imports → String × Imports
  | .null, i => ("null", i)
  | .bool true, i => ("true", i)
  | .bool false, i => ("false", i)
  | .char c, i => (charLiteral c, i)
  | .string s, i => (stringLiteral s, i)
  | .integer value type, i =>
    let (before, after) := integerMarks false type
    (before ++ toString value.toInt ++ after, i)
  | .unsigned value type, i =>
    let (before, after) := integerMarks true type
    (before ++ toString value.toNat ++ after, i)
  | .float value, i => (floatText value, i)
  | .double value, i => (doubleText value, i)
  | .decimal digits, i => (digits ++ "m", i)
  | .enumMember type member, i =>
    let (name, i) := type.text i
    (name ++ "." ++ member, i)
  | .struct type components, i =>
    let (name, i) := type.text i
    (structText type name components, i)
  | .array element items, i =>
    let (items, i) := Literal.texts items i
    let (element, i) := element.text i
    (arrayText element items, i)
  | .list element items, i =>
    let (items, i) := Literal.texts items i
    let (name, i) := (Ty.listOf element).text i
    (listText name items, i)
  | .default type, i =>
    let (name, i) := type.text i
    ("default(" ++ name ++ ")", i)

def Literal.texts : List Literal → Imports → List String × Imports
  | [], i => ([], i)
  | l :: ls, i =>
    let (text, i) := Literal.text l i
    let (texts, i) := Literal.texts ls i
    (text :: texts, i)

end

end FlowClass
