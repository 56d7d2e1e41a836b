/-!
# Types and modifiers of the generated language

A `Ty` names a type without deciding how it is spelled: whether a namespace has to be written is
known only to the file the name ends up in.
-/

namespace FlowClass

/-- Types that have a keyword. -/
inductive Scalar where
  | bool
  | byte
  | sbyte
  | char
  | short
  | ushort
  | int
  | uint
  | long
  | ulong
  | float
  | double
  | decimal
  | string
  | object
deriving DecidableEq

namespace Scalar

def all : List Scalar :=
  [.bool, .byte, .sbyte, .char, .short, .ushort, .int, .uint, .long, .ulong, .float, .double,
    .decimal, .string, .object]

/-- The name of the scalar in documents. -/
def kindName : Scalar → String
  | .bool => "Bool"
  | .byte => "Byte"
  | .sbyte => "SByte"
  | .char => "Char"
  | .short => "Short"
  | .ushort => "UShort"
  | .int => "Int"
  | .uint => "UInt"
  | .long => "Long"
  | .ulong => "ULong"
  | .float => "Float"
  | .double => "Double"
  | .decimal => "Decimal"
  | .string => "String"
  | .object => "Object"

def keyword : Scalar → String
  | .bool => "bool"
  | .byte => "byte"
  | .sbyte => "sbyte"
  | .char => "char"
  | .short => "short"
  | .ushort => "ushort"
  | .int => "int"
  | .uint => "uint"
  | .long => "long"
  | .ulong => "ulong"
  | .float => "float"
  | .double => "double"
  | .decimal => "decimal"
  | .string => "string"
  | .object => "object"

def isNumeric : Scalar → Bool
  | .bool => false
  | .char => false
  | .string => false
  | .object => false
  | _ => true

/-- Values are copied when they are assigned. -/
def isValueType : Scalar → Bool
  | .string => false
  | .object => false
  | _ => true

end Scalar

/-- What a named type is declared as. -/
inductive TypeSort where
  | ofClass
  | ofStruct
  | ofEnum
  | ofInterface
  | ofDelegate
deriving DecidableEq

/-- A type of the generated language. -/
inductive Ty where
  | void
  | scalar (s : Scalar)
  /-- A type of a library; a nested type has dots in its name. -/
  | named (space : Option String) (name : String) (args : List Ty) (sort : TypeSort)
  | array (element : Ty) (rank : UInt8)
  | nullable (inner : Ty)
  | typeParam (name : String)
  /-- A type generated from another graph. -/
  | generated (name : String)

namespace Ty

mutual

/-- Two types are the same. -/
def same : Ty → Ty → Bool
  | .void, .void => true
  | .scalar s, .scalar s' => s = s'
  | .named space name args sort, .named space' name' args' sort' =>
    space = space' && name = name' && sameAll args args' && sort = sort'
  | .array element rank, .array element' rank' => same element element' && rank = rank'
  | .nullable inner, .nullable inner' => same inner inner'
  | .typeParam name, .typeParam name' => name = name'
  | .generated name, .generated name' => name = name'
  | _, _ => false

def sameAll : List Ty → List Ty → Bool
  | [], [] => true
  | a :: as, b :: bs => same a b && sameAll as bs
  | _, _ => false

end

mutual

theorem same_iff : (a b : Ty) → (same a b = true ↔ a = b)
  | .void, b | .scalar _, b | .typeParam _, b | .generated _, b => by cases b <;> simp [same]
  | .named _ _ args _, b => by cases b <;> simp [same, sameAll_iff args, and_assoc]
  | .array element _, b => by cases b <;> simp [same, same_iff element]
  | .nullable inner, b => by cases b <;> simp [same, same_iff inner]

theorem sameAll_iff : (as bs : List Ty) → (sameAll as bs = true ↔ as = bs)
  | [], bs => by cases bs <;> simp [sameAll]
  | a :: as, bs => by cases bs <;> simp [sameAll, same_iff a, sameAll_iff as]

end

instance : DecidableEq Ty := fun a b => decidable_of_decidable_of_iff (same_iff a b)

def int : Ty := .scalar .int

/-- A namespace, if the text is not empty. -/
def namespaceOf (space : String) : Option String :=
  if space.isEmpty then none else some space

/-- A class without type arguments. -/
def ofClass (space name : String) : Ty :=
  .named (namespaceOf space) name [] .ofClass

def ofStruct (space name : String) : Ty :=
  .named (namespaceOf space) name [] .ofStruct

def ofEnum (space name : String) : Ty :=
  .named (namespaceOf space) name [] .ofEnum

def generic (space name : String) (args : List Ty) : Ty :=
  .named (namespaceOf space) name args .ofClass

def listOf (element : Ty) : Ty :=
  generic "System.Collections.Generic" "List" [element]

def arrayOf (element : Ty) : Ty :=
  .array element 1

/-- What a resumable method returns. -/
def enumerator : Ty :=
  .named (some "System.Collections") "IEnumerator" [] .ofInterface

/-- Values are copied when they are assigned. A type parameter counts as a reference. -/
def isValueType : Ty → Bool
  | .scalar s => s.isValueType
  | .named _ _ _ sort => sort = .ofStruct || sort = .ofEnum
  | .nullable _ => true
  | _ => false

def isVoid : Ty → Bool
  | .void => true
  | _ => false

def simpleName? : Ty → Option String
  | .named _ name _ _ => some name
  | .generated name => some name
  | _ => none

def space? : Ty → Option String
  | .named space _ _ _ => space
  | _ => none

end Ty

/-- Who may use a member. -/
inductive Access where
  | everyone
  | ownClass
  | derived
  | assembly
deriving DecidableEq

def Access.keyword : Access → String
  | .everyone => "public"
  | .ownClass => "private"
  | .derived => "protected"
  | .assembly => "internal"

/-- The modifiers of a declaration. -/
structure Modifiers where
  access : Access := .ownClass
  isStatic : Bool := false
  isAbstract : Bool := false
  isVirtual : Bool := false
  isOverride : Bool := false
  isSealed : Bool := false
  isReadonly : Bool := false
  isConst : Bool := false
  isPartial : Bool := false
deriving DecidableEq

namespace Modifiers

def openToAll : Modifiers := { access := .everyone }

def ownOnly : Modifiers := {}

def asStatic (m : Modifiers) : Modifiers := { m with isStatic := true }

/-- The keywords in order. A constant is static by itself and does not say so. -/
def keywords (m : Modifiers) : List String :=
  (if m.isConst then ["const"] else if m.isStatic then ["static"] else []) ++
    (if m.isAbstract then ["abstract"] else []) ++
    (if m.isVirtual then ["virtual"] else []) ++
    (if m.isOverride then ["override"] else []) ++
    (if m.isSealed then ["sealed"] else []) ++
    (if m.isReadonly then ["readonly"] else []) ++
    (if m.isPartial then ["partial"] else [])

/-- The keywords with a blank after each; `hideOwn` leaves out the default access. -/
def render (m : Modifiers) (hideOwn : Bool) : String :=
  let access := if hideOwn && m.access = .ownClass then [] else [m.access.keyword]
  String.join ((access ++ m.keywords).map (· ++ " "))

end Modifiers

end FlowClass
