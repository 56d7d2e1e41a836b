import FlowClass.Model.Type
import FlowClass.Number.Binary

/-!
# Literals

Constants as they are drawn in a graph. An integer remembers the scalar type it was meant for.
-/

namespace FlowClass

inductive Literal where
  | null
  | bool (b : Bool)
  | char (c : Char)
  | string (s : String)
  | integer (value : Int64) (type : Scalar)
  | unsigned (value : UInt64) (type : Scalar)
  /-- A number of 32 bits, narrowed when it is written. -/
  | float (value : Double)
  | double (value : Double)
  /-- Kept as text, so that no digit is lost. -/
  | decimal (digits : String)
  | enumMember (type : Ty) (member : String)
  /-- A vector, colour or rotation by its components. -/
  | struct (type : Ty) (components : List Double)
  | array (element : Ty) (items : List Literal)
  | list (element : Ty) (items : List Literal)
  | default (type : Ty)

/-- The type of a literal; `null` has none of its own. -/
def Literal.type? : Literal → Option Ty
  | .null => none
  | .bool _ => some (.scalar .bool)
  | .char _ => some (.scalar .char)
  | .string _ => some (.scalar .string)
  | .integer _ type => some (.scalar type)
  | .unsigned _ type => some (.scalar type)
  | .float _ => some (.scalar .float)
  | .double _ => some (.scalar .double)
  | .decimal _ => some (.scalar .decimal)
  | .enumMember type _ => some type
  | .struct type _ => some type
  | .array element _ => some (.arrayOf element)
  | .list element _ => some (.listOf element)
  | .default type => some type

end FlowClass
