import FlowClass.Number.Binary

/-!
# JSON values

Objects keep their members in the order of the text, repeated names included, so that a reader of
records can refuse a repetition. Numbers keep the three readings a text can have: a natural number
of 64 bits, a negative integer of 64 bits, and a floating point number for all else.
-/

namespace FlowClass

inductive JsonNumber where
  | natural (n : UInt64)
  | integer (n : Int64)
  | real (d : Double)
deriving DecidableEq

inductive Json where
  | null
  | bool (b : Bool)
  | number (n : JsonNumber)
  | text (s : String)
  | array (items : List Json)
  | object (members : List (String × Json))
  /-- A well-formed value that stands for nothing: a text with half a surrogate pair, a number
  beyond every finite one, an object with such a text for a name. It can be passed over but not
  read. -/
  | unreadable

namespace Json

def ofNat (n : Nat) : Json :=
  .number (.natural (UInt64.ofNat n))

def ofUInt64 (n : UInt64) : Json :=
  .number (.natural n)

def ofInt64 (n : Int64) : Json :=
  if n < 0 then .number (.integer n) else .number (.natural n.toUInt64)

/-- A number that is not finite has no text, and becomes `null`. -/
def ofDouble (d : Double) : Json :=
  if d.isFinite then .number (.real d) else .null

/-- The value of an optional part, `null` if it is absent. -/
def ofOption {α : Type} (f : α → Json) : Option α → Json
  | none => .null
  | some a => f a

def ofList {α : Type} (f : α → Json) (xs : List α) : Json :=
  .array (xs.map f)

mutual

/-- How deep arrays and objects nest. -/
def depth : Json → Nat
  | .array items => 1 + depthItems items
  | .object members => 1 + depthMembers members
  | _ => 0

def depthItems : List Json → Nat
  | [] => 0
  | j :: items => max j.depth (depthItems items)

def depthMembers : List (String × Json) → Nat
  | [] => 0
  | (_, j) :: members => max j.depth (depthMembers members)

end

mutual

/-- Nothing unreadable occurs in the value. -/
def isReadable : Json → Bool
  | .array items => isReadableItems items
  | .object members => isReadableMembers members
  | .unreadable => false
  | _ => true

def isReadableItems : List Json → Bool
  | [] => true
  | j :: items => j.isReadable && isReadableItems items

def isReadableMembers : List (String × Json) → Bool
  | [] => true
  | (_, j) :: members => j.isReadable && isReadableMembers members

end

end Json

end FlowClass
