import FlowClass.Json.Basic

/-!
# Records and variants in JSON values

A decoder reads a value under a limit on how many arrays and objects it may still open; a part that
no decoder asks for is never opened and may nest deeper.

* A record is an object of named fields, or an array of the leading fields in order. A field given
  twice is refused; a name that is no field of the record is passed over.
* A variant is its name alone, or an object with the name as its only member.
-/

namespace FlowClass

/-- The state of a reading. -/
structure Reading where
  /-- How many arrays and objects may still be opened, one inside the other. -/
  levels : Nat
  /-- Inside a node an empty object also stands for the payload of a variant without one. -/
  insideNode : Bool := false

/-- Reads a value of type `α`, or refuses. -/
def Decoder (α : Type) : Type :=
  Reading → Json → Option α

namespace Decoder

/-- How deep a text may nest. -/
def textLevels : Nat := 127

/-- The reading of an opened value's parts, if one more may be opened. -/
def enter (r : Reading) : Option Reading :=
  match r.levels with
  | 0 => none
  | n + 1 => some { r with levels := n }

/-! ## Plain values -/

def text : Decoder String
  | _, .text s => some s
  | _, _ => none

def bool : Decoder Bool
  | _, .bool b => some b
  | _, _ => none

/-- A text of exactly one character. -/
def char : Decoder Char
  | _, .text s =>
    match s.toList with
    | [c] => some c
    | _ => none
  | _, _ => none

/-- A natural number below `bound`. -/
def natBelow (bound : Nat) : Decoder Nat
  | _, .number (.natural n) => if n.toNat < bound then some n.toNat else none
  | _, _ => none

def uint64 : Decoder UInt64
  | _, .number (.natural n) => some n
  | _, _ => none

def uint32 : Decoder UInt32 := fun r j =>
  (natBelow UInt32.size r j).map UInt32.ofNat

def uint16 : Decoder UInt16 := fun r j =>
  (natBelow UInt16.size r j).map UInt16.ofNat

def uint8 : Decoder UInt8 := fun r j =>
  (natBelow UInt8.size r j).map UInt8.ofNat

def int64 : Decoder Int64
  | _, .number (.natural n) => if 2 * n.toNat < UInt64.size then some n.toInt64 else none
  | _, .number (.integer n) => some n
  | _, _ => none

/-- Any number, the integers rounded to the nearest floating point number. -/
def double : Decoder Double
  | _, .number (.natural n) => some (Double.ofNat n.toNat)
  | _, .number (.integer n) => some (Double.ofInt n.toInt)
  | _, .number (.real d) => some d
  | _, _ => none

def map {α β : Type} (f : α → β) (d : Decoder α) : Decoder β := fun r j =>
  (d r j).map f

/-- The value, or `null` for none. -/
def optional {α : Type} (d : Decoder α) : Decoder (Option α)
  | _, .null => some none
  | r, j => (d r j).map some

/-- Every item of a list, in order; refuses if one is refused. -/
def all {α β : Type} (f : α → Option β) : List α → Option (List β)
  | [] => some []
  | a :: as =>
    match f a, all f as with
    | some b, some bs => some (b :: bs)
    | _, _ => none

def list {α : Type} (d : Decoder α) : Decoder (List α)
  | r, .array items => (enter r).bind fun inner => all (d inner) items
  | _, _ => none

/-! ## Records -/

/-- The fields of a record that were given. -/
structure Record where
  reading : Reading
  fields : List (String × Json)
  /-- The fields came as an array. -/
  positional : Bool

/-- No known name stands in front of two members. -/
def distinctNames (names : List String) : List (String × Json) → Bool
  | [] => true
  | (name, _) :: members =>
    !(names.contains name && members.any (·.1 == name)) && distinctNames names members

/-- Opens a record with the given fields. -/
def record (names : List String) : Decoder Record
  | r, .object members =>
    (enter r).bind fun inner =>
      if distinctNames names members then some ⟨inner, members, false⟩ else none
  | r, .array items =>
    (enter r).bind fun inner =>
      if items.length ≤ names.length then some ⟨inner, names.zip items, true⟩ else none
  | _, _ => none

namespace Record

def find? (given : Record) (name : String) : Option Json :=
  (given.fields.find? (·.1 == name)).map (·.2)

/-- A field that must be given. -/
def required {α : Type} (given : Record) (name : String) (d : Decoder α) : Option α :=
  (given.find? name).bind (d given.reading)

/-- A field that may be left out. -/
def withDefault {α : Type} (given : Record) (name : String) (default : α) (d : Decoder α) :
    Option α :=
  match given.find? name with
  | none => some default
  | some j => d given.reading j

/-- A field that may be left out or be `null`. -/
def optional {α : Type} (given : Record) (name : String) (d : Decoder α) : Option (Option α) :=
  given.withDefault name none (Decoder.optional d)

/-- A field that may be `null`, or be left out where fields are named. -/
def nullable {α : Type} (given : Record) (name : String) (d : Decoder α) : Option (Option α) :=
  match given.find? name with
  | none => if given.positional then none else some none
  | some j => Decoder.optional d given.reading j

/-- A list that may be left out. -/
def list {α : Type} (given : Record) (name : String) (d : Decoder α) : Option (List α) :=
  given.withDefault name [] (Decoder.list d)

end Record

/-! ## Variants -/

/-- A variant's name, and its payload if one was given. -/
structure Variant where
  reading : Reading
  name : String
  payload : Option Json

/-- Opens a variant. -/
def variant : Decoder Variant
  | r, .text name => some ⟨r, name, none⟩
  | r, .object [(name, payload)] => (enter r).map fun inner => ⟨inner, name, some payload⟩
  | _, _ => none

namespace Variant

/-- The variant carries nothing. -/
def unit (v : Variant) : Option Unit :=
  match v.payload with
  | none => some ()
  | some .null => some ()
  | some (.object []) => if v.reading.insideNode then some () else none
  | some _ => none

/-- The variant carries one value. -/
def payloadAs {α : Type} (v : Variant) (d : Decoder α) : Option α :=
  v.payload.bind (d v.reading)

/-- The variant carries a record with the given fields. -/
def fields (v : Variant) (names : List String) : Option Record :=
  v.payloadAs (record names)

end Variant

/-- A choice between names that carry nothing. -/
def oneOf {α : Type} (names : List (String × α)) : Decoder α := fun r j =>
  (variant r j).bind fun v =>
    match names.find? (·.1 == v.name) with
    | some (_, a) => v.unit.map fun _ => a
    | none => none

end Decoder

end FlowClass
