/-!
# Identities

Nodes and declarations are told apart by 32-bit numbers, each kind by numbers of its own.
-/

namespace FlowClass

/-- A node of a graph. -/
structure NodeId where
  val : UInt32
deriving DecidableEq

/-- A declaration of a class: a variable, function, property, constructor or event. -/
structure DeclId where
  val : UInt32
deriving DecidableEq

instance : ToString NodeId where
  toString id := toString id.val.toNat

instance : ToString DeclId where
  toString id := toString id.val.toNat

namespace NodeId

/-- Ascending by number. -/
def le (a b : NodeId) : Bool :=
  a.val ≤ b.val

end NodeId

end FlowClass
