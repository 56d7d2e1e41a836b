import FlowClass.Model.Term

/-!
# Ports

The connections of a node, and what else the analyses have to know of it. `NodeShape` is the whole
view that connectivity and classification have of a node, whatever kinds of nodes a graph holds.
-/

namespace FlowClass

/-- A way out of a node for control flow. -/
structure FlowPort where
  name : String
  target : Option NodeId
deriving DecidableEq

/-- A data input of a node. -/
structure ValuePort where
  name : String
  value : Term

/-- Every connection a node owns. -/
structure Ports where
  flows : List FlowPort := []
  values : List ValuePort := []
  /-- The first nodes of graphs inside the node. -/
  children : List NodeId := []
  /-- Nodes named without a port. -/
  references : List NodeId := []

namespace Ports

/-- The connected flow targets in port order. -/
def flowTargets (p : Ports) : List NodeId :=
  p.flows.filterMap FlowPort.target

/-- The nodes read by the inputs, each once, in port order. -/
def valueSources (p : Ports) : List NodeId :=
  distinct (p.values.flatMap fun port => port.value.nodes)

end Ports

/-- What the analyses see of a kind of node. -/
class NodeShape (ν : Type) where
  /-- The name shown to people. -/
  title : ν → String
  /-- The node takes part in control flow; otherwise it only gives values. -/
  isFlow : ν → Bool
  ports : ν → Ports
  /-- The node waits, and so has to run inside a resumable unit. -/
  suspends : ν → Bool
  /-- Every flow node of the graphs inside the node is a resumable unit. -/
  isScope : ν → Bool
  /-- The flow port that goes on after the node's own statements. -/
  continuation : ν → Option Nat

/-- The node that follows after a node's own statements. -/
def NodeShape.next {ν : Type} [NodeShape ν] (node : ν) : Option NodeId :=
  match NodeShape.continuation node with
  | none => none
  | some index => ((NodeShape.ports node).flows[index]?).bind FlowPort.target

end FlowClass
