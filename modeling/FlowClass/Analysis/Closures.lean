import FlowClass.Analysis.Connectivity

/-!
# Closures that are kept

Where flow links lead to, and where they come from, is found out when a node is first asked about, and
kept beside the table for the next time. `Closures` is what has been kept so far; a table that was just
built has kept nothing.
-/

namespace FlowClass

/-- The answers that have been given, by node. -/
structure Closures where
  reachable : List (NodeId × List NodeId) := []
  reaching : List (NodeId × List NodeId) := []

namespace Closures

/-- The answer that was kept for a node, or a new one, which is kept from now on. -/
def remember (find : NodeId → List NodeId) (id : NodeId) (kept : List (NodeId × List NodeId)) :
    List NodeId × List (NodeId × List NodeId) :=
  match kept.lookup id with
  | some answer => (answer, kept)
  | none => (find id, (id, find id) :: kept)

/-- Where flow links lead to. Nothing is kept for a node that is not in the table. -/
def flowReachable (t : Connectivity) (c : Closures) (id : NodeId) : List NodeId × Closures :=
  if t.contains id then
    let (answer, reachable) := remember t.flowReachable id c.reachable
    (answer, { c with reachable })
  else ([], c)

/-- Where flow links come from. -/
def flowReaching (t : Connectivity) (c : Closures) (id : NodeId) : List NodeId × Closures :=
  if t.contains id then
    let (answer, reaching) := remember t.flowReaching id c.reaching
    (answer, { c with reaching })
  else ([], c)

/-- Some nodes with all that they lead to, one node after the other. -/
def withReachable (t : Connectivity) (c : Closures) : List NodeId → List NodeId × Closures
  | [] => ([], c)
  | id :: ids =>
    let (reached, c) := c.flowReachable t id
    let (more, c) := withReachable t c ids
    (id :: reached ++ more, c)

/-- The flow nodes of the graphs inside a node. -/
def scopeMembers (t : Connectivity) (c : Closures) (owner : NodeId) : List NodeId × Closures :=
  let (reached, c) := c.withReachable t (t.children owner)
  (distinct (reached.filter t.isFlowNode), c)

end Closures

end FlowClass
