import FlowClass.Analysis.Reach
import FlowClass.Model.Graph
import FlowClass.Model.Port

/-!
# Connectivity

The part of a graph that its entry points lead to: the nodes met through flow ports, value inputs,
children and references, and one link per connection.

* `Connectivity.build` walks the graph depth first, from a stack.
* Each node has a record of its neighbours, which the walk keeps up to date and which therefore
  agrees with the list of links (`Connectivity.recorded`).
* `flowReachable`, `flowReaching` and `scopeMembers` close the flow links under composition.
-/

namespace FlowClass

inductive LinkKind where
  /-- Control flow through a port of the source. -/
  | flow (port : UInt16)
  /-- The target reads the value of the source. -/
  | value
  /-- The target starts a graph inside the source. -/
  | child
  /-- The source names the target without a port. -/
  | reference
deriving DecidableEq

structure Link where
  source : NodeId
  target : NodeId
  kind : LinkKind
deriving DecidableEq

inductive AnalysisError where
  /-- A connection, or an entry point if there is no referrer, leads to a node that does not
  exist. -/
  | unresolvedTarget (target : NodeId) (referrer : Option NodeId)
  | unknownNode (node : NodeId)
  | classificationSealed (node : NodeId)
  | portOutOfRange (node : NodeId) (port : Nat)
  | notAFlowNode (node : NodeId)
deriving DecidableEq

def AnalysisError.message : AnalysisError → String
  | .unresolvedTarget target none =>
    s!"unresolved target: node {target} referenced by an entry point"
  | .unresolvedTarget target (some referrer) =>
    s!"unresolved target: node {target} referenced by node {referrer}"
  | .unknownNode node => s!"node {node} is not reachable from any entry point"
  | .classificationSealed node =>
    s!"cannot register node {node} as state: classification is sealed"
  | .portOutOfRange node port =>
    s!"node {node} has flow output port {port}, beyond the addressable range"
  | .notAFlowNode node => s!"node {node} is a value node and cannot be registered as state"

/-- What the table keeps of a node. -/
structure NodeInfo where
  id : NodeId
  title : String
  isFlow : Bool
  suspends : Bool
  isScope : Bool
deriving DecidableEq

def NodeInfo.ofNode {ν : Type} [NodeShape ν] (id : NodeId) (n : ν) : NodeInfo where
  id := id
  title := NodeShape.title n
  isFlow := NodeShape.isFlow n
  suspends := NodeShape.suspends n
  isScope := NodeShape.isScope n

def Link.isFlow (l : Link) : Bool :=
  match l.kind with
  | .flow _ => true
  | _ => false

def Link.isValue (l : Link) : Bool :=
  l.kind = .value

def Link.isChild (l : Link) : Bool :=
  l.kind = .child

def Link.isReference (l : Link) : Bool :=
  l.kind = .reference

/-! ## Records -/

/-- What a node has on record: the far ends of the links at it, and the entry points. -/
structure Neighbours where
  flowNext : List NodeId := []
  flowPrev : List NodeId := []
  /-- How many flow links lead into the node. -/
  flowInEdges : Nat := 0
  valueInputs : List NodeId := []
  valueOutputs : List NodeId := []
  children : List NodeId := []
  /-- The first node found to have this one as a child. -/
  parent : Option NodeId := none
  references : List NodeId := []
  entries : List EntryPoint := []

namespace Neighbours

/-- One more link, at either of its ends. -/
def note (id : NodeId) (r : Neighbours) (l : Link) : Neighbours :=
  let next (xs : List NodeId) := if l.source = id then pushNew xs l.target else xs
  let prev (xs : List NodeId) := if l.target = id then pushNew xs l.source else xs
  match l.kind with
  | .flow _ =>
    { r with
      flowNext := next r.flowNext
      flowPrev := prev r.flowPrev
      flowInEdges := if l.target = id then r.flowInEdges + 1 else r.flowInEdges }
  | .value => { r with valueInputs := prev r.valueInputs, valueOutputs := next r.valueOutputs }
  | .child =>
    { r with
      children := next r.children
      -- the first parent stays
      parent := if l.target = id then r.parent.or (some l.source) else r.parent }
  | .reference => { r with references := next r.references }

/-- One more entry point. -/
def noteEntry (id : NodeId) (r : Neighbours) (e : EntryPoint) : Neighbours :=
  if e.node = id then { r with entries := r.entries ++ [e] } else r

/-- The targets of a node's links of one kind, each once. -/
def targetsOf (links : List Link) (p : Link → Bool) (id : NodeId) : List NodeId :=
  distinct ((links.filter fun l => p l && l.source = id).map Link.target)

/-- The sources of the links of one kind into a node, each once. -/
def sourcesOf (links : List Link) (p : Link → Bool) (id : NodeId) : List NodeId :=
  distinct ((links.filter fun l => p l && l.target = id).map Link.source)

/-- The record of a node as its links and entry points give it. -/
def of (links : List Link) (entries : List EntryPoint) (id : NodeId) : Neighbours where
  flowNext := targetsOf links Link.isFlow id
  flowPrev := sourcesOf links Link.isFlow id
  flowInEdges := links.countP fun l => l.isFlow && l.target = id
  valueInputs := sourcesOf links Link.isValue id
  valueOutputs := targetsOf links Link.isValue id
  children := targetsOf links Link.isChild id
  parent := (sourcesOf links Link.isChild id).head?
  references := targetsOf links Link.isReference id
  entries := entries.filter (·.node = id)

theorem distinct_concat {α : Type} [DecidableEq α] (xs : List α) (a : α) :
    distinct (xs ++ [a]) = pushNew (distinct xs) a := by
  simp [distinct]

theorem view_concat (ls : List Link) (l : Link) (p : Link → Bool) (f : Link → NodeId) :
    distinct (((ls ++ [l]).filter p).map f) =
      if p l then pushNew (distinct ((ls.filter p).map f)) (f l)
      else distinct ((ls.filter p).map f) := by
  cases h : p l <;> simp [h, distinct_concat]

theorem head?_pushNew {α : Type} [DecidableEq α] (xs : List α) (a : α) :
    (pushNew xs a).head? = xs.head?.or (some a) := by
  unfold pushNew
  cases xs with
  | nil => rfl
  | cons b bs => split <;> rfl

theorem note_of (links : List Link) (entries : List EntryPoint) (id : NodeId) (l : Link) :
    (of links entries id).note id l = of (links ++ [l]) entries id := by
  obtain ⟨x, y, kind⟩ := l
  simp only [of, targetsOf, sourcesOf, view_concat, List.countP_append, List.countP_singleton]
  cases kind <;> simp [note, Link.isFlow, Link.isValue, Link.isChild, Link.isReference,
    apply_ite List.head?, head?_pushNew]
  split <;> rfl

theorem noteEntry_of (links : List Link) (entries : List EntryPoint) (id : NodeId) (e : EntryPoint) :
    (of links entries id).noteEntry id e = of links (entries ++ [e]) id := by
  by_cases h : e.node = id <;> simp [noteEntry, of, h]

end Neighbours

/-- The nodes that the entry points lead to, with their links. -/
structure Connectivity where
  /-- The nodes in the order they were met. -/
  nodes : List NodeInfo
  /-- The links in the order they were found. -/
  links : List Link
  /-- The entry points whose node exists. -/
  entries : List EntryPoint
  /-- The record of each node, kept up to date with every link and entry point. -/
  record : NodeId → Neighbours
  recorded : ∀ id, record id = .of links entries id

namespace Connectivity

def empty : Connectivity :=
  ⟨[], [], [], fun _ => {}, fun _ => rfl⟩

def addNode (t : Connectivity) (info : NodeInfo) : Connectivity :=
  { t with nodes := t.nodes ++ [info] }

def addLink (t : Connectivity) (l : Link) : Connectivity where
  nodes := t.nodes
  links := t.links ++ [l]
  entries := t.entries
  record id := (t.record id).note id l
  recorded id := by rw [t.recorded, Neighbours.note_of]

def addEntry (t : Connectivity) (e : EntryPoint) : Connectivity where
  nodes := t.nodes
  links := t.links
  entries := t.entries ++ [e]
  record id := (t.record id).noteEntry id e
  recorded id := by rw [t.recorded, Neighbours.noteEntry_of]

/-! ## Views -/

def get? (t : Connectivity) (id : NodeId) : Option NodeInfo :=
  t.nodes.find? (·.id = id)

def contains (t : Connectivity) (id : NodeId) : Bool :=
  (t.get? id).isSome

def node (t : Connectivity) (id : NodeId) : Except AnalysisError NodeInfo :=
  match t.get? id with
  | some info => .ok info
  | none => .error (.unknownNode id)

def ids (t : Connectivity) : List NodeId :=
  t.nodes.map NodeInfo.id

def isFlowNode (t : Connectivity) (id : NodeId) : Bool :=
  (t.get? id).any NodeInfo.isFlow

def flowNext (t : Connectivity) (id : NodeId) : List NodeId :=
  (t.record id).flowNext

def flowPrev (t : Connectivity) (id : NodeId) : List NodeId :=
  (t.record id).flowPrev

def flowInEdges (t : Connectivity) (id : NodeId) : Nat :=
  (t.record id).flowInEdges

def children (t : Connectivity) (id : NodeId) : List NodeId :=
  (t.record id).children

def entriesAt (t : Connectivity) (id : NodeId) : List EntryPoint :=
  (t.record id).entries

theorem flowNext_eq (t : Connectivity) (id : NodeId) :
    t.flowNext id = Neighbours.targetsOf t.links Link.isFlow id :=
  congrArg Neighbours.flowNext (t.recorded id)

theorem children_eq (t : Connectivity) (id : NodeId) :
    t.children id = Neighbours.targetsOf t.links Link.isChild id :=
  congrArg Neighbours.children (t.recorded id)

theorem flowInEdges_eq (t : Connectivity) (id : NodeId) :
    t.flowInEdges id = t.links.countP fun l => l.isFlow && l.target = id :=
  congrArg Neighbours.flowInEdges (t.recorded id)

theorem entriesAt_eq (t : Connectivity) (id : NodeId) :
    t.entriesAt id = t.entries.filter (·.node = id) :=
  congrArg Neighbours.entries (t.recorded id)

/-- More than one flow link or entry point leads to the node. -/
def isShared (t : Connectivity) (id : NodeId) : Bool :=
  1 < t.flowInEdges id + (t.entriesAt id).length

/-! ## Reachability along flow links -/

/-- The nodes that one or more flow links lead to; the node itself only if it lies on a cycle. -/
def flowReachable (t : Connectivity) (id : NodeId) : List NodeId :=
  Reach.after t.flowNext t.ids id

/-- The nodes from which one or more flow links lead to the node. -/
def flowReaching (t : Connectivity) (id : NodeId) : List NodeId :=
  Reach.after t.flowPrev t.ids id

/-- The flow nodes of the graphs inside a node: its children and what they lead to. -/
def scopeMembers (t : Connectivity) (owner : NodeId) : List NodeId :=
  distinct (((t.children owner).flatMap fun child => child :: t.flowReachable child).filter
    t.isFlowNode)

end Connectivity

/-! ## Building the table -/

/-- A connection of a node as its ports give it. -/
inductive Connection where
  | flow (index : Nat) (target : NodeId)
  | value (source : NodeId)
  | child (target : NodeId)
  | reference (target : NodeId)

namespace Connection

/-- The node at the other end. -/
def other : Connection → NodeId
  | .flow _ target => target
  | .value source => source
  | .child target => target
  | .reference target => target

/-- The link of a connection that `id` owns, if its port can be addressed. -/
def link (id : NodeId) : Connection → Except AnalysisError Link
  | .flow index target =>
    if index < UInt16.size then .ok ⟨id, target, .flow (UInt16.ofNat index)⟩
    else .error (.portOutOfRange id index)
  | .value source => .ok ⟨source, id, .value⟩
  | .child target => .ok ⟨id, target, .child⟩
  | .reference target => .ok ⟨id, target, .reference⟩

end Connection

/-- The connected ports of a node: flows, then value sources, children and references. -/
def Ports.connections (p : Ports) : List Connection :=
  (p.flows.zipIdx.filterMap fun (port, i) => port.target.map (Connection.flow i)) ++
    p.valueSources.map Connection.value ++
    p.children.map Connection.child ++
    p.references.map Connection.reference

namespace Connectivity

variable {ν : Type} [NodeShape ν]

/-- A table under construction and the nodes whose ports are still to be looked at. -/
structure Walk where
  table : Connectivity := .empty
  stack : List NodeId := []

/-- Takes a node in and puts it on the stack, unless it is known. -/
def Walk.meet (w : Walk) (id : NodeId) (n : ν) : Walk :=
  if w.table.contains id then w
  else { table := w.table.addNode (NodeInfo.ofNode id n), stack := id :: w.stack }

/-- A connection to a node that does not exist is passed over, unless the walk is strict. -/
def missing (strict : Bool) (target : NodeId) (referrer : Option NodeId) (w : Walk) :
    Except AnalysisError Walk :=
  if strict then .error (.unresolvedTarget target referrer) else .ok w

/-- Follows one connection of `id`. -/
def follow (g : Graph ν) (strict : Bool) (id : NodeId) (w : Walk) (c : Connection) :
    Except AnalysisError Walk :=
  match c.link id with
  | .error e => .error e
  | .ok link =>
    match g.get? c.other with
    | none => missing strict c.other (some id) w
    | some n =>
      let w := w.meet c.other n
      .ok { w with table := w.table.addLink link }

/-- Follows the connections of `id` in order. -/
def followAll (g : Graph ν) (strict : Bool) (id : NodeId) :
    List Connection → Walk → Except AnalysisError Walk
  | [], w => .ok w
  | c :: cs, w =>
    match follow g strict id w c with
    | .error e => .error e
    | .ok w => followAll g strict id cs w

/-- Starts at the entry points, in order. -/
def start (g : Graph ν) (strict : Bool) : List EntryPoint → Walk → Except AnalysisError Walk
  | [], w => .ok w
  | entry :: entries, w =>
    match g.get? entry.node with
    | none =>
      match missing strict entry.node none w with
      | .error e => .error e
      | .ok w => start g strict entries w
    | some n =>
      let w := w.meet entry.node n
      start g strict entries { w with table := w.table.addEntry entry }

/-- Looks at the ports of the nodes on the stack until it is empty. -/
def visit (g : Graph ν) (strict : Bool) : Nat → Walk → Except AnalysisError Connectivity
  | 0, w => .ok w.table
  | fuel + 1, w =>
    match w.stack with
    | [] => .ok w.table
    | id :: stack =>
      match g.get? id with
      | none => visit g strict fuel { w with stack := stack }
      | some n =>
        match followAll g strict id (NodeShape.ports n).connections { w with stack := stack } with
        | .error e => .error e
        | .ok w => visit g strict fuel w

/-- The table of a graph. A node is put on the stack once, so there is a step for each. -/
def build (g : Graph ν) (strict : Bool) : Except AnalysisError Connectivity :=
  match start g strict g.classDecl.entryPoints {} with
  | .error e => .error e
  | .ok w => visit g strict (g.size + 1) w

end Connectivity

end FlowClass
