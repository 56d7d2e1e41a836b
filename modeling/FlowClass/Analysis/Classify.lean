import FlowClass.Analysis.Connectivity

/-!
# Classification

A flow node is *state* if it is a seed or flows into one; state nodes become resumable units, all
others are written in place. The seeds are the nodes registered by hand, those that suspend, those
on a flow cycle, and the flow nodes inside a scope.

The classifier remembers its answers. A registration forgets the answers it may change, and sealing
freezes all of them: from then on nothing can be registered.
-/

namespace FlowClass

/-- The frozen answers. -/
structure Classification where
  stateNodes : List NodeId := []
  recursiveNodes : List NodeId := []

structure Classifier where
  /-- The nodes registered by hand. -/
  registered : List NodeId := []
  /-- The seeds, once they were needed. -/
  seeds : Option (List NodeId) := none
  /-- Remembered answers of `isState`. -/
  stateMemo : List (NodeId × Bool) := []
  /-- Remembered answers of `isRecursive`. -/
  recursiveMemo : List (NodeId × Bool) := []
  frozen : Option Classification := none

namespace Classifier

def isSealed (c : Classifier) : Bool :=
  c.frozen.isSome

/-- Makes a flow node a seed. -/
def register (t : Connectivity) (c : Classifier) (id : NodeId) : Except AnalysisError Classifier :=
  if c.isSealed then .error (.classificationSealed id)
  else
    match t.node id with
    | .error e => .error e
    | .ok info =>
      if !info.isFlow then .error (.notAFlowNode id)
      else if id ∈ c.registered then .ok c
      else .ok { c with registered := id :: c.registered, seeds := none, stateMemo := [] }

/-- The node flows back into itself. -/
def isRecursive (t : Connectivity) (c : Classifier) (id : NodeId) : Bool × Classifier :=
  match c.frozen with
  | some frozen => (id ∈ frozen.recursiveNodes, c)
  | none =>
    match c.recursiveMemo.lookup id with
    | some answer => (answer, c)
    | none =>
      let answer := id ∈ t.flowReachable id
      (answer, { c with recursiveMemo := (id, answer) :: c.recursiveMemo })

/-- The remembered answer on recursion, or a new one. -/
def remembered (t : Connectivity) (memo : List (NodeId × Bool)) (id : NodeId) : Bool :=
  (memo.lookup id).getD (id ∈ t.flowReachable id)

/-- The seeds a node of the table brings in. -/
def seedsAt (t : Connectivity) (memo : List (NodeId × Bool)) (info : NodeInfo) : List NodeId :=
  if info.isFlow then
    (if info.suspends || remembered t memo info.id then [info.id] else []) ++
      (if info.isScope then t.scopeMembers info.id else [])
  else []

/-- The seeds, computed if they are not remembered; the answers on recursion that this needs are
remembered too. -/
def withSeeds (t : Connectivity) (c : Classifier) : List NodeId × Classifier :=
  match c.seeds with
  | some seeds => (seeds, c)
  | none =>
    let seeds := c.registered ++ t.nodes.flatMap (seedsAt t c.recursiveMemo)
    let answers := (t.nodes.filter NodeInfo.isFlow).map fun info =>
      (info.id, remembered t c.recursiveMemo info.id)
    (seeds, { c with seeds := some seeds, recursiveMemo := c.recursiveMemo ++ answers })

/-- The node is a seed or flows into one. -/
def isState (t : Connectivity) (c : Classifier) (id : NodeId) : Bool × Classifier :=
  match c.frozen with
  | some frozen => (id ∈ frozen.stateNodes, c)
  | none =>
    if id ∈ c.registered then (true, c)
    else
      match c.stateMemo.lookup id with
      | some answer => (answer, c)
      | none =>
        if t.isFlowNode id then
          let (seeds, c) := c.withSeeds t
          let answer := id ∈ seeds || (t.flowReachable id).any (· ∈ seeds)
          (answer, { c with stateMemo := (id, answer) :: c.stateMemo })
        else (false, { c with stateMemo := (id, false) :: c.stateMemo })

/-- One of the nodes is state; stops at the first. -/
def anyState (t : Connectivity) (c : Classifier) : List NodeId → Bool × Classifier
  | [] => (false, c)
  | id :: ids =>
    match c.isState t id with
    | (true, c) => (true, c)
    | (false, c) => anyState t c ids

/-- A state node flows directly into the node. -/
def hasStateInput (t : Connectivity) (c : Classifier) (id : NodeId) : Bool × Classifier :=
  if t.contains id then c.anyState t (t.flowPrev id) else (false, c)

/-- Asks both questions about every node. -/
def classifyAll (t : Connectivity) (c : Classifier) (result : Classification) :
    List NodeId → Classification × Classifier
  | [] => (result, c)
  | id :: ids =>
    let (state, c) := c.isState t id
    let (recursive, c) := c.isRecursive t id
    classifyAll t c
      { stateNodes := if state then result.stateNodes ++ [id] else result.stateNodes
        recursiveNodes :=
          if recursive then result.recursiveNodes ++ [id] else result.recursiveNodes } ids

/-- Freezes the classification. -/
def sealNodes (t : Connectivity) (c : Classifier) : Classification × Classifier :=
  match c.frozen with
  | some frozen => (frozen, c)
  | none =>
    let (result, c) := c.classifyAll t {} t.ids
    (result, { c with frozen := some result })

end Classifier

end FlowClass
