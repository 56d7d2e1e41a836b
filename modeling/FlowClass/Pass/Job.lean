import FlowClass.Assembly

/-!
# Jobs

A pass over some graphs is a queue of work items: to prepare a graph, to emit each of its entry
points, and to assemble its class. A drain runs as many items as the queue depth allows.

In a batched pass a graph that fails as a whole is skipped with its remaining items; otherwise the
first failure empties the queue.
-/

namespace FlowClass

variable {ν : Type}

/-- What is done with a graph. -/
inductive Task where
  | prepare
  | emit (entry : EntryPoint)
  | assemble
deriving DecidableEq

/-- A task for one of the graphs of a pass, by its position. -/
structure WorkItem (ν : Type) where
  position : Nat
  graph : Graph ν
  task : Task

/-- What a pass gives. -/
structure Output where
  artifacts : List Artifact := []
  diagnostics : List Diagnostic := []

def Output.isClean (o : Output) : Bool :=
  o.diagnostics.isEmpty

/-- A report after a work item. -/
structure Report where
  done : Nat
  total : Nat
  message : String
deriving DecidableEq

/-- How much of the pass is done. -/
def Report.fraction (r : Report) : Single :=
  Single.ofCounts r.done (max r.total 1)

/-- For each graph of a pass, by its position, the order in which the hash map of its open markers is
gone through. No two maps need have the same. -/
abbrev MapOrders := Nat → List MarkerId

/-- Of several open markers the one that was opened last is named. -/
def MapOrders.lastFirst : MapOrders :=
  fun _ => []

structure Job (ν : Type) where
  config : Config
  orders : MapOrders
  queue : List (WorkItem ν)
  total : Nat
  done : Nat := 0
  /-- The graph that was prepared last, until it is assembled. -/
  current : Option (Generation ν) := none
  output : Output := {}
  reports : List Report := []

namespace WorkItem

/-- The work on one graph. -/
def ofGraph (position : Nat) (graph : Graph ν) : List (WorkItem ν) :=
  ⟨position, graph, .prepare⟩ ::
    (graph.classDecl.entryPoints.map fun e => ⟨position, graph, .emit e⟩) ++
    [⟨position, graph, .assemble⟩]

/-- The work on several graphs, in order. -/
def ofGraphs (graphs : List (Graph ν)) : List (WorkItem ν) :=
  graphs.zipIdx.flatMap fun (graph, position) => ofGraph position graph

def message (item : WorkItem ν) : String :=
  let name := item.graph.name
  match item.task with
  | .prepare => s!"prepared {name}"
  | .emit entry =>
    let node := entry.node
    s!"emitted entry {node} of {name}"
  | .assemble => s!"assembled {name}"

end WorkItem

namespace Job

def ofGraphs (config : Config) (graphs : List (Graph ν)) (orders : MapOrders) : Job ν :=
  let queue := WorkItem.ofGraphs graphs
  { config, orders, queue, total := queue.length }

def pending (j : Job ν) : Nat :=
  j.queue.length

variable [NodeKind ν]

/-- Does the task of an item. -/
def perform (j : Job ν) (item : WorkItem ν) : Except GenError (Job ν) :=
  match item.task with
  | .prepare =>
    match Generation.start item.graph j.config with
    | .error e => .error e
    | .ok g =>
      match g.run Emit.prepare with
      | (.error e, _) => .error e
      | (.ok (), g) => .ok { j with current := some g }
  | .emit entry =>
    match j.current with
    | none => .error (.invalid (.entryBeforePreparation item.graph.name))
    | some g =>
      match g.run (Emit.entry entry) with
      | (.error e, _) => .error e
      | (.ok (), g) => .ok { j with current := some g }
  | .assemble =>
    match j.current with
    | none => .error (.invalid (.typeBeforePreparation item.graph.name))
    | some g =>
      match g.finish (j.orders item.position) with
      | .error e => .error e
      | .ok artifact =>
        .ok { j with
          current := none
          output :=
            { artifacts := j.output.artifacts ++ [artifact]
              diagnostics := j.output.diagnostics ++ g.state.diagnostics } }

/-- Does the task of an item and reports it. -/
def runItem (j : Job ν) (item : WorkItem ν) : Except GenError (Job ν) :=
  match j.perform item with
  | .error e => .error e
  | .ok j =>
    let done := j.done + 1
    .ok { j with done, reports := j.reports ++ [⟨done, j.total, item.message⟩] }

/-- Notes the failure of a graph, and drops the rest of its work. -/
def skip (j : Job ν) (item : WorkItem ν) (e : GenError) : Job ν :=
  let queue := j.queue.filter fun other => other.position != item.position
  let diagnostic : Diagnostic :=
    { graph := item.graph.name
      node := e.node?
      owner := item.graph.classDecl.name
      message := e.root.message }
  { j with
    queue
    done := j.done + (j.queue.length - queue.length) + 1
    output := { j.output with diagnostics := j.output.diagnostics ++ [diagnostic] } }

/-- Runs up to some number of items, after `ran` others. -/
def drainItems : Nat → Nat → Job ν → Except GenError Nat × Job ν
  | 0, ran, j => (.ok ran, j)
  | count + 1, ran, j =>
    match j.queue with
    | [] => (.ok ran, j)
    | item :: queue =>
      let j := { j with queue }
      match j.runItem item with
      | .ok j => drainItems count (ran + 1) j
      | .error e =>
        let j := { j with current := none }
        if j.config.isBatched then drainItems count (ran + 1) (j.skip item e)
        else (.error e, { j with queue := [] })

/-- Runs as many items as the queue depth allows, and says how many. -/
def drain (j : Job ν) : Except GenError Nat × Job ν :=
  drainItems (min j.config.queueDepth j.pending) 0 j

/-- Drains until the queue is empty, with a yield between each two drains; every drain runs an item.
Gives the number of yields. -/
def drainAll : Nat → Nat → Job ν → Except GenError Nat × Job ν
  | 0, ticks, j => (.ok ticks, j)
  | fuel + 1, ticks, j =>
    if j.queue.isEmpty then (.ok ticks, j)
    else
      match j.drain with
      | (.error e, j) => (.error e, j)
      | (.ok _, j) => drainAll fuel (if j.queue.isEmpty then ticks else ticks + 1) j

/-- Drains the whole queue. -/
def wait (j : Job ν) : Except GenError Nat × Job ν :=
  drainAll j.pending 0 j

/-- The output of a job whose queue is empty. -/
def finish (j : Job ν) : Except GenError Output :=
  if j.queue.isEmpty then .ok j.output else .error (.invalid (.unfinishedJob j.pending))

/-- Drains the whole queue and gives the output. -/
def run (j : Job ν) : Except GenError Output × Job ν :=
  match j.wait with
  | (.error e, j) => (.error e, j)
  | (.ok _, j) => (j.finish, j)

end Job

end FlowClass
