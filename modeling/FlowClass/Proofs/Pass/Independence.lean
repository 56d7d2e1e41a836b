import FlowClass.Proofs.Emission.Level
import FlowClass.Proofs.Emission.Preparation
import FlowClass.Proofs.Marker.Balance
import FlowClass.Proofs.Pass.Steps

/-!
# Graphs of one pass

What a pass makes of a graph (`GraphRun.of`) depends on the graph and the options alone: every graph is
prepared anew, and its work items follow each other in the queue. A job that has dealt with a graph
stands before the next one with the graph's outcome added (`Job.after`).

So a pass is a function of what it sees of its graphs (`generate_eq`): a batched pass gives their
outcomes one after the other, and any other pass does so until the first graph fails
(`Seen.conclude`).

Where several markers of a class are left open, the order of a hash map says which one the error names.
Two passes over the same graphs are alike up to that (`generate_alike`): they have the same artifacts
and reports, and they fail for the same graphs.
-/

namespace FlowClass

open List Emit Generation WorkItem

variable {config : Config} {e : GenError} {position : Nat}

/-! ## Queues -/

namespace WorkItem

variable {ν : Type} {graph : Graph ν}

/-- The work on a prepared graph: some entry points, then the class. -/
def rest (position : Nat) (graph : Graph ν) (entries : List EntryPoint) : List (WorkItem ν) :=
  (entries.map fun e => ⟨position, graph, .emit e⟩) ++ [⟨position, graph, .assemble⟩]

/-- The work on some graphs at their positions. -/
def ofPlaced (graphs : List (Graph ν × Nat)) : List (WorkItem ν) :=
  graphs.flatMap fun (graph, position) => ofGraph position graph

theorem ofGraph_eq (position : Nat) (graph : Graph ν) :
    ofGraph position graph =
      ⟨position, graph, .prepare⟩ :: rest position graph graph.classDecl.entryPoints :=
  rfl

theorem ofPlaced_cons (graph : Graph ν) (position : Nat) (later : List (Graph ν × Nat)) :
    ofPlaced ((graph, position) :: later) = ofGraph position graph ++ ofPlaced later :=
  rfl

theorem position_of_mem_rest {entries : List EntryPoint} {item : WorkItem ν}
    (h : item ∈ rest position graph entries) : item.position = position := by
  rcases mem_append.1 h with h | h
  · obtain ⟨e, _, rfl⟩ := mem_map.1 h
    rfl
  · rw [mem_singleton.1 h]

theorem position_of_mem_ofGraph {item : WorkItem ν}
    (h : item ∈ ofGraph position graph) : item.position = position := by
  rcases mem_cons.1 h with rfl | h
  · rfl
  · exact position_of_mem_rest h

end WorkItem

variable {ν : Type} [NodeKind ν] {graph : Graph ν}

/-! ## Errors that name an open marker -/

namespace GenError

/-- The error of a marker that is left open. -/
def IsUnclosed (e : GenError) : Prop :=
  ∃ id p, e = .malformedMarker (Marker.unclosed id p)

/-- The same error, or one that names another marker that is left open. -/
def Alike (e e' : GenError) : Prop :=
  e = e' ∨ e.IsUnclosed ∧ e'.IsUnclosed

end GenError

/-- The same diagnostic, or one that names another marker that is left open. -/
def Diagnostic.Alike (d d' : Diagnostic) : Prop :=
  d = d' ∨ ∃ e e' : GenError, e.IsUnclosed ∧ e'.IsUnclosed ∧ d.message = e.message ∧
    d' = { d with message := e'.message }

/-- The same artifacts, and diagnostics that are alike one by one. -/
structure Output.Alike (o o' : Output) : Prop where
  artifacts : o.artifacts = o'.artifacts
  diagnostics : Forall₂ Diagnostic.Alike o.diagnostics o'.diagnostics

omit [NodeKind ν] in
theorem Generation.finish_alike (g : Generation ν) (order order' : List MarkerId) :
    g.finish order = g.finish order' ∨ ∃ e e', g.finish order = .error e ∧
      g.finish order' = .error e' ∧ e.IsUnclosed ∧ e'.IsUnclosed := by
  unfold finish
  dsimp only
  split
  · obtain hsame | ⟨id, p, id', p', hfails, hfails'⟩ :=
      Marker.extract_alike order order' (Assembly.markedText g)
    · rw [hsame]
      exact .inl rfl
    · rw [hfails, hfails']
      exact .inr ⟨_, _, rfl, rfl, ⟨id, p, rfl⟩, ⟨id', p', rfl⟩⟩
  · exact .inl rfl

/-! ## Runs -/

/-- What became of a graph. -/
structure GraphRun where
  result : Except GenError (Artifact × List Diagnostic)
  /-- The number of work items that were done. -/
  finished : Nat

namespace GraphRun

/-- A run that fails before its first work item is done. -/
def failed (e : GenError) : GraphRun := ⟨.error e, 0⟩

/-- A run with one more work item before. -/
def later (r : GraphRun) : GraphRun := { r with finished := r.finished + 1 }

/-- The work on a prepared graph: some entry points, then the class. -/
def ofRest (order : List MarkerId) (g : Generation ν) : List EntryPoint → GraphRun
  | [] =>
    match g.finish order with
    | .error e => failed e
    | .ok artifact => ⟨.ok (artifact, g.state.diagnostics), 1⟩
  | e :: entries =>
    match g.run (entry e) with
    | (.error err, _) => failed err
    | (.ok (), g) => (ofRest order g entries).later

/-- The work on a graph. -/
def of (config : Config) (order : List MarkerId) (graph : Graph ν) : GraphRun :=
  match start graph config with
  | .error e => failed e
  | .ok g =>
    match g.run prepare with
    | (.error e, _) => failed e
    | (.ok (), g) => (ofRest order g graph.classDecl.entryPoints).later

variable {order : List MarkerId}

theorem result_of_start_error (hstart : start graph config = .error e) :
    (of config order graph).result = .error e := by
  rw [of, hstart]
  rfl

/-- What becomes of a graph when the emission of its bodies is over. -/
def outcome (order : List MarkerId) (env : Env ν) :
    Except GenError Unit × State → Except GenError (Artifact × List Diagnostic)
  | (.error e, _) => .error e
  | (.ok (), s) => (finish ⟨env, s⟩ order).map fun artifact => (artifact, s.diagnostics)

theorem result_ofRest (g : Generation ν) (entries : List EntryPoint) :
    (ofRest order g entries).result = outcome order g.env (entries.forM entry g.env g.state) := by
  induction entries generalizing g with
  | nil =>
    change _ = (finish g order).map _
    rw [ofRest]
    rcases g.finish order with e | artifact <;> rfl
  | cons entry entries ih =>
    change _ = outcome order g.env
      ((Emit.entry entry >>= fun _ => entries.forM Emit.entry) g.env g.state)
    rcases hentry : Emit.entry entry g.env g.state with ⟨e | _, s⟩
    · rw [bind_eq_of_error hentry, ofRest, run, hentry]
      rfl
    · rw [bind_eq_of_ok hentry, ofRest, run, hentry]
      exact ih ⟨g.env, s⟩

theorem result_of_start_ok {graph : Graph Node} {gen : Generation Node}
    (hstart : start graph config = .ok gen) :
    (of config order graph).result = outcome order gen.env (bodies gen.env gen.state) := by
  obtain ⟨rfl, _, _, _⟩ := start_eq hstart
  rw [of, hstart]
  unfold bodies
  dsimp only [run]
  rcases hprepare : prepare gen.env gen.state with ⟨e | _, s⟩
  · rw [bind_eq_of_error hprepare]
    rfl
  · rw [bind_eq_of_ok hprepare]
    exact result_ofRest ⟨gen.env, s⟩ _

/-! ### The order of open markers -/

/-- The same run, except that it may fail for another marker that is left open. -/
inductive Alike : GraphRun → GraphRun → Prop where
  | refl (r : GraphRun) : Alike r r
  | unclosed {e e' : GenError} (he : e.IsUnclosed) (he' : e'.IsUnclosed) (finished : Nat) :
    Alike ⟨.error e, finished⟩ ⟨.error e', finished⟩

namespace Alike

variable {r r' : GraphRun}

theorem later (h : Alike r r') : Alike r.later r'.later := by
  cases h with
  | refl r => exact .refl _
  | unclosed he he' finished => exact .unclosed he he' (finished + 1)

theorem finished (h : Alike r r') : r.finished = r'.finished := by
  cases h <;> rfl

/-- A run that succeeds does so in any order. -/
theorem eq_of_ok (h : Alike r r') {a : Artifact × List Diagnostic} (ha : r.result = .ok a) :
    r' = r := by
  cases h with
  | refl r => rfl
  | unclosed he he' finished => cases ha

theorem error (h : Alike r r') (he : r.result = .error e) :
    ∃ e', r'.result = .error e' ∧ e.Alike e' := by
  cases h with
  | refl r => exact ⟨e, he, .inl rfl⟩
  | unclosed he₁ he₂ finished =>
    cases he
    exact ⟨_, rfl, .inr ⟨he₁, he₂⟩⟩

theorem ofRest (order order' : List MarkerId) (g : Generation ν) (entries : List EntryPoint) :
    Alike (ofRest order g entries) (ofRest order' g entries) := by
  induction entries generalizing g with
  | nil =>
    unfold GraphRun.ofRest
    obtain hsame | ⟨e, e', hfails, hfails', he, he'⟩ := g.finish_alike order order'
    · rw [hsame]
      exact .refl _
    · rw [hfails, hfails']
      exact .unclosed he he' 0
  | cons entry entries ih =>
    unfold GraphRun.ofRest
    rcases g.run (Emit.entry entry) with ⟨e | _, g'⟩
    · exact .refl _
    · exact (ih g').later

theorem of (config : Config) (order order' : List MarkerId) (graph : Graph ν) :
    Alike (of config order graph) (of config order' graph) := by
  unfold GraphRun.of
  rcases start graph config with e | g
  · exact .refl _
  · dsimp only
    rcases g.run prepare with ⟨e | _, g'⟩
    · exact .refl _
    · exact (ofRest order order' g' _).later

end Alike

/-- What a batched pass gives for a graph; one that fails is skipped. -/
def output (r : GraphRun) (graph : Graph ν) : Output :=
  match r.result with
  | .ok (artifact, diagnostics) => ⟨[artifact], diagnostics⟩
  | .error e =>
    ⟨[], [{ graph := graph.name, node := e.node?, owner := graph.classDecl.name,
            message := e.root.message }]⟩

end GraphRun

instance : Append Output where
  append a b := ⟨a.artifacts ++ b.artifacts, a.diagnostics ++ b.diagnostics⟩

theorem Output.append_eq (a b : Output) :
    a ++ b = ⟨a.artifacts ++ b.artifacts, a.diagnostics ++ b.diagnostics⟩ :=
  rfl

/-- Reports on work items one after the other. -/
def reportItems (total : Nat) : Nat → List String → List Report
  | _, [] => []
  | done, text :: texts => ⟨done + 1, total, text⟩ :: reportItems total (done + 1) texts

namespace Job

/-- The job when the work `items` on a graph is over, before the work `later` on other graphs. -/
def after (j : Job ν) (r : GraphRun) (graph : Graph ν) (items later : List (WorkItem ν)) : Job ν :=
  { j with
    queue := later
    current := none
    done := j.done + items.length
    output := j.output ++ r.output graph
    reports := j.reports ++ reportItems j.total j.done ((items.map message).take r.finished) }

/-- The job after a work item that leaves its graph unfinished. -/
def goOn (j : Job ν) (item : WorkItem ν) (g : Generation ν) (queue : List (WorkItem ν)) : Job ν :=
  { j with
    queue
    current := some g
    done := j.done + 1
    reports := j.reports ++ [⟨j.done + 1, j.total, item.message⟩] }

section Items

variable {j : Job ν} {item : WorkItem ν} {items later : List (WorkItem ν)}
  {position : Nat} {e : GenError}

omit [NodeKind ν] in
/-- The items of a graph stand at its position, and no others do. -/
theorem filter_position (hitems : ∀ x ∈ items, x.position = position)
    (hlater : ∀ x ∈ later, x.position ≠ position) :
    (items ++ later).filter (fun other => other.position != position) = later := by
  rw [filter_append, filter_eq_nil_iff.2 fun x hx => by simp [hitems x hx],
    filter_eq_self.2 fun x hx => by simp [hlater x hx], nil_append]

omit [NodeKind ν] in
theorem after_goOn (r : GraphRun) (g : Generation ν) :
    (j.goOn item g (items ++ later)).after r graph items later =
      j.after r.later graph (item :: items) later := by
  simp only [goOn, after, GraphRun.later, map_cons, take_succ_cons, reportItems, length_cons,
    append_assoc, singleton_append, Nat.add_assoc, Nat.add_comm 1]
  rfl

theorem next_of_perform {g : Generation ν} {queue : List (WorkItem ν)}
    (hqueue : j.queue = item :: queue)
    (hperform : { j with queue }.perform item = .ok { j with queue, current := some g }) :
    j.next = .ok (j.goOn item g queue) := by
  refine next_of_ok hqueue ?_
  rw [runItem, hperform]
  rfl

/-- A graph whose first item fails is skipped with all its items. -/
theorem next_of_skip (hqueue : j.queue = item :: (items ++ later))
    (hitems : ∀ x ∈ items, x.position = item.position)
    (hlater : ∀ x ∈ later, x.position ≠ item.position)
    (hperform : { j with queue := items ++ later }.perform item = .error e) :
    j.next = if j.config.isBatched then
        .ok (j.after (.failed e) item.graph (item :: items) later)
      else .error (e, j.reports) := by
  have hrun : { j with queue := items ++ later }.runItem item = .error e := by
    rw [runItem, hperform]
  have hfilter := filter_position hitems hlater
  rw [next_of_error hqueue hrun]
  have hdone : j.done + ((items ++ later).length - later.length) + 1 =
      j.done + (item :: items).length := by
    rw [length_append, length_cons]
    omega
  simp only [skip, hfilter, hdone, after, GraphRun.failed, GraphRun.output, take_zero,
    reportItems, append_nil]
  rw [Output.append_eq, append_nil]

end Items

/-! ## One graph -/

/-- The first job comes past a graph, to the second one, unless the graph's error ends it. -/
structure Passes (j : Job ν) (r : GraphRun) (j' : Job ν) : Prop where
  leads : j.config.isBatched = true ∨ (∃ a, r.result = .ok a) → j.Leads j'
  fails : j.config.isBatched = false → ∀ e, r.result = .error e → j.Fails (e, j'.reports)

namespace Passes

variable {j j₁ j' : Job ν} {r : GraphRun} {e : GenError}

theorem skipped (h : j.next = if j.config.isBatched then .ok j' else .error (e, j.reports))
    (hreports : j'.reports = j.reports) : j.Passes (.failed e) j' where
  leads hgoes := by
    rcases hgoes with hbatched | ⟨a, ha⟩
    · rw [if_pos hbatched] at h
      exact .step h (.refl j')
    · cases ha
  fails hsync e' he' := by
    cases he'
    rw [hsync] at h
    rw [hreports]
    exact ⟨1, steps_succ_of_error h 0⟩

theorem step (hnext : j.next = .ok j₁) (h : j₁.Passes r j') : j.Passes r.later j' where
  leads hgoes := .step hnext (h.leads ((next_keeps hnext).2 ▸ hgoes))
  fails hsync e he := .step hnext (h.fails ((next_keeps hnext).2 ▸ hsync) e he)

end Passes

section Graphs

variable {j : Job ν} {position : Nat} {later : List (WorkItem ν)}
  (hlater : ∀ x ∈ later, x.position ≠ position)
include hlater

/-- By the entry points that are left. -/
theorem passes_rest {g : Generation ν} {entries : List EntryPoint} (hcurrent : j.current = some g)
    (hqueue : j.queue = rest position graph entries ++ later) :
    j.Passes (.ofRest (j.orders position) g entries)
      (j.after (.ofRest (j.orders position) g entries) graph (rest position graph entries) later) := by
  induction entries generalizing j g with
  | nil =>
    have hqueue' : j.queue = ⟨position, graph, .assemble⟩ :: ([] ++ later) := hqueue
    rcases hfinish : g.finish (j.orders position) with e | artifact
    · have hperform : { j with queue := [] ++ later }.perform ⟨position, graph, .assemble⟩ =
          .error e := by
        simp only [perform, hcurrent, hfinish]
      rw [GraphRun.ofRest, hfinish]
      exact .skipped (next_of_skip hqueue' (by simp) hlater hperform) (append_nil _)
    · have hnext : j.next = .ok (j.after ⟨.ok (artifact, g.state.diagnostics), 1⟩ graph
          (rest position graph []) later) := by
        refine next_of_ok hqueue' ?_
        simp only [runItem, perform, hcurrent, hfinish]
        rfl
      rw [GraphRun.ofRest, hfinish]
      exact ⟨fun _ => .step hnext (.refl _), fun _ _ he => by cases he⟩
  | cons entry entries ih =>
    have hqueue' : j.queue = ⟨position, graph, .emit entry⟩ ::
        (rest position graph entries ++ later) := hqueue
    rcases hentry : g.run (Emit.entry entry) with ⟨e | _, g'⟩
    -- the failure takes the rest of the graph off the queue
    · have hperform : { j with queue := rest position graph entries ++ later }.perform
          ⟨position, graph, .emit entry⟩ = .error e := by
        simp only [perform, hcurrent, hentry]
      rw [GraphRun.ofRest, hentry]
      exact .skipped (next_of_skip hqueue' (fun x hx => position_of_mem_rest hx) hlater
        hperform) (append_nil _)
    · have hnext : j.next = .ok (j.goOn ⟨position, graph, .emit entry⟩ g'
          (rest position graph entries ++ later)) := by
        refine next_of_perform hqueue' ?_
        simp only [perform, hcurrent, hentry]
      have hrest := Passes.step hnext (ih rfl rfl)
      rw [after_goOn] at hrest
      rw [GraphRun.ofRest, hentry]
      exact hrest

theorem passes_graph (hqueue : j.queue = ofGraph position graph ++ later) :
    j.Passes (.of j.config (j.orders position) graph)
      (j.after (.of j.config (j.orders position) graph) graph (ofGraph position graph) later) := by
  have hqueue' : j.queue = ⟨position, graph, .prepare⟩ ::
      (rest position graph graph.classDecl.entryPoints ++ later) := hqueue
  have hskip {e : GenError}
      (hperform : { j with queue := rest position graph graph.classDecl.entryPoints ++ later
        }.perform ⟨position, graph, .prepare⟩ = .error e) :=
    Passes.skipped (next_of_skip hqueue' (fun x hx => position_of_mem_rest hx) hlater
      hperform) (append_nil _)
  rcases hstart : start graph j.config with e | g
  · have hrun : GraphRun.of j.config (j.orders position) graph = .failed e := by
      rw [GraphRun.of, hstart]
    rw [hrun]
    refine hskip ?_
    simp only [perform, hstart]
  · rcases hprepare : g.run prepare with ⟨e | _, g'⟩
    · have hrun : GraphRun.of j.config (j.orders position) graph = .failed e := by
        simp only [GraphRun.of, hstart, hprepare]
      rw [hrun]
      refine hskip ?_
      simp only [perform, hstart, hprepare]
    · have hnext : j.next = .ok (j.goOn ⟨position, graph, .prepare⟩ g'
          (rest position graph graph.classDecl.entryPoints ++ later)) := by
        refine next_of_perform hqueue' ?_
        simp only [perform, hstart, hprepare]
      have hrest := Passes.step hnext (passes_rest hlater rfl rfl)
      rw [after_goOn] at hrest
      rw [GraphRun.of, hstart]
      simp only [hprepare]
      exact hrest

end Graphs

end Job

/-! ## All graphs -/

namespace Output

theorem append_assoc (a b c : Output) : a ++ b ++ c = a ++ (b ++ c) := by
  simp only [append_eq, List.append_assoc]

theorem Alike.refl (o : Output) : o.Alike o :=
  ⟨rfl, forall₂_same.2 fun _ _ => .inl rfl⟩

theorem Alike.append {a a' b b' : Output} (h : a.Alike a') (h' : b.Alike b') :
    (a ++ b).Alike (a' ++ b') := by
  refine ⟨?_, rel_append h.diagnostics h'.diagnostics⟩
  rw [append_eq, append_eq, h.artifacts, h'.artifacts]

end Output

omit [NodeKind ν] in
theorem GraphRun.Alike.output {r r' : GraphRun} (h : Alike r r') (graph : Graph ν) :
    (r.output graph).Alike (r'.output graph) := by
  cases h with
  | refl r => exact .refl _
  | unclosed he he' finished =>
    obtain ⟨id, p, rfl⟩ := he
    obtain ⟨id', p', rfl⟩ := he'
    exact ⟨rfl, .cons (.inr ⟨_, _, ⟨id, p, rfl⟩, ⟨id', p', rfl⟩, rfl, rfl⟩) .nil⟩

/-- The same result up to which open marker is named. -/
inductive ResultAlike : Except GenError Output → Except GenError Output → Prop where
  | ok {output output' : Output} (h : output.Alike output') : ResultAlike (.ok output) (.ok output')
  | error {e e' : GenError} (h : e.Alike e') : ResultAlike (.error e) (.error e')

/-- What a pass sees of a graph. -/
structure Seen where
  /-- What is reported of its work items, as far as they are done. -/
  messages : List String
  run : GraphRun
  /-- What a batched pass gives for it. -/
  output : Output

namespace Seen

omit [NodeKind ν] in
/-- A message tells of a task and the name of a graph. -/
theorem messages_eq {graph' : Graph ν} (hname : graph'.name = graph.name)
    (hclass : graph'.classDecl = graph.classDecl) (position position' : Nat) :
    (ofGraph position' graph').map message = (ofGraph position graph).map message := by
  simp [ofGraph, message, hname, hclass]

/-- The graph at a position. -/
def of (config : Config) (orders : MapOrders) (entry : Graph ν × Nat) : Seen :=
  let run := GraphRun.of config (orders entry.2) entry.1
  ⟨(ofGraph entry.2 entry.1).map message, run, run.output entry.1⟩

/-- The error with which the graph ends a pass. -/
def stops (batched : Bool) (x : Seen) : Option GenError :=
  match x.run.result with
  | .ok _ => none
  | .error e => if batched then none else some e

/-- What some graphs give, one after the other. -/
def outputs (seen : List Seen) : Output where
  artifacts := seen.flatMap (·.output.artifacts)
  diagnostics := seen.flatMap (·.output.diagnostics)

/-- What a pass over some graphs comes to, after `done` of `total` work items. -/
def conclude (batched : Bool) (total : Nat) :
    Nat → List Seen → Except GenError Output × List Report
  | _, [] => (.ok {}, [])
  | done, x :: later =>
    let reports := reportItems total done (x.messages.take x.run.finished)
    match x.stops batched with
    | some e => (.error e, reports)
    | none =>
      let rest := conclude batched total (done + x.messages.length) later
      (rest.1.map (x.output ++ ·), reports ++ rest.2)

/-- What a whole pass comes to. -/
def pass (batched : Bool) (seen : List Seen) : Except GenError Output × List Report :=
  conclude batched (seen.map (·.messages.length)).sum 0 seen

variable {batched : Bool} {total done : Nat} {x x' : Seen} {seen seen' : List Seen}

theorem stops_eq_some_iff :
    x.stops batched = some e ↔ batched = false ∧ x.run.result = .error e := by
  unfold stops
  cases x.run.result <;> cases batched <;> simp

theorem stops_eq_none_iff :
    x.stops batched = none ↔ batched = true ∨ ∃ a, x.run.result = .ok a := by
  unfold stops
  cases x.run.result <;> cases batched <;> simp

/-- A pass succeeds if no graph stops it. -/
theorem conclude_eq_ok_iff {output : Output} :
    (conclude batched total done seen).1 = .ok output ↔
      (∀ x ∈ seen, x.stops batched = none) ∧ output = outputs seen := by
  induction seen generalizing done output with
  | nil => simp [conclude, outputs, eq_comm]
  | cons x seen ih =>
    rw [forall_mem_cons, conclude]
    cases hstops : x.stops batched with
    | some e => simp
    | none =>
      dsimp only
      constructor
      · intro h
        rcases hrest : (conclude batched total (done + x.messages.length) seen).1 with e | rest <;>
          rw [hrest] at h <;> cases h
        obtain ⟨hall, rfl⟩ := ih.1 hrest
        exact ⟨⟨rfl, hall⟩, rfl⟩
      · rintro ⟨⟨_, hall⟩, rfl⟩
        rw [ih.2 ⟨hall, rfl⟩]
        rfl

/-- A pass fails with the error of the first graph that stops it. -/
theorem conclude_eq_error_iff :
    (conclude batched total done seen).1 = .error e ↔ ∃ before x behind,
      seen = before ++ x :: behind ∧ (∀ y ∈ before, y.stops batched = none) ∧
        x.stops batched = some e := by
  induction seen generalizing done with
  | nil => simp [conclude]
  | cons x seen ih =>
    rw [conclude]
    constructor
    · intro h
      cases hstops : x.stops batched with
      | some e' =>
        rw [hstops] at h
        cases h
        exact ⟨[], x, seen, rfl, forall_mem_nil _, hstops⟩
      | none =>
        rw [hstops] at h
        dsimp only at h
        rcases hrest : (conclude batched total (done + x.messages.length) seen).1 with e' | rest <;>
          rw [hrest] at h <;> cases h
        obtain ⟨before, y, behind, rfl, hbefore, hy⟩ := ih.1 hrest
        exact ⟨x :: before, y, behind, rfl, forall_mem_cons.2 ⟨hstops, hbefore⟩, hy⟩
    · rintro ⟨before, y, behind, hseen, hbefore, hy⟩
      cases before with
      | nil =>
        cases hseen
        rw [hy]
      | cons first before =>
        cases hseen
        obtain ⟨hfirst, hbefore⟩ := forall_mem_cons.1 hbefore
        rw [hfirst]
        simp only [ih.2 ⟨before, y, behind, rfl, hbefore, hy⟩, Except.map]

/-- If all graphs succeed it makes no difference whether the pass is batched. -/
theorem conclude_of_ok (h : ∀ x ∈ seen, ∃ a, x.run.result = .ok a) :
    conclude false total done seen = conclude true total done seen := by
  induction seen generalizing done with
  | nil => rfl
  | cons x seen ih =>
    obtain ⟨hfirst, hrest⟩ := forall_mem_cons.1 h
    rw [conclude, conclude, stops_eq_none_iff.2 (.inr hfirst), stops_eq_none_iff.2 (.inl rfl),
      ih hrest]

/-- The same up to which open marker is named. -/
structure Alike (x x' : Seen) : Prop where
  messages : x.messages = x'.messages
  run : x.run.Alike x'.run
  output : x.output.Alike x'.output

theorem conclude_alike (h : Forall₂ Alike seen seen') :
    ResultAlike (conclude batched total done seen).1 (conclude batched total done seen').1 ∧
      (conclude batched total done seen).2 = (conclude batched total done seen').2 := by
  induction h generalizing done with
  | nil => exact ⟨.ok (.refl _), rfl⟩
  | @cons x x' seen seen' hx _ ih =>
    rw [conclude, conclude, ← hx.messages, ← hx.run.finished]
    cases hstops : x.stops batched with
    | some e =>
      obtain ⟨hsync, he⟩ := stops_eq_some_iff.1 hstops
      obtain ⟨e', he', hsame⟩ := hx.run.error he
      rw [stops_eq_some_iff.2 ⟨hsync, he'⟩]
      exact ⟨.error hsame, rfl⟩
    | none =>
      have hstops' : x'.stops batched = none := stops_eq_none_iff.2
        ((stops_eq_none_iff.1 hstops).imp_right fun ⟨a, ha⟩ => ⟨a, hx.run.eq_of_ok ha ▸ ha⟩)
      have hmap {r r' : Except GenError Output} (h : ResultAlike r r') :
          ResultAlike (r.map (x.output ++ ·)) (r'.map (x'.output ++ ·)) := by
        cases h with
        | ok hsame => exact .ok (hx.output.append hsame)
        | error hsame => exact .error hsame
      rw [hstops']
      exact ⟨hmap ih.1, congrArg (_ ++ ·) ih.2⟩

theorem Alike.of (config : Config) (orders orders' : MapOrders) (entry : Graph ν × Nat) :
    Alike (of config orders entry) (of config orders' entry) :=
  have hrun := GraphRun.Alike.of config (orders entry.2) (orders' entry.2) entry.1
  ⟨rfl, hrun, hrun.output entry.1⟩

end Seen

/-- What a pass sees of its graphs. -/
def seenIn (config : Config) (orders : MapOrders) (graphs : List (Graph ν)) : List Seen :=
  graphs.zipIdx.map (Seen.of config orders)

namespace Job

omit [NodeKind ν] in
theorem position_ne_of_nodup {placed : List (Graph ν × Nat)}
    (h : (((graph, position) :: placed).map Prod.snd).Nodup) :
    ∀ x ∈ ofPlaced placed, x.position ≠ position := by
  rw [map_cons, nodup_cons] at h
  intro x hx heq
  obtain ⟨⟨graph', position'⟩, hmem, hx⟩ := mem_flatMap.1 hx
  refine h.1 (mem_map.2 ⟨_, hmem, ?_⟩)
  rw [← heq, position_of_mem_ofGraph hx]

/-- Steps empty the queue and add this output and these reports, or they lead to this failure. -/
def ComesTo (j : Job ν) : Except GenError Output × List Report → Prop
  | (.ok output, reports) => ∃ j', j.Leads j' ∧ j'.queue = [] ∧ j'.output = j.output ++ output ∧
      j'.reports = j.reports ++ reports
  | (.error e, reports) => j.Fails (e, j.reports ++ reports)

/-- By the graphs that are left. -/
theorem comesTo_conclude {placed : List (Graph ν × Nat)} (hnodup : (placed.map Prod.snd).Nodup)
    {j : Job ν} (hqueue : j.queue = ofPlaced placed) :
    j.ComesTo (Seen.conclude j.config.isBatched j.total j.done
      (placed.map (Seen.of j.config j.orders))) := by
  induction placed generalizing j with
  | nil => exact ⟨j, .refl j, hqueue, by simp [Output.append_eq], (append_nil _).symm⟩
  | cons entry placed ih =>
    obtain ⟨graph, position⟩ := entry
    let x := Seen.of j.config j.orders (graph, position)
    let j₁ := j.after x.run graph (ofGraph position graph) (ofPlaced placed)
    have hpasses : j.Passes x.run j₁ := passes_graph (position_ne_of_nodup hnodup) hqueue
    rw [map_cons, Seen.conclude]
    cases hstops : x.stops j.config.isBatched with
    | some e =>
      obtain ⟨hsync, he⟩ := Seen.stops_eq_some_iff.1 hstops
      exact hpasses.fails hsync e he
    | none =>
      have hfirst := hpasses.leads (Seen.stops_eq_none_iff.1 hstops)
      have hdone : j.done + x.messages.length = j₁.done := by
        rw [show x.messages = (ofGraph position graph).map message from rfl, length_map]
        rfl
      have hrest : j₁.ComesTo (Seen.conclude j.config.isBatched j.total j₁.done
          (placed.map (Seen.of j.config j.orders))) := ih (nodup_cons.1 hnodup).2 rfl
      rw [hdone]
      rcases hlater : Seen.conclude j.config.isBatched j.total j₁.done
        (placed.map (Seen.of j.config j.orders)) with ⟨e | output, reports⟩ <;> rw [hlater] at hrest
      · have hfails := hfirst.fails hrest
        rwa [show j₁.reports = j.reports ++ _ from rfl, List.append_assoc] at hfails
      · obtain ⟨j', hleads, hempty, houtput, hreports⟩ := hrest
        refine ⟨j', hfirst.trans hleads, hempty, houtput.trans ?_, hreports.trans ?_⟩
        · exact Output.append_assoc _ _ _
        · exact List.append_assoc _ _ _

end Job

/-! ## Passes -/

omit [NodeKind ν] in
theorem nodup_positions (graphs : List (Graph ν)) : (graphs.zipIdx.map Prod.snd).Nodup := by
  rw [zipIdx_map_snd]
  exact nodup_range'

/-- A pass is a function of what it sees of its graphs. -/
theorem generate_eq (graphs : List (Graph ν)) (config : Config) (orders : MapOrders) :
    generate graphs config orders = Seen.pass config.isBatched (seenIn config orders graphs) := by
  have htotal : (Job.ofGraphs config graphs orders).total =
      ((seenIn config orders graphs).map (·.messages.length)).sum := by
    rw [seenIn, map_map]
    refine length_flatMap.trans (congrArg List.sum (map_congr_left fun entry _ => ?_))
    exact (length_map _).symm
  have hcomes : (Job.ofGraphs config graphs orders).ComesTo
      (Seen.pass config.isBatched (seenIn config orders graphs)) := by
    unfold Seen.pass
    rw [← htotal]
    exact Job.comesTo_conclude (nodup_positions graphs) rfl
  revert hcomes
  rcases Seen.pass config.isBatched (seenIn config orders graphs) with ⟨e | output, reports⟩
  · exact fun hfails => generate_of_fails hfails
  · rintro ⟨j, hleads, hempty, houtput, hreports⟩
    rw [generate_of_leads hleads hempty, houtput, hreports]
    rfl

/-- Whatever the orders, a pass reports the same, and its results are alike. -/
theorem generate_alike (graphs : List (Graph ν)) (config : Config) (orders orders' : MapOrders) :
    ResultAlike (generate graphs config orders).1 (generate graphs config orders').1 ∧
      (generate graphs config orders).2 = (generate graphs config orders').2 := by
  have hseen : Forall₂ Seen.Alike (seenIn config orders graphs) (seenIn config orders' graphs) :=
    forall₂_map_left_iff.2 (forall₂_map_right_iff.2
      (forall₂_same.2 fun entry _ => .of config orders orders' entry))
  have htotal : (seenIn config orders graphs).map (·.messages.length) =
      (seenIn config orders' graphs).map (·.messages.length) := by
    simp only [seenIn, map_map]
    rfl
  rw [generate_eq, generate_eq]
  unfold Seen.pass
  rw [htotal]
  exact Seen.conclude_alike hseen

namespace GraphRun

/-- The graph has its artifact, whatever the order of open markers. -/
def Succeeds (config : Config) (graph : Graph ν) : Prop :=
  ∃ a, ∀ order, (of config order graph).result = .ok a

theorem succeeds_iff (order : List MarkerId) :
    Succeeds config graph ↔ ∃ a, (of config order graph).result = .ok a := by
  constructor
  · rintro ⟨a, ha⟩
    exact ⟨a, ha order⟩
  · rintro ⟨a, ha⟩
    exact ⟨a, fun other => by rw [(Alike.of config order other graph).eq_of_ok ha, ha]⟩

end GraphRun

open GraphRun

/-- The orders of the graphs from a position on. -/
def MapOrders.drop (orders : MapOrders) (count : Nat) : MapOrders :=
  fun position => orders (count + position)

section Passes

variable {orders : MapOrders} {graphs : List (Graph ν)} {output : Output}

theorem seenIn_append (config : Config) (orders : MapOrders) (graphs others : List (Graph ν)) :
    seenIn config orders (graphs ++ others) =
      seenIn config orders graphs ++ seenIn config (orders.drop graphs.length) others := by
  rw [seenIn, zipIdx_append, map_append, Nat.zero_add, zipIdx_eq_map_add (l := others), map_map]
  refine congrArg (_ ++ ·) (map_congr_left fun entry _ => ?_)
  exact congrArg (Seen.mk · _ _) (Seen.messages_eq rfl rfl _ _)

theorem outputs_append (config : Config) (orders : MapOrders) (graphs others : List (Graph ν)) :
    Seen.outputs (seenIn config orders (graphs ++ others)) =
      Seen.outputs (seenIn config orders graphs) ++
        Seen.outputs (seenIn config (orders.drop graphs.length) others) := by
  rw [seenIn_append, Output.append_eq]
  simp only [Seen.outputs, flatMap_append]

theorem stops_seenIn : (∀ x ∈ seenIn config orders graphs, x.stops config.isBatched = none) ↔
    config.isBatched = true ∨ ∀ graph ∈ graphs, Succeeds config graph := by
  have hall : (∀ entry ∈ graphs.zipIdx, ∃ a, (Seen.of config orders entry).run.result = .ok a) ↔
      ∀ graph ∈ graphs, Succeeds config graph := by
    conv_rhs => rw [← zipIdx_map_fst 0 graphs, forall_mem_map]
    exact forall₂_congr fun entry _ => (succeeds_iff _).symm
  simp only [seenIn, forall_mem_map, Seen.stops_eq_none_iff, ← hall]
  cases config.isBatched <;> simp

theorem generate_eq_ok_iff : (generate graphs config orders).1 = .ok output ↔
    (config.isBatched = true ∨ ∀ graph ∈ graphs, Succeeds config graph) ∧
      output = Seen.outputs (seenIn config orders graphs) := by
  rw [generate_eq, Seen.pass, Seen.conclude_eq_ok_iff, stops_seenIn]

theorem generate_of_batched (h : config.isBatched = true) :
    (generate graphs config orders).1 = .ok (Seen.outputs (seenIn config orders graphs)) :=
  generate_eq_ok_iff.2 ⟨.inl h, rfl⟩

theorem generate_eq_error_iff : (generate graphs config orders).1 = .error e ↔
    config.isBatched = false ∧ ∃ before graph behind, graphs = before ++ graph :: behind ∧
      (∀ other ∈ before, Succeeds config other) ∧
      (of config (orders before.length) graph).result = .error e := by
  rw [generate_eq, Seen.pass, Seen.conclude_eq_error_iff]
  constructor
  · rintro ⟨before, x, behind, hseen, hbefore, hx⟩
    obtain ⟨placed, rest, hplaced, rfl, hrest⟩ := map_eq_append_iff.1 hseen
    obtain ⟨entry, others, rfl, rfl, _⟩ := map_eq_cons_iff.1 hrest
    obtain ⟨before, rest, rfl, rfl, hrest⟩ := zipIdx_eq_append_iff.1 hplaced
    obtain ⟨graph, behind, rfl, rfl, _⟩ := zipIdx_eq_cons_iff.1 hrest.symm
    obtain ⟨hsync, hfails⟩ := Seen.stops_eq_some_iff.1 hx
    rw [Nat.zero_add] at hfails
    refine ⟨hsync, before, graph, behind, rfl, ?_, hfails⟩
    exact (stops_seenIn.1 hbefore).resolve_left (by rw [hsync]; exact Bool.false_ne_true)
  · rintro ⟨hsync, before, graph, behind, rfl, hbefore, hfails⟩
    exact ⟨seenIn config orders before, _, _, seenIn_append config orders before (graph :: behind),
      stops_seenIn.2 (.inr hbefore), Seen.stops_eq_some_iff.2 ⟨hsync, hfails⟩⟩

theorem generate_single_ok_iff (hsync : config.isBatched = false) :
    (∃ output, (generate [graph] config orders).1 = .ok output) ↔ Succeeds config graph := by
  simp [generate_eq_ok_iff, hsync]

theorem generate_single_error_iff (hsync : config.isBatched = false) :
    (generate [graph] config orders).1 = .error e ↔
      (of config (orders 0) graph).result = .error e := by
  rw [generate_eq_error_iff]
  constructor
  · rintro ⟨_, before, other, behind, heq, _, hfails⟩
    cases before with
    | nil =>
      cases heq
      exact hfails
    | cons first before => exact absurd (List.cons.inj heq).2.symm (by simp)
  · intro h
    exact ⟨hsync, [], graph, [], rfl, forall_mem_nil _, h⟩

/-- A pass over some graphs is at an end with an error of one of them, or the artifacts it gives are
those of its graphs. -/
theorem generate_cases (graphs : List (Graph ν)) (config : Config) (orders : MapOrders) :
    (∃ e, (generate graphs config orders).1 = .error e ∧
      ∃ graph ∈ graphs, ∃ order, (of config order graph).result = .error e) ∨
    (generate graphs config orders).1 = .ok (Seen.outputs (seenIn config orders graphs)) := by
  rcases hrun : (generate graphs config orders).1 with e | output
  · obtain ⟨_, before, graph, behind, rfl, _, hfails⟩ := generate_eq_error_iff.1 hrun
    exact .inl ⟨e, rfl, graph, by simp, _, hfails⟩
  · obtain ⟨_, rfl⟩ := generate_eq_ok_iff.1 hrun
    exact .inr rfl

/-- Graphs that succeed give the same in any order. -/
theorem seenIn_of_succeeds (h : ∀ graph ∈ graphs, Succeeds config graph)
    (orders orders' : MapOrders) : seenIn config orders' graphs = seenIn config orders graphs := by
  refine map_congr_left fun entry hentry => ?_
  obtain ⟨a, ha⟩ := h entry.1 (fst_mem_of_mem_zipIdx hentry)
  unfold Seen.of
  rw [(Alike.of config (orders entry.2) (orders' entry.2) entry.1).eq_of_ok (ha _)]

end Passes

/-- Graphs of one pass do not influence each other. A batched pass over two lists of graphs gives
what it gives for the first, followed by what it gives for the second. A synchronous pass succeeds
if it does for both, with their outputs put together, and otherwise ends with the error that the
first failing graph has on its own. Where a pass can name several open markers the orders say which;
passes in other orders are alike. -/
theorem graphs_do_not_interfere (graphs others : List (Graph ν)) (config : Config) :
    (∀ depth, ∃ a b : MapOrders → Output,
      (∀ orders, (generate graphs (config.under (.batched depth)) orders).1 = .ok (a orders)) ∧
      (∀ orders, (generate others (config.under (.batched depth)) orders).1 = .ok (b orders)) ∧
      (∀ orders, (generate (graphs ++ others) (config.under (.batched depth)) orders).1 =
        .ok (a orders ++ b (orders.drop graphs.length))) ∧
      ∀ orders orders', (a orders).Alike (a orders') ∧ (b orders).Alike (b orders')) ∧
    (∀ orders orders₁ orders₂ output,
      (generate (graphs ++ others) (config.under .synchronous) orders).1 = .ok output ↔
        ∃ a b, (generate graphs (config.under .synchronous) orders₁).1 = .ok a ∧
          (generate others (config.under .synchronous) orders₂).1 = .ok b ∧ output = a ++ b) ∧
    ∀ orders e, (generate (graphs ++ others) (config.under .synchronous) orders).1 = .error e ↔
      ∃ before graph behind, graphs ++ others = before ++ graph :: behind ∧
        (∀ other ∈ before, ∀ orders', ∃ output,
          (generate [other] (config.under .synchronous) orders').1 = .ok output) ∧
        (generate [graph] (config.under .synchronous) (orders.drop before.length)).1 = .error e ∧
        ∀ orders', ResultAlike (.error e)
          (generate [graph] (config.under .synchronous) orders').1 := by
  have hsync : (config.under .synchronous).isBatched = false := rfl
  refine ⟨fun depth => ?_, fun orders orders₁ orders₂ output => ?_, fun orders e => ?_⟩
  · have heach (list : List (Graph ν)) (orders : MapOrders) :
        (generate list (config.under (.batched depth)) orders).1 =
          .ok (Seen.outputs (seenIn (config.under (.batched depth)) orders list)) :=
      generate_of_batched rfl
    have halike (list : List (Graph ν)) (orders orders' : MapOrders) :
        (Seen.outputs (seenIn (config.under (.batched depth)) orders list)).Alike
          (Seen.outputs (seenIn (config.under (.batched depth)) orders' list)) := by
      obtain ⟨hsame, _⟩ := generate_alike list (config.under (.batched depth)) orders orders'
      rw [heach, heach] at hsame
      cases hsame
      assumption
    refine ⟨_, _, heach graphs, heach others, fun orders => ?_, fun orders orders' =>
      ⟨halike graphs orders orders', halike others orders orders'⟩⟩
    rw [heach, outputs_append]
  · simp only [generate_eq_ok_iff, hsync, Bool.false_eq_true, false_or, outputs_append,
      List.forall_mem_append]
    -- where a pass succeeds there are no open markers to choose from
    constructor
    · rintro ⟨⟨hgraphs, hothers⟩, rfl⟩
      refine ⟨_, _, ⟨hgraphs, rfl⟩, ⟨hothers, rfl⟩, ?_⟩
      rw [seenIn_of_succeeds hgraphs orders orders₁, seenIn_of_succeeds hothers _ orders₂]
    · rintro ⟨_, _, ⟨hgraphs, rfl⟩, ⟨hothers, rfl⟩, rfl⟩
      refine ⟨⟨hgraphs, hothers⟩, ?_⟩
      rw [seenIn_of_succeeds hgraphs orders₁ orders, seenIn_of_succeeds hothers _ orders₂]
  · rw [generate_eq_error_iff, and_iff_right hsync]
    constructor
    · rintro ⟨before, graph, behind, hgraphs, hbefore, hfails⟩
      have hsingle : (generate [graph] (config.under .synchronous) (orders.drop before.length)).1 =
          .error e := (generate_single_error_iff hsync).2 hfails
      refine ⟨before, graph, behind, hgraphs, fun other hother orders' =>
        (generate_single_ok_iff hsync).2 (hbefore other hother), hsingle, fun orders' => ?_⟩
      exact hsingle ▸ (generate_alike [graph] _ _ orders').1
    · rintro ⟨before, graph, behind, hgraphs, hbefore, hfails, _⟩
      exact ⟨before, graph, behind, hgraphs, fun other hother =>
        (generate_single_ok_iff hsync).1 (hbefore other hother orders),
        (generate_single_error_iff hsync).1 hfails⟩

end FlowClass
