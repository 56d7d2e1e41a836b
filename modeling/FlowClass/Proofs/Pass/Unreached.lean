import FlowClass.Proofs.Analysis.Coverage
import FlowClass.Proofs.Emission.Orderly
import FlowClass.Proofs.Pass.Independence

/-!
# Nodes that are not reached

A pass looks at the nodes that entry points lead to, and at no others. So graphs with the same reached
part run alike (`GraphRun.of_over`): they are prepared alike, and the emission of an entry point gives
the same text, or the same error, and the same state. Which other nodes the graphs hold, and in what
order, makes no difference to a pass (`unreached_without_influence`).
-/

namespace FlowClass

open Generation Connectivity

/-! ## One graph -/

namespace Generation

/-- The generation over another graph. -/
def withGraph (gen : Generation Node) (g : Graph Node) : Generation Node :=
  { gen with env := gen.env.withGraph g }

variable {graph graph' : Graph Node}

theorem start_over (h : graph.SameReached graph') (config : Config) :
    start graph' config = (start graph config).map fun gen => gen.withGraph graph' := by
  obtain ⟨name, classDecl, nodes, nextId⟩ := graph'
  obtain rfl : classDecl = graph.classDecl := h.classDecl
  unfold start
  rw [build_eq h]
  cases graph.classDecl.validate with
  | error e => rfl
  | ok _ =>
    cases build graph config.strict <;> rfl

/-- The table of the started graph describes the other one as well. -/
theorem exchange (h : graph.SameReached graph') {config : Config} {gen : Generation Node}
    (hstart : start graph config = .ok gen) : gen.env.Exchange graph' := by
  have hstart' : start graph' config = .ok (gen.withGraph graph') := by
    rw [start_over h, hstart]
    rfl
  obtain ⟨rfl, _, hdescribes, _⟩ := start_eq hstart
  obtain ⟨_, _, hdescribes', _⟩ := start_eq hstart'
  exact ⟨h, hdescribes, hdescribes'⟩

theorem finish_over {gen : Generation Node}
    (h : graph'.classDecl = gen.env.graph.classDecl) (order : List MarkerId) :
    (gen.withGraph graph').finish order = gen.finish order := by
  obtain ⟨name, classDecl, nodes, nextId⟩ := graph'
  obtain rfl : classDecl = gen.env.graph.classDecl := h
  rfl

end Generation

namespace GraphRun

/-- By the entry points that are left. Each leaves an orderly state behind. -/
theorem ofRest_over {env : Env Node} {graph' : Graph Node} (h : env.Exchange graph') {s : State}
    (hs : Orderly env s) (hidle : s.reading = []) {entries : List EntryPoint}
    (hown : ∀ e ∈ entries, e ∈ env.graph.classDecl.entryPoints) (order : List MarkerId) :
    ofRest order ⟨env.withGraph graph', s⟩ entries = ofRest order ⟨env, s⟩ entries := by
  induction entries generalizing s with
  | nil =>
    have hfinish : finish ⟨env.withGraph graph', s⟩ order = finish ⟨env, s⟩ order :=
      @finish_over graph' ⟨env, s⟩ h.same.classDecl order
    rw [ofRest, ofRest, hfinish]
  | cons e entries ih =>
    obtain ⟨he, hrest⟩ := List.forall_mem_cons.1 hown
    have hsafe := Emit.safe_entry h.describes he s hs (hidle ▸ List.forall_mem_nil _)
    have hsame := Emit.entry_over h he hs.frozen
    rw [ofRest, ofRest]
    unfold run
    rw [← hsame]
    rcases hrun : Emit.entry e env s with ⟨err | _, s'⟩
    · rfl
    · rw [hrun] at hsafe
      exact congrArg later (ih hsafe.orderly (hsafe.grown.reading.trans hidle) hrest)

/-- What becomes of a graph depends on its reached part. -/
theorem of_over {graph graph' : Graph Node} (h : graph.SameReached graph') (config : Config)
    (order : List MarkerId) : of config order graph' = of config order graph := by
  rw [of, of, start_over h]
  rcases hstart : start graph config with e | gen
  · rfl
  · have hexchange := exchange h hstart
    have hsame := Emit.prepare_over hexchange gen.state
    dsimp only [Except.map, run, withGraph]
    rw [← hsame]
    rcases hrun : Emit.prepare gen.env gen.state with ⟨e | _, s⟩
    · rfl
    · obtain ⟨rfl, _, _, _⟩ := start_eq hstart
      rw [h.classDecl]
      exact congrArg later (ofRest_over hexchange (orderly hstart hrun)
        (prepared hstart hrun).reading (fun _ he => he) order)

/-- A pass sees the same of graphs with the same reached parts. -/
theorem seenIn_over {graphs graphs' : List (Graph Node)}
    (h : List.Forall₂ Graph.SameReached graphs graphs') (config : Config) (orders : MapOrders) :
    seenIn config orders graphs' = seenIn config orders graphs := by
  unfold seenIn
  generalize 0 = position
  induction h generalizing position with
  | nil => rfl
  | cons hgraph _ ih =>
    rw [List.zipIdx_cons, List.zipIdx_cons, List.map_cons, List.map_cons, ih]
    simp only [Seen.of, Seen.messages_eq hgraph.name hgraph.classDecl position position,
      of_over hgraph, output, hgraph.name, hgraph.classDecl]

end GraphRun

/-- Nodes that no entry point leads to, and the order in which a graph holds its nodes, have no
influence: passes over graphs with the same reached parts give the same output or the same error,
and the same reports. This is so if both go through open markers in the same order; in other orders
they are alike. -/
theorem unreached_without_influence {graphs graphs' : List (Graph Node)}
    (h : List.Forall₂ Graph.SameReached graphs graphs') (config : Config) (orders : MapOrders) :
    generate graphs' config orders = generate graphs config orders ∧
      ∀ orders', ResultAlike (generate graphs' config orders').1 (generate graphs config orders).1 ∧
        (generate graphs' config orders').2 = (generate graphs config orders).2 := by
  have hsame : generate graphs' config orders = generate graphs config orders := by
    rw [generate_eq, generate_eq, GraphRun.seenIn_over h]
  exact ⟨hsame, fun orders' => hsame ▸ generate_alike graphs' config orders' orders⟩

/-- Graphs whose tables hold the same nodes have the same reached part. -/
theorem Graph.SameReached.of_tables {g g' : Graph Node} {t t' : Connectivity}
    (hname : g'.name = g.name) (hclass : g'.classDecl = g.classDecl)
    (ht : build g false = .ok t) (ht' : build g' false = .ok t')
    {ids : List NodeId} (hids : t.ids = ids) (hids' : t'.ids = ids)
    (hget : ∀ id ∈ ids, g'.get? id = g.get? id) : g.SameReached g' where
  name := hname
  classDecl := hclass
  nodes id n := by
    have hmem : id ∈ t.ids ↔ g.Reached id := (describes_build ht).mem_ids
    have hmem' : id ∈ t'.ids ↔ g'.Reached id := (describes_build ht').mem_ids
    rw [← hmem, ← hmem', hids, hids']
    exact and_congr_right fun hid => by rw [hget id hid]

/-- A call and what it leads to. -/
def callThenAdd : Graph Node where
  name := "C"
  classDecl := startsAtOne
  nodes :=
    [(⟨1⟩, .invoke (ownCall "Run") (some ⟨2⟩)),
      (⟨2⟩, .invoke (ownCall "Use" [.output ⟨3⟩ 0]) none),
      (⟨3⟩, .literal (.bool true))]

/-- The same in another order, beside a node that leads to the first call, and to a node that does
not exist. -/
def callBesideLoose : Graph Node where
  name := "C"
  classDecl := startsAtOne
  nodes :=
    [(⟨3⟩, .literal (.bool true)),
      (⟨2⟩, .invoke (ownCall "Use" [.output ⟨3⟩ 0]) none),
      (⟨7⟩, .sequence [some ⟨1⟩, some ⟨9⟩]),
      (⟨1⟩, .invoke (ownCall "Run") (some ⟨2⟩))]
  nextId := 8

/-- The loose node does not make the call a shared one, nor does it fail a strict pass. -/
theorem callBesideLoose_without_influence :
    callThenAdd.SameReached callBesideLoose ∧
    (generate [callThenAdd] { strict := true } .lastFirst).1.isOk = true ∧
    generate [callBesideLoose] { strict := true } .lastFirst =
      generate [callThenAdd] { strict := true } .lastFirst := by
  have hsame : callThenAdd.SameReached callBesideLoose := by
    refine .of_tables rfl rfl rfl rfl (show _ = [⟨1⟩, ⟨2⟩, ⟨3⟩] by decide) (by decide) ?_
    exact List.forall_mem_cons.2 ⟨rfl, List.forall_mem_cons.2 ⟨rfl, List.forall_mem_singleton.2 rfl⟩⟩
  exact ⟨hsame, by decide +kernel, (unreached_without_influence (.cons hsame .nil) _ _).1⟩

end FlowClass
