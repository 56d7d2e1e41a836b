import FlowClass.Proofs.Pass.Independence
import FlowClass.Proofs.Program.Markers

/-!
# Markers of a pass

In a pass that traces, every file that is assembled has its markers extracted, whatever was emitted
before and however much of it failed. This needs a graph and options without `#` in their strings; the
values of string and character literals may be any.
-/

namespace FlowClass

open Emit Generation

/-- The identities that a span may have. -/
def Env.Marks (env : Env Node) : MarkerId → Prop
  | .node id => id ∈ env.table.ids
  | .decl id => id ∈ env.graph.classDecl.declIds

/-- No marker is left in the file, and its map leads back to nodes of the table and to declarations of
the class. -/
structure Env.Traces (env : Env Node) (a : Artifact) : Prop where
  opened : ¬ Marker.openMark <:+: a.source.toList
  closed : ¬ Marker.closeMark <:+: a.source.toList
  mapped : ∃ map, a.sourceMap = some map ∧ ∀ span ∈ map.spans, env.Marks span.id

namespace Generation

/-- What preparing a class and emitting its entry points lead to, in any order, and whether they fail
or not. -/
inductive Reaches (g : Generation Node) : Generation Node → Prop where
  | refl : g.Reaches g
  | prepare {g' : Generation Node} (h : g.Reaches g') : g.Reaches (g'.run Emit.prepare).2
  | entry {g' : Generation Node} (h : g.Reaches g') {e : EntryPoint}
      (he : e ∈ g'.env.graph.classDecl.entryPoints) : g.Reaches (g'.run (Emit.entry e)).2

variable {graph : Graph Node} {config : Config} {gen g : Generation Node}

theorem weavable (hstart : start graph config = .ok gen) (hgraph : Hashless graph.strings)
    (hconfig : Hashless config.strings) : gen.env.Weavable gen.env.Marks := by
  have hdescribes := describes hstart
  obtain ⟨rfl, rfl, _, _⟩ := start_eq hstart
  exact ⟨hdescribes, fun _ hid => hid, fun _ hid => hid, hgraph, hconfig⟩

theorem woven_of_reaches {ok : MarkerId → Prop} (henv : gen.env.Weavable ok)
    (hstate : gen.state.Woven ok) (h : gen.Reaches g) : g.env = gen.env ∧ g.state.Woven ok := by
  induction h with
  | refl => exact ⟨rfl, hstate⟩
  | @prepare g' _ ih =>
    refine ⟨ih.1, ?_⟩
    show (Emit.prepare g'.env g'.state).2.Woven ok
    rw [ih.1]
    exact (Weaves.prepare henv g'.state ih.2).1
  | @entry g' _ e he ih =>
    refine ⟨ih.1, ?_⟩
    show (Emit.entry e g'.env g'.state).2.Woven ok
    rw [ih.1] at he ⊢
    exact (Weaves.entry henv he g'.state ih.2).1

/-- The file is assembled, and its markers extract. -/
theorem exists_finish (htraceable : g.env.config.traceable = true)
    (henv : g.env.Weavable g.env.Marks) (hstate : g.state.Woven g.env.Marks) :
    ∃ artifact, (∀ order, g.finish order = .ok artifact) ∧ g.env.Traces artifact := by
  obtain ⟨source, map, hextract, hopened, hclosed, hspans⟩ :=
    (Assembly.extractable_markedText henv hstate).extract
  let name := g.env.graph.classDecl.name
  refine ⟨⟨name, name ++ ".cs", source, some map⟩, fun order => ?_, hopened, hclosed, map, rfl, hspans⟩
  unfold finish
  rw [if_pos htraceable, hextract]

/-- Whatever was emitted, the file is assembled, and its markers extract. -/
theorem finish_of_reaches (hstart : start graph config = .ok gen)
    (htraceable : config.traceable = true) (hgraph : Hashless graph.strings)
    (hconfig : Hashless config.strings) (h : gen.Reaches g) :
    ∃ artifact, (∀ order, g.finish order = .ok artifact) ∧ gen.env.Traces artifact := by
  have hweavable := weavable hstart hgraph hconfig
  obtain ⟨_, rfl, _, hinitial⟩ := start_eq hstart
  obtain ⟨henv, hstate⟩ := woven_of_reaches hweavable (hinitial ▸ .initial gen.env) h
  rw [← henv] at hweavable htraceable hstate ⊢
  exact exists_finish htraceable hweavable hstate

end Generation

/-! ## Graphs -/

namespace Generation.Reaches

variable {gen g : Generation Node}

theorem entries (h : gen.Reaches g) {entries : List EntryPoint}
    (hentries : ∀ e ∈ entries, e ∈ g.env.graph.classDecl.entryPoints) :
    gen.Reaches (g.run (entries.forM Emit.entry)).2 := by
  induction entries generalizing g with
  | nil => exact h
  | cons e entries ih =>
    have hreached := h.entry (hentries e List.mem_cons_self)
    rcases hrun : Emit.entry e g.env g.state with ⟨err | _, s⟩
    · -- the run stops at the failure, in a state that is reached all the same
      have hfold : (e :: entries).forM Emit.entry g.env g.state = (.error err, s) :=
        bind_eq_of_error hrun
      rw [run, hfold]
      rwa [run, hrun] at hreached
    · have hfold : (e :: entries).forM Emit.entry g.env g.state =
          entries.forM Emit.entry g.env s := bind_eq_of_ok hrun
      rw [run, hrun] at hreached
      have hrest := ih hreached fun other hother => hentries other (List.mem_cons_of_mem _ hother)
      rw [run, hfold]
      exact hrest

theorem bodies (gen : Generation Node) : gen.Reaches (gen.run Emit.bodies).2 := by
  have hprepared := (Reaches.refl (g := gen)).prepare
  rcases hrun : Emit.prepare gen.env gen.state with ⟨err | _, s⟩
  · have hbodies : Emit.bodies gen.env gen.state = (.error err, s) := bind_eq_of_error hrun
    rw [run, hbodies]
    rwa [run, hrun] at hprepared
  · have hbodies : Emit.bodies gen.env gen.state =
        gen.env.graph.classDecl.entryPoints.forM Emit.entry gen.env s := bind_eq_of_ok hrun
    rw [run, hrun] at hprepared
    have hall := hprepared.entries fun _ he => he
    rw [run, hbodies]
    exact hall

end Generation.Reaches

/-- The artifact of a graph is traced; one that has none fails before its class is assembled. -/
theorem GraphRun.traced_of {graph : Graph Node} {config : Config} {order : List MarkerId}
    (htraceable : config.traceable = true) (hgraph : Hashless graph.strings)
    (hconfig : Hashless config.strings) :
    (∀ a, (of config order graph).result = .ok a →
      ∃ gen, start graph config = .ok gen ∧ gen.env.Traces a.1) ∧
    ∀ e, (of config order graph).result = .error e → start graph config = .error e ∨
      ∃ gen, start graph config = .ok gen ∧ (bodies gen.env gen.state).1 = .error e := by
  rcases hstart : start graph config with e | gen
  · rw [result_of_start_error hstart]
    exact ⟨fun a ha => (by cases ha), fun e' he' => .inl (by cases he'; rfl)⟩
  · rcases hrun : bodies gen.env gen.state with ⟨e | _, s⟩
    · rw [result_of_start_ok hstart, hrun, outcome]
      refine ⟨fun a ha => (by cases ha), fun e' he' => .inr ⟨gen, rfl, ?_⟩⟩
      cases he'
      rw [hrun]
    · have hreaches := Reaches.bodies gen
      rw [run, hrun] at hreaches
      obtain ⟨artifact, hfinish, htraces⟩ :=
        finish_of_reaches hstart htraceable hgraph hconfig hreaches
      rw [result_of_start_ok hstart, hrun, outcome, hfinish]
      refine ⟨fun a ha => ?_, fun e he => by cases he⟩
      cases ha
      exact ⟨gen, rfl, htraces⟩

/-! ## Passes -/

theorem GraphRun.result_of_mem_artifacts {ν : Type} {r : GraphRun} {graph : Graph ν}
    {artifact : Artifact} (h : artifact ∈ (r.output graph).artifacts) :
    ∃ diagnostics, r.result = .ok (artifact, diagnostics) := by
  unfold output at h
  split at h
  · rename_i a diagnostics hresult
    rw [List.mem_singleton.1 h]
    exact ⟨diagnostics, hresult⟩
  · exact absurd h List.not_mem_nil

/-- Markers always extract, in a pass of any scheduling that traces. Whatever of a graph was emitted,
and however much of it failed, its file is assembled: no marker is left in it, and every span is that
of a node of the table or of a declaration of the class. So a pass that fails does so before, and
every artifact of a pass that succeeds is traced to one of its graphs. -/
theorem markers_extract (graphs : List (Graph Node)) (config : Config) (orders : MapOrders)
    (htraceable : config.traceable = true) (hconfig : Hashless config.strings)
    (hgraphs : ∀ graph ∈ graphs, Hashless graph.strings) :
    (∀ graph ∈ graphs, ∀ gen, Generation.start graph config = .ok gen → ∀ g, gen.Reaches g →
      ∃ artifact, (∀ order, g.finish order = .ok artifact) ∧ gen.env.Traces artifact) ∧
    (∀ e, (generate graphs config orders).1 = .error e → ∃ graph ∈ graphs,
      Generation.start graph config = .error e ∨
        ∃ gen, Generation.start graph config = .ok gen ∧
          (bodies gen.env gen.state).1 = .error e) ∧
    ∀ output, (generate graphs config orders).1 = .ok output → ∀ artifact ∈ output.artifacts,
      ∃ graph ∈ graphs, ∃ gen, Generation.start graph config = .ok gen ∧
        gen.env.Traces artifact := by
  refine ⟨fun graph hgraph gen hstart g hreaches => ?_, fun e he => ?_, fun output houtput artifact
    hartifact => ?_⟩
  · exact Generation.finish_of_reaches hstart htraceable (hgraphs graph hgraph) hconfig hreaches
  · obtain ⟨e', he', graph, hgraph, _, hfails⟩ | hok := generate_cases graphs config orders
    · rw [he] at he'
      cases he'
      exact ⟨graph, hgraph, (GraphRun.traced_of htraceable (hgraphs graph hgraph) hconfig).2 e hfails⟩
    · rw [he] at hok
      cases hok
  · obtain ⟨e', he', _⟩ | hok := generate_cases graphs config orders
    · rw [houtput] at he'
      cases he'
    · rw [houtput] at hok
      cases hok
      obtain ⟨_, hseen, hmem⟩ := List.mem_flatMap.1 hartifact
      obtain ⟨⟨graph, position⟩, hentry, rfl⟩ := List.mem_map.1 hseen
      have hgraph := List.fst_mem_of_mem_zipIdx hentry
      obtain ⟨diagnostics, hresult⟩ := GraphRun.result_of_mem_artifacts hmem
      obtain ⟨gen, hstart, htraces⟩ :=
        (GraphRun.traced_of htraceable (hgraphs graph hgraph) hconfig).1 _ hresult
      exact ⟨graph, hgraph, gen, hstart, htraces⟩

/-- Says something that looks like a marker, and returns a value where none is due. -/
def quotesMarkers : Graph Node where
  name := "C"
  classDecl := startsAtOne
  nodes :=
    [(⟨1⟩, .invoke (ownCall "Say" [.literal (.string "/*#<n7*/ /*#>x")])
        (some ⟨2⟩)),
      (⟨2⟩, .returnValue (.literal (.char '#')))]

/-- The failure is reported, and the markers extract from what is left. -/
theorem quotesMarkers_extract : Hashless quotesMarkers.strings ∧ ∃ gen s artifact,
    Generation.start quotesMarkers { traceable := true, scheduling := .batched 1 } = .ok gen ∧
    bodies gen.env gen.state = (.ok (), s) ∧ s.diagnostics.length = 1 ∧
    (∀ order, Generation.finish ⟨gen.env, s⟩ order = .ok artifact) ∧ gen.env.Traces artifact := by
  have hstrings : Hashless quotesMarkers.strings := by decide +kernel
  obtain ⟨gen, s, hstart, hrun, hseen⟩ : Generation.EndsWith quotesMarkers
      { traceable := true, scheduling := .batched 1 } fun _ s => s.diagnostics.length = 1 := by
    decide +kernel
  obtain ⟨hextracts, _, _⟩ := markers_extract [quotesMarkers]
    { traceable := true, scheduling := .batched 1 } .lastFirst rfl (by decide +kernel)
    (List.forall_mem_singleton.2 hstrings)
  have hreaches := Generation.Reaches.bodies gen
  rw [Generation.run, hrun] at hreaches
  obtain ⟨artifact, hfinish, htraces⟩ :=
    hextracts quotesMarkers List.mem_cons_self gen hstart _ hreaches
  exact ⟨hstrings, gen, s, artifact, hstart, hrun, hseen, hfinish, htraces⟩

/-! ## What tracing shows -/

/-- The sources of a pass over one graph. -/
def sourcesOf (graph : Graph Node) (config : Config) : Option (List String) :=
  (generate [graph] config .lastFirst).1.toOption.map fun output => output.artifacts.map Artifact.source

/-- A branch by a field, with a call where the field is true and a second branch where it is not. -/
def nestedBranches : Graph Node where
  name := "C"
  classDecl := startsAtOne
  nodes :=
    [(⟨1⟩, .branch (ownField "a") (some ⟨2⟩) (some ⟨3⟩) none), (⟨2⟩, .invoke (ownCall "A") none),
      (⟨3⟩, .branch (ownField "b") none none none)]
where
  ownField (name : String) : Term := .chain .self [Step.ofField name (.scalar .bool)]

/-- Markers are taken out again, but they leave a trace: an `if` is put on the line of the `else`
before it only where no marker stands between the two. -/
theorem nestedBranches_sources_differ :
    Hashless nestedBranches.strings ∧
    sourcesOf nestedBranches { header := false, traceable := true } =
      some ["public class C \x7b\n    private void Start() \x7b\n        if (a) \x7b\n" ++
        "            A();\n        \x7d else \x7b\n            if (b) \x7b\x7d\n        \x7d\n" ++
        "    \x7d\n\x7d\n"] ∧
    sourcesOf nestedBranches { header := false, traceable := false } =
      some ["public class C \x7b\n    private void Start() \x7b\n        if (a) \x7b\n" ++
        "            A();\n        \x7d else if (b) \x7b\x7d\n    \x7d\n\x7d\n"] := by
  refine ⟨by decide +kernel, by decide +kernel, by decide +kernel⟩

end FlowClass
