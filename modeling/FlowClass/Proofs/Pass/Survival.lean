import FlowClass.Proofs.Emission.Recovery
import FlowClass.Proofs.Emission.Reports
import FlowClass.Proofs.Pass.Extraction
import FlowClass.Proofs.Program.EntryBodies

/-!
# Failures in a batched pass

Once a graph is prepared, a batched pass gives an artifact for it, however many of its nodes fail.
Every entry point has a body to fill, which the text of its chain becomes, and no chain fails
(`exists_chainAt`); then the class is assembled, and if the pass traces, its markers extract.
-/

namespace FlowClass

open Generation GraphRun

namespace Emit

/-- The entry points one after the other: the chain from each is written at its place, and becomes the
text of its body. -/
inductive Filled (env : Env Node) : List EntryPoint → State → State → Prop where
  | done (s : State) : Filled env [] s s
  | entry {e : EntryPoint} {entries : List EntryPoint} {s s₁ s' : State} {body : BodyId} {decl : Decl}
    {place : Place} {parts : List String} (hbody : entryBody? s e = some body)
    (hdecl : env.graph.classDecl.get e.owner = .ok decl)
    (hplace : entryPlace? env.graph.classDecl e body decl = some place)
    (hchain : Chained env (env.depth - 1) false (some e.node) { s with place } parts s₁)
    (hrest : Filled env entries
      { s₁ with place := s.place, symbols := s₁.symbols.setBodyText body (Code.lines parts) } s') :
    Filled env (e :: entries) s s'

variable {env : Env Node}

theorem entryBody_of_retained {s s' : State} (h : s.Retained s') (e : EntryPoint) :
    entryBody? s' e = entryBody? s e := by
  unfold entryBody? SymbolTable.declBody?
  rw [h.accessors, h.declBodies]

section Entries

variable (hbatched : env.config.isBatched = true) (hdescribes : env.table.Describes env.graph)
  (hids : env.graph.classDecl.declIds.Nodup)
include hbatched hdescribes hids

/-- An entry point that has a body fills it. -/
theorem exists_entry {e : EntryPoint} (he : e ∈ env.graph.classDecl.entryPoints) {s : State}
    (hbody : (entryBody? s e).isSome = true) (hs : s.classifier.frozen = some env.sealed) :
    ∃ s', entry e env s = (.ok (), s') ∧
      ∀ entries after, Filled env entries s' after → Filled env (e :: entries) s after := by
  have hdepth : env.depth = env.depth - 1 + 1 := by
    have : 0 < env.depth := by simp [Env.depth]
    omega
  obtain ⟨body, hbody⟩ := Option.isSome_iff_exists.1 hbody
  obtain ⟨decl, place, hdecl, hplace⟩ := exists_entryPlace hids he body
  have hknown : Known env e.node := hdescribes.mem_of_entryPoint he
  obtain ⟨parts, s₁, hchain, hchained⟩ := exists_chainAt hbatched hdescribes (env.depth - 1) false
    (fun id hid => Option.some.inj hid ▸ hknown) (s := { s with place }) hs
  refine ⟨_, ?_, fun entries after hrest => .entry hbody hdecl hplace hchained hrest⟩
  rw [entry_apply, entryWith_of_place hbody hdecl hplace, hdepth, bind_apply, withPlace_apply, hchain]
  rfl

/-- By the entry points that are left. -/
theorem exists_entries {entries : List EntryPoint}
    (hentries : ∀ e ∈ entries, e ∈ env.graph.classDecl.entryPoints) {s : State}
    (hbodies : ∀ e ∈ entries, (entryBody? s e).isSome = true)
    (hs : s.classifier.frozen = some env.sealed) :
    ∃ s', entries.forM entry env s = (.ok (), s') ∧ Filled env entries s s' := by
  induction entries generalizing s with
  | nil => exact ⟨s, rfl, .done s⟩
  | cons e entries ih =>
    rw [List.forall_mem_cons] at hentries hbodies
    obtain ⟨s₁, hrun, hfilled⟩ := exists_entry hbatched hdescribes hids hentries.1 hbodies.1 hs
    -- the bodies of the other entry points and the classification are still there
    have hretained := retains_entry e env s
    have hsame := (recorded_entry (fun _ hstate => exists_of_state hdescribes hstate) e s hs).1
    rw [hrun] at hretained hsame
    have hothers : ∀ other ∈ entries, (entryBody? s₁ other).isSome = true := by
      intro other hother
      rw [entryBody_of_retained hretained]
      exact hbodies.2 other hother
    obtain ⟨s', hrest, hall⟩ := ih hentries.2 hothers (hsame ▸ hs)
    exact ⟨s', (bind_eq_of_ok hrun).trans hrest, hfilled entries s' hall⟩

end Entries

end Emit

open Emit

section Graphs

variable {graph : Graph Node} {config : Config} {gen : Generation Node} {s : State}

/-- All bodies are emitted. What is reported meanwhile is about nodes, and nothing is cut off. -/
theorem exists_bodies (hbatched : config.isBatched = true)
    (hstart : start graph config = .ok gen)
    (hprepare : prepare gen.env gen.state = (.ok (), s))
    (hsignatures : graph.classDecl.signatures.Nodup) :
    ∃ s', bodies gen.env gen.state = (.ok (), s') ∧
      Filled gen.env graph.classDecl.entryPoints s s' ∧
      (∀ d ∈ s'.diagnostics, d.node.isSome = true) ∧ .cutOff ∉ s'.journal := by
  have hids := ClassDecl.nodup_declIds (validated hstart)
  have hprepared := prepared hstart hprepare
  obtain ⟨rfl, rfl, hdescribes, hstate⟩ := start_eq hstart
  rw [hstate] at hprepare
  obtain ⟨s', hentries, hfilled⟩ := exists_entries hbatched hdescribes hids (fun _ he => he)
    (fun e he => isSome_entryBody_of_prepare hids hsignatures hprepare he) hprepared.frozen
  refine ⟨s', ?_, hfilled, ?_, ?_⟩
  · rw [hstate]
    exact (bind_eq_of_ok hprepare).trans hentries
  · have hretained := retains_entries gen.env.graph.classDecl.entryPoints gen.env s
    rw [hentries] at hretained
    obtain ⟨added, hnodes, hlasting⟩ := hretained
    simp only [State.lasting, Prod.mk.injEq, hprepared.diagnostics, List.nil_append] at hlasting
    rw [hlasting.1]
    exact hnodes
  · have henough := enough_depth hdescribes
    have honward := (agree_entries hdescribes henough henough _ (fun _ he => he) _
      hprepared.frozen (room_le _ _)).2
    rw [hentries] at honward
    have hjournal : s.journal = [] := congrArg Ledger.journal hprepared.ledger
    refine honward.uncut ?_
    rw [hjournal]
    exact List.not_mem_nil

/-- The class is assembled. -/
theorem exists_artifact {s' : State} (hstart : start graph config = .ok gen)
    (hstrings : config.traceable = true → Hashless graph.strings ∧ Hashless config.strings)
    (hrun : bodies gen.env gen.state = (.ok (), s')) :
    ∃ artifact, ∀ order, finish ⟨gen.env, s'⟩ order = .ok artifact := by
  cases htraceable : config.traceable with
  | true =>
    obtain ⟨hgraph, hconfig⟩ := hstrings htraceable
    have hreaches := Generation.Reaches.bodies gen
    rw [run, hrun] at hreaches
    obtain ⟨artifact, hfinish, _⟩ :=
      finish_of_reaches hstart htraceable hgraph hconfig hreaches
    exact ⟨artifact, hfinish⟩
  | false =>
    obtain ⟨_, rfl, _, _⟩ := start_eq hstart
    have hplain : ¬ gen.env.config.traceable = true := Bool.not_eq_true _ ▸ htraceable
    exact ⟨_, fun _ => if_neg hplain⟩

/-- Failures never cost a batched graph its artifact. Nothing that a chain comes to, at any depth,
makes it fail: a comment stands for a node that fails, and the chain goes on or is at an end as it
would be without the failure. So every entry point is emitted, everything that is reported is about a
node, and the pass gives exactly one artifact for the graph, between those of the other graphs. -/
theorem failures_keep_artifact (hbatched : config.isBatched = true)
    (hstart : Generation.start graph config = .ok gen)
    (hprepare : prepare gen.env gen.state = (.ok (), s))
    (hsignatures : graph.classDecl.signatures.Nodup)
    (hstrings : config.traceable = true → Hashless graph.strings ∧ Hashless config.strings) :
    (∀ depth inline target (s₁ : State), (∀ id, target = some id → Known gen.env id) →
      s₁.classifier.frozen = s.classifier.frozen →
      ∃ parts s₂, chainAt (depth + 1) inline target gen.env s₁ = (.ok (Code.lines parts), s₂) ∧
        Chained gen.env depth inline target s₁ parts s₂) ∧
    ∃ s' artifact, bodies gen.env gen.state = (.ok (), s') ∧
      Filled gen.env graph.classDecl.entryPoints s s' ∧ .cutOff ∉ s'.journal ∧
      (∀ d ∈ s'.diagnostics, d.node.isSome = true) ∧
      (∀ order, Generation.finish ⟨gen.env, s'⟩ order = .ok artifact) ∧
      ∀ before behind orders, ∃ a b, (generate before config orders).1 = .ok a ∧
        (generate behind config (orders.drop (before.length + 1))).1 = .ok b ∧
        (generate (before ++ graph :: behind) config orders).1 =
          .ok (a ++ ⟨[artifact], s'.diagnostics⟩ ++ b) := by
  refine ⟨?_, ?_⟩
  · intro depth inline target s₁ htarget hs
    rw [(Generation.prepared hstart hprepare).frozen] at hs
    have hdescribes := Generation.describes hstart
    obtain ⟨_, rfl, _, _⟩ := Generation.start_eq hstart
    exact exists_chainAt hbatched hdescribes depth inline htarget hs
  · obtain ⟨s', hrun, hfilled, hnodes, huncut⟩ :=
      exists_bodies hbatched hstart hprepare hsignatures
    obtain ⟨artifact, hfinish⟩ := exists_artifact hstart hstrings hrun
    refine ⟨s', artifact, hrun, hfilled, huncut, hnodes, hfinish, ?_⟩
    intro before behind orders
    have hresult (order : List MarkerId) :
        (of config order graph).result = .ok (artifact, s'.diagnostics) := by
      rw [result_of_start_ok hstart, hrun, outcome, hfinish]
      rfl
    have hgraph (orders : MapOrders) :
        Seen.outputs (seenIn config orders [graph]) = ⟨[artifact], s'.diagnostics⟩ := by
      simp [Seen.outputs, seenIn, Seen.of, output, hresult]
    refine ⟨_, _, generate_of_batched hbatched, generate_of_batched hbatched, ?_⟩
    rw [generate_of_batched hbatched, List.append_cons, outputs_append, outputs_append, hgraph,
      List.length_append, List.length_singleton]

end Graphs

/-- Returns a value where none is due inside a branch, and then uses an output of no node before the
last call. -/
def failsTwice : Graph Node where
  name := "C"
  classDecl := startsAtOne
  nodes :=
    [(⟨1⟩, .branch (.literal (.bool true)) (some ⟨2⟩) none (some ⟨3⟩)),
      (⟨2⟩, .returnValue (.literal (.bool true))),
      (⟨3⟩, .invoke (ownCall "Use" [.output ⟨9⟩ 0]) (some ⟨4⟩)),
      (⟨4⟩, .invoke (ownCall "Go") none)]

/-- Both failures are reported, the nested one first, and the graph has its artifact. -/
theorem failsTwice_keeps_artifact : failsTwice.classDecl.signatures.Nodup ∧
    Hashless failsTwice.strings ∧ ∃ gen s s' artifact,
      Generation.start failsTwice { traceable := true, scheduling := .batched 1 } = .ok gen ∧
      prepare gen.env gen.state = (.ok (), s) ∧
      Filled gen.env failsTwice.classDecl.entryPoints s s' ∧
      s'.diagnostics.map Diagnostic.node = [some ⟨2⟩, some ⟨3⟩] ∧
      (generate [failsTwice] { traceable := true, scheduling := .batched 1 } .lastFirst).1 =
        .ok ⟨[artifact], s'.diagnostics⟩ := by
  have hsignatures : failsTwice.classDecl.signatures.Nodup := by decide
  have hstrings : Hashless failsTwice.strings := by decide +kernel
  obtain ⟨gen, s', hstart, hrun, hseen⟩ : Generation.EndsWith failsTwice
      { traceable := true, scheduling := .batched 1 } fun _ s =>
        s.diagnostics.map Diagnostic.node = [some ⟨2⟩, some ⟨3⟩] := by decide +kernel
  obtain ⟨_, s, hprepare, _⟩ := bind_eq_ok_iff.1 hrun
  obtain ⟨_, after, artifact, hafter, hfilled, _, _, _, hpass⟩ := failures_keep_artifact rfl hstart
    hprepare hsignatures fun _ => ⟨hstrings, by decide +kernel⟩
  rw [hrun] at hafter
  cases hafter
  obtain ⟨a, b, ha, hb, hall⟩ := hpass [] [] .lastFirst
  cases ha
  cases hb
  refine ⟨hsignatures, hstrings, gen, s, s', artifact, hstart, hprepare, hfilled,
    hseen, hall.trans ?_⟩
  show Except.ok (⟨[artifact] ++ [], s'.diagnostics ++ []⟩ : Output) = _
  simp only [List.append_nil]

/-! ## Recorded failures -/

/-- The failures that are recorded while the bodies of a graph are emitted, in order. -/
def Graph.recorded (config : Config) (graph : Graph Node) : List Diagnostic :=
  match start graph config with
  | .error _ => []
  | .ok gen => (bodies gen.env gen.state).2.diagnostics

/-- What a pass says about a graph: what was recorded, or, if the graph is skipped, only why. -/
def Graph.delivered (config : Config) (order : List MarkerId) (graph : Graph Node) :
    List Diagnostic :=
  match (of config order graph).result with
  | .ok _ => graph.recorded config
  | .error e =>
    [{ graph := graph.name, node := e.node?, owner := graph.classDecl.name
       message := e.root.message }]

/-- Nothing makes a graph be skipped once it is prepared: its methods have different signatures, and
no text looks like a marker. -/
def Graph.Deliverable (config : Config) (graph : Graph Node) : Prop :=
  graph.classDecl.signatures.Nodup ∧
    (config.traceable = true → Hashless graph.strings ∧ Hashless config.strings)

section Recorded

variable {graph : Graph Node} {config : Config} {order : List MarkerId}

theorem Graph.recorded_of_run {gen : Generation Node} {run : Except GenError Unit × State}
    (hstart : start graph config = .ok gen) (hrun : bodies gen.env gen.state = run) :
    graph.recorded config = run.2.diagnostics := by
  rw [recorded, hstart]
  exact congrArg (·.2.diagnostics) hrun

theorem Graph.recorded_of_ok {a : Artifact × List Diagnostic}
    (h : (of config order graph).result = .ok a) : graph.recorded config = a.2 := by
  rcases hstart : start graph config with e | gen
  · rw [result_of_start_error hstart] at h
    cases h
  · rw [result_of_start_ok hstart] at h
    rcases hrun : bodies gen.env gen.state with ⟨e | _, s⟩ <;> rw [hrun, outcome] at h
    · cases h
    · rcases hfinish : finish ⟨gen.env, s⟩ order with e | artifact <;> rw [hfinish] at h
      · cases h
      · cases h
        exact recorded_of_run hstart hrun

theorem Graph.delivered_eq : ((of config order graph).output graph).diagnostics =
    graph.delivered config order := by
  rw [output, delivered]
  rcases hresult : (of config order graph).result with e | a
  · rfl
  · rw [recorded_of_ok hresult]

variable (hbatched : config.isBatched = true)
include hbatched

/-- A deliverable graph is skipped before anything is recorded. -/
theorem Graph.recorded_of_skipped
    (h : graph.Deliverable config) {e : GenError}
    (hresult : (of config order graph).result = .error e) : graph.recorded config = [] := by
  rcases hstart : start graph config with e | gen
  · rw [recorded, hstart]
  · rcases hprepare : prepare gen.env gen.state with ⟨e | _, s⟩
    · rw [recorded_of_run hstart (bind_eq_of_error hprepare)]
      exact (silent_of_error hstart hprepare).2.1
    · obtain ⟨s', hrun, _⟩ := exists_bodies hbatched hstart hprepare h.1
      obtain ⟨artifact, hfinish⟩ := exists_artifact hstart h.2 hrun
      rw [result_of_start_ok hstart, hrun, outcome, hfinish] at hresult
      cases hresult

theorem Graph.recorded_sublist (h : graph.Deliverable config) :
    (graph.recorded config).Sublist (graph.delivered config order) := by
  rcases hresult : (of config order graph).result with e | a
  · rw [recorded_of_skipped hbatched h hresult]
    exact List.nil_sublist _
  · rw [delivered, hresult]

theorem recorded_sublist_flatMap {graphs : List (Graph Node)}
    (h : ∀ graph ∈ graphs, graph.Deliverable config) (orders : MapOrders) (position : Nat) :
    (graphs.flatMap (Graph.recorded config)).Sublist
      ((graphs.zipIdx position).flatMap fun (graph, k) => graph.delivered config (orders k)) := by
  induction graphs generalizing position with
  | nil => exact .slnil
  | cons graph graphs ih =>
    obtain ⟨hgraph, hgraphs⟩ := List.forall_mem_cons.1 h
    exact (Graph.recorded_sublist hbatched hgraph).append (ih hgraphs (position + 1))

/-- A batched pass delivers what each graph recorded, in order, unless the graph is skipped: then it
only says why. Only a graph that could not be delivered is skipped after something was recorded, so
nothing is lost if there is none. -/
theorem recorded_failures_delivered (graphs : List (Graph Node)) (orders : MapOrders) :
    ∃ output, (generate graphs config orders).1 = .ok output ∧
      output.diagnostics =
        (graphs.zipIdx.flatMap fun (graph, k) => graph.delivered config (orders k)) ∧
      (∀ graph ∈ graphs, ∀ order,
        ¬ (graph.recorded config).Sublist (graph.delivered config order) →
          ¬ graph.Deliverable config) ∧
      ((∀ graph ∈ graphs, graph.Deliverable config) →
        (graphs.flatMap (Graph.recorded config)).Sublist output.diagnostics) := by
  have houtput : (Seen.outputs (seenIn config orders graphs)).diagnostics =
      graphs.zipIdx.flatMap fun (graph, k) => graph.delivered config (orders k) := by
    simp only [Seen.outputs, seenIn, List.flatMap_map, Seen.of, Graph.delivered_eq]
  refine ⟨_, generate_of_batched hbatched, houtput, ?_, fun h => ?_⟩
  · exact fun graph _ order hlost h => hlost (Graph.recorded_sublist hbatched h)
  · rw [houtput]
    exact recorded_sublist_flatMap hbatched h orders 0

end Recorded

/-- Two functions of one signature; the first uses an output of no node. -/
def failsBesideNamesake : Graph Node where
  name := "C"
  classDecl :=
    { name := "C"
      functions := [{ id := ⟨1⟩, name := "F", entry := some ⟨1⟩ },
        { id := ⟨2⟩, name := "F", entry := some ⟨2⟩ }] }
  nodes :=
    [(⟨1⟩, .invoke (ownCall "Use" [.output ⟨9⟩ 0]) none),
      (⟨2⟩, .returnValue .unassigned)]

/-- The second function is not emitted, and what was recorded in the first is lost. -/
theorem failsBesideNamesake_lost :
    (failsBesideNamesake.recorded { scheduling := .batched 4 }).map Diagnostic.node = [some ⟨1⟩] ∧
      (generate [failsBesideNamesake] { scheduling := .batched 4 } .lastFirst).1.toOption.map
        (fun output => output.diagnostics.map Diagnostic.node) = some [none] := by
  decide +kernel

/-- Both failures of the graph are among the diagnostics of the pass. -/
theorem failsTwice_delivered : failsTwice.Deliverable { scheduling := .batched 1 } ∧
    (failsTwice.recorded { scheduling := .batched 1 }).map Diagnostic.node = [some ⟨2⟩, some ⟨3⟩] ∧
    ∃ output, (generate [failsTwice] { scheduling := .batched 1 } .lastFirst).1 = .ok output ∧
      (failsTwice.recorded { scheduling := .batched 1 }).Sublist output.diagnostics := by
  have h : failsTwice.Deliverable { scheduling := .batched 1 } := ⟨by decide, fun h => by cases h⟩
  obtain ⟨output, hpass, _, _, hall⟩ := recorded_failures_delivered
    (show Config.isBatched { scheduling := .batched 1 } = true from rfl) [failsTwice] .lastFirst
  refine ⟨h, by decide +kernel, output, hpass, ?_⟩
  have hdelivered := hall (List.forall_mem_singleton.2 h)
  rwa [List.flatMap_singleton] at hdelivered

end FlowClass
