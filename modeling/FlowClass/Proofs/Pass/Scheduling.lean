import FlowClass.Proofs.Emission.Mirror
import FlowClass.Proofs.Emission.Steady
import FlowClass.Proofs.Pass.Independence

/-!
# Batched and synchronous passes

A graph runs alike in a synchronous and in a batched pass, until a node fails: then the synchronous
pass is over, and the batched one has something to report (`GraphRun.ParallelTo`). Among batched passes
the queue depth makes no difference, as it only says how the steps of a job are put together into
drains.

A job may be drained bit by bit, with anything else in between (`Job.turns`). It ends as a whole pass
does (`Job.leads_turns`).

The two passes tell of the same failure, but not always of the same node
(`first_diagnostic_of_failure`).
-/

namespace FlowClass

open Emit Generation GraphRun

variable {graph : Graph Node} {e : GenError}

/-! ## One graph -/

theorem Generation.start_under (graph : Graph Node) (config : Config) (other : Scheduling) :
    start graph (config.under other) =
      (start graph config).map fun g => ⟨g.env.under other, g.state⟩ := by
  unfold start
  rcases graph.classDecl.validate with e | _
  · rfl
  · have hstrict : (config.under other).strict = config.strict := rfl
    rw [hstrict]
    rcases Connectivity.build graph config.strict with e | table <;> rfl

namespace GraphRun

/-- What a batched pass reports of a graph that fails. -/
theorem diagnostics_of_error {ν : Type} {r : GraphRun} (h : r.result = .error e) (graph : Graph ν) :
    (r.output graph).diagnostics ≠ [] := by
  unfold output
  rw [h]
  exact List.cons_ne_nil _ _

/-- The runs of a graph in a pass and in a batched one: the same, without diagnostics if the first pass
is synchronous; or the first fails inside a declaration, and the second, if it ends well, has reported
that before all else. -/
def ParallelTo (batched : Bool) (graph : Graph Node) (r r' : GraphRun) : Prop :=
  (r = r' ∧ (batched = true ∨ ∀ a, r.result = .ok a → a.2 = [])) ∨
    batched = false ∧ ∃ id owner source, r.result = .error (.atNode id owner source) ∧
      source.root = source ∧ ∀ a, r'.result = .ok a → [blame graph id owner source] <+: a.2

theorem ParallelTo.failed {batched : Bool} (graph : Graph Node) (e : GenError) :
    (failed e).ParallelTo batched graph (failed e) :=
  .inl ⟨rfl, .inr fun _ ha => by cases ha⟩

theorem ParallelTo.later {batched : Bool} {r r' : GraphRun} (h : r.ParallelTo batched graph r') :
    r.later.ParallelTo batched graph r'.later := by
  obtain ⟨rfl, hclean⟩ | hfails := h
  · exact .inl ⟨rfl, hclean⟩
  · exact .inr hfails

variable {env : Env Node} {other : Scheduling} {order : List MarkerId}

/-- What was reported before the work on a graph is over will be reported. -/
theorem diagnostics_ofRest {ds : List Diagnostic} {s : State} (hs : ds <+: s.diagnostics)
    (entries : List EntryPoint) {a : Artifact × List Diagnostic}
    (ha : (ofRest order ⟨env, s⟩ entries).result = .ok a) : ds <+: a.2 := by
  induction entries generalizing s with
  | nil =>
    rcases hfinish : finish ⟨env, s⟩ order with e | artifact <;> rw [ofRest, hfinish] at ha <;>
      cases ha
    exact hs
  | cons entry entries ih =>
    have hretains := retains_entry entry env s
    rcases hrun : Emit.entry entry env s with ⟨e | _, s'⟩ <;> rw [ofRest, run, hrun] at ha
    · cases ha
    · rw [hrun] at hretains
      exact ih (hs.trans hretains.diagnostics) ha

variable (hother : (env.under other).config.isBatched = true)
include hother

/-- By the entry points that are left. -/
theorem parallel_ofRest {s : State} (hs : Unparted env other s)
    (entries : List EntryPoint) :
    (ofRest order ⟨env, s⟩ entries).ParallelTo env.config.isBatched env.graph
      (ofRest order ⟨env.under other, s⟩ entries) := by
  induction entries generalizing s with
  | nil =>
    have hsame : finish ⟨env.under other, s⟩ order = finish ⟨env, s⟩ order := rfl
    rcases hfinish : finish ⟨env, s⟩ order with e | artifact
    · rw [ofRest, ofRest, hsame, hfinish]
      exact .failed _ e
    · rw [ofRest, ofRest, hsame, hfinish]
      refine .inl ⟨rfl, hs.imp (fun h => h.trans hother) fun hclean a ha => ?_⟩
      cases ha
      exact hclean.2
  | cons entry entries ih =>
    rw [ofRest, ofRest]
    unfold run
    obtain ⟨hsame, hs'⟩ | ⟨owner, e, he, hsync, id, source, rfl, hroot, hreported⟩ :=
      entry_alike entry hs
    · rw [← hsame]
      rcases hrun : Emit.entry entry env s with ⟨e | _, s'⟩ <;> rw [hrun] at hs'
      · exact .failed _ e
      · exact (ih hs').later
    · refine .inr ⟨hsync, id, owner, source, ?_, hroot, fun a ha => ?_⟩
      · rcases hrun : Emit.entry entry env s with ⟨e | _, s'⟩ <;> rw [hrun] at he <;> cases he
        rfl
      · rw [if_pos hother] at hreported
        rcases hrun : Emit.entry entry (env.under other) s with ⟨e | _, s'⟩ <;>
          rw [hrun] at ha hreported
        · cases ha
        · exact diagnostics_ofRest hreported entries ha

omit hother in
/-- A graph in a pass and in a batched one. -/
theorem parallel_of {config : Config} (hother : (config.under other).isBatched = true)
    (graph : Graph Node) :
    (of config order graph).ParallelTo config.isBatched graph
      (of (config.under other) order graph) := by
  rw [of, of, start_under graph config other]
  rcases hstart : start graph config with e | g
  · exact .failed graph e
  · obtain ⟨env, s⟩ := g
    have hsteady : Steady env (env.under other) prepare := .prepare rfl rfl rfl fun _ _ => rfl
    have hsame := hsteady s
    dsimp only [Except.map, run]
    rw [← hsame]
    rcases hrun : prepare env s with ⟨e | _, s'⟩
    · exact .failed graph e
    · have hprepared := prepared hstart hrun
      obtain ⟨rfl, rfl, _, _⟩ := start_eq hstart
      refine (parallel_ofRest hother ?_ _).later
      rcases h : env.config.isBatched with _ | _
      · exact .inr ⟨h, hprepared.diagnostics⟩
      · exact .inl (h.trans hother.symm)

end GraphRun

/-! ## Jobs by turns -/

/-- What a host does with a job. A yield lets it do something else, and leaves the job alone. -/
inductive Turn where
  | drain
  | yield
deriving DecidableEq

namespace Job

variable {ν : Type} [NodeKind ν]

def turn (j : Job ν) : Turn → Job ν
  | .drain => j.drain.2
  | .yield => j

/-- The job after some turns. -/
def turns (j : Job ν) (ts : List Turn) : Job ν :=
  ts.foldl turn j

/-- Turns are steps, at least one for each drain of a queue that is not empty. -/
theorem leads_turns {j : Job ν} (h : j.config.isBatched = true) (ts : List Turn) :
    j.Leads (j.turns ts) ∧ (j.turns ts).pending ≤ j.pending - ts.count .drain := by
  induction ts generalizing j with
  | nil => exact ⟨.refl j, Nat.le_refl _⟩
  | cons t ts ih =>
    cases t with
    | yield => exact ih h
    | drain =>
      have hturns : j.turns (.drain :: ts) = j.drain.2.turns ts := rfl
      obtain ⟨j₁, hsteps⟩ := exists_steps_of_batched h (min j.config.queueDepth j.pending)
      have hdrain := drainItems_endsAs (min j.config.queueDepth j.pending) 0 j
      rw [hsteps] at hdrain
      obtain ⟨ran, hdrain⟩ := hdrain
      have hkeeps := steps_keeps hsteps
      obtain ⟨hleads, hcount⟩ := ih (hkeeps.2 ▸ h)
      rw [hturns, show j.drain.2 = j₁ from congrArg Prod.snd hdrain, List.count_cons_self]
      refine ⟨Leads.trans ⟨_, hsteps⟩ hleads, ?_⟩
      have hpending : j₁.pending ≤ j.pending - 1 := by
        by_cases hqueue : j.queue = []
        · have hnone : j.pending = 0 := by rw [pending, hqueue, List.length_nil]
          have hshorter : j₁.pending ≤ j.pending - _ := hkeeps.1
          omega
        · have hpos := drain_pos hqueue
          have hshorter : j₁.pending ≤ j.pending - _ := hkeeps.1
          omega
      omega

end Job

/-! ## Passes -/

section Passes

variable {config : Config} {other : Scheduling} {order : List MarkerId} {orders : MapOrders}

/-- Batched passes see the same, whatever their queue depths. -/
theorem seenIn_of_batched (graphs : List (Graph Node)) (hbatched : config.isBatched = true)
    (hother : (config.under other).isBatched = true) :
    seenIn (config.under other) orders graphs = seenIn config orders graphs := by
  refine List.map_congr_left fun entry _ => ?_
  obtain ⟨hsame, _⟩ | ⟨hsync, _⟩ := @parallel_of other (orders entry.2) config hother entry.1
  · rw [Seen.of, Seen.of, hsame]
  · exact absurd (hbatched.symm.trans hsync) Bool.noConfusion

section Synchronous

variable (hsync : config.isBatched = false)
  (hother : (config.under other).isBatched = true)
include hsync hother

/-- A graph that succeeds in a synchronous pass runs the same in a batched one, and reports
nothing. -/
theorem GraphRun.clean_of_ok {a : Artifact × List Diagnostic}
    (h : (of config order graph).result = .ok a) :
    of config order graph = of (config.under other) order graph ∧ a.2 = [] := by
  obtain ⟨hsame, hbatched | hclean⟩ | ⟨_, _, _, _, he, _⟩ := parallel_of hother graph
  · exact absurd (hbatched.symm.trans hsync) Bool.noConfusion
  · exact ⟨hsame, hclean a h⟩
  · rw [h] at he
    cases he

omit hsync in
/-- A graph that fails in a synchronous pass is reported by a batched one. -/
theorem GraphRun.reported_of_error (h : (of config order graph).result = .error e) :
    ((of (config.under other) order graph).output graph).diagnostics ≠ [] := by
  rcases hresult : (of (config.under other) order graph).result with e' | a
  · exact diagnostics_of_error hresult graph
  obtain ⟨hsame, _⟩ | ⟨_, _, _, _, _, _, hreported⟩ := parallel_of hother graph
  · rw [hsame, hresult] at h
    cases h
  · unfold output
    rw [hresult]
    exact (hreported a hresult).ne_nil (List.cons_ne_nil _ _)

/-- Where all graphs succeed a synchronous and a batched pass give the same. -/
theorem generate_of_clean {graphs : List (Graph Node)}
    (h : ∀ graph ∈ graphs, Succeeds config graph) (orders : MapOrders) :
    generate graphs config orders = generate graphs (config.under other) orders ∧
      (Seen.outputs (seenIn (config.under other) orders graphs)).diagnostics = [] := by
  have hruns (entry : Graph Node × Nat) (hentry : entry ∈ graphs.zipIdx) :
      ∃ a, (of config (orders entry.2) entry.1).result = .ok a ∧ a.2 = [] ∧
        Seen.of config orders entry = Seen.of (config.under other) orders entry := by
    obtain ⟨a, ha⟩ := h entry.1 (List.fst_mem_of_mem_zipIdx hentry)
    obtain ⟨hsame, hclean⟩ := clean_of_ok hsync hother (ha (orders entry.2))
    exact ⟨a, ha _, hclean, by rw [Seen.of, Seen.of, hsame]⟩
  have hseen : seenIn config orders graphs = seenIn (config.under other) orders graphs :=
    List.map_congr_left fun entry hentry => (hruns entry hentry).choose_spec.2.2
  rw [generate_eq, generate_eq, hsync, hother, ← hseen]
  constructor
  · refine Seen.conclude_of_ok (List.forall_mem_map.2 fun entry hentry => ?_)
    obtain ⟨a, ha, _⟩ := hruns entry hentry
    exact ⟨a, ha⟩
  · refine List.flatMap_eq_nil_iff.2 (List.forall_mem_map.2 fun entry hentry => ?_)
    obtain ⟨a, ha, hclean, _⟩ := hruns entry hentry
    show ((of config (orders entry.2) entry.1).output entry.1).diagnostics = []
    rw [output, ha]
    exact hclean

omit hsync in
theorem diagnostics_of_generate_error {graphs : List (Graph Node)}
    (h : (generate graphs config orders).1 = .error e) (orders' : MapOrders) :
    (Seen.outputs (seenIn (config.under other) orders' graphs)).diagnostics ≠ [] := by
  obtain ⟨_, before, graph, behind, rfl, _, hfails⟩ := generate_eq_error_iff.1 h
  obtain ⟨_, hfails', _⟩ := (Alike.of config _ (orders' before.length) graph).error hfails
  intro hnone
  rw [seenIn_append] at hnone
  have hgraph := List.flatMap_eq_nil_iff.1 hnone
    (Seen.of (config.under other) (orders'.drop before.length) (graph, 0))
    (List.mem_append_right _ List.mem_cons_self)
  exact reported_of_error hother hfails' hgraph

end Synchronous

end Passes

/-- Batched and synchronous scheduling agree. A batched pass succeeds, and its output and its reports
do not depend on the queue depth, nor on how drains and yields take turns until the queue is empty.
They are those of the synchronous pass, with no diagnostic, if that one succeeds; and if it fails
there is a diagnostic. The two passes may go through open markers in different orders, on which nothing
depends but which of them a diagnostic names. -/
theorem batched_agrees_with_synchronous (graphs : List (Graph Node)) (config : Config) :
    ∃ (output : MapOrders → Output) (reports : List Report),
      (∀ orders depth,
        generate graphs (config.under (.batched depth)) orders = (.ok (output orders), reports)) ∧
      (∀ orders orders', (output orders).Alike (output orders')) ∧
      (∀ orders depth turns j,
        (Job.ofGraphs (config.under (.batched depth)) graphs orders).turns turns = j →
          (j.queue = [] → j.finish = .ok (output orders) ∧ j.reports = reports) ∧
          ((Job.ofGraphs config graphs orders).pending ≤ turns.count .drain → j.queue = [])) ∧
      (∀ orders clean, (generate graphs (config.under .synchronous) orders).1 = .ok clean →
        ∀ orders', generate graphs (config.under .synchronous) orders = (.ok (output orders'), reports) ∧
          (output orders').diagnostics = []) ∧
      ∀ orders e, (generate graphs (config.under .synchronous) orders).1 = .error e →
        ∀ orders', (output orders').diagnostics ≠ [] := by
  have hsync : (config.under .synchronous).isBatched = false := rfl
  have hbatched (depth : UInt64) : (config.under (.batched depth)).isBatched = true := rfl
  -- the pass with the smallest depth stands for all
  let batched := config.under (.batched 0)
  let output (orders : MapOrders) := Seen.outputs (seenIn batched orders graphs)
  let reports := (generate graphs batched .lastFirst).2
  have hwhole (orders : MapOrders) : generate graphs batched orders = (.ok (output orders), reports) :=
    Prod.ext (generate_of_batched rfl) (generate_alike graphs batched orders _).2
  have hbatch (orders : MapOrders) (depth : UInt64) :
      generate graphs (config.under (.batched depth)) orders = (.ok (output orders), reports) := by
    rw [← hwhole, generate_eq, generate_eq]
    exact congrArg (Seen.pass true) (seenIn_of_batched graphs (hbatched 0) (hbatched depth))
  refine ⟨output, reports, hbatch, fun orders orders' => ?_, ?_, fun orders clean hclean orders' => ?_,
    fun orders e he orders' => ?_⟩
  · obtain ⟨hsame, _⟩ := generate_alike graphs batched orders orders'
    rw [hwhole, hwhole] at hsame
    cases hsame
    assumption
  · rintro orders depth turns j rfl
    obtain ⟨hleads, hpending⟩ := Job.leads_turns (j := Job.ofGraphs (config.under (.batched depth))
      graphs orders) (hbatched depth) turns
    refine ⟨fun hempty => ?_, fun hcount => ?_⟩
    · obtain ⟨houtput, hreports⟩ :=
        Prod.mk.inj ((generate_of_leads hleads hempty).symm.trans (hbatch orders depth))
      refine ⟨?_, hreports⟩
      rw [← houtput, Job.finish, if_pos (List.isEmpty_iff.2 hempty)]
    · have hsame : (Job.ofGraphs (config.under (.batched depth)) graphs orders).pending =
          (Job.ofGraphs config graphs orders).pending := rfl
      exact List.eq_nil_of_length_eq_zero (Nat.le_zero.1 (hpending.trans (by omega)))
  · have hall := (generate_eq_ok_iff.1 hclean).1.resolve_left (by rw [hsync]; exact Bool.false_ne_true)
    obtain ⟨hsame, hnone⟩ := generate_of_clean hsync (hbatched 0) hall orders'
    have horders : generate graphs (config.under .synchronous) orders =
        generate graphs (config.under .synchronous) orders' := by
      rw [generate_eq, generate_eq, seenIn_of_succeeds hall orders orders']
    exact ⟨horders.trans (hsame.trans (hwhole orders')), hnone⟩
  · exact @diagnostics_of_generate_error _ (config.under .synchronous) _ _ (hbatched 0) _ he orders'

/-! ## The node that is blamed -/

/-- Where a synchronous pass over a graph fails and a batched one gives an artifact, the error is
attributed once, and it is the first diagnostic: with the same owner and the words of the cause. The
diagnostic has the node that the error is attributed to, unless the cause names a node itself. -/
theorem first_diagnostic_of_failure {graph : Graph Node} {config : Config} {e : GenError}
    {depth : UInt64} {output : Output} {orders orders' : MapOrders}
    (hsync : (generate [graph] (config.under .synchronous) orders).1 = .error e)
    (hbatched : (generate [graph] (config.under (.batched depth)) orders').1 = .ok output)
    (hmade : output.artifacts ≠ []) :
    ∃ id owner source d rest, e = .atNode id owner source ∧ source.root = source ∧
      output.diagnostics = d :: rest ∧ d.graph = graph.name ∧ d.owner = owner ∧
      d.message = Marker.strip e.root.message ∧ d.node = some (e.root.node?.getD id) ∧
      (e.root.node? = none → d.node = e.node?) := by
  rw [generate_single_error_iff rfl] at hsync
  have houtput : output = (of (config.under (.batched depth)) (orders' 0) graph).output graph := by
    rw [generate_of_batched rfl] at hbatched
    cases hbatched
    simp only [Seen.outputs, seenIn, List.zipIdx_singleton, List.map_singleton,
      List.flatMap_singleton]
    rfl
  subst houtput
  unfold GraphRun.output at hmade ⊢
  rcases hresult : (of (config.under (.batched depth)) (orders' 0) graph).result with
    e' | ⟨artifact, ds⟩
  · rw [hresult] at hmade
    exact absurd rfl hmade
  -- as there is an artifact, the batched pass gives it in the order of the synchronous one too
  have hresult := hresult
  rw [← (Alike.of _ (orders' 0) (orders 0) graph).eq_of_ok hresult] at hresult
  have hparallel : (of (config.under .synchronous) (orders 0) graph).ParallelTo false graph
      (of (config.under (.batched depth)) (orders 0) graph) :=
    @GraphRun.parallel_of (.batched depth) _ (config.under .synchronous) rfl graph
  obtain ⟨hsame, _⟩ | ⟨_, id, owner, source, herror, hroot, hfirst⟩ := hparallel
  · rw [hsame, hresult] at hsync
    cases hsync
  · obtain ⟨rest, hrest⟩ := hfirst _ hresult
    cases hsync.symm.trans herror
    have hcause : (GenError.atNode id owner source).root = source := hroot
    refine ⟨id, owner, source, _, rest, rfl, hroot, hrest.symm, rfl, rfl, by rw [hcause]; rfl,
      by rw [hcause]; rfl, fun hnone => ?_⟩
    rw [blame, ← hcause, hnone]
    rfl

/-- In an arm, a call with the state of a unit that is not there. -/
def asksForNoUnit : Graph Node where
  name := "C"
  classDecl := startsAtOne
  nodes :=
    [(⟨1⟩, .branch (.literal (.bool true)) (some ⟨2⟩) none none),
      (⟨2⟩, .invoke (ownCall "Use" [.output ⟨3⟩ 0]) none),
      (⟨3⟩, .unitStatus none .isRunning)]

/-- Both passes blame the call. -/
theorem asksForNoUnit_blamed_alike :
    (generate [asksForNoUnit] {} .lastFirst).1 =
      .error (.atNode ⟨2⟩ "Start" (.invalid .statusWithoutUnit)) ∧
    ∃ output, (generate [asksForNoUnit] { scheduling := .batched 4 } .lastFirst).1 = .ok output ∧
      ∃ d rest, output.diagnostics = d :: rest ∧ d.owner = "Start" ∧ d.node = some ⟨2⟩ := by
  have hfails : (generate [asksForNoUnit] {} .lastFirst).1.map (·.diagnostics) =
      .error (.atNode ⟨2⟩ "Start" (.invalid .statusWithoutUnit)) := by decide +kernel
  have hmade : (generate [asksForNoUnit] { scheduling := .batched 4 } .lastFirst).1.map
      (·.artifacts.length) = .ok 1 := by decide +kernel
  rcases hsync : (generate [asksForNoUnit] {} .lastFirst).1 with e | output <;> rw [hsync] at hfails <;>
    cases hfails
  rcases hbatched : (generate [asksForNoUnit] { scheduling := .batched 4 } .lastFirst).1 with e | output <;>
    rw [hbatched] at hmade
  · cases hmade
  obtain ⟨_, _, _, d, rest, ⟨⟩, _, hfirst, _, howner, _, _, hnode⟩ :=
    @first_diagnostic_of_failure asksForNoUnit {} _ 4 output _ _ hsync hbatched fun hnone => by
      rw [Except.map, hnone] at hmade
      cases hmade
  exact ⟨rfl, output, rfl, d, rest, hfirst, howner, hnode rfl⟩

/-- A call with a value that reads itself. -/
def readsItself : Graph Node where
  name := "C"
  classDecl := startsAtOne
  nodes :=
    [(⟨1⟩, .invoke (ownCall "Use" [.output ⟨2⟩ 0]) none),
      (⟨2⟩, .member (.output ⟨2⟩ 0))]

/-- The synchronous pass blames the call, and the batched one the value. -/
theorem readsItself_blamed_differently :
    (generate [readsItself] {} .lastFirst).1.map (·.diagnostics) =
      .error (.atNode ⟨1⟩ "Start" (.valueCycle ⟨2⟩)) ∧
    (generate [readsItself] { scheduling := .batched 4 } .lastFirst).1.map
      (fun output => output.diagnostics.map (·.node)) = .ok [some ⟨2⟩] := by
  decide +kernel

end FlowClass
