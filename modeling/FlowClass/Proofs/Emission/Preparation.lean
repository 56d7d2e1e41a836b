import FlowClass.Proofs.Analysis.Flow
import FlowClass.Proofs.Emission.Ledger

/-!
# A whole pass

Preparation enters declarations and variables and seals the classification; it emits nothing
(`prepare_cases`). So the bodies of a pass are emitted from an empty ledger, under the classification
that the table gives (`Prepared`), and record the chains of all entry points (`recorded_bodies`).
-/

namespace FlowClass

open List Emit

variable {id : NodeId}

/-- What only emission changes. -/
def State.emission (s : State) : Ledger × Classifier × Place × List (NodeId × UInt16) ×
    List Splice × List NodeId × List Diagnostic :=
  (s.ledger, s.classifier, s.place, s.reading, s.splices, s.scopes, s.diagnostics)

namespace Emit

variable {ν α β : Type}

/-- Everything before assembly: the preparation, then every entry point in order. -/
def bodies [NodeKind ν] : Emit ν Unit := do
  prepare
  (← env).graph.classDecl.entryPoints.forM entry

/-- A node of the library that exists is set up, which does not fail. -/
theorem setUpNode_of_some {env : Env Node} {n : Node} (hn : env.graph.get? id = some n) (s : State) :
    setUpNode id env s = (n.setUp id : Emit Node Unit) env s := by
  obtain ⟨s', hrun⟩ : ∃ s', (n.setUp id : Emit Node Unit) env s = (.ok (), s') := by
    cases n <;> exact ⟨_, rfl⟩
  have hservices : (do NodeKind.setUp (← services) id n : Emit Node Unit) env s =
      (n.setUp id : Emit Node Unit) env s := rfl
  unfold setUpNode
  rw [bind_eq_of_ok (nodeAt_of_some hn s), bind_apply]
  unfold attempt
  rw [hservices, hrun]
  rfl

theorem setUpNode_of_none {env : Env Node} (hn : env.graph.get? id = none) (s : State) :
    setUpNode id env s = (.error (.graph (.nodeNotFound id)), s) := by
  unfold setUpNode
  exact bind_eq_of_error (nodeAt_of_none hn s)

theorem setUpNode_cases (id : NodeId) (env : Env Node) (s : State) :
    setUpNode id env s = (.error (.graph (.nodeNotFound id)), s) ∨
      ∃ n, env.graph.get? id = some n ∧ setUpNode id env s = (n.setUp id : Emit Node Unit) env s := by
  cases hn : env.graph.get? id with
  | none => exact .inl (setUpNode_of_none hn s)
  | some n => exact .inr ⟨n, rfl, setUpNode_of_some hn s⟩

/-- A run that only enters declarations and variables, and fails with plain errors only. -/
structure Filed (s : State) (run : Except GenError α × State) : Prop where
  emission : run.2.emission = s.emission
  keys : s.symbols.keys <+: run.2.symbols.keys
  errors : ∀ e, run.1 = .error e → e.isPlain = true

/-- The emission only enters declarations and variables. -/
def Enters (x : Emit ν α) : Prop :=
  ∀ env s, Filed s (x env s)

namespace Enters

theorem of_ok {x : Emit ν α} (h : ∀ env s, ∃ a s', x env s = (.ok a, s') ∧
    s'.emission = s.emission ∧ s.symbols.keys <+: s'.symbols.keys) : Enters x := by
  intro env s
  obtain ⟨a, s', hrun, hsame, hkeys⟩ := h env s
  rw [hrun]
  exact ⟨hsame, hkeys, fun _ he => by cases he⟩

theorem pure (a : α) : Enters (Pure.pure a : Emit ν α) :=
  of_ok fun _ s => ⟨a, s, rfl, rfl, prefix_rfl⟩

theorem get : Enters (get : Emit ν State) :=
  of_ok fun _ s => ⟨s, s, rfl, rfl, prefix_rfl⟩

theorem env : Enters (env : Emit ν (Env ν)) :=
  of_ok fun env s => ⟨env, s, rfl, rfl, prefix_rfl⟩

theorem modify {f : State → State} (h : ∀ s, (f s).emission = s.emission)
    (hkeys : ∀ s, (f s).symbols.keys = s.symbols.keys) :
    Enters (modify f : Emit ν Unit) :=
  of_ok fun _ s => ⟨(), f s, rfl, h s, hkeys s ▸ prefix_rfl⟩

theorem bind {x : Emit ν α} {f : α → Emit ν β} (hx : Enters x) (hf : ∀ a, Enters (f a)) :
    Enters (x >>= f) := by
  intro env s
  have hfirst := hx env s
  rcases hrun : x env s with ⟨e | a, s'⟩ <;> rw [hrun] at hfirst
  · rw [bind_eq_of_error hrun]
    exact ⟨hfirst.emission, hfirst.keys, fun e' he' => by cases he'; exact hfirst.errors e rfl⟩
  · rw [bind_eq_of_ok hrun]
    have hrest := hf a env s'
    exact ⟨hrest.emission.trans hfirst.emission, hfirst.keys.trans hrest.keys, hrest.errors⟩

theorem forM {f : α → Emit ν Unit} (hf : ∀ a, Enters (f a)) (as : List α) : Enters (as.forM f) := by
  induction as with
  | nil => exact pure _
  | cons a as ih => exact bind (hf a) fun _ => ih

/-! ## Declarations -/

theorem reserveNames : Enters (reserveNames : Emit ν Unit) :=
  bind env fun _ => modify (fun _ => rfl) fun _ => rfl

theorem registerVariable (v : VariableSymbol) :
    Enters (registerVariable v : Emit ν VariableHandle) :=
  of_ok fun _ s => ⟨_, _, rfl, rfl, s.symbols.keys_prefix_registerVariable s.names v⟩

theorem registerParams (owner : DeclId) (index : Nat) (ps : List ParamDecl) :
    Enters (registerParams owner index ps : Emit ν (List ParamSymbol)) := by
  induction ps generalizing index with
  | nil => exact pure _
  | cons p ps ih =>
    refine bind (of_ok fun _ s => ⟨_, _, rfl, rfl, prefix_rfl⟩) fun name => ?_
    refine bind (modify (fun _ => rfl) fun _ => rfl) fun _ => ?_
    exact bind (ih (index + 1)) fun _ => pure _

theorem registerMethod (key : SymbolKey) (m : MethodSymbol) :
    Enters (registerMethod key m : Emit ν Unit) := by
  intro env s
  unfold Emit.registerMethod
  rcases hentered : s.symbols.registerMethod s.names (some key) m with
    what | ⟨handle, symbols, names⟩
  · obtain hcase | ⟨_, _, hcase⟩ | ⟨_, _, _, _, _, hcase⟩ | ⟨_, hcase⟩ :=
      s.symbols.registerMethod_cases s.names (some key) m <;> rw [hentered] at hcase <;>
      cases hcase
    exact ⟨rfl, prefix_rfl, fun _ he => by cases he; rfl⟩
  · exact ⟨rfl, SymbolTable.keys_registerMethod hentered ▸ prefix_rfl, fun _ he => by cases he⟩

theorem declareVariable (v : VariableDecl) : Enters (declareVariable v : Emit ν Unit) :=
  bind (registerVariable _) fun _ => pure _

theorem declareLocal (function : DeclId) (v : VariableDecl) :
    Enters (declareLocal function v : Emit ν Unit) :=
  bind get fun _ => bind (registerVariable _) fun _ => pure _

theorem declareFunction (f : FunctionDecl) : Enters (declareFunction f : Emit ν Unit) :=
  bind (registerParams _ _ _) fun _ => bind (registerMethod _ _) fun _ =>
    forM (declareLocal f.id) f.locals

theorem accessorBody (decl : DeclId) (kind : EntryKind) (node : Option NodeId) :
    Enters (accessorBody decl kind node : Emit ν (Option BodyId)) := by
  cases node with
  | none => exact pure _
  | some _ => exact of_ok fun _ s => ⟨_, _, rfl, rfl, prefix_rfl⟩

theorem declareProperty (p : PropertyDecl) : Enters (Emit.declareProperty p : Emit ν Unit) := by
  have hrest (handle : PropertyHandle) : Enters (do
      let getter ← Emit.accessorBody p.id .getter p.getter
      let setter ← Emit.accessorBody p.id .setter p.setter
      let complete (symbol : PropertySymbol) : PropertySymbol :=
        { symbol with attributes := p.attributes, getter, setter }
      Emit.modify fun s =>
        { s with symbols := s.symbols.modifyProperty handle complete } : Emit ν Unit) :=
    bind (accessorBody _ _ _) fun _ => bind (accessorBody _ _ _) fun _ =>
      modify (fun _ => rfl) fun _ => rfl
  -- the property itself is entered into the state at hand
  have henter : Enters (do
      let s ← Emit.get
      let entered := s.symbols.registerProperty s.names
        { decl := p.id, name := p.name, type := p.type, modifiers := p.modifiers }
      Emit.modify fun s => { s with symbols := entered.2.1, names := entered.2.2 }
      return entered.1 : Emit ν PropertyHandle) := by
    refine of_ok fun _ s => ⟨_, _, rfl, rfl, ?_⟩
    exact ⟨[], (append_nil _).trans (s.symbols.keys_registerProperty s.names _).symm⟩
  have hboth := bind henter hrest
  exact hboth

theorem declareConstructor (c : ConstructorDecl) :
    Enters (declareConstructor c : Emit ν Unit) :=
  bind (registerParams _ _ _) fun _ => modify (fun _ => rfl) fun _ => rfl

theorem declareEvent (e : EventDecl) : Enters (declareEvent e : Emit ν Unit) :=
  bind (registerParams _ _ _) fun _ => registerMethod _ _

theorem registerDeclarations : Enters (registerDeclarations : Emit ν Unit) :=
  bind reserveNames fun _ => bind env fun _ => bind (forM declareVariable _) fun _ =>
    bind (forM declareFunction _) fun _ => bind (forM declareProperty _) fun _ =>
      bind (forM declareConstructor _) fun _ => forM declareEvent _

theorem setUp (id : NodeId) (n : Node) : Enters (n.setUp id : Emit Node Unit) := by
  cases n with
  | forLoop | forEach | localVariable => exact bind (registerVariable _) fun _ => pure _
  | _ => exact pure ()

theorem setUpNode (id : NodeId) : Enters (setUpNode id : Emit Node Unit) := by
  intro env s
  obtain hrun | ⟨n, _, hrun⟩ := setUpNode_cases id env s <;> rw [hrun]
  · exact ⟨rfl, prefix_rfl, fun _ he => by cases he; rfl⟩
  · exact setUp id n env s

end Enters

/-- Preparation changes nothing that emission does, but seals the classification. -/
theorem prepare_cases (env : Env Node) (s : State) :
    (∃ e s', prepare env s = (.error e, s') ∧ s'.emission = s.emission ∧ e.isPlain = true) ∨
      ∃ s' : State, prepare env s =
        (.ok (), { s' with classifier := (s'.classifier.sealNodes env.table).2 }) ∧
        s'.emission = s.emission := by
  have henter : Enters (do
      registerDeclarations
      (← Emit.env).table.ids.forM setUpNode : Emit Node Unit) :=
    .bind .registerDeclarations fun _ => .bind .env fun _ => .forM Enters.setUpNode _
  have hentered := henter env s
  have hprepare : prepare env s = ((do
      registerDeclarations
      (← Emit.env).table.ids.forM setUpNode : Emit Node Unit) >>= fun _ => sealNodes) env s := by
    simp only [prepare, bind_assoc]
  rw [hprepare]
  rcases hrun : (do
      registerDeclarations
      (← Emit.env).table.ids.forM setUpNode : Emit Node Unit) env s with ⟨e | _, s'⟩
  · rw [bind_eq_of_error hrun]
    rw [hrun] at hentered
    exact .inl ⟨e, s', rfl, hentered.emission, hentered.errors e rfl⟩
  · rw [bind_eq_of_ok hrun]
    rw [hrun] at hentered
    exact .inr ⟨s', rfl, hentered.emission⟩

end Emit

/-! ## Prepared states -/

/-- The classification that a pass is made under. -/
def Env.sealed (env : Env Node) : Classification :=
  ⟨env.table.stateNodes, env.table.ids.filter (Classifier.recursive env.table)⟩

/-- A state in which the bodies are about to be emitted. -/
structure Prepared (env : Env Node) (s : State) : Prop where
  ledger : s.ledger = ⟨{}, [], []⟩
  frozen : s.classifier.frozen = some env.sealed
  resumable : s.place.resumable = false
  reading : s.reading = []
  diagnostics : s.diagnostics = []

namespace Generation

variable {graph : Graph Node} {config : Config} {gen : Generation Node}

variable (h : start graph config = .ok gen)
include h

theorem start_eq :
    gen.env.graph = graph ∧ gen.env.config = config ∧ gen.env.table.Describes graph ∧
      gen.state = State.initial gen.env := by
  unfold start at h
  split at h
  · cases h
  · split at h
    · cases h
    · rename_i table htable
      cases h
      exact ⟨rfl, rfl, Connectivity.describes_build htable, rfl⟩

theorem validated : graph.classDecl.validate = .ok () := by
  unfold start at h
  split at h
  · cases h
  · assumption

theorem describes : gen.env.table.Describes gen.env.graph := by
  obtain ⟨hgraph, _, htable, _⟩ := start_eq h
  rwa [hgraph]

/-- A preparation that succeeds leads to a prepared state. -/
theorem prepared {s : State}
    (hrun : prepare gen.env gen.state = (.ok (), s)) : Prepared gen.env s := by
  obtain ⟨_, _, _, hstate⟩ := start_eq h
  obtain ⟨e, s', hfail, _, _⟩ | ⟨s', hok, hsame⟩ := prepare_cases gen.env gen.state
  · rw [hrun] at hfail
    cases hfail
  · rw [hrun] at hok
    cases hok
    rw [hstate] at hsame
    simp only [State.emission, Prod.mk.injEq] at hsame
    obtain ⟨hledger, hclassifier, hplace, hreading, _, _, hdiagnostics⟩ := hsame
    refine ⟨hledger, ?_, congrArg Place.resumable hplace, hreading, hdiagnostics⟩
    rw [hclassifier]
    exact Classifier.sealNodes_of_truthful (Classifier.truthful_empty gen.env.table)

end Generation

namespace Emit

section Bodies

variable {env : Env Node} {frozen : Classification}

theorem exists_of_state (h : env.table.Describes env.graph) (hid : id ∈ env.table.stateNodes) :
    ∃ n, env.graph.get? id = some n :=
  h.exists_node (Connectivity.mem_stateNodes.1 hid).1

theorem recorded_entry
    (hexists : ∀ id ∈ frozen.stateNodes, ∃ n, env.graph.get? id = some n) (e : EntryPoint) :
    Recorded env frozen (.into {e.node}) (entry e) := by
  have hflow : Recorded env frozen (.into {e.node}) (chainAt env.depth false (some e.node)) :=
    (recordedLevel hexists env.depth).services.flow (some e.node)
  intro s hs
  rw [entry_apply]
  obtain ⟨err, _, hrun⟩ | ⟨body, decl, place, _, _, _, hrun⟩ :=
    entryWith_cases env.graph.classDecl e s
  · rw [hrun _ env rfl]
    exact ⟨rfl, false, .stop (.nothing _) (Multiset.zero_le _), fun _ _ h => nomatch h⟩
  · obtain ⟨hsame, c, hrec, hok⟩ := hflow.around (withPlace_eq place _) s hs
    rw [hrun _ env rfl]
    rcases hchain : withPlace place (chainAt env.depth false (some e.node)) env s with
      ⟨err | text, s'⟩
    · rw [bind_eq_of_error hchain]
      rw [hchain] at hsame hrec
      exact ⟨hsame, c, hrec, fun _ _ h => nomatch h⟩
    · rw [bind_eq_of_ok hchain]
      rw [hchain] at hsame hrec hok
      exact ⟨hsame, c, hrec, fun hsync _ _ => hok hsync text rfl⟩

theorem recorded_entries
    (hexists : ∀ id ∈ frozen.stateNodes, ∃ n, env.graph.get? id = some n)
    (entries : List EntryPoint) :
    Recorded env frozen (.into (entries.map EntryPoint.node : List NodeId))
      (entries.forM entry) := by
  induction entries with
  | nil => exact .quiet (Quiet.pure _)
  | cons e es ih =>
    have hboth := Recorded.bind (recorded_entry hexists e) fun _ => ih
    rwa [Multiset.singleton_add, Multiset.cons_coe] at hboth

/-- A pass records the chains of its entry points from an empty ledger, unless it ends before. -/
theorem recorded_bodies {graph : Graph Node} {config : Config} {gen : Generation Node}
    (h : Generation.start graph config = .ok gen) :
    ((bodies gen.env gen.state).2.ledger = ⟨{}, [], []⟩ ∧
      ¬ ∃ a, (bodies gen.env gen.state).1 = .ok a) ∨
    ∃ c, Records gen.env gen.env.table.stateNodes c
        (.into (graph.classDecl.entryPoints.map EntryPoint.node : List NodeId)) ⟨{}, [], []⟩
        (bodies gen.env gen.state).2.ledger ∧
      (config.isBatched = false → ∀ a, (bodies gen.env gen.state).1 = .ok a → c = true) := by
  obtain ⟨hgraph, hconfig, _, hstate⟩ := Generation.start_eq h
  obtain ⟨e, s', hrun, hsame, _⟩ | ⟨s', hrun, hsame⟩ := prepare_cases gen.env gen.state
  · left
    unfold bodies
    rw [bind_eq_of_error hrun]
    refine ⟨?_, fun ⟨_, h⟩ => nomatch h⟩
    rw [hstate] at hsame
    exact congrArg Prod.fst hsame
  · right
    unfold bodies
    have hprepared := Generation.prepared h hrun
    rw [bind_eq_of_ok hrun, env_bind]
    have hexists : ∀ id ∈ gen.env.sealed.stateNodes, ∃ n, gen.env.graph.get? id = some n :=
      fun id hid => exists_of_state (Generation.describes h) hid
    obtain ⟨_, c, hrec, hok⟩ :=
      recorded_entries hexists gen.env.graph.classDecl.entryPoints _ hprepared.frozen
    rw [hprepared.ledger] at hrec
    rw [hgraph] at hrec hok ⊢
    rw [hconfig] at hok
    exact ⟨c, hrec, hok⟩

end Bodies

end Emit

/-! ## Running a pass -/

/-- The pass comes to assembly, in a state with a property. -/
abbrev Generation.EndsWith (graph : Graph Node) (config : Config)
    (p : Generation Node → State → Prop) : Prop :=
  ∃ gen s, start graph config = .ok gen ∧ bodies gen.env gen.state = (.ok (), s) ∧ p gen s

instance {graph : Graph Node} {config : Config} {p : Generation Node → State → Prop}
    [∀ gen s, Decidable (p gen s)] : Decidable (Generation.EndsWith graph config p) :=
  match hstart : Generation.start graph config with
  | .error _ => .isFalse fun ⟨_, _, hstart', _⟩ => by cases hstart.symm.trans hstart'
  | .ok gen =>
    match hrun : bodies gen.env gen.state with
    | (.error _, _) => .isFalse fun ⟨_, _, hstart', hrun', _⟩ => by
      cases hstart.symm.trans hstart'
      cases hrun.symm.trans hrun'
    | (.ok (), s) => decidable_of_iff (p gen s)
      ⟨fun h => ⟨gen, s, hstart, hrun, h⟩, fun ⟨_, _, hstart', hrun', h⟩ => by
        cases hstart.symm.trans hstart'
        cases hrun.symm.trans hrun'
        exact h⟩

/-- A class whose only event starts at node 1. -/
def startsAtOne : ClassDecl :=
  { name := "C", events := [{ id := ⟨1⟩, name := "Start", entry := some ⟨1⟩ }] }

/-- A call of a method of the object itself. -/
def ownCall (name : String) (args : List Term := []) : Term :=
  .chain .self [Step.ofMethod name .void [] args]

end FlowClass
