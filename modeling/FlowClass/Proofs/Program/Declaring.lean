import FlowClass.Proofs.Program.Rosters

/-!
# Declaring

Preparation enters the declarations of a class one after the other, and then lets nodes enter what
they need. `Declaring` lists what one such step does to the state. A preparation that succeeds is made
of these steps after the fixed names are reserved (`Emit.exists_declaring`), so that an invariant of
prepared states is a case for each step.

Since no two declarations share an identity, each property is new when it is entered, and each
parameter is named once (`Entered`).
-/

namespace FlowClass

open List State ClassDecl ParamDecl

/-- The declaration stands for static members. -/
def Decl.isStatic : Decl → Bool
  | .variable v => v.modifiers.isStatic
  | .localOf .. => false
  | .function f => f.modifiers.isStatic
  | .property p => p.modifiers.isStatic
  | .constructor k => k.modifiers.isStatic
  | .event _ => false

/-! ## Properties -/

theorem modify_length {α : Type} (l : List α) (a : α) (f : α → α) :
    (l ++ [a]).modify l.length f = l ++ [f a] := by
  induction l with
  | nil => rfl
  | cons b l ih => exact congrArg (b :: ·) ih

namespace Emit

variable {ν : Type}

theorem accessorBody_run (id : DeclId) (kind : EntryKind) (node : Option NodeId) (env : Env ν)
    (s : State) :
    accessorBody id kind node env s =
      (.ok (node.map fun _ => ⟨s.symbols.bodies.length⟩),
        { s with
          symbols :=
            { s.symbols with bodies := s.symbols.bodies ++ List.replicate node.toList.length {} }
          accessors := (node.toList.map fun _ => ((id, kind), ⟨s.symbols.bodies.length⟩)) ++
            s.accessors }) := by
  cases node with
  | none => simp [accessorBody, pure_apply]
  | some node => rfl

/-- A property with a new identity is entered. -/
theorem declareProperty_run {s : State} {p : PropertyDecl}
    (hnew : p.id ∉ s.symbols.properties.map PropertySymbol.decl) (env : Env ν) :
    declareProperty p env s = (.ok (), s.withProperty p) := by
  have hnone : s.symbols.properties.findIdx? (·.decl = p.id) = none :=
    findIdx?_eq_none_iff.2 fun q hq =>
      decide_eq_false fun heq => hnew (heq ▸ mem_map_of_mem hq)
  unfold declareProperty SymbolTable.registerProperty
  rw [bind_apply]
  dsimp only [Emit.get]
  rw [hnone, bind_eq_of_ok rfl, bind_eq_of_ok (accessorBody_run _ _ _ _ _),
    bind_eq_of_ok (accessorBody_run _ _ _ _ _)]
  unfold withProperty
  cases p.getter <;> cases p.setter <;>
    simp [Emit.modify, SymbolTable.modifyProperty, modify_length]

end Emit

/-- The state after a parameter was named. -/
abbrev State.withParam (s : State) (owner : DeclId) (index : Nat) (p : ParamDecl) : State :=
  { s with
    names := (s.names.nameFor (.param owner index) p.name).2
    params :=
      ((owner, index), ((s.names.nameFor (.param owner index) p.name).1, p.type)) :: s.params }

/-- What one step of the preparation does to the state. -/
inductive Declaring (c : ClassDecl) : State → State → Prop where
  /-- A node enters a variable of its own. -/
  | own (s : State) (id : NodeId) (name : String) (type : Ty) :
    Declaring c s (s.withVariable { key := .node id, name, type })
  | field (s : State) {d : VariableDecl} {v : VariableSymbol} (hd : d ∈ c.fields)
    (hkey : v.key = .decl d.id) (hstorage : v.storage = .field)
    (hmodifiers : v.modifiers = d.modifiers) : Declaring c s (s.withVariable v)
  | localOf (s : State) {f : FunctionDecl} {d : VariableDecl} {v : VariableSymbol}
    (hf : f ∈ c.functions) (hentered : f.id ∈ s.symbols.owners) (hd : d ∈ f.locals)
    (hkey : v.key = .decl d.id)
    (hstorage : v.storage = ((s.symbols.declBody? f.id).map Storage.localTo).getD .unbound)
    (hmodifiers : v.modifiers = {}) (hdefault : v.default = d.default) :
    Declaring c s (s.withVariable v)
  | param (s : State) (owner : DeclId) (index : Nat) (p : ParamDecl) :
    Declaring c s (s.withParam owner index p)
  /-- A function or an event is entered. -/
  | method (s : State) {id : DeclId} {decl : Decl} {m : MethodSymbol} {handle : MethodHandle}
    {symbols : SymbolTable} {names : Names} (hdecl : c.get id = .ok decl)
    (hnew : id ∉ s.symbols.owners) (hbase : m.base ∈ c.methodNames)
    (hstatic : m.modifiers.isStatic = decl.isStatic)
    (h : s.symbols.registerMethod s.names (some (.decl id)) m = .ok (handle, symbols, names)) :
    Declaring c s { s with symbols, names }
  | property (s : State) {p : PropertyDecl} (hp : p ∈ c.properties)
    (hnew : p.id ∉ s.symbols.properties.map PropertySymbol.decl) :
    Declaring c s (s.withProperty p)
  | constructor (s : State) {k : ConstructorDecl} (hk : k ∈ c.constructors)
    (hnew : k.id ∉ s.symbols.owners) (params : List ParamSymbol) :
    Declaring c s
      { s with symbols := (s.symbols.registerConstructor (some k.id) params k.modifiers).2 }
  | classify (s : State) (classifier : Classifier) : Declaring c s { s with classifier }

namespace Emit

variable {α β : Type} {x : Emit Node α}

/-! ## Emissions that succeed -/

/-- If the emission succeeds, it leads from states with the first property to results with the
second. -/
def Provides (P : State → Prop) (Q : α → State → Prop) (x : Emit Node α) : Prop :=
  ∀ env s, P s → ∀ a s', x env s = (.ok a, s') → Q a s'

namespace Provides

variable {P : State → Prop} {Q : α → State → Prop} {R : β → State → Prop}

theorem bind (hx : Provides P Q x) {f : α → Emit Node β} (hf : ∀ a, Provides (Q a) R (f a)) :
    Provides P R (x >>= f) := by
  intro env s hs b s'' hrun
  obtain ⟨a, s', hfirst, hrest⟩ := bind_eq_ok_iff.1 hrun
  exact hf a env s' (hx env s hs a s' hfirst) b s'' hrest

theorem pure {a : α} (h : ∀ s, P s → Q a s) : Provides P Q (Pure.pure a : Emit Node α) := by
  intro env s hs b s' hrun
  cases hrun
  exact h s hs

theorem ofRun (h : ∀ env s, P s → ∃ a s', x env s = (.ok a, s') ∧ Q a s') : Provides P Q x := by
  intro env s hs b s'' hrun
  obtain ⟨a, s', hok, hQ⟩ := h env s hs
  rw [hok] at hrun
  cases hrun
  exact hQ

theorem modify {f : State → State} {Q : Unit → State → Prop} (h : ∀ s, P s → Q () (f s)) :
    Provides P Q (Emit.modify f : Emit Node Unit) :=
  ofRun fun _ s hs => ⟨(), f s, rfl, h s hs⟩

/-- By the members of a list that are dealt with. -/
theorem forM {I : List α → State → Prop} {f : α → Emit Node Unit} (l : List α)
    (h : ∀ done a rest, l = done ++ a :: rest →
      Provides (I done) (fun _ => I (done ++ [a])) (f a)) :
    Provides (I []) (fun _ => I l) (l.forM f) := by
  have hrest (done rest : List α) (heq : l = done ++ rest) :
      Provides (I done) (fun _ => I l) (rest.forM f) := by
    induction rest generalizing done with
    | nil =>
      rw [append_nil] at heq
      exact .pure fun s hs => heq ▸ hs
    | cons a rest ih =>
      refine .bind (h done a rest heq) fun _ => ih (done ++ [a]) ?_
      rw [heq, append_assoc, singleton_append]
  exact hrest [] l rfl

end Provides

/-- The emission enters what a roster lists, where none of it is there yet. -/
def Enrols (I : Roster → State → Prop) (r : Roster) (x : Emit Node Unit) : Prop :=
  ∀ r₀ : Roster, (r₀ ++ r).ids.Nodup → Provides (I r₀) (fun _ => I (r₀ ++ r)) x

namespace Enrols

variable {I : Roster → State → Prop}

theorem bind {r r' : Roster} {x y : Emit Node Unit} (hx : Enrols I r x) (hy : Enrols I r' y) :
    Enrols I (r ++ r') (x >>= fun _ => y) := by
  intro r₀ hnodup
  rw [← Roster.append_assoc] at hnodup ⊢
  exact .bind (hx r₀ (Roster.nodup_left hnodup)) fun _ => hy _ hnodup

/-- The members of a list are entered one after the other. -/
theorem forM {roster : α → Roster} {f : α → Emit Node Unit} {as : List α}
    (h : ∀ a ∈ as, Enrols I (roster a) (f a)) : Enrols I (.ofList as roster) (as.forM f) := by
  induction as with
  | nil =>
    intro r₀ _
    refine .pure fun s hs => ?_
    simpa [Roster.append_def, Roster.ofList] using hs
  | cons a as ih =>
    obtain ⟨hfirst, hrest⟩ := forall_mem_cons.1 h
    exact hfirst.bind (ih hrest)

/-- Fields, functions, properties, constructors and events are entered, in this order. -/
theorem declarations {c : ClassDecl} (hids : c.declIds.Nodup)
    (hfield : ∀ v ∈ c.fields, Enrols I { varIds := [v.id] } (declareVariable v))
    (hfunction : ∀ f ∈ c.functions, Enrols I f.roster (declareFunction f))
    (hproperty : ∀ p ∈ c.properties, Enrols I { properties := [p] } (declareProperty p))
    (hconstructor : ∀ k ∈ c.constructors, Enrols I k.roster (declareConstructor k))
    (hevent : ∀ e ∈ c.events, Enrols I e.roster (declareEvent e)) :
    Provides (I {}) (fun _ => I c.roster) (do
      c.fields.forM declareVariable
      c.functions.forM declareFunction
      c.properties.forM declareProperty
      c.constructors.forM declareConstructor
      c.events.forM declareEvent) := by
  have hall := (Enrols.forM hfield).bind <| (Enrols.forM hfunction).bind <|
    (Enrols.forM hproperty).bind <| (Enrols.forM hconstructor).bind <| Enrols.forM hevent
  have hnone {α β : Type} (l : List α) : l.flatMap (fun _ => ([] : List β)) = [] := by simp
  have hroster : {} ++ (Roster.ofList c.fields (fun v => { varIds := [v.id] }) ++
      (Roster.ofList c.functions FunctionDecl.roster ++
      (Roster.ofList c.properties (fun p => { properties := [p] }) ++
      (Roster.ofList c.constructors ConstructorDecl.roster ++
      Roster.ofList c.events EventDecl.roster)))) = c.roster := by
    simp [Roster.append_def, Roster.ofList, FunctionDecl.roster, ConstructorDecl.roster,
      EventDecl.roster, roster, varIds, methods, paramKeys,
      hnone, ← map_eq_flatMap]
  have hrun := hall {}
  rw [hroster] at hrun
  exact hrun (nodup_roster hids)

end Enrols

/-- A node of the library enters at most a variable. -/
theorem setUpNode_run (id : NodeId) (env : Env Node) (s : State) :
    (setUpNode id env s).2 = s ∨
      ∃ name type, (setUpNode id env s).2 = s.withVariable { key := .node id, name, type } := by
  obtain hrun | ⟨n, _, hrun⟩ := setUpNode_cases id env s
  · rw [hrun]
    exact .inl rfl
  · rw [hrun]
    cases n with
    | forLoop | forEach | localVariable => exact .inr ⟨_, _, rfl⟩
    | _ => exact .inl rfl

theorem quiet_setUpNode (id : NodeId) : Quiet (setUpNode id : Emit Node Unit) := by
  intro env s
  obtain hsame | ⟨name, type, hentered⟩ := setUpNode_run id env s
  · rw [hsame]
  · rw [hentered]
    exact .single (.ownVariable s id name type)

/-! ## Steps -/

/-- Which steps led here, and what they entered; the latest parameter comes first. -/
structure Entered (c : ClassDecl) (start : State) (r : Roster) (s : State) : Prop where
  steps : Relation.ReflTransGen (Declaring c) start s
  enrolled : Enrolled r s
  params : s.params.map Prod.fst = r.params.reverse

section Steps

variable {c : ClassDecl} {start : State} {r : Roster}

theorem entered_registerParams (owner : DeclId) (index : Nat) (ps : List ParamDecl) :
    Provides (Entered c start r)
      (fun params s => Entered c start
        (r ++ { params := (List.range' index ps.length).map fun i => (owner, i) }) s ∧
        ParamSymbol.signature params = signature ps)
      (registerParams owner index ps) := by
  induction ps generalizing index r with
  | nil =>
    refine .pure fun s hs => ⟨?_, rfl⟩
    simpa [Roster.append_def] using hs
  | cons p ps ih =>
    intro env s hs params s' hrun
    have hnamed : Entered c start (r ++ { params := [(owner, index)] })
        (s.withParam owner index p) := by
      refine ⟨hs.steps.tail (.param s owner index p), (hs.enrolled.withParams _).same rfl rfl, ?_⟩
      simp [Roster.append_def, hs.params]
    change (do
      let rest ← registerParams owner (index + 1) ps
      return { name := _, type := p.type, passing := p.passing, default := p.default } :: rest :
        Emit Node (List ParamSymbol)) env _ = _ at hrun
    obtain ⟨rest, s'', hrest, hrun⟩ := bind_eq_ok_iff.1 hrun
    cases hrun
    obtain ⟨hentered, hsignature⟩ := ih (index + 1) env _ hnamed rest s' hrest
    refine ⟨by simpa [Roster.append_def, range'_succ] using hentered, ?_⟩
    show _ :: ParamSymbol.signature rest = _ :: signature ps
    rw [hsignature]

/-- A method is entered for its declaration. -/
theorem entered_registerMethod (method : DeclId × Signature) {decl : Decl} {m : MethodSymbol}
    (hnew : method.1 ∉ r.owners) (hdecl : c.get method.1 = .ok decl) (hbase : m.base ∈ c.methodNames)
    (hstatic : m.modifiers.isStatic = decl.isStatic) (hsignature : m.signature = method.2) :
    Provides (Entered c start r) (fun _ => Entered c start (r ++ { methods := [method] }))
      (registerMethod (.decl method.1) m) := by
  intro env s hs _ s' hrun
  unfold registerMethod at hrun
  split at hrun
  · rename_i handle symbols names hmethod
    cases hrun
    have henrolled := hs.enrolled.registerMethod hnew hmethod
    rw [hsignature] at henrolled
    refine ⟨hs.steps.tail (.method s hdecl (mt (hs.enrolled.owners _).1 hnew) hbase hstatic hmethod),
      henrolled, ?_⟩
    simp [Roster.append_def, hs.params]
  · cases hrun

/-! ## Declarations -/

theorem entered_declareVariable {d : VariableDecl} (hd : d ∈ c.fields) :
    Enrols (Entered c start) { varIds := [d.id] } (declareVariable d) := by
  refine fun r₀ _ => .ofRun fun _ s hs => ⟨(), _, rfl, hs.steps.tail (.field s hd rfl rfl rfl),
    hs.enrolled.registerVariable rfl, ?_⟩
  simp [Roster.append_def, hs.params]

/-- Locals are entered once their function is. -/
theorem entered_declareLocal {f : FunctionDecl} (hf : f ∈ c.functions) {d : VariableDecl}
    (hd : d ∈ f.locals) :
    Enrols (fun r s => f.id ∈ r.owners ∧ Entered c start r s) { varIds := [d.id] }
      (declareLocal f.id d) := by
  refine fun r₀ _ => .ofRun fun _ s ⟨howner, hs⟩ => ⟨(), _, rfl, ?_,
    hs.steps.tail (.localOf s hf ((hs.enrolled.owners _).2 howner) hd rfl rfl rfl rfl),
    hs.enrolled.registerVariable rfl, ?_⟩
  · rwa [Roster.owners_withVars]
  · simp [Roster.append_def, hs.params]

theorem entered_setUpNode (id : NodeId) :
    Provides (Entered c start r) (fun _ => Entered c start r) (setUpNode id) := by
  intro env s hs _ s' hrun
  obtain hsame | ⟨name, type, hentered⟩ := setUpNode_run id env s
  · rw [hrun] at hsame
    cases hsame
    exact hs
  · rw [hrun] at hentered
    cases hentered
    exact ⟨hs.steps.tail (.own s id name type), hs.enrolled.ownVariable id name type, hs.params⟩

theorem entered_declareProperty {p : PropertyDecl} (hp : p ∈ c.properties) :
    Enrols (Entered c start) { properties := [p] } (declareProperty p) := by
  intro r₀ hnodup env s hs _ s' hrun
  have hnew := Roster.not_mem_properties hnodup (show p.id ∈ _ by simp [Roster.ids])
  rw [← hs.enrolled.decls] at hnew
  rw [declareProperty_run hnew env] at hrun
  cases hrun
  refine ⟨hs.steps.tail (.property s hp hnew), hs.enrolled.withProperty p, ?_⟩
  simp [Roster.append_def, withProperty, hs.params]

theorem entered_declareConstructor {k : ConstructorDecl} (hk : k ∈ c.constructors) :
    Enrols (Entered c start) k.roster (declareConstructor k) := by
  intro r₀ hnodup
  have hnew := ConstructorDecl.not_mem_owners hnodup
  rw [← Roster.owners_withParams r₀ (keys k.id k.params)] at hnew
  rw [ConstructorDecl.roster, ← Roster.append_assoc]
  refine .bind (entered_registerParams k.id 0 k.params) fun params => .modify fun s hs =>
    ⟨hs.1.steps.tail (.constructor s hk (mt (hs.1.enrolled.owners _).1 hnew) params),
      hs.1.enrolled.registerConstructor hnew params k.modifiers, ?_⟩
  simpa [Roster.append_def, ParamDecl.keys] using hs.1.params

section Unique

variable (hids : c.declIds.Nodup)
include hids

theorem entered_declareFunction {f : FunctionDecl} (hf : f ∈ c.functions) :
    Enrols (Entered c start) f.roster (declareFunction f) := by
  have hbase : f.name ∈ c.methodNames := mem_append_left _ (mem_map_of_mem hf)
  have hlocals : Roster.ofList f.locals (fun v => { varIds := [v.id] }) =
      { varIds := f.locals.map VariableDecl.id } := by
    simp [Roster.ofList, ← map_eq_flatMap]
  intro r₀ hnodup
  have hnew := FunctionDecl.not_mem_owners hnodup
  rw [← Roster.owners_withParams r₀ (keys f.id f.params)] at hnew
  rw [FunctionDecl.roster, ← Roster.append_assoc, ← Roster.append_assoc, ← hlocals] at hnodup ⊢
  refine .bind (entered_registerParams f.id 0 f.params) fun params =>
    .bind (Q := fun _ => Entered c start _) (fun env s hs => entered_registerMethod f.method hnew
      (get_of_belongs hids (.function f) hf) hbase rfl ?_ env s hs.1) fun _ env s hs a s' hrun => ?_
  · rw [MethodSymbol.signature, hs.2]
    rfl
  · refine (Enrols.forM (fun d hd => entered_declareLocal hf hd) _ hnodup env s ⟨?_, hs⟩ a s' hrun).2
    simp [Roster.owners, Roster.append_def, FunctionDecl.method]

theorem entered_declareEvent {e : EventDecl} (he : e ∈ c.events) :
    Enrols (Entered c start) e.roster (declareEvent e) := by
  have hbase : e.name ∈ c.methodNames := mem_append_right _ (mem_map_of_mem he)
  intro r₀ hnodup
  have hnew := EventDecl.not_mem_owners hnodup
  rw [← Roster.owners_withParams r₀ (keys e.id e.params)] at hnew
  rw [EventDecl.roster, ← Roster.append_assoc]
  refine .bind (entered_registerParams e.id 0 e.params) fun params env s hs =>
    entered_registerMethod e.method hnew (get_of_belongs hids (.event e) he) hbase rfl ?_ env s hs.1
  rw [MethodSymbol.signature, hs.2]
  rfl

end Unique

end Steps

/-! ## Preparation -/

/-- What `reserveNames` does: the class, the dispatcher and the runtime object have their names. -/
def reserved (env : Env Node) (s : State) : State :=
  { s with
    names :=
      [env.graph.classDecl.name, dispatcherName, runtimeProperty, runtimeField].foldl
        Names.reserve s.names
    imports := (env.graph.classDecl.usings ++ env.config.usings).foldl Imports.add
      (s.imports.reserve env.graph.classDecl.name) }

section Prepare

variable {env : Env Node} (hids : env.graph.classDecl.declIds.Nodup) {s : State}
include hids

/-- All declarations of a class are entered, after the fixed names are reserved. -/
theorem entered_registerDeclarations
    (hrun : registerDeclarations env (initial env) = (.ok (), s)) :
    Entered env.graph.classDecl (reserved env (initial env)) env.graph.classDecl.roster s := by
  have hstart : Entered env.graph.classDecl (reserved env (initial env)) {}
      (reserved env (initial env)) := by
    refine ⟨.refl, ?_, rfl⟩
    constructor <;> simp [reserved, initial, SymbolTable.newBody, SymbolTable.declName?,
      SymbolTable.declBody?, SymbolTable.keys, SymbolTable.owners, Roster.owners, IsFirst]
  exact Enrols.declarations hids (fun _ => entered_declareVariable)
    (fun _ => entered_declareFunction hids) (fun _ => entered_declareProperty)
    (fun _ => entered_declareConstructor) (fun _ => entered_declareEvent hids) env _ hstart _ s hrun

theorem enrolled_registerDeclarations
    (hrun : registerDeclarations env (initial env) = (.ok (), s)) :
    Enrolled env.graph.classDecl.roster s :=
  (entered_registerDeclarations hids hrun).enrolled

/-- A preparation that succeeds is made of its steps, after the fixed names are reserved. -/
theorem exists_declaring (hrun : prepare env (initial env) = (.ok (), s)) :
    Entered env.graph.classDecl (reserved env (initial env)) env.graph.classDecl.roster s := by
  obtain ⟨_, s₁, hdeclared, hrun⟩ := bind_eq_ok_iff.1 hrun
  rw [env_bind] at hrun
  obtain ⟨_, s₂, hnodes, hsealed⟩ := bind_eq_ok_iff.1 hrun
  have hset := Provides.forM (I := fun _ => Entered _ _ _) env.table.ids
    (fun _ id _ _ => entered_setUpNode id) env s₁ (entered_registerDeclarations hids hdeclared) _ s₂
    hnodes
  cases hsealed
  exact ⟨hset.steps.tail (.classify s₂ _), hset.enrolled.same rfl rfl, hset.params⟩

end Prepare

end Emit

end FlowClass
